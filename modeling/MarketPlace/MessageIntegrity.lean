import MarketPlace.ProductAuthority

/-!
# Who writes and who reads a message

The sender of a message takes part in its conversation, and its read time is
set once, by the other participant.  Nothing else of a message ever changes.
-/

namespace MarketPlace.Trade

open Interleaving Relational

variable {app : Deployment}

/-! ## What one write does to the messages -/

/-- Where a message comes from: it was there, it is inserted, or it is marked
as read. -/
inductive MessageOrigin (db : Database) (change : Change) (id : ℕ)
    (row' : MessageRow) : Prop
  | kept (hrow : db.messages.get id = some row')
  | inserted (hchange : change = .insertMessage row') (hid : row'.id = id)
      (hfree : db.messages.get id = none)
  | read (row : MessageRow) (now : ℕ) (hchange : change = .markRead id now)
      (hrow : db.messages.get id = some row)
      (hread : row' = { row with readAt := row.readAt.or (some now) })

theorem messageOrigin {db : Database} {change : Change} {id : ℕ}
    {row' : MessageRow}
    (hrow : (db.apply change).messages.get id = some row') :
    MessageOrigin db change id row' := by
  cases change with
  | insertMessage row =>
      rcases Table.get_insert_eq_some hrow with hold | ⟨rfl, hid, hfree⟩
      · exact .kept hold
      · exact .inserted rfl hid hfree
  | markRead messageId now =>
      obtain ⟨row, hold, hread⟩ :=
        Table.get_modify_eq_some (by intro; rfl) hrow
      have hid : row.id = id := Table.key_of_get hold
      by_cases hmarked : row.id = messageId
      · rw [if_pos (decide_eq_true hmarked)] at hread
        obtain rfl : messageId = id := hmarked.symm.trans hid
        exact .read row now rfl hold hread.symm
      · rw [if_neg (by simpa using hmarked)] at hread
        exact .kept (hread ▸ hold)
  | _ => exact .kept hrow

theorem Database.messages_apply_of_transactional {change : Change}
    (htransactional : change.transactional = true) (db : Database) :
    (db.apply change).messages = db.messages := by
  cases change <;> first | contradiction | rfl

theorem Database.messages_settle {changes : List Change}
    (htransactional : ∀ change ∈ changes, change.transactional = true)
    (db : Database) : (schema.settle changes db).messages = db.messages :=
  ReadCommitted.Store.settle_preserves schema
    (fun change hchange data (hdata : data.messages = db.messages) =>
      (messages_apply_of_transactional (htransactional change hchange)
        data).trans hdata)
    rfl

/-! ## What one move does to the messages -/

/-- What a request of `user` can do to a message. -/
inductive MessageStep (user : Option ℕ) (db : Database) (id : ℕ)
    (row' : MessageRow) : Prop
  | kept (hrow : db.messages.get id = some row')
  | sent (hfree : db.messages.get id = none)
      (hsender : user = some row'.senderId) (hunread : row'.readAt = none)
      (hpart : TakesPart row'.senderId row'.conversationId db)
  | read (row : MessageRow) (reader now : ℕ) (huser : user = some reader)
      (hrow : db.messages.get id = some row)
      (hpart : TakesPart reader row.conversationId db)
      (hother : row.senderId ≠ reader)
      (hread : row' = { row with readAt := row.readAt.or (some now) })

theorem Acts.message {rights : Rights} {i id : ℕ} {m m' : Market}
    {row' : MessageRow} (hacts : Acts rights i m m')
    (hrow : m'.db.messages.get id = some row') :
    MessageStep rights.user m.db id row' := by
  rcases hacts with rfl | hstep
  · exact .kept hrow
  cases hstep with
  | wrote actor change huser hwrites halone hunlocked hviolation hoffered =>
      cases messageOrigin hrow with
      | kept hold => exact .kept hold
      | inserted hchange hid hfree =>
          subst hchange
          obtain ⟨-, hsender, hunread, hpart⟩ := hoffered
          subst hsender
          exact .sent hfree huser hunread hpart
      | read row now hchange hold hread =>
          subst hchange
          obtain ⟨other, conversation, hother, hget, hpart, hne⟩ := hoffered
          obtain rfl := Option.some.inj (hold.symm.trans hother)
          exact .read row actor now huser hold ⟨conversation, hget, hpart⟩ hne
            hread
  | committed actor huser htransaction =>
      have hmessages : (m.commit i).db.messages = m.db.messages :=
        Database.messages_settle htransaction.transactional m.db
      rw [hmessages] at hrow
      exact .kept hrow
  | lost | rejected | queued | locked | rolledBack => exact .kept hrow

theorem Market.messages_surroundings (event : Surroundings) (m : Market) :
    (m.surroundings event).db.messages = m.db.messages := by
  cases event <;> rfl

/-! ## The invariant -/

/-- Every sender takes part in the conversation of the message. -/
def SendersTakePart (db : Database) : Prop :=
  ∀ id row, db.messages.get id = some row →
    TakesPart row.senderId row.conversationId db

theorem Acts.sendersTakePart {rights : Rights} {i : ℕ} {m m' : Market}
    (hacts : Acts rights i m m') (hsound : m.Sound)
    (h : SendersTakePart m.db) : SendersTakePart m'.db := by
  intro id row' hrow'
  refine TakesPart.grows ?_ (hacts.rely hsound).grows
  cases hacts.message hrow' with
  | kept hrow => exact h id row' hrow
  | sent hfree hsender hunread hpart => exact hpart
  | read row reader now huser hrow hpart hother hread =>
      subst hread
      exact h id row hrow

variable {pool next later : Pool Request Draw Market Fault Response} {now : ℕ}

theorem senders_take_part
    (hreach : (market app).Reaches (fun _ _ => True) (Pool.opening now) pool) :
    SendersTakePart pool.state.db := by
  refine hreach.furtherWithin market_sound onCourse_opening
    (fun m => SendersTakePart m.db) (fun _ _ h => nomatch h)
    (fun hacts hsound h => hacts.sendersTakePart hsound h) ?_
  intro event m _ h id row hrow
  rw [market_environment, Market.messages_surroundings] at hrow
  exact (h id row hrow).grows (Market.rely_surroundings event 0 m).grows

/-- The move is an action of a request of the participant who did not send
the message, which was unread. -/
def ReadByRecipient
    (move : Move Request Draw Surroundings) (row : MessageRow)
    (pool : Pool Request Draw Market Fault Response) : Prop :=
  row.readAt = none ∧
    ∃ i d thread reader, move = .advance i d ∧
      pool.threads[i]? = some thread ∧ thread.request.user = some reader ∧
        TakesPart reader row.conversationId pool.state.db ∧
          reader ≠ row.senderId

theorem message_of_perform
    (hreach : (market app).Reaches (fun _ _ => True) (Pool.opening now) pool)
    {move : Move Request Draw Surroundings}
    (hperform : (market app).perform move pool = some next) {id : ℕ}
    {row' : MessageRow} (hrow' : next.state.db.messages.get id = some row') :
    pool.state.db.messages.get id = some row' ∨
      ∃ i d thread, move = .advance i d ∧ pool.threads[i]? = some thread ∧
        MessageStep thread.request.user pool.state.db id row' := by
  rcases (onCourse_of_reaches hreach).perform_cases hperform with
    hsame | ⟨i, d, thread, hmove, hthread, hacts⟩ | ⟨event, -, henvironment⟩
  · exact .inl (hsame ▸ hrow')
  · exact .inr ⟨i, d, thread, hmove, hthread, hacts.message hrow'⟩
  · rw [henvironment, market_environment, Market.messages_surroundings]
      at hrow'
    exact .inl hrow'

/-- A message that a move leaves with another read time was unread, and the
recipient's request marks it. -/
theorem read_by_recipient
    (hreach : (market app).Reaches (fun _ _ => True) (Pool.opening now) pool)
    {move : Move Request Draw Surroundings}
    (hperform : (market app).perform move pool = some next) {id : ℕ}
    {row row' : MessageRow} (hrow : pool.state.db.messages.get id = some row)
    (hrow' : next.state.db.messages.get id = some row')
    (hread : row'.readAt ≠ row.readAt) : ReadByRecipient move row pool := by
  rcases message_of_perform hreach hperform hrow' with
    hsame | ⟨i, d, thread, hmove, hthread, hstep⟩
  · obtain rfl := Option.some.inj (hrow.symm.trans hsame)
    exact absurd rfl hread
  cases hstep with
  | kept hold =>
      obtain rfl := Option.some.inj (hrow.symm.trans hold)
      exact absurd rfl hread
  | sent hfree => exact absurd (hrow.symm.trans hfree) (by simp)
  | read old reader now huser hold hpart hother hmarked =>
      obtain rfl := Option.some.inj (hrow.symm.trans hold)
      subst hmarked
      cases hunread : row.readAt with
      | some time => simp [hunread] at hread
      | none =>
          exact ⟨hunread, i, d, thread, reader, hmove, hthread, huser, hpart,
            hother.symm⟩

/-- A message that a move adds is unread. -/
theorem added_unread
    (hreach : (market app).Reaches (fun _ _ => True) (Pool.opening now) pool)
    {move : Move Request Draw Surroundings}
    (hperform : (market app).perform move pool = some next) {id : ℕ}
    {row' : MessageRow} (hfree : pool.state.db.messages.get id = none)
    (hrow' : next.state.db.messages.get id = some row') :
    row'.readAt = none := by
  rcases message_of_perform hreach hperform hrow' with
    hsame | ⟨i, d, thread, -, -, hstep⟩
  · exact absurd (hfree.symm.trans hsame) (by simp)
  cases hstep with
  | kept hold => exact absurd (hfree.symm.trans hold) (by simp)
  | sent _ hsender hunread => exact hunread
  | read old reader now huser hold =>
      exact absurd (hfree.symm.trans hold) (by simp)

/-- Senders take part in their conversations, read times are set by the other
participant and stay, and the rest of a message never changes. -/
theorem message_integrity
    (hreach : (market app).Reaches (fun _ _ => True) (Pool.opening now) pool) :
    SendersTakePart pool.state.db ∧
    (∀ move next, (market app).perform move pool = some next →
      ∀ id row', next.state.db.messages.get id = some row' →
        (pool.state.db.messages.get id = none → row'.readAt = none) ∧
        ∀ row, pool.state.db.messages.get id = some row →
          row'.readAt ≠ row.readAt → ReadByRecipient move row pool) ∧
    ∀ later, (market app).Reaches (fun _ _ => True) pool later →
      ∀ id row, pool.state.db.messages.get id = some row →
        ∃ row', later.state.db.messages.get id = some row' ∧
          row'.messageText = row.messageText ∧ row'.senderId = row.senderId ∧
          row'.conversationId = row.conversationId ∧
          ∀ time, row.readAt = some time → row'.readAt = some time := by
  refine ⟨senders_take_part hreach, fun move next hperform id row' hrow' =>
    ⟨fun hfree => added_unread hreach hperform hfree hrow',
      fun row hrow hread =>
        read_by_recipient hreach hperform hrow hrow' hread⟩, ?_⟩
  intro later hlater id row hrow
  obtain ⟨row', hrow', hkept⟩ :=
    (grows_of_reaches hreach hlater).messages id row hrow
  exact ⟨row', hrow', hkept.text, hkept.sender, hkept.conversation, hkept.read⟩

/-- Users 1 and 2 register and open a conversation. -/
def meets : List (Move Request Draw Surroundings) :=
  [.environment (.userRegisters "Amina" "+201"),
    .environment (.userRegisters "Basil" "+202"),
    .submit (.getOrCreateConversation 1 2 none)] ++
    List.replicate 7 (.advance 0 calmDraw)

/-- User 1 sends a message, which user 2 reads. -/
def sendsAndReads : List (Move Request Draw Surroundings) :=
  [Move.submit (Request.sendMessage 1 1 "Hello")] ++
    List.replicate 4 (Move.advance 1 calmDraw) ++
    [Move.environment (Surroundings.timePasses 5),
      Move.submit (Request.markRead 2 1)] ++
    List.replicate 4 (Move.advance 2 calmDraw)

theorem message_integrity_read :
    ∃ pool row, (market sampleApp).Reaches (fun _ _ => True)
        (Pool.opening 0) pool ∧
      pool.state.db.messages.get 1 = some row ∧ row.readAt = some 5 ∧
      ∀ later, (market sampleApp).Reaches (fun _ _ => True) pool later →
        ∃ row', later.state.db.messages.get 1 = some row' ∧
          row'.readAt = some 5 := by
  obtain ⟨pool, hreach, hcheck⟩ := System.exists_reaches_of_run
    (show ((market sampleApp).run (meets ++ sendsAndReads)
        (Pool.opening 0)).any
      (fun pool => (pool.state.db.messages.get 1).any fun row =>
        row.readAt = some 5) = true by decide +kernel)
  obtain ⟨row, hrow, hread⟩ := (Option.any_eq_true _ _).mp hcheck
  rw [decide_eq_true_eq] at hread
  refine ⟨pool, row, hreach, hrow, hread, fun later hlater => ?_⟩
  obtain ⟨row', hrow', -, -, -, hkept⟩ :=
    (message_integrity hreach).2.2 later hlater 1 row hrow
  exact ⟨row', hrow', hkept 5 hread⟩

end MarketPlace.Trade
