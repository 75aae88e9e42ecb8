import MarketPlace.ConversationTabs
import MarketPlace.LoneServices

/-!
# The conversation list and the details of a conversation

The list selects conversations in its WHERE clause; the details of one are
read after a check of their own.  In every reachable market both give a user
the same conversations with the same rows, and the count of unread messages
follows what is read and sent.
-/

namespace MarketPlace.Trade

open Interleaving Relational

variable {app : Deployment} {now : ℕ}
  {pool : Pool Request Draw Market Fault Response}

/-! ## Identity values of users start at one -/

/-- No user has the identity value 0, nor will the next one. -/
structure UsersPositive (m : Market) : Prop where
  next : 0 < m.ids.users
  users : ∀ id row, m.db.users.get id = some row → 0 < id

/-- Who is a user after a write was one before, or the write inserts them. -/
theorem Database.user_of_apply {db : Database} {change : Change} {id : ℕ}
    {row : ProfileRow} (h : (db.apply change).users.get id = some row) :
    (∃ old, db.users.get id = some old) ∨
      ∃ new, change = .insertUser new ∧ new.id = id := by
  cases change with
  | insertUser new =>
      rcases Table.get_insert_eq_some h with hold | ⟨-, rfl, -⟩
      · exact .inl ⟨row, hold⟩
      · exact .inr ⟨new, rfl, rfl⟩
  | updateProfile | deleteUser =>
      obtain ⟨old, hold, -⟩ := Table.get_modify_eq_some (by intro; rfl) h
      exact .inl ⟨old, hold⟩
  | _ => exact .inl ⟨row, h⟩

theorem Market.users_le_nextIds (change : Change) (ids : Sequences) :
    ids.users ≤ (Market.nextIds change ids).users := by
  cases change <;> simp [Market.nextIds]

/-- A list of writes without registrations registers nobody. -/
theorem Database.user_of_settle {changes : List Change} {db : Database}
    {id : ℕ} {row : ProfileRow}
    (hchanges : ∀ change ∈ changes, change.transactional = true)
    (h : (schema.settle changes db).users.get id = some row) :
    ∃ old, db.users.get id = some old := by
  induction changes generalizing db with
  | nil => exact ⟨row, h⟩
  | cons change rest ih =>
      rw [List.forall_mem_cons] at hchanges
      obtain ⟨middle, hmiddle⟩ := ih hchanges.2 h
      rcases user_of_apply hmiddle with hold | ⟨new, rfl, -⟩
      · exact hold
      · exact absurd hchanges.1 (by simp [Change.transactional])

theorem Step.usersPositive {rights : Rights} {i : ℕ} {m m' : Market}
    (hstep : Step rights i m m') (h : UsersPositive m) : UsersPositive m' := by
  cases hstep with
  | lost change hwrites => exact ⟨h.next, h.users⟩
  | rejected client change violation hwrites hviolation =>
      exact ⟨h.next.trans_le (Market.users_le_nextIds change m.ids), h.users⟩
  | wrote actor change huser hwrites halone hunlocked hviolation hoffered =>
      refine ⟨h.next.trans_le (Market.users_le_nextIds change m.ids),
        fun userId row hrow => ?_⟩
      rcases Database.user_of_apply hrow with ⟨old, hold⟩ | ⟨new, rfl, -⟩
      · exact h.users userId old hold
      · exact hoffered.elim
  | queued change hwrites htransactional havailable hneeded =>
      exact ⟨h.next.trans_le (Market.users_le_nextIds change m.ids), h.users⟩
  | locked locks havailable => exact ⟨h.next, h.users⟩
  | rolledBack => exact ⟨h.next, h.users⟩
  | committed actor huser htransaction =>
      refine ⟨h.next, fun id row hrow => ?_⟩
      obtain ⟨old, hold⟩ :=
        Database.user_of_settle htransaction.transactional hrow
      exact h.users id old hold

theorem UsersPositive.writeElsewhere {m : Market} {change : Change}
    (h : UsersPositive m)
    (hnew : ∀ new, change = .insertUser new → new.id = m.ids.users) :
    UsersPositive (m.writeElsewhere change) := by
  refine ⟨h.next.trans_le (Market.users_le_nextIds change m.ids),
    fun userId row hrow => ?_⟩
  rcases Database.user_of_apply hrow with ⟨old, hold⟩ | ⟨new, hchange, rfl⟩
  · exact h.users userId old hold
  · rw [hnew new hchange]
    exact h.next

theorem UsersPositive.surroundings {m : Market} (event : Surroundings)
    (h : UsersPositive m) : UsersPositive (m.surroundings event) := by
  cases event with
  | timePasses amount => exact ⟨h.next, h.users⟩
  | userRegisters name phone =>
      refine h.writeElsewhere fun new hchange => ?_
      rw [← Change.insertUser.inj hchange]
  | userDeleted userId =>
      refine h.writeElsewhere fun new hchange => ?_
      contradiction

theorem usersPositive_of_reaches
    (hreach : (market app).Reaches (fun _ _ => True) (Pool.opening now) pool) :
    UsersPositive pool.state := by
  refine hreach.furtherWithin market_sound onCourse_opening UsersPositive
    ⟨Nat.one_pos, fun id row h => ?_⟩ ?_ fun event _ _ h => h.surroundings event
  · contradiction
  · rintro request i m m' hacts - h
    rcases hacts with rfl | hstep
    · exact h
    · exact hstep.usersPositive h

/-! ## Who may read a conversation -/

section Access

variable {i : ℕ} {ws : List Draw} {m t : Market}
  {userId conversationId : ℕ} {row : ConversationRow}

/-- The user takes part in the conversation and no block separates them from
the peer. -/
def Database.Accessible (db : Database) (userId : ℕ) (row : ConversationRow) :
    Prop :=
  row.HasUser userId ∧
    db.hasBlockBetweenUsers userId (row.peerOf userId) = false

theorem participantFault_eq_none_iff (hA : 0 < row.userAId)
    (hB : 0 < row.userBId) :
    participantFault conversationId userId row = none ↔ row.HasUser userId := by
  simp only [participantFault, toPositiveInt, hA, hB, if_true,
    ConversationRow.HasUser, ite_eq_right_iff, reduceCtorEq, imp_false]
  omega

theorem ends_assertConversationParticipant_ok {value : Unit}
    (h : (assertConversationParticipant conversationId userId).Ends i ws m
      (.ok value) t) :
    t = m ∧ ∃ row, m.db.conversations.get conversationId = some row ∧
      participantFault conversationId userId row = none ∧
      m.db.hasBlockBetweenUsers userId (row.peerOf userId) = false := by
  obtain ⟨_, hfound⟩ := ends_select_bind_ok h
  split at hfound
  · exact absurd hfound not_ends_failed_ok
  · next row hrow =>
      split at hfound
      · exact absurd hfound not_ends_failed_ok
      · next hfault =>
          obtain ⟨_, hchecked⟩ := ends_select_bind_ok hfound
          split at hchecked
          · exact absurd hchecked not_ends_failed_ok
          · next hblock =>
              exact ⟨hchecked.2.2, row, hrow, hfault, Bool.eq_false_iff.mpr hblock⟩

theorem ends_assertConversationParticipant_calm (i : ℕ)
    (hrow : m.db.conversations.get conversationId = some row)
    (hfault : participantFault conversationId userId row = none)
    (hblock : m.db.hasBlockBetweenUsers userId (row.peerOf userId) = false) :
    (assertConversationParticipant conversationId userId).Ends i
      [calmDraw, calmDraw] m (.ok ()) m := by
  refine Program.ends_bind_ok.mpr ⟨[calmDraw], [calmDraw], _, m, rfl,
    ends_select_calm none _ i m, ?_⟩
  have hview : (m.viewFor none i).conversations.get conversationId = some row :=
    hrow
  rw [hview]
  dsimp only
  rw [hfault]
  refine Program.ends_bind_ok.mpr ⟨[calmDraw], [], _, m, rfl,
    ends_select_calm none _ i m, ?_⟩
  have hunblocked : (m.viewFor none i).hasBlockBetweenUsers userId
      (row.peerOf userId) = false := hblock
  rw [hunblocked]
  exact ⟨rfl, rfl, rfl⟩

/-- What the details of a conversation need, and what they show. -/
theorem shows_details_iff {view : ConversationView} (hpeopled : m.db.Peopled)
    (hpositive : UsersPositive m) :
    (∃ i ws t, (getConversationById userId conversationId).Ends i ws m
      (.ok view) t) ↔
      ∃ row, m.db.conversations.get conversationId = some row ∧
        m.db.Accessible userId row ∧
        m.db.conversationView userId row = some view := by
  have hfault : ∀ row, m.db.conversations.get conversationId = some row →
      (participantFault conversationId userId row = none ↔
        row.HasUser userId) := by
    intro row hrow
    obtain ⟨-, hA, hB⟩ := hpeopled conversationId row hrow
    obtain ⟨userA, huserA⟩ := Option.isSome_iff_exists.mp hA
    obtain ⟨userB, huserB⟩ := Option.isSome_iff_exists.mp hB
    exact participantFault_eq_none_iff (hpositive.users _ _ huserA)
      (hpositive.users _ _ huserB)
  constructor
  · rintro ⟨i, ws, t, hends⟩
    obtain ⟨_, _, _, m₁, _, hassert, hselects⟩ := Program.ends_bind_ok.mp hends
    obtain ⟨hsame, row, hrow, hnone, hunblocked⟩ :=
      ends_assertConversationParticipant_ok hassert
    rw [hsame] at hselects
    obtain ⟨_, hshown⟩ := ends_select_bind_ok hselects
    have hview : (m.viewFor none i).conversations.get conversationId =
      some row := hrow
    rw [hview, Option.bind_some] at hshown
    split at hshown
    · exact absurd hshown not_ends_failed_ok
    · next shown hsome =>
        obtain rfl := Except.ok.inj hshown.2.1
        exact ⟨row, hrow, ⟨(hfault row hrow).mp hnone, hunblocked⟩, hsome⟩
  · rintro ⟨row, hrow, ⟨huser, hunblocked⟩, hsome⟩
    refine ⟨0, _, m, Program.ends_bind_ok.mpr ⟨_, [calmDraw], (), m, rfl,
      ends_assertConversationParticipant_calm 0 hrow
        ((hfault row hrow).mpr huser) hunblocked, ?_⟩⟩
    refine Program.ends_bind_ok.mpr ⟨[calmDraw], [], _, m, rfl,
      ends_select_calm none _ 0 m, ?_⟩
    have hview : (m.viewFor none 0).conversations.get conversationId =
      some row := hrow
    rw [hview, Option.bind_some,
      show (m.viewFor none 0).conversationView userId row = some view from
        hsome]
    exact ⟨rfl, rfl, rfl⟩

end Access

/-! ## What the list shows -/

theorem Database.listsConversation_all_iff {db : Database} {userId : ℕ}
    {row : ConversationRow} :
    db.listsConversation userId .all row = true ↔ db.Accessible userId row := by
  simp only [listsConversation, Accessible, ConversationRow.HasUser,
    Bool.and_true, Bool.and_eq_true, Bool.or_eq_true, decide_eq_true_eq,
    Bool.not_eq_true', @eq_comm _ userId]

/-- A list that is long enough shows every conversation of the scope. -/
theorem Database.mem_listConversations_iff {db : Database}
    {userId limit : ℕ} {scope : ConversationScope} {tieRank : ℕ → ℕ}
    {view : ConversationView} (hlimit : db.conversations.rows.length ≤ limit) :
    view ∈ db.listConversations userId scope limit 0 tieRank ↔
      ∃ row, db.conversations.get view.id = some row ∧
        db.listsConversation userId scope row = true ∧
        db.conversationView userId row = some view := by
  constructor
  · intro h
    obtain ⟨row, hrow, hview⟩ := List.mem_filterMap.mp h
    have hsorted := List.mem_of_mem_drop (List.mem_of_mem_take hrow)
    rw [List.mem_mergeSort, List.mem_filter, List.mem_filter] at hsorted
    refine ⟨row, ?_, hsorted.1.2, hview⟩
    rw [conversationView_id hview]
    exact Table.get_of_mem hsorted.1.1
  · rintro ⟨row, hrow, hlists, hview⟩
    refine List.mem_filterMap.mpr ⟨row, ?_, hview⟩
    have hpeer : (db.users.get (row.peerOf userId)).isSome = true := by
      obtain ⟨peer, hpeer, -⟩ := Option.map_eq_some_iff.mp hview
      rw [hpeer]
      rfl
    rw [page, List.drop_zero, List.take_of_length_le]
    · rw [List.mem_mergeSort]
      exact List.mem_filter.mpr ⟨List.mem_filter.mpr
        ⟨Table.mem_of_get hrow, hlists⟩, hpeer⟩
    · rw [List.length_mergeSort]
      exact ((List.length_filter_le _ _).trans
        (List.length_filter_le _ _)).trans hlimit

/-! ## Unread messages -/

/-- The unread messages of the conversation that somebody else sent. -/
def Database.unreadFor (db : Database) (userId conversationId : ℕ) :
    List MessageRow :=
  db.messages.rows.filter fun row => row.conversationId = conversationId ∧
    row.senderId ≠ userId ∧ row.readAt = none

theorem Database.unreadCount_eq (db : Database) (userId conversationId : ℕ) :
    db.unreadCount userId conversationId =
      (db.unreadFor userId conversationId).length := by
  rw [unreadCount, messagesOf, List.filter_filter, unreadFor]
  congr 2
  funext row
  cases row.readAt <;> simp [Bool.and_comm]

section Unread

variable {db : Database} {userId conversationId messageId : ℕ}
  {row : MessageRow}

theorem Database.unreadFor_setLastMessage (db : Database)
    (userId conversationId changedId messageId : ℕ) :
    (db.apply (.setLastMessage changedId messageId)).unreadFor userId
      conversationId = db.unreadFor userId conversationId := rfl

/-- Reading a message takes it from the unread ones of the others in its
conversation, if it was among them. -/
theorem Database.unreadFor_markRead (now : ℕ)
    (hrow : db.messages.get messageId = some row)
    (hsender : row.senderId ≠ userId) :
    ((db.apply (.markRead messageId now)).unreadFor userId
        conversationId).length +
      (if row.conversationId = conversationId ∧ row.readAt = none then 1
        else 0) =
      (db.unreadFor userId conversationId).length := by
  obtain ⟨earlier, later, hbefore, hafter⟩ :=
    @Table.rows_modify_of_get _ _ _ _ db.messages
      (fun row => row.id = messageId)
      (fun row => { row with readAt := row.readAt.or (some now) })
      (fun _ => rfl) _ _ hrow (by simp)
  have hread : row.readAt.or (some now) ≠ none := by
    cases row.readAt <;> simp
  simp only [unreadFor, apply, hbefore, hafter, List.filter_append,
    List.length_append, List.filter_cons, hread, hsender, ne_eq,
    not_false_eq_true, and_false, decide_false, true_and, decide_eq_true_eq,
    Bool.false_eq_true, if_false]
  by_cases hcounted : row.conversationId = conversationId ∧ row.readAt = none
  · rw [if_pos hcounted, if_pos hcounted, List.length_cons, Nat.add_assoc]
  · rw [if_neg hcounted, if_neg hcounted, Nat.add_zero]

/-- A new message is unread for everybody but its sender. -/
theorem Database.unreadFor_insertMessage
    (hfree : db.messages.get row.id = none) (hunread : row.readAt = none) :
    ((db.apply (.insertMessage row)).unreadFor userId
        conversationId).length =
      (db.unreadFor userId conversationId).length +
        if row.conversationId = conversationId ∧ row.senderId ≠ userId then 1
        else 0 := by
  simp only [unreadFor, apply, Table.rows_insert, hfree, if_true,
    List.filter_append, List.length_append, List.filter_cons, List.filter_nil,
    hunread, and_true, decide_eq_true_eq]
  split <;> rfl

end Unread

/-! ## Reading and sending alone -/

section Alone

variable {i : ℕ} {ws : List Draw} {m t : Market}
  {userId conversationId messageId : ℕ} {view : MessageView}

/-- A message that is marked as read was sent by somebody else. -/
theorem ends_markRead_ok
    (h : (markRead userId messageId).Ends i ws m (.ok view) t) :
    ∃ row, m.db.messages.get messageId = some row ∧ row.senderId ≠ userId ∧
      t.db = m.db.apply (.markRead messageId m.now) := by
  obtain ⟨_, hfound⟩ := ends_select_bind_ok h
  split at hfound
  · exact absurd hfound not_ends_failed_ok
  next row hrow =>
  split at hfound
  · next senderId _ hsenderId =>
      obtain ⟨_, _, _, n, _, hassert, hchecked⟩ :=
        Program.ends_bind_ok.mp hfound
      obtain ⟨rfl, -⟩ := ends_assertConversationParticipant_ok hassert
      split at hchecked
      · exact absurd hchecked not_ends_failed_ok
      next hsender =>
      obtain ⟨_, _, updated, t', _, hupdate, hshown⟩ :=
        Program.ends_bind_ok.mp hchecked
      obtain ⟨-, hwritten, -⟩ := ends_run_none_ok hupdate
      have hsame : t = t' := by
        split at hshown
        · exact absurd hshown not_ends_failed_ok
        · exact hshown.2.2
      refine ⟨row, hrow, ?_, by rw [hsame, hwritten]; rfl⟩
      simp only [toPositiveInt, Option.ite_none_right_eq_some,
        Option.some.injEq] at hsenderId
      exact hsenderId.2 ▸ hsender
  · exact absurd hfound not_ends_failed_ok

/-- A message that is sent is new, unread and the last of its conversation. -/
theorem ends_sendMessage_ok {messageText : String}
    (h : (sendMessage userId conversationId messageText).Ends i ws m
      (.ok view) t) :
    t.db = (m.db.apply (.insertMessage
        ⟨m.ids.messages, conversationId, userId, messageText, m.now,
          none⟩)).apply (.setLastMessage conversationId m.ids.messages) := by
  obtain ⟨_, _, _, n, _, hassert, hsent⟩ := Program.ends_bind_ok.mp h
  obtain ⟨rfl, -⟩ := ends_assertConversationParticipant_ok hassert
  obtain ⟨_, _, row, n', _, hinsert, hlinked⟩ := Program.ends_bind_ok.mp hsent
  rw [Program.tryCatch_eq_recover] at hinsert
  rcases Program.ends_recover.mp hinsert with
    ⟨row', hrow, hinserted⟩ | ⟨_, _, fault, _, _, -, hhandler⟩
  · obtain rfl := Except.ok.inj hrow
    obtain ⟨-, hwritten, hreturned⟩ := ends_run_none_ok hinserted
    obtain ⟨_, _, _, n'', _, hlast, hdone⟩ := Program.ends_bind_ok.mp hlinked
    rw [hdone.2.2, ends_perform_none_ok hlast, hwritten, hreturned]
    rfl
  · rw [notFoundOnForeignKey] at hhandler
    split at hhandler
    · exact absurd hhandler not_ends_failed_ok
    · exact absurd hhandler not_ends_failed_ok

theorem ends_listConversations_ok {scope : ConversationScope}
    {limit offset : ℕ} {views : List ConversationView}
    (h : (listConversations userId scope limit offset).Ends i ws m
      (.ok views) t) :
    ∃ tieRank, views = m.db.listConversations userId scope limit offset
      tieRank := by
  obtain ⟨w, -, haction⟩ := ends_attempt.mp h
  split at haction
  · simp at haction
  · simp only [Option.some.injEq, Prod.mk.injEq, Except.ok.injEq] at haction
    exact ⟨w.tieRank, haction.1.symm⟩

end Alone

/-! ## The list and the details -/

/-- The details of the conversation can be asked for, and they are these. -/
def Market.ShowsDetails (m : Market) (userId conversationId : ℕ)
    (view : ConversationView) : Prop :=
  ∃ i ws t, (getConversationById userId conversationId).Ends i ws m
    (.ok view) t

theorem Market.unreadCount_of_showsDetails {m : Market}
    {userId conversationId : ℕ} {view : ConversationView}
    (h : m.ShowsDetails userId conversationId view) :
    view.unreadCount = (m.db.unreadFor userId conversationId).length := by
  obtain ⟨i, ws, t, hends⟩ := h
  obtain ⟨_, _, _, n, _, hassert, hselects⟩ := Program.ends_bind_ok.mp hends
  obtain ⟨hsame, row, hrow, -, -⟩ :=
    ends_assertConversationParticipant_ok hassert
  rw [hsame] at hselects
  obtain ⟨_, hshown⟩ := ends_select_bind_ok hselects
  have hview : (m.viewFor none i).conversations.get conversationId =
    some row := hrow
  rw [hview, Option.bind_some] at hshown
  split at hshown
  · exact absurd hshown not_ends_failed_ok
  · next shown hsome =>
      obtain rfl := Except.ok.inj hshown.2.1
      obtain ⟨peer, -, rfl⟩ := Option.map_eq_some_iff.mp hsome
      rw [← Table.key_of_get hrow]
      exact m.db.unreadCount_eq userId row.id

theorem Database.Within.message_free {ids : Sequences} {db : Database}
    (h : db.Within ids) : db.messages.get ids.messages = none := by
  cases hget : db.messages.get ids.messages with
  | none => rfl
  | some row => exact absurd (h.messages _ _ hget) (lt_irrefl _)

/-- In every reachable state a list of all conversations that is long enough
shows a conversation if and only if its details can be asked for, with the same
row.  Its unread count is that of the messages that others sent and that are
not read; reading a message lowers it by one if it was among them, and what the
peer sends raises it by one. -/
theorem list_and_details_agree
    (hreach : (market app).Reaches (fun _ _ => True) (Pool.opening now) pool)
    (userId conversationId : ℕ) :
    (∀ limit i ws views t, pool.state.db.conversations.rows.length ≤ limit →
      (listConversations userId .all limit 0).Ends i ws pool.state
        (.ok views) t →
      ∀ view, (view ∈ views ∧ view.id = conversationId) ↔
        pool.state.ShowsDetails userId conversationId view) ∧
    (∀ (m : Market) view, m.ShowsDetails userId conversationId view →
      view.unreadCount = (m.db.unreadFor userId conversationId).length) ∧
    (∀ messageId row i ws receipt t,
      pool.state.db.messages.get messageId = some row →
      row.conversationId = conversationId →
      (markRead userId messageId).Ends i ws pool.state (.ok receipt) t →
      (t.db.unreadFor userId conversationId).length +
          (if row.readAt = none then 1 else 0) =
        (pool.state.db.unreadFor userId conversationId).length) ∧
    (∀ row messageText i ws receipt t,
      pool.state.db.conversations.get conversationId = some row →
      row.HasUser userId →
      (sendMessage (row.peerOf userId) conversationId messageText).Ends i ws
        pool.state (.ok receipt) t →
      (t.db.unreadFor userId conversationId).length =
        (pool.state.db.unreadFor userId conversationId).length + 1) := by
  have hpeopled := peopled_of_reaches hreach
  refine ⟨?_, fun m view => Market.unreadCount_of_showsDetails, ?_, ?_⟩
  · intro limit i ws views t hlimit hends view
    obtain ⟨tieRank, rfl⟩ := ends_listConversations_ok hends
    rw [Market.ShowsDetails,
      shows_details_iff hpeopled (usersPositive_of_reaches hreach),
      Database.mem_listConversations_iff hlimit]
    simp only [Database.listsConversation_all_iff]
    constructor
    · rintro ⟨hlisted, rfl⟩
      exact hlisted
    · rintro ⟨row, hrow, haccessible, hview⟩
      have hid : view.id = conversationId :=
        (Database.conversationView_id hview).trans (Table.key_of_get hrow)
      exact ⟨⟨row, hid ▸ hrow, haccessible, hview⟩, hid⟩
  · rintro messageId row i ws receipt t hrow rfl hends
    obtain ⟨row', hrow', hsender, hwritten⟩ := ends_markRead_ok hends
    obtain rfl := Option.some.inj (hrow.symm.trans hrow')
    rw [hwritten,
      ← Database.unreadFor_markRead pool.state.now hrow hsender]
    simp only [true_and]
  · intro row messageText i ws receipt t hrow huser hends
    obtain ⟨hordered, -, -⟩ := hpeopled _ row hrow
    have hpeer : row.peerOf userId ≠ userId := by
      unfold ConversationRow.peerOf
      split
      · omega
      · next hnot => exact hnot
    have hfree := (onCourse_of_reaches hreach).invariant.within.message_free
    rw [ends_sendMessage_ok hends, Database.unreadFor_setLastMessage,
      Database.unreadFor_insertMessage hfree rfl, if_pos ⟨rfl, hpeer⟩]

/-- User 1 opens a conversation with user 2 about a product and writes. -/
def asksAndWrites : List (Move Request Draw Surroundings) :=
  asksAbout 2 ++
    [Move.submit (Request.sendMessage 1 1 "Is it still there?")] ++
    List.replicate 4 (Move.advance 2 calmDraw)

/-- A list of conversations that is answered and shows one unread message of
conversation 1. -/
def listsOneUnread : Except Fault (List ConversationView) → Bool
  | .ok views => views.any fun view => view.id = 1 && view.unreadCount = 1
  | .error _ => false

/-- What user 2 finds and does, as far as it is checked on a run. -/
def findsAndReads (m : Market) : Bool :=
  ((listConversations 2 .all 10 0).runUnder 7 [calmDraw] m).any
      (fun step => listsOneUnread step.1) &&
    ((markRead 2 1).runUnder 7 (List.replicate 4 calmDraw) m).any
      (fun step => step.1.isOk) &&
    (m.db.messages.get 1).any
      (fun row => row.conversationId = 1 && row.readAt = none) &&
    decide (m.db.conversations.rows.length ≤ 10)

/-- User 2 finds the message unread, in the list and in the details, and reads
it. -/
theorem list_and_details_agree_unread :
    ∃ (pool : Pool Request Draw Market Fault Response) (view : ConversationView)
      (t : Market), (market sampleApp).Reaches (fun _ _ => True)
        (Pool.opening 0) pool ∧
      pool.state.ShowsDetails 2 1 view ∧ view.unreadCount = 1 ∧
        (t.db.unreadFor 2 1).length = 0 := by
  obtain ⟨pool, hreach, hcheck⟩ := System.exists_reaches_of_run
    (show ((market sampleApp).run asksAndWrites (Pool.opening 0)).any
      (fun pool => findsAndReads pool.state) = true by decide +kernel)
  simp only [findsAndReads, Bool.and_eq_true, decide_eq_true_eq] at hcheck
  obtain ⟨⟨⟨hlist, hread⟩, hmessage⟩, hlength⟩ := hcheck
  obtain ⟨listed, t₁, hlists, hlisted⟩ :=
    Program.exists_ends_of_runUnder hlist
  obtain ⟨receipt, t, hreads, hok⟩ := Program.exists_ends_of_runUnder hread
  obtain ⟨row, hrow, hunread⟩ := (Option.any_eq_true _ _).mp hmessage
  simp only [Bool.and_eq_true, decide_eq_true_eq] at hunread
  cases listed with
  | error fault => exact absurd hlisted Bool.false_ne_true
  | ok views =>
  cases receipt with
  | error fault => exact absurd hok Bool.false_ne_true
  | ok message =>
  obtain ⟨view, hview, hone⟩ := List.any_eq_true.mp hlisted
  simp only [Bool.and_eq_true, decide_eq_true_eq] at hone
  obtain ⟨hagree, hcounts, hmarks, -⟩ := list_and_details_agree hreach 2 1
  have hshows : pool.state.ShowsDetails 2 1 view :=
    (hagree 10 7 _ views t₁ hlength hlists view).mp ⟨hview, hone.1⟩
  have hlowered := hmarks 1 row 7 _ message t hrow hunread.1 hreads
  rw [if_pos hunread.2, ← hcounts _ _ hshows, hone.2] at hlowered
  exact ⟨pool, view, t, hreach, hshows, hone.2, by omega⟩

end MarketPlace.Trade
