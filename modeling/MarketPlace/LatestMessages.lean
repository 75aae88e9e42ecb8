import MarketPlace.MessageIntegrity
import Mathlib.Data.Prod.Lex
import Mathlib.Data.Finset.Max

/-!
# The last message of a conversation

A conversation points to the message that the chat list shows.  Sending is two
statements, an insert and the update of the pointer, and nothing orders the
statements of two sends.  The pointer is the latest message in every quiet
state if no update moves a pointer back and none is lost that no later message
makes up for.
-/

namespace MarketPlace.Trade

open EventLog Interleaving Relational

variable {app : Deployment}

/-! ## Order of messages -/

/-- Where a message stands: by its time, then by its id. -/
def place (row : MessageRow) : ℕ ×ₗ ℕ :=
  toLex (row.sentAt, row.id)

/-- The latest message of a conversation. -/
def Database.IsLatest (db : Database) (conversationId : ℕ) (row : MessageRow) :
    Prop :=
  row ∈ db.messagesOf conversationId ∧
    ∀ other ∈ db.messagesOf conversationId, place other ≤ place row

theorem Database.mem_messagesOf {db : Database} {conversationId : ℕ}
    {row : MessageRow} :
    row ∈ db.messagesOf conversationId ↔
      db.messages.get row.id = some row ∧
        row.conversationId = conversationId := by
  rw [messagesOf, List.mem_filter, decide_eq_true_eq, Table.get_eq_some_iff]
  simp

theorem Database.exists_isLatest {db : Database} {conversationId : ℕ}
    (hnonempty : db.messagesOf conversationId ≠ []) :
    ∃ row, db.IsLatest conversationId row := by
  obtain ⟨first, hfirst⟩ := List.exists_mem_of_ne_nil _ hnonempty
  obtain ⟨row, hrow, hmax⟩ :=
    (db.messagesOf conversationId).toFinset.exists_max_image place
      ⟨first, List.mem_toFinset.mpr hfirst⟩
  exact ⟨row, List.mem_toFinset.mp hrow, fun other hother =>
    hmax other (List.mem_toFinset.mpr hother)⟩

theorem MessageKept.place_eq {row row' : MessageRow} (h : MessageKept row row')
    (hid : row'.id = row.id) : place row' = place row := by
  rw [place, h.sentAt, hid]
  rfl

/-! ## The condition -/

/-- The message that a conversation points to. -/
def Database.pointerOf (db : Database) (conversationId : ℕ) :
    Option MessageRow :=
  (db.conversations.get conversationId).bind db.lastMessage

/-- An update of the pointer runs while the pointer is not beyond its message;
one that is lost leaves a later message in the conversation. -/
def keepsOrder (db : Database) : Event → Bool
  | .wrote _ _ (.setLastMessage conversationId messageId) =>
      (db.pointerOf conversationId).all fun pointed =>
        (db.messages.get messageId).all fun row => place pointed ≤ place row
  | .lost _ (.setLastMessage conversationId messageId) =>
      (db.messages.get messageId).any fun row =>
        (db.messagesOf conversationId).any fun later => place row < place later
  | _ => true

/-- Every event of the history met the condition when it happened. -/
def Orderly (m : Market) : Prop :=
  Lawful (fun event past => keepsOrder (stored m.opened past) event = true)
    m.history

instance (m : Market) : Decidable (Orderly m) :=
  inferInstanceAs (Decidable (Lawful _ _))

/-- Every send is over. -/
def Quiet (pool : Pool Request Draw Market Fault Response) : Prop :=
  ∀ (i user conversationId : ℕ) (text : String) (body : Operation Response),
    pool.threads[i]? = some ⟨.sendMessage user conversationId text, body⟩ →
      (∃ value, body = .done value) ∨ ∃ fault, body = .failed fault

/-- What the chat list shows of every conversation with messages is its latest
one, and it is listed by that message's time. -/
def LastIsLatest (db : Database) : Prop :=
  ∀ conversationId conversation,
    db.conversations.get conversationId = some conversation →
    db.messagesOf conversationId ≠ [] →
      ∃ row, db.IsLatest conversationId row ∧
        conversation.lastMessageId = some row.id ∧
        db.activity conversation = row.sentAt ∧
        ∀ user view, db.conversationView user conversation = some view →
          view.lastMessageId = some row.id ∧
          view.lastMessageText = some row.messageText ∧
          view.lastMessageSentAt = some (milliseconds row.sentAt)

/-! ## What one write does to the pointers -/

section Pointers

variable {db : Database} {conversationId : ℕ} {pointed : MessageRow}

theorem Database.pointerOf_eq_some :
    db.pointerOf conversationId = some pointed ↔
      ∃ conversation id,
        db.conversations.get conversationId = some conversation ∧
          conversation.lastMessageId = some id ∧
            db.messages.get id = some pointed := by
  simp only [pointerOf, lastMessage, Option.bind_eq_some_iff]
  constructor
  · rintro ⟨conversation, hget, id, hid, hpointed⟩
    exact ⟨conversation, id, hget, hid, hpointed⟩
  · rintro ⟨conversation, id, hget, hid, hpointed⟩
    exact ⟨conversation, hget, id, hid, hpointed⟩

theorem Database.pointerOf_setLastMessage {conversation : ConversationRow}
    (hget : db.conversations.get conversationId = some conversation)
    (hpointed : db.messages.get pointed.id = some pointed) :
    (db.apply (.setLastMessage conversationId pointed.id)).pointerOf
      conversationId = some pointed := by
  have hid : conversation.id = conversationId := Table.key_of_get hget
  refine pointerOf_eq_some.mpr
    ⟨{ conversation with lastMessageId := some pointed.id }, pointed.id, ?_,
      rfl, hpointed⟩
  simp only [apply]
  rw [Table.get_modify _ _ _ (by intro; rfl), hget, Option.map_some,
    if_pos (decide_eq_true hid)]

/-- Only its own update moves a pointer. -/
theorem Database.lastMessageId_apply {change : Change}
    (hother : ∀ id, change ≠ .setLastMessage conversationId id)
    {conversation : ConversationRow}
    (hget : db.conversations.get conversationId = some conversation) :
    ∃ conversation',
      (db.apply change).conversations.get conversationId =
        some conversation' ∧
      conversation'.lastMessageId = conversation.lastMessageId := by
  cases change with
  | insertConversation row =>
      exact ⟨conversation, Table.get_insert_of_get hget, rfl⟩
  | setConversationProduct other productId =>
      refine ⟨if conversation.id = other then
        { conversation with productId := some productId } else conversation,
        ?_, by split <;> rfl⟩
      simp only [apply]
      rw [Table.get_modify _ _ _ (by intro; rfl), hget, Option.map_some]
      simp
  | setLastMessage other id =>
      refine ⟨conversation, ?_, rfl⟩
      have hne : conversationId ≠ other := by
        rintro rfl
        exact hother id rfl
      simp only [apply]
      rw [Table.get_modify _ _ _ (by intro; rfl), hget, Option.map_some,
        if_neg]
      simpa [show conversation.id = conversationId from Table.key_of_get hget]
        using hne
  | _ => exact ⟨conversation, hget, rfl⟩

theorem Database.pointerOf_apply_of_ne {change : Change}
    (hother : ∀ id, change ≠ .setLastMessage conversationId id)
    (hpointed : db.pointerOf conversationId = some pointed) :
    ∃ pointed', (db.apply change).pointerOf conversationId = some pointed' ∧
      place pointed' = place pointed ∧
        pointed'.conversationId = pointed.conversationId := by
  obtain ⟨conversation, id, hget, hid, hrow⟩ := pointerOf_eq_some.mp hpointed
  obtain ⟨conversation', hget', hsame⟩ := lastMessageId_apply hother hget
  obtain ⟨pointed', hrow', hkept⟩ := (db.grows_apply change).messages id _ hrow
  have hkeys : pointed'.id = pointed.id :=
    (Table.key_of_get hrow').trans (Table.key_of_get hrow).symm
  exact ⟨pointed', pointerOf_eq_some.mpr
    ⟨conversation', id, hget', hsame.trans hid, hrow'⟩, hkept.place_eq hkeys,
    hkept.conversation⟩

end Pointers

/-! ## What one step does to the chat -/

/-- Events that are not about statements outside of a transaction. -/
def Event.Aside : Event → Prop
  | .wrote _ _ change => change.transactional = true
  | .lost _ _ => False
  | _ => True

/-- What a step does to the messages and conversations and to the history of
their writes. -/
inductive ChatStep (i : ℕ) (m m' : Market) : Prop
  | aside (hmessages : m'.db.messages = m.db.messages)
      (hconversations : m'.db.conversations = m.db.conversations)
      (hhistory : m.history <:+ m'.history)
      (hnew : ∀ event ∈ m'.history, event ∈ m.history ∨ event.Aside)
  | lost (change : Change) (hdb : m'.db = m.db)
      (hhistory : m'.history = .lost i change :: m.history)
  | wrote (actor at_ : ℕ) (change : Change) (hoffered : change.Offered actor m)
      (hviolation : m.db.violation change = none)
      (hdb : m'.db = m.db.apply change)
      (hhistory : m'.history = .wrote i at_ change :: m.history)

theorem Database.conversations_apply_of_transactional {change : Change}
    (htransactional : change.transactional = true) (db : Database) :
    (db.apply change).conversations = db.conversations := by
  cases change <;> first | contradiction | rfl

theorem Database.conversations_settle {changes : List Change}
    (htransactional : ∀ change ∈ changes, change.transactional = true)
    (db : Database) :
    (schema.settle changes db).conversations = db.conversations :=
  ReadCommitted.Store.settle_preserves schema
    (fun change hchange data (hdata : data.conversations = db.conversations) =>
      (conversations_apply_of_transactional (htransactional change hchange)
        data).trans hdata)
    rfl

theorem Acts.chatStep {rights : Rights} {i : ℕ} {m m' : Market}
    (hacts : Acts rights i m m') : ChatStep i m m' := by
  rcases hacts with rfl | hstep
  · exact .aside rfl rfl (List.suffix_refl _) fun _ => .inl
  cases hstep with
  | lost change hwrites => exact .lost change rfl rfl
  | rejected client change violation hwrites hviolation =>
      exact .aside rfl rfl (List.suffix_cons _ _)
        (List.forall_mem_cons.mpr ⟨.inr trivial, fun _ => .inl⟩)
  | wrote actor change huser hwrites halone hunlocked hviolation hoffered =>
      exact .wrote actor m.now change hoffered hviolation rfl rfl
  | committed actor huser htransaction =>
      have htransactional := htransaction.transactional
      refine .aside (Database.messages_settle htransactional m.db)
        (Database.conversations_settle htransactional m.db)
        (suffix_flush _ _ _ _) fun event hevent => ?_
      simp only [Market.commit, flush_eq, List.mem_append, List.mem_reverse,
        List.mem_map] at hevent
      rcases hevent with ⟨change, hchange, rfl⟩ | hevent
      · exact .inr (htransactional change hchange)
      · exact .inl hevent
  | queued | locked | rolledBack =>
      exact .aside rfl rfl (List.suffix_refl _) fun _ => .inl

theorem Market.chatStep_surroundings (event : Surroundings) (i : ℕ)
    (m : Market) : ChatStep i m (m.surroundings event) := by
  cases event with
  | timePasses amount =>
      exact .aside rfl rfl (List.suffix_refl _) fun _ => .inl
  | userRegisters name phone =>
      exact .aside rfl rfl (List.suffix_cons _ _)
        (List.forall_mem_cons.mpr ⟨.inr trivial, fun _ => .inl⟩)
  | userDeleted userId =>
      exact .aside rfl rfl (List.suffix_cons _ _)
        (List.forall_mem_cons.mpr ⟨.inr trivial, fun _ => .inl⟩)

/-! ## The invariant -/

/-- Every message of the data was stored by a request. -/
def MessagesWritten (m : Market) : Prop :=
  ∀ id row, m.db.messages.get id = some row →
    ∃ i at_ row', .wrote i at_ (.insertMessage row') ∈ m.history ∧
      row'.id = row.id ∧ row'.conversationId = row.conversationId

/-- A pointer is at least where every update has put it, and a lost update
left a later message. -/
structure PointersHeld (m : Market) : Prop where
  written : ∀ i at_ conversationId id,
    .wrote i at_ (.setLastMessage conversationId id) ∈ m.history →
    ∃ row pointed, m.db.messages.get id = some row ∧
      m.db.pointerOf conversationId = some pointed ∧
        pointed.conversationId = conversationId ∧ place row ≤ place pointed
  lost : ∀ i conversationId id,
    .lost i (.setLastMessage conversationId id) ∈ m.history →
    ∃ row later, m.db.messages.get id = some row ∧
      later ∈ m.db.messagesOf conversationId ∧ place row < place later

theorem Database.messages_kept {db db' : Database} (hgrows : db.Grows db')
    {id : ℕ} {row : MessageRow} (hrow : db.messages.get id = some row) :
    ∃ row', db'.messages.get id = some row' ∧ row'.id = row.id ∧
      place row' = place row ∧ row'.conversationId = row.conversationId := by
  obtain ⟨row', hrow', hkept⟩ := hgrows.messages id row hrow
  have hid : row'.id = row.id :=
    (Table.key_of_get hrow').trans (Table.key_of_get hrow).symm
  exact ⟨row', hrow', hid, hkept.place_eq hid, hkept.conversation⟩

theorem PointersHeld.aside {m m' : Market} (h : PointersHeld m)
    (hmessages : m'.db.messages = m.db.messages)
    (hconversations : m'.db.conversations = m.db.conversations)
    (hnew : ∀ event ∈ m'.history, event ∈ m.history ∨ event.Aside) :
    PointersHeld m' where
  written i at_ conversationId id hwrote := by
    rcases hnew _ hwrote with hold | haside
    · obtain ⟨row, pointed, hrow, hpointed, hrest⟩ :=
        h.written i at_ conversationId id hold
      refine ⟨row, pointed, hmessages ▸ hrow, ?_, hrest⟩
      rw [Database.pointerOf_eq_some] at hpointed ⊢
      rwa [hmessages, hconversations]
    · exact absurd haside Bool.false_ne_true
  lost i conversationId id hlost := by
    rcases hnew _ hlost with hold | haside
    · obtain ⟨row, later, hrow, hlater, hplace⟩ :=
        h.lost i conversationId id hold
      rw [Database.mem_messagesOf] at hlater
      refine ⟨row, later, hmessages ▸ hrow, ?_, hplace⟩
      rwa [Database.mem_messagesOf, hmessages]
    · exact haside.elim

/-- What the history already has keeps holding after a write. -/
theorem PointersHeld.written_apply {m : Market} {change : Change}
    (h : PointersHeld m)
    (hrule : ∀ j at_, keepsOrder m.db (.wrote j at_ change) = true)
    (hsender : SendersTakePart m.db) {actor : ℕ}
    (hoffered : change.Offered actor m) {i at_ conversationId id : ℕ}
    (hwrote : .wrote i at_ (.setLastMessage conversationId id) ∈ m.history) :
    ∃ row pointed, (m.db.apply change).messages.get id = some row ∧
      (m.db.apply change).pointerOf conversationId = some pointed ∧
        pointed.conversationId = conversationId ∧
          place row ≤ place pointed := by
  obtain ⟨row, pointed, hrow, hpointed, hconversation, hplace⟩ :=
    h.written i at_ conversationId id hwrote
  obtain ⟨row', hrow', -, hsame, -⟩ :=
    Database.messages_kept (m.db.grows_apply change) hrow
  by_cases hmoves : ∃ other, change = .setLastMessage conversationId other
  · obtain ⟨other, rfl⟩ := hmoves
    obtain ⟨new, hnew, hin⟩ := hoffered
    have hid : new.id = other := Table.key_of_get hnew
    subst hid
    obtain ⟨conversation, hget, -⟩ := hsender _ new hnew
    rw [hin] at hget
    refine ⟨row', new, hrow', Database.pointerOf_setLastMessage hget hnew, hin,
      ?_⟩
    have horder := hrule i at_
    simp only [keepsOrder, hpointed, hnew, Option.all_some,
      decide_eq_true_eq] at horder
    exact hsame.trans_le (hplace.trans horder)
  · obtain ⟨pointed', hpointed', hplace', hconversation'⟩ :=
      Database.pointerOf_apply_of_ne
        (fun other hother => hmoves ⟨other, hother⟩) hpointed
    exact ⟨row', pointed', hrow', hpointed',
      hconversation'.trans hconversation,
      hsame.trans_le (hplace.trans hplace'.ge)⟩

theorem PointersHeld.wrote {m m' : Market} {change : Change} {i at_ : ℕ}
    (h : PointersHeld m)
    (hrule : ∀ j at_, keepsOrder m.db (.wrote j at_ change) = true)
    (hsender : SendersTakePart m.db) {actor : ℕ}
    (hoffered : change.Offered actor m) (hdb : m'.db = m.db.apply change)
    (hhistory : m'.history = .wrote i at_ change :: m.history) :
    PointersHeld m' where
  written j at_' conversationId id hwrote := by
    rw [hhistory] at hwrote
    rw [hdb]
    rcases List.mem_cons.mp hwrote with hnew | hold
    · obtain ⟨-, -, rfl⟩ := Event.wrote.inj hnew
      obtain ⟨row, hrow, hin⟩ := hoffered
      have hid : row.id = id := Table.key_of_get hrow
      subst hid
      obtain ⟨conversation, hget, -⟩ := hsender _ row hrow
      rw [hin] at hget
      exact ⟨row, row, hrow, Database.pointerOf_setLastMessage hget hrow, hin,
        le_rfl⟩
    · exact h.written_apply hrule hsender hoffered hold
  lost j conversationId id hlost := by
    rw [hhistory] at hlost
    rw [hdb]
    have hold : .lost j (.setLastMessage conversationId id) ∈ m.history :=
      (List.mem_cons.mp hlost).resolve_left nofun
    obtain ⟨row, later, hrow, hlater, hplace⟩ :=
      h.lost j conversationId id hold
    rw [Database.mem_messagesOf] at hlater
    have hgrows := m.db.grows_apply change
    obtain ⟨row', hrow', -, hsame, -⟩ := Database.messages_kept hgrows hrow
    obtain ⟨later', hlater', hid, hsame', hin⟩ :=
      Database.messages_kept hgrows hlater.1
    refine ⟨row', later', hrow', ?_, ?_⟩
    · rw [Database.mem_messagesOf, hid, hin]
      exact ⟨hlater', hlater.2⟩
    · rwa [hsame, hsame']

theorem PointersHeld.lost_event {m m' : Market} {change : Change} {i : ℕ}
    (h : PointersHeld m)
    (hrule : keepsOrder m.db (.lost i change) = true) (hdb : m'.db = m.db)
    (hhistory : m'.history = .lost i change :: m.history) :
    PointersHeld m' where
  written j at_ conversationId id hwrote := by
    rw [hhistory] at hwrote
    rw [hdb]
    exact h.written j at_ conversationId id
      ((List.mem_cons.mp hwrote).resolve_left nofun)
  lost j conversationId id hlost := by
    rw [hhistory] at hlost
    rw [hdb]
    rcases List.mem_cons.mp hlost with hnew | hold
    · obtain ⟨-, rfl⟩ := Event.lost.inj hnew
      simp only [keepsOrder, Option.any_eq_true, List.any_eq_true,
        decide_eq_true_eq] at hrule
      obtain ⟨row, hrow, later, hlater, hplace⟩ := hrule
      exact ⟨row, later, hrow, hlater, hplace⟩
    · exact h.lost j conversationId id hold

/-- What is true of the chat between any two actions. -/
structure ChatTraced (m : Market) : Prop where
  senders : SendersTakePart m.db
  written : MessagesWritten m
  held : Orderly m → PointersHeld m

theorem MessagesWritten.aside {m m' : Market} (h : MessagesWritten m)
    (hmessages : m'.db.messages = m.db.messages)
    (hhistory : m.history <:+ m'.history) : MessagesWritten m' := by
  intro id row hrow
  rw [hmessages] at hrow
  obtain ⟨i, at_, row', hwrote, hrest⟩ := h id row hrow
  exact ⟨i, at_, row', hhistory.subset hwrote, hrest⟩

theorem MessagesWritten.wrote {m m' : Market} {change : Change} {i at_ : ℕ}
    (h : MessagesWritten m) (hdb : m'.db = m.db.apply change)
    (hhistory : m'.history = .wrote i at_ change :: m.history) :
    MessagesWritten m' := by
  intro id row hrow
  rw [hdb] at hrow
  rw [hhistory]
  cases messageOrigin hrow with
  | kept hold =>
      obtain ⟨j, at_', row', hwrote, hrest⟩ := h id row hold
      exact ⟨j, at_', row', List.mem_cons_of_mem _ hwrote, hrest⟩
  | inserted hchange hid hfree =>
      subst hchange
      exact ⟨i, at_, row, List.mem_cons_self, rfl, rfl⟩
  | read old now hchange hold hread =>
      obtain ⟨j, at_', row', hwrote, hid, hin⟩ := h id old hold
      subst hread
      exact ⟨j, at_', row', List.mem_cons_of_mem _ hwrote, hid, hin⟩

theorem ChatStep.pointersHeld {i : ℕ} {m m' : Market}
    (hstep : ChatStep i m m') (hsound : m.Sound)
    (hopened : m'.opened = m.opened) (h : ChatTraced m)
    (horderly : Orderly m') : PointersHeld m' := by
  rw [Orderly, hopened] at horderly
  cases hstep with
  | aside hmessages hconversations hhistory hnew =>
      exact (h.held (horderly.older hhistory)).aside hmessages hconversations
        hnew
  | lost change hdb hhistory =>
      rw [hhistory, lawful_cons, ← hsound.traced] at horderly
      exact (h.held horderly.2).lost_event horderly.1 hdb hhistory
  | wrote actor at_ change hoffered hviolation hdb hhistory =>
      rw [hhistory, lawful_cons, ← hsound.traced] at horderly
      refine (h.held horderly.2).wrote (fun j at_' => ?_) h.senders hoffered hdb
        hhistory
      -- The condition does not look at who writes, nor when.
      cases change <;> exact horderly.1

theorem ChatStep.messagesWritten {i : ℕ} {m m' : Market}
    (hstep : ChatStep i m m') (h : MessagesWritten m) : MessagesWritten m' := by
  cases hstep with
  | aside hmessages hconversations hhistory hnew =>
      exact h.aside hmessages hhistory
  | lost change hdb hhistory =>
      refine h.aside (congrArg Database.messages hdb) ?_
      rw [hhistory]
      exact List.suffix_cons _ _
  | wrote actor at_ change hoffered hviolation hdb hhistory =>
      exact h.wrote hdb hhistory

variable {pool : Pool Request Draw Market Fault Response} {now : ℕ}

theorem chat_traced
    (hreach : (market app).Reaches (fun _ _ => True) (Pool.opening now) pool) :
    ChatTraced pool.state := by
  refine hreach.furtherWithin market_sound onCourse_opening ChatTraced
    ⟨?_, ?_, fun _ => ⟨?_, ?_⟩⟩ ?_ ?_
  · exact fun _ _ h => nomatch h
  · exact fun _ _ h => nomatch h
  · exact fun _ _ _ _ h => absurd h List.not_mem_nil
  · exact fun _ _ _ h => absurd h List.not_mem_nil
  · intro request i m m' hacts hsound h
    exact ⟨hacts.sendersTakePart hsound h.senders,
      hacts.chatStep.messagesWritten h.written,
      hacts.chatStep.pointersHeld hsound (hacts.rely hsound).opened h⟩
  · intro event m hsound h
    have hstep := Market.chatStep_surroundings event 0 m
    have hrely := Market.rely_surroundings event 0 m
    refine ⟨fun id row hrow => ?_, hstep.messagesWritten h.written,
      hstep.pointersHeld hsound hrely.opened h⟩
    rw [market_environment, Market.messages_surroundings] at hrow
    exact (h.senders id row hrow).grows hrely.grows

/-! ## Who stores messages -/

theorem Request.eq_sendMessage {request : Request}
    (h : .insertMessage ∈ request.writes) :
    ∃ user conversationId text,
      request = .sendMessage user conversationId text := by
  cases request with
  | sendMessage user conversationId text => exact ⟨user, conversationId, text, rfl⟩
  | _ => simp [Request.writes, syncWrites] at h

/-- Only the threads of sends store messages. -/
theorem silent_of_reaches
    (hreach : (market app).Reaches (fun _ _ => True) (Pool.opening now) pool) :
    ∀ i thread, pool.threads[i]? = some thread →
      .insertMessage ∉ thread.request.writes → Silent i pool.state := by
  induction hreach with
  | refl => simp [Pool.opening]
  | @step pool next move hreach hadmits hperform ih =>
      have hcourse := onCourse_of_reaches hreach
      intro i thread hthread
      refine System.perform_threads
        (fun i thread m => .insertMessage ∉ thread.request.writes → Silent i m)
        hperform (fun request _ _ => ?_) ?_ ?_ ih hthread
      · exact (hcourse.fresh _ le_rfl).silent
      · intro j d actor state body hactor hadvance
        obtain ⟨⟨hsound, rights, hacts⟩, hown⟩ := hcourse.action hactor hadvance
        refine ⟨fun hwrites => hown.silent hwrites (ih j actor hactor hwrites),
          fun k other hk hother hwrites => ?_⟩
        rcases hacts with rfl | hstep
        · exact hother hwrites
        · exact (hother hwrites).later (hstep.rely (Ne.symm hk) hsound)
      · exact fun event j other hother hwrites =>
          (hother hwrites).later (Market.rely_surroundings event j _)

/-- In a quiet state every stored message's pointer statement is made or
lost. -/
theorem pointersFollowed_of_quiet
    (hreach : (market app).Reaches (fun _ _ => True) (Pool.opening now) pool)
    (hquiet : Quiet pool) (i : ℕ) : PointersFollowed i pool.state := by
  have hcourse := onCourse_of_reaches hreach
  cases hthread : pool.threads[i]? with
  | none =>
      exact (hcourse.fresh i
        (List.getElem?_eq_none_iff.mp hthread)).silent.pointersFollowed
  | some thread =>
      by_cases hsends : .insertMessage ∈ thread.request.writes
      · obtain ⟨request, body⟩ := thread
        obtain ⟨user, conversationId, text, rfl⟩ := Request.eq_sendMessage hsends
        rcases hquiet i user conversationId text body hthread with
          ⟨value, rfl⟩ | ⟨fault, rfl⟩
        · exact hcourse.outcome hthread
        · exact hcourse.failure hthread
      · exact (silent_of_reaches hreach i thread hthread
          hsends).pointersFollowed

theorem eq_of_place_eq {db : Database} {conversationId : ℕ}
    {row other : MessageRow} (hrow : row ∈ db.messagesOf conversationId)
    (hother : other ∈ db.messagesOf conversationId)
    (hplace : place row = place other) : row = other := by
  have hid : row.id = other.id := congrArg (fun p => (ofLex p).2) hplace
  have hget := (Database.mem_messagesOf.mp hrow).1
  rw [hid, (Database.mem_messagesOf.mp hother).1] at hget
  exact (Option.some.inj hget).symm

/-- In a quiet state the latest message of a conversation is the one that the
conversation points to. -/
theorem pointerOf_eq_latest
    (hreach : (market app).Reaches (fun _ _ => True) (Pool.opening now) pool)
    (hquiet : Quiet pool) (horderly : Orderly pool.state)
    {conversationId : ℕ} {row : MessageRow}
    (hlatest : pool.state.db.IsLatest conversationId row) :
    pool.state.db.pointerOf conversationId = some row := by
  have htraced := chat_traced hreach
  have hheld := htraced.held horderly
  obtain ⟨hrow, hin⟩ := Database.mem_messagesOf.mp hlatest.1
  obtain ⟨i, at_, row', hwrote, hid, hconversation⟩ :=
    htraced.written _ row hrow
  have hfollowed := pointersFollowed_of_quiet hreach hquiet i at_ row' hwrote
  rw [hid, hconversation, hin] at hfollowed
  rcases hfollowed with ⟨at_', hset⟩ | hlost
  · obtain ⟨other, pointed, hother, hpointed, hpin, hplace⟩ :=
      hheld.written i at_' conversationId row.id hset
    obtain rfl := Option.some.inj (hrow.symm.trans hother)
    obtain ⟨-, id, -, -, hget⟩ := Database.pointerOf_eq_some.mp hpointed
    have hmem : pointed ∈ pool.state.db.messagesOf conversationId :=
      Database.mem_messagesOf.mpr
        ⟨(Table.key_of_get hget).symm ▸ hget, hpin⟩
    have hsame := le_antisymm hplace (hlatest.2 pointed hmem)
    rw [hpointed, eq_of_place_eq hmem hlatest.1 hsame.symm]
  · obtain ⟨other, later, hother, hlater, hplace⟩ :=
      hheld.lost i conversationId row.id hlost
    obtain rfl := Option.some.inj (hrow.symm.trans hother)
    exact absurd (hlatest.2 later hlater) (not_le_of_gt hplace)

/-- In every run whose pointer statements all meet the condition, every quiet
state shows the latest message of every conversation. -/
theorem lastIsLatest_of_orderly
    (hreach : (market app).Reaches (fun _ _ => True) (Pool.opening now) pool)
    (hquiet : Quiet pool) (horderly : Orderly pool.state) :
    LastIsLatest pool.state.db := by
  intro conversationId conversation hget hnonempty
  obtain ⟨row, hlatest⟩ := Database.exists_isLatest hnonempty
  have hpointer := pointerOf_eq_latest hreach hquiet horderly hlatest
  obtain ⟨conversation', id, hget', hid, hrow⟩ :=
    Database.pointerOf_eq_some.mp hpointer
  obtain rfl := Option.some.inj (hget.symm.trans hget')
  have hlast : pool.state.db.lastMessage conversation = some row := by
    rw [Database.lastMessage, hid]
    exact hrow
  have hkey : row.id = id := Table.key_of_get hrow
  refine ⟨row, hlatest, hkey ▸ hid, ?_, fun user view hview => ?_⟩
  · simp [Database.activity, hlast]
  · obtain ⟨peer, -, rfl⟩ := Option.map_eq_some_iff.mp hview
    simp [hlast]

/-! ## Runs -/

def Pool.ended (pool : Pool Request Draw Market Fault Response) : Bool :=
  pool.threads.all fun thread => thread.body.ended

theorem quiet_of_ended (hended : Pool.ended pool = true) : Quiet pool :=
  fun _ _ _ _ _ hthread => Program.eq_of_ended
    (List.all_eq_true.mp hended _ (List.mem_of_getElem? hthread))

/-- Two messages are stored, and the pointer moves to the first and then to the
second.  The update of the third message is lost when the fourth has come. -/
def sendsInOrder : List (Move Request Draw Surroundings) :=
  [Move.submit (Request.sendMessage 1 1 "First")] ++
    List.replicate 3 (Move.advance 1 calmDraw) ++
    [Move.environment (Surroundings.timePasses 5),
      Move.submit (Request.sendMessage 2 1 "Second")] ++
    List.replicate 3 (Move.advance 2 calmDraw) ++
    [Move.advance 1 calmDraw, Move.advance 2 calmDraw,
      Move.environment (Surroundings.timePasses 5),
      Move.submit (Request.sendMessage 1 1 "Third")] ++
    List.replicate 3 (Move.advance 3 calmDraw) ++
    [Move.environment (Surroundings.timePasses 5),
      Move.submit (Request.sendMessage 2 1 "Fourth")] ++
    List.replicate 4 (Move.advance 4 calmDraw) ++
    [Move.advance 3 { calmDraw with databaseFails := true }]

theorem lastIsLatest_of_sendsInOrder :
    ∃ pool, (market sampleApp).run (meets ++ sendsInOrder) (Pool.opening 0) =
        some pool ∧
      Orderly pool.state ∧ (pool.refusal 3).isSome = true ∧
      (pool.state.db.messagesOf 1).length = 4 ∧
      LastIsLatest pool.state.db := by
  obtain ⟨pool, hrun, hcheck⟩ := (Option.any_eq_true _ _).mp
    (show ((market sampleApp).run (meets ++ sendsInOrder)
        (Pool.opening 0)).any
      (fun pool => Pool.ended pool && decide (Orderly pool.state) &&
        (pool.refusal 3).isSome &&
        decide ((pool.state.db.messagesOf 1).length = 4)) = true
      by decide +kernel)
  simp only [Bool.and_eq_true, decide_eq_true_eq] at hcheck
  obtain ⟨⟨⟨hended, horderly⟩, hlost⟩, hlength⟩ := hcheck
  have hreach := System.Reaches.refl.run (fun _ _ _ => trivial) hrun
  exact ⟨pool, hrun, horderly, hlost, hlength,
    lastIsLatest_of_orderly hreach (quiet_of_ended hended) horderly⟩

/-- The send of user 1 stores its message, the send of user 2 is done at
once, and then user 1's moves the pointer. -/
def overtakes : List (Move Request Draw Surroundings) :=
  [Move.submit (Request.sendMessage 1 1 "First")] ++
    List.replicate 3 (Move.advance 1 calmDraw) ++
    [Move.environment (Surroundings.timePasses 5),
      Move.submit (Request.sendMessage 2 1 "Second")] ++
    List.replicate 4 (Move.advance 2 calmDraw) ++
    [Move.advance 1 calmDraw]

/-- Conversation 1 shows message 1 and has a later one. -/
def showsOldMessage (db : Database) : Bool :=
  (db.conversations.get 1).any fun conversation =>
    conversation.lastMessageId = some 1 &&
      (db.messages.get 1).any fun row =>
        (db.messagesOf 1).any fun later => place row < place later

theorem not_lastIsLatest_of_showsOldMessage {db : Database}
    (hshows : showsOldMessage db = true) : ¬ LastIsLatest db := by
  intro hlast
  simp only [showsOldMessage, Option.any_eq_true, Bool.and_eq_true,
    List.any_eq_true, decide_eq_true_eq] at hshows
  obtain ⟨conversation, hget, hid, row, hrow, later, hlater, hplace⟩ := hshows
  obtain ⟨latest, hlatest, hlast, -⟩ :=
    hlast 1 conversation hget (List.ne_nil_of_mem hlater)
  have hsame : latest.id = 1 := Option.some.inj (hlast.symm.trans hid)
  have hlatestRow := (Database.mem_messagesOf.mp hlatest.1).1
  rw [hsame] at hlatestRow
  obtain rfl := Option.some.inj (hrow.symm.trans hlatestRow)
  exact absurd (hlatest.2 later hlater) (not_le_of_gt hplace)

/-- Two sends that overlap leave the older message as the last one. -/
theorem not_always_lastIsLatest :
    ¬ ∀ pool, (market sampleApp).Reaches (fun _ _ => True)
      (Pool.opening 0) pool → Quiet pool → LastIsLatest pool.state.db := by
  intro halways
  obtain ⟨pool, hreach, hcheck⟩ := System.exists_reaches_of_run
    (show ((market sampleApp).run (meets ++ overtakes) (Pool.opening 0)).any
      (fun pool => Pool.ended pool && showsOldMessage pool.state.db) = true
      by decide +kernel)
  obtain ⟨hended, hshows⟩ := (Bool.and_eq_true _ _).mp hcheck
  exact not_lastIsLatest_of_showsOldMessage hshows
    (halways pool hreach (quiet_of_ended hended))

end MarketPlace.Trade
