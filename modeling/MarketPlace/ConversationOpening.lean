import MarketPlace.OpeningOutlines

/-!
# Opening a conversation

Two users open a conversation with each other, any number of times and in
either direction.  The SELECT, the INSERT and the backfill of the product are
statements of their own, so a call can lose the insert to another one, and two
backfills can meet.  Where neither happens, every call returns the one
conversation, and its product stays.
-/

namespace MarketPlace.Trade

open EventLog Interleaving Relational

/-! ## The condition -/

/-- The statement comes too late: the conversation that it inserts is there
already, or the one that it gives a product has another one. -/
def tooLate (db : Database) : Event → Bool
  | .rejected _ (.insertConversation row) => (db.conversationOf row.pair).isSome
  | .wrote _ _ (.setConversationProduct conversationId productId) =>
      ((db.conversations.get conversationId).bind
        ConversationRow.productId).any fun other => other ≠ productId
  | _ => false

/-- No statement of the history came too late. -/
def InTime (m : Market) : Prop :=
  Lawful (fun event past => tooLate (stored m.opened past) event = false)
    m.history

instance (m : Market) : Decidable (InTime m) :=
  inferInstanceAs (Decidable (Lawful _ _))

theorem InTime.before {i : ℕ} {m t : Market} (h : InTime t)
    (hrely : Rely i m t) : InTime m := by
  have holder := Lawful.older h hrely.history
  rw [hrely.opened] at holder
  exact holder

theorem InTime.not_insertLost {i : ℕ} {pair : ℕ × ℕ} {m : Market}
    (h : InTime m) : ¬ InsertLost i pair m := by
  rintro ⟨row, past, hhappened, rfl, hsome⟩
  have hrule := h _ _ hhappened
  simp only [tooLate] at hrule
  rw [hrule] at hsome
  contradiction

/-! ## No call waits -/

/-- Nobody holds a lock or has queued a write. -/
structure Market.Idle (m : Market) : Prop where
  queue : ∀ i, m.store.queue i = []
  unlocked : ∀ lock, m.store.holder lock = none

theorem Market.idle_opening (db : Database) (ids : Sequences) (now : ℕ) :
    (opening db ids now).Idle :=
  ⟨fun _ => rfl, fun _ => rfl⟩

theorem Market.Idle.lockable {m : Market} (h : m.Idle) (i : ℕ)
    (change : Change) : m.lockable none i change = true := by
  simp [Market.lockable, ReadCommitted.Store.unlocked, h.unlocked]

theorem Market.Idle.autocommit {m : Market} (h : m.Idle) (i : ℕ)
    (change : Change) : (m.autocommit i change).Idle :=
  ⟨h.queue, h.unlocked⟩

section Finishes

variable {β : Type} {n : ℕ}

theorem finishes_attempt
    {action : ℕ → Draw → Market → Option (Except Fault β × Market)}
    (haction : ∀ i d m, m.Idle → ∃ outcome m',
      action i d m = some (outcome, m') ∧ m'.Idle) :
    (attempt action).Finishes Market.Idle 1 := by
  refine ⟨haction, fun outcome => ?_⟩
  cases outcome with
  | ok value => exact Program.finishes_done value
  | error fault => exact Program.finishes_failed fault

theorem finishes_select (query : Database → β) :
    (select none query).Finishes Market.Idle 1 := by
  refine finishes_attempt fun i d m hidle => ?_
  by_cases hfails : d.databaseFails = true
  · exact ⟨_, m, if_pos hfails, hidle⟩
  · exact ⟨_, m, if_neg hfails, hidle⟩

theorem finishes_run (change : ℕ → Sequences → Change)
    (result : ℕ → Sequences → Database → Database → β) :
    (run none change result).Finishes Market.Idle 1 := by
  refine finishes_attempt fun i d m hidle => ?_
  dsimp only
  by_cases hfails : d.databaseFails = true
  · rw [if_pos hfails]
    exact ⟨_, _, rfl, hidle.queue, hidle.unlocked⟩
  rw [if_neg hfails, if_pos (hidle.lockable i _)]
  split
  · exact ⟨_, _, rfl, hidle.queue, hidle.unlocked⟩
  · exact ⟨_, _, rfl, hidle.autocommit i _⟩

theorem finishes_getConversationById (userId conversationId : ℕ) :
    (getConversationById userId conversationId).Finishes Market.Idle 3 := by
  refine Program.Finishes.bind (k := 1) (n := 2) ?_ fun _ => ?_
  · refine Program.Finishes.bind (k := 1) (n := 1) (finishes_select _)
      fun query => ?_
    split
    · exact Program.finishes_failed _
    split
    · exact Program.finishes_failed _
    refine Program.Finishes.bind (k := 0) (n := 1) (finishes_select _)
      fun blocked => ?_
    split
    · exact Program.finishes_failed _
    · exact Program.finishes_done _
  · refine Program.Finishes.bind (k := 0) (n := 1) (finishes_select _)
      fun query => ?_
    split
    · exact Program.finishes_failed _
    · exact Program.finishes_done _

theorem finishes_assertUserExists (userId : ℕ) (label : String) :
    (assertUserExists userId label).Finishes Market.Idle 1 := by
  refine Program.Finishes.bind (k := 0) (n := 1) (finishes_select _)
    fun query => ?_
  split
  · exact Program.finishes_failed _
  · exact Program.finishes_done _

theorem finishes_validateProduct
    (userId participantId : ℕ) (productId : Option ℕ) :
    (validateProduct userId participantId productId).Finishes Market.Idle
      1 := by
  unfold validateProduct
  split
  · exact Program.finishes_done _
  refine Program.Finishes.bind (k := 0) (n := 1) (finishes_select _)
    fun product => ?_
  split
  · exact Program.finishes_failed _
  · exact Program.finishes_done _

theorem finishes_backfillProduct
    (conversation : ConversationRow) (productId : Option ℕ) :
    (backfillProduct conversation productId).Finishes Market.Idle 1 := by
  unfold backfillProduct
  split
  · exact Program.finishes_done _
  split
  · exact Program.finishes_done _
  · unfold perform execute
    exact finishes_run _ _

theorem finishes_openConversation (pair : ℕ × ℕ) (productId : Option ℕ) :
    (openConversation pair productId).Finishes Market.Idle 1 := by
  refine Program.Finishes.recover (k := 0) (n := 1) (finishes_run _ _)
    fun fault => ?_
  unfold notFoundOnForeignKey
  split
  · exact Program.finishes_failed _
  · exact Program.finishes_failed _

/-- A call has eight actions at most, and waits at none. -/
theorem finishes_getOrCreateConversation
    (userId participantId : ℕ) (productId : Option ℕ) :
    (getOrCreateConversation userId participantId productId).Finishes
      Market.Idle 8 := by
  unfold getOrCreateConversation
  split
  · exact Program.finishes_failed _
  refine Program.Finishes.bind (k := 7) (n := 1)
    (finishes_assertUserExists _ _) fun _ => ?_
  refine Program.Finishes.bind (k := 6) (n := 1) (finishes_select _)
    fun blocked => ?_
  split
  · exact Program.finishes_failed _
  refine Program.Finishes.bind (k := 5) (n := 1)
    (finishes_validateProduct _ _ _) fun product => ?_
  refine Program.Finishes.bind (k := 4) (n := 1) (finishes_select _)
    fun existing => ?_
  split
  · exact Program.Finishes.bind (k := 3) (n := 1)
      (finishes_backfillProduct _ _) fun _ => finishes_getConversationById _ _
  · exact Program.Finishes.bind (k := 3) (n := 1)
      (finishes_openConversation _ _) fun _ => finishes_getConversationById _ _

end Finishes

/-! ## One action of a call -/

def OpeningCall.rights (call : OpeningCall) : Rights :=
  ⟨some call.userId, [.insertConversation, .setConversationProduct]⟩

/-- What is true of every market of a pool of calls. -/
structure Kept (m : Market) : Prop where
  queue : ∀ i, m.store.queue i = []
  undisturbed : Undisturbed m
  pairsUnique : m.db.PairsUnique

section Acts

variable {call : OpeningCall} {i : ℕ} {m m' : Market}

/-- What an action of a call stores: nothing, a conversation that the
constraints allow, or the product of one. -/
theorem Acts.opening (hacts : Acts call.rights i m m')
    (hqueue : ∀ j, m.store.queue j = []) :
    (m'.db = m.db ∧ (∀ j, m'.store.queue j = []) ∧
      ∀ event ∈ m'.history, event ∈ m.history ∨ event.OfOpening) ∨
    (∃ row, m.db.violation (.insertConversation row) = none ∧
      m' = m.autocommit i (.insertConversation row)) ∨
    ∃ conversationId productId,
      m' = m.autocommit i (.setConversationProduct conversationId productId) := by
  rcases hacts with rfl | hstep
  · exact .inl ⟨rfl, hqueue, fun _ => .inl⟩
  cases hstep with
  | lost change hwrites =>
      refine .inl ⟨rfl, hqueue, fun event hevent => ?_⟩
      rcases List.mem_cons.mp hevent with rfl | hevent
      · exact .inr trivial
      · exact .inl hevent
  | rejected client change violation hwrites hviolation =>
      refine .inl ⟨rfl, hqueue, fun event hevent => ?_⟩
      rcases List.mem_cons.mp hevent with rfl | hevent
      · exact .inr trivial
      · exact .inl hevent
  | wrote actor change huser hwrites halone hunlocked hviolation hoffered =>
      cases change with
      | insertConversation row => exact .inr (.inl ⟨row, hviolation, rfl⟩)
      | setConversationProduct conversationId productId =>
          exact .inr (.inr ⟨conversationId, productId, rfl⟩)
      | _ => simp [OpeningCall.rights, Change.kind] at hwrites
  | queued change hwrites htransactional havailable hneeded =>
      cases change with
      | insertConversation | setConversationProduct => contradiction
      | _ => simp [OpeningCall.rights, Change.kind] at hwrites
  | locked locks havailable => exact .inl ⟨rfl, hqueue, fun _ => .inl⟩
  | rolledBack =>
      refine .inl ⟨rfl, fun j => ?_, fun _ => .inl⟩
      by_cases hj : j = i
      · exact hj ▸ ReadCommitted.Store.queue_rollback _ _
      · exact (ReadCommitted.Store.queue_rollback_of_ne _ hj).trans (hqueue j)
  | committed actor huser htransaction =>
      obtain ⟨productId, first, sync, hcons, -⟩ := htransaction.opens
      rw [hqueue i] at hcons
      contradiction

theorem Database.PairsUnique.insert {db : Database} (h : db.PairsUnique)
    {row : ConversationRow}
    (hviolation : db.violation (.insertConversation row) = none) :
    (db.apply (.insertConversation row)).PairsUnique := by
  have hnone : db.conversationOf row.pair = none := by
    by_contra hsome
    simp [violation, Option.isSome_iff_ne_none.mpr hsome] at hviolation
    split at hviolation <;> contradiction
  have hnew : ∀ other ∈ db.conversations.rows, other.pair ≠ row.pair := by
    simpa [conversationOf] using hnone
  intro left hleft right hright hpair
  rcases Table.mem_insert hleft with hleft' | rfl <;>
    rcases Table.mem_insert hright with hright' | rfl
  · exact h left hleft' right hright' hpair
  · exact absurd hpair (hnew left hleft')
  · exact absurd hpair.symm (hnew right hright')
  · rfl

theorem Database.PairsUnique.setProduct {db : Database} (h : db.PairsUnique)
    (conversationId productId : ℕ) :
    (db.apply (.setConversationProduct conversationId productId)).PairsUnique
      := by
  have hrow : ∀ row ∈ (db.apply (.setConversationProduct conversationId
      productId)).conversations.rows, ∃ old ∈ db.conversations.rows,
        old.id = row.id ∧ old.pair = row.pair := by
    intro row hmem
    obtain ⟨old, hold, rfl⟩ := List.mem_map.mp hmem
    refine ⟨old, hold, ?_⟩
    split <;> exact ⟨rfl, rfl⟩
  intro left hleft right hright hpair
  obtain ⟨left', hleft', hid, hpair'⟩ := hrow left hleft
  obtain ⟨right', hright', hid', hpair''⟩ := hrow right hright
  have hsame := h left' hleft' right' hright'
    (hpair'.trans (hpair.trans hpair''.symm))
  rw [← hid, ← hid', hsame]

theorem Acts.kept (hacts : Acts call.rights i m m') (h : Kept m) : Kept m' := by
  rcases hacts.opening h.queue with
    ⟨hdb, hqueue, hhistory⟩ | ⟨row, hviolation, rfl⟩ |
      ⟨conversationId, productId, rfl⟩
  · refine ⟨hqueue, fun event hevent => ?_, ?_⟩
    · exact (hhistory event hevent).elim (h.undisturbed event) id
    · exact hdb.symm ▸ h.pairsUnique
  · exact ⟨h.queue, List.forall_mem_cons.mpr ⟨.inl rfl, h.undisturbed⟩,
      h.pairsUnique.insert hviolation⟩
  · exact ⟨h.queue, List.forall_mem_cons.mpr ⟨.inr rfl, h.undisturbed⟩,
      h.pairsUnique.setProduct conversationId productId⟩

/-- The conversation with this id has this product. -/
def About (conversationId productId : ℕ) (db : Database) : Prop :=
  ∃ row, db.conversations.get conversationId = some row ∧
    row.productId = some productId

instance (conversationId productId : ℕ) (db : Database) :
    Decidable (About conversationId productId db) :=
  decidable_of_iff ((db.conversations.get conversationId).any fun row =>
    row.productId = some productId) (by simp [About, Option.any_eq_true])

/-- A conversation keeps its product while no backfill comes too late. -/
theorem Acts.about (hacts : Acts call.rights i m m') (hkept : Kept m)
    (hsound : m.Sound) (hintime : InTime m') {conversationId productId : ℕ}
    (h : About conversationId productId m.db) :
    About conversationId productId m'.db := by
  rcases hacts.opening hkept.queue with
    ⟨hdb, -⟩ | ⟨row, -, rfl⟩ | ⟨otherId, otherProduct, rfl⟩
  · exact hdb.symm ▸ h
  · obtain ⟨old, hold, hproduct⟩ := h
    exact ⟨old, Table.get_insert_of_get hold, hproduct⟩
  · obtain ⟨old, hold, hproduct⟩ := h
    have hrule : tooLate m.db (.wrote i m.now
        (.setConversationProduct otherId otherProduct)) = false := by
      rw [hsound.traced]
      exact hintime _ _ happened_self
    have hget : (m.db.apply (.setConversationProduct otherId
        otherProduct)).conversations.get conversationId =
          some (if old.id = otherId then
            { old with productId := some otherProduct } else old) := by
      simp only [Database.apply]
      rw [Table.get_modify _ _ _ (by intro; rfl), hold]
      simp
    refine ⟨_, hget, ?_⟩
    by_cases hid : old.id = otherId
    · rw [Table.key_of_get hold] at hid
      simp only [tooLate, ← hid, hold, Option.bind_some, hproduct,
        Option.any_some, decide_eq_false_iff_not, not_not] at hrule
      simp [Table.key_of_get hold, hid, hrule]
    · rw [if_neg hid]
      exact hproduct

end Acts

/-! ## Pools of calls -/

variable {userId participantId : ℕ}

theorem Ready.symm {m : Market} (h : Ready userId participantId m) :
    Ready participantId userId m :=
  ⟨h.undisturbed, h.acquainted.symm⟩

/-- A returned view is that of the conversation. -/
def Opened (userId participantId : ℕ) (view : ConversationView) (m : Market) :
    Prop :=
  Ready userId participantId m →
    IsConversation (orderedPair userId participantId) view.id m.db

/-- A failed call is excused. -/
def Refused (userId participantId i : ℕ) (fault : Fault) (m : Market) : Prop :=
  Ready userId participantId m →
    Excused i (orderedPair userId participantId) fault m

theorem OpeningCall.handler_meets {call : OpeningCall} {i : ℕ} {m : Market}
    (hbetween : call.Between userId participantId)
    (hvalid : call.Valid m.opened) :
    (openings.handler call).Meets (acting call.rights) i
      (Opened userId participantId) (Refused userId participantId i) m := by
  have hmeets : (openings.handler call).Meets (acting call.rights) i
      (Opened call.userId call.participantId)
      (Refused call.userId call.participantId i) m :=
    getOrCreateConversation_meets rfl (fun _ h => h) hvalid
  rcases hbetween with ⟨rfl, rfl⟩ | ⟨rfl, rfl⟩
  · exact hmeets
  · refine hmeets.mono (fun view t h hready => ?_) fun fault t h hready => ?_
    · have hconversation := h hready.symm
      rw [orderedPair_comm hready.acquainted.distinct.symm] at hconversation
      exact hconversation
    · have hexcused := h hready.symm
      rw [orderedPair_comm hready.acquainted.distinct.symm] at hexcused
      exact hexcused

theorem openings_sound :
    openings.SoundWithin discipline (fun call i => Acts call.rights i) Fresh
      (fun call m => call.Between userId participantId ∧ call.Valid m.opened)
      (fun _ _ => Opened userId participantId)
      (fun _ i => Refused userId participantId i) where
  handler_meets call i m hadmitted _ :=
    call.handler_meets hadmitted.1 hadmitted.2
  guarantee_fresh := by
    rintro i j m m' hne ⟨-, rights, rfl | hstep⟩ hfresh
    · exact hfresh
    · exact hstep.fresh hne hfresh
  environment_fresh amount i m hfresh :=
    show Fresh i (m.surroundings (.timePasses amount)) from
      Market.fresh_surroundings hfresh
  environment_rely amount i m _ :=
    Market.rely_surroundings (.timePasses amount) i m
  environment_invariant amount m hsound :=
    show (m.surroundings (.timePasses amount)).Sound from
      Market.sound_surroundings hsound

/-- Data that the constraints of the schema allow, with the identity values
that it leaves. -/
structure Database.Allowed (ids : Sequences) (db : Database) : Prop where
  within : db.Within ids
  linked : db.Linked
  pairsUnique : db.PairsUnique

/-- The calls of two users over given data, on their way. -/
structure Calls (userId participantId : ℕ) (db : Database) (ids : Sequences)
    (now : ℕ)
    (pool : Pool OpeningCall Draw Market Fault ConversationView) : Prop where
  allowed : db.Allowed ids
  acquainted : db.Acquainted userId participantId
  reach : openings.Reaches
    (fun call _ => call.Between userId participantId ∧ call.Valid db)
    ⟨Market.opening db ids now, []⟩ pool

abbrev CallsOnCourse (userId participantId : ℕ)
    (pool : Pool OpeningCall Draw Market Fault ConversationView) : Prop :=
  System.OnCourseWithin discipline
    (fun (call : OpeningCall) i => Acts call.rights i) Fresh
    (fun _ _ => Opened userId participantId)
    (fun _ i => Refused userId participantId i) pool

namespace Calls

variable {db : Database} {ids : Sequences} {now : ℕ}
  {pool later : Pool OpeningCall Draw Market Fault ConversationView}

theorem onCourse_opening (hallowed : db.Allowed ids) :
    CallsOnCourse userId participantId ⟨Market.opening db ids now, []⟩ := by
  refine System.OnCourseWithin.of_empty rfl ?_ fun i => ?_
  · exact Market.sound_opening hallowed.within hallowed.linked
  · exact ⟨rfl, fun _ h => absurd h List.not_mem_nil⟩

theorem opened_and_onCourse (h : Calls userId participantId db ids now pool) :
    pool.state.opened = db ∧ CallsOnCourse userId participantId pool := by
  obtain ⟨hallowed, -, hreach⟩ := h
  induction hreach with
  | refl => exact ⟨rfl, onCourse_opening hallowed⟩
  | step _ hadmits hperform ih =>
      obtain ⟨hopened, hcourse⟩ := ih
      have hnext := openings_sound.perform hcourse
        (fun request hmove => hopened ▸ hadmits request hmove) hperform
      refine ⟨?_, hnext⟩
      rw [← hopened]
      rcases hcourse.perform_cases hperform with
        hsame | ⟨i, d, thread, -, -, hacts⟩ | ⟨amount, -, henvironment⟩
      · rw [hsame]
      · exact (hacts.rely hcourse.invariant).opened
      · rw [henvironment]
        rfl

theorem kept (h : Calls userId participantId db ids now pool) :
    Kept pool.state := by
  obtain ⟨hallowed, hacquainted, hreach⟩ := h
  induction hreach with
  | refl =>
      exact ⟨fun _ => rfl, fun _ h => absurd h List.not_mem_nil,
        hallowed.pairsUnique⟩
  | step hbefore _ hperform ih =>
      have hcalls : Calls userId participantId db ids now _ :=
        ⟨hallowed, hacquainted, hbefore⟩
      have hcourse := hcalls.opened_and_onCourse.2
      rcases hcourse.perform_cases hperform with
        hsame | ⟨i, d, thread, -, -, hacts⟩ | ⟨amount, -, henvironment⟩
      · exact hsame ▸ ih
      · exact hacts.kept ih
      · exact henvironment ▸ ⟨ih.queue, ih.undisturbed, ih.pairsUnique⟩

theorem ready (h : Calls userId participantId db ids now pool) :
    Ready userId participantId pool.state where
  undisturbed := h.kept.undisturbed
  acquainted := h.opened_and_onCourse.1 ▸ h.acquainted

theorem finishes (h : Calls userId participantId db ids now pool) :
    pool.state.Idle ∧
      ∀ (i : ℕ) (thread : Thread OpeningCall Draw Market Fault
        ConversationView), pool.threads[i]? = some thread →
          thread.body.Finishes Market.Idle 8 :=
  h.reach.finishes rfl (Market.idle_opening db ids now)
    (fun _ => finishes_getOrCreateConversation _ _ _)
    fun _ _ hidle => ⟨hidle.queue, hidle.unlocked⟩

/-- Later on every conversation still has the product it once had. -/
theorem about (h : Calls userId participantId db ids now pool)
    (hlater : openings.Reaches
      (fun call _ => call.Between userId participantId ∧ call.Valid db)
      pool later)
    (hintime : InTime later.state) {conversationId productId : ℕ}
    (habout : About conversationId productId pool.state.db) :
    About conversationId productId later.state.db := by
  induction hlater with
  | refl => exact habout
  | step hbefore _ hperform ih =>
      have hcalls : Calls userId participantId db ids now _ :=
        ⟨h.allowed, h.acquainted, h.reach.trans hbefore⟩
      have hcourse := hcalls.opened_and_onCourse.2
      rcases hcourse.perform_cases hperform with
        hsame | ⟨i, d, thread, -, -, hacts⟩ | ⟨amount, -, henvironment⟩
      · rw [hsame] at hintime ⊢
        exact ih hintime
      · exact hacts.about hcalls.kept hcourse.invariant hintime
          (ih (hintime.before (hacts.rely hcourse.invariant)))
      · rw [henvironment] at hintime ⊢
        exact ih hintime

end Calls

/-! ## Runs -/

/-- The rows of a pair, one at most. -/
def Database.conversationsOf (db : Database) (pair : ℕ × ℕ) :
    List ConversationRow :=
  db.conversations.rows.filter fun row => row.pair = pair

theorem Database.PairsUnique.conversationsOf_eq {db : Database}
    (h : db.PairsUnique) {pair : ℕ × ℕ} {row : ConversationRow}
    (hmem : row ∈ db.conversations.rows) (hpair : row.pair = pair) :
    db.conversationsOf pair = [row] := by
  refine Table.filter_eq_singleton hmem (decide_eq_true hpair)
    fun other hother hsame => h other hother row hmem ?_
  exact (of_decide_eq_true hsame).trans hpair.symm

theorem Database.PairsUnique.length_conversationsOf {db : Database}
    (h : db.PairsUnique) (pair : ℕ × ℕ) :
    (db.conversationsOf pair).length ≤ 1 := by
  by_cases hempty : db.conversationsOf pair = []
  · simp [hempty]
  · obtain ⟨row, hmem⟩ := List.exists_mem_of_ne_nil _ hempty
    obtain ⟨hrow, hpair⟩ := List.mem_filter.mp hmem
    rw [h.conversationsOf_eq hrow (of_decide_eq_true hpair)]
    rfl

section Runs

variable {db : Database} {ids : Sequences} {now : ℕ}
  {pool : Pool OpeningCall Draw Market Fault ConversationView}

/-- In every run whose statements all come in time, there is one row of the
pair once a call has returned, every call returns that conversation, none
fails unless the database does or waits for another one, and a conversation
keeps the product that it has once got. -/
theorem one_conversation_of_inTime
    (h : Calls userId participantId db ids now pool)
    (hintime : InTime pool.state) :
    (pool.state.db.conversationsOf
      (orderedPair userId participantId)).length ≤ 1 ∧
    (∀ (i : ℕ) (call : OpeningCall) (view : ConversationView),
      pool.threads[i]? = some ⟨call, .done view⟩ →
        ∃ row, pool.state.db.conversationsOf
          (orderedPair userId participantId) = [row] ∧ view.id = row.id) ∧
    (∀ (i : ℕ) (call : OpeningCall) (fault : Fault),
      pool.threads[i]? = some ⟨call, .failed fault⟩ →
        fault = .database none) ∧
    (pool.state.Idle ∧
      ∀ (i : ℕ) (thread : Thread OpeningCall Draw Market Fault
        ConversationView), pool.threads[i]? = some thread →
          thread.body.Finishes Market.Idle 8) ∧
    ∀ later, openings.Reaches
        (fun call _ => call.Between userId participantId ∧ call.Valid db)
        pool later →
      InTime later.state → ∀ conversationId productId,
        About conversationId productId pool.state.db →
          About conversationId productId later.state.db := by
  have hunique := h.kept.pairsUnique
  refine ⟨hunique.length_conversationsOf _, fun i call view hthread => ?_,
    fun i call fault hthread => ?_, h.finishes,
    fun later hlater hintime' _ _ => h.about hlater hintime'⟩
  · obtain ⟨row, hget, hpair⟩ :=
      h.opened_and_onCourse.2.outcome hthread h.ready
    exact ⟨row, hunique.conversationsOf_eq (Table.mem_of_get hget) hpair,
      (Table.key_of_get hget).symm⟩
  · rcases h.opened_and_onCourse.2.failure hthread h.ready with
      hdatabase | hlost
    · exact hdatabase
    · exact absurd hlost hintime.not_insertLost

end Runs

/-! ## Two users with a product each -/

def sampleUser (id : ℕ) (phone : String) : ProfileRow :=
  ⟨id, "Amina", phone, .active, none, none, none, 0, 0⟩

def sampleProductOf (ownerId : ℕ) : ProductRow :=
  ⟨ownerId, ownerId, "vehicles", none, "Bicycle", "Blue", 25, "Cairo",
    "Downtown", none, .available, false, .both, 0, 0, none⟩

/-- Users 1 and 2 have registered, and each has listed a product. -/
def acquaintances : Database :=
  (((Database.empty.apply (.insertUser (sampleUser 1 "+201"))).apply
    (.insertUser (sampleUser 2 "+202"))).apply
      (.insertProduct (sampleProductOf 1))).apply
        (.insertProduct (sampleProductOf 2))

def acquaintanceIds : Sequences := ⟨3, 1, 3, 1, 1, 1⟩

theorem allowed_acquaintances : acquaintances.Allowed acquaintanceIds where
  within := by
    refine Database.Within.apply (.apply (.apply (.apply
      (Database.within_empty _) trivial) trivial) ?_) ?_
    · show 1 < 3
      decide
    · show 2 < 3
      decide
  linked _ hrow := absurd hrow List.not_mem_nil
  pairsUnique _ hrow := absurd hrow List.not_mem_nil

theorem acquainted_acquaintances : acquaintances.Acquainted 1 2 where
  distinct := by decide
  positive := by decide
  live := by decide
  unblocked := by decide

/-- The calls of users 1 and 2 over this data. -/
abbrev SampleCalls
    (pool : Pool OpeningCall Draw Market Fault ConversationView) : Prop :=
  Calls 1 2 acquaintances acquaintanceIds 0 pool

def opensAbout (userId participantId : ℕ) (productId : Option ℕ) :
    Move OpeningCall Draw ℕ :=
  .submit ⟨userId, participantId, productId⟩

def advances (i n : ℕ) : List (Move OpeningCall Draw ℕ) :=
  List.replicate n (.advance i calmDraw)

instance (call : OpeningCall) (userId participantId : ℕ) :
    Decidable (call.Between userId participantId) :=
  inferInstanceAs (Decidable (_ ∨ _))

instance (call : OpeningCall) (db : Database) : Decidable (call.Valid db) :=
  match h : truthy call.productId with
  | none => .isTrue fun _ hproduct => nomatch h.symm.trans hproduct
  | some productId =>
      decidable_of_iff (productFault call.userId call.participantId
          (db.liveProduct productId) = none)
        ⟨fun hvalid _ hproduct =>
            Option.some.inj (h.symm.trans hproduct) ▸ hvalid,
          fun hvalid => hvalid productId h⟩

theorem exists_sampleCalls {moves : List (Move OpeningCall Draw ℕ)}
    {check : Pool OpeningCall Draw Market Fault ConversationView → Bool}
    (hadmits : ∀ call ∈ moves.filterMap Move.submitted,
      call.Between 1 2 ∧ call.Valid acquaintances)
    (hrun : (openings.run moves
      ⟨.opening acquaintances acquaintanceIds 0, []⟩).any check = true) :
    ∃ pool, SampleCalls pool ∧ check pool = true := by
  obtain ⟨pool, hreach, hcheck⟩ := System.exists_admitted_of_run
    (fun call hmem _ => hadmits call hmem) hrun
  exact ⟨pool, ⟨allowed_acquaintances, acquainted_acquaintances, hreach⟩,
    hcheck⟩

/-- Each user opens the conversation, one after the other. -/
def takeTurns : List (Move OpeningCall Draw ℕ) :=
  opensAbout 1 2 (some 1) :: advances 0 8 ++
    opensAbout 2 1 none :: advances 1 6

theorem one_conversation_of_turns :
    ∃ pool row view view', SampleCalls pool ∧
      pool.threads[0]? = some ⟨⟨1, 2, some 1⟩, .done view⟩ ∧
      pool.threads[1]? = some ⟨⟨2, 1, none⟩, .done view'⟩ ∧
      pool.state.db.conversationsOf (orderedPair 1 2) = [row] ∧
      view.id = row.id ∧ view'.id = row.id := by
  obtain ⟨pool, hcalls, hcheck⟩ := exists_sampleCalls
    (show ∀ call ∈ takeTurns.filterMap Move.submitted,
      call.Between 1 2 ∧ call.Valid acquaintances by decide +kernel)
    (show (openings.run takeTurns _).any (fun pool =>
      decide (InTime pool.state) && pool.answers 0 ⟨1, 2, some 1⟩ &&
        pool.answers 1 ⟨2, 1, none⟩) = true by decide +kernel)
  simp only [Bool.and_eq_true, decide_eq_true_eq] at hcheck
  obtain ⟨⟨hintime, hfirst⟩, hsecond⟩ := hcheck
  obtain ⟨view, hview⟩ := Pool.done_of_answers hfirst
  obtain ⟨view', hview'⟩ := Pool.done_of_answers hsecond
  have hone := (one_conversation_of_inTime hcalls hintime).2.1
  obtain ⟨row, hrow, hid⟩ := hone 0 _ view hview
  obtain ⟨row', hrow', hid'⟩ := hone 1 _ view' hview'
  obtain rfl := (List.cons.inj (hrow.symm.trans hrow')).1
  exact ⟨pool, row, view, view', hcalls, hview, hview', hrow, hid, hid'⟩

/-- Both users find no conversation and insert one. -/
def insertTwice : List (Move OpeningCall Draw ℕ) :=
  opensAbout 1 2 none :: opensAbout 2 1 none ::
    (advances 0 3 ++ advances 1 3 ++ advances 0 1 ++ advances 1 1)

/-- The conversation has no product, and both users give it their own. -/
def backfillTwice : List (Move OpeningCall Draw ℕ) :=
  opensAbout 1 2 none :: advances 0 7 ++
    opensAbout 1 2 (some 1) :: opensAbout 2 1 (some 2) ::
      (advances 1 4 ++ advances 2 4 ++ advances 1 1)

/-- Of two calls that both insert the conversation one fails, and of two that
both give it a product the second takes the first one's away. -/
theorem not_always_one_conversation :
    (¬ ∀ pool, SampleCalls pool →
      ∀ (i : ℕ) (call : OpeningCall) (fault : Fault),
        pool.threads[i]? = some ⟨call, .failed fault⟩ →
          fault = .database none) ∧
    ¬ ∀ pool later, SampleCalls pool →
      openings.Reaches
        (fun call _ => call.Between 1 2 ∧ call.Valid acquaintances)
        pool later →
      ∀ conversationId productId,
        About conversationId productId pool.state.db →
          About conversationId productId later.state.db := by
  constructor
  · intro halways
    obtain ⟨pool, hcalls, hcheck⟩ := exists_sampleCalls
      (show ∀ call ∈ insertTwice.filterMap Move.submitted,
        call.Between 1 2 ∧ call.Valid acquaintances by decide +kernel)
      (show (openings.run insertTwice _).any (fun pool =>
        (pool.refusal 1).any fun refusal =>
          refusal.2 ≠ .database none) = true by decide +kernel)
    obtain ⟨⟨call, fault⟩, hrefusal, hfault⟩ :=
      (Option.any_eq_true _ _).mp hcheck
    exact of_decide_eq_true hfault
      (halways pool hcalls 1 call fault (Pool.thread_of_refusal hrefusal))
  · intro halways
    obtain ⟨pool, hcalls, hcheck⟩ := exists_sampleCalls
      (show ∀ call ∈ backfillTwice.filterMap Move.submitted,
        call.Between 1 2 ∧ call.Valid acquaintances by decide +kernel)
      (show (openings.run backfillTwice _).any (fun pool =>
        decide (About 1 1 pool.state.db) &&
          (openings.run (advances 2 1) pool).any fun later =>
            decide (¬ About 1 1 later.state.db)) = true by decide +kernel)
    obtain ⟨habout, hrun⟩ := (Bool.and_eq_true _ _).mp hcheck
    obtain ⟨later, hlater, hchanged⟩ := System.exists_admitted_of_run
      (fun call hmem => absurd hmem List.not_mem_nil) hrun
    exact of_decide_eq_true hchanged
      (halways pool later hcalls hlater 1 1 (of_decide_eq_true habout))

end MarketPlace.Trade
