import MarketPlace.MarketDiscipline

/-!
# Rules for the market's statements

One rule for each kind of action.  A rule's postcondition is shown at every
later sound market, so that it can be the check of the program that follows.
-/

namespace MarketPlace.Trade

open EventLog Interleaving Relational

/-- A sound market in which the others have gone on. -/
structure Later (i : ℕ) (m t : Market) : Prop extends Rely i m t where
  sound : t.Sound

theorem Later.trans {i : ℕ} {m u t : Market}
    (h : Rely i m u) (h' : Later i u t) : Later i m t :=
  ⟨h.trans h'.toRely, h'.sound⟩

/-- A request that only looked at a market knows what it saw of it later. -/
structure Seen (i : ℕ) (m u t : Market) : Prop where
  before : Later i m u
  after : Later i u t

theorem Seen.later {i : ℕ} {m u t : Market} (h : Seen i m u t) : Later i m t :=
  Later.trans h.before.toRely h.after

variable {rights : Rights} {i : ℕ} {m : Market}
variable {β : Type} {post : β → Market → Prop} {fail : Fault → Market → Prop}

theorem attempt_meets
    {action : ℕ → Draw → Market → Option (Except Fault β × Market)}
    (haction : ∀ u, Later i m u → ∀ d outcome v,
      action i d u = some (outcome, v) →
        Acts rights i u v ∧
          ∀ t, Later i v t →
            match outcome with
            | .ok value => post value t
            | .error fault => fail fault t) :
    (attempt action).Meets (acting rights) i post fail m := by
  intro u hu hsound d outcome v hrun
  obtain ⟨hacts, hafter⟩ := haction u ⟨hu, hsound⟩ d outcome v hrun
  refine ⟨⟨⟨hsound, rights, hacts⟩, hacts⟩, ?_⟩
  cases outcome with
  | ok value => exact fun t ht ht' => hafter t ⟨ht, ht'⟩
  | error fault => exact fun t ht ht' => hafter t ⟨ht, ht'⟩

/-! ## Reads -/

theorem selectOrdered_meets {client : Option Client}
    {query : (ℕ → ℕ) → Database → β}
    (hfail : ∀ t, Later i m t → fail (.database none) t)
    (hpost : ∀ tieRank u t, Seen i m u t →
      post (query tieRank (u.viewFor client i)) t) :
    (selectOrdered client query).Meets (acting rights) i post fail m := by
  refine attempt_meets fun u hu d outcome v hrun => ?_
  split at hrun
  · simp only [Option.some.injEq, Prod.mk.injEq] at hrun
    obtain ⟨rfl, rfl⟩ := hrun
    exact ⟨.inl rfl, fun t ht => hfail t (Later.trans hu.toRely ht)⟩
  · simp only [Option.some.injEq, Prod.mk.injEq] at hrun
    obtain ⟨rfl, rfl⟩ := hrun
    exact ⟨.inl rfl, fun t ht => hpost d.tieRank u t ⟨hu, ht⟩⟩

theorem select_meets {client : Option Client} {query : Database → β}
    (hfail : ∀ t, Later i m t → fail (.database none) t)
    (hpost : ∀ u t, Seen i m u t → post (query (u.viewFor client i)) t) :
    (select client query).Meets (acting rights) i post fail m :=
  selectOrdered_meets hfail fun _ => hpost

theorem draw_meets {choose : Draw → β}
    (hpost : ∀ d t, Later i m t → post (choose d) t) :
    (draw choose).Meets (acting rights) i post fail m := by
  intro u hu hsound d value v hrun
  simp only [Option.some.injEq, Prod.mk.injEq] at hrun
  obtain ⟨rfl, rfl⟩ := hrun
  exact ⟨⟨⟨hsound, rights, .inl rfl⟩, .inl rfl⟩,
    fun t ht ht' => hpost d t ⟨hu.trans ht, ht'⟩⟩

theorem currentTime_meets {post : ℕ → Market → Prop}
    (hpost : ∀ now t, Later i m t → post now t) :
    currentTime.Meets (acting rights) i post fail m := by
  intro u hu hsound d value v hrun
  simp only [Option.some.injEq, Prod.mk.injEq] at hrun
  obtain ⟨rfl, rfl⟩ := hrun
  exact ⟨⟨⟨hsound, rights, .inl rfl⟩, .inl rfl⟩,
    fun t ht ht' => hpost _ t ⟨hu.trans ht, ht'⟩⟩

/-- A program that throws or goes on without an action. -/
theorem done_meets {value : β} (hpost : ∀ t, Later i m t → post value t) :
    (Program.done value : Operation β).Meets (acting rights) i post fail m :=
  fun t ht ht' => hpost t ⟨ht, ht'⟩

theorem failed_meets {fault : Fault} (hfail : ∀ t, Later i m t → fail fault t) :
    (Program.failed fault : Operation β).Meets (acting rights) i post fail m :=
  fun t ht ht' => hfail t ⟨ht, ht'⟩

/-! ## Locking reads -/

theorem selectProductForUpdate_meets
    {client : Client} {productId : ℕ}
    {post : Option ProductRow → Market → Prop}
    (hqueue : m.store.queue i = [])
    (hfail : ∀ t, Later i m t → fail (.database none) t)
    (hnone : ∀ t, Later i m t → post none t)
    (hsome : ∀ row t, Later i m t →
      t.store.holder (.product productId) = some i →
      t.db.products.get productId = some row → row.deletedAt = none →
      post (some row) t) :
    (selectProductForUpdate client productId).Meets (acting rights) i post fail
      m := by
  refine attempt_meets fun u hu d outcome v hrun => ?_
  split at hrun
  · simp only [Option.some.injEq, Prod.mk.injEq] at hrun
    obtain ⟨rfl, rfl⟩ := hrun
    exact ⟨.inl rfl, fun t ht => hfail t (Later.trans hu.toRely ht)⟩
  · have hview : u.viewFor (some client) i = u.db :=
      ReadCommitted.Store.view_of_queue_eq_nil _ (hu.queue.trans hqueue)
    rw [hview] at hrun
    cases hrow : u.db.liveProduct productId with
    | none =>
        simp only [hrow, Option.some.injEq, Prod.mk.injEq] at hrun
        obtain ⟨rfl, rfl⟩ := hrun
        exact ⟨.inl rfl, fun t ht => hnone t (Later.trans hu.toRely ht)⟩
    | some row =>
        obtain ⟨hget, hlive⟩ := Option.filter_eq_some_iff.mp hrow
        have hid : row.id = productId := Table.key_of_get hget
        rw [hrow] at hrun
        simp only [hid, Option.ite_none_right_eq_some, Option.some.injEq,
          Prod.mk.injEq] at hrun
        obtain ⟨havailable, rfl, rfl⟩ := hrun
        refine ⟨.inr (.locked _ havailable), fun t ht => ?_⟩
        have hheld : (u.lock i [.product productId]).store.holder
            (.product productId) = some i :=
          ReadCommitted.Store.holder_lock_of_mem List.mem_cons_self
        have hsame := ht.product productId hheld
        have hlater : Later i m t := by
          refine Later.trans hu.toRely ⟨?_, ht.sound⟩
          exact
            { queue := ht.queue
              held := fun lock hlock => ht.held lock
                (ReadCommitted.Store.holder_lock_of_held havailable hlock)
              product := fun other hlock => ht.product other
                (ReadCommitted.Store.holder_lock_of_held havailable hlock)
              grows := ht.grows
              ids := ht.ids
              history := ht.history
              others := ht.others
              opened := ht.opened }
        refine hsome row t hlater (ht.held _ hheld) ?_ (by simpa using hlive)
        exact (congrArg Prod.fst hsame).trans hget

/-! ## Writes -/

theorem Market.grows_autocommit (m : Market) (i : ℕ) (change : Change) :
    m.db.Grows (m.autocommit i change).db := m.db.grows_apply change

/-- A statement outside of a transaction. -/
theorem run_meets
    {change : ℕ → Sequences → Change}
    {result : ℕ → Sequences → Database → Database → β}
    (hwrites : ∀ now ids, (change now ids).kind ∈ rights.writes)
    (halone : ∀ now ids, (change now ids).transactional = false)
    (hoffered : ∀ u, Later i m u → ∃ actor, rights.user = some actor ∧
      (change u.now u.ids).Offered actor u)
    (hlost : ∀ u t, Later i m u →
      Later i (u.record (.lost i (change u.now u.ids))) t →
      fail (.database none) t)
    (hrejected : ∀ u t violation, Later i m u →
      u.db.violation (change u.now u.ids) = some violation →
      Later i ((u.take (change u.now u.ids)).record
        (.rejected i (change u.now u.ids))) t →
      fail (.database (some violation)) t)
    (hpost : ∀ u t, Later i m u →
      u.db.violation (change u.now u.ids) = none →
      Later i (u.autocommit i (change u.now u.ids)) t →
      post (result u.now u.ids u.db (u.db.apply (change u.now u.ids))) t) :
    (run none change result).Meets (acting rights) i post fail m := by
  refine attempt_meets fun u hu d outcome v hrun => ?_
  have hkind := hwrites u.now u.ids
  dsimp only at hrun
  by_cases hfails : d.databaseFails = true
  · simp only [hfails, if_true, Option.some.injEq, Prod.mk.injEq] at hrun
    obtain ⟨rfl, rfl⟩ := hrun
    exact ⟨.inr (.lost _ hkind), fun t ht => hlost u t hu ht⟩
  rw [if_neg hfails] at hrun
  by_cases hlockable : u.lockable none i (change (u.nowFor none) u.ids) = true
  · rw [if_pos hlockable] at hrun
    cases hviolation : (u.viewFor none i).violation
        (change (u.nowFor none) u.ids) with
    | some violation =>
        simp only [hviolation, Option.some.injEq, Prod.mk.injEq] at hrun
        obtain ⟨rfl, rfl⟩ := hrun
        exact ⟨.inr (.rejected none _ violation hkind hviolation),
          fun t ht => hrejected u t violation hu hviolation ht⟩
    | none =>
        simp only [hviolation, Option.some.injEq, Prod.mk.injEq] at hrun
        obtain ⟨rfl, rfl⟩ := hrun
        obtain ⟨actor, huser, hoffer⟩ := hoffered u hu
        exact ⟨.inr (.wrote actor _ huser hkind (halone _ _) hlockable
          hviolation hoffer), fun t ht => hpost u t hu hviolation ht⟩
  · rw [if_neg hlockable] at hrun
    contradiction

/-- A market in which the request has queued a write since. -/
structure Queued (i : ℕ) (m u t : Market) (change : Change) : Prop where
  before : Later i m u
  available : u.store.available i (change.footprint (u.store.view schema i)) = true
  after : Later i (u.enqueue i change) t

/-- What a request knows of its locks and of the data, whatever it has
queued. -/
structure Carried (i : ℕ) (m t : Market) : Prop where
  held : ∀ lock, m.store.holder lock = some i → t.store.holder lock = some i
  product : ∀ productId, m.store.holder (.product productId) = some i →
    t.db.productState productId = m.db.productState productId
  grows : m.db.Grows t.db
  ids : m.ids.Le t.ids

theorem Later.carried {i : ℕ} {m t : Market} (h : Later i m t) :
    Carried i m t :=
  ⟨h.held, h.product, h.grows, h.ids⟩

theorem Queued.carried {i : ℕ} {m u t : Market} {change : Change}
    (h : Queued i m u t change) : Carried i m t where
  held lock hheld := h.after.held lock
    (ReadCommitted.Store.holder_lock_of_held h.available
      (h.before.held lock hheld))
  product productId hheld :=
    (h.after.product productId
      (ReadCommitted.Store.holder_lock_of_held h.available
        (h.before.held _ hheld))).trans (h.before.product productId hheld)
  grows := h.before.grows.trans h.after.grows
  ids := (h.before.ids.trans (Market.le_nextIds change u.ids)).trans h.after.ids

/-- A statement inside of a transaction, which joins the queue. -/
theorem run_queued_meets {client : Client}
    {change : ℕ → Sequences → Change}
    {result : ℕ → Sequences → Database → Database → β}
    {queue : List Change}
    (hqueue : m.store.queue i = queue)
    (hwrites : ∀ now ids, (change now ids).kind ∈ rights.writes)
    (htransactional : ∀ now ids, (change now ids).transactional = true)
    (hneeded : ∀ u, Later i m u → ∀ lock,
      (change client.startedAt u.ids).Needs lock →
        lock ∈ (change client.startedAt u.ids).footprint
            (u.store.view schema i) ∨
          u.store.holder lock = some i)
    (hfail : ∀ fault t, fail fault t)
    (hpost : ∀ u t before after, Queued i m u t (change client.startedAt u.ids) →
      t.store.queue i = queue ++ [change client.startedAt u.ids] →
      post (result client.startedAt u.ids before after) t) :
    (run (some client) change result).Meets (acting rights) i post fail m := by
  refine attempt_meets fun u hu d outcome v hrun => ?_
  have hkind := hwrites client.startedAt u.ids
  dsimp only at hrun
  by_cases hfails : d.databaseFails = true
  · simp only [hfails, if_true, Option.some.injEq, Prod.mk.injEq] at hrun
    obtain ⟨rfl, rfl⟩ := hrun
    exact ⟨.inr (.lost _ hkind), fun t _ => hfail _ t⟩
  rw [if_neg hfails] at hrun
  by_cases hlockable : u.lockable (some client) i
      (change (u.nowFor (some client)) u.ids) = true
  · rw [if_pos hlockable] at hrun
    cases hviolation : (u.viewFor (some client) i).violation
        (change (u.nowFor (some client)) u.ids) with
    | some violation =>
        simp only [hviolation, Option.some.injEq, Prod.mk.injEq] at hrun
        obtain ⟨rfl, rfl⟩ := hrun
        exact ⟨.inr (.rejected (some client) _ violation hkind hviolation),
          fun t _ => hfail _ t⟩
    | none =>
        simp only [hviolation, Option.some.injEq, Prod.mk.injEq] at hrun
        obtain ⟨rfl, rfl⟩ := hrun
        refine ⟨.inr (.queued _ hkind (htransactional _ _) hlockable
          (hneeded u hu)), fun t ht => hpost u t _ _ ⟨hu, hlockable, ht⟩ ?_⟩
        rw [ht.queue, ← hqueue, ← hu.queue]
        exact ReadCommitted.Store.queue_enqueue _ _ _ _
  · rw [if_neg hlockable] at hrun
    contradiction

/-- A statement of a transaction that needs no identity value and no lock but
those the request holds. -/
theorem execute_queued_meets {client : Client} {change : ℕ → Change}
    {returning : Database → β} {queue : List Change}
    (hqueue : m.store.queue i = queue)
    (hwrites : ∀ now, (change now).kind ∈ rights.writes)
    (htransactional : ∀ now, (change now).transactional = true)
    (hheld : ∀ productId ∈ (change client.startedAt).products,
      m.store.holder (.product productId) = some i)
    (hfail : ∀ fault t, fail fault t)
    (hpost : ∀ value u t, Queued i m u t (change client.startedAt) →
      t.store.queue i = queue ++ [change client.startedAt] → post value t) :
    (execute (some client) change returning).Meets (acting rights) i post fail
      m := by
  refine run_queued_meets hqueue (fun now _ => hwrites now)
    (fun now _ => htransactional now) ?_ hfail
    fun u t _ _ hqueued hnext => hpost _ u t hqueued hnext
  rintro u hu lock ⟨productId, hproduct, rfl⟩
  exact .inr (hu.held _ (hheld productId hproduct))

/-! ## Transactions -/

/-- The queue is one that the request may commit. -/
def Committable (rights : Rights) (i : ℕ) (m : Market) : Prop :=
  ∃ actor, rights.user = some actor ∧
    ProductTransaction actor m (m.store.queue i)

theorem begin_meets {post : Client → Market → Prop}
    (hfail : ∀ fault t, fail fault t)
    (hpost : ∀ client t, t.Sound → t.store.queue i = [] → post client t) :
    begin.Meets (acting rights) i post fail m := by
  refine attempt_meets fun u hu d outcome v hrun => ?_
  split at hrun
  · simp only [Option.some.injEq, Prod.mk.injEq] at hrun
    obtain ⟨rfl, rfl⟩ := hrun
    exact ⟨.inl rfl, fun t _ => hfail _ t⟩
  · simp only [Option.some.injEq, Prod.mk.injEq] at hrun
    obtain ⟨rfl, rfl⟩ := hrun
    exact ⟨.inr .rolledBack, fun t ht => hpost _ t ht.sound
      (ht.queue.trans (ReadCommitted.Store.queue_rollback _ _))⟩

theorem commit_meets {post : Unit → Market → Prop}
    (hcommittable : ∀ u, Later i m u → Committable rights i u)
    (hfail : ∀ fault t, fail fault t) (hpost : ∀ t, post () t) :
    commit.Meets (acting rights) i post fail m := by
  refine attempt_meets fun u hu d outcome v hrun => ?_
  split at hrun
  · simp only [Option.some.injEq, Prod.mk.injEq] at hrun
    obtain ⟨rfl, rfl⟩ := hrun
    exact ⟨.inl rfl, fun t _ => hfail _ t⟩
  · simp only [Option.some.injEq, Prod.mk.injEq] at hrun
    obtain ⟨rfl, rfl⟩ := hrun
    obtain ⟨actor, huser, htransaction⟩ := hcommittable u hu
    exact ⟨.inr (.committed actor huser htransaction), fun t _ => hpost t⟩

theorem rollback_meets {post : Unit → Market → Prop}
    (hpost : ∀ t, post () t) :
    rollback.Meets (acting rights) i post fail m := by
  refine attempt_meets fun u hu d outcome v hrun => ?_
  simp only [Option.some.injEq, Prod.mk.injEq] at hrun
  obtain ⟨rfl, rfl⟩ := hrun
  exact ⟨.inr .rolledBack, fun t _ => hpost t⟩

/-- A callback that leaves a committable queue, however long its COMMIT
waits, is committed or rolled back as a whole. -/
theorem withTransaction_meets {callback : Client → Operation β}
    {good : β → Prop}
    (hcallback : ∀ client t, t.Sound → t.store.queue i = [] →
      (callback client).Meets (acting rights) i
        (fun value u => good value ∧ ∀ v, Later i u v → Committable rights i v)
        (fun _ _ => True) t) :
    (withTransaction callback).Meets (acting rights) i
      (fun value _ => good value) (fun _ _ => True) m := by
  refine Program.Meets.caught (fun _ _ => True) ?_ fun fault t _ => ?_
  · refine Program.Meets.bind (begin_meets (fun _ _ => trivial) ?_)
    intro client t hsound hqueue
    refine Program.Meets.seq _ (hcallback client t hsound hqueue) ?_
    rintro value u ⟨hgood, hcommittable⟩
    exact Program.Meets.bind (commit_meets hcommittable (fun _ _ => trivial)
      fun v => done_meets fun _ _ => hgood)
  · exact Program.Meets.bind
      (rollback_meets fun u => failed_meets fun _ _ => trivial)

end MarketPlace.Trade
