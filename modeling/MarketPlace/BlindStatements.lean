import MarketPlace.BlindRuns
import MarketPlace.LoneServices
import MarketPlace.SecretRows

/-!
# Statements that do not look at secrets

A program is discreet if it does on the market what it does where the secret
rows are left out.  A statement is, if what it reads and writes does not depend
on them.
-/

namespace MarketPlace.Trade

open Interleaving Relational

variable {β γ : Type} {secrets : Secrets} {user i : ℕ} {allowed : Draw → Prop}

/-! ## The market without the secrets -/

def Market.without (secrets : Secrets) (m : Market) : Market :=
  { m with
    store := { m.store with committed := m.db.without secrets }
    opened := m.opened.without secrets }

/-- Nothing that the user can see leads to a secret row, and neither does what
request `i` has queued; the secret files are there already. -/
structure Market.Guarded (secrets : Secrets) (user i : ℕ) (m : Market) :
    Prop where
  committed : secrets.Apart user m.db
  queued : ∀ change ∈ m.store.queue i, change.Avoids secrets
  ids : ∀ id, secrets.files id = true → id < m.ids.files

/-- The request does the same without the secrets, and a value that it returns
is as it should be. -/
def Discreet (secrets : Secrets) (user i : ℕ) (allowed : Draw → Prop)
    (program : Operation β) (good : β → Prop) : Prop :=
  program.Blind i allowed (Market.without secrets)
    (Market.Guarded secrets user i)
    (Program.Gives (Market.Guarded secrets user i) good)

theorem Secrets.Apart.settle {db : Database} {changes : List Change}
    (h : secrets.Apart user db)
    (havoids : ∀ change ∈ changes, change.Avoids secrets) :
    secrets.Apart user (schema.settle changes db) ∧
      schema.settle changes (db.without secrets) =
        (schema.settle changes db).without secrets := by
  induction changes generalizing db with
  | nil => exact ⟨h, rfl⟩
  | cons change rest ih =>
      obtain ⟨hchange, hrest⟩ := List.forall_mem_cons.mp havoids
      obtain ⟨hapart, hsettle⟩ := ih (h.apply hchange) hrest
      refine ⟨hapart, ?_⟩
      change schema.settle rest ((db.without secrets).apply change) = _
      rw [hchange.apply_without]
      exact hsettle

namespace Market.Guarded

variable {m : Market} (h : m.Guarded secrets user i)

include h

theorem viewFor_without (client : Option Client) :
    (m.without secrets).viewFor client i =
      (m.viewFor client i).without secrets := by
  cases client with
  | none => rfl
  | some client => exact (h.committed.settle h.queued).2

theorem viewFor (client : Option Client) :
    secrets.Apart user (m.viewFor client i) := by
  cases client with
  | none => exact h.committed
  | some client => exact (h.committed.settle h.queued).1

theorem rollback : (m.rollback i).Guarded secrets user i := by
  refine ⟨h.committed, fun change hchange => ?_, h.ids⟩
  change change ∈ (m.store.rollback i).queue i at hchange
  rw [ReadCommitted.Store.queue_rollback] at hchange
  contradiction

theorem commit : (m.commit i).Guarded secrets user i := by
  refine ⟨(h.committed.settle h.queued).1, fun change hchange => ?_, h.ids⟩
  change change ∈ (m.store.commit schema i).queue i at hchange
  rw [ReadCommitted.Store.queue_commit] at hchange
  contradiction

theorem without_commit :
    (m.without secrets).commit i = (m.commit i).without secrets := by
  have hview := h.viewFor_without (some ⟨0⟩)
  simp only [Market.viewFor] at hview
  simp only [Market.commit, ReadCommitted.Store.commit, hview]
  rfl

theorem ids_nextIds (change : Change) :
    ∀ id, secrets.files id = true →
      id < (Market.nextIds change m.ids).files := by
  intro id hid
  have hlt := h.ids id hid
  cases change with
  | insertFile row => exact Nat.lt_succ_of_lt hlt
  | _ => exact hlt

theorem write {client : Option Client} {change : Change}
    (havoids : change.Avoids secrets) :
    (m.write client i change).Guarded secrets user i := by
  cases client with
  | none =>
      exact ⟨h.committed.apply havoids, h.queued, h.ids_nextIds change⟩
  | some client =>
      refine ⟨h.committed, fun other hother => ?_, h.ids_nextIds change⟩
      change other ∈ (m.store.enqueue schema i change).queue i at hother
      rw [ReadCommitted.Store.queue_enqueue, List.mem_append,
        List.mem_singleton] at hother
      rcases hother with hold | rfl
      · exact h.queued other hold
      · exact havoids

theorem without_write {client : Option Client} {change : Change}
    (havoids : change.Avoids secrets) :
    (m.without secrets).write client i change =
      (m.write client i change).without secrets := by
  cases client with
  | none =>
      simp only [Market.write, Market.autocommit,
        ReadCommitted.Store.autocommit, schema_apply]
      have happly : (m.without secrets).store.committed.apply change =
          (m.store.committed.apply change).without secrets :=
        havoids.apply_without
      rw [happly]
      rfl
  | some client =>
      have hlocks : change.footprint ((m.without secrets).store.view schema i) =
          change.footprint (m.store.view schema i) :=
        (congrArg change.footprint (h.viewFor_without (some client))).trans
          havoids.footprint_without
      have hqueued : (m.without secrets).store.enqueue schema i change =
          { m.store.enqueue schema i change with
            committed := m.db.without secrets } := by
        rw [ReadCommitted.Store.enqueue, ReadCommitted.Store.enqueue]
        change ((m.without secrets).store.lock i (change.footprint _)).setQueue
          i _ = _
        rw [hlocks]
        rfl
      simp only [Market.write, Market.enqueue, hqueued]
      rfl

theorem lockable_without {client : Option Client} {change : Change}
    (havoids : change.Avoids secrets) :
    (m.without secrets).lockable client i change =
      m.lockable client i change := by
  have hlocks : change.footprint ((m.without secrets).viewFor client i) =
      change.footprint (m.viewFor client i) :=
    (congrArg change.footprint (h.viewFor_without client)).trans
      havoids.footprint_without
  unfold Market.lockable
  dsimp only
  rw [hlocks]
  rfl

end Market.Guarded

/-! ## Statements -/

section Statements

variable {good : β → Prop} {good' : γ → Prop} {client : Option Client}

theorem discreet_done {value : β} (hgood : good value) :
    Discreet secrets user i allowed (.done value) good :=
  Program.blind_value hgood

theorem discreet_failed {fault : Fault} :
    Discreet secrets user i allowed (.failed fault) good :=
  Program.blind_error

theorem Discreet.bind {program : Operation β} {next : β → Operation γ}
    (h : Discreet secrets user i allowed program good)
    (hnext : ∀ value, good value →
      Discreet secrets user i allowed (next value) good') :
    Discreet secrets user i allowed (program >>= next) good' :=
  Program.Blind.andThen h hnext

theorem Discreet.forgetValue {program : Operation β} {good₂ : β → Prop}
    (h : Discreet secrets user i allowed program good)
    (hgood : ∀ value, good value → good₂ value) :
    Discreet secrets user i allowed program good₂ :=
  Program.Blind.forgetValue h hgood

theorem discreet_attempt
    {action : ℕ → Draw → Market → Option (Except Fault β × Market)}
    (haction : ∀ w m, allowed w → m.Guarded secrets user i →
      action i w (m.without secrets) =
        (action i w m).map fun done => (done.1, done.2.without secrets))
    (hafter : ∀ w m outcome t, allowed w → m.Guarded secrets user i →
      action i w m = some (outcome, t) →
        t.Guarded secrets user i ∧ ∀ value, outcome = .ok value → good value) :
    Discreet secrets user i allowed (attempt action) good := by
  refine Program.blind_atomic _ haction hafter fun outcome => ?_
  cases outcome with
  | ok value => exact Program.blind_done fun m hm => hm
  | error fault => exact Program.blind_failed fun m hm => hm

/-- A query that reads the same without the secrets. -/
theorem discreet_selectOrdered {query : (ℕ → ℕ) → Database → β}
    (hquery : ∀ tieRank db, secrets.Apart user db →
      query tieRank (db.without secrets) = query tieRank db)
    (hgood : ∀ tieRank db, secrets.Apart user db → good (query tieRank db)) :
    Discreet secrets user i allowed (selectOrdered client query) good := by
  refine discreet_attempt (fun w m hw hm => ?_)
    fun w m outcome t hw hm haction => ?_
  · split
    · rfl
    · rw [hm.viewFor_without, hquery _ _ (hm.viewFor client)]
      rfl
  · split at haction
    · obtain ⟨rfl, rfl⟩ := Prod.mk.inj (Option.some.inj haction)
      exact ⟨hm, fun _ hfails => by contradiction⟩
    · obtain ⟨rfl, rfl⟩ := Prod.mk.inj (Option.some.inj haction)
      refine ⟨hm, fun value hvalue => ?_⟩
      obtain rfl := Except.ok.inj hvalue
      exact hgood _ _ (hm.viewFor client)

theorem discreet_select {query : Database → β}
    (hquery : ∀ db, secrets.Apart user db →
      query (db.without secrets) = query db)
    (hgood : ∀ db, secrets.Apart user db → good (query db)) :
    Discreet secrets user i allowed (select client query) good :=
  discreet_selectOrdered (fun _ => hquery) fun _ => hgood

/-- A query of tables that hold no secrets. -/
theorem discreet_select_open {query : Database → β}
    (hquery : ∀ db, query (db.without secrets) = query db) :
    Discreet secrets user i allowed (select client query) fun _ => True :=
  discreet_select (fun db _ => hquery db) fun _ _ => trivial

theorem discreet_selectProductForUpdate (client : Client) (productId : ℕ) :
    Discreet secrets user i allowed (selectProductForUpdate client productId)
      fun _ => True := by
  refine discreet_attempt (fun w m hw hm => ?_)
    fun w m outcome t hw hm haction => ?_
  · split
    · rfl
    · rw [hm.viewFor_without]
      have hlive : ((m.viewFor (some client) i).without secrets).liveProduct
          productId = (m.viewFor (some client) i).liveProduct productId := rfl
      rw [hlive]
      cases (m.viewFor (some client) i).liveProduct productId with
      | none => rfl
      | some row =>
          dsimp only
          cases havailable : m.store.available i [.product row.id] with
          | false =>
              have hsame : (m.without secrets).store.available i
                [.product row.id] = false := havailable
              rw [hsame]
              rfl
          | true =>
              have hsame : (m.without secrets).store.available i
                [.product row.id] = true := havailable
              rw [hsame]
              rfl
  · refine ⟨?_, fun _ _ => trivial⟩
    split at haction
    · obtain ⟨-, rfl⟩ := Prod.mk.inj (Option.some.inj haction)
      exact hm
    split at haction
    · obtain ⟨-, rfl⟩ := Prod.mk.inj (Option.some.inj haction)
      exact hm
    · obtain ⟨-, haction⟩ := Option.ite_none_right_eq_some.mp haction
      obtain ⟨-, rfl⟩ := Prod.mk.inj (Option.some.inj haction)
      exact ⟨hm.committed, hm.queued, hm.ids⟩

/-- A write that avoids the secrets, and returns nothing of them. -/
theorem discreet_run {change : ℕ → Sequences → Change}
    {result : ℕ → Sequences → Database → Database → β}
    (havoids : ∀ (m : Market), m.Guarded secrets user i →
      (change (m.nowFor client) m.ids).Avoids secrets)
    (hresult : ∀ now ids before after,
      result now ids (before.without secrets) (after.without secrets) =
        result now ids before after)
    (hgood : ∀ now ids before after, good (result now ids before after)) :
    Discreet secrets user i allowed (run client change result) good := by
  refine discreet_attempt (fun w m hw hm => ?_)
    fun w m outcome t hw hm haction => ?_
  · have hchange := havoids m hm
    have hnow : (m.without secrets).nowFor client = m.nowFor client := by
      cases client <;> rfl
    have hids : (m.without secrets).ids = m.ids := rfl
    dsimp only
    rw [hnow, hids, hm.lockable_without hchange, hm.without_write hchange,
      hm.viewFor_without, hchange.violation_without (hm.viewFor client),
      (hm.write hchange).viewFor_without, hresult]
    cases w.databaseFails with
    | true => rfl
    | false =>
        cases m.lockable client i (change (m.nowFor client) m.ids) with
        | false => rfl
        | true =>
            cases (m.viewFor client i).violation
              (change (m.nowFor client) m.ids) <;> rfl
  · have hchange := havoids m hm
    dsimp only at haction
    split at haction
    · obtain ⟨rfl, rfl⟩ := Prod.mk.inj (Option.some.inj haction)
      exact ⟨⟨hm.committed, hm.queued, hm.ids⟩, fun _ hfails => by contradiction⟩
    obtain ⟨-, haction⟩ := Option.ite_none_right_eq_some.mp haction
    split at haction
    · obtain ⟨rfl, rfl⟩ := Prod.mk.inj (Option.some.inj haction)
      exact ⟨⟨hm.committed, hm.queued, hm.ids_nextIds _⟩,
        fun _ hfails => by contradiction⟩
    · obtain ⟨rfl, rfl⟩ := Prod.mk.inj (Option.some.inj haction)
      refine ⟨hm.write hchange, fun value hvalue => ?_⟩
      obtain rfl := Except.ok.inj hvalue
      exact hgood _ _ _ _

theorem discreet_perform {change : ℕ → Change}
    (havoids : ∀ now, (change now).Avoids secrets) :
    Discreet secrets user i allowed (perform client change) fun _ => True := by
  have hrun : Discreet secrets user i allowed
      (run client (fun now _ => change now) fun _ _ _ _ => ()) fun _ => True :=
    discreet_run (fun m _ => havoids (m.nowFor client)) (fun _ _ _ _ => rfl)
      fun _ _ _ _ => trivial
  exact hrun

theorem discreet_insertReturning {ρ : Type} {row : ℕ → Sequences → ρ}
    {insert : ρ → Change} {good : ρ → Prop}
    (havoids : ∀ (m : Market), m.Guarded secrets user i →
      (insert (row (m.nowFor client) m.ids)).Avoids secrets)
    (hgood : ∀ now ids, good (row now ids)) :
    Discreet secrets user i allowed (insertReturning client row insert) good :=
  discreet_run havoids (fun _ _ _ _ => rfl) fun now ids _ _ => hgood now ids

theorem discreet_draw {choose : Draw → β}
    (hgood : ∀ w, allowed w → good (choose w)) :
    Discreet secrets user i allowed (draw choose) good := by
  refine Program.blind_atomic
    (fun outcome t => t.Guarded secrets user i ∧ good outcome)
    (fun w m _ _ => rfl) (fun w m outcome t hw hm haction => ?_)
    fun outcome => ?_
  · obtain ⟨rfl, rfl⟩ := Prod.mk.inj (Option.some.inj haction)
    exact ⟨hm, hgood w hw⟩
  · exact (Program.Blind.given discreet_done).weaken (fun _ => id) fun _ _ => id

theorem discreet_currentTime :
    Discreet secrets user i allowed currentTime fun _ => True := by
  refine Program.blind_atomic (fun _ t => t.Guarded secrets user i)
    (fun w m _ _ => rfl) (fun w m outcome t hw hm haction => ?_)
    fun outcome => ?_
  · obtain ⟨-, rfl⟩ := Prod.mk.inj (Option.some.inj haction)
    exact hm
  · exact discreet_done trivial

/-- Recovery from any error. -/
theorem Discreet.recover {program : Operation β} {handler : Fault → Operation β}
    (h : Discreet secrets user i allowed program good)
    (hhandler : ∀ fault,
      Discreet secrets user i allowed (handler fault) good) :
    Discreet secrets user i allowed (tryCatch program handler) good := by
  rw [Program.tryCatch_eq_recover]
  exact Program.Blind.orElse h hhandler

theorem Discreet.notFoundOnForeignKey {program : Operation β}
    (h : Discreet secrets user i allowed program good) (message : String) :
    Discreet secrets user i allowed
      (tryCatch program (notFoundOnForeignKey message)) good := by
  refine h.recover fun fault => ?_
  rw [Trade.notFoundOnForeignKey]
  split <;> exact discreet_failed

theorem Discreet.withTransaction {callback : Client → Operation β}
    (h : ∀ client, Discreet secrets user i allowed (callback client) good) :
    Discreet secrets user i allowed (withTransaction callback) good := by
  have hbegin : Discreet secrets user i allowed begin fun _ => True := by
    refine discreet_attempt (fun w m hw hm => ?_)
      fun w m outcome t hw hm haction => ?_
    · split <;> rfl
    · refine ⟨?_, fun _ _ => trivial⟩
      split at haction
      · obtain ⟨-, rfl⟩ := Prod.mk.inj (Option.some.inj haction)
        exact hm
      · obtain ⟨-, rfl⟩ := Prod.mk.inj (Option.some.inj haction)
        exact hm.rollback
  have hcommit : Discreet secrets user i allowed commit fun _ => True := by
    refine discreet_attempt (fun w m hw hm => ?_)
      fun w m outcome t hw hm haction => ?_
    · split
      · rfl
      · rw [hm.without_commit]
        rfl
    · refine ⟨?_, fun _ _ => trivial⟩
      split at haction
      · obtain ⟨-, rfl⟩ := Prod.mk.inj (Option.some.inj haction)
        exact hm
      · obtain ⟨-, rfl⟩ := Prod.mk.inj (Option.some.inj haction)
        exact hm.commit
  have hrollback : Discreet secrets user i allowed rollback fun _ => True := by
    refine discreet_attempt (fun w m hw hm => rfl)
      fun w m outcome t hw hm haction => ?_
    obtain ⟨-, rfl⟩ := Prod.mk.inj (Option.some.inj haction)
    exact ⟨hm.rollback, fun _ _ => trivial⟩
  refine Discreet.recover ?_ fun fault => ?_
  · refine hbegin.bind fun client _ => (h client).bind fun value hvalue => ?_
    exact hcommit.bind fun _ _ => discreet_done hvalue
  · exact hrollback.bind fun _ _ => discreet_failed

/-- What a SELECT outside of a transaction reads is the same without the
secrets where the user is known to take part. -/
theorem blind_selectOrdered_where {K : Market → Prop}
    {query : (ℕ → ℕ) → Database → β}
    (hquery : ∀ tieRank m, m.Guarded secrets user i → K m →
      query tieRank (m.db.without secrets) = query tieRank m.db) :
    (selectOrdered none query).Blind i allowed (Market.without secrets)
      (fun m => m.Guarded secrets user i ∧ K m)
      fun result m => (m.Guarded secrets user i ∧ K m) ∧
        ∀ value, result = .ok value → ∃ tieRank, value = query tieRank m.db := by
  refine Program.blind_atomic
    (fun outcome m => (m.Guarded secrets user i ∧ K m) ∧
      ∀ value, outcome = .ok value → ∃ tieRank, value = query tieRank m.db)
    (fun w m hw hm => ?_) (fun w m outcome t hw hm haction => ?_)
    fun outcome => ?_
  · split
    · rfl
    · exact congrArg (fun value => some (Except.ok value, m.without secrets))
        (hquery w.tieRank m hm.1 hm.2)
  · split at haction
    · obtain ⟨rfl, rfl⟩ := Prod.mk.inj (Option.some.inj haction)
      exact ⟨hm, fun _ hfails => by contradiction⟩
    · obtain ⟨rfl, rfl⟩ := Prod.mk.inj (Option.some.inj haction)
      refine ⟨hm, fun value hvalue => ?_⟩
      obtain rfl := Except.ok.inj hvalue
      exact ⟨w.tieRank, rfl⟩
  · cases outcome with
    | ok value => exact Program.blind_done fun m hm => hm
    | error fault => exact Program.blind_failed fun m hm => hm

theorem blind_select_where {K : Market → Prop} {query : Database → β}
    (hquery : ∀ m, m.Guarded secrets user i → K m →
      query (m.db.without secrets) = query m.db) :
    (select none query).Blind i allowed (Market.without secrets)
      (fun m => m.Guarded secrets user i ∧ K m)
      fun result m => (m.Guarded secrets user i ∧ K m) ∧
        ∀ value, result = .ok value → value = query m.db := by
  refine (blind_selectOrdered_where fun _ => hquery).weaken (fun _ => id)
    fun result m hm => ⟨hm.1, fun value hvalue => ?_⟩
  obtain ⟨_, hread⟩ := hm.2 value hvalue
  exact hread

end Statements

end MarketPlace.Trade
