import MarketPlace.ChatService
import MarketPlace.LoneRuns

/-!
# Services run alone

What each kind of statement can return, and what it leaves, when a request
acts alone and any of its statements may fail.
-/

namespace MarketPlace.Trade

open Interleaving

variable {β γ : Type} {i : ℕ} {ws : List Draw} {m t : Market}
  {client : Option Client}

theorem ends_attempt
    {action : ℕ → Draw → Market → Option (Except Fault β × Market)}
    {result : Except Fault β} :
    (attempt action).Ends i ws m result t ↔
      ∃ w, ws = [w] ∧ action i w m = some (result, t) := by
  constructor
  · rintro ⟨w, rest, outcome, u, rfl, haction, h⟩
    cases outcome with
    | ok value =>
        obtain ⟨rfl, rfl, rfl⟩ := h
        exact ⟨w, rfl, haction⟩
    | error fault =>
        obtain ⟨rfl, rfl, rfl⟩ := h
        exact ⟨w, rfl, haction⟩
  · rintro ⟨w, rfl, haction⟩
    refine ⟨w, [], result, t, rfl, haction, ?_⟩
    cases result <;> exact ⟨rfl, rfl, rfl⟩

/-- A SELECT reads the data, or it fails; it changes nothing. -/
theorem ends_select {query : Database → β} {result : Except Fault β}
    (h : (select client query).Ends i ws m result t) :
    t = m ∧ (result = .ok (query (m.viewFor client i)) ∨
      result = .error (.database none)) := by
  obtain ⟨w, rfl, haction⟩ := ends_attempt.mp h
  split at haction
  · obtain ⟨rfl, rfl⟩ := Prod.mk.inj (Option.some.inj haction)
    exact ⟨rfl, .inr rfl⟩
  · obtain ⟨rfl, rfl⟩ := Prod.mk.inj (Option.some.inj haction)
    exact ⟨rfl, .inl rfl⟩

theorem ends_select_ok {query : Database → β} {value : β}
    (h : (select client query).Ends i ws m (.ok value) t) :
    t = m ∧ value = query (m.viewFor client i) := by
  obtain ⟨hsame, hok | herror⟩ := ends_select h
  · exact ⟨hsame, Except.ok.inj hok⟩
  · exact absurd herror (by simp)

/-- What comes after a SELECT that was answered. -/
theorem ends_select_bind_ok {query : Database → β} {next : β → Operation γ}
    {value : γ}
    (h : (select client query >>= next).Ends i ws m (.ok value) t) :
    ∃ rest, (next (query (m.viewFor client i))).Ends i rest m (.ok value) t := by
  obtain ⟨first, rest, answer, u, rfl, hselect, hnext⟩ :=
    Program.ends_bind_ok.mp h
  obtain ⟨rfl, rfl⟩ := ends_select_ok hselect
  exact ⟨rest, hnext⟩

/-- A SELECT whose database answers. -/
theorem ends_select_calm (client : Option Client) (query : Database → β)
    (i : ℕ) (m : Market) :
    (select client query).Ends i [calmDraw] m
      (.ok (query (m.viewFor client i))) m :=
  ends_attempt.mpr ⟨calmDraw, rfl, rfl⟩

theorem not_ends_failed_ok {fault : Fault} {value : β} :
    ¬ (Program.failed fault : Operation β).Ends i ws m (.ok value) t := by
  simp

/-- A run that is evaluated and is answered. -/
theorem ends_ok_of_runUnder {program : Operation β}
    (h : ((program.runUnder i ws m).any fun ended =>
      ended.1.toOption.isSome) = true) :
    ∃ value t, program.Ends i ws m (.ok value) t := by
  obtain ⟨result, t, hends, hanswers⟩ := Program.exists_ends_of_runUnder h
  cases result with
  | error fault => exact absurd hanswers Bool.false_ne_true
  | ok value => exact ⟨value, t, hends⟩

theorem ends_assertUserExists_ok {userId : ℕ} {label : String} {value : Unit}
    (h : (assertUserExists userId label).Ends i ws m (.ok value) t) :
    t = m ∧ (m.db.liveUser userId).isSome = true := by
  obtain ⟨rest, hcheck⟩ := ends_select_bind_ok h
  split at hcheck
  · exact absurd hcheck not_ends_failed_ok
  · next hfound =>
      change ¬ (!(m.db.liveUser userId).isSome) = true at hfound
      rw [Bool.not_eq_true, Bool.not_eq_false'] at hfound
      exact ⟨hcheck.2.2, hfound⟩

/-! ## Transactions -/

theorem viewFor_some (client : Client) (i : ℕ) (m : Market) :
    m.viewFor (some client) i = m.store.view schema i := rfl

/-- A transaction sees its own write over what it saw before. -/
theorem view_enqueue (i : ℕ) (change : Change) (m : Market) :
    (m.enqueue i change).store.view schema i =
      (m.store.view schema i).apply change := by
  simp [Market.enqueue, ReadCommitted.Store.view,
    ReadCommitted.Schema.settle, schema_apply]

theorem view_rollback (i : ℕ) (m : Market) :
    (m.rollback i).store.view schema i = m.db :=
  ReadCommitted.Store.view_of_queue_eq_nil _
    (ReadCommitted.Store.queue_rollback _ _)

theorem db_commit (i : ℕ) (m : Market) :
    (m.commit i).db = m.store.view schema i := rfl

/-- A statement that writes is answered and has violated no constraint, or it
fails and leaves what is committed. -/
theorem ends_run {client : Option Client} {change : ℕ → Sequences → Change}
    {result : ℕ → Sequences → Database → Database → β}
    {answer : Except Fault β}
    (h : (run client change result).Ends i ws m answer t) :
    ((∃ fault, answer = .error fault) ∧ t.db = m.db) ∨
      ((m.viewFor client i).violation (change (m.nowFor client) m.ids) = none ∧
        t = m.write client i (change (m.nowFor client) m.ids) ∧
        answer = .ok (result (m.nowFor client) m.ids (m.viewFor client i)
          (t.viewFor client i))) := by
  obtain ⟨w, -, haction⟩ := ends_attempt.mp h
  dsimp only at haction
  split at haction
  · obtain ⟨rfl, rfl⟩ := Prod.mk.inj (Option.some.inj haction)
    exact .inl ⟨⟨_, rfl⟩, rfl⟩
  obtain ⟨-, haction⟩ := Option.ite_none_right_eq_some.mp haction
  split at haction
  · obtain ⟨rfl, rfl⟩ := Prod.mk.inj (Option.some.inj haction)
    exact .inl ⟨⟨_, rfl⟩, rfl⟩
  · next hviolation =>
      obtain ⟨rfl, rfl⟩ := Prod.mk.inj (Option.some.inj haction)
      exact .inr ⟨hviolation, rfl, rfl⟩

/-- A statement of a transaction that is answered has violated no constraint
and is queued. -/
theorem ends_run_ok {client : Client} {change : ℕ → Sequences → Change}
    {result : ℕ → Sequences → Database → Database → β} {value : β}
    (h : (run (some client) change result).Ends i ws m (.ok value) t) :
    (m.store.view schema i).violation (change client.startedAt m.ids) = none ∧
      t = m.enqueue i (change client.startedAt m.ids) ∧
      value = result client.startedAt m.ids (m.store.view schema i)
        (t.store.view schema i) := by
  rcases ends_run h with ⟨⟨fault, hfails⟩, -⟩ | ⟨hviolation, hwritten, hvalue⟩
  · contradiction
  · exact ⟨hviolation, hwritten, Except.ok.inj hvalue⟩

theorem ends_perform {client : Option Client} {change : ℕ → Change}
    {answer : Except Fault Unit}
    (h : (perform client change).Ends i ws m answer t) :
    ((∃ fault, answer = .error fault) ∧ t.db = m.db) ∨
      (t = m.write client i (change (m.nowFor client)) ∧ answer = .ok ()) := by
  have hrun : (run client (fun now _ => change now) fun _ _ _ _ => ()).Ends i
      ws m answer t := h
  exact (ends_run hrun).imp id And.right

theorem ends_perform_ok {client : Client} {change : ℕ → Change} {value : Unit}
    (h : (perform (some client) change).Ends i ws m (.ok value) t) :
    t = m.enqueue i (change client.startedAt) := by
  rcases ends_perform h with ⟨⟨fault, hfails⟩, -⟩ | ⟨hwritten, -⟩
  · contradiction
  · exact hwritten

/-- A statement outside of a transaction that is answered has violated no
constraint and is committed. -/
theorem ends_run_none_ok {change : ℕ → Sequences → Change}
    {result : ℕ → Sequences → Database → Database → β} {value : β}
    (h : (run none change result).Ends i ws m (.ok value) t) :
    m.db.violation (change m.now m.ids) = none ∧
      t = m.autocommit i (change m.now m.ids) ∧
      value = result m.now m.ids m.db t.db := by
  rcases ends_run h with ⟨⟨fault, hfails⟩, -⟩ | ⟨hviolation, hwritten, hvalue⟩
  · contradiction
  · exact ⟨hviolation, hwritten, Except.ok.inj hvalue⟩

theorem ends_perform_none_ok {change : ℕ → Change} {value : Unit}
    (h : (perform none change).Ends i ws m (.ok value) t) :
    t = m.autocommit i (change m.now) := by
  rcases ends_perform h with ⟨⟨fault, hfails⟩, -⟩ | ⟨hwritten, -⟩
  · contradiction
  · exact hwritten

/-- No run of the program alone changes what is committed. -/
def KeepsCommitted (program : Operation β) : Prop :=
  ∀ i ws m result t, program.Ends i ws m result t → t.db = m.db

theorem keepsCommitted_done (value : β) :
    KeepsCommitted (.done value : Operation β) :=
  fun _ _ _ _ _ h => congrArg Market.db h.2.2

theorem keepsCommitted_failed (fault : Fault) :
    KeepsCommitted (.failed fault : Operation β) :=
  fun _ _ _ _ _ h => congrArg Market.db h.2.2

theorem KeepsCommitted.bind {program : Operation β} {next : β → Operation γ}
    (h : KeepsCommitted program) (hnext : ∀ value, KeepsCommitted (next value)) :
    KeepsCommitted (program >>= next) := by
  intro i ws m result t hends
  rcases Program.ends_bind.mp hends with
    ⟨fault, rfl, hfails⟩ | ⟨first, rest, value, u, rfl, hfirst, hrest⟩
  · exact h _ _ _ _ _ hfails
  · exact (hnext value _ _ _ _ _ hrest).trans (h _ _ _ _ _ hfirst)

theorem keepsCommitted_attempt
    {action : ℕ → Draw → Market → Option (Except Fault β × Market)}
    (haction : ∀ i w m outcome u, action i w m = some (outcome, u) →
      u.db = m.db) : KeepsCommitted (attempt action) := by
  intro i ws m result t hends
  obtain ⟨w, rfl, hsome⟩ := ends_attempt.mp hends
  exact haction i w m result t hsome

theorem keepsCommitted_select (query : Database → β) :
    KeepsCommitted (select client query) :=
  fun _ _ _ _ _ h => congrArg Market.db (ends_select h).1

theorem keepsCommitted_selectProductForUpdate (client : Client)
    (productId : ℕ) :
    KeepsCommitted (selectProductForUpdate client productId) := by
  refine keepsCommitted_attempt fun i w m outcome u haction => ?_
  split at haction
  · obtain ⟨-, rfl⟩ := Prod.mk.inj (Option.some.inj haction)
    rfl
  split at haction
  · obtain ⟨-, rfl⟩ := Prod.mk.inj (Option.some.inj haction)
    rfl
  obtain ⟨-, haction⟩ := Option.ite_none_right_eq_some.mp haction
  obtain ⟨-, rfl⟩ := Prod.mk.inj (Option.some.inj haction)
  rfl

theorem keepsCommitted_run (client : Client)
    (change : ℕ → Sequences → Change)
    (result : ℕ → Sequences → Database → Database → β) :
    KeepsCommitted (run (some client) change result) := by
  intro i ws m answer t h
  rcases ends_run h with ⟨-, hkept⟩ | ⟨-, rfl, -⟩
  · exact hkept
  · rfl

theorem keepsCommitted_perform (client : Client) (change : ℕ → Change) :
    KeepsCommitted (perform (some client) change) :=
  keepsCommitted_run client (fun now _ => change now) fun _ _ _ _ => ()

/-- A transaction that is answered has run its statements over the committed
data, and commits what they see at the end. -/
theorem ends_withTransaction_ok {callback : Client → Operation β} {value : β}
    (h : (withTransaction callback).Ends i ws m (.ok value) t) :
    ∃ ws' n, (callback ⟨m.now⟩).Ends i ws' (m.rollback i) (.ok value) n ∧
      t = n.commit i := by
  rw [withTransaction, Program.tryCatch_eq_recover] at h
  rcases Program.ends_recover.mp h with
    ⟨value', hsame, hends⟩ | ⟨first, rest, fault, u, rfl, -, hhandler⟩
  · obtain rfl := Except.ok.inj hsame
    obtain ⟨_, _, client, m₁, _, hbegin, hends⟩ := Program.ends_bind_ok.mp hends
    obtain ⟨w, _, haction⟩ := ends_attempt.mp hbegin
    obtain ⟨rfl, rfl⟩ : (⟨m.now⟩ : Client) = client ∧ m.rollback i = m₁ := by
      split at haction
      · simp at haction
      · simpa using haction
    obtain ⟨ws', _, answer, n, _, hcallback, hends⟩ :=
      Program.ends_bind_ok.mp hends
    obtain ⟨_, _, _, n', _, hcommit, hdone⟩ := Program.ends_bind_ok.mp hends
    obtain ⟨_, hvalue, rfl⟩ := hdone
    obtain rfl := Except.ok.inj hvalue
    refine ⟨ws', n, hcallback, ?_⟩
    obtain ⟨w', _, hcommits⟩ := ends_attempt.mp hcommit
    split at hcommits
    · simp at hcommits
    · exact (Prod.mk.inj (Option.some.inj hcommits)).2.symm
  · obtain ⟨_, _, _, _, _, _, hfailed⟩ := Program.ends_bind_ok.mp hhandler
    exact absurd hfailed not_ends_failed_ok

/-- A transaction that fails has committed nothing. -/
theorem ends_withTransaction_error {callback : Client → Operation β}
    {fault : Fault} (hkeeps : ∀ client, KeepsCommitted (callback client))
    (h : (withTransaction callback).Ends i ws m (.error fault) t) :
    t.db = m.db := by
  have hbegin : KeepsCommitted begin :=
    keepsCommitted_attempt fun i w m outcome u haction => by
      split at haction <;>
        obtain ⟨-, rfl⟩ := Prod.mk.inj (Option.some.inj haction) <;> rfl
  have hrollback : KeepsCommitted rollback := by
    refine keepsCommitted_attempt ?_
    intro i w m outcome u haction
    obtain ⟨-, rfl⟩ := Prod.mk.inj (Option.some.inj haction)
    rfl
  rw [withTransaction, Program.tryCatch_eq_recover] at h
  rcases Program.ends_recover.mp h with
    ⟨value, hvalue, -⟩ | ⟨first, rest, fault', u, rfl, hends, hhandler⟩
  · contradiction
  have hthrown : u.db = m.db := by
    rcases Program.ends_bind.mp hends with
      ⟨_, _, hfails⟩ | ⟨_, _, client, m₁, _, hbegins, hends⟩
    · exact hbegin _ _ _ _ _ hfails
    refine Eq.trans ?_ (hbegin _ _ _ _ _ hbegins)
    rcases Program.ends_bind.mp hends with
      ⟨_, _, hfails⟩ | ⟨_, _, answer, n, _, hcallback, hends⟩
    · exact hkeeps client _ _ _ _ _ hfails
    refine Eq.trans ?_ (hkeeps client _ _ _ _ _ hcallback)
    rcases Program.ends_bind.mp hends with
      ⟨_, _, hfails⟩ | ⟨_, _, _, _, _, _, hdone⟩
    · obtain ⟨w, _, haction⟩ := ends_attempt.mp hfails
      split at haction
      · rw [(Prod.mk.inj (Option.some.inj haction)).2]
      · simp at haction
    · exact absurd hdone.2.1 (by simp)
  refine Eq.trans ?_ hthrown
  exact (hrollback.bind fun _ => keepsCommitted_failed fault') _ _ _ _ _
    hhandler

end MarketPlace.Trade
