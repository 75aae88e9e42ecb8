import MarketPlace.KeptInvariants

/-!
# Outlines that speak of unfinished requests

An outcome assertion says what holds once a request has ended.  A progress
outline also says what holds meanwhile: as long as the request has no result,
be it that it waits, goes on later or has failed.

Nothing here depends on what the state or the requests are.
-/

namespace Interleaving

variable {ω σ ε α β : Type}

/-- From this state on `meantime` holds until the program has a result, and
`post` holds then, whatever the others do in between by `rely`. -/
def Program.Proceeds (invariant : σ → Prop) (rely : σ → σ → Prop) (i : ℕ)
    (meantime : σ → Prop) (post : α → σ → Prop) :
    Program ω σ ε α → σ → Prop
  | .done value, s => post value s
  | .failed _, s => meantime s
  | .atomic action next, s =>
      meantime s ∧ ∀ t, rely s t → invariant t → ∀ w result u,
        action i w t = some (result, u) →
          (next result).Proceeds invariant rely i meantime post u

namespace Program.Proceeds

variable {invariant : σ → Prop} {rely : σ → σ → Prop} {i : ℕ}
  {meantime meantime' : σ → Prop} {post post' : α → σ → Prop}
  {program body : Program ω σ ε α} {s t : σ}

theorem later (h : program.Proceeds invariant rely i meantime post s)
    (htrans : ∀ {s t u}, rely s t → rely t u → rely s u)
    (hmeantime : ∀ {s t}, rely s t → meantime s → meantime t)
    (hpost : ∀ {value s t}, rely s t → post value s → post value t)
    (hrely : rely s t) :
    program.Proceeds invariant rely i meantime post t := by
  cases program with
  | done value => exact hpost hrely h
  | failed error => exact hmeantime hrely h
  | atomic action next =>
      exact ⟨hmeantime hrely h.1, fun u hu => h.2 u (htrans hrely hu)⟩

theorem mono (h : program.Proceeds invariant rely i meantime post s)
    (hmeantime : ∀ t, meantime t → meantime' t)
    (hpost : ∀ value t, post value t → post' value t) :
    program.Proceeds invariant rely i meantime' post' s := by
  induction program generalizing s with
  | done value => exact hpost value s h
  | failed error => exact hmeantime s h
  | atomic action next ih =>
      exact ⟨hmeantime s h.1, fun t ht hinv w result u haction =>
        ih result (h.2 t ht hinv w result u haction)⟩

theorem bind {next : α → Program ω σ ε β} {last : β → σ → Prop}
    (h : program.Proceeds invariant rely i meantime post s)
    (hnext : ∀ value t, post value t →
      (next value).Proceeds invariant rely i meantime last t) :
    (program >>= next).Proceeds invariant rely i meantime last s := by
  induction program generalizing s with
  | done value => exact hnext value s h
  | failed error => exact h
  | atomic action rest ih =>
      exact ⟨h.1, fun t ht hinv w result u haction =>
        ih result (h.2 t ht hinv w result u haction)⟩

/-- An error that is handled comes while `meantime` holds. -/
theorem recover {handler : ε → Program ω σ ε α}
    (h : program.Proceeds invariant rely i meantime post s)
    (hhandler : ∀ error t, meantime t →
      (handler error).Proceeds invariant rely i meantime post t) :
    (program.recover handler).Proceeds invariant rely i meantime post s := by
  induction program generalizing s with
  | done value => exact h
  | failed error => exact hhandler error s h
  | atomic action rest ih =>
      exact ⟨h.1, fun t ht hinv w result u haction =>
        ih result (h.2 t ht hinv w result u haction)⟩

theorem advance {w : ω}
    (h : program.Proceeds invariant rely i meantime post s)
    (hrefl : ∀ s, rely s s) (hinvariant : invariant s)
    (hadvance : program.advance i w s = some (t, body)) :
    body.Proceeds invariant rely i meantime post t := by
  cases program with
  | done value => simp [Program.advance] at hadvance
  | failed error => simp [Program.advance] at hadvance
  | atomic action next =>
      cases haction : action i w s with
      | none => simp [Program.advance, haction] at hadvance
      | some outcome =>
          simp only [Program.advance, haction, Option.some.injEq,
            Prod.mk.injEq] at hadvance
          obtain ⟨rfl, rfl⟩ := hadvance
          exact h.2 s (hrefl s) hinvariant w _ _ haction

/-- An assertion that all actions of the program and the others keep. -/
theorem of_keeps {fact : σ → Prop} (hkeeps : program.Keeps fact)
    (hrely : ∀ {s t}, rely s t → fact s → fact t) (hfact : fact s) :
    program.Proceeds invariant rely i fact (fun _ => fact) s := by
  induction program generalizing s with
  | done value => exact hfact
  | failed error => exact hfact
  | atomic action next ih =>
      refine ⟨hfact, fun t ht _ w result u haction => ?_⟩
      exact ih result (hkeeps.2 result)
        (hkeeps.1 i w t result u (hrely ht hfact) haction)

/-- An outcome assertion, beside a fact that all actions keep meanwhile. -/
theorem of_meets {D : Discipline σ} {fail : ε → σ → Prop} {fact : σ → Prop}
    (hmeets : program.Meets D i post fail s) (hkeeps : program.Keeps fact)
    (hdiscipline : ∀ {s t}, rely s t → D.rely i s t)
    (hrely : ∀ {s t}, rely s t → fact s → fact t)
    (hinvariant : D.invariant s) (hfact : fact s) :
    program.Proceeds D.invariant rely i fact
      (fun value t => fact t ∧ D.invariant t ∧ post value t) s := by
  induction program generalizing s with
  | done value =>
      exact ⟨hfact, hinvariant, hmeets s (D.rely_refl i s) hinvariant⟩
  | failed error => exact hfact
  | atomic action next ih =>
      refine ⟨hfact, fun t ht hinv w result u haction => ?_⟩
      obtain ⟨hguarantee, hnext⟩ :=
        hmeets t (hdiscipline ht) hinv w result u haction
      exact ih result hnext (hkeeps.2 result)
        (D.guarantee_invariant hguarantee hinv)
        (hkeeps.1 i w t result u (hrely ht hfact) haction)

/-- An outcome assertion, beside a fact that guaranteed actions keep. -/
theorem of_guaranteed {D : Discipline σ} {fail : ε → σ → Prop}
    {fact : σ → Prop} (hmeets : program.Meets D i post fail s)
    (hguarantee : ∀ {s t}, D.guarantee i s t → fact s → fact t)
    (hdiscipline : ∀ {s t}, rely s t → D.rely i s t)
    (hrely : ∀ {s t}, rely s t → fact s → fact t)
    (hinvariant : D.invariant s) (hfact : fact s) :
    program.Proceeds D.invariant rely i fact (fun _ => fact) s := by
  induction program generalizing s with
  | done value => exact hfact
  | failed error => exact hfact
  | atomic action next ih =>
      refine ⟨hfact, fun t ht hinv w result u haction => ?_⟩
      obtain ⟨haction', hnext⟩ :=
        hmeets t (hdiscipline ht) hinv w result u haction
      exact ih result hnext (D.guarantee_invariant haction' hinv)
        (hguarantee haction' (hrely ht hfact))

/-- What holds meanwhile, if there is no result yet. -/
theorem pending (h : program.Proceeds invariant rely i meantime post s)
    (hpending : ∀ value, program ≠ .done value) : meantime s := by
  cases program with
  | done value => exact absurd rfl (hpending value)
  | failed error => exact h
  | atomic action next => exact h.1

end Program.Proceeds

namespace System

variable {ρ η : Type}

/-- Every request proceeds by an outline of its own, and between two of its
actions the others keep to what it relies on. -/
structure Progresses (S : System ρ ω η σ ε α) (good : Pool ρ ω σ ε α → Prop)
    (invariant : σ → Prop) (rely : ℕ → σ → σ → Prop)
    (meantime : ρ → ℕ → σ → Prop) (post : ρ → ℕ → α → σ → Prop) : Prop where
  keeps : ∀ {move pool next}, good pool → S.perform move pool = some next →
    good next
  invariant_of : ∀ {pool}, good pool → invariant pool.state
  others : ∀ {i move pool next}, good pool →
    S.perform move pool = some next → (∀ w, move ≠ .advance i w) →
      rely i pool.state next.state
  rely_refl : ∀ i s, rely i s s
  rely_trans : ∀ {i s t u}, rely i s t → rely i t u → rely i s u
  meantime_kept : ∀ {request i s t}, rely i s t → meantime request i s →
    meantime request i t
  post_kept : ∀ {request i value s t}, rely i s t → post request i value s →
    post request i value t
  handler_proceeds : ∀ {pool} request, good pool →
    (S.handler request).Proceeds invariant (rely pool.threads.length)
      pool.threads.length (meantime request pool.threads.length)
      (post request pool.threads.length) pool.state

variable {S : System ρ ω η σ ε α} {good : Pool ρ ω σ ε α → Prop}
  {invariant : σ → Prop} {rely : ℕ → σ → σ → Prop}
  {meantime : ρ → ℕ → σ → Prop} {post : ρ → ℕ → α → σ → Prop}
  {admits : ρ → σ → Prop} {start pool : Pool ρ ω σ ε α}

theorem Progresses.proceeds
    (h : S.Progresses good invariant rely meantime post)
    (hreach : S.Reaches admits start pool) (hgood : good start)
    (hstart : start.threads = []) :
    good pool ∧ ∀ (i : ℕ) (thread : Thread ρ ω σ ε α),
      pool.threads[i]? = some thread →
        thread.body.Proceeds invariant (rely i) i (meantime thread.request i)
          (post thread.request i) pool.state := by
  induction hreach with
  | refl => exact ⟨hgood, by simp [hstart]⟩
  | @step pool next move _ _ hperform ih =>
      obtain ⟨hpool, hthreads⟩ := ih
      refine ⟨h.keeps hpool hperform, fun i thread hthread => ?_⟩
      have hlater : ∀ (j : ℕ) (other : Thread ρ ω σ ε α),
          pool.threads[j]? = some other → (∀ w, move ≠ .advance j w) →
          other.body.Proceeds invariant (rely j) j (meantime other.request j)
            (post other.request j) next.state := by
        intro j other hother hmove
        exact (hthreads j other hother).later h.rely_trans h.meantime_kept
          h.post_kept (h.others hpool hperform hmove)
      rcases perform_cases hperform with
        ⟨request, rfl, rfl⟩ |
          ⟨j, w, actor, state, body, rfl, hactor, hadvance, rfl⟩ |
            ⟨event, rfl, rfl⟩
      · rw [List.getElem?_append] at hthread
        split at hthread
        · exact hlater i thread hthread fun w hmove => by contradiction
        · simp only [List.getElem?_singleton, Option.ite_none_right_eq_some,
            Option.some.injEq] at hthread
          obtain ⟨hzero, rfl⟩ := hthread
          have hi : i = pool.threads.length := by omega
          subst hi
          exact h.handler_proceeds request hpool
      · by_cases hij : j = i
        · subst hij
          have hself := List.getElem?_set_self (a := ⟨actor.request, body⟩)
            (List.getElem?_eq_some_iff.mp hactor).1
          obtain rfl := Option.some.inj (hself.symm.trans hthread)
          exact (hthreads j actor hactor).advance (h.rely_refl j)
            (h.invariant_of hpool) hadvance
        · rw [List.getElem?_set_ne hij] at hthread
          refine hlater i thread hthread fun w' hmove => ?_
          exact hij (Move.advance.inj hmove).1
      · exact hlater i thread hthread fun w hmove => by contradiction

/-- A request with a result has its result, and any other one has what holds
meanwhile. -/
theorem Progresses.cases
    (h : S.Progresses good invariant rely meantime post)
    (hreach : S.Reaches admits start pool) (hgood : good start)
    (hstart : start.threads = []) {i : ℕ} {request : ρ}
    {body : Program ω σ ε α}
    (hthread : pool.threads[i]? = some ⟨request, body⟩) :
    (∃ value, body = .done value ∧ post request i value pool.state) ∨
      (∀ value, body ≠ .done value) ∧ meantime request i pool.state := by
  have hproceeds := (h.proceeds hreach hgood hstart).2 i _ hthread
  by_cases hdone : ∃ value, body = .done value
  · obtain ⟨value, rfl⟩ := hdone
    exact .inl ⟨value, rfl, hproceeds⟩
  · rw [not_exists] at hdone
    exact .inr ⟨hdone, hproceeds.pending hdone⟩

end System

end Interleaving
