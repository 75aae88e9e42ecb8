import MarketPlace.InterleavedPrograms

/-!
# Lone runs

A program run with nobody else acting, each of its actions under an outcome of
its own.  Every pattern of failures is a list of outcomes.

Nothing here depends on what the state or the programs are.
-/

namespace Interleaving.Program

variable {ω σ ε α β γ : Type} {i : ℕ} {ws : List ω} {s t : σ}

/-- Run alone under exactly these outcomes, the program ends with this result
in this state. -/
def Ends (i : ℕ) :
    Program ω σ ε α → List ω → σ → Except ε α → σ → Prop
  | .done value, ws, s, result, t => ws = [] ∧ result = .ok value ∧ t = s
  | .failed error, ws, s, result, t => ws = [] ∧ result = .error error ∧ t = s
  | .atomic action next, ws, s, result, t =>
      ∃ w rest outcome u, ws = w :: rest ∧ action i w s = some (outcome, u) ∧
        (next outcome).Ends i rest u result t

@[simp] theorem ends_done {value : α} {result : Except ε α} :
    (Program.done value : Program ω σ ε α).Ends i ws s result t ↔
      ws = [] ∧ result = .ok value ∧ t = s := Iff.rfl

@[simp] theorem ends_failed {error : ε} {result : Except ε α} :
    (Program.failed error : Program ω σ ε α).Ends i ws s result t ↔
      ws = [] ∧ result = .error error ∧ t = s := Iff.rfl

theorem ends_atomic {action : ℕ → ω → σ → Option (γ × σ)}
    {next : γ → Program ω σ ε α} {result : Except ε α} :
    (Program.atomic action next).Ends i ws s result t ↔
      ∃ w rest outcome u, ws = w :: rest ∧ action i w s = some (outcome, u) ∧
        (next outcome).Ends i rest u result t := Iff.rfl

/-- Sequencing: the first program fails, or its value goes to the second. -/
theorem ends_bind {program : Program ω σ ε α} {next : α → Program ω σ ε β}
    {result : Except ε β} :
    (program >>= next).Ends i ws s result t ↔
      (∃ error, result = .error error ∧
        program.Ends i ws s (.error error) t) ∨
      ∃ first rest value u, ws = first ++ rest ∧
        program.Ends i first s (.ok value) u ∧
          (next value).Ends i rest u result t := by
  induction program generalizing ws s with
  | done value =>
      constructor
      · intro h
        exact .inr ⟨[], ws, value, s, rfl, ⟨rfl, rfl, rfl⟩, h⟩
      · rintro (⟨error, -, -, hok, -⟩ | ⟨first, rest, value', u, rfl, h, hnext⟩)
        · contradiction
        · obtain ⟨rfl, hok, rfl⟩ := h
          obtain rfl := Except.ok.inj hok
          exact hnext
  | failed error =>
      constructor
      · rintro ⟨rfl, rfl, rfl⟩
        exact .inl ⟨error, rfl, rfl, rfl, rfl⟩
      · rintro (⟨other, rfl, rfl, hother, rfl⟩ | ⟨first, rest, value, u, rfl, h, -⟩)
        · obtain rfl := Except.error.inj hother
          exact ⟨rfl, rfl, rfl⟩
        · exact absurd h.2.1 (by simp)
  | atomic action next' ih =>
      rw [atomic_bind]
      constructor
      · rintro ⟨w, rest, outcome, u, rfl, haction, h⟩
        rcases (ih outcome).mp h with
          ⟨error, rfl, herror⟩ | ⟨first, rest', value, v, rfl, hfirst, hnext⟩
        · exact .inl ⟨error, rfl, w, rest, outcome, u, rfl, haction, herror⟩
        · exact .inr ⟨w :: first, rest', value, v, rfl,
            ⟨w, first, outcome, u, rfl, haction, hfirst⟩, hnext⟩
      · rintro (⟨error, rfl, w, rest, outcome, u, rfl, haction, h⟩ |
          ⟨first, rest', value, v, rfl,
            ⟨w, rest, outcome, u, rfl, haction, h⟩, hnext⟩)
        · exact ⟨w, rest, outcome, u, rfl, haction,
            (ih outcome).mpr (.inl ⟨error, rfl, h⟩)⟩
        · exact ⟨w, rest ++ rest', outcome, u, rfl, haction,
            (ih outcome).mpr (.inr ⟨rest, rest', value, v, rfl, h, hnext⟩)⟩

theorem ends_bind_pure {program : Program ω σ ε α} {result : Except ε α} :
    (program >>= pure).Ends i ws s result t ↔
      program.Ends i ws s result t := by
  induction program generalizing ws s with
  | done value => rfl
  | failed error => rfl
  | atomic action next ih =>
      rw [atomic_bind, ends_atomic, ends_atomic]
      simp only [ih]

/-- Recovery: the program ends well, or the handler takes its error. -/
theorem ends_recover {program : Program ω σ ε α}
    {handler : ε → Program ω σ ε α} {result : Except ε α} :
    (program.recover handler).Ends i ws s result t ↔
      (∃ value, result = .ok value ∧ program.Ends i ws s (.ok value) t) ∨
      ∃ first rest error u, ws = first ++ rest ∧
        program.Ends i first s (.error error) u ∧
          (handler error).Ends i rest u result t := by
  induction program generalizing ws s with
  | done value =>
      constructor
      · rintro ⟨rfl, rfl, rfl⟩
        exact .inl ⟨value, rfl, rfl, rfl, rfl⟩
      · rintro (⟨other, rfl, rfl, hother, rfl⟩ | ⟨first, rest, error, u, rfl, h, -⟩)
        · exact ⟨rfl, hother ▸ rfl, rfl⟩
        · exact absurd h.2.1 (by simp)
  | failed error =>
      constructor
      · intro h
        exact .inr ⟨[], ws, error, s, rfl, ⟨rfl, rfl, rfl⟩, h⟩
      · rintro (⟨value, -, -, hok, -⟩ | ⟨first, rest, error', u, rfl, h, hnext⟩)
        · contradiction
        · obtain ⟨rfl, herror, rfl⟩ := h
          obtain rfl := Except.error.inj herror
          exact hnext
  | atomic action next' ih =>
      rw [recover]
      constructor
      · rintro ⟨w, rest, outcome, u, rfl, haction, h⟩
        rcases (ih outcome).mp h with
          ⟨value, rfl, hvalue⟩ | ⟨first, rest', error, v, rfl, hfirst, hnext⟩
        · exact .inl ⟨value, rfl, w, rest, outcome, u, rfl, haction, hvalue⟩
        · exact .inr ⟨w :: first, rest', error, v, rfl,
            ⟨w, first, outcome, u, rfl, haction, hfirst⟩, hnext⟩
      · rintro (⟨value, rfl, w, rest, outcome, u, rfl, haction, h⟩ |
          ⟨first, rest', error, v, rfl,
            ⟨w, rest, outcome, u, rfl, haction, h⟩, hnext⟩)
        · exact ⟨w, rest, outcome, u, rfl, haction,
            (ih outcome).mpr (.inl ⟨value, rfl, h⟩)⟩
        · exact ⟨w, rest ++ rest', outcome, u, rfl, haction,
            (ih outcome).mpr (.inr ⟨rest, rest', error, v, rfl, h, hnext⟩)⟩

theorem ends_bind_ok {program : Program ω σ ε α}
    {next : α → Program ω σ ε β} {value : β} :
    (program >>= next).Ends i ws s (.ok value) t ↔
      ∃ first rest middle u, ws = first ++ rest ∧
        program.Ends i first s (.ok middle) u ∧
          (next middle).Ends i rest u (.ok value) t := by
  simp [ends_bind]

/-- The lone run under these outcomes, if it ends with the last of them. -/
def runUnder (i : ℕ) :
    Program ω σ ε α → List ω → σ → Option (Except ε α × σ)
  | .done value, [], s => some (.ok value, s)
  | .failed error, [], s => some (.error error, s)
  | .atomic action next, w :: rest, s =>
      match action i w s with
      | none => none
      | some (outcome, u) => (next outcome).runUnder i rest u
  | _, _, _ => none

theorem ends_of_runUnder {program : Program ω σ ε α} {result : Except ε α}
    (h : program.runUnder i ws s = some (result, t)) :
    program.Ends i ws s result t := by
  induction program generalizing ws s with
  | done value =>
      cases ws with
      | nil =>
          simp only [runUnder, Option.some.injEq, Prod.mk.injEq] at h
          exact ⟨rfl, h.1.symm, h.2.symm⟩
      | cons w rest => simp [runUnder] at h
  | failed error =>
      cases ws with
      | nil =>
          simp only [runUnder, Option.some.injEq, Prod.mk.injEq] at h
          exact ⟨rfl, h.1.symm, h.2.symm⟩
      | cons w rest => simp [runUnder] at h
  | atomic action next ih =>
      cases ws with
      | nil => simp [runUnder] at h
      | cons w rest =>
          rw [runUnder] at h
          cases haction : action i w s with
          | none => simp [haction] at h
          | some step =>
              rw [haction] at h
              exact ⟨w, rest, step.1, step.2, rfl, haction, ih step.1 h⟩

/-- A check of the end of a lone run that is evaluated. -/
theorem exists_ends_of_runUnder {program : Program ω σ ε α}
    {check : Except ε α × σ → Bool}
    (hrun : (program.runUnder i ws s).any check = true) :
    ∃ result t, program.Ends i ws s result t ∧ check (result, t) = true := by
  obtain ⟨⟨result, t⟩, hends, hcheck⟩ := (Option.any_eq_true _ _).mp hrun
  exact ⟨result, t, ends_of_runUnder hends, hcheck⟩

end Interleaving.Program

namespace Interleaving.System

variable {ρ ω η σ ε α : Type} {S : System ρ ω η σ ε α} {i : ℕ}

/-- A request whose lone run ends is answered if nobody else acts. -/
theorem exists_reaches_of_ends {pool : Pool ρ ω σ ε α} {request : ρ}
    {body : Program ω σ ε α} {ws : List ω} {value : α} {t : σ}
    (hthread : pool.threads[i]? = some ⟨request, body⟩)
    (hends : body.Ends i ws pool.state (.ok value) t) :
    ∃ next, S.Reaches (fun _ _ => True) pool next ∧ next.state = t ∧
      next.threads[i]? = some ⟨request, .done value⟩ := by
  induction body generalizing pool ws with
  | done other =>
      obtain ⟨-, hvalue, rfl⟩ := hends
      obtain rfl := Except.ok.inj hvalue
      exact ⟨pool, .refl, rfl, hthread⟩
  | failed error =>
      obtain ⟨-, hvalue, -⟩ := hends
      contradiction
  | atomic action rest ih =>
      obtain ⟨w, ws', outcome, u, -, haction, hrest⟩ := hends
      have hlt := (List.getElem?_eq_some_iff.mp hthread).1
      let after : Pool ρ ω σ ε α :=
        ⟨u, pool.threads.set i ⟨request, rest outcome⟩⟩
      have hperform : S.perform (.advance i w) pool = some after := by
        simp [perform, hthread, Program.advance, haction, after]
      have hset : after.threads[i]? = some ⟨request, rest outcome⟩ :=
        List.getElem?_set_self hlt
      obtain ⟨next, hnext, hstate, hdone⟩ := ih outcome hset hrest
      have hstep : S.Reaches (fun _ _ => True) pool after :=
        .step .refl (fun _ _ => trivial) hperform
      exact ⟨next, hstep.trans hnext, hstate, hdone⟩

/-- The next request is answered if nobody else acts. -/
theorem exists_answered_of_ends {pool : Pool ρ ω σ ε α} {request : ρ}
    {ws : List ω} {value : α} {t : σ}
    (hends : (S.handler request).Ends pool.threads.length ws pool.state
      (.ok value) t) :
    ∃ next, S.Reaches (fun _ _ => True) pool next ∧ next.state = t ∧
      next.threads[pool.threads.length]? = some ⟨request, .done value⟩ := by
  let after : Pool ρ ω σ ε α :=
    ⟨pool.state, pool.threads ++ [⟨request, S.handler request⟩]⟩
  have hafter : after.threads[pool.threads.length]? =
      some ⟨request, S.handler request⟩ := by
    simp [after]
  have hperform : S.perform (.submit request) pool = some after := rfl
  have hstep : S.Reaches (fun _ _ => True) pool after :=
    .step .refl (fun _ _ => trivial) hperform
  obtain ⟨next, hnext, hstate, hdone⟩ := exists_reaches_of_ends hafter hends
  exact ⟨next, hstep.trans hnext, hstate, hdone⟩

end Interleaving.System
