import MarketPlace.InterleavedPrograms

/-!
# Runs in which some outcomes never come

A system can be restricted to the outcomes its surroundings are assumed to
choose.  An action under any other outcome is not possible; whatever a program
meets it also meets under the restriction.

Nothing here depends on what the state or the requests are.
-/

namespace Interleaving

variable {ω σ ε α β : Type} {allowed : ω → Bool}

namespace Program

/-- The program, whose actions happen only under allowed outcomes. -/
def under (allowed : ω → Bool) : Program ω σ ε α → Program ω σ ε α
  | .done value => .done value
  | .failed error => .failed error
  | .atomic action next =>
      .atomic (fun i w s => if allowed w then action i w s else none)
        fun result => (next result).under allowed

@[simp] theorem under_bind (program : Program ω σ ε α)
    (next : α → Program ω σ ε β) :
    (program >>= next).under allowed =
      program.under allowed >>= fun value => (next value).under allowed := by
  induction program with
  | done value => rfl
  | failed error => rfl
  | atomic action rest ih =>
      simp only [atomic_bind, under, atomic.injEq, heq_eq_eq, true_and]
      exact funext ih

@[simp] theorem under_recover (program : Program ω σ ε α)
    (handler : ε → Program ω σ ε α) :
    (program.recover handler).under allowed =
      (program.under allowed).recover
        fun error => (handler error).under allowed := by
  induction program with
  | done value => rfl
  | failed error => rfl
  | atomic action rest ih =>
      simp only [recover, under, atomic.injEq, heq_eq_eq, true_and]
      exact funext ih

theorem Meets.under {D : Discipline σ} {i : ℕ} {post : α → σ → Prop}
    {fail : ε → σ → Prop} {program : Program ω σ ε α} {s : σ}
    (hmeets : program.Meets D i post fail s) :
    (program.under allowed).Meets D i post fail s := by
  induction program generalizing s with
  | done value => exact hmeets
  | failed error => exact hmeets
  | atomic action next ih =>
      intro t ht hinvariant w result u haction
      obtain ⟨-, haction⟩ := Option.ite_none_right_eq_some.mp haction
      obtain ⟨hguarantee, hnext⟩ := hmeets t ht hinvariant w result u haction
      exact ⟨hguarantee, ih result hnext⟩

end Program

namespace System

variable {ρ η : Type}

/-- The system whose surroundings choose allowed outcomes only. -/
def under (S : System ρ ω η σ ε α) (allowed : ω → Bool) :
    System ρ ω η σ ε α where
  handler request := (S.handler request).under allowed
  environment := S.environment

end System

end Interleaving
