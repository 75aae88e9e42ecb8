import MarketPlace.InterleavedPrograms

/-!
# Invariants of actions

A fact that every action of every handler keeps, wherever the action is taken,
holds in every reachable state.  Nothing here depends on what the state or the
requests are.
-/

namespace Interleaving

variable {ω σ ε α β γ : Type} {fact : σ → Prop}

/-- Every action of the program keeps the fact. -/
def Program.Keeps (fact : σ → Prop) : Program ω σ ε α → Prop
  | .done _ => True
  | .failed _ => True
  | .atomic action next =>
      (∀ i w s result t, fact s → action i w s = some (result, t) → fact t) ∧
        ∀ result, (next result).Keeps fact

namespace Program

theorem keeps_done (value : α) :
    (Program.done value : Program ω σ ε α).Keeps fact := trivial

theorem keeps_failed (error : ε) :
    (Program.failed error : Program ω σ ε α).Keeps fact := trivial

theorem Keeps.bind {program : Program ω σ ε α} {next : α → Program ω σ ε β}
    (h : program.Keeps fact) (hnext : ∀ value, (next value).Keeps fact) :
    (program >>= next).Keeps fact := by
  induction program with
  | done value => exact hnext value
  | failed error => exact keeps_failed error
  | atomic action rest ih => exact ⟨h.1, fun result => ih result (h.2 result)⟩

theorem Keeps.recover {program : Program ω σ ε α}
    {handler : ε → Program ω σ ε α} (h : program.Keeps fact)
    (hhandler : ∀ error, (handler error).Keeps fact) :
    (program.recover handler).Keeps fact := by
  induction program with
  | done value => exact keeps_done value
  | failed error => exact hhandler error
  | atomic action rest ih => exact ⟨h.1, fun result => ih result (h.2 result)⟩

theorem Keeps.advance {i : ℕ} {w : ω} {s t : σ}
    {program body : Program ω σ ε α} (h : program.Keeps fact)
    (hadvance : program.advance i w s = some (t, body)) :
    (fact s → fact t) ∧ body.Keeps fact := by
  cases program with
  | done value => simp [Program.advance] at hadvance
  | failed error => simp [Program.advance] at hadvance
  | atomic action rest =>
      cases haction : action i w s with
      | none => simp [Program.advance, haction] at hadvance
      | some outcome =>
          simp only [Program.advance, haction, Option.some.injEq,
            Prod.mk.injEq] at hadvance
          obtain ⟨rfl, rfl⟩ := hadvance
          exact ⟨fun hfact => h.1 i w s _ _ hfact haction, h.2 _⟩

end Program

namespace System

variable {ρ η : Type} {S : System ρ ω η σ ε α} {admits : ρ → σ → Prop}
  {start pool : Pool ρ ω σ ε α}

theorem Reaches.keeps (hreach : S.Reaches admits start pool)
    (hstart : start.threads = []) (hfact : fact start.state)
    (hhandler : ∀ request, (S.handler request).Keeps fact)
    (henvironment : ∀ event {s}, fact s → fact (S.environment event s)) :
    fact pool.state ∧ ∀ (i : ℕ) (thread : Thread ρ ω σ ε α),
      pool.threads[i]? = some thread → thread.body.Keeps fact := by
  induction hreach with
  | refl => exact ⟨hfact, by simp [hstart]⟩
  | step _ _ hperform ih =>
      obtain ⟨hfact', hthreads⟩ := ih
      constructor
      · rcases perform_cases hperform with
          ⟨request, -, rfl⟩ |
            ⟨i, w, thread, state, body, -, hthread, hadvance, rfl⟩ |
              ⟨event, -, rfl⟩
        · exact hfact'
        · exact ((hthreads i thread hthread).advance hadvance).1 hfact'
        · exact henvironment event hfact'
      · intro i thread hthread
        refine perform_threads (fun _ thread _ => thread.body.Keeps fact)
          hperform ?_ ?_ ?_ hthreads hthread
        · exact fun request _ => hhandler request
        · intro j w actor state body hactor hadvance
          exact ⟨((hthreads j actor hactor).advance hadvance).2,
            fun _ _ _ hother => hother⟩
        · exact fun _ _ _ hother => hother

end System

end Interleaving
