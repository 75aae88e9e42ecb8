import MarketPlace.InterleavedPrograms
import Mathlib.Data.List.Basic

/-!
# Programs that differ by silent actions

Two programs match when they make the same actions with the same results, but
for silent actions of the first one, which change only what the second one
does not look at.  A system whose programs match those of another one then
only has runs of the other one: drop the silent actions, and the same requests
end with the same results.

Nothing here depends on what the states or the requests are.
-/

namespace Interleaving

variable {ω σ τ ε α β : Type} {same : σ → τ → Prop}

/-! ## Matching programs -/

namespace Program

/-- The first program is the second one with silent actions in between, where
`same` relates the states of the two. -/
inductive Matches (same : σ → τ → Prop) :
    Program ω σ ε α → Program ω τ ε α → Prop where
  | done (value : α) : Matches same (.done value) (.done value)
  | failed (error : ε) : Matches same (.failed error) (.failed error)
  | both {γ : Type} {action : ℕ → ω → σ → Option (γ × σ)}
      {action' : ℕ → ω → τ → Option (γ × τ)}
      {next : γ → Program ω σ ε α} {next' : γ → Program ω τ ε α}
      (haction : ∀ i w s t result s', same s t →
        action i w s = some (result, s') →
        ∃ t', action' i w t = some (result, t') ∧ same s' t')
      (hnext : ∀ result, Matches same (next result) (next' result)) :
      Matches same (.atomic action next) (.atomic action' next')
  | silent {γ : Type} {action : ℕ → ω → σ → Option (γ × σ)}
      {next : γ → Program ω σ ε α} {other : Program ω τ ε α}
      (haction : ∀ i w s t result s', same s t →
        action i w s = some (result, s') → same s' t)
      (hnext : ∀ result, Matches same (next result) other) :
      Matches same (.atomic action next) other

namespace Matches

variable {program : Program ω σ ε α} {other : Program ω τ ε α}

theorem bind {next : α → Program ω σ ε β} {next' : α → Program ω τ ε β}
    (h : program.Matches same other)
    (hnext : ∀ value, (next value).Matches same (next' value)) :
    (program >>= next).Matches same (other >>= next') := by
  induction h with
  | done value => exact hnext value
  | failed error => exact .failed error
  | both haction _ ih => exact .both haction ih
  | silent haction _ ih => exact .silent haction ih

theorem recover {handler : ε → Program ω σ ε α}
    {handler' : ε → Program ω τ ε α} (h : program.Matches same other)
    (hhandler : ∀ error, (handler error).Matches same (handler' error)) :
    (program.recover handler).Matches same (other.recover handler') := by
  induction h with
  | done value => exact .done value
  | failed error => exact hhandler error
  | both haction _ ih => exact .both haction ih
  | silent haction _ ih => exact .silent haction ih

/-- An action of the first program is one of the second, or silent. -/
theorem advance {i : ℕ} {w : ω} {s s' : σ} {t : τ}
    {body : Program ω σ ε α} (h : program.Matches same other)
    (hsame : same s t) (hadvance : program.advance i w s = some (s', body)) :
    (same s' t ∧ body.Matches same other) ∨
      ∃ t' body', other.advance i w t = some (t', body') ∧ same s' t' ∧
        body.Matches same body' := by
  cases h with
  | done value => simp [Program.advance] at hadvance
  | failed error => simp [Program.advance] at hadvance
  | @both γ action action' next next' haction hnext =>
      simp only [Program.advance] at hadvance
      split at hadvance
      · contradiction
      · next result u hresult =>
          simp only [Option.some.injEq, Prod.mk.injEq] at hadvance
          obtain ⟨rfl, rfl⟩ := hadvance
          obtain ⟨t', hresult', hsame'⟩ :=
            haction i w s t result u hsame hresult
          refine .inr ⟨t', next' result, ?_, hsame', hnext result⟩
          simp only [Program.advance, hresult']
  | @silent γ action next other haction hnext =>
      simp only [Program.advance] at hadvance
      split at hadvance
      · contradiction
      · next result u hresult =>
          simp only [Option.some.injEq, Prod.mk.injEq] at hadvance
          obtain ⟨rfl, rfl⟩ := hadvance
          exact .inl ⟨haction i w s t result u hsame hresult, hnext result⟩

end Matches

/-- All actions of the program are silent, however it ends. -/
inductive Silent (same : σ → τ → Prop) : Program ω σ ε α → Prop where
  | done (value : α) : Silent same (.done value)
  | failed (error : ε) : Silent same (.failed error)
  | action {γ : Type} {action : ℕ → ω → σ → Option (γ × σ)}
      {next : γ → Program ω σ ε α}
      (haction : ∀ i w s t result s', same s t →
        action i w s = some (result, s') → same s' t)
      (hnext : ∀ result, Silent same (next result)) :
      Silent same (.atomic action next)

theorem Silent.bind {program : Program ω σ ε α}
    {next : α → Program ω σ ε β} (h : program.Silent same)
    (hnext : ∀ value, (next value).Silent same) :
    (program >>= next).Silent same := by
  induction h with
  | done value => exact hnext value
  | failed error => exact .failed error
  | action haction _ ih => exact .action haction ih

/-- A silent program whose errors are caught is not noticed. -/
theorem Silent.recover_matches {program : Program ω σ ε Unit}
    (h : program.Silent same) :
    (program.recover fun _ => .done ()).Matches same
      (.done () : Program ω τ ε Unit) := by
  induction h with
  | done value => exact .done ()
  | failed error => exact .done ()
  | action haction _ ih => exact .silent haction ih

end Program

/-! ## Matching pools -/

variable {ρ η : Type}

structure Thread.Matches (same : σ → τ → Prop) (thread : Thread ρ ω σ ε α)
    (other : Thread ρ ω τ ε α) : Prop where
  request : thread.request = other.request
  body : thread.body.Matches same other.body

structure Pool.Matches (same : σ → τ → Prop) (pool : Pool ρ ω σ ε α)
    (other : Pool ρ ω τ ε α) : Prop where
  state : same pool.state other.state
  length : pool.threads.length = other.threads.length
  threads : ∀ (i : ℕ) (thread : Thread ρ ω σ ε α),
    pool.threads[i]? = some thread →
    ∃ other_thread, other.threads[i]? = some other_thread ∧
      thread.Matches same other_thread

/-- How a thread ended, if it did. -/
def Pool.outcome (pool : Pool ρ ω σ ε α) (i : ℕ) : Option (ρ × Except ε α) :=
  match pool.threads[i]? with
  | some ⟨request, .done value⟩ => some (request, .ok value)
  | some ⟨request, .failed error⟩ => some (request, .error error)
  | _ => none

theorem Pool.Matches.outcome {pool : Pool ρ ω σ ε α} {other : Pool ρ ω τ ε α}
    (h : pool.Matches same other) {i : ℕ} {request : ρ}
    {result : Except ε α} (hend : pool.outcome i = some (request, result)) :
    other.outcome i = some (request, result) := by
  unfold Pool.outcome at hend
  split at hend
  · next hthread =>
      obtain ⟨⟨_, body⟩, hother, hrequest, hbody⟩ := h.threads i _ hthread
      cases hbody
      cases hrequest
      simpa [Pool.outcome, hother] using hend
  · next hthread =>
      obtain ⟨⟨_, body⟩, hother, hrequest, hbody⟩ := h.threads i _ hthread
      cases hbody
      cases hrequest
      simpa [Pool.outcome, hother] using hend
  · contradiction

/-- The moves that are never silent: the submissions, and the events that the
other system has as well. -/
def Move.kept (silent : η → Bool) : Move ρ ω η → Bool
  | .submit _ => true
  | .advance _ _ => false
  | .environment event => !silent event

/-- The programs of the first system match those of the second, and the silent
events of its surroundings change nothing the second looks at. -/
structure System.Matches (same : σ → τ → Prop) (silent : η → Bool)
    (S : System ρ ω η σ ε α) (T : System ρ ω η τ ε α) : Prop where
  handler : ∀ request, (S.handler request).Matches same (T.handler request)
  ignored : ∀ event s t, silent event = true → same s t →
    same (S.environment event s) t
  shared : ∀ event s t, silent event = false → same s t →
    same (S.environment event s) (T.environment event t)

section Runs

variable {S : System ρ ω η σ ε α} {T : System ρ ω η τ ε α}
  {silent : η → Bool} {pool next : Pool ρ ω σ ε α} {other : Pool ρ ω τ ε α}

theorem Pool.Matches.submit (h : pool.Matches same other)
    (hsystems : System.Matches same silent S T) (request : ρ) :
    Pool.Matches same
      ⟨pool.state, pool.threads ++ [⟨request, S.handler request⟩]⟩
      ⟨other.state, other.threads ++ [⟨request, T.handler request⟩]⟩ where
  state := h.state
  length := by simp [h.length]
  threads i thread hthread := by
    rw [List.getElem?_append] at hthread ⊢
    rw [← h.length]
    split at hthread
    · next hlt =>
        rw [if_pos hlt]
        exact h.threads i thread hthread
    · next hge =>
        rw [if_neg hge]
        simp only [List.getElem?_singleton, Option.ite_none_right_eq_some,
          Option.some.injEq] at hthread
        obtain ⟨hzero, rfl⟩ := hthread
        exact ⟨⟨request, T.handler request⟩, by simp [hzero], rfl,
          hsystems.handler request⟩

/-- A thread of the first pool, replaced by one that matches. -/
theorem Pool.Matches.set (h : pool.Matches same other) {s : σ} {t : τ}
    {j : ℕ} {thread : Thread ρ ω σ ε α} {other_thread : Thread ρ ω τ ε α}
    (hstate : same s t) (hmatches : thread.Matches same other_thread) :
    Pool.Matches same ⟨s, pool.threads.set j thread⟩
      ⟨t, other.threads.set j other_thread⟩ where
  state := hstate
  length := by simp [h.length]
  threads i found hfound := by
    have hlt : i < other.threads.length := by
      rw [← h.length]
      simpa using (List.getElem?_eq_some_iff.mp hfound).1
    by_cases hij : j = i
    · subst hij
      rw [List.getElem?_set_self (h.length ▸ hlt), Option.some.injEq] at hfound
      exact ⟨other_thread, List.getElem?_set_self hlt, hfound ▸ hmatches⟩
    · rw [List.getElem?_set_ne hij] at hfound ⊢
      exact h.threads i found hfound

/-- A move of the first system is one of the second, or silent. -/
theorem System.Matches.perform (hsystems : System.Matches same silent S T)
    {move : Move ρ ω η} (h : pool.Matches same other)
    (hperform : S.perform move pool = some next) :
    (move.kept silent = false ∧ next.Matches same other) ∨
      ∃ after, T.perform move other = some after ∧
        next.Matches same after := by
  rcases System.perform_cases hperform with
    ⟨request, rfl, rfl⟩ |
      ⟨i, w, thread, state, body, rfl, hthread, hadvance, rfl⟩ |
        ⟨event, rfl, rfl⟩
  · exact .inr ⟨_, rfl, h.submit hsystems request⟩
  · obtain ⟨other_thread, hother, hrequest, hbody⟩ := h.threads i thread hthread
    rcases hbody.advance h.state hadvance with
      ⟨hstate, hmatches⟩ | ⟨t', body', hadvance', hstate, hmatches⟩
    · obtain ⟨hlt, hget⟩ := List.getElem?_eq_some_iff.mp hother
      have hmatches' : Thread.Matches same
          (⟨thread.request, body⟩ : Thread ρ ω σ ε α) other_thread :=
        ⟨hrequest, hmatches⟩
      have hset := h.set (j := i) hstate hmatches'
      rw [← hget, List.set_getElem_self hlt] at hset
      exact .inl ⟨rfl, hset⟩
    · refine .inr ⟨⟨t', other.threads.set i ⟨other_thread.request, body'⟩⟩,
        ?_, h.set hstate ⟨hrequest, hmatches⟩⟩
      simp [System.perform, hother, hadvance']
  · cases hsilent : silent event with
    | true =>
        exact .inl ⟨by simp [Move.kept, hsilent],
          hsystems.ignored event _ _ hsilent h.state, h.length, h.threads⟩
    | false =>
        exact .inr ⟨_, rfl, hsystems.shared event _ _ hsilent h.state,
          h.length, h.threads⟩

/-- A run of the first system is one of the second without some moves, all of
them silent. -/
theorem System.Matches.run (hsystems : System.Matches same silent S T)
    {moves : List (Move ρ ω η)} (h : pool.Matches same other)
    (hrun : S.run moves pool = some next) :
    ∃ moves' after, moves'.Sublist moves ∧
      moves'.filter (Move.kept silent) = moves.filter (Move.kept silent) ∧
      T.run moves' other = some after ∧ next.Matches same after := by
  induction moves generalizing pool other with
  | nil =>
      simp only [System.run, Option.some.injEq] at hrun
      exact ⟨[], other, List.Sublist.refl _, rfl, rfl, hrun ▸ h⟩
  | cons move rest ih =>
      simp only [System.run] at hrun
      cases hperform : S.perform move pool with
      | none => simp [hperform] at hrun
      | some middle =>
          rw [hperform] at hrun
          rcases hsystems.perform h hperform with
            ⟨hkept, hmatches⟩ | ⟨after, hafter, hmatches⟩
          · obtain ⟨moves', last, hsub, hfilter, hlast, hend⟩ :=
              ih hmatches hrun
            refine ⟨moves', last, hsub.cons move, ?_, hlast, hend⟩
            rw [List.filter_cons_of_neg (by simp [hkept]), hfilter]
          · obtain ⟨moves', last, hsub, hfilter, hlast, hend⟩ :=
              ih hmatches hrun
            refine ⟨move :: moves', last, hsub.cons_cons move, ?_, ?_, hend⟩
            · rw [List.filter_cons, List.filter_cons, hfilter]
            · simp only [System.run, hafter, hlast]

end Runs

end Interleaving
