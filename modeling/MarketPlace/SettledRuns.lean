import MarketPlace.LoneRuns

/-!
# Runs whose end is settled

Some outcomes of the surroundings leave a lone program no choice: as long as
each of its actions is under such an outcome, it can only end in one way.

Nothing here depends on what the state or the programs are.
-/

namespace Interleaving.Program

variable {ω σ ε α β : Type} {P : ω → Prop} {i : ℕ} {s t u : σ}

/-- Alone and under such outcomes, the program ends with this result in this
state if it ends. -/
def Settles (P : ω → Prop) (i : ℕ) (program : Program ω σ ε α) (s : σ)
    (result : Except ε α) (t : σ) : Prop :=
  ∀ ws outcome u, (∀ w ∈ ws, P w) → program.Ends i ws s outcome u →
    outcome = result ∧ u = t

theorem settles_done (value : α) :
    (Program.done value : Program ω σ ε α).Settles P i s (.ok value) s :=
  fun _ _ _ _ hends => hends.2

theorem settles_failed (error : ε) :
    (Program.failed error : Program ω σ ε α).Settles P i s (.error error) s :=
  fun _ _ _ _ hends => hends.2

section Bind

variable {program : Program ω σ ε α} {next : α → Program ω σ ε β}
  {result : Except ε β}

theorem Settles.bind {value : α} (hfirst : program.Settles P i s (.ok value) u)
    (hnext : (next value).Settles P i u result t) :
    (program >>= next).Settles P i s result t := by
  intro ws outcome v hall hends
  rcases ends_bind.mp hends with
    ⟨error, -, herror⟩ | ⟨first, rest, middle, v', rfl, hprogram, hrest⟩
  · exact absurd (hfirst _ _ _ hall herror).1 (by simp)
  · obtain ⟨hmiddle, rfl⟩ := hfirst _ _ _
      (fun w hw => hall w (List.mem_append_left _ hw)) hprogram
    obtain rfl := Except.ok.inj hmiddle
    exact hnext _ _ _ (fun w hw => hall w (List.mem_append_right _ hw)) hrest

theorem Settles.bind_error {error : ε}
    (hfirst : program.Settles P i s (.error error) t) :
    (program >>= next).Settles P i s (.error error) t := by
  intro ws outcome v hall hends
  rcases ends_bind.mp hends with
    ⟨other, rfl, herror⟩ | ⟨first, rest, middle, v', rfl, hprogram, -⟩
  · obtain ⟨hother, rfl⟩ := hfirst _ _ _ hall herror
    obtain rfl := Except.error.inj hother
    exact ⟨rfl, rfl⟩
  · exact absurd (hfirst _ _ _
      (fun w hw => hall w (List.mem_append_left _ hw)) hprogram).1 (by simp)

end Bind

section Recover

variable {program : Program ω σ ε α} {handler : ε → Program ω σ ε α}

theorem Settles.recover_ok {value : α}
    (hprogram : program.Settles P i s (.ok value) t) :
    (program.recover handler).Settles P i s (.ok value) t := by
  intro ws outcome v hall hends
  rcases ends_recover.mp hends with
    ⟨other, rfl, hok⟩ | ⟨first, rest, error, v', rfl, herror, -⟩
  · exact hprogram _ _ _ hall hok
  · exact absurd (hprogram _ _ _
      (fun w hw => hall w (List.mem_append_left _ hw)) herror).1 (by simp)

theorem Settles.recover {error : ε} {result : Except ε α}
    (hprogram : program.Settles P i s (.error error) u)
    (hhandler : (handler error).Settles P i u result t) :
    (program.recover handler).Settles P i s result t := by
  intro ws outcome v hall hends
  rcases ends_recover.mp hends with
    ⟨value, -, hok⟩ | ⟨first, rest, other, v', rfl, herror, hrest⟩
  · exact absurd (hprogram _ _ _ hall hok).1 (by simp)
  · obtain ⟨hother, rfl⟩ := hprogram _ _ _
      (fun w hw => hall w (List.mem_append_left _ hw)) herror
    obtain rfl := Except.error.inj hother
    exact hhandler _ _ _ (fun w hw => hall w (List.mem_append_right _ hw)) hrest

end Recover

/-- A program that never waits has a lone run under one outcome repeated. -/
theorem Finishes.exists_ends {free : σ → Prop} {n : ℕ}
    {program : Program ω σ ε α} (hfinishes : program.Finishes free n)
    (hfree : free s) (w : ω) :
    ∃ ws outcome t, (∀ w' ∈ ws, w' = w) ∧ program.Ends i ws s outcome t := by
  induction program generalizing n s with
  | done value => exact ⟨[], .ok value, s, by simp, rfl, rfl, rfl⟩
  | failed error => exact ⟨[], .error error, s, by simp, rfl, rfl, rfl⟩
  | atomic action next ih =>
      cases n with
      | zero => exact hfinishes.elim
      | succ n =>
          obtain ⟨outcome, u, haction, hu⟩ := hfinishes.1 i w s hfree
          obtain ⟨ws, result, t, hsame, hends⟩ :=
            ih outcome (hfinishes.2 outcome) hu
          exact ⟨w :: ws, result, t, by simpa using hsame, w, ws, outcome, u,
            rfl, haction, hends⟩

end Interleaving.Program
