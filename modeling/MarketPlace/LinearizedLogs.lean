import MarketPlace.ProgressOutlines

/-!
# Requests that take effect once

A log lists effects with the requests that they are of.  If every request with
a result has had its effect, and no other request any, then the log lists the
completed requests in an order of their own.  What was completed before a
request came is before it in the log, since a log only grows at its end.

Nothing here depends on what the state, the requests or the effects are.
-/

namespace Interleaving

variable {ω σ ε α ρ η θ : Type}

/-- The effects of request `i`. -/
def effectsOf (i : ℕ) (log : List (ℕ × θ)) : List θ :=
  log.filterMap fun entry => if entry.1 = i then some entry.2 else none

section Logs

variable {i j : ℕ} {effect : θ} {log new : List (ℕ × θ)}

@[simp] theorem effectsOf_nil : effectsOf i ([] : List (ℕ × θ)) = [] := rfl

@[simp] theorem effectsOf_append :
    effectsOf i (log ++ new) = effectsOf i log ++ effectsOf i new := by
  simp [effectsOf]

@[simp] theorem effectsOf_singleton :
    effectsOf i [(j, effect)] = if j = i then [effect] else [] := by
  by_cases hij : j = i <;> simp [effectsOf, hij]

theorem effectsOf_cons :
    effectsOf i ((j, effect) :: log) =
      (if j = i then [effect] else []) ++ effectsOf i log := by
  by_cases hij : j = i <;> simp [effectsOf, hij]

@[simp] theorem mem_effectsOf : effect ∈ effectsOf i log ↔ (i, effect) ∈ log := by
  simp [effectsOf]

theorem effectsOf_eq_nil (hlog : ∀ entry ∈ log, entry.1 ≠ i) :
    effectsOf i log = [] := by
  simpa [effectsOf] using hlog

/-- A log in which nobody has two effects lists nobody twice. -/
theorem nodup_of_effectsOf
    (hone : ∀ i, (effectsOf i log).length ≤ 1) : (log.map Prod.fst).Nodup := by
  induction log with
  | nil => exact List.nodup_nil
  | cons entry rest ih =>
      obtain ⟨j, effect⟩ := entry
      have hrest : ∀ i, (effectsOf i rest).length ≤ 1 := by
        intro i
        have hall := hone i
        rw [effectsOf_cons, List.length_append] at hall
        omega
      have hfirst : effectsOf j rest = [] := by
        have hall := hone j
        simp only [effectsOf_cons, if_pos, List.length_append,
          List.length_singleton] at hall
        exact List.length_eq_zero_iff.mp (by omega)
      rw [List.map_cons, List.nodup_cons]
      refine ⟨fun hmem => ?_, ih hrest⟩
      obtain ⟨⟨k, other⟩, hother, rfl⟩ := List.mem_map.mp hmem
      have hlisted := mem_effectsOf.mpr hother
      rw [hfirst] at hlisted
      exact absurd hlisted List.not_mem_nil

end Logs

/-- The effect that a request with a result has had. -/
def Pool.completed (effect : ρ → α → Option θ) (pool : Pool ρ ω σ ε α) (i : ℕ) :
    Option θ :=
  match pool.answer i with
  | some (request, result) => effect request result
  | none => none

theorem completed_eq_some {effect : ρ → α → Option θ} {pool : Pool ρ ω σ ε α}
    {i : ℕ} {value : θ} :
    pool.completed effect i = some value ↔
      ∃ request result, pool.threads[i]? = some ⟨request, .done result⟩ ∧
        effect request result = some value := by
  constructor
  · intro h
    unfold Pool.completed at h
    cases hanswer : pool.answer i with
    | none => simp [hanswer] at h
    | some pair =>
        rw [hanswer] at h
        exact ⟨pair.1, pair.2, Pool.thread_of_answer hanswer, h⟩
  · rintro ⟨request, result, hthread, heffect⟩
    simp [Pool.completed, Pool.answer, hthread, heffect]

namespace System

/-- Every request has its effect by the time it has a result, and none as long
as it has no result; the result comes with an ending of its own. -/
abbrev TakesEffect (S : System ρ ω η σ ε α) (good : Pool ρ ω σ ε α → Prop)
    (invariant : σ → Prop) (rely : ℕ → σ → σ → Prop)
    (log : σ → List (ℕ × θ)) (effect : ρ → α → Option θ)
    (ending : ρ → ℕ → α → σ → Prop) : Prop :=
  S.Progresses good invariant rely
    (fun _ i s => effectsOf i (log s) = [])
    (fun request i result s =>
      effectsOf i (log s) = (effect request result).toList ∧
        ending request i result s)

variable {S : System ρ ω η σ ε α} {good : Pool ρ ω σ ε α → Prop}
  {invariant : σ → Prop} {rely : ℕ → σ → σ → Prop}
  {log : σ → List (ℕ × θ)} {effect : ρ → α → Option θ}
  {ending : ρ → ℕ → α → σ → Prop}
  {admits : ρ → σ → Prop} {start pool : Pool ρ ω σ ε α}

theorem TakesEffect.effectsOf_eq
    (h : S.TakesEffect good invariant rely log effect ending)
    (hreach : S.Reaches admits start pool) (hgood : good start)
    (hstart : start.threads = [])
    (hfresh : ∀ i, pool.threads.length ≤ i → effectsOf i (log pool.state) = [])
    (i : ℕ) :
    effectsOf i (log pool.state) = (pool.completed effect i).toList := by
  cases hthread : pool.threads[i]? with
  | none =>
      rw [hfresh i (List.getElem?_eq_none_iff.mp hthread)]
      simp [Pool.completed, Pool.answer, hthread]
  | some thread =>
      obtain ⟨request, body⟩ := thread
      rcases h.cases hreach hgood hstart hthread with
        ⟨value, rfl, hpost, -⟩ | ⟨hpending, hmeantime⟩
      · rw [hpost]
        simp [Pool.completed, Pool.answer, hthread]
      · rw [hmeantime]
        have hnone : pool.answer i = none := by
          rw [Option.eq_none_iff_forall_not_mem]
          intro pair hpair
          obtain ⟨request', value⟩ := pair
          have hdone := Pool.thread_of_answer hpair
          obtain ⟨-, hbody⟩ :=
            Thread.mk.inj (Option.some.inj (hthread.symm.trans hdone))
          exact hpending _ hbody
        simp [Pool.completed, hnone]

/-- The log lists exactly the completed requests with an effect, each once. -/
theorem TakesEffect.lists
    (h : S.TakesEffect good invariant rely log effect ending)
    (hreach : S.Reaches admits start pool) (hgood : good start)
    (hstart : start.threads = [])
    (hfresh : ∀ i, pool.threads.length ≤ i → effectsOf i (log pool.state) = []) :
    ((log pool.state).map Prod.fst).Nodup ∧
      ∀ i value, (i, value) ∈ log pool.state ↔
        ∃ request result, pool.threads[i]? = some ⟨request, .done result⟩ ∧
          effect request result = some value := by
  have heffects := h.effectsOf_eq hreach hgood hstart hfresh
  refine ⟨nodup_of_effectsOf fun i => ?_, fun i value => ?_⟩
  · rw [heffects i]
    cases pool.completed effect i <;> simp
  · rw [← mem_effectsOf, heffects i, Option.mem_toList,
      completed_eq_some]

theorem TakesEffect.ends
    (h : S.TakesEffect good invariant rely log effect ending)
    (hreach : S.Reaches admits start pool) (hgood : good start)
    (hstart : start.threads = []) {i : ℕ} {request : ρ} {result : α}
    (hthread : pool.threads[i]? = some ⟨request, .done result⟩) :
    ending request i result pool.state := by
  rcases h.cases hreach hgood hstart hthread with
    ⟨value, hbody, -, hending⟩ | ⟨hpending, -⟩
  · obtain rfl := Program.done.inj hbody
    exact hending
  · exact absurd rfl (hpending result)

end System

end Interleaving
