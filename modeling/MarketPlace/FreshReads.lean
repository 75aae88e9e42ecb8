import MarketPlace.InterleavedPrograms

/-!
# Results that were true on the way

A request that only reads answers from the state of one of its actions.  Its
result is an account of a state that the system was in after the request came
and before the result was there.

Nothing here depends on what the state or the requests are.
-/

namespace Interleaving

variable {ω σ ε α β ρ η : Type}

namespace Program

/-- Every result that the program may still have satisfies `p`. -/
def Settled (p : α → Prop) : Program ω σ ε α → Prop
  | .done value => p value
  | .failed _ => True
  | .atomic _ next => ∀ result, (next result).Settled p

/-- Before it has a result the program acts in a state that the result is an
account of. -/
def Observes (seen : α → σ → Prop) : Program ω σ ε α → Prop
  | .done _ => False
  | .failed _ => True
  | .atomic action next => ∀ i w s result t,
      action i w s = some (result, t) →
        (next result).Settled (fun value => seen value s) ∨
          (next result).Observes seen

section Rules

variable {p : α → Prop} {q : β → Prop} {seen : β → σ → Prop}
  {program body : Program ω σ ε α} {next : α → Program ω σ ε β}

theorem Settled.bind (h : program.Settled p)
    (hnext : ∀ value, p value → (next value).Settled q) :
    (program >>= next).Settled q := by
  induction program with
  | done value => exact hnext value h
  | failed error => trivial
  | atomic action rest ih => exact fun result => ih result (h result)

theorem settled_of_forall (h : ∀ value, p value) : program.Settled p := by
  induction program with
  | done value => exact h value
  | failed error => trivial
  | atomic action rest ih => exact fun result => ih result

/-- A result that is made of another one at the end. -/
theorem settled_map {f : α → β} (h : ∀ value, q (f value)) :
    (program >>= fun value => pure (f value)).Settled q :=
  Settled.bind (settled_of_forall fun _ => trivial) fun value _ => h value

/-- What comes before the observation does not matter. -/
theorem Observes.after (hnext : ∀ value, (next value).Observes seen) :
    (program >>= next).Observes seen := by
  induction program with
  | done value => exact hnext value
  | failed error => trivial
  | atomic action rest ih =>
      exact fun i w s result t _ => .inr (ih result)

/-- What comes after the observation passes it on. -/
theorem Observes.bind {seen' : α → σ → Prop} (h : program.Observes seen')
    (hnext : ∀ value s, seen' value s →
      (next value).Settled fun result => seen result s) :
    (program >>= next).Observes seen := by
  induction program with
  | done value => exact h.elim
  | failed error => trivial
  | atomic action rest ih =>
      intro i w s result t haction
      rcases h i w s result t haction with hsettled | hobserves
      · exact .inl (hsettled.bind fun value hvalue => hnext value s hvalue)
      · exact .inr (ih result hobserves)

theorem Observes.map {seen' : α → σ → Prop} {f : α → β}
    (h : program.Observes seen')
    (hf : ∀ value s, seen' value s → seen (f value) s) :
    (program >>= fun value => pure (f value)).Observes seen :=
  h.bind hf

theorem Settled.advance {i : ℕ} {w : ω} {s t : σ} (h : program.Settled p)
    (hadvance : program.advance i w s = some (t, body)) : body.Settled p := by
  cases program with
  | done value => simp [Program.advance] at hadvance
  | failed error => simp [Program.advance] at hadvance
  | atomic action rest =>
      cases haction : action i w s with
      | none => simp [Program.advance, haction] at hadvance
      | some outcome =>
          simp only [Program.advance, haction, Option.some.injEq,
            Prod.mk.injEq] at hadvance
          obtain ⟨-, rfl⟩ := hadvance
          exact h _

theorem Observes.advance {seen : α → σ → Prop} {i : ℕ} {w : ω} {s t : σ}
    (h : program.Observes seen)
    (hadvance : program.advance i w s = some (t, body)) :
    body.Settled (fun value => seen value s) ∨ body.Observes seen := by
  cases program with
  | done value => exact h.elim
  | failed error => simp [Program.advance] at hadvance
  | atomic action rest =>
      cases haction : action i w s with
      | none => simp [Program.advance, haction] at hadvance
      | some outcome =>
          simp only [Program.advance, haction, Option.some.injEq,
            Prod.mk.injEq] at hadvance
          obtain ⟨rfl, rfl⟩ := hadvance
          exact h i w s _ _ haction

end Rules

end Program

namespace System

variable {S : System ρ ω η σ ε α} {admits : ρ → σ → Prop}
  {start pool next : Pool ρ ω σ ε α} {i : ℕ}

/-- No move takes a thread away or gives it another request. -/
theorem thread_of_perform {move : Move ρ ω η}
    (hperform : S.perform move pool = some next) {thread : Thread ρ ω σ ε α}
    (hthread : pool.threads[i]? = some thread) :
    ∃ body, next.threads[i]? = some ⟨thread.request, body⟩ := by
  have hlt := (List.getElem?_eq_some_iff.mp hthread).1
  rcases perform_cases hperform with
    ⟨request, -, rfl⟩ | ⟨j, w, actor, state, body, -, hactor, -, rfl⟩ |
      ⟨event, -, rfl⟩
  · exact ⟨thread.body, (List.getElem?_append_left hlt).trans hthread⟩
  · by_cases hij : j = i
    · subst hij
      obtain rfl := Option.some.inj (hactor.symm.trans hthread)
      exact ⟨body, List.getElem?_set_self hlt⟩
    · exact ⟨thread.body, (List.getElem?_set_ne hij).trans hthread⟩
  · exact ⟨thread.body, hthread⟩

/-- What every result of a handler satisfies, the results in a pool satisfy. -/
theorem Reaches.settled {p : ρ → α → Prop}
    (hreach : S.Reaches admits start pool) (hstart : start.threads = [])
    (hhandler : ∀ request, (S.handler request).Settled (p request))
    {thread : Thread ρ ω σ ε α} (hthread : pool.threads[i]? = some thread) :
    thread.body.Settled (p thread.request) := by
  induction hreach generalizing i thread with
  | refl => simp [hstart] at hthread
  | step _ _ hperform ih =>
      refine perform_threads
        (fun _ thread _ => thread.body.Settled (p thread.request)) hperform ?_ ?_
        ?_ (fun _ _ => ih) hthread
      · exact fun request _ => hhandler request
      · intro j w actor state body hactor hadvance
        exact ⟨(ih hactor).advance hadvance, fun _ _ _ hother => hother⟩
      · exact fun _ _ _ hother => hother

/-- A thread that came after `start` is still to observe, or what it has
observed was so at a pool on the way. -/
def Observed (S : System ρ ω η σ ε α) (admits : ρ → σ → Prop)
    (seen : α → σ → Prop) (start : Pool ρ ω σ ε α) (i : ℕ)
    (body : Program ω σ ε α) (pool : Pool ρ ω σ ε α) : Prop :=
  body.Observes seen ∨
    ∃ middle : Pool ρ ω σ ε α, S.Reaches admits start middle ∧
      S.Reaches admits middle pool ∧ i < middle.threads.length ∧
      body.Settled fun value => seen value middle.state

theorem Observed.later {seen : α → σ → Prop} {body : Program ω σ ε α}
    (h : S.Observed admits seen start i body pool)
    (hlater : S.Reaches admits pool next) :
    S.Observed admits seen start i body next :=
  h.imp_right fun ⟨middle, hmiddle, hpool, hi, hsettled⟩ =>
    ⟨middle, hmiddle, hpool.trans hlater, hi, hsettled⟩

theorem Reaches.observes {request : ρ} {seen : α → σ → Prop}
    (hreach : S.Reaches admits start pool)
    (hobserves : (S.handler request).Observes seen)
    (hi : start.threads.length ≤ i) {body : Program ω σ ε α}
    (hthread : pool.threads[i]? = some ⟨request, body⟩) :
    S.Observed admits seen start i body pool := by
  induction hreach generalizing body with
  | refl =>
      have hlt := (List.getElem?_eq_some_iff.mp hthread).1
      omega
  | @step pool next move hreach hadmits hperform ih =>
      have hnext : S.Reaches admits pool next :=
        .step .refl hadmits hperform
      rcases perform_cases hperform with
        ⟨other, -, rfl⟩ | ⟨j, w, actor, state, rest, -, hactor, hadvance, rfl⟩ |
          ⟨event, -, rfl⟩
      · rw [List.getElem?_append] at hthread
        split at hthread
        · exact (ih hthread).later hnext
        · simp only [List.getElem?_singleton, Option.ite_none_right_eq_some,
            Option.some.injEq, Thread.mk.injEq] at hthread
          obtain ⟨-, rfl, rfl⟩ := hthread
          exact .inl hobserves
      · by_cases hij : j = i
        · subst hij
          have hlt := (List.getElem?_eq_some_iff.mp hactor).1
          rw [List.getElem?_set_self hlt, Option.some.injEq,
            Thread.mk.injEq] at hthread
          obtain ⟨rfl, rfl⟩ := hthread
          rcases ih hactor with hbody | ⟨middle, hmiddle, hpool, hlt', hsettled⟩
          · rcases hbody.advance hadvance with hsettled | hbody
            · exact .inr ⟨pool, hreach, hnext, hlt, hsettled⟩
            · exact .inl hbody
          · exact .inr ⟨middle, hmiddle, hpool.trans hnext, hlt',
              hsettled.advance hadvance⟩
        · rw [List.getElem?_set_ne hij] at hthread
          exact (ih hthread).later hnext
      · exact (ih hthread).later hnext

/-- What a request answers was so after it came and before it answered. -/
theorem Reaches.observed {request : ρ} {seen : α → σ → Prop} {value : α}
    (hreach : S.Reaches admits start pool)
    (hobserves : (S.handler request).Observes seen)
    (hi : start.threads.length ≤ i)
    (hthread : pool.threads[i]? = some ⟨request, .done value⟩) :
    ∃ middle : Pool ρ ω σ ε α, S.Reaches admits start middle ∧
      S.Reaches admits middle pool ∧ i < middle.threads.length ∧
      seen value middle.state := by
  rcases hreach.observes hobserves hi hthread with hnever | hseen
  · exact hnever.elim
  · exact hseen

end System

end Interleaving
