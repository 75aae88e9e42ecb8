import MarketPlace.InterleavedPrograms

/-!
# Programs over a part of a state

A program over one part of a larger state runs over the whole of it and leaves
the rest alone.  What it meets over the part, it meets over the whole.  The
last section is about programs whose last action leaves a mark.

Nothing here depends on what the states are.
-/

namespace Interleaving

/-- A part of the states in `σ` that can be read and replaced. -/
structure Part (σ τ : Type) where
  get : σ → τ
  set : τ → σ → σ
  get_set : ∀ t s, get (set t s) = t

variable {ω ω' σ τ ε α : Type}

namespace Program

/-- The program over the part, with its outcomes taken from larger ones. -/
def onPart (part : Part σ τ) (outcome : ω' → ω) :
    Program ω τ ε α → Program ω' σ ε α
  | .done value => .done value
  | .failed error => .failed error
  | .atomic action next =>
      .atomic
        (fun i w s =>
          match action i (outcome w) (part.get s) with
          | none => none
          | some (result, t) => some (result, part.set t s))
        fun result => (next result).onPart part outcome

namespace Meets

variable {D : Discipline τ} {D' : Discipline σ} {i : ℕ}
  {post : α → τ → Prop} {fail : ε → τ → Prop}

/-- A discipline of the whole carries over what is met over the part if it
grants the part's actions and keeps what the part relies on. -/
theorem onPart {part : Part σ τ} {outcome : ω' → ω}
    (hrely : ∀ {s s'}, D'.rely i s s' → D.rely i (part.get s) (part.get s'))
    (hinvariant : ∀ {s}, D'.invariant s → D.invariant (part.get s))
    (hguarantee : ∀ {s t}, D'.invariant s → D.guarantee i (part.get s) t →
      D'.guarantee i s (part.set t s))
    {program : Program ω τ ε α} {s : σ}
    (hmeets : program.Meets D i post fail (part.get s)) :
    (program.onPart part outcome).Meets D' i
      (fun value s => post value (part.get s))
      (fun error s => fail error (part.get s)) s := by
  induction program generalizing s with
  | done value =>
      exact fun t ht hvalid => hmeets _ (hrely ht) (hinvariant hvalid)
  | failed error =>
      exact fun t ht hvalid => hmeets _ (hrely ht) (hinvariant hvalid)
  | atomic action next ih =>
      intro t ht hvalid w result u haction
      cases hpart : action i (outcome w) (part.get t) with
      | none => simp [hpart] at haction
      | some step =>
          obtain ⟨value, v⟩ := step
          simp only [hpart, Option.some.injEq, Prod.mk.injEq] at haction
          obtain ⟨rfl, rfl⟩ := haction
          have hstep := hmeets _ (hrely ht) (hinvariant hvalid) (outcome w)
            value v hpart
          constructor
          · exact hguarantee hvalid hstep.1
          · apply ih
            rw [part.get_set]
            exact hstep.2

/-- Narrower rights are enough. -/
theorem within_mono {D : Discipline σ} {rights rights' : ℕ → σ → σ → Prop}
    {post : α → σ → Prop} {fail : ε → σ → Prop}
    (hrights : ∀ {s t}, rights i s t → rights' i s t)
    {program : Program ω σ ε α} {s : σ}
    (hmeets : program.Meets (D.within rights) i post fail s) :
    program.Meets (D.within rights') i post fail s := by
  induction program generalizing s with
  | done value => exact hmeets
  | failed error => exact hmeets
  | atomic action next ih =>
      intro t ht hvalid w result u haction
      obtain ⟨hguarantee, hnext⟩ := hmeets t ht hvalid w result u haction
      exact ⟨⟨hguarantee.1, hrights hguarantee.2⟩, ih result hnext⟩

end Meets

/-! ### Programs that leave a mark last -/

/-- No action of the program leaves the mark. -/
def Unmarked (mark : ℕ → σ → Prop) : Program ω σ ε α → Prop
  | .done _ => True
  | .failed _ => True
  | .atomic action next =>
      (∀ i w s result t, action i w s = some (result, t) → ¬ mark i s →
        ¬ mark i t) ∧
      ∀ result, (next result).Unmarked mark

/-- An action that leaves the mark is the program's last. -/
def MarksLast (mark : ℕ → σ → Prop) : Program ω σ ε α → Prop
  | .done _ => True
  | .failed _ => True
  | .atomic action next =>
      (∀ i w s result t, action i w s = some (result, t) → ¬ mark i s →
        mark i t → (next result).ended = true) ∧
      ∀ result, (next result).MarksLast mark

section Marks

variable {mark : ℕ → σ → Prop} {β : Type}

theorem Unmarked.marksLast {program : Program ω σ ε α}
    (h : program.Unmarked mark) : program.MarksLast mark := by
  induction program with
  | done value => trivial
  | failed error => trivial
  | atomic action next ih =>
      refine ⟨fun i w s result t haction hbefore hafter => ?_,
        fun result => ih result (h.2 result)⟩
      exact absurd hafter (h.1 i w s result t haction hbefore)

theorem Unmarked.bind {program : Program ω σ ε α}
    {next : α → Program ω σ ε β} (h : program.Unmarked mark)
    (hnext : ∀ value, (next value).Unmarked mark) :
    (program >>= next).Unmarked mark := by
  induction program with
  | done value => exact hnext value
  | failed error => trivial
  | atomic action rest ih =>
      exact ⟨h.1, fun result => ih result (h.2 result)⟩

theorem unmarked_onPart {part : Part σ τ} {outcome : ω' → ω}
    (hpart : ∀ i t s, mark i (part.set t s) → mark i s)
    (program : Program ω τ ε α) :
    (program.onPart part outcome).Unmarked mark := by
  induction program with
  | done value => trivial
  | failed error => trivial
  | atomic action next ih =>
      refine ⟨fun i w s result t haction hbefore hafter => ?_, ih⟩
      cases hstep : action i (outcome w) (part.get s) with
      | none => simp [hstep] at haction
      | some step =>
          simp only [hstep, Option.some.injEq, Prod.mk.injEq] at haction
          obtain ⟨rfl, rfl⟩ := haction
          exact hbefore (hpart i _ s hafter)

theorem MarksLast.advance {program body : Program ω σ ε α} {i : ℕ} {w : ω}
    {s t : σ} (h : program.MarksLast mark)
    (hadvance : program.advance i w s = some (t, body)) :
    body.MarksLast mark := by
  cases program with
  | done value => simp [Program.advance] at hadvance
  | failed error => simp [Program.advance] at hadvance
  | atomic action next =>
      simp only [Program.advance] at hadvance
      cases haction : action i w s with
      | none => simp [haction] at hadvance
      | some outcome =>
          simp only [haction, Option.some.injEq, Prod.mk.injEq] at hadvance
          obtain ⟨-, rfl⟩ := hadvance
          exact h.2 outcome.1

/-- A program that was not over before its action is over once it is marked. -/
theorem MarksLast.ended_of_advance {program body : Program ω σ ε α} {i : ℕ}
    {w : ω} {s t : σ} (h : program.MarksLast mark)
    (hadvance : program.advance i w s = some (t, body))
    (hbefore : mark i s → program.ended = true) (hafter : mark i t) :
    body.ended = true := by
  cases program with
  | done value => simp [Program.advance] at hadvance
  | failed error => simp [Program.advance] at hadvance
  | atomic action next =>
      simp only [Program.advance] at hadvance
      cases haction : action i w s with
      | none => simp [haction] at hadvance
      | some outcome =>
          simp only [haction, Option.some.injEq, Prod.mk.injEq] at hadvance
          obtain ⟨rfl, rfl⟩ := hadvance
          have hunmarked : ¬ mark i s := fun hmark =>
            Bool.false_ne_true (hbefore hmark)
          exact h.1 i w s outcome.1 outcome.2 haction hunmarked hafter

end Marks

end Program

namespace System

variable {ρ η : Type} {S : System ρ ω η σ ε α} {admits : ρ → σ → Prop}
  {start pool : Pool ρ ω σ ε α} {D : Discipline σ}
  {rights : ρ → ℕ → σ → σ → Prop} {fresh : ℕ → σ → Prop}
  {post : ρ → ℕ → α → σ → Prop} {fail : ρ → ℕ → ε → σ → Prop}

/-- A mark that only a thread itself leaves, with its last action, shows that
the thread is over. -/
theorem Reaches.ended_of_mark
    (hsound : S.SoundWithin D rights fresh admits post fail)
    (hreach : S.Reaches admits start pool)
    (hstart : OnCourseWithin D rights fresh post fail start)
    (hempty : start.threads = [])
    (mark : ℕ → σ → Prop) (hunmarked : ∀ i, ¬ mark i start.state)
    (hlast : ∀ request, (S.handler request).MarksLast mark)
    (hothers : ∀ {i j s t}, i ≠ j → D.guarantee i s t → mark j t → mark j s)
    (henvironment : ∀ event {j s}, mark j (S.environment event s) → mark j s) :
    (∀ i, mark i pool.state → ∃ thread, pool.threads[i]? = some thread ∧
      thread.body.ended = true) ∧
    ∀ (i : ℕ) (thread : Thread ρ ω σ ε α), pool.threads[i]? = some thread →
      thread.body.MarksLast mark := by
  induction hreach with
  | refl =>
      exact ⟨fun i hmark => absurd hmark (hunmarked i), by simp [hempty]⟩
  | step hreach _ hperform ih =>
      obtain ⟨hended, hthreads⟩ := ih
      have hpool := hreach.soundWithin hsound hstart
      constructor
      · intro i hmark
        rcases System.perform_cases hperform with
          ⟨request, -, rfl⟩ |
            ⟨j, w, actor, state, next, -, hactor, hadvance, rfl⟩ |
              ⟨event, -, rfl⟩
        · obtain ⟨thread, hthread, hdone⟩ := hended i hmark
          refine ⟨thread, ?_, hdone⟩
          rw [List.getElem?_append_left
            (List.getElem?_eq_some_iff.mp hthread).1]
          exact hthread
        · by_cases hij : j = i
          · subst hij
            refine ⟨⟨actor.request, next⟩, List.getElem?_set_self
              (List.getElem?_eq_some_iff.mp hactor).1, ?_⟩
            exact (hthreads j actor hactor).ended_of_advance hadvance
              (fun hbefore => by
                obtain ⟨thread, hthread, hdone⟩ := hended j hbefore
                obtain rfl := Option.some.inj (hthread.symm.trans hactor)
                exact hdone) hmark
          · have hguarantee := (hpool.action hactor hadvance).1
            obtain ⟨thread, hthread, hdone⟩ :=
              hended i (hothers hij hguarantee hmark)
            exact ⟨thread, (List.getElem?_set_ne hij).trans hthread, hdone⟩
        · exact hended i (henvironment event hmark)
      · intro i thread hthread
        refine perform_threads (fun _ thread _ => thread.body.MarksLast mark)
          hperform ?_ ?_ ?_ hthreads hthread
        · exact fun request _ => hlast request
        · intro j w actor state body hactor hadvance
          exact ⟨(hthreads j actor hactor).advance hadvance,
            fun _ _ _ hother => hother⟩
        · exact fun _ _ _ hother => hother

end System

end Interleaving
