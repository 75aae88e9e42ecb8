import MarketPlace.KeptInvariants
import Mathlib.Data.List.Pairwise

/-!
# The actions of one request in a run

A run interleaves the actions of many requests.  This file picks out those of
one of them, each with the state before and after it.  The request's program
takes them one after the other, while between two of them the state may have
changed.

Nothing here depends on what the state or the requests are.
-/

namespace Interleaving

/-- One action of a request, with the states around it. -/
structure Acted (ω σ : Type) where
  draw : ω
  before : σ
  after : σ

variable {ρ η ω σ ε α β γ : Type} {i : ℕ}

/-! ## Programs -/

namespace Program

/-- As request `i` the program takes these actions and comes to `body`. -/
def Takes (i : ℕ) :
    Program ω σ ε α → List (Acted ω σ) → Program ω σ ε α → Prop
  | program, [], body => body = program
  | program, a :: acts, body =>
      ∃ next, program.advance i a.draw a.before = some (a.after, next) ∧
        next.Takes i acts body

variable {acts : List (Acted ω σ)}

@[simp] theorem takes_nil {program body : Program ω σ ε α} :
    program.Takes i [] body ↔ body = program := Iff.rfl

theorem takes_done {value : α} {body : Program ω σ ε α} :
    (Program.done value : Program ω σ ε α).Takes i acts body ↔
      acts = [] ∧ body = .done value := by
  cases acts with
  | nil => simp
  | cons a acts => simp [Takes, advance]

theorem takes_failed {error : ε} {body : Program ω σ ε α} :
    (Program.failed error : Program ω σ ε α).Takes i acts body ↔
      acts = [] ∧ body = .failed error := by
  cases acts with
  | nil => simp
  | cons a acts => simp [Takes, advance]

theorem not_takes_failed {error : ε} {value : α} :
    ¬ (Program.failed error : Program ω σ ε α).Takes i acts (.done value) := by
  intro h
  obtain ⟨-, hdone⟩ := takes_failed.mp h
  contradiction

theorem takes_append {program body : Program ω σ ε α}
    {more : List (Acted ω σ)} :
    program.Takes i (acts ++ more) body ↔
      ∃ middle, program.Takes i acts middle ∧ middle.Takes i more body := by
  induction acts generalizing program with
  | nil => simp
  | cons a acts ih =>
      simp only [List.cons_append, Takes, ih]
      constructor
      · rintro ⟨next, hadvance, middle, hacts, hmore⟩
        exact ⟨middle, ⟨next, hadvance, hacts⟩, hmore⟩
      · rintro ⟨middle, ⟨next, hadvance, hacts⟩, hmore⟩
        exact ⟨next, hadvance, middle, hacts, hmore⟩

/-- The actions of a program that has ended begin with its first one. -/
theorem takes_atomic {action : ℕ → ω → σ → Option (β × σ)}
    {next : β → Program ω σ ε α} {body : Program ω σ ε α}
    (hended : body.ended = true)
    (h : (Program.atomic action next).Takes i acts body) :
    ∃ a rest result, acts = a :: rest ∧
      action i a.draw a.before = some (result, a.after) ∧
      (next result).Takes i rest body := by
  cases acts with
  | nil =>
      rw [takes_nil] at h
      rw [h] at hended
      contradiction
  | cons a rest =>
      obtain ⟨body', hadvance, hrest⟩ := h
      simp only [advance] at hadvance
      cases haction : action i a.draw a.before with
      | none => simp [haction] at hadvance
      | some outcome =>
          obtain ⟨result, t⟩ := outcome
          simp only [haction, Option.some.injEq, Prod.mk.injEq] at hadvance
          obtain ⟨rfl, rfl⟩ := hadvance
          exact ⟨a, rest, result, rfl, haction, hrest⟩

/-- A sequence that is done has taken the actions of its two parts. -/
theorem takes_bind {program : Program ω σ ε α} {next : α → Program ω σ ε β}
    {value : β} (h : (program >>= next).Takes i acts (.done value)) :
    ∃ first rest middle, acts = first ++ rest ∧
      program.Takes i first (.done middle) ∧
      (next middle).Takes i rest (.done value) := by
  induction program generalizing acts with
  | done middle => exact ⟨[], acts, middle, rfl, rfl, h⟩
  | failed error =>
      exact absurd h not_takes_failed
  | atomic action rest ih =>
      obtain ⟨a, acts, result, rfl, haction, hrest⟩ := takes_atomic rfl h
      obtain ⟨first, more, middle, rfl, hfirst, hmore⟩ := ih result hrest
      exact ⟨a :: first, more, middle, rfl,
        ⟨rest result, by simp [advance, haction], hfirst⟩, hmore⟩

/-- A program that recovers and is done did not fail, or its error was
handled. -/
theorem takes_recover {program : Program ω σ ε α}
    {handler : ε → Program ω σ ε α} {value : α}
    (h : (program.recover handler).Takes i acts (.done value)) :
    program.Takes i acts (.done value) ∨
      ∃ first rest error, acts = first ++ rest ∧
        program.Takes i first (.failed error) ∧
        (handler error).Takes i rest (.done value) := by
  induction program generalizing acts with
  | done middle => exact .inl h
  | failed error => exact .inr ⟨[], acts, error, rfl, rfl, h⟩
  | atomic action rest ih =>
      obtain ⟨a, acts, result, rfl, haction, hrest⟩ := takes_atomic rfl h
      have hadvance : (Program.atomic action rest).advance i a.draw a.before =
          some (a.after, rest result) := by simp [advance, haction]
      rcases ih result hrest with hdone | ⟨first, more, error, rfl, hfails, hmore⟩
      · exact .inl ⟨rest result, hadvance, hdone⟩
      · exact .inr ⟨a :: first, more, error, rfl,
          ⟨rest result, hadvance, hfails⟩, hmore⟩

/-- A sequence has taken actions of its first part alone, or it has gone on with
the second. -/
theorem takes_bind_cases {program : Program ω σ ε α}
    {next : α → Program ω σ ε β} {body : Program ω σ ε β}
    (h : (program >>= next).Takes i acts body) :
    (∃ middle, program.Takes i acts middle) ∨
      ∃ first rest value, acts = first ++ rest ∧
        program.Takes i first (.done value) ∧
        (next value).Takes i rest body := by
  induction program generalizing acts with
  | done value => exact .inr ⟨[], acts, value, rfl, rfl, h⟩
  | failed error =>
      obtain ⟨rfl, -⟩ := takes_failed.mp h
      exact .inl ⟨.failed error, rfl⟩
  | atomic action rest ih =>
      cases acts with
      | nil => exact .inl ⟨.atomic action rest, rfl⟩
      | cons a acts =>
          obtain ⟨body', hadvance, hrest⟩ := h
          change (Program.atomic action fun result => rest result >>= next).advance
            i a.draw a.before = _ at hadvance
          simp only [advance] at hadvance
          cases haction : action i a.draw a.before with
          | none => simp [haction] at hadvance
          | some outcome =>
              obtain ⟨result, t⟩ := outcome
              simp only [haction, Option.some.injEq, Prod.mk.injEq] at hadvance
              obtain ⟨rfl, rfl⟩ := hadvance
              have hstep : (Program.atomic action rest).advance i a.draw
                  a.before = some (a.after, rest result) := by
                simp [advance, haction]
              rcases ih result hrest with
                ⟨middle, hmiddle⟩ | ⟨first, more, value, rfl, hfirst, hmore⟩
              · exact .inl ⟨middle, rest result, hstep, hmiddle⟩
              · exact .inr ⟨a :: first, more, value, rfl,
                  ⟨rest result, hstep, hfirst⟩, hmore⟩

/-- Every one of the actions keeps the fact. -/
def ActsKeep (fact : σ → Prop) (acts : List (Acted ω σ)) : Prop :=
  ∀ a ∈ acts, fact a.before → fact a.after

theorem ActsKeep.append {fact : σ → Prop} {more : List (Acted ω σ)}
    (h : ActsKeep fact acts) (hmore : ActsKeep fact more) :
    ActsKeep fact (acts ++ more) := by
  intro a ha
  rcases List.mem_append.mp ha with hfirst | hrest
  · exact h a hfirst
  · exact hmore a hrest

theorem Keeps.each {fact : σ → Prop} {program body : Program ω σ ε α}
    (h : program.Keeps fact) (htakes : program.Takes i acts body) :
    ActsKeep fact acts := by
  induction acts generalizing program with
  | nil => exact fun _ h => absurd h List.not_mem_nil
  | cons a acts ih =>
      obtain ⟨next, hadvance, hrest⟩ := htakes
      have hstep := h.advance hadvance
      exact List.forall_mem_cons.mpr ⟨hstep.1, ih hstep.2 hrest⟩

/-- What every action of a program keeps is kept by all that it comes to. -/
theorem Keeps.takes {fact : σ → Prop} {program body : Program ω σ ε α}
    (h : program.Keeps fact) (htakes : program.Takes i acts body) :
    body.Keeps fact := by
  induction acts generalizing program with
  | nil => exact takes_nil.mp htakes ▸ h
  | cons a acts ih =>
      obtain ⟨next, hadvance, hrest⟩ := htakes
      exact ih (h.advance hadvance).2 hrest

end Program

/-! ## Runs -/

/-- The action of request `i` that a move is, between these two states. -/
def Move.acted (i : ℕ) (before after : σ) : Move ρ ω η → Option (Acted ω σ)
  | .advance j w => if j = i then some ⟨w, before, after⟩ else none
  | _ => none

namespace System

variable {S : System ρ ω η σ ε α} {moves : List (Move ρ ω η)}
  {start pool later : Pool ρ ω σ ε α} {request : ρ}
  {body : Program ω σ ε α}

theorem acted_eq_some {move : Move ρ ω η} {s t : σ} {a : Acted ω σ} :
    move.acted i s t = some a ↔
      move = .advance i a.draw ∧ a.before = s ∧ a.after = t := by
  cases move with
  | advance j w =>
      rw [Move.acted, Option.ite_none_right_eq_some, Option.some.injEq]
      constructor
      · rintro ⟨rfl, rfl⟩
        exact ⟨rfl, rfl, rfl⟩
      · rintro ⟨hmove, rfl, rfl⟩
        obtain ⟨rfl, rfl⟩ := Move.advance.inj hmove
        exact ⟨rfl, rfl⟩
  | submit request => simp [Move.acted]
  | environment event => simp [Move.acted]

variable (S) in
/-- The actions of request `i` in a run. -/
def actionsOf (i : ℕ) :
    List (Move ρ ω η) → Pool ρ ω σ ε α → List (Acted ω σ)
  | [], _ => []
  | move :: rest, pool =>
      match S.perform move pool with
      | none => []
      | some next =>
          (move.acted i pool.state next.state).toList ++ actionsOf i rest next

theorem run_append {more : List (Move ρ ω η)} :
    S.run (moves ++ more) pool =
      (S.run moves pool).bind fun middle => S.run more middle := by
  induction moves generalizing pool with
  | nil => rfl
  | cons move rest ih =>
      simp only [List.cons_append, run]
      cases S.perform move pool with
      | none => rfl
      | some next => exact ih

theorem actionsOf_append {more : List (Move ρ ω η)}
    (hrun : S.run moves start = some pool) :
    S.actionsOf i (moves ++ more) start =
      S.actionsOf i moves start ++ S.actionsOf i more pool := by
  induction moves generalizing start with
  | nil =>
      simp only [run, Option.some.injEq] at hrun
      simp [actionsOf, hrun]
  | cons move rest ih =>
      simp only [run] at hrun
      cases hperform : S.perform move start with
      | none => simp [hperform] at hrun
      | some next =>
          rw [hperform] at hrun
          simp only [List.cons_append, actionsOf, hperform, ih hrun,
            List.append_assoc]

/-- A move that is no action of request `i` leaves its thread as it is. -/
theorem perform_thread {move : Move ρ ω η} {next : Pool ρ ω σ ε α}
    (hperform : S.perform move pool = some next)
    (hthread : pool.threads[i]? = some ⟨request, body⟩) :
    ∃ body', next.threads[i]? = some ⟨request, body'⟩ ∧
      body.Takes i (move.acted i pool.state next.state).toList body' := by
  rcases perform_cases hperform with
    ⟨other, rfl, rfl⟩ | ⟨j, w, actor, state, after, rfl, hactor, hadvance, rfl⟩ |
      ⟨event, rfl, rfl⟩
  · refine ⟨body, ?_, rfl⟩
    rw [List.getElem?_append_left (List.getElem?_eq_some_iff.mp hthread).1, hthread]
  · by_cases hji : j = i
    · subst hji
      obtain rfl := Option.some.inj (hthread.symm.trans hactor)
      refine ⟨after, ?_, ?_⟩
      · exact List.getElem?_set_self (List.getElem?_eq_some_iff.mp hthread).1
      · simp only [Move.acted, if_true, Option.toList_some]
        exact ⟨after, hadvance, rfl⟩
    · refine ⟨body, ?_, ?_⟩
      · rw [List.getElem?_set_ne hji, hthread]
      · simp only [Move.acted, if_neg hji, Option.toList_none]
        rfl
  · exact ⟨body, hthread, rfl⟩

/-- The thread of a request takes the actions that the run has of it. -/
theorem takes_of_run (hrun : S.run moves pool = some later)
    (hthread : pool.threads[i]? = some ⟨request, body⟩) :
    ∃ body', later.threads[i]? = some ⟨request, body'⟩ ∧
      body.Takes i (S.actionsOf i moves pool) body' := by
  induction moves generalizing pool body with
  | nil =>
      simp only [run, Option.some.injEq] at hrun
      exact ⟨body, hrun ▸ hthread, rfl⟩
  | cons move rest ih =>
      simp only [run] at hrun
      cases hperform : S.perform move pool with
      | none => simp [hperform] at hrun
      | some next =>
          rw [hperform] at hrun
          obtain ⟨middle, hmiddle, hfirst⟩ := perform_thread hperform hthread
          obtain ⟨body', hlater, hrest⟩ := ih hrun hmiddle
          refine ⟨body', hlater, ?_⟩
          simp only [actionsOf, hperform]
          exact Program.takes_append.mpr ⟨middle, hfirst, hrest⟩

/-- A request that is submitted in the run takes all its actions there. -/
theorem takes_of_submitted (hrun : S.run moves pool = some later)
    (hnone : pool.threads.length ≤ i)
    (hthread : later.threads[i]? = some ⟨request, body⟩) :
    (S.handler request).Takes i (S.actionsOf i moves pool) body := by
  induction moves generalizing pool with
  | nil =>
      simp only [run, Option.some.injEq] at hrun
      subst hrun
      have hlt := (List.getElem?_eq_some_iff.mp hthread).1
      omega
  | cons move rest ih =>
      simp only [run] at hrun
      cases hperform : S.perform move pool with
      | none => simp [hperform] at hrun
      | some next =>
          rw [hperform] at hrun
          simp only [actionsOf, hperform]
          rcases perform_cases hperform with
            ⟨other, rfl, rfl⟩ | ⟨j, w, actor, state, after, rfl, hactor, -, rfl⟩ |
              ⟨event, rfl, rfl⟩
          · simp only [Move.acted, Option.toList_none, List.nil_append]
            by_cases hi : i = pool.threads.length
            · subst hi
              have hnew : (pool.threads ++ [⟨other, S.handler other⟩])[
                  pool.threads.length]? = some ⟨other, S.handler other⟩ := by simp
              obtain ⟨body', hlater, htakes⟩ := takes_of_run hrun hnew
              obtain ⟨rfl, rfl⟩ :=
                Thread.mk.inj (Option.some.inj (hthread.symm.trans hlater))
              exact htakes
            · refine ih hrun ?_
              rw [List.length_append, List.length_singleton]
              omega
          · have hlt := (List.getElem?_eq_some_iff.mp hactor).1
            have hji : j ≠ i := by omega
            simp only [Move.acted, if_neg hji, Option.toList_none,
              List.nil_append]
            exact ih hrun (by rwa [List.length_set])
          · exact ih hrun hnone

/-! ### States along a run -/

/-- Every move keeps the pools within `I`, and from the state of such a pool it
leads on by `R`. -/
structure LeadsOn (S : System ρ ω η σ ε α) (I : Pool ρ ω σ ε α → Prop)
    (R : σ → σ → Prop) : Prop where
  keeps : ∀ {move pool next}, I pool → S.perform move pool = some next → I next
  moves : ∀ {move pool next}, I pool → S.perform move pool = some next →
    R pool.state next.state
  refl : ∀ s, R s s
  trans : ∀ {s t u}, R s t → R t u → R s u

variable {I : Pool ρ ω σ ε α → Prop} {R : σ → σ → Prop} {a : Acted ω σ}

theorem LeadsOn.run (h : S.LeadsOn I R) (hpool : I pool)
    (hrun : S.run moves pool = some later) :
    I later ∧ R pool.state later.state := by
  induction moves generalizing pool with
  | nil =>
      simp only [System.run, Option.some.injEq] at hrun
      exact hrun ▸ ⟨hpool, h.refl _⟩
  | cons move rest ih =>
      simp only [System.run] at hrun
      cases hperform : S.perform move pool with
      | none => simp [hperform] at hrun
      | some next =>
          rw [hperform] at hrun
          obtain ⟨hlater, hrest⟩ := ih (h.keeps hpool hperform) hrun
          exact ⟨hlater, h.trans (h.moves hpool hperform) hrest⟩

/-- Handlers whose every action leads on by `R` make runs that do. -/
theorem LeadsOn.of_keeps (hrefl : ∀ s, R s s)
    (htrans : ∀ {s t u}, R s t → R t u → R s u)
    (hhandler : ∀ s request, (S.handler request).Keeps (R s))
    (henvironment : ∀ event s, R s (S.environment event s)) :
    S.LeadsOn (fun pool => ∀ s (i : ℕ) (thread : Thread ρ ω σ ε α),
      pool.threads[i]? = some thread → thread.body.Keeps (R s)) R where
  keeps := by
    intro move pool next hthreads hperform s i thread hthread
    refine perform_threads (fun _ thread _ => thread.body.Keeps (R s))
      hperform ?_ ?_ ?_ (hthreads s) hthread
    · exact fun request _ => hhandler s request
    · intro j w actor state body hactor hadvance
      exact ⟨((hthreads s j actor hactor).advance hadvance).2,
        fun _ _ _ hother => hother⟩
    · exact fun _ _ _ hother => hother
  moves := by
    intro move pool next hthreads hperform
    rcases perform_cases hperform with
      ⟨request, -, rfl⟩ | ⟨j, w, actor, state, body, -, hactor, hadvance, rfl⟩ |
        ⟨event, -, rfl⟩
    · exact hrefl pool.state
    · exact ((hthreads pool.state j actor hactor).advance hadvance).1
        (hrefl pool.state)
    · exact henvironment event pool.state
  refl := hrefl
  trans := htrans

variable (S) in
/-- The fact holds in every state of a run. -/
def Throughout (fact : σ → Prop) :
    List (Move ρ ω η) → Pool ρ ω σ ε α → Prop
  | [], pool => fact pool.state
  | move :: rest, pool => fact pool.state ∧
      match S.perform move pool with
      | none => True
      | some next => Throughout fact rest next

instance Throughout.decide {fact : σ → Prop} [DecidablePred fact] :
    (moves : List (Move ρ ω η)) → (pool : Pool ρ ω σ ε α) →
      Decidable (S.Throughout fact moves pool)
  | [], pool => inferInstanceAs (Decidable (fact pool.state))
  | move :: rest, pool =>
      match hperform : S.perform move pool with
      | none => decidable_of_iff (fact pool.state)
          (by simp [Throughout, hperform])
      | some next =>
          have : Decidable (S.Throughout fact rest next) := decide rest next
          decidable_of_iff (fact pool.state ∧ S.Throughout fact rest next)
            (by simp [Throughout, hperform])

/-- Where an action of a run stands in it. -/
theorem exists_move_of_acted (hrun : S.run moves pool = some later)
    (hmem : a ∈ S.actionsOf i moves pool) :
    ∃ front back before after, moves = front ++ .advance i a.draw :: back ∧
      S.run front pool = some before ∧ before.state = a.before ∧
      S.perform (.advance i a.draw) before = some after ∧
      after.state = a.after ∧ S.run back after = some later := by
  induction moves generalizing pool with
  | nil => simp [actionsOf] at hmem
  | cons move rest ih =>
      simp only [System.run] at hrun
      cases hperform : S.perform move pool with
      | none => simp [hperform] at hrun
      | some next =>
          rw [hperform] at hrun
          simp only [actionsOf, hperform, List.mem_append, Option.mem_toList]
            at hmem
          rcases hmem with hhead | hrest
          · obtain ⟨rfl, hbefore, hafter⟩ := acted_eq_some.mp hhead
            exact ⟨[], rest, pool, next, rfl, rfl, hbefore.symm, hperform,
              hafter.symm, hrun⟩
          · obtain ⟨front, back, before, after, rfl, hfront, htail⟩ :=
              ih hrun hrest
            refine ⟨move :: front, back, before, after, rfl, ?_, htail⟩
            simp only [System.run, hperform]
            exact hfront

theorem Throughout.here {fact : σ → Prop}
    (h : S.Throughout fact moves pool) : fact pool.state := by
  cases moves with
  | nil => exact h
  | cons move rest => exact h.1

theorem Throughout.acted {fact : σ → Prop}
    (h : S.Throughout fact moves pool)
    (hrun : S.run moves pool = some later)
    (hmem : a ∈ S.actionsOf i moves pool) : fact a.before := by
  induction moves generalizing pool with
  | nil => simp [actionsOf] at hmem
  | cons move rest ih =>
      simp only [System.run] at hrun
      cases hperform : S.perform move pool with
      | none => simp [hperform] at hrun
      | some next =>
          simp only [Throughout, hperform] at h
          rw [hperform] at hrun
          simp only [actionsOf, hperform, List.mem_append, Option.mem_toList]
            at hmem
          rcases hmem with hhead | hrest
          · obtain ⟨-, hbefore, -⟩ := acted_eq_some.mp hhead
            exact hbefore ▸ h.1
          · exact ih h.2 hrun hrest

theorem LeadsOn.acted (h : S.LeadsOn I R) (hpool : I pool)
    (hrun : S.run moves pool = some later)
    (hmem : a ∈ S.actionsOf i moves pool) : R a.before a.after := by
  obtain ⟨front, back, before, after, -, hfront, hbefore, hperform, hafter, -⟩ :=
    exists_move_of_acted hrun hmem
  rw [← hbefore, ← hafter]
  exact h.moves (h.run hpool hfront).1 hperform

/-- The actions of one request follow each other. -/
theorem LeadsOn.pairwise (h : S.LeadsOn I R) (hpool : I pool)
    (hrun : S.run moves pool = some later) :
    (S.actionsOf i moves pool).Pairwise fun a b => R a.after b.before := by
  induction moves generalizing pool with
  | nil => exact List.Pairwise.nil
  | cons move rest ih =>
      simp only [System.run] at hrun
      cases hperform : S.perform move pool with
      | none => simp [hperform] at hrun
      | some next =>
          rw [hperform] at hrun
          have hnext := h.keeps hpool hperform
          simp only [actionsOf, hperform]
          refine List.pairwise_append.mpr ⟨?_, ih hnext hrun, ?_⟩
          · cases move.acted i pool.state next.state <;> simp
          · intro a ha b hb
            obtain ⟨front, back, before, after, rfl, hfront, hbefore, -⟩ :=
              exists_move_of_acted hrun hb
            obtain ⟨-, -, hafter⟩ := acted_eq_some.mp (Option.mem_toList.mp ha)
            rw [hafter, ← hbefore]
            exact (h.run hnext hfront).2

/-- What only request `i` itself can bring about is brought about by one of
its actions. -/
theorem exists_acted_of_mark (mark : σ → Prop)
    (hkeep : ∀ {move pool next}, I pool → S.perform move pool = some next → I next)
    (hothers : ∀ {move pool next}, I pool → S.perform move pool = some next →
      (∀ w, move ≠ .advance i w) → mark next.state → mark pool.state)
    (hpool : I pool) (hrun : S.run moves pool = some later)
    (hunmarked : ¬ mark pool.state) (hmark : mark later.state) :
    ∃ a ∈ S.actionsOf i moves pool, ¬ mark a.before ∧ mark a.after := by
  induction moves generalizing pool with
  | nil =>
      simp only [System.run, Option.some.injEq] at hrun
      exact absurd (hrun ▸ hmark) hunmarked
  | cons move rest ih =>
      simp only [System.run] at hrun
      cases hperform : S.perform move pool with
      | none => simp [hperform] at hrun
      | some next =>
          rw [hperform] at hrun
          simp only [actionsOf, hperform, List.mem_append, Option.mem_toList]
          by_cases hnext : mark next.state
          · by_cases hown : ∃ w, move = .advance i w
            · obtain ⟨w, rfl⟩ := hown
              exact ⟨⟨w, pool.state, next.state⟩, .inl (if_pos rfl), hunmarked,
                hnext⟩
            · exact absurd (hothers hpool hperform (fun w hw => hown ⟨w, hw⟩)
                hnext) hunmarked
          · obtain ⟨a, ha, hacted⟩ := ih (hkeep hpool hperform) hrun hnext
            exact ⟨a, .inr ha, hacted⟩

end System

end Interleaving
