import Mathlib.Logic.Basic
import Mathlib.Data.List.Basic

/-!
# Interleaved request programs

A request is a program whose steps are the atomic actions it awaits.  Any
number of requests run over one shared state, and a schedule picks which of
them acts next.  The logic of this file is rely-guarantee reasoning: a program
is checked alone, against what the others may do between two of its actions,
and the checked programs of a pool then never invalidate one another.

Nothing here depends on what the state or the requests are.
-/

namespace Interleaving

/-- A program sees its request number, an outcome chosen by the surroundings
and the shared state; an action that returns `none` has to wait. -/
inductive Program (ω σ ε α : Type) : Type 1 where
  | done (value : α)
  | failed (error : ε)
  | atomic {β : Type} (action : ℕ → ω → σ → Option (β × σ))
      (next : β → Program ω σ ε α)

namespace Program

variable {ω σ ε α β γ : Type}

protected def bind :
    Program ω σ ε α → (α → Program ω σ ε β) → Program ω σ ε β
  | .done value, next => next value
  | .failed error, _ => .failed error
  | .atomic action rest, next =>
      .atomic action fun result => (rest result).bind next

def recover :
    Program ω σ ε α → (ε → Program ω σ ε α) → Program ω σ ε α
  | .done value, _ => .done value
  | .failed error, handler => handler error
  | .atomic action rest, handler =>
      .atomic action fun result => (rest result).recover handler

instance : Monad (Program ω σ ε) where
  pure := .done
  bind := Program.bind

instance : MonadExcept ε (Program ω σ ε) where
  throw := .failed
  tryCatch := recover

/-- A single action that always leaves a result. -/
def act (action : ℕ → ω → σ → Option (β × σ)) : Program ω σ ε β :=
  .atomic action .done

/-- One action of request `i` under the outcome `w`. -/
def advance (i : ℕ) (w : ω) (s : σ) :
    Program ω σ ε α → Option (σ × Program ω σ ε α)
  | .done _ => none
  | .failed _ => none
  | .atomic action next =>
      match action i w s with
      | none => none
      | some (result, s') => some (s', next result)

/-- The program has a result or an error. -/
def ended : Program ω σ ε α → Bool
  | .atomic _ _ => false
  | _ => true

theorem eq_of_ended {program : Program ω σ ε α} (hended : program.ended = true) :
    (∃ value, program = .done value) ∨ ∃ error, program = .failed error := by
  cases program with
  | done value => exact .inl ⟨value, rfl⟩
  | failed error => exact .inr ⟨error, rfl⟩
  | atomic action next => contradiction

/-- The program run with nobody else acting. -/
def runAlone (i : ℕ) (w : ω) : Program ω σ ε α → σ → Option (Except ε α × σ)
  | .done value, s => some (.ok value, s)
  | .failed error, s => some (.error error, s)
  | .atomic action next, s =>
      match action i w s with
      | none => none
      | some (result, s') => (next result).runAlone i w s'

@[simp] theorem pure_eq_done (value : α) :
    (pure value : Program ω σ ε α) = .done value := rfl

@[simp] theorem throw_eq_failed (error : ε) :
    (throw error : Program ω σ ε α) = .failed error := rfl

@[simp] theorem tryCatch_eq_recover
    (program : Program ω σ ε α) (handler : ε → Program ω σ ε α) :
    tryCatch program handler = program.recover handler := rfl

@[simp] theorem done_bind (value : α) (next : α → Program ω σ ε β) :
    (Program.done value : Program ω σ ε α) >>= next = next value := rfl

@[simp] theorem failed_bind (error : ε) (next : α → Program ω σ ε β) :
    (Program.failed error : Program ω σ ε α) >>= next = .failed error := rfl

@[simp] theorem atomic_bind
    (action : ℕ → ω → σ → Option (γ × σ)) (rest : γ → Program ω σ ε α)
    (next : α → Program ω σ ε β) :
    (Program.atomic action rest) >>= next =
      .atomic action fun result => rest result >>= next := rfl

@[simp] theorem act_bind
    (action : ℕ → ω → σ → Option (β × σ)) (next : β → Program ω σ ε α) :
    act action >>= next = .atomic action next := rfl

theorem runAlone_bind
    (i : ℕ) (w : ω) (program : Program ω σ ε α)
    (next : α → Program ω σ ε β) (s : σ) :
    (program >>= next).runAlone i w s =
      match program.runAlone i w s with
      | none => none
      | some (.ok value, s') => (next value).runAlone i w s'
      | some (.error error, s') => some (.error error, s') := by
  induction program generalizing s with
  | done value => rfl
  | failed error => rfl
  | atomic action rest ih =>
      simp only [atomic_bind, runAlone]
      cases action i w s with
      | none => rfl
      | some outcome => exact ih outcome.1 outcome.2

theorem runAlone_recover
    (i : ℕ) (w : ω) (program : Program ω σ ε α)
    (handler : ε → Program ω σ ε α) (s : σ) :
    (program.recover handler).runAlone i w s =
      match program.runAlone i w s with
      | none => none
      | some (.ok value, s') => some (.ok value, s')
      | some (.error error, s') => (handler error).runAlone i w s' := by
  induction program generalizing s with
  | done value => rfl
  | failed error => rfl
  | atomic action rest ih =>
      simp only [recover, runAlone]
      cases action i w s with
      | none => rfl
      | some outcome => exact ih outcome.1 outcome.2

/-- Run alone, the program ends with this value in this state. -/
def Returns (program : Program ω σ ε α) (i : ℕ) (w : ω) (s : σ) (value : α)
    (s' : σ) : Prop :=
  program.runAlone i w s = some (.ok value, s')

@[simp] theorem returns_done {i : ℕ} {w : ω} {s s' : σ} {value value' : α} :
    (Program.done value : Program ω σ ε α).Returns i w s value' s' ↔
      value = value' ∧ s = s' := by
  simp [Returns, runAlone]

@[simp] theorem not_returns_failed {i : ℕ} {w : ω} {s s' : σ} {error : ε}
    {value : α} :
    ¬ (Program.failed error : Program ω σ ε α).Returns i w s value s' := by
  simp [Returns, runAlone]

theorem returns_bind {i : ℕ} {w : ω} {s s' : σ} {program : Program ω σ ε α}
    {next : α → Program ω σ ε β} {value : β} :
    (program >>= next).Returns i w s value s' ↔
      ∃ middle t, program.Returns i w s middle t ∧
        (next middle).Returns i w t value s' := by
  simp only [Returns, runAlone_bind]
  cases program.runAlone i w s with
  | none => simp
  | some outcome =>
      obtain ⟨result, t⟩ := outcome
      cases result <;> simp

/-- A handler that always fails recovers nothing. -/
theorem returns_recover_failed {i : ℕ} {w : ω} {s s' : σ}
    {program : Program ω σ ε α} {error : ε → ε} {value : α} :
    (program.recover fun e => .failed (error e)).Returns i w s value s' ↔
      program.Returns i w s value s' := by
  simp only [Returns, runAlone_recover]
  cases program.runAlone i w s with
  | none => simp
  | some outcome =>
      obtain ⟨result, t⟩ := outcome
      cases result <;> simp [runAlone]

/-! ### Programs that never wait -/

/-- From a free state on the program has at most `n` actions, and none of them
has to wait or ends the freedom. -/
def Finishes (free : σ → Prop) : ℕ → Program ω σ ε α → Prop
  | _, .done _ => True
  | _, .failed _ => True
  | 0, .atomic _ _ => False
  | n + 1, .atomic action next =>
      (∀ i w s, free s → ∃ result s', action i w s = some (result, s') ∧
        free s') ∧
      ∀ result, (next result).Finishes free n

section Finishes

variable {free : σ → Prop} {n k : ℕ}

theorem finishes_done (value : α) :
    (Program.done value : Program ω σ ε α).Finishes free n := by
  cases n <;> trivial

theorem finishes_failed (error : ε) :
    (Program.failed error : Program ω σ ε α).Finishes free n := by
  cases n <;> trivial

theorem Finishes.mono {program : Program ω σ ε α}
    (h : program.Finishes free n) (hle : n ≤ k) :
    program.Finishes free k := by
  induction program generalizing n k with
  | done value => exact finishes_done value
  | failed error => exact finishes_failed error
  | atomic action rest ih =>
      cases n with
      | zero => exact h.elim
      | succ n =>
          obtain ⟨k, rfl⟩ := Nat.exists_eq_add_of_lt (Nat.lt_of_succ_le hle)
          refine ⟨h.1, fun result => ih result (h.2 result) ?_⟩
          omega

theorem Finishes.bind {program : Program ω σ ε α}
    {next : α → Program ω σ ε β} (h : program.Finishes free n)
    (hnext : ∀ value, (next value).Finishes free k) :
    (program >>= next).Finishes free (k + n) := by
  induction program generalizing n with
  | done value => exact (hnext value).mono (Nat.le_add_right k n)
  | failed error => exact finishes_failed error
  | atomic action rest ih =>
      cases n with
      | zero => exact h.elim
      | succ n => exact ⟨h.1, fun result => ih result (h.2 result)⟩

theorem Finishes.recover {program : Program ω σ ε α}
    {handler : ε → Program ω σ ε α} (h : program.Finishes free n)
    (hhandler : ∀ error, (handler error).Finishes free k) :
    (program.recover handler).Finishes free (k + n) := by
  induction program generalizing n with
  | done value => exact finishes_done value
  | failed error => exact (hhandler error).mono (Nat.le_add_right k n)
  | atomic action rest ih =>
      cases n with
      | zero => exact h.elim
      | succ n => exact ⟨h.1, fun result => ih result (h.2 result)⟩

theorem Finishes.advance {i : ℕ} {w : ω} {s s' : σ}
    {program body : Program ω σ ε α} (h : program.Finishes free n)
    (hfree : free s) (hadvance : program.advance i w s = some (s', body)) :
    free s' ∧ body.Finishes free n := by
  cases program with
  | done value => simp [Program.advance] at hadvance
  | failed error => simp [Program.advance] at hadvance
  | atomic action rest =>
      cases n with
      | zero => exact h.elim
      | succ n =>
          obtain ⟨result, t, haction, hfree'⟩ := h.1 i w s hfree
          simp only [Program.advance, haction, Option.some.injEq,
            Prod.mk.injEq] at hadvance
          obtain ⟨rfl, rfl⟩ := hadvance
          exact ⟨hfree', (h.2 result).mono (Nat.le_succ n)⟩

end Finishes

end Program

/-! ## Rely and guarantee -/

/-- What request `i` may do, what the others may do to it meanwhile, and what
holds between any two actions. -/
structure Discipline (σ : Type) where
  invariant : σ → Prop
  rely : ℕ → σ → σ → Prop
  guarantee : ℕ → σ → σ → Prop
  rely_refl : ∀ i s, rely i s s
  rely_trans : ∀ {i s t u}, rely i s t → rely i t u → rely i s u
  guarantee_rely : ∀ {i j s t}, i ≠ j → guarantee i s t → rely j s t
  guarantee_invariant : ∀ {i s t}, guarantee i s t → invariant s → invariant t

variable {ω σ ε α β γ : Type}

/-- From this state on, every action of the program keeps the guarantee, a
result satisfies `post` and an error satisfies `fail`, whatever the others do
in between within the rely. -/
def Program.Meets (D : Discipline σ) (i : ℕ)
    (post : α → σ → Prop) (fail : ε → σ → Prop) :
    Program ω σ ε α → σ → Prop
  | .done value, s => ∀ t, D.rely i s t → D.invariant t → post value t
  | .failed error, s => ∀ t, D.rely i s t → D.invariant t → fail error t
  | .atomic action next, s =>
      ∀ t, D.rely i s t → D.invariant t →
        ∀ w result u, action i w t = some (result, u) →
          D.guarantee i t u ∧ (next result).Meets D i post fail u

namespace Program.Meets

variable {D : Discipline σ} {i : ℕ}
  {post post' : α → σ → Prop} {fail fail' : ε → σ → Prop}

theorem later {program : Program ω σ ε α} {s t : σ}
    (hmeets : program.Meets D i post fail s) (hrely : D.rely i s t) :
    program.Meets D i post fail t := by
  cases program with
  | done value => exact fun u hu => hmeets u (D.rely_trans hrely hu)
  | failed error => exact fun u hu => hmeets u (D.rely_trans hrely hu)
  | atomic action next => exact fun u hu => hmeets u (D.rely_trans hrely hu)

/-- It is enough to check a program from where it will act next. -/
theorem of_later {program : Program ω σ ε α} {s : σ}
    (hlater : ∀ t, D.rely i s t → D.invariant t →
      program.Meets D i post fail t) :
    program.Meets D i post fail s := by
  cases program with
  | done value =>
      exact fun t ht hinvariant =>
        hlater t ht hinvariant t (D.rely_refl i t) hinvariant
  | failed error =>
      exact fun t ht hinvariant =>
        hlater t ht hinvariant t (D.rely_refl i t) hinvariant
  | atomic action next =>
      exact fun t ht hinvariant =>
        hlater t ht hinvariant t (D.rely_refl i t) hinvariant

theorem mono {program : Program ω σ ε α} {s : σ}
    (hmeets : program.Meets D i post fail s)
    (hpost : ∀ value t, post value t → post' value t)
    (hfail : ∀ error t, fail error t → fail' error t) :
    program.Meets D i post' fail' s := by
  induction program generalizing s with
  | done value =>
      exact fun t ht hinvariant => hpost value t (hmeets t ht hinvariant)
  | failed error =>
      exact fun t ht hinvariant => hfail error t (hmeets t ht hinvariant)
  | atomic action next ih =>
      intro t ht hinvariant w result u haction
      obtain ⟨hguarantee, hnext⟩ := hmeets t ht hinvariant w result u haction
      exact ⟨hguarantee, ih result hnext⟩

theorem bind {program : Program ω σ ε α} {next : α → Program ω σ ε β}
    {post : β → σ → Prop} {s : σ}
    (hmeets : program.Meets D i
      (fun value t => (next value).Meets D i post fail t) fail s) :
    (program >>= next).Meets D i post fail s := by
  induction program generalizing s with
  | done value => exact of_later hmeets
  | failed error => exact hmeets
  | atomic action rest ih =>
      intro t ht hinvariant w result u haction
      obtain ⟨hguarantee, hrest⟩ := hmeets t ht hinvariant w result u haction
      exact ⟨hguarantee, ih result hrest⟩

theorem recover {program : Program ω σ ε α}
    {handler : ε → Program ω σ ε α} {s : σ}
    (hmeets : program.Meets D i post
      (fun error t => (handler error).Meets D i post fail t) s) :
    (program.recover handler).Meets D i post fail s := by
  induction program generalizing s with
  | done value => exact hmeets
  | failed error => exact of_later hmeets
  | atomic action rest ih =>
      intro t ht hinvariant w result u haction
      obtain ⟨hguarantee, hrest⟩ := hmeets t ht hinvariant w result u haction
      exact ⟨hguarantee, ih result hrest⟩

/-- Sequencing, with a stated assertion between the two programs. -/
theorem seq (middle : α → σ → Prop) {program : Program ω σ ε α}
    {next : α → Program ω σ ε β} {post : β → σ → Prop} {s : σ}
    (hmeets : program.Meets D i middle fail s)
    (hnext : ∀ value t, middle value t →
      (next value).Meets D i post fail t) :
    (program >>= next).Meets D i post fail s :=
  bind (hmeets.mono hnext fun _ _ h => h)

/-- Recovery, with a stated assertion about the errors that are caught. -/
theorem caught (middle : ε → σ → Prop) {program : Program ω σ ε α}
    {handler : ε → Program ω σ ε α} {s : σ}
    (hmeets : program.Meets D i post middle s)
    (hhandler : ∀ error t, middle error t →
      (handler error).Meets D i post fail t) :
    (program.recover handler).Meets D i post fail s :=
  recover (hmeets.mono (fun _ _ h => h) hhandler)

/-- A fact that neither the others nor the program itself undo is still there
at the end. -/
theorem frame {program : Program ω σ ε α} {s : σ} (fact : σ → Prop)
    (hrely : ∀ {s t}, D.rely i s t → fact s → fact t)
    (hguarantee : ∀ {s t}, D.guarantee i s t → fact s → fact t)
    (hmeets : program.Meets D i post fail s) (hfact : fact s) :
    program.Meets D i (fun value t => post value t ∧ fact t)
      (fun error t => fail error t ∧ fact t) s := by
  induction program generalizing s with
  | done value =>
      exact fun t ht hinvariant => ⟨hmeets t ht hinvariant, hrely ht hfact⟩
  | failed error =>
      exact fun t ht hinvariant => ⟨hmeets t ht hinvariant, hrely ht hfact⟩
  | atomic action next ih =>
      intro t ht hinvariant w result u haction
      obtain ⟨hguaranteed, hnext⟩ := hmeets t ht hinvariant w result u haction
      exact ⟨hguaranteed, ih result hnext
        (hguarantee hguaranteed (hrely ht hfact))⟩

/-- What holds under one discipline holds under another one that relies on
more and allows the same actions, with a fact that these actions keep. -/
theorem transfer {D' : Discipline σ} {program : Program ω σ ε α} {s : σ}
    (fact : σ → Prop)
    (hinvariant : ∀ {s}, D'.invariant s → D.invariant s)
    (hrely : ∀ {s t}, D'.rely i s t → D.rely i s t)
    (hguarantee : ∀ {s t}, D.guarantee i s t → D'.guarantee i s t)
    (hfactRely : ∀ {s t}, D'.rely i s t → fact s → fact t)
    (hfactGuarantee : ∀ {s t}, D.guarantee i s t → fact s → fact t)
    (hmeets : program.Meets D i post fail s) (hfact : fact s) :
    program.Meets D' i (fun value t => post value t ∧ fact t)
      (fun error t => fail error t ∧ fact t) s := by
  induction program generalizing s with
  | done value =>
      intro t ht hinv
      exact ⟨hmeets t (hrely ht) (hinvariant hinv), hfactRely ht hfact⟩
  | failed error =>
      intro t ht hinv
      exact ⟨hmeets t (hrely ht) (hinvariant hinv), hfactRely ht hfact⟩
  | atomic action next ih =>
      intro t ht hinv w result u haction
      obtain ⟨hguaranteed, hnext⟩ :=
        hmeets t (hrely ht) (hinvariant hinv) w result u haction
      exact ⟨hguarantee hguaranteed, ih result hnext
        (hfactGuarantee hguaranteed (hfactRely ht hfact))⟩

theorem done {value : α} {s : σ}
    (hpost : ∀ t, D.rely i s t → D.invariant t → post value t) :
    (Program.done value : Program ω σ ε α).Meets D i post fail s := hpost

theorem failed {error : ε} {s : σ}
    (hfail : ∀ t, D.rely i s t → D.invariant t → fail error t) :
    (Program.failed error : Program ω σ ε α).Meets D i post fail s := hfail

theorem advance {w : ω} {s t : σ} {program body : Program ω σ ε α}
    (hmeets : program.Meets D i post fail s) (hinvariant : D.invariant s)
    (hadvance : program.advance i w s = some (t, body)) :
    D.guarantee i s t ∧ body.Meets D i post fail t := by
  cases program with
  | done value => simp [Program.advance] at hadvance
  | failed error => simp [Program.advance] at hadvance
  | atomic action rest =>
      simp only [Program.advance] at hadvance
      cases haction : action i w s with
      | none => simp [haction] at hadvance
      | some outcome =>
          obtain ⟨result, u⟩ := outcome
          simp only [haction, Option.some.injEq, Prod.mk.injEq] at hadvance
          obtain ⟨rfl, rfl⟩ := hadvance
          exact hmeets s (D.rely_refl i s) hinvariant w result u haction

end Program.Meets

/-- The discipline in which an action also stays within the rights that its
request has. -/
def Discipline.within (D : Discipline σ) (rights : ℕ → σ → σ → Prop) :
    Discipline σ where
  invariant := D.invariant
  rely := D.rely
  guarantee i s t := D.guarantee i s t ∧ rights i s t
  rely_refl := D.rely_refl
  rely_trans := D.rely_trans
  guarantee_rely hne h := D.guarantee_rely hne h.1
  guarantee_invariant h := D.guarantee_invariant h.1

/-- Rights that allow everything are no restriction. -/
theorem Program.Meets.within {D : Discipline σ} {i : ℕ}
    {post : α → σ → Prop} {fail : ε → σ → Prop} {rights : ℕ → σ → σ → Prop}
    {program : Program ω σ ε α} {s : σ} (hrights : ∀ s t, rights i s t)
    (hmeets : program.Meets D i post fail s) :
    program.Meets (D.within rights) i post fail s := by
  induction program generalizing s with
  | done value => exact hmeets
  | failed error => exact hmeets
  | atomic action next ih =>
      intro t ht hinvariant w result u haction
      obtain ⟨hguarantee, hnext⟩ := hmeets t ht hinvariant w result u haction
      exact ⟨⟨hguarantee, hrights t u⟩, ih result hnext⟩

/-! ## Pools of requests -/

structure Thread (ρ ω σ ε α : Type) where
  request : ρ
  body : Program ω σ ε α

structure Pool (ρ ω σ ε α : Type) where
  state : σ
  threads : List (Thread ρ ω σ ε α)

inductive Move (ρ ω η : Type) where
  | submit (request : ρ)
  | advance (i : ℕ) (w : ω)
  | environment (event : η)

/-- The request that a move submits. -/
def Move.submitted {ρ η : Type} : Move ρ ω η → Option ρ
  | .submit request => some request
  | _ => none

namespace Pool

variable {ρ : Type}

/-- The request and the result of a thread that is done. -/
def answer (pool : Pool ρ ω σ ε α) (i : ℕ) : Option (ρ × α) :=
  match pool.threads[i]? with
  | some ⟨request, .done value⟩ => some (request, value)
  | _ => none

/-- The request and the error of a thread that has failed. -/
def refusal (pool : Pool ρ ω σ ε α) (i : ℕ) : Option (ρ × ε) :=
  match pool.threads[i]? with
  | some ⟨request, .failed error⟩ => some (request, error)
  | _ => none

variable {pool : Pool ρ ω σ ε α} {i : ℕ} {request : ρ}

theorem thread_of_answer {value : α}
    (hanswer : pool.answer i = some (request, value)) :
    pool.threads[i]? = some ⟨request, .done value⟩ := by
  unfold answer at hanswer
  split at hanswer
  · next hthread =>
      simp only [Option.some.injEq, Prod.mk.injEq] at hanswer
      obtain ⟨rfl, rfl⟩ := hanswer
      exact hthread
  · contradiction

def answers [DecidableEq ρ] (pool : Pool ρ ω σ ε α) (i : ℕ) (request : ρ) :
    Bool :=
  (pool.answer i).any fun answer => answer.1 = request

theorem done_of_answers [DecidableEq ρ]
    (hanswers : pool.answers i request = true) :
    ∃ value, pool.threads[i]? = some ⟨request, .done value⟩ := by
  obtain ⟨⟨other, value⟩, hanswer, hrequest⟩ :=
    (Option.any_eq_true _ _).mp hanswers
  rw [decide_eq_true_eq] at hrequest
  subst hrequest
  exact ⟨value, thread_of_answer hanswer⟩

theorem thread_of_refusal {error : ε}
    (hrefusal : pool.refusal i = some (request, error)) :
    pool.threads[i]? = some ⟨request, .failed error⟩ := by
  unfold refusal at hrefusal
  split at hrefusal
  · next hthread =>
      simp only [Option.some.injEq, Prod.mk.injEq] at hrefusal
      obtain ⟨rfl, rfl⟩ := hrefusal
      exact hthread
  · contradiction

end Pool

/-- Which program answers a request, and what happens outside all requests. -/
structure System (ρ ω η σ ε α : Type) where
  handler : ρ → Program ω σ ε α
  environment : η → σ → σ

namespace System

variable {ρ η : Type} (S : System ρ ω η σ ε α)

def perform (move : Move ρ ω η) (pool : Pool ρ ω σ ε α) :
    Option (Pool ρ ω σ ε α) :=
  match move with
  | .submit request =>
      some ⟨pool.state, pool.threads ++ [⟨request, S.handler request⟩]⟩
  | .advance i w =>
      match pool.threads[i]? with
      | none => none
      | some thread =>
          match thread.body.advance i w pool.state with
          | none => none
          | some (state, body) =>
              some ⟨state, pool.threads.set i ⟨thread.request, body⟩⟩
  | .environment event => some ⟨S.environment event pool.state, pool.threads⟩

/-- The pool after a list of moves, unless one of them is not possible. -/
def run : List (Move ρ ω η) → Pool ρ ω σ ε α → Option (Pool ρ ω σ ε α)
  | [], pool => some pool
  | move :: rest, pool =>
      match S.perform move pool with
      | none => none
      | some next => run rest next

/-- Reachability by any moves, where a request is submitted only in a state
that admits it. -/
inductive Reaches (admits : ρ → σ → Prop) (start : Pool ρ ω σ ε α) :
    Pool ρ ω σ ε α → Prop where
  | refl : Reaches admits start start
  | step {pool next : Pool ρ ω σ ε α} {move : Move ρ ω η}
      (hreach : Reaches admits start pool)
      (hadmits : ∀ request, move = .submit request → admits request pool.state)
      (hperform : S.perform move pool = some next) :
      Reaches admits start next

variable {S} {admits : ρ → σ → Prop} {start pool next : Pool ρ ω σ ε α}

theorem Reaches.weaken {admits' : ρ → σ → Prop}
    (hweaker : ∀ request s, admits request s → admits' request s)
    (hreach : S.Reaches admits start pool) :
    S.Reaches admits' start pool := by
  induction hreach with
  | refl => exact .refl
  | step _ hadmits hperform ih =>
      exact .step ih
        (fun request hmove => hweaker _ _ (hadmits request hmove)) hperform

theorem Reaches.trans {middle : Pool ρ ω σ ε α}
    (hreach : S.Reaches admits start middle)
    (hreach' : S.Reaches admits middle pool) :
    S.Reaches admits start pool := by
  induction hreach' with
  | refl => exact hreach
  | step _ hadmits hperform ih => exact .step ih hadmits hperform

theorem Reaches.run {moves : List (Move ρ ω η)}
    {middle : Pool ρ ω σ ε α}
    (hreach : S.Reaches admits start middle)
    (hadmits : ∀ request ∈ moves.filterMap Move.submitted, ∀ s,
      admits request s)
    (hrun : S.run moves middle = some pool) :
    S.Reaches admits start pool := by
  induction moves generalizing middle with
  | nil =>
      simp only [System.run, Option.some.injEq] at hrun
      exact hrun ▸ hreach
  | cons move rest ih =>
      simp only [System.run] at hrun
      cases hperform : S.perform move middle with
      | none => simp [hperform] at hrun
      | some after =>
          rw [hperform] at hrun
          refine ih (.step hreach (fun request hmove => ?_) hperform)
            (fun request hmem => hadmits request ?_) hrun
          · exact hadmits request (List.mem_filterMap.mpr
              ⟨move, List.mem_cons_self, hmove ▸ rfl⟩) _
          · obtain ⟨other, hother, hsubmitted⟩ := List.mem_filterMap.mp hmem
            exact List.mem_filterMap.mpr
              ⟨other, List.mem_cons_of_mem _ hother, hsubmitted⟩

/-- A run whose requests are admitted in every state reaches a pool that
passes the check. -/
theorem exists_admitted_of_run {moves : List (Move ρ ω η)}
    {check : Pool ρ ω σ ε α → Bool}
    (hadmits : ∀ request ∈ moves.filterMap Move.submitted, ∀ s,
      admits request s)
    (hrun : (S.run moves start).any check = true) :
    ∃ pool, S.Reaches admits start pool ∧ check pool = true := by
  obtain ⟨pool, hpool, hcheck⟩ := (Option.any_eq_true _ _).mp hrun
  exact ⟨pool, Reaches.refl.run hadmits hpool, hcheck⟩

theorem exists_reaches_of_run {moves : List (Move ρ ω η)}
    {check : Pool ρ ω σ ε α → Bool}
    (hrun : (S.run moves start).any check = true) :
    ∃ pool, S.Reaches (fun _ _ => True) start pool ∧ check pool = true :=
  exists_admitted_of_run (fun _ _ _ => trivial) hrun

/-- The only three things a move can do to a pool. -/
theorem perform_cases {move : Move ρ ω η}
    (hperform : S.perform move pool = some next) :
    (∃ request, move = .submit request ∧
      next = ⟨pool.state, pool.threads ++ [⟨request, S.handler request⟩]⟩) ∨
    (∃ i w thread state body, move = .advance i w ∧
      pool.threads[i]? = some thread ∧
      thread.body.advance i w pool.state = some (state, body) ∧
      next = ⟨state, pool.threads.set i ⟨thread.request, body⟩⟩) ∨
    (∃ event, move = .environment event ∧
      next = ⟨S.environment event pool.state, pool.threads⟩) := by
  cases move with
  | submit request =>
      simp only [perform, Option.some.injEq] at hperform
      exact .inl ⟨request, rfl, hperform.symm⟩
  | advance i w =>
      simp only [perform] at hperform
      cases hthread : pool.threads[i]? with
      | none => simp [hthread] at hperform
      | some thread =>
          simp only [hthread] at hperform
          cases hadvance : thread.body.advance i w pool.state with
          | none => simp [hadvance] at hperform
          | some outcome =>
              obtain ⟨state, body⟩ := outcome
              simp only [hadvance, Option.some.injEq] at hperform
              exact .inr (.inl
                ⟨i, w, thread, state, body, rfl, hthread, hadvance,
                  hperform.symm⟩)
  | environment event =>
      simp only [perform, Option.some.injEq] at hperform
      exact .inr (.inr ⟨event, rfl, hperform.symm⟩)

/-- What every thread shows at its state is kept by a move: a new thread shows
it, the thread that acts still shows it, and no other one stops to. -/
theorem perform_threads (fine : ℕ → Thread ρ ω σ ε α → σ → Prop)
    {move : Move ρ ω η} (hperform : S.perform move pool = some next)
    (hsubmit : ∀ request, move = .submit request →
      fine pool.threads.length ⟨request, S.handler request⟩ pool.state)
    (hadvance : ∀ i w thread state body, pool.threads[i]? = some thread →
      thread.body.advance i w pool.state = some (state, body) →
      fine i ⟨thread.request, body⟩ state ∧
        ∀ j other, j ≠ i → fine j other pool.state → fine j other state)
    (henvironment : ∀ event j other, fine j other pool.state →
      fine j other (S.environment event pool.state))
    (hthreads : ∀ i thread, pool.threads[i]? = some thread →
      fine i thread pool.state)
    {i : ℕ} {thread : Thread ρ ω σ ε α}
    (hthread : next.threads[i]? = some thread) : fine i thread next.state := by
  rcases perform_cases hperform with
    ⟨request, hmove, rfl⟩ | ⟨j, w, actor, state, body, -, hactor, hstep, rfl⟩ |
      ⟨event, -, rfl⟩
  · rw [List.getElem?_append] at hthread
    split at hthread
    · exact hthreads i thread hthread
    · simp only [List.getElem?_singleton, Option.ite_none_right_eq_some,
        Option.some.injEq] at hthread
      obtain ⟨hzero, rfl⟩ := hthread
      have hi : i = pool.threads.length := by omega
      exact hi ▸ hsubmit request hmove
  · obtain ⟨hself, hothers⟩ := hadvance j w actor state body hactor hstep
    by_cases hij : j = i
    · subst hij
      rw [List.getElem?_set_self (List.getElem?_eq_some_iff.mp hactor).1,
        Option.some.injEq] at hthread
      exact hthread ▸ hself
    · rw [List.getElem?_set_ne hij] at hthread
      exact hothers i thread (Ne.symm hij) (hthreads i thread hthread)
  · exact henvironment event i thread (hthreads i thread hthread)

/-- Handlers that never wait in a free state keep every reachable pool free,
with a bounded number of actions left to each thread. -/
theorem Reaches.finishes {free : σ → Prop} {n : ℕ}
    (hreach : S.Reaches admits start pool) (hstart : start.threads = [])
    (hfree : free start.state)
    (hhandler : ∀ request, (S.handler request).Finishes free n)
    (henvironment : ∀ event {s}, free s → free (S.environment event s)) :
    free pool.state ∧ ∀ (i : ℕ) (thread : Thread ρ ω σ ε α),
      pool.threads[i]? = some thread → thread.body.Finishes free n := by
  induction hreach with
  | refl => exact ⟨hfree, by simp [hstart]⟩
  | step _ _ hperform ih =>
      obtain ⟨hfree', hthreads⟩ := ih
      constructor
      · rcases perform_cases hperform with
          ⟨request, -, rfl⟩ |
            ⟨i, w, thread, state, body, -, hthread, hadvance, rfl⟩ |
              ⟨event, -, rfl⟩
        · exact hfree'
        · exact ((hthreads i thread hthread).advance hfree' hadvance).1
        · exact henvironment event hfree'
      · intro i thread hthread
        refine perform_threads (fun _ thread _ => thread.body.Finishes free n)
          hperform ?_ ?_ ?_ hthreads hthread
        · exact fun request _ => hhandler request
        · intro j w actor state body hactor hadvance
          exact ⟨((hthreads j actor hactor).advance hfree' hadvance).2,
            fun _ _ _ hother => hother⟩
        · exact fun _ _ _ hother => hother

/-! ## Pools whose handlers are sound -/

/-- Every admitted request meets its outcome assertions, and the surroundings
stay within what every request relies on. -/
structure Sound (S : System ρ ω η σ ε α) (D : Discipline σ)
    (admits : ρ → σ → Prop) (post : ρ → ℕ → α → σ → Prop)
    (fail : ρ → ℕ → ε → σ → Prop) : Prop where
  handler_meets : ∀ request i s, admits request s →
    (S.handler request).Meets D i (post request i) (fail request i) s
  environment_rely : ∀ event i s, D.rely i s (S.environment event s)
  environment_invariant : ∀ event s, D.invariant s →
    D.invariant (S.environment event s)

section Sound

variable {D : Discipline σ} {post : ρ → ℕ → α → σ → Prop}
  {fail : ρ → ℕ → ε → σ → Prop}

/-- The invariant holds and every request is still on its way to its
outcome. -/
structure OnCourse (D : Discipline σ) (post : ρ → ℕ → α → σ → Prop)
    (fail : ρ → ℕ → ε → σ → Prop) (pool : Pool ρ ω σ ε α) : Prop where
  invariant : D.invariant pool.state
  meets : ∀ i (thread : Thread ρ ω σ ε α), pool.threads[i]? = some thread →
    thread.body.Meets D i (post thread.request i) (fail thread.request i)
      pool.state

theorem OnCourse.outcome (h : OnCourse D post fail pool)
    {i : ℕ} {request : ρ} {value : α}
    (hthread : pool.threads[i]? = some ⟨request, .done value⟩) :
    post request i value pool.state :=
  h.meets i _ hthread _ (D.rely_refl i _) h.invariant

theorem OnCourse.failure (h : OnCourse D post fail pool)
    {i : ℕ} {request : ρ} {error : ε}
    (hthread : pool.threads[i]? = some ⟨request, .failed error⟩) :
    fail request i error pool.state :=
  h.meets i _ hthread _ (D.rely_refl i _) h.invariant

theorem onCourse_of_empty (hstart : pool.threads = [])
    (hinvariant : D.invariant pool.state) : OnCourse D post fail pool :=
  ⟨hinvariant, by simp [hstart]⟩

/-- Every move keeps a pool on course. -/
theorem Sound.perform (hsound : S.Sound D admits post fail)
    {move : Move ρ ω η} (hpool : OnCourse D post fail pool)
    (hadmits : ∀ request, move = .submit request → admits request pool.state)
    (hperform : S.perform move pool = some next) :
    OnCourse D post fail next where
  invariant := by
    rcases perform_cases hperform with
      ⟨request, -, rfl⟩ | ⟨j, w, actor, state, body, -, hactor, hadvance, rfl⟩ |
        ⟨event, -, rfl⟩
    · exact hpool.invariant
    · exact D.guarantee_invariant ((hpool.meets j actor hactor).advance
        hpool.invariant hadvance).1 hpool.invariant
    · exact hsound.environment_invariant event _ hpool.invariant
  meets i thread hthread := by
    refine perform_threads
      (fun i thread s =>
        thread.body.Meets D i (post thread.request i) (fail thread.request i) s)
      hperform ?_ ?_ ?_ hpool.meets hthread
    · exact fun request hmove =>
        hsound.handler_meets request _ _ (hadmits request hmove)
    · intro j w actor state body hactor hadvance
      obtain ⟨hguarantee, hbody⟩ :=
        (hpool.meets j actor hactor).advance hpool.invariant hadvance
      exact ⟨hbody, fun k other hk hother =>
        hother.later (D.guarantee_rely (Ne.symm hk) hguarantee)⟩
    · exact fun event j other hother =>
        hother.later (hsound.environment_rely event j _)

theorem Reaches.sound
    (hsound : S.Sound D admits post fail)
    (hreach : S.Reaches admits start pool)
    (hstart : OnCourse D post fail start) :
    OnCourse D post fail pool := by
  induction hreach with
  | refl => exact hstart
  | step _ hadmits hperform ih => exact hsound.perform ih hadmits hperform

/-- A further fact that every guaranteed action and the surroundings preserve
holds of every reachable state. -/
theorem Reaches.further
    (hsound : S.Sound D admits post fail)
    (hreach : S.Reaches admits start pool)
    (hstart : OnCourse D post fail start)
    (fact : σ → Prop) (hfact : fact start.state)
    (hguarantee : ∀ {i s t}, D.guarantee i s t → D.invariant s →
      fact s → fact t)
    (henvironment : ∀ event {s}, D.invariant s → fact s →
      fact (S.environment event s)) :
    fact pool.state := by
  induction hreach with
  | refl => exact hfact
  | step hreach hadmits hperform ih =>
      have hpool := hreach.sound hsound hstart
      rcases perform_cases hperform with
        ⟨request, -, rfl⟩ | ⟨j, w, actor, state, body, -, hactor, hadvance, rfl⟩ |
          ⟨event, -, rfl⟩
      · exact ih
      · exact hguarantee
          ((hpool.meets j actor hactor).advance hpool.invariant hadvance).1
          hpool.invariant ih
      · exact henvironment event hpool.invariant ih

/-- A request leaves no trace before it is submitted, where `mark` is a trace
that only the request itself leaves. -/
theorem Reaches.fresh
    (hsound : S.Sound D admits post fail)
    (hreach : S.Reaches admits start pool)
    (hstart : OnCourse D post fail start)
    (mark : ℕ → σ → Prop) (hunmarked : ∀ i, ¬ mark i start.state)
    (hguarantee : ∀ {i j s t}, D.guarantee i s t → mark j t →
      j = i ∨ mark j s)
    (henvironment : ∀ event {j s}, mark j (S.environment event s) → mark j s)
    {i : ℕ} (hmark : mark i pool.state) :
    i < pool.threads.length := by
  induction hreach generalizing i with
  | refl => exact absurd hmark (hunmarked i)
  | step hreach hadmits hperform ih =>
      have hpool := hreach.sound hsound hstart
      rcases perform_cases hperform with
        ⟨request, -, rfl⟩ | ⟨j, w, actor, state, body, -, hactor, hadvance, rfl⟩ |
          ⟨event, -, rfl⟩
      · have hlt := ih hmark
        rw [List.length_append]
        omega
      · have hlt := (List.getElem?_eq_some_iff.mp hactor).1
        rw [List.length_set]
        rcases hguarantee ((hpool.meets j actor hactor).advance
          hpool.invariant hadvance).1 hmark with rfl | hmark
        · exact hlt
        · exact ih hmark
      · exact ih (henvironment event hmark)

end Sound

/-! ## Pools whose requests have different rights -/

/-- Every admitted request meets its outcome assertions within its own rights.
A request that has not been submitted yet is `fresh`, which only its own
actions end. -/
structure SoundWithin (S : System ρ ω η σ ε α) (D : Discipline σ)
    (rights : ρ → ℕ → σ → σ → Prop) (fresh : ℕ → σ → Prop)
    (admits : ρ → σ → Prop)
    (post : ρ → ℕ → α → σ → Prop) (fail : ρ → ℕ → ε → σ → Prop) : Prop where
  handler_meets : ∀ request i s, admits request s → fresh i s →
    (S.handler request).Meets (D.within (rights request)) i (post request i)
      (fail request i) s
  guarantee_fresh : ∀ {i j s t}, i ≠ j → D.guarantee i s t → fresh j s →
    fresh j t
  environment_fresh : ∀ event i s, fresh i s → fresh i (S.environment event s)
  environment_rely : ∀ event i s, D.invariant s →
    D.rely i s (S.environment event s)
  environment_invariant : ∀ event s, D.invariant s →
    D.invariant (S.environment event s)

structure OnCourseWithin (D : Discipline σ) (rights : ρ → ℕ → σ → σ → Prop)
    (fresh : ℕ → σ → Prop) (post : ρ → ℕ → α → σ → Prop)
    (fail : ρ → ℕ → ε → σ → Prop) (pool : Pool ρ ω σ ε α) : Prop where
  invariant : D.invariant pool.state
  fresh : ∀ i, pool.threads.length ≤ i → fresh i pool.state
  meets : ∀ i (thread : Thread ρ ω σ ε α), pool.threads[i]? = some thread →
    thread.body.Meets (D.within (rights thread.request)) i
      (post thread.request i) (fail thread.request i) pool.state

section SoundWithin

variable {D : Discipline σ} {rights : ρ → ℕ → σ → σ → Prop}
  {fresh : ℕ → σ → Prop} {post : ρ → ℕ → α → σ → Prop}
  {fail : ρ → ℕ → ε → σ → Prop}

namespace OnCourseWithin

theorem of_empty (hstart : pool.threads = [])
    (hinvariant : D.invariant pool.state) (hfresh : ∀ i, fresh i pool.state) :
    OnCourseWithin D rights fresh post fail pool :=
  ⟨hinvariant, fun i _ => hfresh i, by simp [hstart]⟩

theorem outcome (h : OnCourseWithin D rights fresh post fail pool)
    {i : ℕ} {request : ρ} {value : α}
    (hthread : pool.threads[i]? = some ⟨request, .done value⟩) :
    post request i value pool.state :=
  h.meets i _ hthread _ (D.rely_refl i _) h.invariant

theorem failure (h : OnCourseWithin D rights fresh post fail pool)
    {i : ℕ} {request : ρ} {error : ε}
    (hthread : pool.threads[i]? = some ⟨request, .failed error⟩) :
    fail request i error pool.state :=
  h.meets i _ hthread _ (D.rely_refl i _) h.invariant

/-- An action of a thread keeps the guarantee and its request's rights. -/
theorem action (h : OnCourseWithin D rights fresh post fail pool)
    {i : ℕ} {w : ω} {thread : Thread ρ ω σ ε α} {state : σ}
    {body : Program ω σ ε α} (hthread : pool.threads[i]? = some thread)
    (hadvance : thread.body.advance i w pool.state = some (state, body)) :
    D.guarantee i pool.state state ∧
      rights thread.request i pool.state state :=
  ((h.meets i thread hthread).advance h.invariant hadvance).1

end OnCourseWithin

theorem SoundWithin.perform
    (hsound : S.SoundWithin D rights fresh admits post fail)
    {move : Move ρ ω η}
    (hpool : OnCourseWithin D rights fresh post fail pool)
    (hadmits : ∀ request, move = .submit request → admits request pool.state)
    (hperform : S.perform move pool = some next) :
    OnCourseWithin D rights fresh post fail next where
  invariant := by
    rcases perform_cases hperform with
      ⟨request, -, rfl⟩ | ⟨j, w, actor, state, body, -, hactor, hadvance, rfl⟩ |
        ⟨event, -, rfl⟩
    · exact hpool.invariant
    · exact D.guarantee_invariant (hpool.action hactor hadvance).1
        hpool.invariant
    · exact hsound.environment_invariant event _ hpool.invariant
  fresh i hi := by
    rcases perform_cases hperform with
      ⟨request, -, rfl⟩ | ⟨j, w, actor, state, body, -, hactor, hadvance, rfl⟩ |
        ⟨event, -, rfl⟩
    · rw [List.length_append] at hi
      exact hpool.fresh i (by omega)
    · rw [List.length_set] at hi
      have hj := (List.getElem?_eq_some_iff.mp hactor).1
      exact hsound.guarantee_fresh (by omega)
        (hpool.action hactor hadvance).1 (hpool.fresh i hi)
    · exact hsound.environment_fresh event i _ (hpool.fresh i hi)
  meets i thread hthread := by
    refine perform_threads
      (fun i thread s =>
        thread.body.Meets (D.within (rights thread.request)) i
          (post thread.request i) (fail thread.request i) s)
      hperform ?_ ?_ ?_ hpool.meets hthread
    · exact fun request hmove => hsound.handler_meets request _ _
        (hadmits request hmove) (hpool.fresh _ (Nat.le_refl _))
    · intro j w actor state body hactor hadvance
      have hguarantee := (hpool.action hactor hadvance).1
      exact ⟨((hpool.meets j actor hactor).advance hpool.invariant hadvance).2,
        fun k other hk hother =>
          hother.later (D.guarantee_rely (Ne.symm hk) hguarantee)⟩
    · exact fun event j other hother =>
        hother.later (hsound.environment_rely event j _ hpool.invariant)

theorem Reaches.soundWithin
    (hsound : S.SoundWithin D rights fresh admits post fail)
    (hreach : S.Reaches admits start pool)
    (hstart : OnCourseWithin D rights fresh post fail start) :
    OnCourseWithin D rights fresh post fail pool := by
  induction hreach with
  | refl => exact hstart
  | step _ hadmits hperform ih => exact hsound.perform ih hadmits hperform

/-- A thread keeps to rights of its own from some pool on, so a fact that
these, the other requests and the surroundings preserve is there later. -/
theorem Reaches.thread_within
    (hsound : S.SoundWithin D rights fresh admits post fail)
    (hreach : S.Reaches admits start pool)
    (hstart : OnCourseWithin D rights fresh post fail start)
    {i : ℕ} {thread : Thread ρ ω σ ε α}
    (hthread : start.threads[i]? = some thread)
    {own : ℕ → σ → σ → Prop} {ownPost : α → σ → Prop} {ownFail : ε → σ → Prop}
    (hmeets : thread.body.Meets (D.within own) i ownPost ownFail start.state)
    (fact : σ → Prop) (hfact : fact start.state)
    (hown : ∀ {s t}, own i s t → D.invariant s → fact s → fact t)
    (hothers : ∀ {j s t}, j ≠ i → D.guarantee j s t → D.invariant s →
      fact s → fact t)
    (henvironment : ∀ event {s}, D.invariant s → fact s →
      fact (S.environment event s)) :
    (∃ body, pool.threads[i]? = some ⟨thread.request, body⟩ ∧
      body.Meets (D.within own) i ownPost ownFail pool.state) ∧
      fact pool.state := by
  induction hreach with
  | refl => exact ⟨⟨thread.body, hthread, hmeets⟩, hfact⟩
  | step hreach _ hperform ih =>
      obtain ⟨⟨body, hbody, hmeets'⟩, hfact'⟩ := ih
      have hpool := hreach.soundWithin hsound hstart
      rcases System.perform_cases hperform with
        ⟨request, -, rfl⟩ |
          ⟨j, w, actor, state, next, -, hactor, hadvance, rfl⟩ |
            ⟨event, -, rfl⟩
      · refine ⟨⟨body, ?_, hmeets'⟩, hfact'⟩
        rw [List.getElem?_append_left (List.getElem?_eq_some_iff.mp hbody).1]
        exact hbody
      · by_cases hij : j = i
        · subst hij
          obtain rfl := Option.some.inj (hbody.symm.trans hactor)
          have hstep := hmeets'.advance hpool.invariant hadvance
          refine ⟨⟨next, ?_, hstep.2⟩, hown hstep.1.2 hpool.invariant hfact'⟩
          exact List.getElem?_set_self (List.getElem?_eq_some_iff.mp hbody).1
        · have hguarantee := (hpool.action hactor hadvance).1
          refine ⟨⟨body, (List.getElem?_set_ne hij).trans hbody, ?_⟩,
            hothers hij hguarantee hpool.invariant hfact'⟩
          exact hmeets'.later (D.guarantee_rely hij hguarantee)
      · exact ⟨⟨body, hbody, hmeets'.later
          (hsound.environment_rely event i _ hpool.invariant)⟩,
          henvironment event hpool.invariant hfact'⟩

/-- What a thread is on its way to from some pool on, it is still on its way
to later. -/
theorem Reaches.thread_meets
    (hsound : S.SoundWithin D rights fresh admits post fail)
    (hreach : S.Reaches admits start pool)
    (hstart : OnCourseWithin D rights fresh post fail start)
    {i : ℕ} {thread : Thread ρ ω σ ε α}
    (hthread : start.threads[i]? = some thread)
    {own : α → σ → Prop} {ownFail : ε → σ → Prop}
    (hmeets : thread.body.Meets (D.within (rights thread.request)) i own
      ownFail start.state) :
    ∃ body, pool.threads[i]? = some ⟨thread.request, body⟩ ∧
      body.Meets (D.within (rights thread.request)) i own ownFail
        pool.state :=
  (hreach.thread_within hsound hstart hthread hmeets (fun _ => True) trivial
    (fun _ _ h => h) (fun _ _ _ h => h) fun _ _ _ h => h).1

/-- A further fact that every action within some request's rights and the
surroundings preserve holds of every reachable state. -/
theorem Reaches.furtherWithin
    (hsound : S.SoundWithin D rights fresh admits post fail)
    (hreach : S.Reaches admits start pool)
    (hstart : OnCourseWithin D rights fresh post fail start)
    (fact : σ → Prop) (hfact : fact start.state)
    (hrights : ∀ {request i s t}, rights request i s t → D.invariant s →
      fact s → fact t)
    (henvironment : ∀ event {s}, D.invariant s → fact s →
      fact (S.environment event s)) :
    fact pool.state := by
  induction hreach with
  | refl => exact hfact
  | step hreach hadmits hperform ih =>
      have hpool := hreach.soundWithin hsound hstart
      rcases perform_cases hperform with
        ⟨request, -, rfl⟩ | ⟨j, w, actor, state, body, -, hactor, hadvance, rfl⟩ |
          ⟨event, -, rfl⟩
      · exact ih
      · exact hrights (hpool.action hactor hadvance).2 hpool.invariant ih
      · exact henvironment event hpool.invariant ih

/-- What one move of a pool on course does to the state: nothing, an action
within the rights of the request that acts, or what the surroundings do. -/
theorem OnCourseWithin.perform_cases
    (hpool : OnCourseWithin D rights fresh post fail pool)
    {move : Move ρ ω η} (hperform : S.perform move pool = some next) :
    next.state = pool.state ∨
    (∃ i w thread, move = .advance i w ∧ pool.threads[i]? = some thread ∧
      rights thread.request i pool.state next.state) ∨
    (∃ event, move = .environment event ∧
      next.state = S.environment event pool.state) := by
  rcases System.perform_cases hperform with
    ⟨request, -, rfl⟩ | ⟨i, w, thread, state, body, hmove, hthread, hadvance, rfl⟩ |
      ⟨event, hmove, rfl⟩
  · exact .inl rfl
  · exact .inr (.inl
      ⟨i, w, thread, hmove, hthread, (hpool.action hthread hadvance).2⟩)
  · exact .inr (.inr ⟨event, hmove, rfl⟩)

end SoundWithin

end System

end Interleaving
