import Mathlib.Data.List.Infix
import Mathlib.Data.Finset.Max

/-!
# Event logs

A log lists events, the newest first, so that what an event could see is the
rest of the list behind it.  A log is lawful when every event obeys the law for
its own past.  Facts about a log are proved from some event on: they hold there
and every later event keeps them.
-/

namespace EventLog

variable {ε δ : Type} {e e' : ε} {past past' log log' : List ε}

/-- The event is in the log, and `past` is what had happened before it. -/
def Happened (e : ε) (past log : List ε) : Prop := (e :: past) <:+ log

theorem not_happened_nil : ¬ Happened e past [] := by
  intro h
  simpa [Happened] using List.IsSuffix.length_le h

theorem happened_self : Happened e past (e :: past) := List.suffix_refl _

theorem happened_cons :
    Happened e past (e' :: log) ↔ (e = e' ∧ past = log) ∨ Happened e past log := by
  rw [Happened, List.suffix_cons_iff, List.cons.injEq]
  rfl

namespace Happened

theorem older (h : Happened e past log) : past <:+ log :=
  (List.suffix_cons e past).trans h

theorem mem (h : Happened e past log) : e ∈ log :=
  List.IsSuffix.subset h List.mem_cons_self

theorem later (h : Happened e past log) (hsuffix : log <:+ log') :
    Happened e past log' :=
  List.IsSuffix.trans h hsuffix

theorem cons (h : Happened e past log) : Happened e past (e' :: log) :=
  h.later (List.suffix_cons e' log)

theorem trans (h : Happened e past log) (h' : Happened e' past' past) :
    Happened e' past' log :=
  h'.later h.older

/-- Of two events of a log, one is in the past of the other, or they are the
same. -/
theorem compare (h : Happened e past log) (h' : Happened e' past' log) :
    Happened e' past' past ∨ Happened e past past' ∨ (e = e' ∧ past = past') := by
  rcases List.suffix_or_suffix_of_suffix h h' with hle | hle
  · rw [List.suffix_cons_iff, List.cons.injEq] at hle
    rcases hle with heq | hle
    · exact .inr (.inr heq)
    · exact .inr (.inl hle)
  · rw [List.suffix_cons_iff, List.cons.injEq] at hle
    rcases hle with ⟨he, hpast⟩ | hle
    · exact .inr (.inr ⟨he.symm, hpast.symm⟩)
    · exact .inl hle

/-- An event of a log had already happened at an earlier time, or it came
after all that had. -/
theorem before_or_after (h : Happened e past log) (hsuffix : past' <:+ log) :
    Happened e past past' ∨ past' <:+ past := by
  rcases List.suffix_or_suffix_of_suffix h hsuffix with hle | hle
  · exact .inl hle
  · rcases List.suffix_cons_iff.mp hle with rfl | hle
    · exact .inl happened_self
    · exact .inr hle

/-- An event of a log is among the oldest ones or came after all of them. -/
theorem mem_or_after (h : Happened e past log) (hsuffix : past' <:+ log) :
    e ∈ past' ∨ past' <:+ past :=
  (h.before_or_after hsuffix).imp_left mem

end Happened

theorem exists_happened (h : e ∈ log) : ∃ past, Happened e past log := by
  obtain ⟨newer, past, rfl⟩ := List.append_of_mem h
  exact ⟨past, List.suffix_append newer _⟩

theorem happened_of_drop {n : ℕ} (hdrop : log.drop n = e :: past) :
    Happened e past log := by
  rw [Happened, ← hdrop]
  exact List.drop_suffix n log

/-- Of finitely many subjects with events in a log, one has an event that
comes after an event of each of the others. -/
theorem exists_latest {ι : Type} {s : Finset ι} (hne : s.Nonempty)
    (about : ι → ε → List ε → Prop)
    (hdisjoint : ∀ i j e past, about i e past → about j e past → i = j)
    (hmem : ∀ i ∈ s, ∃ e past, about i e past ∧ Happened e past log) :
    ∃ i ∈ s, ∃ e past, about i e past ∧ Happened e past log ∧
      ∀ j ∈ s, j ≠ i →
        ∃ e' past', about j e' past' ∧ Happened e' past' past := by
  obtain ⟨first, hfirst⟩ := hne
  obtain ⟨e, -⟩ := hmem first hfirst
  have : Nonempty ε := ⟨e⟩
  choose! event before habout hhappened using hmem
  obtain ⟨i, hi, hmax⟩ :=
    s.exists_max_image (fun i => (before i).length) ⟨first, hfirst⟩
  refine ⟨i, hi, event i, before i, habout i hi, hhappened i hi, ?_⟩
  intro j hj hji
  refine ⟨event j, before j, habout j hj, ?_⟩
  rcases (hhappened i hi).compare (hhappened j hj) with
    hlt | hlt | ⟨heq, hpast⟩
  · exact hlt
  · have hlength := List.IsSuffix.length_le hlt
    have hle := hmax j hj
    rw [List.length_cons] at hlength
    omega
  · have hsame := habout i hi
    rw [heq, hpast] at hsame
    exact absurd (hdisjoint j i _ _ (habout j hj) hsame) hji

/-! ## Lawful logs -/

def Lawful (law : ε → List ε → Prop) (log : List ε) : Prop :=
  ∀ e past, Happened e past log → law e past

variable {law : ε → List ε → Prop}

theorem lawful_nil : Lawful law [] :=
  fun _ _ h => absurd h not_happened_nil

theorem lawful_cons : Lawful law (e :: log) ↔ law e log ∧ Lawful law log := by
  constructor
  · intro hlaw
    exact ⟨hlaw e log happened_self, fun e' past h => hlaw e' past h.cons⟩
  · rintro ⟨he, hlog⟩ e' past h
    rcases happened_cons.mp h with ⟨rfl, rfl⟩ | h
    · exact he
    · exact hlog e' past h

instance decidableLawful [∀ e past, Decidable (law e past)] :
    (log : List ε) → Decidable (Lawful law log)
  | [] => .isTrue lawful_nil
  | _ :: log =>
      have := decidableLawful log
      decidable_of_iff _ lawful_cons.symm

theorem Lawful.older (hlaw : Lawful law log) (hsuffix : past <:+ log) :
    Lawful law past :=
  fun e' past' h => hlaw e' past' (h.later hsuffix)

theorem Lawful.and {law' : ε → List ε → Prop} (hlaw : Lawful law log)
    (hlaw' : Lawful law' log) :
    Lawful (fun e past => law e past ∧ law' e past) log :=
  fun e past h => ⟨hlaw e past h, hlaw' e past h⟩

/-- Some event of the log passes the check for its own past. -/
def sometime (check : ε → List ε → Bool) : List ε → Bool
  | [] => false
  | e :: past => check e past || sometime check past

theorem sometime_iff {check : ε → List ε → Bool} :
    sometime check log = true ↔
      ∃ e past, Happened e past log ∧ check e past = true := by
  induction log with
  | nil => simp [sometime, not_happened_nil]
  | cons e log ih =>
      simp only [sometime, Bool.or_eq_true, ih, happened_cons]
      constructor
      · rintro (hcheck | ⟨e', past, hhappened, hcheck⟩)
        · exact ⟨e, log, .inl ⟨rfl, rfl⟩, hcheck⟩
        · exact ⟨e', past, .inr hhappened, hcheck⟩
      · rintro ⟨e', past, ⟨rfl, rfl⟩ | hhappened, hcheck⟩
        · exact .inl hcheck
        · exact .inr ⟨e', past, hhappened, hcheck⟩

/-! ## Induction from an event on -/

theorem since (fact : List ε → Prop) (hsuffix : past <:+ log)
    (hstart : fact past)
    (hstep : ∀ e before, Happened e before log → past <:+ before →
      fact before → fact (e :: before)) :
    fact log := by
  induction log with
  | nil =>
      rw [List.suffix_nil] at hsuffix
      exact hsuffix ▸ hstart
  | cons e log ih =>
      rcases List.suffix_cons_iff.mp hsuffix with rfl | hsuffix
      · exact hstart
      · exact hstep e log happened_self hsuffix
          (ih hsuffix fun e' before h => hstep e' before h.cons)

/-! ## Replaying a log -/

def replay (effect : ε → δ → δ) (start : δ) (log : List ε) : δ :=
  log.foldr effect start

variable {effect : ε → δ → δ} {start : δ}

@[simp] theorem replay_nil : replay effect start [] = start := rfl

@[simp] theorem replay_cons :
    replay effect start (e :: log) = effect e (replay effect start log) := rfl

/-- What every lawful event keeps is true of the state that a lawful log leads
to. -/
theorem replay_lawful (law : ε → δ → Prop) (fact : δ → Prop)
    (hlaw : Lawful (fun e past => law e (replay effect start past)) log)
    (hstart : fact start)
    (hstep : ∀ e state, law e state → fact state → fact (effect e state)) :
    fact (replay effect start log) := by
  induction log with
  | nil => exact hstart
  | cons e log ih =>
      obtain ⟨he, hlog⟩ := lawful_cons.mp hlaw
      exact hstep e _ he (ih hlog)

theorem replay_preserves (fact : δ → Prop) (hsuffix : past <:+ log)
    (hstart : fact (replay effect start past))
    (hstep : ∀ e before, Happened e before log → past <:+ before →
      fact (replay effect start before) →
      fact (effect e (replay effect start before))) :
    fact (replay effect start log) :=
  since (fun log => fact (replay effect start log)) hsuffix hstart hstep

end EventLog
