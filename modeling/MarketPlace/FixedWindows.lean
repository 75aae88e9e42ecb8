import Mathlib.Data.List.Basic

/-!
# Counting in fixed windows

A window opens with the first increment after the counter was cleared or the
window before it ran out, and lasts as long as that increment says.  A counter
that only keeps a number and the end of its window counts the increments of
the current window.

Nothing here depends on what is counted.
-/

namespace FixedWindows

structure Increment where
  at_ : ℕ
  lasts : ℕ
  deriving DecidableEq, Repr

def Increment.expiresAt (increment : Increment) : ℕ :=
  increment.at_ + increment.lasts

/-- What befalls a counter. -/
inductive Mark where
  | counted (increment : Increment)
  | cleared
  deriving DecidableEq, Repr

/-! ## Windows -/

/-- The increments since the counter was last cleared, both latest first. -/
def sinceCleared : List Mark → List Increment
  | [] => []
  | .cleared :: _ => []
  | .counted increment :: past => increment :: sinceCleared past

/-- Those of them since the current window opened, which the earliest of them
did. -/
def currentWindow : List Increment → List Increment
  | [] => []
  | increment :: earlier =>
      match (currentWindow earlier).getLast? with
      | none => [increment]
      | some first =>
          if first.expiresAt ≤ increment.at_ then [increment]
          else increment :: currentWindow earlier

/-- The number of increments since the counter was cleared and the window
opened, whichever is later. -/
def numberInWindow (marks : List Mark) : ℕ :=
  (currentWindow (sinceCleared marks)).length

/-! ## The counter -/

structure Counter where
  count : ℕ
  expiresAt : ℕ
  deriving DecidableEq, Repr

def Mark.apply : Mark → Option Counter → Option Counter
  | .cleared, _ => none
  | .counted increment, none => some ⟨1, increment.expiresAt⟩
  | .counted increment, some counter =>
      if counter.expiresAt ≤ increment.at_ then some ⟨1, increment.expiresAt⟩
      else some ⟨counter.count + 1, counter.expiresAt⟩

/-- The counter after these marks. -/
def reading : List Mark → Option Counter
  | [] => none
  | mark :: past => mark.apply (reading past)

/-- The counter counts the current window and ends with it. -/
theorem reading_eq (marks : List Mark) :
    reading marks =
      (currentWindow (sinceCleared marks)).getLast?.map fun first =>
        ⟨numberInWindow marks, first.expiresAt⟩ := by
  induction marks with
  | nil => rfl
  | cons mark past ih =>
      cases mark with
      | cleared => rfl
      | counted increment =>
          rw [reading, ih]
          unfold numberInWindow
          rw [sinceCleared, currentWindow]
          cases hfirst : (currentWindow (sinceCleared past)).getLast? with
          | none => rfl
          | some first =>
              simp only [Option.map_some, Mark.apply]
              by_cases hexpired : first.expiresAt ≤ increment.at_
              · rw [if_pos hexpired, if_pos hexpired]
                rfl
              · rw [if_neg hexpired, if_neg hexpired, List.getLast?_cons,
                  hfirst, Option.getD_some, Option.map_some, List.length_cons]

theorem count_of_reading {marks : List Mark} {counter : Counter}
    (h : reading marks = some counter) :
    counter.count = numberInWindow marks := by
  rw [reading_eq, Option.map_eq_some_iff] at h
  obtain ⟨first, -, rfl⟩ := h
  rfl

/-- Counting always leaves a counter. -/
theorem exists_reading_counted (increment : Increment) (past : List Mark) :
    ∃ counter, reading (.counted increment :: past) = some counter := by
  rw [reading]
  cases reading past with
  | none => exact ⟨_, rfl⟩
  | some counter =>
      simp only [Mark.apply]
      split <;> exact ⟨_, rfl⟩

end FixedWindows
