import MarketPlace.KeyedTables
import Mathlib.Data.List.Induction

/-!
# Forests of rows with a parent

Rows that name the key of another row as their parent, each of them added when
its parent was there.  Then following the parents ends at a root.

A list of rows stands in the order in which they were added; nothing here
depends on what the rows are.
-/

namespace Relational

variable {ρ κ : Type} {key : ρ → κ} {parent : ρ → Option κ}

/-- Every parent stands before its child. -/
def Grown (key : ρ → κ) (parent : ρ → Option κ) (rows : List ρ) : Prop :=
  ∀ earlier row later, rows = earlier ++ row :: later →
    ∀ p, parent row = some p → ∃ other ∈ earlier, key other = p

namespace Grown

variable {rows more : List ρ} {row : ρ}

theorem nil : Grown key parent [] := by
  intro earlier row later h
  simp at h

theorem append_iff :
    Grown key parent (rows ++ more) ↔
      Grown key parent rows ∧
        ∀ earlier row later, more = earlier ++ row :: later →
          ∀ p, parent row = some p → ∃ other ∈ rows ++ earlier, key other = p := by
  constructor
  · intro h
    constructor
    · intro earlier row later hrows p hp
      refine h earlier row (later ++ more) ?_ p hp
      rw [hrows, List.append_assoc, List.cons_append]
    · intro earlier row later hmore p hp
      refine h (rows ++ earlier) row later ?_ p hp
      rw [hmore, List.append_assoc]
  · rintro ⟨hrows, hmore⟩ earlier row later hsplit p hp
    rcases List.append_eq_append_iff.mp hsplit with
      ⟨middle, hearlier, hrest⟩ | ⟨middle, hleft, hright⟩
    · rw [hearlier]
      exact hmore middle row later hrest p hp
    · cases middle with
      | nil =>
          rw [List.append_nil] at hleft
          rw [← hleft, ← List.append_nil rows]
          exact hmore [] row later hright.symm p hp
      | cons first rest =>
          rw [List.cons_append, List.cons.injEq] at hright
          obtain ⟨rfl, -⟩ := hright
          exact hrows earlier row rest hleft p hp

theorem left (h : Grown key parent (rows ++ more)) : Grown key parent rows :=
  (append_iff.mp h).1

/-- A row is added whose parent is there. -/
theorem concat (h : Grown key parent rows)
    (hparent : ∀ p, parent row = some p → ∃ other ∈ rows, key other = p) :
    Grown key parent (rows ++ [row]) := by
  refine append_iff.mpr ⟨h, fun earlier other later hsplit p hp => ?_⟩
  rw [List.singleton_eq_append_iff] at hsplit
  rcases hsplit with ⟨rfl, hrow⟩ | ⟨-, hnil⟩
  · obtain ⟨rfl, -⟩ := List.cons.inj hrow
    rw [List.append_nil]
    exact hparent p hp
  · exact absurd hnil (List.cons_ne_nil _ _)

/-- Two lists of rows that each grew on the first one grow on each other. -/
theorem splice {middle : List ρ} (h : Grown key parent (rows ++ more))
    (hmiddle : Grown key parent (rows ++ middle)) :
    Grown key parent (rows ++ middle ++ more) := by
  refine append_iff.mpr ⟨hmiddle, fun earlier row later hsplit p hp => ?_⟩
  obtain ⟨other, hother, hkey⟩ := (append_iff.mp h).2 earlier row later hsplit p hp
  refine ⟨other, ?_, hkey⟩
  rw [List.append_assoc, List.mem_append, List.mem_append]
  rcases List.mem_append.mp hother with hrows | hearlier
  · exact .inl hrows
  · exact .inr (.inr hearlier)

/-- Rows that no row that stays has as its parent can go. -/
theorem filter {p : ρ → Bool} (h : Grown key parent rows)
    (hkeeps : ∀ other ∈ rows, ∀ child ∈ rows, p child = true →
      parent child = some (key other) → p other = true) :
    Grown key parent (rows.filter p) := by
  induction rows using List.reverseRecOn with
  | nil => exact nil
  | append_singleton rows row ih =>
      have hrest := ih h.left fun other hother child hchild =>
        hkeeps other (List.mem_append_left _ hother) child
          (List.mem_append_left _ hchild)
      rw [List.filter_append]
      cases hp : p row with
      | false => simpa [hp] using hrest
      | true =>
          rw [List.filter_singleton, hp, cond_true]
          refine hrest.concat fun k hk => ?_
          obtain ⟨other, hother, hkey⟩ :=
            (append_iff.mp h).2 [] row [] rfl k hk
          rw [List.append_nil] at hother
          exact ⟨other, List.mem_filter.mpr ⟨hother,
            hkeeps other (List.mem_append_left _ hother) row
              (List.mem_append_right _ List.mem_cons_self) hp
              (hkey ▸ hk)⟩, hkey⟩

end Grown

/-! ## Following the parents -/

namespace Table

variable [DecidableEq κ] {table : Table key}

/-- The row that is reached by following the parents this many times. -/
def follow (table : Table key) (parent : ρ → Option κ) : ℕ → ρ → Option ρ
  | 0, row => some row
  | n + 1, row => ((parent row).bind table.get).bind (table.follow parent n)

/-- Parents are there, and following them ends at a root. -/
structure Forest (table : Table key) (parent : ρ → Option κ) : Prop where
  parents : ∀ row ∈ table.rows, ∀ p, parent row = some p →
    (table.get p).isSome = true
  rooted : ∀ row ∈ table.rows, ∃ n root,
    table.follow parent n row = some root ∧ parent root = none

theorem get_parent_of_grown (h : Grown key parent table.rows)
    {earlier later : List ρ} {row : ρ} {p : κ}
    (hrows : table.rows = earlier ++ row :: later)
    (hp : parent row = some p) :
    ∃ other ∈ earlier, table.get p = some other := by
  obtain ⟨other, hother, rfl⟩ := h earlier row later hrows p hp
  refine ⟨other, hother, get_of_mem ?_⟩
  rw [hrows]
  exact List.mem_append_left _ hother

/-- By induction on how many rows stand before the row. -/
theorem forest_of_grown (h : Grown key parent table.rows) :
    table.Forest parent where
  parents row hrow p hp := by
    obtain ⟨earlier, later, hrows⟩ := List.append_of_mem hrow
    obtain ⟨other, -, hget⟩ := get_parent_of_grown h hrows hp
    rw [hget]
    rfl
  rooted row hrow := by
    obtain ⟨earlier, later, hrows⟩ := List.append_of_mem hrow
    induction hlength : earlier.length using Nat.strongRecOn
      generalizing earlier row later with
    | _ length ih =>
        cases hp : parent row with
        | none => exact ⟨0, row, rfl, hp⟩
        | some p =>
            obtain ⟨other, hother, hget⟩ := get_parent_of_grown h hrows hp
            obtain ⟨before, after, hearlier⟩ := List.append_of_mem hother
            have hsplit : table.rows = before ++ other :: (after ++ row :: later) := by
              rw [hrows, hearlier, List.append_assoc, List.cons_append]
            have hshorter : before.length < length := by
              rw [← hlength, hearlier, List.length_append, List.length_cons]
              omega
            obtain ⟨n, root, hfollow, hroot⟩ := ih before.length hshorter
              other (mem_of_get hget) before _ hsplit rfl
            refine ⟨n + 1, root, ?_, hroot⟩
            rw [follow, hp, Option.bind_some, hget, Option.bind_some, hfollow]

end Table

end Relational
