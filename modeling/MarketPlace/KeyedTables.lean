import Mathlib.Data.List.Nodup
import Mathlib.Data.List.Basic

/-!
# Tables with a primary key

A table is a list of rows in insertion order whose keys are pairwise distinct;
the distinctness is part of the table, so a lookup by key has at most one
answer.  The statements are those of a relational store: insert if the key is
free, update where, delete where, and insert-or-update.
-/

namespace Relational

structure Table {ρ κ : Type} (key : ρ → κ) where
  rows : List ρ
  keys_nodup : (rows.map key).Nodup

namespace Table

variable {ρ κ : Type} {key : ρ → κ}

def empty : Table key := ⟨[], List.nodup_nil⟩

theorem map_key_modified {f : ρ → ρ} {p : ρ → Bool}
    (hkey : ∀ row, key (f row) = key row) (rows : List ρ) :
    (rows.map fun row => if p row then f row else row).map key =
      rows.map key := by
  rw [List.map_map]
  apply List.map_congr_left
  intro row _
  simp only [Function.comp_apply]
  split
  · exact hkey row
  · rfl

/-- UPDATE: every row that satisfies `p` is replaced by `f` of it. -/
def modify (table : Table key) (p : ρ → Bool) (f : ρ → ρ)
    (hkey : ∀ row, key (f row) = key row) : Table key where
  rows := table.rows.map fun row => if p row then f row else row
  keys_nodup := (map_key_modified hkey table.rows).symm ▸ table.keys_nodup

/-- DELETE: only the rows that satisfy `p` stay. -/
def filter (table : Table key) (p : ρ → Bool) : Table key where
  rows := table.rows.filter p
  keys_nodup := table.keys_nodup.sublist (List.filter_sublist.map key)

variable [DecidableEq κ]

def get (table : Table key) (k : κ) : Option ρ :=
  table.rows.find? fun row => key row = k

theorem get_eq_none_iff {table : Table key} {k : κ} :
    table.get k = none ↔ k ∉ table.rows.map key := by
  simp [get]

/-- INSERT: nothing happens where the key is taken. -/
def insert (table : Table key) (row : ρ) : Table key :=
  if h : table.get (key row) = none then
    { rows := table.rows ++ [row]
      keys_nodup := by
        rw [List.map_append, List.nodup_append]
        refine ⟨table.keys_nodup, List.nodup_singleton _, ?_⟩
        rintro k hk _ hrow rfl
        rw [List.map_singleton, List.mem_singleton] at hrow
        exact get_eq_none_iff.mp h (hrow ▸ hk) }
  else table

/-- INSERT … ON CONFLICT DO UPDATE. -/
def upsert (table : Table key) (row : ρ) (f : ρ → ρ)
    (hkey : ∀ row, key (f row) = key row) : Table key :=
  if (table.get (key row)).isSome then
    table.modify (fun other => key other = key row) f hkey
  else table.insert row

@[simp] theorem get_empty (k : κ) : (empty : Table key).get k = none := rfl

theorem get_eq_some_iff {table : Table key} {k : κ} {row : ρ} :
    table.get k = some row ↔ row ∈ table.rows ∧ key row = k := by
  constructor
  · intro hget
    exact ⟨List.mem_of_find?_eq_some hget,
      by simpa using List.find?_some hget⟩
  · rintro ⟨hmem, rfl⟩
    cases hget : table.get (key row) with
    | none =>
        exact absurd (List.mem_map_of_mem hmem) (get_eq_none_iff.mp hget)
    | some other =>
        have hother : other ∈ table.rows := List.mem_of_find?_eq_some hget
        have hkeys : key other = key row := by
          simpa using List.find?_some hget
        rw [List.inj_on_of_nodup_map table.keys_nodup hother hmem hkeys]

theorem mem_of_get {table : Table key} {k : κ} {row : ρ}
    (hget : table.get k = some row) : row ∈ table.rows :=
  (get_eq_some_iff.mp hget).1

theorem key_of_get {table : Table key} {k : κ} {row : ρ}
    (hget : table.get k = some row) : key row = k :=
  (get_eq_some_iff.mp hget).2

theorem get_of_mem {table : Table key} {row : ρ} (hmem : row ∈ table.rows) :
    table.get (key row) = some row :=
  get_eq_some_iff.mpr ⟨hmem, rfl⟩

@[simp] theorem get_modify (table : Table key) (p : ρ → Bool) (f : ρ → ρ)
    (hkey : ∀ row, key (f row) = key row) (k : κ) :
    (table.modify p f hkey).get k =
      (table.get k).map fun row => if p row then f row else row := by
  simp only [get, modify, List.find?_map]
  congr 2
  funext row
  simp only [Function.comp_apply]
  split
  · rw [hkey row]
  · rfl

@[simp] theorem get_filter (table : Table key) (p : ρ → Bool) (k : κ) :
    (table.filter p).get k = (table.get k).filter p := by
  cases hget : table.get k with
  | none =>
      rw [Option.filter_none, get_eq_none_iff]
      exact fun hmem => get_eq_none_iff.mp hget
        ((List.filter_sublist.map key).subset hmem)
  | some row =>
      obtain ⟨hmem, rfl⟩ := get_eq_some_iff.mp hget
      cases hp : p row with
      | true =>
          rw [Option.filter_some, if_pos hp]
          exact get_of_mem (List.mem_filter.mpr ⟨hmem, hp⟩)
      | false =>
          rw [Option.filter_some, if_neg (by simp [hp]), get_eq_none_iff]
          intro hkept
          obtain ⟨other, hother, hkeys⟩ := List.mem_map.mp hkept
          obtain ⟨hold, hpother⟩ := List.mem_filter.mp hother
          rw [List.inj_on_of_nodup_map table.keys_nodup hold hmem hkeys] at hpother
          exact Bool.false_ne_true (hp ▸ hpother)

theorem get_insert (table : Table key) (row : ρ) (k : κ) :
    (table.insert row).get k =
      (table.get k).or (if key row = k then some row else none) := by
  unfold insert
  split
  · simp only [get, List.find?_append, List.find?_singleton, decide_eq_true_eq]
  · next htaken =>
      cases hget : table.get k with
      | some other => rfl
      | none =>
          rw [Option.none_or, if_neg]
          rintro rfl
          exact htaken hget

theorem get_insert_of_get {table : Table key} {row other : ρ} {k : κ}
    (hget : table.get k = some other) :
    (table.insert row).get k = some other := by
  rw [get_insert, hget, Option.some_or]

theorem get_insert_of_ne {table : Table key} {row : ρ} {k : κ}
    (hne : key row ≠ k) : (table.insert row).get k = table.get k := by
  rw [get_insert, if_neg hne, Option.or_none]

theorem get_insert_self {table : Table key} {row : ρ}
    (hfree : table.get (key row) = none) :
    (table.insert row).get (key row) = some row := by
  rw [get_insert, hfree, if_pos rfl, Option.none_or]

theorem get_upsert_of_ne {table : Table key} {row : ρ} {f : ρ → ρ}
    {hkey : ∀ row, key (f row) = key row} {k : κ} (hne : key row ≠ k) :
    (table.upsert row f hkey).get k = table.get k := by
  unfold upsert
  split
  · rw [get_modify]
    cases hget : table.get k with
    | none => rfl
    | some other =>
        have hother : key other ≠ key row := fun h =>
          hne (h.symm.trans (key_of_get hget))
        simp [hother]
  · exact get_insert_of_ne hne

theorem get_upsert_self (table : Table key) (row : ρ) (f : ρ → ρ)
    (hkey : ∀ row, key (f row) = key row) :
    (table.upsert row f hkey).get (key row) =
      some ((table.get (key row)).elim row f) := by
  unfold upsert
  cases hget : table.get (key row) with
  | none =>
      rw [if_neg (by simp)]
      exact get_insert_self hget
  | some old =>
      rw [if_pos (by simp), get_modify, hget]
      simp [key_of_get hget]

/-- INSERT of several rows. -/
def insertAll (table : Table key) (rows : List ρ) : Table key :=
  rows.foldl (fun table row => table.insert row) table

@[simp] theorem insertAll_nil (table : Table key) :
    table.insertAll [] = table := rfl

@[simp] theorem insertAll_cons (table : Table key) (row : ρ) (rows : List ρ) :
    table.insertAll (row :: rows) = (table.insert row).insertAll rows := rfl

theorem rows_insert (table : Table key) (row : ρ) :
    (table.insert row).rows =
      if table.get (key row) = none then table.rows ++ [row] else table.rows := by
  unfold insert
  split <;> rfl

theorem mem_insert {table : Table key} {row other : ρ}
    (hmem : other ∈ (table.insert row).rows) :
    other ∈ table.rows ∨ other = row := by
  rw [rows_insert] at hmem
  split at hmem
  · rwa [List.mem_append, List.mem_singleton] at hmem
  · exact .inl hmem

theorem mem_insertAll {table : Table key} {rows : List ρ} {other : ρ}
    (hmem : other ∈ (table.insertAll rows).rows) :
    other ∈ table.rows ∨ other ∈ rows := by
  induction rows generalizing table with
  | nil => exact .inl hmem
  | cons row rest ih =>
      rcases ih hmem with hmem | hmem
      · rcases mem_insert hmem with hmem | rfl
        · exact .inl hmem
        · exact .inr List.mem_cons_self
      · exact .inr (List.mem_cons_of_mem _ hmem)

/-- Rows with free and different keys are all inserted. -/
theorem rows_insertAll_of_free {table : Table key} {rows : List ρ}
    (hfree : ∀ row ∈ rows, table.get (key row) = none)
    (hnodup : (rows.map key).Nodup) :
    (table.insertAll rows).rows = table.rows ++ rows := by
  induction rows generalizing table with
  | nil => exact (List.append_nil _).symm
  | cons row rest ih =>
      have hrow := hfree row List.mem_cons_self
      rw [List.map_cons, List.nodup_cons] at hnodup
      have hrest : ∀ other ∈ rest, (table.insert row).get (key other) = none := by
        intro other hother
        have hne : key row ≠ key other := fun h =>
          hnodup.1 (h ▸ List.mem_map_of_mem hother)
        rw [get_insert_of_ne hne]
        exact hfree other (List.mem_cons_of_mem _ hother)
      rw [insertAll_cons, ih hrest hnodup.2, rows_insert, if_pos hrow,
        List.append_assoc]
      rfl

/-! ## What a table keeps -/

/-- Every row is still there, related to what it was. -/
def Keeps (R : ρ → ρ → Prop) (table table' : Table key) : Prop :=
  ∀ k row, table.get k = some row → ∃ row', table'.get k = some row' ∧ R row row'

section Keeps

variable {R : ρ → ρ → Prop} {table table' table'' : Table key}

theorem Keeps.refl (hrefl : ∀ row, R row row) (table : Table key) :
    table.Keeps R table :=
  fun _ row hrow => ⟨row, hrow, hrefl row⟩

theorem Keeps.trans
    (htrans : ∀ {row row' row''}, R row row' → R row' row'' → R row row'')
    (h : table.Keeps R table') (h' : table'.Keeps R table'') :
    table.Keeps R table'' := by
  intro k row hrow
  obtain ⟨row', hrow', hrelated⟩ := h k row hrow
  obtain ⟨row'', hrow'', hrelated'⟩ := h' k row' hrow'
  exact ⟨row'', hrow'', htrans hrelated hrelated'⟩

theorem keeps_insert (hrefl : ∀ row, R row row) (table : Table key)
    (row : ρ) : table.Keeps R (table.insert row) :=
  fun _ other hother => ⟨other, get_insert_of_get hother, hrefl other⟩

theorem keeps_modify (hrefl : ∀ row, R row row) (table : Table key)
    {p : ρ → Bool} {f : ρ → ρ} (hkey : ∀ row, key (f row) = key row)
    (hf : ∀ row, p row = true → R row (f row)) :
    table.Keeps R (table.modify p f hkey) := by
  intro k row hrow
  refine ⟨if p row then f row else row, by rw [get_modify, hrow]; rfl, ?_⟩
  by_cases hp : p row = true
  · rw [if_pos hp]
    exact hf row hp
  · rw [if_neg hp]
    exact hrefl row

end Keeps

/-- The one row that meets a condition under which keys agree. -/
theorem filter_eq_singleton {table : Table key} {p : ρ → Bool} {row : ρ}
    (hmem : row ∈ table.rows) (hp : p row = true)
    (hkey : ∀ other ∈ table.rows, p other = true → key other = key row) :
    table.rows.filter p = [row] := by
  have hnodup : (table.rows.filter p).Nodup :=
    (List.Nodup.of_map key table.keys_nodup).filter p
  refine List.perm_singleton.mp
    ((List.perm_ext_iff_of_nodup hnodup (List.nodup_singleton row)).mpr
      fun other => ?_)
  rw [List.mem_filter, List.mem_singleton]
  constructor
  · rintro ⟨hother, hpother⟩
    have hget := get_of_mem hother
    rw [hkey other hother hpother, get_of_mem hmem] at hget
    exact (Option.some.inj hget).symm
  · rintro rfl
    exact ⟨hmem, hp⟩

/-- An UPDATE by key replaces one row where it stands. -/
theorem rows_modify_of_get {table : Table key} {p : ρ → Bool} {f : ρ → ρ}
    {hkey : ∀ row, key (f row) = key row} {k : κ} {row : ρ}
    (hget : table.get k = some row)
    (hp : ∀ other, p other = true ↔ key other = k) :
    ∃ earlier later, table.rows = earlier ++ row :: later ∧
      (table.modify p f hkey).rows = earlier ++ f row :: later := by
  obtain ⟨earlier, later, hrows⟩ := List.append_of_mem (mem_of_get hget)
  have hnodup := table.keys_nodup
  rw [hrows, List.map_append, List.map_cons, List.nodup_append,
    List.nodup_cons] at hnodup
  obtain ⟨-, ⟨hlater, -⟩, hearlier⟩ := hnodup
  have hkept : ∀ rows : List ρ, key row ∉ rows.map key →
      (rows.map fun other => if p other then f other else other) = rows := by
    intro rows hnot
    refine (List.map_congr_left fun other hother => if_neg fun h => ?_).trans
      (List.map_id rows)
    refine hnot (List.mem_map.mpr ⟨other, hother, ?_⟩)
    rw [(hp other).mp h, key_of_get hget]
  refine ⟨earlier, later, hrows, ?_⟩
  simp only [modify, hrows, List.map_append, List.map_cons,
    if_pos ((hp row).mpr (key_of_get hget)), hkept later hlater,
    hkept earlier fun hmem =>
      hearlier _ hmem _ List.mem_cons_self rfl]

/-- The row behind a key of a modified table. -/
theorem get_modify_eq_some {table : Table key} {p : ρ → Bool} {f : ρ → ρ}
    (hkey : ∀ row, key (f row) = key row) {k : κ} {row' : ρ}
    (hget : (table.modify p f hkey).get k = some row') :
    ∃ row, table.get k = some row ∧ (if p row then f row else row) = row' := by
  rwa [get_modify, Option.map_eq_some_iff] at hget

theorem get_modify_of_untouched {table : Table key} {p : ρ → Bool} {f : ρ → ρ}
    {hkey : ∀ row, key (f row) = key row} {k : κ}
    (huntouched : ∀ row, key row = k → p row = false) :
    (table.modify p f hkey).get k = table.get k := by
  rw [get_modify]
  cases hget : table.get k with
  | none => rfl
  | some row => simp [huntouched row (key_of_get hget)]

/-- A row of a table after an insert was there or is the inserted one. -/
theorem get_insert_eq_some {table : Table key} {row other : ρ} {k : κ}
    (hget : (table.insert row).get k = some other) :
    table.get k = some other ∨ (other = row ∧ key row = k ∧ table.get k = none) := by
  rw [get_insert] at hget
  cases hold : table.get k with
  | some old =>
      rw [hold, Option.some_or] at hget
      exact .inl hget
  | none =>
      rw [hold, Option.none_or, Option.ite_none_right_eq_some,
        Option.some.injEq] at hget
      exact .inr ⟨hget.2.symm, hget.1, rfl⟩

end Table

end Relational
