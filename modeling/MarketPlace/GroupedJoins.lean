import Mathlib.Data.List.Dedup
import Mathlib.Data.List.ReduceOption
import Mathlib.Data.Rat.Floor
import Mathlib.Algebra.Order.Floor.Semifield
import Mathlib.Algebra.Order.BigOperators.Group.List
import MarketPlace.KeyedTables

/-!
# Left joins and groups

LEFT JOIN, GROUP BY and AVG over lists of rows.  A join may multiply the rows
of its left side, and grouping by a key of the left side undoes that: the
groups are again the rows of the left side, each with all its matches.
-/

namespace Relational

variable {α β γ κ : Type}

/-! ## Left joins -/

/-- A row beside its matches, or beside a null if there is none. -/
def beside (row : α) : List β → List (α × Option β)
  | [] => [(row, none)]
  | other :: others =>
      (row, some other) :: others.map fun other => (row, some other)

/-- `rows LEFT JOIN others ON on`. -/
def leftJoin (on : α → β → Bool) (rows : List α) (others : List β) :
    List (α × Option β) :=
  rows.flatMap fun row => beside row (others.filter (on row))

@[simp] theorem beside_ne_nil (row : α) (others : List β) :
    beside row others ≠ [] := by
  cases others <;> simp [beside]

theorem fst_of_mem_beside {row : α} {others : List β} {joined : α × Option β}
    (h : joined ∈ beside row others) : joined.1 = row := by
  cases others with
  | nil => exact congrArg Prod.fst (List.mem_singleton.mp h)
  | cons other others =>
      rcases List.mem_cons.mp h with rfl | hmem
      · rfl
      · obtain ⟨other, -, rfl⟩ := List.mem_map.mp hmem
        rfl

theorem head?_beside (row : α) (others : List β) :
    (beside row others).head? = some (row, others.head?) := by
  cases others <;> rfl

/-- The matches that are not null. -/
theorem reduceOption_beside (row : α) (others : List β) :
    ((beside row others).map Prod.snd).reduceOption = others := by
  have hmatches : (others.map (some : β → Option β)).reduceOption = others := by
    induction others with
    | nil => rfl
    | cons other others ih =>
        rw [List.map_cons, List.reduceOption_cons_of_some, ih]
  cases others with
  | nil => rfl
  | cons other others =>
      rw [beside, List.map_cons, List.map_map]
      exact hmatches

/-- A join that matches at most one row adds columns and no rows. -/
theorem leftJoin_of_unique {on : α → β → Bool} {others : List β}
    {found : α → Option β}
    (hfound : ∀ row, others.filter (on row) = (found row).toList)
    (rows : List α) :
    leftJoin on rows others = rows.map fun row => (row, found row) := by
  have hbeside : ∀ row,
      beside row (others.filter (on row)) = [(row, found row)] := by
    intro row
    rw [hfound row]
    cases found row <;> rfl
  rw [leftJoin, List.flatMap_congr fun row _ => hbeside row,
    ← List.map_eq_flatMap]

/-- A reference to a table with a key finds the row with that key. -/
theorem Table.filter_reference {key : α → κ} [DecidableEq κ]
    (table : Table key) (reference : Option κ) (p : α → Bool) :
    (table.rows.filter fun row => reference = some (key row) && p row) =
      ((reference.bind table.get).filter p).toList := by
  cases hfound : (reference.bind table.get).filter p with
  | some row =>
      obtain ⟨hbind, hp⟩ := Option.filter_eq_some_iff.mp hfound
      obtain ⟨k, rfl, hget⟩ := Option.bind_eq_some_iff.mp hbind
      have hkey := Table.key_of_get hget
      refine Table.filter_eq_singleton (Table.mem_of_get hget) ?_ ?_
      · simp [hkey, hp]
      · intro other _ hother
        simp only [Bool.and_eq_true, decide_eq_true_eq, Option.some.injEq]
          at hother
        rw [hkey, hother.1]
  | none =>
      rw [Option.toList_none, List.filter_eq_nil_iff]
      intro row hrow hmatch
      simp only [Bool.and_eq_true, decide_eq_true_eq] at hmatch
      obtain ⟨rfl, hp⟩ := hmatch
      rw [Option.bind_some, Table.get_of_mem hrow, Option.filter_some,
        if_pos hp] at hfound
      contradiction

/-! ## Groups -/

section Groups

variable [DecidableEq κ] {key : β → κ}

/-- `GROUP BY key`: one group for each value of the key. -/
def groupBy (key : β → κ) (rows : List β) : List (List β) :=
  (rows.map key).dedup.map fun k => rows.filter fun row => key row = k

theorem dedup_map_append {group rows : List β} {k : κ} (hne : group ≠ [])
    (hgroup : ∀ row ∈ group, key row = k) (hrows : ∀ row ∈ rows, key row ≠ k) :
    ((group ++ rows).map key).dedup = k :: (rows.map key).dedup := by
  induction group with
  | nil => contradiction
  | cons row group ih =>
      rw [List.forall_mem_cons] at hgroup
      rw [List.cons_append, List.map_cons, hgroup.1]
      by_cases hnil : group = []
      · subst hnil
        refine List.dedup_cons_of_notMem fun hmem => ?_
        obtain ⟨other, hother, hkey⟩ := List.mem_map.mp hmem
        exact hrows other hother hkey
      · obtain ⟨other, hother⟩ := List.exists_mem_of_ne_nil group hnil
        have hmem : k ∈ (group ++ rows).map key :=
          List.mem_map.mpr
            ⟨other, List.mem_append_left rows hother, hgroup.2 other hother⟩
        rw [List.dedup_cons_of_mem hmem]
        exact ih hnil hgroup.2

/-- Rows that come first and share a key that no later row has are a group. -/
theorem groupBy_append {group rows : List β} {k : κ} (hne : group ≠ [])
    (hgroup : ∀ row ∈ group, key row = k) (hrows : ∀ row ∈ rows, key row ≠ k) :
    groupBy key (group ++ rows) = group :: groupBy key rows := by
  have hfirst : (group ++ rows).filter (fun row => key row = k) = group := by
    rw [List.filter_append, List.filter_eq_self.mpr fun row hrow => by
      simpa using hgroup row hrow, List.filter_eq_nil_iff.mpr fun row hrow => by
      simpa using hrows row hrow, List.append_nil]
  rw [groupBy, dedup_map_append hne hgroup hrows, List.map_cons, hfirst,
    groupBy]
  congr 1
  refine List.map_congr_left fun other hother => ?_
  obtain ⟨row, hrow, rfl⟩ := List.mem_map.mp (List.mem_dedup.mp hother)
  rw [List.filter_append, List.filter_eq_nil_iff.mpr fun first hfirst => ?_,
    List.nil_append]
  rw [hgroup first hfirst, decide_eq_true_eq]
  exact Ne.symm (hrows row hrow)

/-- Grouping by a key of the left side undoes a join. -/
theorem groupBy_flatMap {f : α → List β} {leftKey : α → κ} {rows : List α}
    (hnodup : (rows.map leftKey).Nodup) (hne : ∀ row ∈ rows, f row ≠ [])
    (hkey : ∀ row ∈ rows, ∀ joined ∈ f row, key joined = leftKey row) :
    groupBy key (rows.flatMap f) = rows.map f := by
  induction rows with
  | nil => rfl
  | cons row rows ih =>
      rw [List.map_cons, List.nodup_cons] at hnodup
      rw [List.forall_mem_cons] at hne hkey
      have hlater : ∀ joined ∈ rows.flatMap f, key joined ≠ leftKey row := by
        intro joined hjoined heq
        obtain ⟨other, hother, hmem⟩ := List.mem_flatMap.mp hjoined
        rw [hkey.2 other hother joined hmem] at heq
        exact hnodup.1 (heq ▸ List.mem_map_of_mem hother)
      rw [List.flatMap_cons, groupBy_append hne.1 hkey.1 hlater,
        ih hnodup.2 hne.2 hkey.2, List.map_cons]

/-- `WHERE` on columns of the left side chooses among its rows. -/
theorem filter_flatMap_left {f : α → List β} {p : β → Bool} {q : α → Bool}
    {rows : List α}
    (hp : ∀ row ∈ rows, ∀ joined ∈ f row, p joined = q row) :
    (rows.flatMap f).filter p = (rows.filter q).flatMap f := by
  induction rows with
  | nil => rfl
  | cons row rows ih =>
      rw [List.forall_mem_cons] at hp
      rw [List.flatMap_cons, List.filter_append, ih hp.2]
      cases hq : q row with
      | true =>
          rw [List.filter_cons_of_pos hq, List.flatMap_cons,
            List.filter_eq_self.mpr fun joined hjoined =>
              (hp.1 joined hjoined).trans hq]
      | false =>
          rw [List.filter_cons_of_neg (by simp [hq]),
            List.filter_eq_nil_iff.mpr fun joined hjoined => by
              simp [hp.1 joined hjoined, hq],
            List.nil_append]

/-- A join of a table, restricted on its columns and grouped by its key,
perhaps with columns that the key determines. -/
theorem Table.groupBy_flatMap {κ' : Type} {tableKey : α → κ'}
    (table : Table tableKey) {f : α → List β} {p : β → Bool} {q : α → Bool}
    (leftKey : α → κ) (keyOf : κ → κ')
    (hkeyOf : ∀ row, keyOf (leftKey row) = tableKey row)
    (hne : ∀ row, f row ≠ [])
    (hp : ∀ row, ∀ joined ∈ f row, p joined = q row)
    (hkey : ∀ row, ∀ joined ∈ f row, key joined = leftKey row) :
    groupBy key ((table.rows.flatMap f).filter p) =
      (table.rows.filter q).map f := by
  have hnodup : ((table.rows.filter q).map leftKey).Nodup := by
    apply List.Nodup.of_map keyOf
    have hcompose : keyOf ∘ leftKey = tableKey := funext hkeyOf
    rw [List.map_map, hcompose]
    exact (table.filter q).keys_nodup
  rw [filter_flatMap_left fun row _ => hp row]
  exact Relational.groupBy_flatMap hnodup (fun row _ => hne row)
    fun row _ => hkey row

end Groups

/-! ## Averages -/

def mean (values : List ℕ) : ℚ := values.sum / values.length

/-- `AVG`, which skips nulls and is null without values. -/
def avg (values : List (Option ℕ)) : Option ℚ :=
  if values.reduceOption = [] then none else some (mean values.reduceOption)

/-- `ROUND(q, 2)` of a number that is not negative, in hundredths. -/
def roundHundredths (q : ℚ) : ℕ := ⌊100 * q + 1 / 2⌋₊

theorem roundHundredths_mono {q r : ℚ} (h : q ≤ r) :
    roundHundredths q ≤ roundHundredths r :=
  Nat.floor_mono (by linarith)

theorem roundHundredths_natCast (n : ℕ) : roundHundredths n = 100 * n := by
  rw [roundHundredths, Nat.floor_eq_iff (by positivity)]
  push_cast
  constructor <;> linarith

theorem roundHundredths_mean (values : List ℕ) (hne : values ≠ []) :
    roundHundredths (mean values) =
      (200 * values.sum + values.length) / (2 * values.length) := by
  have hlength : (values.length : ℚ) ≠ 0 := by
    exact_mod_cast mt List.length_eq_zero_iff.mp hne
  have hquotient : 100 * mean values + 1 / 2 =
      ((200 * values.sum + values.length : ℕ) : ℚ) /
        ((2 * values.length : ℕ) : ℚ) := by
    rw [mean]
    push_cast
    field_simp
    ring
  rw [roundHundredths, hquotient, Nat.floor_div_natCast, Nat.floor_natCast]

theorem mean_mem {values : List ℕ} {low high : ℕ} (hne : values ≠ [])
    (hwithin : ∀ value ∈ values, low ≤ value ∧ value ≤ high) :
    low ≤ mean values ∧ mean values ≤ high := by
  have hlength : (0 : ℚ) < values.length := by
    exact_mod_cast List.length_pos_iff.mpr hne
  have hlow := List.card_nsmul_le_sum values low fun value hvalue =>
    (hwithin value hvalue).1
  have hhigh := List.sum_le_card_nsmul values high fun value hvalue =>
    (hwithin value hvalue).2
  rw [nsmul_eq_mul, mul_comm] at hlow hhigh
  rw [mean, le_div_iff₀ hlength, div_le_iff₀ hlength]
  constructor
  · exact_mod_cast hlow
  · exact_mod_cast hhigh

end Relational
