import Mathlib.Tactic.Common

/-!
# Statements with numbered parameters

A statement is put together from clauses that refer to their parameters by
number, while the parameters are collected in a list.  A fragment of optional
clauses, numbered from a base, means the conjunction of its tests wherever its
parameters stand behind as many others as the base says.
-/

namespace NumberedParameters

variable {ν κ α : Type}

/-- The value of `$number`, where parameters count from one. -/
def bound (params : List ν) : ℕ → Option ν
  | 0 => none
  | position + 1 => params[position]?

@[simp] theorem bound_succ (params : List ν) (position : ℕ) :
    bound params (position + 1) = params[position]? := rfl

theorem bound_append_cons (leading rest : List ν) (value : ν) :
    bound (leading ++ value :: rest) (leading.length + 1) = some value := by
  simp

theorem bound_of_append {leading rest : List ν} {value : ν} {number : ℕ}
    (hnumber : number = leading.length + 1) :
    bound (leading ++ value :: rest) number = some value := by
  rw [hnumber]
  exact bound_append_cons leading rest value

/-! ## The numbers of a statement -/

/-- What the server asks of the numbers in a statement with `count`
parameters: each number is one of theirs, and each of theirs is used. -/
def covers (count : ℕ) (numbers : List ℕ) : Bool :=
  (numbers.all fun number => 0 < number && number ≤ count) &&
    (List.range count).all fun position => numbers.contains (position + 1)

theorem covers_of_forall {count : ℕ} {numbers : List ℕ}
    (h : ∀ number, number ∈ numbers ↔ 0 < number ∧ number ≤ count) :
    covers count numbers = true := by
  simp only [covers, Bool.and_eq_true, List.all_eq_true, List.contains_iff_mem,
    decide_eq_true_eq, List.mem_range]
  constructor
  · intro number hnumber
    exact (h number).mp hnumber
  · intro position hposition
    exact (h (position + 1)).mpr ⟨by omega, by omega⟩

/-! ## Conjunctions of clauses -/

/-- The conjunction, unless a conjunct cannot be evaluated. -/
def conjunction : List (Option Bool) → Option Bool
  | [] => some true
  | conjunct :: rest => do
      let value ← conjunct
      let others ← conjunction rest
      some (value && others)

@[simp] theorem conjunction_nil : conjunction [] = some true := rfl

@[simp] theorem conjunction_cons_some (value : Bool)
    (rest : List (Option Bool)) :
    conjunction (some value :: rest) = (conjunction rest).map (value && ·) := by
  cases h : conjunction rest <;> simp [conjunction, h]

theorem conjunction_append {conjuncts others : List (Option Bool)}
    {value other : Bool} (h : conjunction conjuncts = some value)
    (hothers : conjunction others = some other) :
    conjunction (conjuncts ++ others) = some (value && other) := by
  induction conjuncts generalizing value with
  | nil =>
      obtain rfl := Option.some.inj h
      simpa using hothers
  | cons conjunct rest ih =>
      obtain ⟨first, rfl, hrest⟩ := Option.bind_eq_some_iff.mp h
      obtain ⟨last, hlast, hvalue⟩ := Option.bind_eq_some_iff.mp hrest
      obtain rfl := Option.some.inj hvalue
      rw [List.cons_append, conjunction_cons_some, ih hlast, Option.map_some,
        Bool.and_assoc]

/-- The rows that a condition keeps, unless it cannot be evaluated. -/
def keep (condition : α → Option Bool) : List α → Option (List α)
  | [] => some []
  | row :: rest => do
      let kept ← condition row
      let others ← keep condition rest
      some (if kept then row :: others else others)

/-- The clauses written so far and the parameters collected for them. -/
structure Fragment (ν κ : Type) where
  clauses : List κ
  params : List ν

namespace Fragment

variable {base number : ℕ} {fragment : Fragment ν κ}

def empty : Fragment ν κ := ⟨[], []⟩

/-- Where a value is given, it is pushed to the parameters, and the clause
refers to it by the number it then has behind `base` others. -/
def push (base : ℕ) (value : Option ν) (clause : ℕ → κ)
    (fragment : Fragment ν κ) : Fragment ν κ :=
  match value with
  | none => fragment
  | some value =>
      let params := fragment.params ++ [value]
      ⟨fragment.clauses ++ [clause (base + params.length)], params⟩

/-- What the fragment means, given how a clause is evaluated. -/
def Means (holds : List ν → κ → Option Bool) (base : ℕ) (test : Bool)
    (fragment : Fragment ν κ) : Prop :=
  ∀ leading trailing : List ν, leading.length = base →
    conjunction (fragment.clauses.map
      (holds (leading ++ fragment.params ++ trailing))) = some test

/-- A further clause adds its test, if its value is given. -/
theorem Means.push {holds : List ν → κ → Option Bool} {test : Bool}
    {value : Option ν} {clause : ℕ → κ} {result : ν → Bool}
    (h : fragment.Means holds base test)
    (hclause : ∀ params number given, value = some given →
      bound params number = some given →
      holds params (clause number) = some (result given)) :
    (fragment.push base value clause).Means holds base
      (test && value.all result) := by
  cases value with
  | none => simpa [Fragment.push] using h
  | some given =>
      intro leading trailing hbase
      have hbefore := h leading (given :: trailing) hbase
      have hnumber : bound (leading ++ (fragment.params ++ [given]) ++ trailing)
          (base + (fragment.params ++ [given]).length) = some given := by
        have hsplit : leading ++ (fragment.params ++ [given]) ++ trailing =
            (leading ++ fragment.params) ++ given :: trailing := by simp
        rw [hsplit]
        exact bound_of_append (by simp; omega)
      have hadded := hclause _ _ given rfl hnumber
      have hsame : leading ++ fragment.params ++ given :: trailing =
          leading ++ (fragment.params ++ [given]) ++ trailing := by simp
      rw [hsame] at hbefore
      simp only [Fragment.push, List.map_append, List.map_cons, List.map_nil,
        Option.all_some]
      refine conjunction_append hbefore ?_
      rw [hadded, conjunction_cons_some]
      simp

/-- The clauses use the numbers of the fragment's own parameters. -/
def Numbered (number : κ → ℕ) (base : ℕ) (fragment : Fragment ν κ) : Prop :=
  ∀ k, k ∈ fragment.clauses.map number ↔
    base < k ∧ k ≤ base + fragment.params.length

theorem Numbered.push {number : κ → ℕ} {value : Option ν} {clause : ℕ → κ}
    (h : fragment.Numbered number base)
    (hclause : ∀ k, number (clause k) = k) :
    (fragment.push base value clause).Numbered number base := by
  cases value with
  | none => exact h
  | some given =>
      intro k
      have hbefore := h k
      simp only [Fragment.push, List.map_append, List.map_cons, List.map_nil,
        List.mem_append, List.mem_singleton, hclause, hbefore,
        List.length_append, List.length_singleton]
      omega

end Fragment

/-! ## Rows of parameters -/

theorem length_flatten {rows : List (List α)} {width : ℕ}
    (hwidth : ∀ row ∈ rows, row.length = width) :
    rows.flatten.length = rows.length * width := by
  induction rows with
  | nil => simp
  | cons row rest ih =>
      have hrest := ih fun other hother =>
        hwidth other (List.mem_cons_of_mem _ hother)
      rw [List.flatten_cons, List.length_append, hrest,
        hwidth row List.mem_cons_self, List.length_cons, Nat.succ_mul,
        Nat.add_comm]

/-- Where all rows have one width, the position in the flat list is counted in
rows and columns. -/
theorem getElem?_flatten {rows : List (List α)} {width : ℕ}
    (hwidth : ∀ row ∈ rows, row.length = width) {column : ℕ}
    (hcolumn : column < width) (number : ℕ) :
    rows.flatten[number * width + column]? =
      rows[number]?.bind fun row => row[column]? := by
  induction rows generalizing number with
  | nil => simp
  | cons row rest ih =>
      have hrow : row.length = width := hwidth row List.mem_cons_self
      have hrest := ih fun other hother =>
        hwidth other (List.mem_cons_of_mem _ hother)
      cases number with
      | zero =>
          rw [Nat.zero_mul, Nat.zero_add, List.flatten_cons,
            List.getElem?_append_left (by omega)]
          rfl
      | succ number =>
          have hindex : (number + 1) * width + column - row.length =
              number * width + column := by
            rw [Nat.succ_mul]
            omega
          rw [List.flatten_cons, List.getElem?_append_right (by
            rw [Nat.succ_mul]
            omega), hindex, hrest, List.getElem?_cons_succ]

/-- The parameter in a column of a row, behind one parameter of its own. -/
theorem bound_cons_flatten {rows : List (List ν)} {width : ℕ} {leading : ν}
    (hwidth : ∀ row ∈ rows, row.length = width) {column : ℕ}
    (hcolumn : column < width) (number : ℕ) :
    bound (leading :: rows.flatten) (number * width + column + 2) =
      rows[number]?.bind fun row => row[column]? :=
  getElem?_flatten hwidth hcolumn number

theorem mapM_eq_some {β : Type} {f : α → Option β} {values : List α}
    {results : List β} (h : values.map f = results.map some) :
    values.mapM f = some results := by
  induction values generalizing results with
  | nil =>
      cases results with
      | nil => rfl
      | cons result rest => contradiction
  | cons value values ih =>
      cases results with
      | nil => contradiction
      | cons result rest =>
          obtain ⟨hvalue, hrest⟩ := List.cons.inj h
          rw [List.mapM_cons, hvalue, ih hrest]
          rfl

end NumberedParameters
