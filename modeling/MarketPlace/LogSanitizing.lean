import Mathlib.Data.List.Forall2
import Mathlib.Data.Nat.Digits.Lemmas
import Mathlib.Data.Rat.Defs
import MarketPlace.CodeUnits

/-!
# Values for the log

`sanitizeForLog` cuts a value down to what a line of the log may hold: secrets
by the names of their fields, long texts, long arrays, large objects and
whatever is nested deeply.  It follows the value from node to node, and ends by
the depth alone.

Texts are measured and cut in code units.
-/

namespace MarketPlace.Logging

open CodeUnits

/-- The digits of a number in a text. -/
def decimal (number : ℕ) : Text :=
  if number = 0 then utf16 "0"
  else (Nat.digits 10 number).reverse.map fun digit => (48 + digit).toUInt16

/-- `toLowerCase`, of which only the letters of ASCII are known here. -/
structure LowerCase where
  toLowerCase : Text → Text
  ascii : ∀ text : Text, (∀ unit ∈ text, unit < 128) →
    toLowerCase text = text.map fun unit =>
      if 65 ≤ unit ∧ unit ≤ 90 then unit + 32 else unit

/-- A lower case that leaves everything outside ASCII. -/
def asciiLowerCase : LowerCase where
  toLowerCase text := text.map fun unit =>
    if 65 ≤ unit ∧ unit ≤ 90 then unit + 32 else unit
  ascii _ _ := rfl

/-- What is neither a text nor has parts. -/
inductive Plain where
  | undefined
  | null
  | bool (value : Bool)
  | number (value : ℚ)
  | other (identity : ℕ)
  deriving DecidableEq, Repr

/-- A value, down to its parts; the fields of an object are its own entries in
their order. -/
inductive Shape (V : Type) where
  | plain (value : Plain)
  | text (content : Text)
  | array (items : List V)
  | object (fields : List (Text × V))

/-- A value without cycles. -/
inductive Tree where
  | plain (value : Plain)
  | text (content : Text)
  | array (items : List Tree)
  | object (fields : List (Text × Tree))

def Tree.shape : Tree → Shape Tree
  | .plain value => .plain value
  | .text content => .text content
  | .array items => .array items
  | .object fields => .object fields

/-! ## The sanitizer -/

/-- `SENSITIVE_KEYS`. -/
def sensitiveKeys : List Text :=
  ["password", "token", "authorization", "secret", "otp", "refreshtoken",
    "accesstoken"].map utf16

def maxStringLength : ℕ := 300

def maxArrayLength : ℕ := 20

def maxObjectKeys : ℕ := 30

def maxDepth : ℕ := 4

/-- `...[truncated:${lost}]`. -/
def truncation (lost : ℕ) : Text :=
  utf16 "...[truncated:" ++ decimal lost ++ utf16 "]"

def cutText (content : Text) : Text :=
  if maxStringLength < content.length then
    content.take maxStringLength ++
      truncation (content.length - maxStringLength)
  else content

def depthLimited : Tree := .text (utf16 "[depth-limited]")

def redacted : Tree := .text (utf16 "[REDACTED]")

/-- The item that is pushed behind those that are kept. -/
def arrayMarker (length : ℕ) : List Tree :=
  if maxArrayLength < length then
    [.text (utf16 "[truncated:" ++ decimal (length - maxArrayLength) ++
      utf16 "]")]
  else []

/-- An assignment to this key sets the prototype, which is no entry. -/
def proto : Text := utf16 "__proto__"

@[simp] theorem length_truncation (lost : ℕ) :
    (truncation lost).length = 15 + (decimal lost).length := by
  have hopening : (utf16 "...[truncated:").length = 14 := by decide +kernel
  have hclosing : (utf16 "]").length = 1 := by decide +kernel
  rw [truncation, List.length_append, List.length_append, hopening, hclosing]
  omega

/-- The digits of a number are read back from its text. -/
theorem digits_of_decimal {number : ℕ} (hnumber : number ≠ 0) :
    (decimal number).reverse.map (fun unit => unit.toNat - 48) =
      Nat.digits 10 number := by
  have hdigit : ∀ digit < 10, (48 + digit).toUInt16.toNat - 48 = digit := by
    decide
  rw [decimal, if_neg hnumber, ← List.map_reverse, List.reverse_reverse,
    List.map_map]
  conv_rhs => rw [← List.map_id (Nat.digits 10 number)]
  apply List.map_congr_left
  intro digit hmem
  exact hdigit digit (Nat.digits_lt_base (by decide) hmem)

theorem decimal_inj {left right : ℕ} (hleft : left ≠ 0) (hright : right ≠ 0)
    (hequal : decimal left = decimal right) : left = right := by
  have hdigits := digits_of_decimal hleft
  rw [hequal, digits_of_decimal hright] at hdigits
  exact Nat.digits_inj_iff.mp hdigits.symm

theorem cutText_of_short {content : Text}
    (hshort : content.length ≤ maxStringLength) : cutText content = content :=
  if_neg (by omega)

theorem cutText_of_long {content : Text}
    (hlong : maxStringLength < content.length) :
    cutText content =
      content.take maxStringLength ++
        truncation (content.length - maxStringLength) :=
  if_pos hlong

variable (lower : LowerCase)

/-- `key.toLowerCase().replace(/[_-]/g, '')` in `SENSITIVE_KEYS`. -/
def isSensitive (key : Text) : Bool :=
  sensitiveKeys.contains
    ((lower.toLowerCase key).filter fun unit => unit ≠ 95 && unit ≠ 45)

/-- The entries of an object that `out` gets. -/
def kept (fields : List (Text × V)) : List (Text × V) :=
  (fields.take maxObjectKeys).filter fun field => field.1 ≠ proto

def outEntries (sanitize : V → Tree) (fields : List (Text × V)) :
    List (Text × Tree) :=
  (kept fields).map fun field =>
    (field.1, if isSensitive lower field.1 then redacted else sanitize field.2)

theorem length_arrayMarker (length : ℕ) :
    (arrayMarker length).length = if maxArrayLength < length then 1 else 0 := by
  unfold arrayMarker
  split <;> rfl

theorem length_outEntries_le (sanitize : V → Tree) (fields : List (Text × V)) :
    (outEntries lower sanitize fields).length ≤ maxObjectKeys := by
  rw [outEntries, List.length_map]
  exact (List.length_filter_le _ _).trans (List.length_take_le _ _)

theorem map_eq_map_iff {f : α → γ} {g : β → γ} {left : List α} {right : List β} :
    left.map f = right.map g ↔
      List.Forall₂ (fun item other => f item = g other) left right := by
  rw [← List.forall₂_eq_eq_eq, List.forall₂_map_left_iff,
    List.forall₂_map_right_iff]

/-- Objects with the same keys keep the same of their entries. -/
theorem forall₂_kept {R : Text × V → Text × W → Prop}
    (hkeys : ∀ field other, R field other → field.1 = other.1)
    {fields : List (Text × V)} {others : List (Text × W)}
    (hfields : List.Forall₂ R fields others) :
    List.Forall₂ R (kept fields) (kept others) := by
  refine List.rel_filter ?_ (List.forall₂_take _ hfields)
  intro field other hentry
  simp only [hkeys field other hentry]

/-- `levels` is `MAX_DEPTH - depth`. -/
def sanitizeForLog (shape : V → Shape V) : (levels : ℕ) → V → Tree
  | 0, value =>
      match shape value with
      | .plain value => .plain value
      | .text content => .text (cutText content)
      | .array _ | .object _ => depthLimited
  | levels + 1, value =>
      match shape value with
      | .plain value => .plain value
      | .text content => .text (cutText content)
      | .array items =>
          .array ((items.take maxArrayLength).map (sanitizeForLog shape levels) ++
            arrayMarker items.length)
      | .object fields =>
          .object (outEntries lower (sanitizeForLog shape levels) fields)

end MarketPlace.Logging
