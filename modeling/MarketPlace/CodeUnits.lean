import Mathlib.Data.List.Basic

/-!
# Texts of code units

Strings that are lists of UTF-16 code units, as in a language whose strings may
hold half a surrogate pair.  Decoding puts U+FFFD in the place of such a half,
and gives the text back exactly if there is none.
-/

namespace CodeUnits

abbrev Text := List UInt16

/-- The code units of a character. -/
def units (character : Char) : Text :=
  let code := character.toNat
  if code < 0x10000 then [code.toUInt16]
  else
    [(0xD800 + (code - 0x10000) / 0x400).toUInt16,
      (0xDC00 + (code - 0x10000) % 0x400).toUInt16]

def encode (characters : List Char) : Text :=
  characters.flatMap units

def utf16 (text : String) : Text :=
  encode text.toList

/-- The first half of a pair. -/
def isHigh (unit : UInt16) : Bool :=
  0xD800 ≤ unit.toNat && unit.toNat < 0xDC00

/-- The second half of a pair. -/
def isLow (unit : UInt16) : Bool :=
  0xDC00 ≤ unit.toNat && unit.toNat < 0xE000

def isSurrogate (unit : UInt16) : Bool := isHigh unit || isLow unit

/-- The character of a pair. -/
def paired (high low : UInt16) : Char :=
  Char.ofNat
    (0x10000 + (high.toNat - 0xD800) * 0x400 + (low.toNat - 0xDC00))

/-- The character of a unit that stands alone. -/
def single (unit : UInt16) : Char :=
  if isSurrogate unit then Char.ofNat 0xFFFD else Char.ofNat unit.toNat

def decode : Text → List Char
  | [] => []
  | [unit] => [single unit]
  | unit :: next :: rest =>
      if isHigh unit && isLow next then paired unit next :: decode rest
      else single unit :: decode (next :: rest)

/-- Every surrogate is part of a pair. -/
def isWellFormed : Text → Bool
  | [] => true
  | [unit] => !isSurrogate unit
  | unit :: next :: rest =>
      if isHigh unit && isLow next then isWellFormed rest
      else !isSurrogate unit && isWellFormed (next :: rest)

/-! ## Units of characters -/

theorem toNat_ofNat {code : ℕ} (hcode : code < 0xD800 ∨
    0xDFFF < code ∧ code < 0x110000) : (Char.ofNat code).toNat = code := by
  rw [Char.ofNat, dif_pos hcode]
  rfl

theorem toUInt16_eq {code : ℕ} {unit : UInt16} (hcode : code = unit.toNat) :
    code.toUInt16 = unit := by
  rw [hcode]
  exact UInt16.ofNat_toNat

theorem toNat_single {unit : UInt16} (hunit : isSurrogate unit = false) :
    (single unit).toNat = unit.toNat := by
  have hbound := unit.toNat_lt
  rw [single, hunit]
  simp only [isSurrogate, isHigh, isLow, Bool.or_eq_false_iff,
    Bool.and_eq_false_iff, decide_eq_false_iff_not] at hunit
  exact toNat_ofNat (by omega)

theorem units_single {unit : UInt16} (hunit : isSurrogate unit = false) :
    units (single unit) = [unit] := by
  have hbound := unit.toNat_lt
  rw [units, toNat_single hunit, if_pos (by omega), toUInt16_eq rfl]

theorem single_of_surrogate {unit : UInt16} (hunit : isSurrogate unit) :
    single unit = Char.ofNat 0xFFFD := by
  rw [single, if_pos hunit]

theorem units_replacement : units (Char.ofNat 0xFFFD) = [0xFFFD] := by
  decide

theorem toNat_paired {high low : UInt16} (hhigh : isHigh high)
    (hlow : isLow low) :
    (paired high low).toNat =
      0x10000 + (high.toNat - 0xD800) * 0x400 + (low.toNat - 0xDC00) := by
  simp only [isHigh, isLow, Bool.and_eq_true, decide_eq_true_eq] at hhigh hlow
  exact toNat_ofNat (by omega)

theorem units_paired {high low : UInt16} (hhigh : isHigh high)
    (hlow : isLow low) : units (paired high low) = [high, low] := by
  rw [units, toNat_paired hhigh hlow]
  simp only [isHigh, isLow, Bool.and_eq_true, decide_eq_true_eq] at hhigh hlow
  rw [if_neg (by omega), toUInt16_eq, toUInt16_eq]
  · omega
  · omega

theorem surrogate_ne_replacement {unit : UInt16} (hunit : isSurrogate unit) :
    unit ≠ 0xFFFD := by
  rintro rfl
  contradiction

theorem isHigh_isSurrogate {unit : UInt16} (hhigh : isHigh unit) :
    isSurrogate unit := by
  rw [isSurrogate, hhigh, Bool.true_or]

/-! ## Decoding -/

theorem encode_single (unit : UInt16) (rest : List Char) :
    encode (single unit :: rest) =
      (if isSurrogate unit then 0xFFFD else unit) :: encode rest := by
  rw [encode, List.flatMap_cons]
  by_cases hunit : isSurrogate unit
  · rw [single_of_surrogate hunit, units_replacement, if_pos hunit]
    rfl
  · rw [units_single (by simpa using hunit), if_neg hunit]
    rfl

/-- One unit is kept as it is if it is no surrogate. -/
theorem encode_single_eq_iff (unit : UInt16) (rest : List Char) (text : Text) :
    encode (single unit :: rest) = unit :: text ↔
      isSurrogate unit = false ∧ encode rest = text := by
  rw [encode_single, List.cons.injEq]
  apply and_congr_left
  intro _
  by_cases hunit : isSurrogate unit
  · simp [hunit, (surrogate_ne_replacement hunit).symm]
  · simp [hunit]

/-- A text is read back from its characters exactly if it is well formed. -/
theorem encode_decode_iff (text : Text) :
    encode (decode text) = text ↔ isWellFormed text := by
  fun_induction decode text with
  | case1 => simp [encode, isWellFormed]
  | case2 unit =>
      rw [encode_single_eq_iff, isWellFormed]
      simp [encode]
  | case3 unit next rest hpair ih =>
      have hboth := hpair
      rw [Bool.and_eq_true] at hboth
      rw [isWellFormed, if_pos hpair, ← ih, encode, List.flatMap_cons,
        units_paired hboth.1 hboth.2]
      simp [encode]
  | case4 unit next rest hpair ih =>
      rw [encode_single_eq_iff, ih, isWellFormed, if_neg hpair]
      simp

section Plain

variable {character : Char}

theorem toNat_unit (hcode : character.toNat < 0xD800) :
    character.toNat.toUInt16.toNat = character.toNat := by
  change (UInt16.ofNat character.toNat).toNat = _
  rw [UInt16.toNat_ofNat']
  omega

/-- A character below the surrogates comes from its own unit alone. -/
theorem single_eq_iff (hcode : character.toNat < 0xD800) (unit : UInt16) :
    single unit = character ↔ unit = character.toNat.toUInt16 := by
  have hown := toNat_unit hcode
  by_cases hunit : isSurrogate unit
  · rw [single_of_surrogate hunit]
    constructor
    · rintro rfl
      exact absurd hcode (by decide)
    · rintro rfl
      simp only [isSurrogate, isHigh, isLow, Bool.or_eq_true, Bool.and_eq_true,
        decide_eq_true_eq] at hunit
      omega
  · have hsingle := toNat_single (by simpa using hunit)
    constructor
    · rintro rfl
      exact (toUInt16_eq hsingle).symm
    · rintro rfl
      exact Char.toNat_inj.mp (hsingle.trans hown)

theorem paired_ne (hcode : character.toNat < 0xD800) {high low : UInt16}
    (hhigh : isHigh high) (hlow : isLow low) :
    paired high low ≠ character ∧ high ≠ character.toNat.toUInt16 ∧
      low ≠ character.toNat.toUInt16 := by
  have hown := toNat_unit hcode
  have hpaired := toNat_paired hhigh hlow
  simp only [isHigh, isLow, Bool.and_eq_true, decide_eq_true_eq] at hhigh hlow
  refine ⟨?_, ?_, ?_⟩
  · rintro rfl
    omega
  · rintro rfl
    omega
  · rintro rfl
    omega

theorem mem_decode_iff (hcode : character.toNat < 0xD800) (text : Text) :
    character ∈ decode text ↔ character.toNat.toUInt16 ∈ text := by
  fun_induction decode text with
  | case1 => simp
  | case2 unit =>
      rw [List.mem_singleton, List.mem_singleton, eq_comm, single_eq_iff hcode,
        eq_comm]
  | case3 unit next rest hpair ih =>
      rw [Bool.and_eq_true] at hpair
      obtain ⟨hpaired, hhigh, hlow⟩ := paired_ne hcode hpair.1 hpair.2
      simp [ih, hpaired.symm, hhigh.symm, hlow.symm]
  | case4 unit next rest hpair ih =>
      have hsingle : character = single unit ↔
          character.toNat.toUInt16 = unit := by
        rw [eq_comm, single_eq_iff hcode, eq_comm]
      rw [List.mem_cons, ih, hsingle]
      exact List.mem_cons.symm

theorem all_decode_iff (hcode : character.toNat < 0xD800) (text : Text) :
    (∀ other ∈ decode text, other = character) ↔
      ∀ unit ∈ text, unit = character.toNat.toUInt16 := by
  fun_induction decode text with
  | case1 => simp
  | case2 unit => simp [single_eq_iff hcode]
  | case3 unit next rest hpair ih =>
      rw [Bool.and_eq_true] at hpair
      obtain ⟨hpaired, hhigh, hlow⟩ := paired_ne hcode hpair.1 hpair.2
      simp [hpaired, hhigh]
  | case4 unit next rest hpair ih =>
      rw [List.forall_mem_cons, ih, single_eq_iff hcode]
      conv_rhs => rw [List.forall_mem_cons]

end Plain

end CodeUnits
