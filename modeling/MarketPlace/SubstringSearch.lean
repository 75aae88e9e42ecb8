import MarketPlace.SearchSpecification
import MarketPlace.WildcardPatterns

/-!
# Searching for a part of a text

The searches for products and for users look for texts that contain what was
asked for, with `ILIKE` and a pattern that `escapeLike` makes of it.
-/

namespace MarketPlace.Trade

open Wildcards

/-- The characters that LIKE with `ESCAPE '\'` reads as marks. -/
def likeMarks : Marks Char := ⟨'\\', '%', '_'⟩

/-- LIKE, which is an error for a pattern that ends with the escape
character. -/
def matchesLike (text pattern : String) : Option Bool :=
  likeMarks.matches pattern.toList text.toList

/-- The lower-casing of the database's character type: no character becomes or
stops to be one that LIKE reads as a mark. -/
structure CaseFolding where
  fold : Char → Char
  percent : fold '%' = '%'
  backslash : fold '\\' = '\\'
  marks : ∀ c, likeMarks.Has (fold c) ↔ likeMarks.Has c

/-- ILIKE matches the lower-cased text with the lower-cased pattern. -/
def matchesIlike (folding : CaseFolding) (text pattern : String) : Option Bool :=
  likeMarks.matches (pattern.toList.map folding.fold)
    (text.toList.map folding.fold)

/-- The pattern that both services build. -/
def containsPattern (text : String) : String := "%" ++ escapeLike text ++ "%"

theorem toList_escapeLike (text : String) :
    (escapeLike text).toList = likeMarks.escaped text.toList := by
  rw [escapeLike, String.toList_ofList, Marks.escaped]
  refine List.flatMap_congr fun c _ => ?_
  have hhas : (c = '%' ∨ c = '_' ∨ c = '\\') ↔ likeMarks.Has c := by
    simp only [Marks.Has, likeMarks]
    tauto
  simp only [hhas]
  rfl

theorem toList_containsPattern (text : String) :
    (containsPattern text).toList = likeMarks.surrounding text.toList := by
  rw [containsPattern, String.toList_append, String.toList_append,
    toList_escapeLike]
  rfl

theorem like_containsPattern {wanted text : String} :
    matchesLike text (containsPattern wanted) = some true ↔
      wanted.toList <:+: text.toList := by
  rw [matchesLike, toList_containsPattern]
  exact Marks.matches_surrounding (by decide)

theorem ilike_containsPattern {folding : CaseFolding} {wanted text : String} :
    matchesIlike folding text (containsPattern wanted) = some true ↔
      wanted.toList.map folding.fold <:+: text.toList.map folding.fold := by
  rw [matchesIlike, toList_containsPattern, Marks.map_surrounding folding.percent
    folding.backslash folding.marks]
  exact Marks.matches_surrounding (by decide)

/-- For every text that is looked for and every text that is searched, LIKE
and ILIKE with the pattern of `escapeLike` find out whether the one occurs in
the other, for ILIKE up to case, whatever marks the texts hold. -/
theorem escapeLike_exact (wanted text : String) :
    (matchesLike text ("%" ++ escapeLike wanted ++ "%") = some true ↔
      wanted.toList <:+: text.toList) ∧
    ∀ folding : CaseFolding,
      (matchesIlike folding text ("%" ++ escapeLike wanted ++ "%") = some true ↔
        wanted.toList.map folding.fold <:+: text.toList.map folding.fold) :=
  ⟨like_containsPattern, fun _ => ilike_containsPattern⟩

/-- Lower-casing makes only letters, and only of letters. -/
theorem toLower_eq_iff {c mark : Char}
    (hlower : ¬ (97 ≤ mark.toNat ∧ mark.toNat ≤ 122))
    (hupper : ¬ (65 ≤ mark.toNat ∧ mark.toNat ≤ 90)) :
    c.toLower = mark ↔ c = mark := by
  unfold Char.toLower
  split
  · next hletter =>
      have hbounds : 65 ≤ c.toNat ∧ c.toNat ≤ 90 := hletter
      constructor
      · rintro rfl
        have hsum : (c.val + 32).toNat = c.toNat + 32 := by
          have hsmall : c.toNat + 32 < 2 ^ 32 := by omega
          rw [UInt32.toNat_add]
          exact Nat.mod_eq_of_lt hsmall
        have hmark : 97 ≤ (c.val + 32).toNat ∧ (c.val + 32).toNat ≤ 122 := by
          omega
        exact absurd hmark hlower
      · rintro rfl
        exact absurd hbounds hupper
  · exact Iff.rfl

/-- The lower-casing of the C locale. -/
def asciiFolding : CaseFolding where
  fold := Char.toLower
  percent := rfl
  backslash := rfl
  marks _ := or_congr (toLower_eq_iff (by decide) (by decide))
    (or_congr (toLower_eq_iff (by decide) (by decide))
      (toLower_eq_iff (by decide) (by decide)))

/-- A text with all three marks occurs in others, and not where one of its
marks would have to stand for something else. -/
theorem escapeLike_exact_discount :
    matchesLike "sale: 50%_off \\ today"
        ("%" ++ escapeLike "50%_off \\" ++ "%") = some true ∧
      matchesIlike asciiFolding "SALE: 50%_OFF \\ TODAY"
        ("%" ++ escapeLike "50%_off \\" ++ "%") = some true ∧
      matchesIlike asciiFolding "SALE: 500_OFF \\ TODAY"
        ("%" ++ escapeLike "50%_off \\" ++ "%") ≠ some true :=
  ⟨(escapeLike_exact _ _).1.mpr (by decide +kernel),
    ((escapeLike_exact _ _).2 asciiFolding).mpr (by decide +kernel),
    fun h => absurd (((escapeLike_exact _ _).2 asciiFolding).mp h)
      (by decide +kernel)⟩

end MarketPlace.Trade
