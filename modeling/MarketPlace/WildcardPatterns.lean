import Mathlib.Data.List.Infix

/-!
# Patterns with wildcards

A pattern is a list of characters of which three have a meaning of their own:
the first makes the character after it stand for itself, the second stands for
any text, the third for any one character.  Nothing here depends on what the
characters are.
-/

namespace Wildcards

structure Marks (α : Type) where
  escape : α
  many : α
  one : α

inductive Item (α : Type) where
  | exactly (a : α)
  | anyOne
  | anyMany

variable {α : Type} [DecidableEq α]

namespace Marks

variable (marks : Marks α)

/-- The character is one of the three. -/
def Has (a : α) : Prop := a = marks.escape ∨ a = marks.many ∨ a = marks.one

instance (a : α) : Decidable (marks.Has a) :=
  inferInstanceAs (Decidable (a = marks.escape ∨ a = marks.many ∨ a = marks.one))

/-- What a character stands for that is not escaped. -/
def item (a : α) : Item α :=
  if a = marks.many then .anyMany
  else if a = marks.one then .anyOne
  else .exactly a

/-- The items of a pattern, unless it ends with the escape character. -/
def items : List α → Option (List (Item α))
  | [] => some []
  | [a] => if a = marks.escape then none else some [marks.item a]
  | a :: b :: rest =>
      if a = marks.escape then (items rest).map (.exactly b :: ·)
      else (items (b :: rest)).map (marks.item a :: ·)

/-- The text with every mark escaped. -/
def escaped (text : List α) : List α :=
  text.flatMap fun a => if marks.Has a then [marks.escape, a] else [a]

end Marks

/-- The text is what the items stand for, one after the other. -/
def Fits : List (Item α) → List α → Bool
  | [], text => text.isEmpty
  | .exactly a :: rest, b :: text => decide (a = b) && Fits rest text
  | .anyOne :: rest, _ :: text => Fits rest text
  | .anyMany :: rest, text => text.tails.any (Fits rest)
  | .exactly _ :: _, [] => false
  | .anyOne :: _, [] => false

/-- Whether the text matches the pattern, which must not end with the escape
character. -/
def Marks.matches (marks : Marks α) (pattern text : List α) : Option Bool :=
  (marks.items pattern).map fun items => Fits items text

/-! ## Items -/

theorem fits_anyMany_cons {items : List (Item α)} {text : List α} :
    Fits (.anyMany :: items) text = true ↔
      ∃ skipped rest, text = skipped ++ rest ∧ Fits items rest = true := by
  rw [Fits, List.any_eq_true]
  constructor
  · rintro ⟨rest, hrest, hfits⟩
    obtain ⟨skipped, rfl⟩ := (List.mem_tails _ _).mp hrest
    exact ⟨skipped, rest, rfl, hfits⟩
  · rintro ⟨skipped, rest, rfl, hfits⟩
    exact ⟨rest, (List.mem_tails _ _).mpr (List.suffix_append _ _), hfits⟩

theorem fits_append {items others : List (Item α)} {text : List α} :
    Fits (items ++ others) text = true ↔
      ∃ front back, text = front ++ back ∧ Fits items front = true ∧
        Fits others back = true := by
  induction items generalizing text with
  | nil => simp [Fits]
  | cons item rest ih =>
      cases item with
      | exactly a =>
          cases text with
          | nil => simp [Fits]
          | cons b text =>
              rw [List.cons_append, Fits, Bool.and_eq_true, ih]
              constructor
              · rintro ⟨ha, front, back, rfl, hfront, hback⟩
                exact ⟨b :: front, back, rfl, by simpa [Fits, hfront] using ha,
                  hback⟩
              · rintro ⟨front, back, htext, hfront, hback⟩
                cases front with
                | nil => simp [Fits] at hfront
                | cons c front =>
                    obtain ⟨rfl, rfl⟩ := List.cons.inj htext
                    rw [Fits, Bool.and_eq_true] at hfront
                    exact ⟨hfront.1, front, back, rfl, hfront.2, hback⟩
      | anyOne =>
          cases text with
          | nil => simp [Fits]
          | cons b text =>
              rw [List.cons_append, Fits, ih]
              constructor
              · rintro ⟨front, back, rfl, hfront, hback⟩
                exact ⟨b :: front, back, rfl, hfront, hback⟩
              · rintro ⟨front, back, htext, hfront, hback⟩
                cases front with
                | nil => simp [Fits] at hfront
                | cons c front =>
                    obtain ⟨rfl, rfl⟩ := List.cons.inj htext
                    exact ⟨front, back, rfl, hfront, hback⟩
      | anyMany =>
          rw [List.cons_append, fits_anyMany_cons]
          constructor
          · rintro ⟨skipped, tail, rfl, hfits⟩
            obtain ⟨front, back, rfl, hfront, hback⟩ := ih.mp hfits
            exact ⟨skipped ++ front, back, by rw [List.append_assoc],
              fits_anyMany_cons.mpr ⟨skipped, front, rfl, hfront⟩, hback⟩
          · rintro ⟨front, back, rfl, hfront, hback⟩
            obtain ⟨skipped, tail, rfl, hfits⟩ := fits_anyMany_cons.mp hfront
            exact ⟨skipped, tail ++ back, List.append_assoc _ _ _,
              ih.mpr ⟨tail, back, rfl, hfits, hback⟩⟩

theorem fits_exactly {wanted text : List α} :
    Fits (wanted.map .exactly) text = true ↔ text = wanted := by
  induction wanted generalizing text with
  | nil => simp [Fits]
  | cons a rest ih =>
      cases text with
      | nil => simp [Fits]
      | cons b text =>
          rw [List.map_cons, Fits, Bool.and_eq_true, ih, decide_eq_true_eq,
            List.cons.injEq, eq_comm]

@[simp] theorem fits_anyMany (text : List α) :
    Fits [.anyMany] text = true :=
  fits_anyMany_cons.mpr ⟨text, [], (List.append_nil text).symm, rfl⟩

/-- Any text, the wanted one and any text again: the wanted text occurs. -/
theorem fits_surrounded {wanted text : List α} :
    Fits (.anyMany :: (wanted.map .exactly ++ [.anyMany])) text = true ↔
      wanted <:+: text := by
  rw [fits_anyMany_cons]
  constructor
  · rintro ⟨skipped, rest, rfl, hfits⟩
    obtain ⟨front, back, rfl, hfront, -⟩ := fits_append.mp hfits
    obtain rfl := fits_exactly.mp hfront
    exact ⟨skipped, back, List.append_assoc _ _ _⟩
  · rintro ⟨skipped, back, rfl⟩
    have hfits : Fits (wanted.map .exactly ++ [.anyMany]) (wanted ++ back) =
        true :=
      fits_append.mpr
        ⟨wanted, back, rfl, fits_exactly.mpr rfl, fits_anyMany back⟩
    exact ⟨skipped, wanted ++ back, List.append_assoc _ _ _, hfits⟩

/-! ## Escaped texts -/

namespace Marks

variable {marks : Marks α}

theorem items_cons_of_ne {a : α} (ha : a ≠ marks.escape) (rest : List α) :
    marks.items (a :: rest) =
      (marks.items rest).map (marks.item a :: ·) := by
  cases rest with
  | nil => simp [items, ha]
  | cons b rest => simp [items, ha]

theorem item_of_not_has {a : α} (ha : ¬ marks.Has a) :
    marks.item a = .exactly a := by
  rw [Has, not_or, not_or] at ha
  simp [item, ha]

theorem escaped_cons (a : α) (text : List α) :
    marks.escaped (a :: text) =
      (if marks.Has a then [marks.escape, a] else [a]) ++
        marks.escaped text :=
  List.flatMap_cons

/-- Escaping undoes what the marks mean, whatever comes after. -/
theorem items_escaped_append (text rest : List α) :
    marks.items (marks.escaped text ++ rest) =
      (marks.items rest).map (text.map .exactly ++ ·) := by
  induction text with
  | nil => simp [escaped]
  | cons a text ih =>
      rw [escaped_cons, List.append_assoc]
      by_cases ha : marks.Has a
      · rw [if_pos ha, List.cons_append, List.singleton_append, items,
          if_pos rfl, ih, Option.map_map]
        rfl
      · have hescape : a ≠ marks.escape := fun h => ha (.inl h)
        rw [if_neg ha, List.singleton_append, items_cons_of_ne hescape, ih,
          item_of_not_has ha, Option.map_map]
        rfl

/-- The pattern of any text, an escaped text and any text again. -/
def surrounding (marks : Marks α) (text : List α) : List α :=
  marks.many :: (marks.escaped text ++ [marks.many])

theorem items_surrounding (hmarks : marks.many ≠ marks.escape)
    (text : List α) :
    marks.items (marks.surrounding text) =
      some (.anyMany :: (text.map .exactly ++ [.anyMany])) := by
  have hitem : marks.item marks.many = .anyMany := by simp [item]
  rw [surrounding, items_cons_of_ne hmarks, items_escaped_append,
    items_cons_of_ne hmarks, hitem]
  rfl

/-- Matching the pattern around an escaped text is occurrence of the text. -/
theorem matches_surrounding (hmarks : marks.many ≠ marks.escape)
    {wanted text : List α} :
    marks.matches (marks.surrounding wanted) text = some true ↔
      wanted <:+: text := by
  rw [Marks.matches, items_surrounding hmarks, Option.map_some,
    Option.some.injEq, fits_surrounded]

/-- A map of the characters that keeps the marks apart maps the pattern to the
pattern around the mapped text. -/
theorem map_surrounding {f : α → α} (hmany : f marks.many = marks.many)
    (hescape : f marks.escape = marks.escape)
    (hhas : ∀ a, marks.Has (f a) ↔ marks.Has a) (text : List α) :
    (marks.surrounding text).map f = marks.surrounding (text.map f) := by
  have hescaped : (marks.escaped text).map f = marks.escaped (text.map f) := by
    induction text with
    | nil => rfl
    | cons a text ih =>
        rw [escaped_cons, List.map_append, ih, List.map_cons, escaped_cons]
        by_cases ha : marks.Has a
        · simp [ha, hhas, hescape]
        · simp [ha, hhas]
  rw [surrounding, List.map_cons, List.map_append, hescaped, hmany]
  simp [surrounding, hmany]

end Marks

end Wildcards
