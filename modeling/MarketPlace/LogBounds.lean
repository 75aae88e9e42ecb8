import Mathlib.Data.List.Forall2
import MarketPlace.LogSanitizing

/-!
# What a value leaves in the log

Whatever value is sanitized, cyclic or not, the log gets a small tree, and one
that does not depend on what stands under a sensitive key.  Values are
compared node by node as far as anybody can follow them, so that cycles need
no copy of their own.
-/

namespace MarketPlace.Logging

open CodeUnits

variable (lower : LowerCase) {V W : Type}

/-! ## Small trees -/

/-- At most 300 code units and a truncation suffix, that of a text or that of
an array. -/
def IsCut (content : Text) : Prop :=
  ∃ front suffix, content = front ++ suffix ∧ front.length ≤ 300 ∧
    (suffix = [] ∨ ∃ lost, suffix = truncation lost ∨
      suffix = utf16 "[truncated:" ++ decimal lost ++ utf16 "]")

/-- A tree whose leaves are at most `levels` below its root, within the limits
on texts, arrays and objects. -/
inductive Tree.Within : (levels : ℕ) → Tree → Prop
  | plain {levels : ℕ} (value : Plain) : Within levels (.plain value)
  | text {levels : ℕ} {content : Text} (hcut : IsCut content) :
      Within levels (.text content)
  | array {levels : ℕ} {items : List Tree} (hlength : items.length ≤ 21)
      (hitems : ∀ item ∈ items, Within levels item) :
      Within (levels + 1) (.array items)
  | object {levels : ℕ} {fields : List (Text × Tree)}
      (hlength : fields.length ≤ 30)
      (hfields : ∀ field ∈ fields, Within levels field.2) :
      Within (levels + 1) (.object fields)

theorem isCut_of_short {content : Text} (hshort : content.length ≤ 300) :
    IsCut content :=
  ⟨content, [], (List.append_nil content).symm, hshort, .inl rfl⟩

theorem isCut_cutText (content : Text) : IsCut (cutText content) := by
  by_cases hlong : maxStringLength < content.length
  · have hfront : (content.take maxStringLength).length ≤ 300 :=
      List.length_take_le _ _
    rw [cutText_of_long hlong]
    exact ⟨_, _, rfl, hfront, .inr ⟨_, .inl rfl⟩⟩
  · have hshort : content.length ≤ 300 := not_lt.mp hlong
    rw [cutText_of_short hshort]
    exact isCut_of_short hshort

theorem within_depthLimited (levels : ℕ) : depthLimited.Within levels :=
  .text (isCut_of_short (by decide +kernel))

theorem within_redacted (levels : ℕ) : redacted.Within levels :=
  .text (isCut_of_short (by decide +kernel))

theorem within_arrayMarker (levels length : ℕ) :
    ∀ item ∈ arrayMarker length, item.Within levels := by
  intro item hitem
  unfold arrayMarker at hitem
  split at hitem
  · rw [List.mem_singleton.mp hitem]
    have hcut : IsCut (utf16 "[truncated:" ++
        decimal (length - maxArrayLength) ++ utf16 "]") :=
      ⟨[], _, (List.nil_append _).symm, Nat.zero_le _, .inr ⟨_, .inr rfl⟩⟩
    exact .text hcut
  · exact absurd hitem List.not_mem_nil

/-- The levels that are left bound the depth of the tree. -/
theorem within_sanitizeForLog (shape : V → Shape V) (levels : ℕ) (value : V) :
    (sanitizeForLog lower shape levels value).Within levels := by
  induction levels generalizing value with
  | zero =>
      unfold sanitizeForLog
      cases shape value with
      | plain content => exact .plain content
      | text content => exact .text (isCut_cutText content)
      | array items => exact within_depthLimited 0
      | object fields => exact within_depthLimited 0
  | succ levels ih =>
      unfold sanitizeForLog
      cases shape value with
      | plain content => exact .plain content
      | text content => exact .text (isCut_cutText content)
      | array items =>
          have hkept : ((items.take maxArrayLength).map
              (sanitizeForLog lower shape levels)).length ≤ 20 := by
            rw [List.length_map]
            exact List.length_take_le _ _
          have hmarker := length_arrayMarker items.length
          apply Tree.Within.array
          · rw [List.length_append, hmarker]
            split <;> omega
          · intro item hitem
            rcases List.mem_append.mp hitem with hitem | hitem
            · obtain ⟨original, -, rfl⟩ := List.mem_map.mp hitem
              exact ih original
            · exact within_arrayMarker levels items.length item hitem
      | object fields =>
          apply Tree.Within.object
          · exact length_outEntries_le lower _ fields
          · intro field hfield
            obtain ⟨original, -, rfl⟩ := List.mem_map.mp hfield
            dsimp only
            split
            · exact within_redacted levels
            · exact ih original.2

/-! ## Two values -/

/-- The nodes are alike, and so are their parts by `alike`, those under a
sensitive key apart. -/
def SameButSensitive (alike : V → W → Prop) : Shape V → Shape W → Prop
  | .plain value, .plain value' => value = value'
  | .text content, .text content' => content = content'
  | .array items, .array items' => List.Forall₂ alike items items'
  | .object fields, .object fields' =>
      List.Forall₂
        (fun field field' => field.1 = field'.1 ∧
          (isSensitive lower field.1 = false → alike field.2 field'.2))
        fields fields'
  | _, _ => False

/-- Two values, cyclic ones too, that differ only under sensitive keys. -/
def DifferUnderSensitiveKeys (shape : V → Shape V) (shape' : W → Shape W)
    (value : V) (value' : W) : Prop :=
  ∃ alike : V → W → Prop, alike value value' ∧
    ∀ v w, alike v w → SameButSensitive lower alike (shape v) (shape' w)

/-- Objects with the same keys leave the same entries, when the values under
the keys that show are sanitized to the same. -/
theorem outEntries_congr {sanitize : V → Tree} {sanitize' : W → Tree}
    {fields : List (Text × V)} {fields' : List (Text × W)}
    (hfields : List.Forall₂
      (fun field field' => field.1 = field'.1 ∧
        (isSensitive lower field.1 = false →
          sanitize field.2 = sanitize' field'.2)) fields fields') :
    outEntries lower sanitize fields = outEntries lower sanitize' fields' := by
  have hkept := forall₂_kept (fun _ _ hentry => hentry.1) hfields
  rw [outEntries, outEntries, map_eq_map_iff]
  apply hkept.imp
  intro field field' hentry
  rw [← hentry.1]
  cases hsensitive : isSensitive lower field.1 with
  | true => rfl
  | false => rw [hentry.2 hsensitive]

/-- What is alike is sanitized to the same on every level. -/
theorem sanitizeForLog_congr {shape : V → Shape V} {shape' : W → Shape W}
    {alike : V → W → Prop}
    (halike : ∀ v w, alike v w →
      SameButSensitive lower alike (shape v) (shape' w))
    (levels : ℕ) {value : V} {value' : W} (hvalue : alike value value') :
    sanitizeForLog lower shape levels value =
      sanitizeForLog lower shape' levels value' := by
  induction levels generalizing value value' with
  | zero =>
      have hshape := halike value value' hvalue
      unfold sanitizeForLog
      cases hleft : shape value <;> cases hright : shape' value' <;>
        rw [hleft, hright] at hshape <;>
        simp_all [SameButSensitive]
  | succ levels ih =>
      have hshape := halike value value' hvalue
      unfold sanitizeForLog
      cases hleft : shape value <;> cases hright : shape' value' <;>
        rw [hleft, hright] at hshape <;>
        simp only [SameButSensitive] at hshape
      case plain.plain => rw [hshape]
      case text.text => rw [hshape]
      case array.array items items' =>
          have hkept := List.forall₂_take maxArrayLength hshape
          have hsanitized : (items.take maxArrayLength).map
                (sanitizeForLog lower shape levels) =
              (items'.take maxArrayLength).map
                (sanitizeForLog lower shape' levels) :=
            map_eq_map_iff.mpr (hkept.imp fun _ _ hitem => ih hitem)
          dsimp only
          rw [hsanitized, hshape.length_eq]
      case object.object fields fields' =>
          have hfields := outEntries_congr lower (hshape.imp
            fun field field' hentry =>
              And.intro hentry.1 fun hshows => ih (hentry.2 hshows))
          dsimp only
          rw [hfields]

/-- The log gets a tree of depth at most 4 within the limits, and the same tree
for any two values that differ only under sensitive keys. -/
theorem sanitizeForLog_bounded_noninterfering (shape : V → Shape V)
    (shape' : W → Shape W) :
    (∀ value, (sanitizeForLog lower shape maxDepth value).Within 4) ∧
      ∀ value value',
        DifferUnderSensitiveKeys lower shape shape' value value' →
        sanitizeForLog lower shape maxDepth value =
          sanitizeForLog lower shape' maxDepth value' := by
  constructor
  · intro value
    exact within_sanitizeForLog lower shape maxDepth value
  · rintro value value' ⟨alike, hvalue, halike⟩
    exact sanitizeForLog_congr lower halike maxDepth hvalue

/-- A request that refers to itself and carries a token. -/
def cyclicRequest (token : String) : Bool → Shape Bool
  | false => .object [(utf16 "self", false), (utf16 "Access_Token", true)]
  | true => .text (utf16 token)

/-- Only its token tells two requests apart. -/
theorem sanitizeForLog_bounded_noninterfering_cyclic :
    sanitizeForLog asciiLowerCase (cyclicRequest "first") maxDepth false =
      sanitizeForLog asciiLowerCase (cyclicRequest "second") maxDepth false := by
  have hsensitive : isSensitive asciiLowerCase (utf16 "Access_Token") = true := by
    decide +kernel
  refine (sanitizeForLog_bounded_noninterfering asciiLowerCase
    (cyclicRequest "first") (cyclicRequest "second")).2 false false
      ⟨fun v w => v = false ∧ w = false, ⟨rfl, rfl⟩, ?_⟩
  rintro v w ⟨rfl, rfl⟩
  simp [cyclicRequest, SameButSensitive, hsensitive]

end MarketPlace.Logging
