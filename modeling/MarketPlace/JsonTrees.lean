import MarketPlace.MarketData

/-!
# JSON as a tree

Induction over nested arrays and objects, equality, properties of every entry
of every object, and equality up to the order of keys.
-/

namespace MarketPlace.Trade.Json

variable {motive : Json → Prop}

/-- Induction with the entries of arrays and objects as members of lists. -/
@[elab_as_elim]
theorem tree_induction (null : motive .null)
    (bool : ∀ value, motive (.bool value))
    (number : ∀ value, motive (.number value))
    (text : ∀ value, motive (.text value))
    (array : ∀ items, (∀ item ∈ items, motive item) → motive (.array items))
    (object : ∀ fields, (∀ field ∈ fields, motive field.2) →
      motive (.object fields))
    (json : Json) : motive json :=
  @Json.rec motive (fun items => ∀ item ∈ items, motive item)
    (fun fields => ∀ field ∈ fields, motive field.2)
    (fun field => motive field.2)
    null bool number text array object
    (by simp)
    (fun _ _ hitem hrest => List.forall_mem_cons.mpr ⟨hitem, hrest⟩)
    (by simp)
    (fun _ _ hfield hrest => List.forall_mem_cons.mpr ⟨hfield, hrest⟩)
    (fun _ _ hvalue => hvalue) json

/-! ## Equality -/

/-- Whether two trees are the same. -/
def same : Json → Json → Bool
  | .null, .null => true
  | .bool value, .bool other => value = other
  | .number value, .number other => value = other
  | .text value, .text other => value = other
  | .array items, .array others => itemsSame items others
  | .object fields, .object others => fieldsSame fields others
  | _, _ => false
where
  itemsSame : List Json → List Json → Bool
    | [], [] => true
    | item :: rest, other :: others => item.same other && itemsSame rest others
    | _, _ => false
  fieldsSame : List (String × Json) → List (String × Json) → Bool
    | [], [] => true
    | (key, value) :: rest, (otherKey, other) :: others =>
        key = otherKey && value.same other && fieldsSame rest others
    | _, _ => false

theorem same_iff {json other : Json} :
    json.same other = true ↔ json = other := by
  induction json using tree_induction generalizing other with
  | null | bool | number | text => cases other <;> simp [same]
  | array items ih =>
      cases other with
      | array others =>
          rw [same, array.injEq]
          induction items generalizing others with
          | nil => cases others <;> simp [same.itemsSame]
          | cons item rest ihRest =>
              rw [List.forall_mem_cons] at ih
              cases others with
              | nil => simp [same.itemsSame]
              | cons next others =>
                  rw [same.itemsSame, Bool.and_eq_true, ih.1, ihRest ih.2,
                    List.cons.injEq]
      | _ => simp [same]
  | object fields ih =>
      cases other with
      | object others =>
          rw [same, object.injEq]
          induction fields generalizing others with
          | nil => cases others <;> simp [same.fieldsSame]
          | cons field rest ihRest =>
              rw [List.forall_mem_cons] at ih
              cases others with
              | nil => simp [same.fieldsSame]
              | cons next others =>
                  rw [same.fieldsSame, Bool.and_eq_true, Bool.and_eq_true,
                    decide_eq_true_eq, ih.1, ihRest ih.2, List.cons.injEq,
                    Prod.ext_iff]
      | _ => simp [same]

instance : DecidableEq Json := fun json other =>
  decidable_of_iff (json.same other = true) same_iff

/-! ## Entries -/

/-- The entries of all objects in the tree, each with its object, an entry
before those in its value. -/
def entries : Json → List (List (String × Json) × (String × Json))
  | .array items => ofItems items
  | .object fields => ofFields fields fields
  | _ => []
where
  ofItems : List Json → List (List (String × Json) × (String × Json))
    | [] => []
    | item :: rest => item.entries ++ ofItems rest
  ofFields (container : List (String × Json)) :
      List (String × Json) → List (List (String × Json) × (String × Json))
    | [] => []
    | (key, value) :: rest =>
        (container, key, value) :: (value.entries ++ ofFields container rest)

theorem entries_ofItems (items : List Json) :
    entries.ofItems items = items.flatMap entries := by
  induction items with
  | nil => rfl
  | cons item rest ih => rw [entries.ofItems, ih, List.flatMap_cons]

theorem entries_ofFields (container fields : List (String × Json)) :
    entries.ofFields container fields =
      fields.flatMap fun field => (container, field) :: field.2.entries := by
  induction fields with
  | nil => rfl
  | cons field rest ih =>
      rw [entries.ofFields, ih, List.flatMap_cons, List.cons_append]

/-- Every entry has the property, which may also look at the other entries of
its object. -/
def Each (p : List (String × Json) → String × Json → Prop) (json : Json) :
    Prop :=
  ∀ entry ∈ json.entries, p entry.1 entry.2

section Each

variable {p : List (String × Json) → String × Json → Prop}

theorem each_array_iff {items : List Json} :
    (Json.array items).Each p ↔ ∀ item ∈ items, item.Each p := by
  rw [Each, entries, entries_ofItems]
  simp only [List.mem_flatMap, forall_exists_index, and_imp]
  constructor
  · exact fun h item hitem entry hentry => h entry item hitem hentry
  · exact fun h entry item hitem hentry => h item hitem entry hentry

theorem each_object_iff {fields : List (String × Json)} :
    (Json.object fields).Each p ↔
      (∀ field ∈ fields, p fields field) ∧
        ∀ field ∈ fields, field.2.Each p := by
  rw [Each, entries, entries_ofFields]
  simp only [List.mem_flatMap, List.mem_cons, forall_exists_index, and_imp]
  constructor
  · intro h
    exact ⟨fun field hfield => h (fields, field) field hfield (.inl rfl),
      fun field hfield entry hentry => h entry field hfield (.inr hentry)⟩
  · rintro ⟨hown, hvalues⟩ entry field hfield (rfl | hentry)
    · exact hown field hfield
    · exact hvalues field hfield entry hentry

end Each

instance {p : List (String × Json) → String × Json → Prop}
    [∀ container, DecidablePred (p container)] (json : Json) :
    Decidable (json.Each p) :=
  inferInstanceAs (Decidable (∀ entry ∈ json.entries, p entry.1 entry.2))

/-- The keys of every object are distinct. -/
def WellFormed (json : Json) : Prop :=
  json.Each fun fields _ => (fields.map Prod.fst).Nodup

instance (json : Json) : Decidable json.WellFormed :=
  inferInstanceAs (Decidable (json.Each _))

/-! ## Equality up to the order of keys -/

/-- Deep equality, where the keys of an object come in any order. -/
def deepEqual : Json → Json → Bool
  | .null, .null => true
  | .bool value, .bool other => value = other
  | .number value, .number other => value = other
  | .text value, .text other => value = other
  | .array items, .array others => itemsEqual items others
  | .object fields, .object others =>
      fields.length = others.length && fieldsEqual others fields
  | _, _ => false
where
  itemsEqual : List Json → List Json → Bool
    | [], [] => true
    | item :: rest, other :: others =>
        item.deepEqual other && itemsEqual rest others
    | _, _ => false
  fieldsEqual (others : List (String × Json)) : List (String × Json) → Bool
    | [] => true
    | (key, value) :: rest =>
        (match others.lookup key with
          | some other => value.deepEqual other
          | none => false) && fieldsEqual others rest

theorem deepEqual_array_iff {items others : List Json} :
    (Json.array items).deepEqual (.array others) = true ↔
      List.Forall₂ (fun item other => item.deepEqual other = true) items
        others := by
  rw [deepEqual]
  induction items generalizing others with
  | nil => cases others <;> simp [deepEqual.itemsEqual]
  | cons item rest ih =>
      cases others with
      | nil => simp [deepEqual.itemsEqual]
      | cons other others =>
          rw [deepEqual.itemsEqual, Bool.and_eq_true, ih, List.forall₂_cons]

theorem deepEqual_object_iff {fields others : List (String × Json)} :
    (Json.object fields).deepEqual (.object others) = true ↔
      fields.length = others.length ∧ ∀ field ∈ fields, ∃ other,
        others.lookup field.1 = some other ∧
          field.2.deepEqual other = true := by
  rw [deepEqual, Bool.and_eq_true, decide_eq_true_eq]
  refine and_congr Iff.rfl ?_
  induction fields with
  | nil => simp [deepEqual.fieldsEqual]
  | cons field rest ih =>
      rw [deepEqual.fieldsEqual, Bool.and_eq_true, ih, List.forall_mem_cons]
      refine and_congr ?_ Iff.rfl
      cases others.lookup field.1 <;> simp

theorem deepEqual_null_iff {json : Json} :
    json.deepEqual .null = true ↔ json = .null := by
  cases json <;> simp [deepEqual]

/-- A key of an object with distinct keys is looked up as its entry. -/
theorem lookup_of_mem {fields : List (String × Json)}
    (hkeys : (fields.map Prod.fst).Nodup) {field : String × Json}
    (hfield : field ∈ fields) : fields.lookup field.1 = some field.2 := by
  induction fields with
  | nil => contradiction
  | cons first rest ih =>
      rw [List.map_cons, List.nodup_cons] at hkeys
      rcases List.mem_cons.mp hfield with rfl | hrest
      · rw [List.lookup_cons, beq_self_eq_true]
      · have hne : (field.1 == first.1) = false :=
          beq_false_of_ne fun h => hkeys.1 (h ▸ List.mem_map_of_mem hrest)
        rw [List.lookup_cons, hne]
        exact ih hkeys.2 hrest

theorem deepEqual_refl {json : Json} (h : json.WellFormed) :
    json.deepEqual json = true := by
  induction json using tree_induction with
  | null | bool | number | text => simp [deepEqual]
  | array items ih =>
      have hitems := each_array_iff.mp h
      rw [deepEqual_array_iff, List.forall₂_same]
      exact fun item hitem => ih item hitem (hitems item hitem)
  | object fields ih =>
      obtain ⟨hkeys, hvalues⟩ := each_object_iff.mp h
      refine deepEqual_object_iff.mpr ⟨rfl, fun field hfield =>
        ⟨field.2, lookup_of_mem (hkeys field hfield) hfield,
          ih field hfield (hvalues field hfield)⟩⟩

end MarketPlace.Trade.Json
