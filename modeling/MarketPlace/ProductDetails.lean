import MarketPlace.ExpansionSpecification
import MarketPlace.ImageReplacement

/-!
# The details of a product in a response

The interceptor expands the whole body of a response, and does not know that
the details of a product are data of its user.  They come back as they are
stored exactly if they hold nothing that the expansion rewrites.
-/

namespace MarketPlace.Relations

open Interleaving Relational
open Trade (Json ProductRow ProductView ProductListing ImageView)

/-! ## Bodies -/

section Bodies

variable (app : RelationsDeployment)

def contactMethodText : Trade.ContactMethod → String
  | .phone => "phone"
  | .chat => "chat"
  | .both => "both"

/-- The columns of a product that the queries select. -/
def productFields (row : ProductRow) : List (String × Json) :=
  [("id", bigintJson row.id), ("owner_id", bigintJson row.ownerId),
    ("category", .text row.category),
    ("subcategory", nullable .text row.subcategory),
    ("name", .text row.name), ("description", .text row.description),
    ("price", .text (hundredthsText row.price)), ("city", .text row.city),
    ("address_text", .text row.addressText), ("details", row.details.getD .null),
    ("status", .text (productStatusText row.status)),
    ("is_negotiable", .bool row.isNegotiable),
    ("preferred_contact_method",
      .text (contactMethodText row.preferredContactMethod)),
    ("created_at", timestampJson app row.createdAt),
    ("updated_at", timestampJson app row.updatedAt)]

/-- A row of product_images JOIN files, where the two ids are written as the
query returns them. -/
def imageJson (idJson : ℕ → Json) (image : ImageView) : Json :=
  .object
    [("id", idJson image.id), ("file_id", idJson image.fileId),
      ("sort_order", .number image.sortOrder),
      ("object_key", .text image.objectKey),
      ("status", .text (fileStatusText image.status))]

/-- What `fetchProductWithImages` returns. -/
def productJson (view : ProductView) : Json :=
  .object (productFields app view.row ++
    [("is_favorite", nullable .bool view.isFavorite),
      ("images", .array (view.images.map (imageJson bigintJson)))])

/-- A row of the search, whose images are aggregated as JSON. -/
def listingJson (listing : ProductListing) : Json :=
  .object (productFields app listing.row ++
    [("seller_rate", .text (hundredthsText listing.sellerRate)),
      ("is_favorite", nullable .bool listing.isFavorite),
      ("images", .array (listing.images.map
        (imageJson fun id => .number id)))])

/-- What the controller returns for a product or for a list of products. -/
def responseBody : Trade.Response → Option Json
  | .product product =>
      some (.object [("product", nullable (productJson app) product)])
  | .items items =>
      some (.object [("items", .array (items.map (listingJson app)))])
  | _ => none

end Bodies

/-- The products of a response, as they were read. -/
def productsOf : Trade.Response → List ProductRow
  | .product (some view) => [view.row]
  | .items items => items.map ProductListing.row
  | _ => []

def field (key : String) : Json → Option Json
  | .object fields => fields.lookup key
  | _ => none

/-- The products in a body. -/
def bodyProducts (body : Json) : List Json :=
  match field "product" body with
  | some product => [product]
  | none =>
      match field "items" body with
      | some (.array items) => items
      | _ => []

/-- The details of a product in the body that the interceptor passes on. -/
def returnedDetails (app : RelationsDeployment) (db : Snapshot)
    (response : Trade.Response) (position : ℕ) : Option Json := do
  let body ← responseBody app response
  let product ← (bodyProducts (expand app db body))[position]?
  field "details" product

/-- The requests whose responses show the details of products, but for the list
of one's own products. -/
def ShowsProducts : Trade.Request → Prop
  | .createProduct _ _ | .updateProduct _ _ _ | .getProductById _ _
  | .searchProducts _ _ => True
  | _ => False

/-- No object at any depth has a foreign key, but for `reviewed_by` with null
and an `owner_id` beside an `owner_type`, or a member of `Object.prototype`, but
for one other than `__proto__` with null. -/
def Untouched (details : Json) : Prop :=
  details.Each fun container field =>
    ((fkRules.lookup field.1).isSome = true →
      (field.1 = "owner_id" ∧ hasOwn container "owner_type" = true) ∨
        (field.1 = "reviewed_by" ∧ field.2 = .null)) ∧
    (field.1 ∈ objectPrototypeMembers →
      field.1 ≠ "__proto__" ∧ field.2 = .null)

instance (details : Json) : Decidable (Untouched details) :=
  inferInstanceAs (Decidable (details.Each _))

variable {app : RelationsDeployment} {db : Snapshot}

/-! ## Keys that the expansion writes -/

/-- What the results need of the table of rules, and of the keys that are no
foreign keys. -/
theorem fkRules_facts :
    (∀ entry ∈ fkRules,
      (outputKeyOf entry.2 entry.1 = entry.1 ∧ entry.1 = "reviewed_by") ∨
        (entry.1 ≠ "reviewed_by" ∧
          (ruleOf (outputKeyOf entry.2 entry.1)).isNone = true)) ∧
    (∀ key ∈ objectPrototypeMembers, deriveOutputKey key = key ∧
      (fkRules.lookup key).isNone = true) ∧
    (∀ key ∈ ["details", "product", "items"], (ruleOf key).isNone = true) ∧
    (∀ entry ∈ fkRules, outputKeyOf entry.2 entry.1 ≠ "details") ∧
    "details" ∉ objectPrototypeMembers ∧
    "__proto__" ∈ objectPrototypeMembers ∧
    (ruleOf "__proto__").isSome = true := by
  decide +kernel

/-- A foreign key is renamed to a key that has no rule, but for
`reviewed_by`. -/
theorem fkRules_renames :
    ∀ entry ∈ fkRules,
      (outputKeyOf entry.2 entry.1 = entry.1 ∧ entry.1 = "reviewed_by") ∨
        (entry.1 ≠ "reviewed_by" ∧
          (ruleOf (outputKeyOf entry.2 entry.1)).isNone = true) :=
  fkRules_facts.1

theorem prototype_keeps :
    ∀ key ∈ objectPrototypeMembers, deriveOutputKey key = key ∧
      (fkRules.lookup key).isNone = true :=
  fkRules_facts.2.1

theorem ruleOf_plain {key : String} (hkey : key ∈ ["details", "product", "items"]) :
    ruleOf key = none :=
  Option.isNone_iff_eq_none.mp (fkRules_facts.2.2.1 key hkey)

/-- A key without a rule is none that an assignment drops. -/
theorem ne_proto_of_plain {key : String} (hplain : ruleOf key = none) :
    key ≠ "__proto__" := by
  rintro rfl
  have hrule := fkRules_facts.2.2.2.2.2.2
  rw [hplain] at hrule
  contradiction

theorem ruleOf_cases {key : String} {rule : FkRule}
    (h : ruleOf key = some rule) :
    fkRules.lookup key = some rule ∨
      (key ∈ objectPrototypeMembers ∧ rule = ⟨none, none, none⟩) := by
  rw [ruleOf] at h
  cases hlookup : fkRules.lookup key with
  | some other =>
      rw [hlookup] at h
      exact .inl h
  | none =>
      rw [hlookup] at h
      obtain ⟨hmem, hrule⟩ := Option.ite_none_right_eq_some.mp h
      exact .inr ⟨hmem, (Option.some.inj hrule).symm⟩

/-- What a key with a rule is written to either is the key itself or has no
rule. -/
theorem outputKeyOf_cases {key : String} {rule : FkRule}
    (h : ruleOf key = some rule) :
    outputKeyOf rule key = key ∨ ruleOf (outputKeyOf rule key) = none := by
  rcases ruleOf_cases h with hlookup | ⟨hmem, rfl⟩
  · rcases fkRules_renames _ (mem_of_lookup hlookup) with
      ⟨hsame, -⟩ | ⟨-, hnone⟩
    · exact .inl hsame
    · exact .inr (Option.isNone_iff_eq_none.mp hnone)
  · exact .inl (prototype_keeps key hmem).1

theorem ruleOf_of_activeRule {container : List (String × Json)} {key : String}
    {rule : FkRule} (h : activeRule container key = some rule) :
    ruleOf key = some rule :=
  (Option.filter_eq_some_iff.mp h).1

theorem activeRule_eq_none {container : List (String × Json)} {key : String}
    (h : ruleOf key = none) : activeRule container key = none := by
  rw [activeRule, h]
  rfl

theorem lookup_firstOfEachKey (key : String) (fields : List (String × Json)) :
    (firstOfEachKey fields).lookup key = fields.lookup key := by
  have hfilter : ∀ (other : String) (fields : List (String × Json)),
      key ≠ other →
      (fields.filter fun field => field.1 ≠ other).lookup key =
        fields.lookup key := by
    intro other fields hne
    induction fields with
    | nil => rfl
    | cons first rest ih =>
        by_cases hfirst : first.1 = other
        · have hkey : (key == first.1) = false :=
            beq_false_of_ne (hfirst ▸ hne)
          rw [List.filter_cons_of_neg (by simp [hfirst]), ih,
            List.lookup_cons, hkey]
        · rw [List.filter_cons_of_pos (by simp [hfirst]), List.lookup_cons,
            List.lookup_cons, ih]
  induction fields with
  | nil => rfl
  | cons first rest ih =>
      rw [firstOfEachKey, List.lookup_cons, List.lookup_cons]
      by_cases hkey : key = first.1
      · simp [hkey]
      · rw [hfilter first.1 _ hkey, ih]

/-- The entries of an object as they are assigned. -/
def assigned (app : RelationsDeployment) (maps : MapsByEntity)
    (fields : List (String × Json)) : List (String × Json) :=
  (fields.map (expandedEntry app maps fields)).filter
    fun field => field.1 ≠ "__proto__"

theorem field_transformNode (maps : MapsByEntity)
    (fields : List (String × Json)) (key : String) :
    field key (transformNode app maps (.object fields)) =
      (assigned app maps fields).lookup key := by
  rw [transformNode_object, field, lookup_firstOfEachKey, assigned]

/-- A key without a rule that no foreign key is renamed to keeps its place. -/
theorem field_transformNode_of_plain {maps : MapsByEntity} {key : String}
    (hplain : ruleOf key = none)
    (hunwritten : ∀ other rule, ruleOf other = some rule →
      outputKeyOf rule other ≠ key) (node : Json) :
    field key (transformNode app maps node) =
      (field key node).map (transformNode app maps) := by
  have hproto := ne_proto_of_plain hplain
  cases node with
  | object fields =>
      have hentries : ∀ entries : List (String × Json),
          ((entries.map (expandedEntry app maps fields)).filter
            fun field => field.1 ≠ "__proto__").lookup key =
          (entries.lookup key).map (transformNode app maps) := by
        intro entries
        induction entries with
        | nil => rfl
        | cons entry rest ih =>
            rw [List.map_cons, List.lookup_cons]
            by_cases hkey : key = entry.1
            · subst hkey
              have hentry : expandedEntry app maps fields entry =
                  (entry.1, transformNode app maps entry.2) := by
                rw [expandedEntry, activeRule_eq_none hplain]
              rw [hentry, List.filter_cons_of_pos (by simp [hproto]),
                List.lookup_cons]
              simp
            · have hne : (key == entry.1) = false := beq_false_of_ne hkey
              have hwritten : key ≠ (expandedEntry app maps fields entry).1 := by
                rw [expandedEntry]
                cases hrule : activeRule fields entry.1 with
                | none => exact hkey
                | some rule =>
                    exact (hunwritten _ _ (ruleOf_of_activeRule hrule)).symm
              have hne' : (key == (expandedEntry app maps fields entry).1) =
                  false := beq_false_of_ne hwritten
              rw [hne]
              by_cases hassigned :
                  (expandedEntry app maps fields entry).1 = "__proto__"
              · rw [List.filter_cons_of_neg (by simp [hassigned])]
                exact ih
              · rw [List.filter_cons_of_pos (by simp [hassigned]),
                  List.lookup_cons, hne']
                exact ih
      rw [field_transformNode]
      exact hentries fields
  | _ => rfl

/-- The only field of an object whose key has no rule. -/
theorem transformNode_single {maps : MapsByEntity} {key : String}
    (hplain : ruleOf key = none) (value : Json) :
    transformNode app maps (.object [(key, value)]) =
      .object [(key, transformNode app maps value)] := by
  have hproto := ne_proto_of_plain hplain
  have hentry : expandedEntry app maps [(key, value)] (key, value) =
      (key, transformNode app maps value) := by
    rw [expandedEntry, activeRule_eq_none hplain]
  rw [transformNode_object, List.map_singleton, hentry,
    List.filter_cons_of_pos (by simp [hproto])]
  rfl

theorem field_details (maps : MapsByEntity) (node : Json) :
    field "details" (transformNode app maps node) =
      (field "details" node).map (transformNode app maps) := by
  obtain ⟨-, -, -, htable, hdetails, -⟩ := fkRules_facts
  refine field_transformNode_of_plain (ruleOf_plain (by simp))
    (fun other rule hrule => ?_) node
  rcases ruleOf_cases hrule with hlookup | ⟨hmem, rfl⟩
  · exact htable _ (mem_of_lookup hlookup)
  · intro hother
    have hkeeps : deriveOutputKey other = other := (prototype_keeps _ hmem).1
    have hsame : other = "details" := hkeeps.symm.trans hother
    exact absurd (hsame ▸ hmem) hdetails

/-! ## What the expansion leaves as it is -/

/-- The entry is written to its own key, with the value null. -/
def Kept (container : List (String × Json)) (entry : String × Json) : Prop :=
  ∀ rule, activeRule container entry.1 = some rule →
    outputKeyOf rule entry.1 = entry.1 ∧ entry.1 ≠ "__proto__" ∧
      entry.2 = .null

theorem kept_iff (container : List (String × Json)) (entry : String × Json) :
    Kept container entry ↔
      ((fkRules.lookup entry.1).isSome = true →
        (entry.1 = "owner_id" ∧ hasOwn container "owner_type" = true) ∨
          (entry.1 = "reviewed_by" ∧ entry.2 = .null)) ∧
      (entry.1 ∈ objectPrototypeMembers →
        entry.1 ≠ "__proto__" ∧ entry.2 = .null) := by
  by_cases hmem : entry.1 ∈ objectPrototypeMembers
  · obtain ⟨hsame, hnone⟩ := prototype_keeps _ hmem
    have hlookup := Option.isNone_iff_eq_none.mp hnone
    have hactive : activeRule container entry.1 =
        some ⟨none, none, none⟩ := by
      rw [activeRule, ruleOf, hlookup]
      simp [hmem]
    simp [Kept, hactive, hlookup, hmem, outputKeyOf, hsame]
  · have hactive := @activeRule_eq_foreignKey container entry.1 hmem
    simp only [Kept, hactive, hmem, false_imp_iff, and_true]
    rw [foreignKey]
    by_cases howner : entry.1 = "owner_id" ∧ hasOwn container "owner_type" = true
    · simp [howner]
    rw [if_neg howner]
    cases hlookup : fkRules.lookup entry.1 with
    | none => simp
    | some rule =>
        have hrenames := fkRules_renames _ (mem_of_lookup hlookup)
        have hproto : entry.1 ≠ "__proto__" := fun h =>
          hmem (h ▸ fkRules_facts.2.2.2.2.2.1)
        dsimp only at hrenames
        constructor
        · intro h
          obtain ⟨hsame, -, hnull⟩ := h rule rfl
          rcases hrenames with ⟨-, hreviewed⟩ | ⟨-, hnone⟩
          · exact fun _ => .inr ⟨hreviewed, hnull⟩
          · rw [hsame, Option.isNone_iff_eq_none, ruleOf, hlookup] at hnone
            contradiction
        · intro h other hother
          obtain rfl := Option.some.inj hother
          rcases (h rfl).resolve_left howner with ⟨hreviewed, hnull⟩
          rcases hrenames with ⟨hsame, -⟩ | ⟨hnot, -⟩
          · exact ⟨hsame, hproto, hnull⟩
          · exact absurd hreviewed hnot

theorem untouched_iff {details : Json} :
    Untouched details ↔ details.Each Kept :=
  forall₂_congr fun entry _ => (kept_iff entry.1 entry.2).symm

/-- The first entries of distinct keys are all of them. -/
theorem firstOfEachKey_of_nodup {fields : List (String × Json)}
    (h : (fields.map Prod.fst).Nodup) : firstOfEachKey fields = fields := by
  induction fields with
  | nil => rfl
  | cons first rest ih =>
      rw [List.map_cons, List.nodup_cons] at h
      rw [firstOfEachKey, ih h.2, List.filter_eq_self.mpr]
      intro other hother
      rw [decide_eq_true_eq]
      exact fun hkey => h.1 (hkey ▸ List.mem_map_of_mem hother)

theorem transformNode_of_kept {maps : MapsByEntity} {json : Json}
    (hwell : json.WellFormed) (hkept : json.Each Kept) :
    transformNode app maps json = json := by
  induction json using Json.tree_induction with
  | null | bool | number | text => rfl
  | array items ih =>
      have hwell' := Json.each_array_iff.mp hwell
      have hkept' := Json.each_array_iff.mp hkept
      rw [transformNode, transformItems_eq]
      refine congrArg _ ((List.map_congr_left fun item hitem =>
        ih item hitem (hwell' item hitem) (hkept' item hitem)).trans
          (List.map_id items))
  | object fields ih =>
      obtain ⟨hkeys, hwell'⟩ := Json.each_object_iff.mp hwell
      obtain ⟨hown, hkept'⟩ := Json.each_object_iff.mp hkept
      have hentry : ∀ entry ∈ fields,
          expandedEntry app maps fields entry = entry ∧
            entry.1 ≠ "__proto__" := by
        intro entry hentry
        rw [expandedEntry]
        cases hrule : activeRule fields entry.1 with
        | none =>
            refine ⟨Prod.ext rfl (ih entry hentry (hwell' entry hentry)
              (hkept' entry hentry)), ?_⟩
            intro hproto
            have hrules : ruleOf "__proto__" = some ⟨none, none, none⟩ := rfl
            simp [hproto, activeRule, hrules] at hrule
        | some rule =>
            obtain ⟨hsame, hproto, hnull⟩ := hown entry hentry rule hrule
            refine ⟨Prod.ext hsame ?_, hproto⟩
            rw [hnull]
            rfl
      have hmap : fields.map (expandedEntry app maps fields) = fields :=
        (List.map_congr_left fun entry h => (hentry entry h).1).trans
          (List.map_id fields)
      have hassigned : (fields.filter fun field => field.1 ≠ "__proto__") =
          fields :=
        List.filter_eq_self.mpr fun entry h => by simp [(hentry entry h).2]
      rw [transformNode_object, hmap, hassigned]
      cases fields with
      | nil => rfl
      | cons first rest =>
          rw [firstOfEachKey_of_nodup (hkeys first List.mem_cons_self)]

/-- Every record that was fetched is an object. -/
def HoldsObjects (maps : MapsByEntity) : Prop :=
  ∀ entity records id record, maps.lookup entity = some records →
    records.get id = some record → ∃ fields, record = .object fields

theorem get_mem {records : ResolverMap} {id : ℕ} {record : Json}
    (h : records.get id = some record) : ∃ number, (number, record) ∈ records := by
  obtain ⟨⟨number, other⟩, hfind, rfl⟩ := Option.map_eq_some_iff.mp h
  exact ⟨number, List.mem_reverse.mp (List.mem_of_find?_eq_some hfind)⟩

theorem holdsObjects_resolveEntities (ids : IdsByEntity) :
    HoldsObjects (resolveEntities app db ids) := by
  intro entity records id record hlookup hget
  rw [lookup_resolveEntities, Option.map_eq_some_iff] at hlookup
  obtain ⟨collected, -, rfl⟩ := hlookup
  obtain ⟨number, hmem⟩ := get_mem hget
  rw [fetchRecords.eq_def] at hmem
  split at hmem
  · contradiction
  have hfetch : ∀ {ρ : Type} {key : ρ → ℕ} (table : Table key)
      (live : ρ → Bool) (show_ : ρ → Json),
      (∀ row, ∃ fields, show_ row = .object fields) →
      (number, record) ∈ fetch app table live show_ collected →
        ∃ fields, record = .object fields := by
    intro ρ key table live show_ hobject hrecord
    obtain ⟨row, -, hrow⟩ := List.mem_map.mp hrecord
    obtain ⟨-, rfl⟩ := Prod.mk.inj hrow
    exact hobject row
  split at hmem
  · exact hfetch _ _ _ (fun row => ⟨_, rfl⟩) hmem
  · exact hfetch _ _ _ (fun row => ⟨_, rfl⟩) hmem
  · exact hfetch _ _ _ (fun row => ⟨_, rfl⟩) hmem
  · exact hfetch _ _ _ (fun row => ⟨_, rfl⟩) hmem
  · exact hfetch _ _ _ (fun row => ⟨_, rfl⟩) hmem
  · exact hfetch _ _ _ (fun row => ⟨_, rfl⟩) hmem
  · contradiction

/-- Only null is equal to the value that a foreign key gets. -/
theorem eq_null_of_deepEqual {maps : MapsByEntity}
    {entity : Option EntityType} {value : Json} (hobjects : HoldsObjects maps)
    (h : value.deepEqual (expandedValue app maps entity value) = true) :
    value = .null := by
  rw [expandedValue] at h
  cases hid : toPositiveInt app value with
  | none =>
      rw [hid] at h
      exact Json.deepEqual_null_iff.mp h
  | some id =>
      rw [hid] at h
      dsimp only at h
      cases hrecord : (maps.lookup entity).bind fun records =>
          records.get id with
      | none =>
          rw [hrecord] at h
          exact Json.deepEqual_null_iff.mp h
      | some record =>
          obtain ⟨records, hlookup, hget⟩ := Option.bind_eq_some_iff.mp hrecord
          obtain ⟨fields, rfl⟩ := hobjects entity records id record hlookup hget
          rw [hrecord, Option.getD_some] at h
          cases value with
          | number | text => simp [Json.deepEqual] at h
          | null => rfl
          | bool | array | object => simp [toPositiveInt] at hid

/-- What is written to a key comes from an entry of the object. -/
theorem exists_of_lookup_assigned {maps : MapsByEntity}
    {fields : List (String × Json)} {key : String} {value : Json}
    (h : (assigned app maps fields).lookup key = some value) :
    key ≠ "__proto__" ∧ ∃ entry ∈ fields,
      expandedEntry app maps fields entry = (key, value) := by
  obtain ⟨before, after, hassigned, -⟩ := List.lookup_eq_some_iff.mp h
  have hmem : (key, value) ∈ assigned app maps fields := by
    rw [hassigned]
    simp
  obtain ⟨hmapped, hproto⟩ := List.mem_filter.mp hmem
  obtain ⟨entry, hentry, hexpanded⟩ := List.mem_map.mp hmapped
  exact ⟨of_decide_eq_true hproto, entry, hentry, hexpanded⟩

/-- An object that deep equality does not tell from its expansion has no entry
that is renamed, and each entry is equal to what it is expanded to. -/
theorem kept_of_deepEqual {maps : MapsByEntity}
    {fields : List (String × Json)} (hkeys : (fields.map Prod.fst).Nodup)
    (hobjects : HoldsObjects maps)
    (h : ∀ entry ∈ fields, ∃ other,
      (assigned app maps fields).lookup entry.1 = some other ∧
        entry.2.deepEqual other = true) :
    ∀ entry ∈ fields, Kept fields entry ∧
      (activeRule fields entry.1 = none →
        entry.2.deepEqual (transformNode app maps entry.2) = true) := by
  -- No key is renamed: what is written to it would come from another entry,
  -- and nothing is renamed to a key with a rule.
  have hsame : ∀ entry ∈ fields, ∀ rule,
      activeRule fields entry.1 = some rule →
        outputKeyOf rule entry.1 = entry.1 := by
    intro entry hentry rule hrule
    obtain ⟨other, hlookup, -⟩ := h entry hentry
    obtain ⟨-, source, hsource, hexpanded⟩ := exists_of_lookup_assigned hlookup
    rw [expandedEntry] at hexpanded
    cases hactive : activeRule fields source.1 with
    | none =>
        rw [hactive] at hexpanded
        have hkey : source.1 = entry.1 := (Prod.mk.inj hexpanded).1
        rw [hkey, hrule] at hactive
        contradiction
    | some rule' =>
        rw [hactive] at hexpanded
        have hkey : outputKeyOf rule' source.1 = entry.1 :=
          (Prod.mk.inj hexpanded).1
        rcases outputKeyOf_cases (ruleOf_of_activeRule hactive) with
          hown | hnone
        · have hsourceKey : source.1 = entry.1 := hown.symm.trans hkey
          rw [hsourceKey, hrule] at hactive
          obtain rfl := Option.some.inj hactive
          rw [hsourceKey] at hkey
          exact hkey
        · rw [hkey, ruleOf_of_activeRule hrule] at hnone
          contradiction
  intro entry hentry
  obtain ⟨other, hlookup, hequal⟩ := h entry hentry
  obtain ⟨hproto, source, hsource, hexpanded⟩ :=
    exists_of_lookup_assigned hlookup
  have hsourceKey : source.1 = entry.1 := by
    have hkey : (expandedEntry app maps fields source).1 = entry.1 := by
      rw [hexpanded]
    rw [expandedEntry] at hkey
    cases hactive : activeRule fields source.1 with
    | none =>
        rw [hactive] at hkey
        exact hkey
    | some rule =>
        rw [hactive] at hkey
        exact (hsame source hsource rule hactive).symm.trans hkey
  obtain rfl : source = entry :=
    List.inj_on_of_nodup_map hkeys hsource hentry hsourceKey
  rw [expandedEntry] at hexpanded
  cases hactive : activeRule fields source.1 with
  | none =>
      rw [hactive] at hexpanded
      obtain ⟨-, rfl⟩ := Prod.mk.inj hexpanded
      refine ⟨fun rule hrule => ?_, fun _ => hequal⟩
      rw [hactive] at hrule
      contradiction
  | some rule =>
      rw [hactive] at hexpanded
      obtain ⟨-, rfl⟩ := Prod.mk.inj hexpanded
      refine ⟨fun rule' hrule => ?_, fun h => by contradiction⟩
      obtain rfl := Option.some.inj (hactive.symm.trans hrule)
      exact ⟨hsame source hsource rule hactive, hproto,
        eq_null_of_deepEqual hobjects hequal⟩

theorem each_kept_of_deepEqual {maps : MapsByEntity} {json : Json}
    (hobjects : HoldsObjects maps) (hwell : json.WellFormed)
    (h : json.deepEqual (transformNode app maps json) = true) :
    json.Each Kept := by
  induction json using Json.tree_induction with
  | null | bool | number | text => simp [Json.Each, Json.entries]
  | array items ih =>
      have hwell' := Json.each_array_iff.mp hwell
      rw [transformNode, transformItems_eq, Json.deepEqual_array_iff,
        List.forall₂_map_right_iff, List.forall₂_same] at h
      exact Json.each_array_iff.mpr fun item hitem =>
        ih item hitem (hwell' item hitem) (h item hitem)
  | object fields ih =>
      obtain ⟨hkeys, hwell'⟩ := Json.each_object_iff.mp hwell
      have hnodup : (fields.map Prod.fst).Nodup := by
        cases fields with
        | nil => exact List.nodup_nil
        | cons first rest => exact hkeys first List.mem_cons_self
      rw [transformNode_object, Json.deepEqual_object_iff] at h
      have hkept := kept_of_deepEqual hnodup hobjects fun entry hentry => by
        obtain ⟨other, hlookup, hequal⟩ := h.2 entry hentry
        rw [lookup_firstOfEachKey] at hlookup
        exact ⟨other, hlookup, hequal⟩
      refine Json.each_object_iff.mpr
        ⟨fun entry hentry => (hkept entry hentry).1, fun entry hentry => ?_⟩
      cases hactive : activeRule fields entry.1 with
      | none =>
          exact ih entry hentry (hwell' entry hentry)
            ((hkept entry hentry).2 hactive)
      | some rule =>
          rw [((hkept entry hentry).1 rule hactive).2.2]
          simp [Json.Each, Json.entries]

/-- Details come back equal exactly if nothing in them is rewritten. -/
theorem deepEqual_transformNode_iff {maps : MapsByEntity} {details : Json}
    (hobjects : HoldsObjects maps) (hwell : details.WellFormed) :
    details.deepEqual (transformNode app maps details) = true ↔
      Untouched details := by
  rw [untouched_iff]
  constructor
  · exact each_kept_of_deepEqual hobjects hwell
  · intro hkept
    rw [transformNode_of_kept hwell hkept]
    exact Json.deepEqual_refl hwell

/-! ## What the requests answer -/

section Answers

variable {i : ℕ} {ws : List Trade.Draw} {m n t : Trade.Market}

/-- Every product of the answer is the row that is stored. -/
def ShowsStored (t : Trade.Market) (rows : List ProductRow) : Prop :=
  ∀ row ∈ rows, t.db.products.get row.id = some row

theorem showsStored_of_liveProduct {productId : ℕ} {row : ProductRow}
    (h : t.db.liveProduct productId = some row) : ShowsStored t [row] := by
  intro other hmem
  obtain rfl := List.mem_singleton.mp hmem
  obtain ⟨hget, -⟩ := Trade.Database.liveProduct_eq_some.mp h
  rw [Table.key_of_get hget]
  exact hget

/-- A transaction that ends with the read of a product shows what it
commits. -/
theorem showsStored_of_commit {client : Trade.Client} {productId : ℕ}
    {viewer : Option ℕ} {value : Option ProductView}
    (h : (Trade.fetchProductWithImages (some client) productId viewer).Ends
      i ws n (.ok value) m) :
    ShowsStored (m.commit i) (productsOf (.product value)) := by
  obtain ⟨rfl, ⟨rfl, -⟩ | ⟨shown, rfl, hrow, -⟩⟩ :=
    Trade.ends_fetchProductWithImages_ok h
  · exact fun row hrow => absurd hrow List.not_mem_nil
  · rw [Trade.viewFor_some, ← Trade.db_commit] at hrow
    exact showsStored_of_liveProduct hrow

theorem createProduct_showsStored {user : ℕ} {dto : Trade.CreateProductDto}
    {value : Option ProductView}
    (h : (Trade.createProduct user dto).Ends i ws m (.ok value) t) :
    ShowsStored t (productsOf (.product value)) := by
  obtain ⟨_, n, hcallback, rfl⟩ := Trade.ends_withTransaction_ok h
  obtain ⟨_, _, _, _, _, _, hends⟩ := Program.ends_bind_ok.mp hcallback
  obtain ⟨_, _, insert, _, _, _, hends⟩ := Program.ends_bind_ok.mp hends
  split at hends
  · exact showsStored_of_commit hends
  · split at hends
    · exact showsStored_of_commit hends
    · obtain ⟨_, _, _, _, _, _, hfetch⟩ := Program.ends_bind_ok.mp hends
      exact showsStored_of_commit hfetch

theorem updateProduct_showsStored {user productId : ℕ}
    {dto : Trade.UpdateProductDto} {value : Option ProductView}
    (h : (Trade.updateProduct user productId dto).Ends i ws m (.ok value) t) :
    ShowsStored t (productsOf (.product value)) := by
  obtain ⟨_, n, hcallback, rfl⟩ := Trade.ends_withTransaction_ok h
  obtain ⟨_, _, _, _, _, _, hends⟩ := Program.ends_bind_ok.mp hcallback
  obtain ⟨_, hends⟩ := Trade.ends_select_bind_ok hends
  split at hends
  · exact absurd hends Trade.not_ends_failed_ok
  obtain ⟨_, _, _, _, _, _, hends⟩ := Program.ends_bind_ok.mp hends
  obtain ⟨_, _, _, _, _, _, hends⟩ := Program.ends_bind_ok.mp hends
  split at hends
  · exact showsStored_of_commit hends
  · obtain ⟨_, _, _, _, _, _, hfetch⟩ := Program.ends_bind_ok.mp hends
    exact showsStored_of_commit hfetch

theorem getProductById_showsStored {productId : ℕ} {viewer : Option ℕ}
    {value : ProductView}
    (h : (Trade.getProductById productId viewer).Ends i ws m (.ok value) t) :
    ShowsStored t [value.row] := by
  obtain ⟨_, _, product, _, _, hfetch, hchecked⟩ := Program.ends_bind_ok.mp h
  obtain ⟨rfl, ⟨rfl, -⟩ | ⟨seen, rfl, hrow, -⟩⟩ :=
    Trade.ends_fetchProductWithImages_ok hfetch
  · exact absurd hchecked Trade.not_ends_failed_ok
  dsimp only at hchecked
  split at hchecked
  · obtain ⟨_, hvalue, rfl⟩ := hchecked
    obtain rfl := Except.ok.inj hvalue
    exact showsStored_of_liveProduct hrow
  · obtain ⟨_, hblocked⟩ := Trade.ends_select_bind_ok hchecked
    split at hblocked
    · exact absurd hblocked Trade.not_ends_failed_ok
    · obtain ⟨_, hvalue, rfl⟩ := hblocked
      obtain rfl := Except.ok.inj hvalue
      exact showsStored_of_liveProduct hrow

theorem searchProducts_showsStored {market : Trade.Deployment}
    {dto : Trade.SearchProductsDto} {viewer : Option ℕ}
    {value : List ProductListing}
    (h : (Trade.searchProducts market dto viewer).Ends i ws m (.ok value) t) :
    ShowsStored t (value.map ProductListing.row) := by
  unfold Trade.searchProducts at h
  rcases Trade.assertSearchCategoryPair_cases dto.category dto.subcategory with
    hdone | ⟨fault, hfailed⟩
  · rw [hdone, Program.done_bind] at h
    obtain ⟨rfl, rfl⟩ := Trade.ends_select_ok h
    intro row hrow
    obtain ⟨item, hitem, rfl⟩ := List.mem_map.mp hrow
    exact (Trade.Database.liveProduct_eq_some.mp
      (Trade.Database.mem_searchProducts hitem)).1
  · rw [hfailed] at h
    exact absurd h Trade.not_ends_failed_ok

theorem handler_showsStored {market : Trade.Deployment}
    {request : Trade.Request} {response : Trade.Response}
    (hshows : ShowsProducts request)
    (h : (request.handler market).Ends i ws m (.ok response) t) :
    ShowsStored t (productsOf response) := by
  cases request with
  | createProduct user dto =>
      obtain ⟨_, _, _, _, _, hends, _, hvalue, rfl⟩ := Program.ends_bind_ok.mp h
      obtain rfl := Except.ok.inj hvalue
      exact createProduct_showsStored hends
  | updateProduct user productId dto =>
      obtain ⟨_, _, _, _, _, hends, _, hvalue, rfl⟩ := Program.ends_bind_ok.mp h
      obtain rfl := Except.ok.inj hvalue
      exact updateProduct_showsStored hends
  | getProductById productId viewer =>
      obtain ⟨_, _, _, _, _, hends, _, hvalue, rfl⟩ := Program.ends_bind_ok.mp h
      obtain rfl := Except.ok.inj hvalue
      exact getProductById_showsStored hends
  | searchProducts dto viewer =>
      obtain ⟨_, _, _, _, _, hends, _, hvalue, rfl⟩ := Program.ends_bind_ok.mp h
      obtain rfl := Except.ok.inj hvalue
      exact searchProducts_showsStored hends
  | _ => exact absurd hshows id

end Answers

/-! ## The details in the body -/

/-- Each product of a response has its place in the body, where its details
are expanded on their own. -/
theorem exists_body {response : Trade.Response} {position : ℕ}
    {row : ProductRow} (h : (productsOf response)[position]? = some row) :
    ∃ body product, responseBody app response = some body ∧
      field "details" product = some (row.details.getD .null) ∧
      ∀ maps, (bodyProducts (transformNode app maps body))[position]? =
        some (transformNode app maps product) := by
  have hproduct : ruleOf "product" = none := ruleOf_plain (by simp)
  have hitems : ruleOf "items" = none := ruleOf_plain (by simp)
  cases response with
  | product product =>
      cases product with
      | none => simp [productsOf] at h
      | some view =>
          obtain ⟨rfl, rfl⟩ : position = 0 ∧ view.row = row := by
            simpa [productsOf, List.getElem?_singleton] using h
          refine ⟨_, productJson app view, rfl, rfl, fun maps => ?_⟩
          rw [transformNode_single hproduct]
          rfl
  | items items =>
      obtain ⟨listing, hlisting, rfl⟩ := by
        simpa [productsOf] using h
      refine ⟨_, listingJson app listing, rfl, rfl, fun maps => ?_⟩
      rw [transformNode_single hitems, transformNode, transformItems_eq]
      change ((items.map (listingJson app)).map (transformNode app maps))[
        position]? = _
      rw [List.getElem?_map, List.getElem?_map, hlisting]
      rfl
  | _ => simp [productsOf] at h

theorem returnedDetails_eq {response : Trade.Response} {position : ℕ}
    {row : ProductRow} {details : Json}
    (hrow : (productsOf response)[position]? = some row)
    (hdetails : row.details = some details) :
    ∃ ids, returnedDetails app db response position =
      some (transformNode app (resolveEntities app db ids) details) := by
  obtain ⟨body, product, hbody, hfield, hplace⟩ := @exists_body app _ _ _ hrow
  have hproduct : (bodyProducts (expand app db body))[position]? =
      some (transformNode app
        (resolveEntities app db (collectIds app body)) product) := hplace _
  refine ⟨collectIds app body, ?_⟩
  simp only [returnedDetails, hbody, hproduct, Option.bind_eq_bind,
    Option.bind_some, field_details, hfield, hdetails, Option.map_some,
    Option.getD_some]

/-- For every response of the four requests and every product in it, whatever
the tables hold when the interceptor reads them: the product is shown as it is
stored, and its details in the body are equal to the stored ones exactly if
nothing in them is rewritten. -/
theorem details_round_trip_iff {request : Trade.Request} {i : ℕ}
    {ws : List Trade.Draw} {m t : Trade.Market} {response : Trade.Response}
    (hshows : ShowsProducts request)
    (hends : (request.handler app.market).Ends i ws m (.ok response) t)
    {position : ℕ} {row : ProductRow} {details : Json}
    (hrow : (productsOf response)[position]? = some row)
    (hdetails : row.details = some details) (hwell : details.WellFormed) :
    t.db.products.get row.id = some row ∧
      ∃ returned, returnedDetails app db response position = some returned ∧
        (details.deepEqual returned = true ↔ Untouched details) := by
  have hstored := handler_showsStored hshows hends row
    (List.mem_of_getElem? hrow)
  obtain ⟨ids, hreturned⟩ := @returnedDetails_eq app db _ _ _ _ hrow hdetails
  exact ⟨hstored, _, hreturned,
    deepEqual_transformNode_iff (holdsObjects_resolveEntities ids) hwell⟩

/-- Details of one number. -/
def numbered (key : String) (value : ℚ) : Json :=
  .object [(key, .number value)]

/-- A product that user 1 lists with these details. -/
def described (details : Json) : Trade.CreateProductDto :=
  { Trade.sampleProduct with details := some details }

def detailed (key : String) (value : ℚ) : Trade.CreateProductDto :=
  described (numbered key value)

/-- An answer with a product that has these details. -/
def answersDetails (details : Json) :
    Except Trade.Fault Trade.Response → Bool
  | .ok (.product (some view)) => view.row.details = some details
  | _ => false

theorem answersDetails_iff {details : Json}
    {result : Except Trade.Fault Trade.Response} :
    answersDetails details result = true ↔
      ∃ view, result = .ok (.product (some view)) ∧
        view.row.details = some details := by
  constructor
  · intro h
    unfold answersDetails at h
    split at h
    · exact ⟨_, rfl, of_decide_eq_true h⟩
    · exact absurd h Bool.false_ne_true
  · rintro ⟨view, rfl, hview⟩
    exact decide_eq_true hview

def listsDetails (details : Json) (m : Trade.Market) : Bool :=
  (((Trade.Request.createProduct 1 (described details)).handler
    sampleRelations.market).runUnder 0 (List.replicate 6 Trade.calmDraw) m).any
      fun ended => answersDetails details ended.1

theorem exists_listed {details : Json}
    (h : ((Trade.market sampleRelations.market).run
      [.environment (.userRegisters "Amina" "+201")] (Trade.Pool.opening 0)).any
        (fun pool => listsDetails details pool.state) = true) :
    ∃ (m t : Trade.Market) (view : ProductView),
      ((Trade.Request.createProduct 1 (described details)).handler
        sampleRelations.market).Ends 0 (List.replicate 6 Trade.calmDraw) m
          (.ok (.product (some view))) t ∧
      view.row.details = some details := by
  obtain ⟨pool, -, hcheck⟩ := System.exists_reaches_of_run h
  obtain ⟨result, t, hends, hanswers⟩ := Program.exists_ends_of_runUnder hcheck
  obtain ⟨view, rfl, hview⟩ := answersDetails_iff.mp hanswers
  exact ⟨_, _, view, hends, hview⟩

/-- Details of objects in objects and arrays, with a review that is still open
and an owner that is no user. -/
def nestedDetails : Json :=
  .object
    [("dimensions", .object
        [("weight", .number 12), ("reviewed_by", .null)]),
      ("dealers", .array
        [.object [("owner_type", .text "company"), ("owner_id", .number 3)],
          .object [("city", .text "Damascus")]])]

theorem details_round_trip_iff_nested :
    ∃ response returned, returnedDetails sampleRelations sampleSnapshot response
        0 = some returned ∧
      nestedDetails.deepEqual returned = true := by
  obtain ⟨m, t, view, hends, hdetails⟩ :=
    @exists_listed nestedDetails (by decide +kernel)
  obtain ⟨-, returned, hreturned, hequal⟩ :=
    @details_round_trip_iff sampleRelations sampleSnapshot
      (.createProduct 1 (described nestedDetails)) _ _ _ _ _ trivial hends 0
        view.row _ rfl hdetails (by decide +kernel)
  exact ⟨_, returned, hreturned, hequal.mpr (by decide +kernel)⟩

/-- A number under `user_id` is not what comes back. -/
theorem not_always_round_trip :
    ¬ ∀ (request : Trade.Request) (i : ℕ) (ws : List Trade.Draw)
      (m t : Trade.Market) (response : Trade.Response), ShowsProducts request →
      (request.handler sampleRelations.market).Ends i ws m (.ok response) t →
      ∀ (position : ℕ) (row : ProductRow) (details : Json),
        (productsOf response)[position]? = some row →
        row.details = some details → details.WellFormed →
        ∃ returned, returnedDetails sampleRelations sampleSnapshot response
            position = some returned ∧
          details.deepEqual returned = true := by
  intro h
  obtain ⟨m, t, view, hends, hdetails⟩ :=
    @exists_listed (numbered "user_id" 5) (by decide +kernel)
  have hwell : (numbered "user_id" 5).WellFormed := by decide +kernel
  obtain ⟨returned, hreturned, hequal⟩ :=
    h (.createProduct 1 (described (numbered "user_id" 5))) _ _ _ _ _ trivial
      hends 0 view.row _ rfl hdetails hwell
  obtain ⟨ids, hexpanded⟩ := @returnedDetails_eq sampleRelations sampleSnapshot
    (.product (some view)) 0 view.row _ rfl hdetails
  obtain rfl := Option.some.inj (hexpanded.symm.trans hreturned)
  have huntouched := (deepEqual_transformNode_iff
    (holdsObjects_resolveEntities ids) hwell).mp hequal
  have hrewritten : ¬ Untouched (numbered "user_id" 5) := by decide +kernel
  exact hrewritten huntouched

end MarketPlace.Relations
