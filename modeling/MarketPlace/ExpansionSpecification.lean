import MarketPlace.ChatService
import MarketPlace.FkExpansion
import MarketPlace.JsonTrees

/-!
# What the expansion of foreign keys is

One recursion says what a payload is expanded to: each foreign key becomes the
live record that it names.  The service walks the payload twice, and the second
walk finds the record of every id because the first one has collected it.
-/

namespace MarketPlace.Relations

open Relational
open Trade (Json)

/-! ## The expansion -/

/-- The id that a value names: a positive integer, or the digits of one. -/
def namedId : Json → Option ℕ
  | .number value =>
      if value.isInt && decide (0 < value) then some value.num.toNat else none
  | .text text => (decimalValue text).filter fun id => 0 < id
  | _ => none

section Expansion

variable (app : RelationsDeployment) (db : Snapshot)

/-- The record of a row that is there and, where rows can be deleted, is not. -/
def liveRecord (entity : EntityType) (id : ℕ) : Option Json :=
  match entity with
  | .user => (db.market.liveUser id).map (userRecord app db)
  | .category => (db.categories.get id).map (categoryRecord app)
  | .product => (db.market.liveProduct id).map (productRecord app db)
  | .message => (db.market.messages.get id).map (messageRecord app)
  | .conversation =>
      (db.market.conversations.get id).map (conversationRecord app)
  | .file => (db.market.files.get id).map (fileRecord app)

/-- The rule of a foreign key; `owner_id` is none where an `owner_type` stands
beside it. -/
def foreignKey (container : List (String × Json)) (key : String) :
    Option FkRule :=
  if key = "owner_id" ∧ hasOwn container "owner_type" then none
  else fkRules.lookup key

/-- The record that a foreign key's value names, or null. -/
def namedRecord (entity : Option EntityType) (value : Json) : Json :=
  ((namedId value).bind fun id =>
    entity.bind fun entity => liveRecord app db entity id).getD .null

/-- The first entry with each key. -/
def firstOfEachKey : List (String × Json) → List (String × Json)
  | [] => []
  | field :: rest =>
      field :: (firstOfEachKey rest).filter fun other => other.1 ≠ field.1

mutual

def expansion : Json → Json
  | .array items => .array (expansionOfItems items)
  | .object fields => .object (firstOfEachKey (expansionOfFields fields fields))
  | json => json

def expansionOfItems : List Json → List Json
  | [] => []
  | item :: rest => expansion item :: expansionOfItems rest

def expansionOfFields (container : List (String × Json)) :
    List (String × Json) → List (String × Json)
  | [] => []
  | (key, value) :: rest =>
      (match foreignKey container key with
        | some rule =>
            (outputKeyOf rule key, namedRecord app db rule.entity value)
        | none => (key, expansion value)) :: expansionOfFields container rest

end

end Expansion

variable {app : RelationsDeployment} {db : Snapshot}

/-! ## Collected ids -/

/-- The id is among those collected for the entity. -/
def Collected (ids : IdsByEntity) (entity : Option EntityType) (id : ℕ) :
    Prop :=
  ∃ collected, ids.lookup entity = some collected ∧ id ∈ collected

theorem lookup_addId (entity other : Option EntityType) (id : ℕ)
    (ids : IdsByEntity) :
    (addId entity id ids).lookup other =
      if other = entity then
        some (match ids.lookup entity with
          | none => [id]
          | some collected =>
              if id ∈ collected then collected else collected ++ [id])
      else ids.lookup other := by
  induction ids with
  | nil =>
      by_cases hother : other = entity
      · simp [addId, hother]
      · simp [addId, hother]
  | cons first rest ih =>
      obtain ⟨firstEntity, collected⟩ := first
      by_cases hfirst : firstEntity = entity
      · subst hfirst
        by_cases hother : other = firstEntity
        · simp [addId, hother]
        · have hne : (other == firstEntity) = false := beq_false_of_ne hother
          simp [addId, List.lookup_cons, hne, hother]
      · rw [addId, if_neg hfirst, List.lookup_cons, ih]
        have hne : (entity == firstEntity) = false :=
          beq_false_of_ne (Ne.symm hfirst)
        by_cases hother : other = firstEntity
        · have hentity : ¬ other = entity := fun h =>
            hfirst (hother.symm.trans h)
          simp [hother, hfirst]
        · have hne' : (other == firstEntity) = false := beq_false_of_ne hother
          simp [List.lookup_cons, hne, hne']

theorem collected_addId {entity other : Option EntityType} {id number : ℕ}
    {ids : IdsByEntity} :
    Collected (addId entity id ids) other number ↔
      (other = entity ∧ number = id) ∨ Collected ids other number := by
  rw [Collected, Collected, lookup_addId]
  by_cases hother : other = entity
  · subst hother
    rw [if_pos rfl]
    cases ids.lookup other with
    | none => simp
    | some collected =>
        by_cases hmem : id ∈ collected
        · simp only [hmem, if_true, Option.some.injEq, exists_eq_left',
            true_and]
          constructor
          · exact .inr
          · rintro (rfl | hnumber)
            · exact hmem
            · exact hnumber
        · simp [hmem, or_comm]
  · simp [hother]

/-- The value of an entry with an active rule names the id. -/
def Names (app : RelationsDeployment)
    (entry : List (String × Json) × String × Json)
    (entity : Option EntityType) (id : ℕ) : Prop :=
  ∃ rule, activeRule entry.1 entry.2.1 = some rule ∧ rule.entity = entity ∧
    toPositiveInt app entry.2.2 = some id

/-- A walk over a value that is no container does nothing. -/
theorem walk_of_isContainer (json : Json) (ids : IdsByEntity) :
    (if isContainer json then walk app json ids else ids) =
      walk app json ids := by
  cases json <;> rfl

/-- The walk meets the entries of the tree in their order. -/
theorem walk_eq_foldl (json : Json) (ids : IdsByEntity) :
    walk app json ids =
      json.entries.foldl (fun ids entry =>
        collectEntry app entry.1 entry.2.1 entry.2.2 ids) ids := by
  induction json using Json.tree_induction generalizing ids with
  | null | bool | number | text => rfl
  | array items ih =>
      rw [walk, Json.entries, Json.entries_ofItems]
      induction items generalizing ids with
      | nil => rfl
      | cons item rest ihRest =>
          rw [List.forall_mem_cons] at ih
          rw [walkItems, List.flatMap_cons, List.foldl_append, ih.1,
            ihRest ih.2]
  | object fields ih =>
      have hentries : ∀ (container : List (String × Json)) (ids : IdsByEntity),
          walkEntries app container fields ids =
            (fields.flatMap fun field =>
                (container, field) :: field.2.entries).foldl
              (fun ids entry =>
                collectEntry app entry.1 entry.2.1 entry.2.2 ids) ids := by
        intro container ids
        induction fields generalizing ids with
        | nil => rfl
        | cons field rest ihRest =>
            rw [List.forall_mem_cons] at ih
            rw [walkEntries, walk_of_isContainer, List.flatMap_cons,
              List.cons_append, List.foldl_cons, List.foldl_append, ih.1,
              ihRest ih.2]
      rw [walk, Json.entries, Json.entries_ofFields]
      exact hentries fields ids

section Collecting

variable (holds : IdsByEntity → Prop) {p : Option EntityType → ℕ → Prop}
  (hadd : ∀ entity id ids,
    holds (addId entity id ids) ↔ p entity id ∨ holds ids)

include hadd

theorem holds_collectEntry
    {entry : List (String × Json) × String × Json} {ids : IdsByEntity} :
    holds (collectEntry app entry.1 entry.2.1 entry.2.2 ids) ↔
      (∃ entity id, Names app entry entity id ∧ p entity id) ∨ holds ids := by
  rw [collectEntry]
  unfold Names
  cases activeRule entry.1 entry.2.1 with
  | none => simp
  | some rule =>
      cases toPositiveInt app entry.2.2 with
      | none => simp
      | some id => simp [hadd]

/-- What an id makes true by being added is true of the collected ids if an
entry of the payload names such an id. -/
theorem holds_collectIds (hnil : ¬ holds []) {payload : Json} :
    holds (collectIds app payload) ↔ ∃ entry ∈ payload.entries,
      ∃ entity id, Names app entry entity id ∧ p entity id := by
  have hfold : ∀ (entries : List (List (String × Json) × String × Json))
      (ids : IdsByEntity),
      holds (entries.foldl (fun ids entry =>
        collectEntry app entry.1 entry.2.1 entry.2.2 ids) ids) ↔
        (∃ entry ∈ entries, ∃ entity id,
          Names app entry entity id ∧ p entity id) ∨ holds ids := by
    intro entries
    induction entries with
    | nil => simp
    | cons entry rest ih =>
        intro ids
        rw [List.foldl_cons, ih, holds_collectEntry holds hadd,
          List.exists_mem_cons_iff, or_assoc, or_left_comm]
  rw [collectIds, walk_eq_foldl, hfold, or_iff_left hnil]

end Collecting

/-- Exactly the ids are collected that an entry of the payload names. -/
theorem collected_collectIds {payload : Json} {entity : Option EntityType}
    {id : ℕ} :
    Collected (collectIds app payload) entity id ↔
      ∃ entry ∈ payload.entries, Names app entry entity id := by
  rw [holds_collectIds (fun ids => Collected ids entity id)
    (fun _ _ _ => collected_addId) (by simp [Collected])]
  simp

/-- One of the ids is there for an entity with which it has the property. -/
def Lists (p : Option EntityType → ℕ → Prop) (ids : IdsByEntity) : Prop :=
  ∃ collected ∈ ids, ∃ id ∈ collected.2, p collected.1 id

theorem lists_addId {p : Option EntityType → ℕ → Prop}
    {entity : Option EntityType} {id : ℕ} {ids : IdsByEntity} :
    Lists p (addId entity id ids) ↔ p entity id ∨ Lists p ids := by
  unfold Lists
  induction ids with
  | nil => simp [addId]
  | cons first rest ih =>
      rw [addId.eq_def]
      dsimp only
      by_cases hfirst : first.1 = entity
      · subst hfirst
        rw [if_pos rfl, List.exists_mem_cons_iff, List.exists_mem_cons_iff,
          ← or_assoc]
        refine or_congr_left ?_
        by_cases hmem : id ∈ first.2
        · rw [if_pos hmem]
          exact ⟨.inr, Or.rec (fun hid => ⟨_, hmem, hid⟩) fun hrest => hrest⟩
        · simp [hmem, or_and_right, exists_or, or_comm]
      · rw [if_neg hfirst, List.exists_mem_cons_iff, ih,
          List.exists_mem_cons_iff, or_left_comm]

theorem lists_collectIds {p : Option EntityType → ℕ → Prop} {payload : Json} :
    Lists p (collectIds app payload) ↔ ∃ entry ∈ payload.entries,
      ∃ entity id, Names app entry entity id ∧ p entity id :=
  holds_collectIds (Lists p) (fun _ _ _ => lists_addId) (by simp [Lists])

/-! ## Lookups that fail -/

/-- A foreign key of the payload names an id that is no BIGINT, or anything of
an entity whose query fails. -/
def LookupThrows (app : RelationsDeployment) (failing : EntityType → Bool)
    (payload : Json) : Prop :=
  ∃ entry ∈ payload.entries, ∃ entity id, Names app entry (some entity) id ∧
    (failing entity = true ∨ bigintBound ≤ id)

theorem fetchThrows_iff {failing : EntityType → Bool}
    {entity : Option EntityType} {ids : List ℕ} :
    fetchThrows failing entity ids = true ↔ ∃ id ∈ ids, ∃ named,
      entity = some named ∧ (failing named = true ∨ bigintBound ≤ id) := by
  cases entity with
  | none => simp [fetchThrows]
  | some entity =>
      cases ids with
      | nil => simp [fetchThrows]
      | cons id rest =>
          cases hfailing : failing entity with
          | true => simp [fetchThrows, hfailing]
          | false => simp [fetchThrows, hfailing]

theorem resolvingThrows_iff {failing : EntityType → Bool} {payload : Json} :
    resolvingThrows failing (collectIds app payload) = true ↔
      LookupThrows app failing payload := by
  simp only [resolvingThrows, List.any_eq_true, fetchThrows_iff]
  change Lists (fun entity id => ∃ named, entity = some named ∧
    (failing named = true ∨ bigintBound ≤ id)) (collectIds app payload) ↔ _
  rw [lists_collectIds]
  constructor
  · rintro ⟨entry, hentry, _, id, hnames, entity, rfl, hcause⟩
    exact ⟨entry, hentry, entity, id, hnames, hcause⟩
  · rintro ⟨entry, hentry, entity, id, hnames, hcause⟩
    exact ⟨entry, hentry, some entity, id, hnames, entity, rfl, hcause⟩

instance (failing : EntityType → Bool) (payload : Json) :
    Decidable (LookupThrows app failing payload) :=
  decidable_of_iff _ resolvingThrows_iff

/-- The expansion throws exactly where one of the lookups does. -/
theorem expandOrThrow_eq {failing : EntityType → Bool} {payload : Json} :
    expandOrThrow app db failing payload =
      if LookupThrows app failing payload then .error (.database none)
      else .ok (expand app db payload) := by
  rw [expandOrThrow]
  simp only [resolvingThrows_iff]

/-! ## Fetched records -/

/-- The first entry is found that meets the condition, if all that meet it are
the same. -/
theorem find?_eq_of_unique {α : Type} {entries : List α} {p : α → Bool}
    {found : α} (hmem : found ∈ entries) (hfound : p found = true)
    (hunique : ∀ entry ∈ entries, p entry = true → entry = found) :
    entries.find? p = some found := by
  cases hfind : entries.find? p with
  | none =>
      exact absurd hfound (List.find?_eq_none.mp hfind found hmem)
  | some entry =>
      rw [hunique entry (List.mem_of_find?_eq_some hfind)
        (List.find?_some hfind)]

/-- What is fetched for a list of ids has, for each of them, the record of its
row, where the language can write all of them exactly. -/
theorem get_fetch {ρ : Type} {key : ρ → ℕ} (table : Table key)
    (live : ρ → Bool) (record : ρ → Json) {ids : List ℕ} {id : ℕ}
    (hexact : ∀ id ∈ ids, app.nearestNumber id = id) (hid : id ∈ ids) :
    (fetch app table live record ids).get id =
      ((table.get id).filter live).map record := by
  have hfetched : ∀ entry ∈ fetch app table live record ids, entry.1 = id →
      ∃ row, (table.get id).filter live = some row ∧
        entry = (id, record row) := by
    intro entry hentry hnumber
    obtain ⟨row, hrow, rfl⟩ := List.mem_map.mp hentry
    obtain ⟨hmem, hselected⟩ := List.mem_filter.mp hrow
    simp only [Bool.and_eq_true, decide_eq_true_eq] at hselected
    have hkey : key row = id := (hexact _ hselected.1).symm.trans hnumber
    refine ⟨row, ?_, Prod.ext hnumber rfl⟩
    rw [Table.get_eq_some_iff.mpr ⟨hmem, hkey⟩, Option.filter_some,
      if_pos hselected.2]
  rw [ResolverMap.get]
  cases hrow : (table.get id).filter live with
  | none =>
      have hnone : (fetch app table live record ids).reverse.find?
          (fun entry => entry.1 = id) = none := by
        refine List.find?_eq_none.mpr fun entry hentry hnumber => ?_
        obtain ⟨row, hsome, -⟩ := hfetched entry (List.mem_reverse.mp hentry)
          (of_decide_eq_true hnumber)
        exact absurd (hrow.symm.trans hsome) (by simp)
      rw [hnone]
      rfl
  | some row =>
      obtain ⟨hget, hlive⟩ := Option.filter_eq_some_iff.mp hrow
      have hkey := Table.key_of_get hget
      have hmem : (id, record row) ∈ fetch app table live record ids := by
        refine List.mem_map.mpr ⟨row, List.mem_filter.mpr
          ⟨Table.mem_of_get hget, ?_⟩, ?_⟩
        · rw [hkey, Bool.and_eq_true, decide_eq_true_eq]
          exact ⟨hid, hlive⟩
        · rw [hkey, hexact id hid]
      rw [find?_eq_of_unique (List.mem_reverse.mpr hmem)
        (decide_eq_true rfl) ?_]
      · rfl
      · intro entry hentry hnumber
        obtain ⟨row', hrow', rfl⟩ := hfetched entry
          (List.mem_reverse.mp hentry) (of_decide_eq_true hnumber)
        rw [Option.some.inj (hrow.symm.trans hrow')]

theorem get_fetchRecords {entity : EntityType} {ids : List ℕ} {id : ℕ}
    (hexact : ∀ id ∈ ids, app.nearestNumber id = id) (hid : id ∈ ids) :
    (fetchRecords app db (some entity) ids).get id =
      liveRecord app db entity id := by
  have hall : ∀ {ρ : Type} (row : Option ρ),
      row.filter (fun _ => true) = row := fun row => by cases row <;> rfl
  rw [fetchRecords.eq_def, if_neg (List.ne_nil_of_mem hid)]
  cases entity with
  | user => exact get_fetch db.market.users _ _ hexact hid
  | product => exact get_fetch db.market.products _ _ hexact hid
  | category =>
      exact (get_fetch db.categories _ _ hexact hid).trans (by rw [hall]; rfl)
  | message =>
      exact (get_fetch db.market.messages _ _ hexact hid).trans
        (by rw [hall]; rfl)
  | conversation =>
      exact (get_fetch db.market.conversations _ _ hexact hid).trans
        (by rw [hall]; rfl)
  | file =>
      exact (get_fetch db.market.files _ _ hexact hid).trans (by rw [hall]; rfl)

theorem lookup_resolveEntities (ids : IdsByEntity)
    (entity : Option EntityType) :
    (resolveEntities app db ids).lookup entity =
      (ids.lookup entity).map (fetchRecords app db entity) := by
  induction ids with
  | nil => rfl
  | cons first rest ih =>
      rw [resolveEntities] at ih ⊢
      rw [List.map_cons, List.lookup_cons, List.lookup_cons, ih]
      by_cases hentity : entity = first.1
      · simp [hentity]
      · have hne : (entity == first.1) = false := beq_false_of_ne hentity
        simp [hne]

/-- The record of a collected id is found. -/
theorem expandedValue_eq {ids : IdsByEntity} {entity : EntityType}
    {value : Json}
    (hexact : ∀ id, Collected ids (some entity) id →
      app.nearestNumber id = id)
    (hnamed : toPositiveInt app value = namedId value)
    (hcollected : ∀ id, toPositiveInt app value = some id →
      Collected ids (some entity) id) :
    expandedValue app (resolveEntities app db ids) (some entity) value =
      namedRecord app db (some entity) value := by
  rw [expandedValue, namedRecord, ← hnamed]
  cases hid : toPositiveInt app value with
  | none => rfl
  | some id =>
      obtain ⟨collected, hlookup, hmem⟩ := hcollected id hid
      dsimp only
      rw [lookup_resolveEntities, hlookup, Option.map_some, Option.bind_some,
        get_fetchRecords (fun other hother =>
          hexact other ⟨collected, hlookup, hother⟩) hmem]
      rfl

/-! ## Assigning in order -/

/-- What `transformNode` assigns for an entry. -/
def expandedEntry (app : RelationsDeployment) (maps : MapsByEntity)
    (container : List (String × Json)) (field : String × Json) :
    String × Json :=
  match activeRule container field.1 with
  | some rule =>
      (outputKeyOf rule field.1, expandedValue app maps rule.entity field.2)
  | none => (field.1, transformNode app maps field.2)

theorem hasOwn_concat (out : List (String × Json)) (field : String × Json)
    (key : String) :
    hasOwn (out ++ [field]) key = (hasOwn out key || decide (field.1 = key)) := by
  simp [hasOwn]

/-- One assignment, unless the key is taken. -/
theorem transformEntries_cons (maps : MapsByEntity)
    (container : List (String × Json)) (field : String × Json)
    (rest out : List (String × Json)) :
    transformEntries app maps container (field :: rest) out =
      if hasOwn out (expandedEntry app maps container field).1 then
        transformEntries app maps container rest out
      else
        transformEntries app maps container rest
          (assign (expandedEntry app maps container field).1
            (expandedEntry app maps container field).2 out) := by
  rw [transformEntries, expandedEntry]
  cases activeRule container field.1 <;> rfl

/-- The entries after those already assigned are the first ones with a key
that is free and can be assigned. -/
theorem transformEntries_eq (maps : MapsByEntity)
    (container entries out : List (String × Json)) :
    transformEntries app maps container entries out =
      out ++ (firstOfEachKey
        ((entries.map (expandedEntry app maps container)).filter
          fun field => field.1 ≠ "__proto__")).filter
          fun field => !hasOwn out field.1 := by
  induction entries generalizing out with
  | nil => simp [transformEntries, firstOfEachKey]
  | cons field rest ih =>
      rw [transformEntries_cons, List.map_cons]
      generalize expandedEntry app maps container field = expanded
      by_cases hproto : expanded.1 = "__proto__"
      · have hassign : assign expanded.1 expanded.2 out = out := if_pos hproto
        rw [hassign, ite_self, ih, List.filter_cons_of_neg (by simp [hproto])]
      rw [List.filter_cons_of_pos (by simp [hproto]), firstOfEachKey]
      by_cases hown : hasOwn out expanded.1 = true
      · rw [if_pos hown, ih, List.filter_cons_of_neg (by simp [hown]),
          List.filter_filter]
        congr 2
        funext other
        by_cases hsame : other.1 = expanded.1
        · simp [hsame, hown]
        · simp [hsame]
      · have hassign : assign expanded.1 expanded.2 out = out ++ [expanded] :=
          if_neg hproto
        rw [if_neg hown, hassign, ih, List.filter_cons_of_pos (by simp [hown]),
          List.filter_filter, List.append_assoc, List.singleton_append]
        congr 3
        funext other
        rw [hasOwn_concat, Bool.not_or, ← decide_not]
        simp [eq_comm]

theorem transformItems_eq (maps : MapsByEntity) (items : List Json) :
    transformItems app maps items = items.map (transformNode app maps) := by
  induction items with
  | nil => rfl
  | cons item rest ih => rw [transformItems, ih, List.map_cons]

theorem transformNode_object (maps : MapsByEntity)
    (fields : List (String × Json)) :
    transformNode app maps (.object fields) =
      .object (firstOfEachKey
        ((fields.map (expandedEntry app maps fields)).filter
          fun field => field.1 ≠ "__proto__")) := by
  rw [transformNode, transformEntries_eq, List.nil_append,
    List.filter_eq_self.mpr]
  simp [hasOwn]

/-- What the expansion shows for an entry. -/
def namedEntry (app : RelationsDeployment) (db : Snapshot)
    (container : List (String × Json)) (field : String × Json) :
    String × Json :=
  match foreignKey container field.1 with
  | some rule =>
      (outputKeyOf rule field.1, namedRecord app db rule.entity field.2)
  | none => (field.1, expansion app db field.2)

theorem expansionOfItems_eq (items : List Json) :
    expansionOfItems app db items = items.map (expansion app db) := by
  induction items with
  | nil => rfl
  | cons item rest ih => rw [expansionOfItems, ih, List.map_cons]

theorem expansionOfFields_eq (container fields : List (String × Json)) :
    expansionOfFields app db container fields =
      fields.map (namedEntry app db container) := by
  induction fields with
  | nil => rfl
  | cons field rest ih =>
      rw [expansionOfFields, ih, List.map_cons, namedEntry]

/-! ## The two walks agree with the expansion -/

/-- Only the rule of `owner_id` looks at the object, and only rules of the
table name an entity. -/
theorem fkRules_shape :
    ∀ entry ∈ fkRules, (entry.1 = "owner_id" ∨ entry.2.shouldExpand.isNone) ∧
      entry.2.entity.isSome ∧ outputKeyOf entry.2 entry.1 ≠ "__proto__" := by
  decide +kernel

theorem mem_of_lookup {key : String} {rule : FkRule}
    (h : fkRules.lookup key = some rule) : (key, rule) ∈ fkRules := by
  obtain ⟨before, after, hrules, -⟩ := List.lookup_eq_some_iff.mp h
  rw [hrules]
  simp

theorem activeRule_eq_foreignKey {container : List (String × Json)}
    {key : String} (hkey : key ∉ objectPrototypeMembers) :
    activeRule container key = foreignKey container key := by
  have hrule : ruleOf key = fkRules.lookup key := by
    rw [ruleOf]
    cases fkRules.lookup key with
    | none => exact if_neg hkey
    | some rule => rfl
  rw [activeRule, hrule, foreignKey]
  by_cases howner : key = "owner_id"
  · subst howner
    have howns : fkRules.lookup "owner_id" = some ⟨some .user, none,
        some fun container => !hasOwn container "owner_type"⟩ := rfl
    rw [howns]
    cases hown : hasOwn container "owner_type" <;> simp [hown]
  · rw [if_neg fun h => howner h.1]
    cases hlookup : fkRules.lookup key with
    | none => rfl
    | some rule =>
        have hnone : rule.shouldExpand = none :=
          Option.isNone_iff_eq_none.mp
            ((fkRules_shape _ (mem_of_lookup hlookup)).1.resolve_left howner)
        simp [Option.filter, hnone]

theorem foreignKey_mem {container : List (String × Json)} {key : String}
    {rule : FkRule} (h : foreignKey container key = some rule) :
    (key, rule) ∈ fkRules :=
  mem_of_lookup (Option.ite_none_left_eq_some.mp h).2

/-- The ids that the foreign keys of the payload name are below the bound. -/
def IdsBelow (bound : ℕ) (payload : Json) : Prop :=
  payload.Each fun _ field => (fkRules.lookup field.1).isSome = true →
    ∀ id, namedId field.2 = some id → id < bound

/-- No key of the payload is a member of `Object.prototype`. -/
def AvoidsPrototype (payload : Json) : Prop :=
  payload.Each fun _ field => field.1 ∉ objectPrototypeMembers

theorem toPositiveInt_eq_namedId {value : Json} {bound : ℕ}
    (hexact : ∀ id < bound, app.nearestNumber id = id)
    (hbelow : ∀ id, namedId value = some id → id < bound)
    (hbound : 0 < bound) :
    toPositiveInt app value = namedId value := by
  cases value with
  | text text =>
      rw [toPositiveInt, namedId] at *
      cases hvalue : decimalValue text with
      | none => rfl
      | some id =>
          rcases Nat.eq_zero_or_pos id with rfl | hpos
          · simp [hexact 0 hbound]
          · have hid : app.nearestNumber id = id :=
              hexact id (hbelow id (by simp [hvalue, hpos]))
            simp [hid]
  | _ => rfl

/-- The second walk, over a tree whose ids are all collected. -/
theorem transformNode_eq_expansion {ids : IdsByEntity} {node : Json}
    (hexact : ∀ entity id, Collected ids entity id → app.nearestNumber id = id)
    (hkeys : AvoidsPrototype node)
    (hcollected : node.Each fun container field => ∀ rule,
      foreignKey container field.1 = some rule →
        toPositiveInt app field.2 = namedId field.2 ∧
          ∀ id, toPositiveInt app field.2 = some id →
            Collected ids rule.entity id) :
    transformNode app (resolveEntities app db ids) node =
      expansion app db node := by
  induction node using Json.tree_induction with
  | null | bool | number | text => rfl
  | array items ih =>
      have hkeys' := Json.each_array_iff.mp hkeys
      have hcollected' := Json.each_array_iff.mp hcollected
      rw [transformNode, expansion, transformItems_eq, expansionOfItems_eq]
      exact congrArg _ (List.map_congr_left fun item hitem =>
        ih item hitem (hkeys' item hitem) (hcollected' item hitem))
  | object fields ih =>
      obtain ⟨hown, hvalues⟩ := Json.each_object_iff.mp hkeys
      obtain ⟨hnamed, hcollected'⟩ := Json.each_object_iff.mp hcollected
      have hentries : fields.map
          (expandedEntry app (resolveEntities app db ids) fields) =
            fields.map (namedEntry app db fields) := by
        refine List.map_congr_left fun field hfield => ?_
        rw [expandedEntry, namedEntry,
          activeRule_eq_foreignKey (hown field hfield)]
        cases hrule : foreignKey fields field.1 with
        | none =>
            exact congrArg _ (ih field hfield (hvalues field hfield)
              (hcollected' field hfield))
        | some rule =>
            obtain ⟨hid, hall⟩ := hnamed field hfield rule hrule
            obtain ⟨entity, hentity⟩ := Option.isSome_iff_exists.mp
              (fkRules_shape _ (foreignKey_mem hrule)).2.1
            dsimp only at hentity ⊢
            rw [hentity] at hall ⊢
            rw [expandedValue_eq (fun id => hexact _ id) hid hall]
      have hassigned : ((fields.map (namedEntry app db fields)).filter
          fun field => field.1 ≠ "__proto__") =
            fields.map (namedEntry app db fields) := by
        refine List.filter_eq_self.mpr fun entry hentry => ?_
        obtain ⟨field, hfield, rfl⟩ := List.mem_map.mp hentry
        rw [namedEntry, decide_eq_true_eq]
        cases hrule : foreignKey fields field.1 with
        | none =>
            intro hproto
            exact hown field hfield (hproto ▸ by decide)
        | some rule => exact (fkRules_shape _ (foreignKey_mem hrule)).2.2
      rw [transformNode_object, hentries, hassigned, expansion,
        expansionOfFields_eq]

/-- For every payload without keys of `Object.prototype` and with ids that the
language writes exactly, and every snapshot of the database, the service
computes the expansion. -/
theorem expand_eq_expansion
    (hexact : ∀ id < 2 ^ 53, app.nearestNumber id = id) {payload : Json}
    (hkeys : AvoidsPrototype payload) (hids : IdsBelow (2 ^ 53) payload) :
    expand app db payload = expansion app db payload := by
  have hnamed : payload.Each fun container field => ∀ rule,
      foreignKey container field.1 = some rule →
        toPositiveInt app field.2 = namedId field.2 ∧
          ∀ id, namedId field.2 = some id → id < 2 ^ 53 := by
    intro entry hentry rule hrule
    have hsome : (fkRules.lookup entry.2.1).isSome = true := by
      obtain ⟨-, hlookup⟩ := Option.ite_none_left_eq_some.mp hrule
      rw [hlookup]
      rfl
    have hbelow := hids entry hentry hsome
    exact ⟨toPositiveInt_eq_namedId hexact hbelow (Nat.two_pow_pos 53),
      hbelow⟩
  refine transformNode_eq_expansion ?_ hkeys ?_
  · intro entity id hid
    obtain ⟨entry, hentry, rule, hrule, -, hvalue⟩ :=
      collected_collectIds.mp hid
    rw [activeRule_eq_foreignKey (hkeys entry hentry)] at hrule
    obtain ⟨hsame, hbelow⟩ := hnamed entry hentry rule hrule
    exact hexact id (hbelow id (hsame ▸ hvalue))
  · intro entry hentry rule hrule
    refine ⟨(hnamed entry hentry rule hrule).1, fun id hid => ?_⟩
    refine collected_collectIds.mpr ⟨entry, hentry, rule, ?_, rfl, hid⟩
    rw [activeRule_eq_foreignKey (hkeys entry hentry), hrule]

/-- A deployment whose numbers are exact, as far as they are used. -/
def sampleRelations : RelationsDeployment where
  market := Trade.sampleApp
  timestampText time := toString time
  nearestNumber := id

/-- User 12 and no other row. -/
def sampleSnapshot : Snapshot where
  market :=
    { Trade.Database.empty with
      users := Trade.Database.empty.users.insert
        ⟨12, "Amina", "+201", .active, none, none, none, 0, 0⟩ }
  categories := .empty

/-- A product and the file of another owner, as the interceptor gets them. -/
def samplePayload : Json :=
  .object
    [("product", .object
        [("id", .text "91"), ("owner_id", .text "12"),
          ("category", .text "electronics")]),
      ("file", .object
        [("owner_type", .text "product"), ("owner_id", .number 99),
          ("uploader_user_id", .number 4)])]

theorem expand_eq_expansion_sample :
    ∃ owner, liveRecord sampleRelations sampleSnapshot .user 12 = some owner ∧
      expand sampleRelations sampleSnapshot samplePayload =
        .object
          [("product", .object
              [("id", .text "91"), ("owner", owner),
                ("category", .text "electronics")]),
            ("file", .object
              [("owner_type", .text "product"), ("owner_id", .number 99),
                ("uploader_user", .null)])] := by
  have hkeys : AvoidsPrototype samplePayload :=
    show ∀ entry ∈ samplePayload.entries,
      entry.2.1 ∉ objectPrototypeMembers by decide +kernel
  have hsmall : ∀ entry ∈ samplePayload.entries,
      (namedId entry.2.2).all (fun id => decide (id < 2 ^ 53)) = true := by
    decide +kernel
  have hids : IdsBelow (2 ^ 53) samplePayload := by
    intro entry hentry _ id hid
    have h := hsmall entry hentry
    rw [hid, Option.all_some] at h
    exact of_decide_eq_true h
  refine ⟨_, rfl, ?_⟩
  rw [expand_eq_expansion (fun _ _ => rfl) hkeys hids]
  rfl

end MarketPlace.Relations
