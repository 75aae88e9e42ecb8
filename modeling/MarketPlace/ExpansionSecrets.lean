import MarketPlace.ExpansionSpecification
import MarketPlace.SecretRows

/-!
# Payloads that name no secrets

The expansion shows the records of the rows that a payload names, whoever asks.
A payload that names no secret row is expanded as if there were none.
-/

namespace MarketPlace.Relations

open Relational
open Trade (Json Secrets ProfileRow ProductRow FileRow)

variable {app : RelationsDeployment} {secrets : Secrets} {user : ℕ}
  {db : Trade.Database} {categories : Table Catalog.CategoryRow.id}

/-! ## Naming a secret row -/

/-- The row of the entity with this id is secret. -/
def hides (secrets : Secrets) (entity : Option EntityType) (id : ℕ) : Bool :=
  match entity with
  | some .message => secrets.messages id
  | some .file => secrets.files id
  | _ => false

/-- The entry names no secret row. -/
def EntryKeeps (app : RelationsDeployment) (secrets : Secrets)
    (container : List (String × Json)) (field : String × Json) : Prop :=
  ∀ entity id, Names app (container, field) entity id →
    hides secrets entity id = false

/-- The payload keeps the secrets: no foreign key in it names a secret row. -/
def KeepsSecrets (app : RelationsDeployment) (secrets : Secrets)
    (payload : Json) : Prop :=
  payload.Each (EntryKeeps app secrets)

/-- All of the ids collected in such a payload are those of open rows. -/
theorem open_collectIds {payload : Json}
    (hkeeps : KeepsSecrets app secrets payload) :
    ∀ collected ∈ collectIds app payload, ∀ id ∈ collected.2,
      hides secrets collected.1 id = false := by
  intro collected hcollected id hid
  by_contra hhidden
  have hlists : Lists (fun entity id => hides secrets entity id ≠ false)
      (collectIds app payload) := ⟨collected, hcollected, id, hid, hhidden⟩
  obtain ⟨entry, hentry, entity, number, hnames, hhides⟩ :=
    lists_collectIds.mp hlists
  exact hhides (hkeeps entry hentry entity number hnames)

/-! ## Records without the secrets -/

section Records

variable (h : secrets.Apart user db)

include h

theorem userRecord_without {row : ProfileRow} (hrow : row ∈ db.users.rows) :
    userRecord app ⟨db.without secrets, categories⟩ row =
      userRecord app ⟨db, categories⟩ row := by
  have havatar : row.avatarFileId.bind (db.without secrets).files.get =
      row.avatarFileId.bind db.files.get := by
    cases hid : row.avatarFileId with
    | none => rfl
    | some id =>
        exact Trade.Database.get_files_without (h.avatars row hrow id hid)
  unfold userRecord avatarJson
  dsimp only
  rw [havatar]
  rfl

theorem productRecord_without (row : ProductRow) :
    productRecord app ⟨db.without secrets, categories⟩ row =
      productRecord app ⟨db, categories⟩ row := by
  have howner : ownerJson app ⟨db.without secrets, categories⟩ row =
      ownerJson app ⟨db, categories⟩ row := by
    unfold ownerJson
    change nullable _ ((db.liveUser row.ownerId).filter _) = _
    cases hfound : (db.liveUser row.ownerId).filter
        fun user => user.name ≠ "" with
    | none => rfl
    | some owner =>
        have hlive := (Option.filter_eq_some_iff.mp hfound).1
        have hmem := Table.mem_of_get (Option.filter_eq_some_iff.mp hlive).1
        exact userRecord_without h hmem
  unfold productRecord
  rw [howner]

theorem fetchRecords_without {entity : Option EntityType} {ids : List ℕ}
    (hopen : ∀ id ∈ ids, hides secrets entity id = false) :
    fetchRecords app ⟨db.without secrets, categories⟩ entity ids =
      fetchRecords app ⟨db, categories⟩ entity ids := by
  unfold fetchRecords
  split
  · rfl
  cases entity with
  | none => rfl
  | some entity =>
      cases entity with
      | category | conversation => rfl
      | user =>
          refine List.map_congr_left fun row hrow => ?_
          rw [userRecord_without h (List.mem_of_mem_filter hrow)]
      | product =>
          refine List.map_congr_left fun row hrow => ?_
          rw [productRecord_without h]
      | message =>
          have hselected : (fun row : MessageRow =>
              row.id ∈ ids && true) ∘ secrets.cover =
                fun row => row.id ∈ ids && true := by
            funext row
            simp
          change ((db.messages.rows.map secrets.cover).filter
            fun row => row.id ∈ ids && true).map _ = _
          rw [List.filter_map, hselected, List.map_map]
          refine List.map_congr_left fun row hrow => ?_
          have hid := List.of_mem_filter hrow
          rw [Bool.and_true, decide_eq_true_eq] at hid
          rw [Function.comp_apply, Secrets.cover_of_open (hopen row.id hid)]
      | file =>
          change (((db.without secrets).files.rows.filter _).map _ :
            ResolverMap) = _
          rw [Trade.Database.filter_files_without]
          · rfl
          · intro row _ hrow
            rw [Bool.and_true, decide_eq_true_eq] at hrow
            exact hopen row.id hrow

end Records

/-- A payload that names no secret row is expanded as if there were none. -/
theorem expand_without (h : secrets.Apart user db) {payload : Json}
    (hkeeps : KeepsSecrets app secrets payload) :
    expand app ⟨db.without secrets, categories⟩ payload =
      expand app ⟨db, categories⟩ payload := by
  have hopen := open_collectIds hkeeps
  rw [expand, expand]
  congr 1
  refine List.map_congr_left fun collected hcollected => ?_
  exact congrArg _ (fetchRecords_without h (hopen collected hcollected))

end MarketPlace.Relations
