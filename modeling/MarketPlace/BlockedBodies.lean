import MarketPlace.BlockedAnswers
import MarketPlace.BodyNames

/-!
# Bodies of answers to a user while a block is there

The interceptor shows the record of every row that a body names.  Outside of
the details of products a body names what the answer is about; in the details
it names whatever the owner of the product has written there.
-/

namespace MarketPlace.Trade

open Interleaving Relational
open Relations (HttpDeployment EntityType NamesOnly ResponseNames SignedUpload
  DetailsName ReadsApart)

variable {app : HttpDeployment} {final : Database} {request : Request}
  {response : Response} {i user other : ℕ} {acts : List (Acted Draw Market)}

/-! ## Records -/

/-- Whom the record of a row is about: those of categories and files tell of no
user. -/
def Database.namedBy (db : Database) (entity : Option EntityType) (id : ℕ) :
    List ℕ :=
  match entity with
  | some .user => [id]
  | some .product => db.ownersOf id
  | some .conversation => db.participantsIn id
  | some .message => db.partiesTo id
  | some .category | some .file | none => []

/-- The record of the row is not about the other user. -/
def Database.Omits (db : Database) (other : ℕ) (entity : Option EntityType)
    (id : ℕ) : Prop :=
  other ∉ db.namedBy entity id

instance (db : Database) (other : ℕ) (entity : Option EntityType) (id : ℕ) :
    Decidable (db.Omits other entity id) :=
  inferInstanceAs (Decidable (other ∉ _))

/-- Whose products, profiles and conversations an answer shows: those that the
service's answer is about, and those that the records are about which the
interceptor puts into its body. -/
def Request.shown (app : HttpDeployment) (request : Request)
    (response : Response) (db : Database) : List ℕ :=
  request.about db ++ response.about db ++
    (Relations.collectIds app.toRelationsDeployment
      (Relations.httpBody app request response)).flatMap fun (entity, ids) =>
        ids.flatMap (db.namedBy entity)

theorem Request.not_mem_shown_iff :
    other ∉ request.shown app response final ↔
      (other ∉ request.about final ∧ other ∉ response.about final) ∧
        NamesOnly app.toRelationsDeployment (final.Omits other)
          (Relations.httpBody app request response) := by
  rw [shown, List.mem_append, List.mem_append, not_or, not_or,
    Relations.namesOnly_iff]
  refine and_congr Iff.rfl ?_
  simp only [List.mem_flatMap, not_exists, not_and, Database.Omits]

@[simp] theorem Database.omits_user {id : ℕ} :
    final.Omits other (some .user) id ↔ other ≠ id := by
  simp [Database.Omits, Database.namedBy]

theorem ProductListing.names (item : ProductListing)
    (howner : other ≠ item.row.ownerId) :
    Relations.ProductNames (final.Omits other) item.row item.images :=
  ⟨Database.omits_user.mpr howner, fun _ _ => List.not_mem_nil⟩

theorem ConversationView.names {view : ConversationView}
    (hview : other ∉ final.shownIn view) :
    Relations.ConversationNames (final.Omits other) view := by
  rw [Database.shownIn, List.mem_cons, List.mem_append, not_or, not_or] at hview
  obtain ⟨hpeer, hproduct, hmessage⟩ := hview
  refine ⟨Database.omits_user.mpr hpeer, fun id hid howner => ?_,
    fun id hid hparty => ?_, fun _ _ => List.not_mem_nil⟩
  · exact hproduct (List.mem_flatMap.mpr ⟨id, Option.mem_toList.mpr hid, howner⟩)
  · exact hmessage (List.mem_flatMap.mpr ⟨id, Option.mem_toList.mpr hid, hparty⟩)

theorem MessageView.names {view : MessageView}
    (hview : other ∉ final.shownBy view) :
    Relations.MessageNames (final.Omits other) view := by
  rw [Database.shownBy, List.mem_cons, not_or] at hview
  exact ⟨hview.2, Database.omits_user.mpr hview.1⟩

/-- What a response names by foreign keys, outside of the details of its
products, is what it is about. -/
theorem Response.names (habout : other ∉ response.about final)
    (hsigned : ∀ view, response = .uploadIntent view →
      SignedUpload view.upload) :
    ResponseNames (final.Omits other) response := by
  cases response with
  | product product =>
      rintro view rfl
      exact ⟨Database.omits_user.mpr (by simpa [about] using habout),
        fun _ _ => List.not_mem_nil⟩
  | items items =>
      exact fun item hitem => item.names fun howner =>
        habout (List.mem_map.mpr ⟨item, hitem, howner.symm⟩)
  | publicProfile view =>
      exact fun item hitem => item.names fun howner => habout
        (List.mem_cons_of_mem _ (List.mem_map.mpr ⟨item, hitem, howner.symm⟩))
  | file view =>
      intro uploader huploader
      rw [Database.omits_user]
      rintro rfl
      exact habout (Option.mem_toList.mpr huploader)
  | rating row =>
      rw [about, List.mem_cons, List.mem_singleton, not_or] at habout
      exact ⟨Database.omits_user.mpr habout.1, Database.omits_user.mpr habout.2⟩
  | conversation view => exact ConversationView.names habout
  | conversations views =>
      exact fun view hview => ConversationView.names fun hshown =>
        habout (List.mem_flatMap.mpr ⟨view, hview, hshown⟩)
  | messages views =>
      exact fun view hview => MessageView.names fun hshown =>
        habout (List.mem_flatMap.mpr ⟨view, hview, hshown⟩)
  | oneMessage view => exact MessageView.names habout
  | uploadIntent view => exact hsigned view rfl
  | productStatus | message | markedUploaded | me => trivial

/-! ## What the condition is on -/

/-- The details of the products of others that the request may show name no
row that is about the other user. -/
def Request.DetailsApart (app : HttpDeployment) (request : Request)
    (other : ℕ) (final : Database) (i : ℕ) (m : Market) : Prop :=
  ∀ db ∈ m.sees i, ∀ row ∈ db.listedProducts,
    row.ownerId ≠ other → request.mayShow app.market db row = true →
      DetailsName (final.Omits other) app.toRelationsDeployment row

instance (app : HttpDeployment) (request : Request) (other : ℕ)
    (final : Database) (i : ℕ) (m : Market) :
    Decidable (request.DetailsApart app other final i m) :=
  inferInstanceAs (Decidable (∀ db ∈ m.sees i, ∀ row ∈ db.listedProducts,
    row.ownerId ≠ other → request.mayShow app.market db row = true → _))

/-- The request does not rate the other user, and does not ask as an
administrator for a file that the other user has uploaded. -/
def Request.AsksApart (request : Request) (other : ℕ) (final : Database) :
    Prop :=
  match request with
  | .rateUser _ ratedUserId _ => ratedUserId ≠ other
  | .getFile _ isAdmin fileId => isAdmin = true →
      ∀ row ∈ (final.files.get fileId).toList, row.uploaderUserId ≠ some other
  | _ => True

/-- The ids of the rows that are about the user are numbers of the language. -/
def Database.SmallIds (db : Database) (user : ℕ) : Prop :=
  user < 2 ^ 53 ∧
    (∀ row ∈ db.products.rows, row.ownerId = user → row.id < 2 ^ 53) ∧
    (∀ row ∈ db.conversations.rows, user ∈ row.participants →
      row.id < 2 ^ 53) ∧
    ∀ row ∈ db.messages.rows, user ∈ db.partiesTo row.id → row.id < 2 ^ 53

instance (db : Database) (user : ℕ) : Decidable (db.SmallIds user) :=
  inferInstanceAs (Decidable (_ ∧ _))

theorem Database.SmallIds.lt {entity : Option EntityType} {id : ℕ}
    (h : final.SmallIds other) (hnamed : other ∈ final.namedBy entity id) :
    id < 2 ^ 53 := by
  obtain ⟨huser, hproducts, hconversations, hmessages⟩ := h
  unfold Database.namedBy at hnamed
  split at hnamed
  · exact List.mem_singleton.mp hnamed ▸ huser
  · obtain ⟨row, hrow, howner⟩ := List.mem_map.mp hnamed
    have hget := Option.mem_toList.mp hrow
    exact Table.key_of_get hget ▸
      hproducts row (Table.mem_of_get hget) howner
  · obtain ⟨row, hrow, hparticipant⟩ := List.mem_flatMap.mp hnamed
    have hget := Option.mem_toList.mp hrow
    exact Table.key_of_get hget ▸
      hconversations row (Table.mem_of_get hget) hparticipant
  · obtain ⟨row, hrow, -⟩ := List.mem_flatMap.mp hnamed
    have hget := Option.mem_toList.mp hrow
    have hid : row.id = id := Table.key_of_get hget
    exact hid ▸ hmessages row (Table.mem_of_get hget) (hid.symm ▸ hnamed)
  all_goals contradiction

theorem Database.SmallIds.readsApart
    (hexact : ∀ number id, id < 2 ^ 53 → app.nearestNumber number = id →
      number = id) (h : final.SmallIds other) :
    ReadsApart app.toRelationsDeployment (final.Omits other) :=
  fun _ id hnamed number hnumber =>
    hexact number id (h.lt (not_not.mp hnamed)) hnumber

/-! ## Bodies -/

theorem ownerId_mem_about {row : ProductRow}
    (hrow : row ∈ Relations.shownProducts response) :
    row.ownerId ∈ response.about final := by
  cases response with
  | product product =>
      cases product with
      | none => exact absurd hrow List.not_mem_nil
      | some view =>
          obtain rfl := List.mem_singleton.mp hrow
          exact List.mem_singleton_self _
  | items items =>
      obtain ⟨item, hitem, rfl⟩ := List.mem_map.mp hrow
      exact List.mem_map_of_mem hitem
  | publicProfile view =>
      obtain ⟨item, hitem, rfl⟩ := List.mem_map.mp hrow
      exact List.mem_cons_of_mem _ (List.mem_map_of_mem hitem)
  | _ => exact absurd hrow List.not_mem_nil

/-- An answer that is about others, with products whose details name nothing of
the other user, shows nothing of the other user. -/
theorem Request.not_mem_shown
    (hreads : ReadsApart app.toRelationsDeployment (final.Omits other))
    (hasked : other ∉ request.about final)
    (habout : other ∉ response.about final)
    (hsigned : ∀ view, response = .uploadIntent view →
      SignedUpload view.upload)
    (htakes : (request.handler app.market).Takes i acts (.done response))
    (hreturns : request.Returns response)
    (hdetails : ∀ a ∈ acts, request.DetailsApart app other final i a.before) :
    other ∉ request.shown app response final := by
  refine Request.not_mem_shown_iff.mpr ⟨⟨hasked, habout⟩, ?_⟩
  refine Relations.namesOnly_httpBody hreads (response.names habout hsigned)
    fun row hrow => ?_
  obtain ⟨a, ha, db, hdb, hlisted, hselected⟩ :=
    request.selects_shown htakes hreturns row hrow
  refine hdetails a ha db hdb row hlisted ?_ hselected
  rintro rfl
  exact habout (ownerId_mem_about hrow)

end MarketPlace.Trade
