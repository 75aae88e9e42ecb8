import MarketPlace.BlindServices
import MarketPlace.BodyNames
import MarketPlace.ExpansionSecrets

/-!
# Bodies that name no secrets

Only four foreign keys name messages and files.  The services write them with
ids of rows that the user can see; the details of a product may hold any.
-/

namespace MarketPlace.Relations

open Trade (Json Secrets)

/-- No other number is written as the id of a secret row. -/
def WritesApart (app : RelationsDeployment) (secrets : Secrets) : Prop :=
  ∀ entity id, hides secrets entity id = true →
    ∀ number, app.nearestNumber number = id → number = id

/-- None of the ids in a response, outside of the details of its products, is
the id of a secret row. -/
def ResponseKeeps (secrets : Secrets) : Trade.Response → Prop
  | .product product => ∀ view, product = some view → view.Keeps secrets
  | .items items => ∀ item ∈ items, item.Keeps secrets
  | .publicProfile view => ∀ item ∈ view.products, item.Keeps secrets
  | .conversation view => view.Keeps secrets
  | .conversations views => ∀ view ∈ views, view.Keeps secrets
  | .uploadIntent view => SignedUpload view.upload
  | _ => True

/-- The details of a product are what its user has written, as they are. -/
def DetailsKeep (app : RelationsDeployment) (secrets : Secrets)
    (row : Trade.ProductRow) : Prop :=
  ∀ details, row.details = some details → KeepsSecrets app secrets details

variable {app : HttpDeployment} {secrets : Secrets}

/-- Users, products and conversations are no secrets. -/
theorem responseNames_of_keeps {response : Trade.Response}
    (hkeeps : ResponseKeeps secrets response) :
    ResponseNames (fun entity id => hides secrets entity id = false)
      response := by
  have hconversation : ∀ view : Trade.ConversationView, view.Keeps secrets →
      ConversationNames (fun entity id => hides secrets entity id = false)
        view :=
    fun _ hview => ⟨rfl, fun _ _ => rfl, hview.1, hview.2⟩
  cases response with
  | product product => exact fun view hview => ⟨rfl, hkeeps view hview⟩
  | items items => exact fun item hitem => ⟨rfl, hkeeps item hitem⟩
  | publicProfile view => exact fun item hitem => ⟨rfl, hkeeps item hitem⟩
  | conversation view => exact hconversation view hkeeps
  | conversations views =>
      exact fun view hview => hconversation view (hkeeps view hview)
  | messages views => exact fun view _ => ⟨rfl, rfl⟩
  | oneMessage view => exact ⟨rfl, rfl⟩
  | rating row => exact ⟨rfl, rfl⟩
  | file view => exact fun _ _ => rfl
  | uploadIntent view => exact hkeeps
  | productStatus | message | markedUploaded | me => trivial

/-- The only keys of secret rows in a body are those in the details of its
products. -/
theorem keepsSecrets_httpBody {request : Trade.Request}
    {response : Trade.Response}
    (happart : WritesApart app.toRelationsDeployment secrets)
    (hkeeps : ResponseKeeps secrets response)
    (hdetails : ∀ row ∈ shownProducts response,
      DetailsKeep app.toRelationsDeployment secrets row) :
    KeepsSecrets app.toRelationsDeployment secrets
      (httpBody app request response) :=
  namesOnly_httpBody
    (fun entity id hsecret => happart entity id (by simpa using hsecret))
    (responseNames_of_keeps hkeeps) hdetails

end MarketPlace.Relations
