import MarketPlace.ChatService
import MarketPlace.SearchStatements

/-!
# What the searches find

A search is about the listed products that satisfy every given filter, in the
chosen order with the newer product first among equals, and it returns one
slice of them.  The slices of consecutive pages are the whole list.
-/

namespace MarketPlace.Trade

variable {app : Deployment}

/-- The listing is lower in the chosen column. -/
def Lower (app : Deployment) (sortBy : SortBy)
    (listing other : ProductListing) : Prop :=
  match sortBy with
  | .price => listing.row.price < other.row.price
  | .address => app.search.collates listing.row.city other.row.city = true ∧
      ¬ app.search.collates other.row.city listing.row.city = true
  | .rate => listing.sellerRate < other.sellerRate
  | .created => listing.row.createdAt < other.row.createdAt

/-- The two are equal in the chosen column. -/
def Level (app : Deployment) (sortBy : SortBy)
    (listing other : ProductListing) : Prop :=
  match sortBy with
  | .price => listing.row.price = other.row.price
  | .address => app.search.collates listing.row.city other.row.city = true ∧
      app.search.collates other.row.city listing.row.city = true
  | .rate => listing.sellerRate = other.sellerRate
  | .created => listing.row.createdAt = other.row.createdAt

/-- The listing comes first by the chosen column alone. -/
def Ahead (app : Deployment) (sortBy : SortBy) (sortDir : SortDir)
    (listing other : ProductListing) : Prop :=
  match sortDir with
  | .asc => Lower app sortBy listing other
  | .desc => Lower app sortBy other listing

/-- The listing comes first by its column, or is equal in it and has the
greater id. -/
def Precedes (app : Deployment) (sortBy : SortBy) (sortDir : SortDir)
    (listing other : ProductListing) : Prop :=
  Ahead app sortBy sortDir listing other ∨
    (Level app sortBy listing other ∧ other.row.id < listing.row.id)

/-- All products that are asked for, each once and in their order. -/
structure Lists (app : Deployment) (dto : SearchProductsDto)
    (asked : ProductListing → Prop) (listed : List ProductListing) : Prop where
  mem : ∀ listing, listing ∈ listed ↔ asked listing
  ordered : listed.Pairwise (Precedes app (dto.sortBy.getD .created)
    (dto.sortDir.getD .desc))

/-! ## The filters -/

/-- What `searchProducts` keeps of the listed products. -/
def Database.visibleTo (db : Database) (viewer : Option ℕ) (row : ProductRow) :
    Bool :=
  row.status = .available &&
    viewer.all fun viewer =>
      row.ownerId ≠ viewer && !db.hasBlockBetweenUsers viewer row.ownerId

end MarketPlace.Trade
