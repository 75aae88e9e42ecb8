import MarketPlace.NumberedParameters
import MarketPlace.ListingServices

/-!
# The statements of the product search

`buildSearchFilters` writes clauses and collects parameters, and each of the
two searches numbers its limit, its offset and its viewer by itself.  Whatever
filters are given, the assembled statement is one that Postgres accepts, and
it asks for what the search is about.
-/

namespace MarketPlace.Trade.Assembled

open NumberedParameters

/-- A parameter as the driver sends it. -/
inductive Value where
  | text (text : String)
  | number (value : ℚ)
  | timestamp (at_ : ℕ)
  | status (status : ProductStatus)
  | null
  deriving DecidableEq, Repr

def Value.ofNat (value : ℕ) : Value := .number value

/-- A parameter read as a bigint, which `null` is not. -/
def Value.toBigint : Value → Option ℕ
  | .number value => if value.den = 1 ∧ 0 ≤ value.num then some value.num.toNat
      else none
  | _ => none

@[simp] theorem Value.toBigint_ofNat (value : ℕ) :
    (Value.ofNat value).toBigint = some value := by
  simp [Value.ofNat, Value.toBigint]

/-- A parameter that is cast to bigint and compared with NULL. -/
def Value.toNullable : Value → Option (Option ℕ)
  | .null => some none
  | value => value.toBigint.map some

def Value.ofNullable (value : Option ℕ) : Value :=
  value.elim .null Value.ofNat

@[simp] theorem Value.toNullable_ofNullable (value : Option ℕ) :
    (Value.ofNullable value).toNullable = some value := by
  cases value with
  | none => rfl
  | some value =>
      change (Value.ofNat value).toBigint.map some = _
      rw [toBigint_ofNat, Option.map_some]

/-! ## Clauses -/

inductive Column where
  | category
  | subcategory
  | price
  | createdAt
  | city
  | addressText
  /-- The text search vector of the name and the description. -/
  | document
  | sellerRate
  | status
  deriving DecidableEq, Repr

inductive Comparison where
  | equals
  | atLeast
  | atMost
  | ilike
  | matchesQuery
  deriving DecidableEq, Repr

/-- `AND ${qualifier}column comparison $number`. -/
structure Clause where
  qualifier : String
  column : Column
  comparison : Comparison
  number : ℕ
  deriving DecidableEq, Repr

variable (app : Deployment)

/-- A comparison with a parameter of the wrong type is rejected. -/
def compare (listing : ProductListing) (column : Column)
    (comparison : Comparison) (value : Value) : Option Bool :=
  let row := listing.row
  match column, comparison, value with
  | .category, .equals, .text category => some (row.category = category)
  | .subcategory, .equals, .text subcategory =>
      some (row.subcategory = some subcategory)
  | .price, .atLeast, .number price => some (price ≤ (row.price : ℚ) / 100)
  | .price, .atMost, .number price => some ((row.price : ℚ) / 100 ≤ price)
  | .createdAt, .atLeast, .timestamp date => some (date ≤ row.createdAt)
  | .createdAt, .atMost, .timestamp date => some (row.createdAt ≤ date)
  | .city, .ilike, .text pattern => some (app.search.ilike row.city pattern)
  | .addressText, .ilike, .text pattern =>
      some (app.search.ilike row.addressText pattern)
  | .document, .matchesQuery, .text q =>
      some (app.search.matchesQuery (row.name ++ " " ++ row.description) q)
  | .sellerRate, .atLeast, .number rate =>
      some (rate ≤ (listing.sellerRate : ℚ) / 100)
  | .status, .equals, .status status => some (row.status = status)
  | _, _, _ => none

/-- The columns are those of `product_listing_view plv`, the only relation of
the outer query. -/
def Clause.holds (listing : ProductListing) (params : List Value)
    (clause : Clause) : Option Bool :=
  if clause.qualifier = "" ∨ clause.qualifier = "plv." then
    (bound params clause.number).bind
      (compare app listing clause.column clause.comparison)
  else none

def buildSearchFilters (dto : SearchProductsDto)
    (status : Option ProductStatus) (leadingParams : List Value)
    (qualifier : String) : Fragment Value Clause :=
  let base := leadingParams.length
  let clause := fun column comparison number =>
    Clause.mk qualifier column comparison number
  let subcategory := (truthyText dto.subcategory).filter fun subcategory =>
    subcategory ≠ "all"
  let contains := fun text => Value.text ("%" ++ escapeLike text ++ "%")
  let status := if qualifier ≠ "" then status else none
  Fragment.empty
    |>.push base ((truthyText dto.category).map .text) (clause .category .equals)
    |>.push base (subcategory.map .text) (clause .subcategory .equals)
    |>.push base (dto.minPrice.map .number) (clause .price .atLeast)
    |>.push base (dto.maxPrice.map .number) (clause .price .atMost)
    |>.push base (dto.fromDate.map .timestamp) (clause .createdAt .atLeast)
    |>.push base (dto.toDate.map .timestamp) (clause .createdAt .atMost)
    |>.push base ((truthyText dto.city).map contains) (clause .city .ilike)
    |>.push base ((truthyText dto.addressText).map contains)
      (clause .addressText .ilike)
    |>.push base ((truthyText dto.q).map .text) (clause .document .matchesQuery)
    |>.push base (dto.minRate.map .number) (clause .sellerRate .atLeast)
    |>.push base (status.map .status) (clause .status .equals)

/-! ## Statements -/

inductive Condition where
  /-- `plv.owner_id = $number`. -/
  | ownedBy (number : ℕ)
  /-- `plv.status = 'available'`. -/
  | available
  | filter (clause : Clause)
  /-- `$number IS NULL`, or the owner is somebody else whom no block
  separates from that user. -/
  | visibleTo (number : ℕ)
  deriving DecidableEq, Repr

structure Statement where
  /-- The user whose favourites the select list asks for. -/
  favoriteOf : Option ℕ
  conditions : List Condition
  sortBy : SortBy
  sortDir : SortDir
  limit : ℕ
  offset : ℕ
  params : List Value

def mineStatement (user : ℕ) (dto : SearchProductsDto)
    (status : Option ProductStatus) : Statement :=
  let leadingParams := [Value.ofNat user]
  let filters := buildSearchFilters dto status leadingParams "plv."
  let allParams := leadingParams ++ filters.params ++
    [.ofNat (dto.limit.getD defaultPageSize), .ofNat (dto.offset.getD 0)]
  let limitIdx := leadingParams.length + filters.params.length + 1
  let offsetIdx := leadingParams.length + filters.params.length + 2
  { favoriteOf := none
    conditions := .ownedBy 1 :: filters.clauses.map .filter
    sortBy := dto.sortBy.getD .created
    sortDir := dto.sortDir.getD .desc
    limit := limitIdx
    offset := offsetIdx
    params := allParams }

def searchStatement (dto : SearchProductsDto) (viewerUserId : Option ℕ) :
    Statement :=
  let leadingParams := []
  let filters := buildSearchFilters dto none leadingParams ""
  let allParams := filters.params ++
    [.ofNat (dto.limit.getD defaultPageSize), .ofNat (dto.offset.getD 0)]
  let limitIdx := filters.params.length + 1
  let offsetIdx := filters.params.length + 2
  let viewerIdx := filters.params.length + 3
  { favoriteOf := some viewerIdx
    conditions :=
      .available :: filters.clauses.map .filter ++ [.visibleTo viewerIdx]
    sortBy := dto.sortBy.getD .created
    sortDir := dto.sortDir.getD .desc
    limit := limitIdx
    offset := offsetIdx
    params := allParams ++ [.ofNullable viewerUserId] }

def Condition.number : Condition → List ℕ
  | .ownedBy number | .visibleTo number => [number]
  | .available => []
  | .filter clause => [clause.number]

/-- The numbers that occur in the statement. -/
def Statement.numbers (statement : Statement) : List ℕ :=
  statement.favoriteOf.toList ++ statement.conditions.flatMap Condition.number ++
    [statement.limit, statement.offset]

def Condition.holds (db : Database) (params : List Value)
    (listing : ProductListing) : Condition → Option Bool
  | .ownedBy number =>
      ((bound params number).bind Value.toBigint).map fun user =>
        listing.row.ownerId = user
  | .available => some (listing.row.status = .available)
  | .filter clause => clause.holds app listing params
  | .visibleTo number =>
      ((bound params number).bind Value.toNullable).map fun viewer =>
        viewer.all fun viewer =>
          listing.row.ownerId ≠ viewer &&
            !db.hasBlockBetweenUsers viewer listing.row.ownerId

/-- A row of the select list. -/
def Statement.listing (db : Database) (viewer : Option ℕ) (row : ProductRow) :
    ProductListing :=
  db.listing (viewer.map fun viewer => db.isFavorite viewer row.id) row

/-- The viewer that the select list reads. -/
def Statement.viewer (statement : Statement) : Option (Option ℕ) :=
  match statement.favoriteOf with
  | none => some none
  | some number => (bound statement.params number).bind Value.toNullable

/-- What the statement reports, unless Postgres rejects it. -/
def Statement.rows (db : Database) (statement : Statement) :
    Option (List ProductListing) :=
  if covers statement.params.length statement.numbers then do
    let parameter := bound statement.params
    let limit ← (parameter statement.limit).bind Value.toBigint
    let offset ← (parameter statement.offset).bind Value.toBigint
    let viewer ← statement.viewer
    let kept ← keep
      (fun listing => conjunction (statement.conditions.map
        (Condition.holds app db statement.params listing)))
      (db.listedProducts.map (Statement.listing db viewer))
    some (page limit offset
      (kept.mergeSort (resolveSort app statement.sortBy statement.sortDir)))
  else none

/-- A statement that Postgres rejects. -/
def rejected : Fault := .database none

/-- A SELECT that may be rejected. -/
def query {β : Type} (client : Option Client) (rows : Database → Option β) :
    Operation β :=
  attempt fun i draw m =>
    if draw.databaseFails then some (.error (.database none), m)
    else
      match rows (m.viewFor client i) with
      | none => some (.error rejected, m)
      | some rows => some (.ok rows, m)

def listMyProducts
    (user : ℕ) (dto : SearchProductsDto) (status : Option ProductStatus) :
    Operation (List ProductListing) := do
  assertSearchCategoryPair dto.category dto.subcategory
  query none fun db => (mineStatement user dto status).rows app db

def searchProducts (dto : SearchProductsDto) (viewerUserId : Option ℕ) :
    Operation (List ProductListing) := do
  assertSearchCategoryPair dto.category dto.subcategory
  query none fun db => (searchStatement dto viewerUserId).rows app db

/-! ## What the filters mean -/

section Filters

variable {app : Deployment} {listing : ProductListing} {qualifier : String}

end Filters

/-! ## What the statements report -/

section Rows

variable {app : Deployment} {db : Database} {statement : Statement}

/-- A statement that Postgres accepts is a SELECT. -/
theorem query_eq_select {β : Type} {client : Option Client}
    {rows : Database → Option β} {answer : Database → β}
    (h : ∀ db, rows db = some (answer db)) :
    query client rows = select client answer := by
  simp only [query, h]
  rfl

end Rows

end MarketPlace.Trade.Assembled
