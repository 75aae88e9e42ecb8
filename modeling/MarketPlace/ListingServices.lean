import MarketPlace.MarketStatements

/-!
# Products, files, profiles and favourites

`ProductsService`, `FilesService`, `UsersService` and `FavoritesService`,
statement by statement.
-/

namespace MarketPlace.Trade

open Interleaving

/-- What Postgres computes on texts: ILIKE with the escape character
backslash, the full-text match of the simple configuration, and the order of
the database's collation. -/
structure TextSearch where
  ilike : (text pattern : String) → Bool
  matchesQuery : (document query : String) → Bool
  collates : String → String → Bool

structure Deployment where
  storageProvider : String
  storageBucket : String
  cloudinaryCloudName : String
  search : TextSearch

variable (app : Deployment)

def defaultPageSize : ℕ := 20

/-! ## Texts and numbers of the language -/

def isJsWhitespace (c : Char) : Bool :=
  c ∈ ['\t', '\n', '\x0b', '\x0c', '\r', ' ', '\u00a0', '\u1680', '\u2028',
    '\u2029', '\u202f', '\u205f', '\u3000', '\ufeff'] ||
      (0x2000 ≤ c.toNat && c.toNat ≤ 0x200a)

/-- `String.prototype.trim`. -/
def trim (text : String) : String :=
  String.ofList
    ((text.toList.dropWhile isJsWhitespace).reverse.dropWhile
      isJsWhitespace).reverse

/-- An optional id, where 0 counts as absent. -/
def truthy (id : Option ℕ) : Option ℕ := id.filter fun id => id ≠ 0

theorem truthy_of_pos {id : ℕ} (hpos : 0 < id) :
    truthy (some id) = some id := by
  have hne : id ≠ 0 := by omega
  simp [truthy, hne]

def truthyText (text : Option String) : Option String :=
  text.filter fun text => text ≠ ""

/-- A number written to a NUMERIC(12,2) column, in hundredths. -/
def hundredths (value : ℚ) : ℕ := (value * 100 + 1 / 2).floor.toNat

def escapeLike (text : String) : String :=
  String.ofList (text.toList.flatMap fun c =>
    if c = '%' ∨ c = '_' ∨ c = '\\' then ['\\', c] else [c])

/-- `Object.prototype.hasOwnProperty.call(dto, field)` of a declared field:
the class defines all of its fields on every instance. -/
def hasOwnProperty {α : Type} (_field : Option α) : Bool := true

/-! ## The taxonomy -/

def productCategories : List String :=
  ["realEstate", "vehicles", "electronics", "homeAndDecor",
    "clothingAndFashion", "services"]

/-- `CATEGORY_TO_SUBCATEGORIES`. -/
def categoryToSubcategories (category : String) : List String :=
  if category = "realEstate" then
    ["all", "apartmentForRent", "apartmentForSale", "houses", "lands",
      "commercialRealEstateForRent", "commercialRealEstateForSale", "other"]
  else if category = "vehicles" then
    ["all", "carsForSale", "carsForRent", "sparePartsAndAccessories",
      "motorCycles", "bicycles", "trucksAndHeavyVehicles"]
  else if category = "electronics" then
    ["all", "smartphones", "tablets", "laptopsAndComputers", "accessories",
      "speakersAndHeadphones", "cameras", "smartWatchesAndWearables",
      "monitorsAndTVs", "other"]
  else if category = "homeAndDecor" then
    ["all", "furniture", "officeFurniture", "kitchenAndDining",
      "beddingAndBath", "homeDecor", "homeTools", "lighting", "other"]
  else if category = "clothingAndFashion" then
    ["all", "menClothing", "womenClothing", "kidsClothing", "shoes",
      "menAccessories", "womenAccessoriesAndMakeup", "jewelryAndWatches",
      "other"]
  else if category = "services" then
    ["all", "maintenanceAndRepairs", "transportationAndMoving",
      "personalServices", "carsServices", "homeServices",
      "lessonsAndTutoring", "other"]
  else []

def isValidCategory (category : String) : Bool :=
  productCategories.contains category

def isValidSubcategory (category subcategory : String) : Bool :=
  isValidCategory category &&
    (categoryToSubcategories category).contains subcategory

def isAllowedProductSubcategory (category subcategory : String) : Bool :=
  isValidSubcategory category subcategory && subcategory != "all"

def assertCategoryPair
    (category : String) (subcategory : Option String) (allowAll : Bool) :
    Operation Unit :=
  if !isValidCategory category then
    throw (.exception .badRequest "Invalid category")
  else
    match subcategory with
    | none => pure ()
    | some subcategory =>
        if !isValidSubcategory category subcategory then
          throw (.exception .badRequest "Invalid subcategory for category")
        else if !allowAll && !isAllowedProductSubcategory category subcategory
        then throw (.exception .badRequest "subcategory cannot be all")
        else pure ()

def assertSearchCategoryPair (category subcategory : Option String) :
    Operation Unit :=
  match truthyText category, truthyText subcategory with
  | some category, some subcategory =>
      assertCategoryPair category (some subcategory) true
  | _, _ => pure ()

/-! ## Views of products -/

structure ImageView where
  id : ℕ
  fileId : ℕ
  sortOrder : ℕ
  objectKey : String
  status : FileStatus
  deriving DecidableEq, Repr

structure ProductView where
  row : ProductRow
  isFavorite : Option Bool
  images : List ImageView

/-- A row of product_listing_view with its images. -/
structure ProductListing where
  row : ProductRow
  sellerRate : ℕ
  isFavorite : Option Bool
  images : List ImageView

namespace Database

/-- product_images JOIN files, in their order. -/
def imageViews (db : Database) (productId : ℕ) : List ImageView :=
  (db.imagesInOrder productId).filterMap fun image =>
    (db.files.get image.fileId).map fun file =>
      ⟨image.id, image.fileId, image.sortOrder, file.objectKey, file.status⟩

def isFavorite (db : Database) (userId productId : ℕ) : Bool :=
  (db.userFavorites.get (userId, productId)).isSome

/-- The row of product_listing_view for a product. -/
def listing (db : Database) (isFavorite : Option Bool) (row : ProductRow) :
    ProductListing :=
  ⟨row, db.rateOf row.ownerId, isFavorite, db.imageViews row.id⟩

/-- The products that product_listing_view lists. -/
def listedProducts (db : Database) : List ProductRow :=
  db.products.rows.filter fun row => row.deletedAt.isNone

end Database

def fetchProductWithImages
    (runner : Option Client) (productId : ℕ) (viewerUserId : Option ℕ) :
    Operation (Option ProductView) := do
  let product ← select runner fun db => db.liveProduct productId
  match product with
  | none => pure none
  | some row => do
      let images ← select runner fun db => db.imageViews productId
      match truthy viewerUserId with
      | none => pure (some ⟨row, none, images⟩)
      | some viewer => do
          let isFavorite ← select runner fun db =>
            db.isFavorite viewer productId
          pure (some ⟨row, some isFavorite, images⟩)

def productNotFound : Fault := .exception .notFound "Product not found"
def notAllowed : Fault := .exception .forbidden "Not allowed"

/-! ## Product images -/

/-- The checks of one of the given files. -/
def imageFileFault
    (actorUserId fileId : ℕ) (file : Option FileRow) : Option Fault :=
  match file with
  | none =>
      some (.exception .badRequest s!"File {fileId} does not exist")
  | some file =>
      if file.purpose ≠ .productImage then
        some (.exception .badRequest
          s!"File {fileId} must have purpose product_image")
      else if toPositiveIntOfNullable
          (file.uploaderUserId.map BigintText.mk) ≠ some actorUserId then
        some (.exception .forbidden
          s!"File {fileId} is not owned by the current user")
      else if file.status ≠ .uploaded then
        some (.exception .badRequest
          s!"File {fileId} must be uploaded before product association")
      else none

/-- The rows that the batch SELECT of the files finds. -/
def Database.filesById (db : Database) (fileIds : List ℕ) : List FileRow :=
  db.files.rows.filter fun row => row.id ∈ fileIds

/-- `fileMap.get(fileId)`. -/
def fileOf (files : List FileRow) (fileId : ℕ) : Option FileRow :=
  files.find? fun file => file.id = fileId

/-- `for (const fileId of imageFileIds)`: the first fault is thrown. -/
def validateFiles
    (actorUserId : ℕ) (files : List FileRow) : List ℕ → Operation Unit
  | [] => pure ()
  | fileId :: rest =>
      match imageFileFault actorUserId fileId (fileOf files fileId) with
      | some fault => throw fault
      | none => validateFiles actorUserId files rest

/-- The rows of the batch INSERT, whose sort_order counts from 0. -/
def imageRows
    (productId : ℕ) (files : List FileRow) (fileIds : List ℕ) (firstId : ℕ) :
    List ProductImageRow :=
  fileIds.mapIdx fun position fileId =>
    { id := firstId + position
      productId := productId
      fileId := fileId
      objectKey := ((fileOf files fileId).map FileRow.objectKey).getD ""
      sortOrder := position }

def syncProductImages
    (client : Client) (actorUserId productId : ℕ) (imageFileIds : List ℕ) :
    Operation Unit := do
  perform (some client) fun _ => .deleteProductImages productId
  if imageFileIds = [] then pure ()
  else do
    let files ← select (some client) fun db => db.filesById imageFileIds
    validateFiles actorUserId files imageFileIds
    run (some client)
      (fun _ ids => .insertProductImages
        (imageRows productId files imageFileIds ids.productImages))
      fun _ _ _ _ => ()
    perform (some client) fun now => .ownFiles productId imageFileIds now

/-! ## ProductsService -/

/-- What the validation passes on, which drops the keys of the details that
`Object.prototype` has, too.  A NUL in a text, which Postgres refuses, is not
looked for.  Absent optional fields are `none`; for the subcategory, `some none`
is an explicit null. -/
structure CreateProductDto where
  category : String
  subcategory : Option (Option String)
  name : String
  description : String
  price : ℚ
  city : String
  addressText : String
  details : Option Json
  imageFileIds : Option (List ℕ)
  isNegotiable : Option Bool
  preferredContactMethod : Option ContactMethod

structure UpdateProductDto where
  category : Option String
  subcategory : Option (Option String)
  name : Option String
  description : Option String
  price : Option ℚ
  city : Option String
  addressText : Option String
  details : Option Json
  imageFileIds : Option (List ℕ)
  isNegotiable : Option Bool
  preferredContactMethod : Option ContactMethod

/-- `value?.trim() ?? null`. -/
def trimmed (value : Option (Option String)) : Option String :=
  value.join.map trim

def newProductRow
    (ownerId : ℕ) (dto : CreateProductDto) (id now : ℕ) : ProductRow where
  id := id
  ownerId := ownerId
  category := trim dto.category
  subcategory := trimmed dto.subcategory
  name := dto.name
  description := dto.description
  price := hundredths dto.price
  city := dto.city
  addressText := dto.addressText
  details := dto.details
  status := .available
  isNegotiable := dto.isNegotiable.getD false
  preferredContactMethod := dto.preferredContactMethod.getD .both
  createdAt := now
  updatedAt := now
  deletedAt := none

def createProduct (user : ℕ) (dto : CreateProductDto) :
    Operation (Option ProductView) :=
  withTransaction fun client => do
    assertCategoryPair (trim dto.category) (trimmed dto.subcategory) false
    let insert ← insertReturning (some client)
      (fun now ids => newProductRow user dto ids.products now) .insertProduct
    match dto.imageFileIds with
    | none => pure ()
    | some imageFileIds =>
        if imageFileIds = [] then pure ()
        else syncProductImages client user insert.id imageFileIds
    fetchProductWithImages (some client) insert.id (some user)

def getProductById (productId : ℕ) (viewerUserId : Option ℕ) :
    Operation ProductView := do
  let product ← fetchProductWithImages none productId viewerUserId
  match product with
  | none => throw productNotFound
  | some view =>
      match truthy viewerUserId with
      | none => pure view
      | some viewer => do
          let blocked ← select none fun db =>
            db.hasBlockBetweenUsers viewer view.row.ownerId
          if blocked then throw productNotFound else pure view

/-- `SELECT owner_id … FOR UPDATE` and the check that its answer is the
user. -/
def assertOwner (client : Client) (user productId : ℕ) : Operation Unit := do
  let ownership ← selectProductForUpdate client productId
  match ownership with
  | none => throw productNotFound
  | some row =>
      if toPositiveInt ⟨row.ownerId⟩ ≠ some user then throw notAllowed
      else pure ()

def productPatch (dto : UpdateProductDto) : ProductPatch where
  category := dto.category.map trim
  setsSubcategory := hasOwnProperty dto.subcategory
  subcategory := trimmed dto.subcategory
  name := dto.name
  description := dto.description
  price := dto.price.map hundredths
  city := dto.city
  addressText := dto.addressText
  details := dto.details
  isNegotiable := dto.isNegotiable
  preferredContactMethod := dto.preferredContactMethod

def typeError : Fault := .internal

def updateProduct (user productId : ℕ) (dto : UpdateProductDto) :
    Operation (Option ProductView) :=
  withTransaction fun client => do
    assertOwner client user productId
    let current ← select (some client) fun db => db.products.get productId
    match current with
    | none => throw typeError
    | some row => do
        let nextCategory := (dto.category.map trim).getD row.category
        let nextSubcategory :=
          if hasOwnProperty dto.subcategory then trimmed dto.subcategory
          else row.subcategory
        assertCategoryPair nextCategory nextSubcategory false
        perform (some client) fun now =>
          .updateProduct productId (productPatch dto) now
        match dto.imageFileIds with
        | none => pure ()
        | some imageFileIds =>
            syncProductImages client user productId imageFileIds
        fetchProductWithImages (some client) productId (some user)

/-- `productPatch` of an object that may lack its own `subcategory`. -/
def productPatchOwning (ownsSubcategory : Bool) (dto : UpdateProductDto) :
    ProductPatch :=
  { productPatch dto with setsSubcategory := ownsSubcategory }

/-- `updateProduct` given an object that may lack its own `subcategory`, which
no instance of the class does. -/
def updateProductOwning
    (ownsSubcategory : Bool) (user productId : ℕ) (dto : UpdateProductDto) :
    Operation (Option ProductView) :=
  withTransaction fun client => do
    assertOwner client user productId
    let current ← select (some client) fun db => db.products.get productId
    match current with
    | none => throw typeError
    | some row => do
        let nextCategory := (dto.category.map trim).getD row.category
        let nextSubcategory :=
          if ownsSubcategory then trimmed dto.subcategory else row.subcategory
        assertCategoryPair nextCategory nextSubcategory false
        perform (some client) fun now =>
          .updateProduct productId (productPatchOwning ownsSubcategory dto) now
        match dto.imageFileIds with
        | none => pure ()
        | some imageFileIds =>
            syncProductImages client user productId imageFileIds
        fetchProductWithImages (some client) productId (some user)

theorem updateProductOwning_hasOwnProperty
    (user productId : ℕ) (dto : UpdateProductDto) :
    updateProductOwning (hasOwnProperty dto.subcategory) user productId dto =
      updateProduct user productId dto := rfl

def deleteProduct (user productId : ℕ) : Operation String :=
  withTransaction fun client => do
    assertOwner client user productId
    perform (some client) fun now => .deleteProduct productId now
    pure "Product deleted"

def updateProductStatus (user productId : ℕ) (status : ProductStatus) :
    Operation (Option ProductRow) :=
  withTransaction fun client => do
    assertOwner client user productId
    execute (some client)
      (fun now => .updateProductStatus productId status now)
      fun db => db.products.get productId

/-! ## Search -/

inductive SortBy where
  | price
  | address
  | rate
  | created
  deriving DecidableEq, Repr

inductive SortDir where
  | asc
  | desc
  deriving DecidableEq, Repr

structure SearchProductsDto where
  category : Option String
  subcategory : Option String
  minPrice : Option ℚ
  maxPrice : Option ℚ
  fromDate : Option ℕ
  toDate : Option ℕ
  minRate : Option ℚ
  city : Option String
  addressText : Option String
  q : Option String
  sortBy : Option SortBy
  sortDir : Option SortDir
  limit : Option ℕ
  offset : Option ℕ
  deriving DecidableEq, Repr

/-- The conjunction of the clauses that the given filters add. -/
def buildSearchFilters
    (dto : SearchProductsDto) (status : Option ProductStatus)
    (listing : ProductListing) : Bool :=
  let row := listing.row
  ((truthyText dto.category).all fun category => row.category = category) &&
  ((truthyText dto.subcategory).all fun subcategory =>
    subcategory = "all" || row.subcategory = some subcategory) &&
  (dto.minPrice.all fun price => price ≤ (row.price : ℚ) / 100) &&
  (dto.maxPrice.all fun price => (row.price : ℚ) / 100 ≤ price) &&
  (dto.fromDate.all fun date => date ≤ row.createdAt) &&
  (dto.toDate.all fun date => row.createdAt ≤ date) &&
  ((truthyText dto.city).all fun city =>
    app.search.ilike row.city ("%" ++ escapeLike city ++ "%")) &&
  ((truthyText dto.addressText).all fun addressText =>
    app.search.ilike row.addressText ("%" ++ escapeLike addressText ++ "%")) &&
  ((truthyText dto.q).all fun q =>
    app.search.matchesQuery (row.name ++ " " ++ row.description) q) &&
  (dto.minRate.all fun rate => rate ≤ (listing.sellerRate : ℚ) / 100) &&
  (status.all fun status => row.status = status)

/-- The sort column's order, ascending. -/
def sortColumn (sortBy : SortBy) (listing other : ProductListing) : Bool :=
  match sortBy with
  | .price => listing.row.price ≤ other.row.price
  | .address => app.search.collates listing.row.city other.row.city
  | .rate => listing.sellerRate ≤ other.sellerRate
  | .created => listing.row.createdAt ≤ other.row.createdAt

/-- `ORDER BY ${sortColumn} ${sortDir}, plv.id DESC`. -/
def resolveSort
    (sortBy : SortBy) (sortDir : SortDir) (listing other : ProductListing) :
    Bool :=
  let upward := sortColumn app sortBy listing other
  let downward := sortColumn app sortBy other listing
  if upward && downward then other.row.id ≤ listing.row.id
  else
    match sortDir with
    | .asc => upward
    | .desc => downward

def page {α : Type} (limit offset : ℕ) (rows : List α) : List α :=
  (rows.drop offset).take limit

def Database.searchProducts
    (app : Deployment) (dto : SearchProductsDto) (viewerUserId : Option ℕ)
    (db : Database) : List ProductListing :=
  let visible := db.listedProducts.filter fun row =>
    row.status = .available &&
      viewerUserId.all fun viewer =>
        row.ownerId ≠ viewer && !db.hasBlockBetweenUsers viewer row.ownerId
  let listings := visible.map fun row =>
    db.listing (viewerUserId.map fun viewer => db.isFavorite viewer row.id) row
  let filtered := listings.filter (buildSearchFilters app dto none)
  page (dto.limit.getD defaultPageSize) (dto.offset.getD 0)
    (filtered.mergeSort
      (resolveSort app (dto.sortBy.getD .created) (dto.sortDir.getD .desc)))

def searchProducts (dto : SearchProductsDto) (viewerUserId : Option ℕ) :
    Operation (List ProductListing) := do
  assertSearchCategoryPair dto.category dto.subcategory
  select none (Database.searchProducts app dto viewerUserId)

def Database.listMyProducts
    (app : Deployment) (user : ℕ) (dto : SearchProductsDto)
    (status : Option ProductStatus) (db : Database) : List ProductListing :=
  let listings := (db.listedProducts.filter fun row => row.ownerId = user).map
    (db.listing none)
  let filtered := listings.filter (buildSearchFilters app dto status)
  page (dto.limit.getD defaultPageSize) (dto.offset.getD 0)
    (filtered.mergeSort
      (resolveSort app (dto.sortBy.getD .created) (dto.sortDir.getD .desc)))

def listMyProducts
    (user : ℕ) (dto : SearchProductsDto) (status : Option ProductStatus) :
    Operation (List ProductListing) := do
  assertSearchCategoryPair dto.category dto.subcategory
  select none (Database.listMyProducts app user dto status)

end MarketPlace.Trade
