import MarketPlace.CodeUnits
import MarketPlace.ListingServices

/-!
# Files, profiles, favourites, blocks and ratings

`FilesService`, `UsersService`, `FavoritesService`, `BlocksService` and
`RatingsService`, statement by statement.
-/

namespace MarketPlace.Trade

open Interleaving

variable (app : Deployment)

/-! ## FilesService -/

structure CreateUploadIntentDto where
  ownerType : OwnerType
  ownerId : Option ℕ
  purpose : FilePurpose
  filename : String
  mimeType : String
  fileSizeBytes : Option ℕ
  deriving DecidableEq, Repr

/-- `filename.replace(/[^a-zA-Z0-9._-]/g, '_')`, which replaces each UTF-16 unit
of a character. -/
def safeFilename (filename : String) : List Char :=
  filename.toList.flatMap fun c =>
    if c.isAlphanum || c = '.' || c = '_' || c = '-' then [c]
    else (CodeUnits.units c).map fun _ => '_'

/-- `replace(/\.[^.]+$/, '')`: the last dot goes with what follows it. -/
def withoutExtension (name : List Char) : List Char :=
  let extension := name.reverse.takeWhile fun c => c ≠ '.'
  if extension = [] ∨ extension.length = name.length then name
  else name.take (name.length - extension.length - 1)

/-- `text.startsWith(prefix)`. -/
def startsWith (text start : String) : Bool :=
  start.toList.isPrefixOf text.toList

def isImageOrVideo (mimeType : String) : Bool :=
  startsWith mimeType "image/" || startsWith mimeType "video/"

def buildObjectKey
    (dto : CreateUploadIntentDto) (now : ℕ) (randomHex : String) : String :=
  let safeBaseName :=
    if isImageOrVideo dto.mimeType then
      withoutExtension (safeFilename dto.filename)
    else safeFilename dto.filename
  let owner := (dto.ownerId.map fun id => toString id).getD "temp"
  dto.ownerType.text ++ "/" ++ owner ++ "/" ++ toString (now / 1000) ++ "-" ++
    randomHex ++ "-" ++ String.ofList safeBaseName

def newFileRow
    (user : ℕ) (dto : CreateUploadIntentDto) (objectKey : String)
    (id now : ℕ) : FileRow where
  id := id
  uploaderUserId := some user
  ownerType := dto.ownerType
  ownerId := dto.ownerId
  purpose := dto.purpose
  storageProvider := app.storageProvider
  bucket :=
    if app.storageProvider = "cloudinary" then none else some app.storageBucket
  objectKey := objectKey
  originalFilename := dto.filename
  mimeType := dto.mimeType
  fileSizeBytes := dto.fileSizeBytes
  checksumSha256 := none
  status := .pending
  uploadedAt := none
  createdAt := now
  updatedAt := now

/-- The storage provider's `createUploadIntent`. -/
def storageUploadIntent : Operation UploadIntent :=
  attempt fun _ draw m =>
    match draw.uploadIntent with
    | none => some (.error .internal, m)
    | some intent => some (.ok intent, m)

structure UploadIntentView where
  id : ℕ
  objectKey : String
  upload : UploadIntent
  deriving DecidableEq, Repr

def createUploadIntent (user : ℕ) (dto : CreateUploadIntentDto) :
    Operation UploadIntentView := do
  let now ← currentTime
  let randomHex ← draw Draw.randomHex
  let objectKey := buildObjectKey dto now randomHex
  let insert ← insertReturning none
    (fun now ids => newFileRow app user dto objectKey ids.files now) .insertFile
  let uploadIntent ← storageUploadIntent
  pure ⟨insert.id, objectKey, uploadIntent⟩

structure MarkedUploadedView where
  id : ℕ
  objectKey : String
  deriving DecidableEq, Repr

def fileNotFound : Fault := .exception .notFound "File not found"

def markUploaded (user fileId : ℕ) (checksumSha256 : Option String) :
    Operation MarkedUploadedView := do
  let file ← select none fun db => db.files.get fileId
  match file with
  | none => throw fileNotFound
  | some row =>
      if toPositiveIntOfNullable (row.uploaderUserId.map BigintText.mk) ≠
          some user then
        throw notAllowed
      else do
        perform none fun now => .markUploaded fileId checksumSha256 now
        pure ⟨fileId, row.objectKey⟩

/-- `resolveFormat` of the read URL. -/
def resolveFormat (mimeType : String) : Option String :=
  if isImageOrVideo mimeType then
    let subtype := ((mimeType.toList.dropWhile (· ≠ '/')).drop 1).takeWhile
      fun c => c ≠ '/' && c ≠ '+'
    let subtype := (String.ofList subtype).toLower
    if subtype = "" then none
    else if subtype = "jpeg" then some "jpg"
    else some subtype
  else none

def buildReadUrl (objectKey mimeType : String) : String :=
  let resourceType :=
    if startsWith mimeType "image/" then "image"
    else if startsWith mimeType "video/" then "video"
    else "raw"
  let publicIdWithOptionalFormat :=
    match resolveFormat mimeType with
    | some format => objectKey ++ "." ++ format
    | none => objectKey
  "https://res.cloudinary.com/" ++ app.cloudinaryCloudName ++ "/" ++
    resourceType ++ "/upload/" ++ publicIdWithOptionalFormat

structure FileView where
  row : FileRow
  readUrl : String
  deriving DecidableEq, Repr

def getFile (user : ℕ) (isAdmin : Bool) (fileId : ℕ) : Operation FileView := do
  let query ← select none fun db => db.files.get fileId
  match query with
  | none => throw fileNotFound
  | some file =>
      if isAdmin = false ∧
          toPositiveIntOfNullable (file.uploaderUserId.map BigintText.mk) ≠
            some user then
        throw notAllowed
      else pure ⟨file, buildReadUrl app file.objectKey file.mimeType⟩

/-! ## UsersService -/

structure AppUser where
  id : ℕ
  name : String
  phone : String
  profileState : UserStatus
  deriving DecidableEq, Repr

def mapToAppUser (row : ProfileRow) : AppUser :=
  ⟨row.id, row.name, row.phone, row.status⟩

structure AvatarView where
  id : ℕ
  purpose : FilePurpose
  objectKey : String
  mimeType : String
  status : FileStatus
  createdAt : ℕ
  uploadedAt : Option ℕ
  url : String
  deriving DecidableEq, Repr

/-- `LEFT JOIN files f ON f.id = u.avatar_file_id` and `buildAvatarFile`. -/
def avatarOf (db : Database) (row : ProfileRow) : Option AvatarView :=
  ((truthy row.avatarFileId).bind db.files.get).bind fun file =>
    if file.objectKey = "" then none
    else some
      { id := file.id
        purpose := file.purpose
        objectKey := file.objectKey
        mimeType := file.mimeType
        status := file.status
        createdAt := file.createdAt
        uploadedAt := file.uploadedAt
        url := buildReadUrl app file.objectKey file.mimeType }

def userNotFound : Fault := .exception .notFound "User not found"

structure MeView where
  user : AppUser
  rate : ℕ
  contactInfo : Option String
  avatar : Option AvatarView
  deriving DecidableEq, Repr

def meView (db : Database) (row : ProfileRow) : MeView :=
  ⟨mapToAppUser row, db.rateOf row.id, row.contactInfo, avatarOf app db row⟩

def getMe (user : ℕ) : Operation MeView := do
  let query ← select none fun db => (db.liveUser user).map (meView app db)
  match query with
  | none => throw userNotFound
  | some view => pure view

/-- What the query of a public profile selects of a user. -/
structure PublicUserView where
  user : AppUser
  createdAt : ℕ
  adsCount : ℕ
  rate : ℕ
  contactInfo : Option String
  avatar : Option AvatarView
  deriving DecidableEq, Repr

structure PublicProfileView where
  user : PublicUserView
  blockedByMe : Option Bool
  blockedMe : Option Bool
  products : List ProductListing

structure GetPublicUserQueryDto where
  limit : Option ℕ
  offset : Option ℕ
  deriving DecidableEq, Repr

/-- `WHERE blocker_id = $1 AND blocked_id = $2` on user_blocks. -/
def Database.blocks (db : Database) (blockerId blockedId : ℕ) : Bool :=
  (db.userBlocks.get ⟨blockerId, blockedId⟩).isSome

def Database.adsCount (db : Database) (userId : ℕ) : ℕ :=
  (db.listedProducts.filter fun row => row.ownerId = userId).length

/-- `ORDER BY plv.created_at DESC`, ties as they are arranged. -/
def newestFirst (tieRank : ℕ → ℕ) (listing other : ProductListing) : Bool :=
  if listing.row.createdAt = other.row.createdAt then
    tieRank listing.row.id ≤ tieRank other.row.id
  else other.row.createdAt ≤ listing.row.createdAt

def Database.publicProducts
    (userId : ℕ) (viewerUserId : Option ℕ) (dto : GetPublicUserQueryDto)
    (tieRank : ℕ → ℕ) (db : Database) : List ProductListing :=
  let available := db.listedProducts.filter fun row =>
    row.ownerId = userId && row.status = .available
  let listings := available.map fun row =>
    db.listing (viewerUserId.map fun viewer => db.isFavorite viewer row.id) row
  page (dto.limit.getD defaultPageSize) (dto.offset.getD 0)
    (listings.mergeSort (newestFirst tieRank))

def publicUserView (db : Database) (row : ProfileRow) : PublicUserView where
  user := mapToAppUser row
  createdAt := row.createdAt
  adsCount := db.adsCount row.id
  rate := db.rateOf row.id
  contactInfo := row.contactInfo
  avatar := avatarOf app db row

/-- Whether the viewer blocks the user and the user blocks the viewer. -/
def blockState (userId : ℕ) (viewerUserId : Option ℕ) :
    Operation (Bool × Bool) :=
  match truthy viewerUserId with
  | none => pure (false, false)
  | some viewer => select none fun db =>
      (db.blocks viewer userId, db.blocks userId viewer)

def getPublicProfile
    (userId : ℕ) (dto : GetPublicUserQueryDto) (viewerUserId : Option ℕ) :
    Operation PublicProfileView := do
  let block ← blockState userId viewerUserId
  if block.1 ∨ block.2 then throw userNotFound
  else do
    let user ← select none fun db =>
      (db.liveUser userId).map (publicUserView app db)
    match user with
    | none => throw userNotFound
    | some user => do
        let products ← selectOrdered none
          (Database.publicProducts userId viewerUserId dto)
        pure
          { user := user
            blockedByMe := (truthy viewerUserId).map fun _ => block.1
            blockedMe := (truthy viewerUserId).map fun _ => block.2
            products := products }

/-- Absent fields are `none`; `some none` is an explicit null. -/
structure UpdateProfileDto where
  name : Option String
  avatarFileId : Option (Option ℕ)
  contactInfo : Option (Option String)
  deriving DecidableEq, Repr

/-- The checks of an avatar file that is given. -/
def avatarFileFault (user : ℕ) (file : Option FileRow) : Option Fault :=
  match file with
  | none => some (.exception .notFound "Avatar file not found")
  | some file =>
      if toPositiveIntOfNullable (file.uploaderUserId.map BigintText.mk) ≠
          some user then
        some (.exception .forbidden "Not allowed to use this file")
      else if file.status ≠ .uploaded ∨ file.purpose ≠ .avatar then
        some (.exception .badRequest "Avatar file must be an uploaded avatar")
      else none

def assertAvatarFile (user : ℕ) (avatarFileId : Option ℕ) :
    Operation Unit :=
  match avatarFileId with
  | none => pure ()
  | some fileId => do
      let file ← select none fun db => db.files.get fileId
      match avatarFileFault user file with
      | some fault => throw fault
      | none => pure ()

def profilePatch (dto : UpdateProfileDto) : ProfilePatch where
  name := dto.name
  setsAvatarFileId := hasOwnProperty dto.avatarFileId
  avatarFileId :=
    if hasOwnProperty dto.avatarFileId then dto.avatarFileId.join else none
  setsContactInfo := hasOwnProperty dto.contactInfo
  contactInfo :=
    if hasOwnProperty dto.contactInfo then dto.contactInfo.join else none

def updateMe (user : ℕ) (dto : UpdateProfileDto) : Operation MeView :=
  if dto.name = none ∧ hasOwnProperty dto.avatarFileId = false ∧
      hasOwnProperty dto.contactInfo = false then
    throw (.exception .badRequest "Nothing to update")
  else do
    assertAvatarFile user dto.avatarFileId.join
    perform none fun now => .updateProfile user (profilePatch dto) now
    getMe app user

/-! ## FavoritesService -/

inductive FavoriteSortBy where
  | price
  | created
  deriving DecidableEq, Repr

structure ListFavoritesDto where
  sortBy : Option FavoriteSortBy
  sortDir : Option SortDir
  limit : Option ℕ
  offset : Option ℕ
  deriving DecidableEq, Repr

def addFavorite (user productId : ℕ) : Operation String := do
  let product ← select none fun db => db.liveProduct productId
  match product with
  | none => throw productNotFound
  | some row => do
      let blocked ← select none fun db =>
        db.hasBlockBetweenUsers user row.ownerId
      if blocked then
        throw (.exception .badRequest "Cannot favorite this product")
      else do
        perform none fun now => .insertFavorite ⟨user, productId, now⟩
        pure "Product added to favorites"

def removeFavorite (user productId : ℕ) : Operation String := do
  perform none fun _ => .deleteFavorite user productId
  pure "Product removed from favorites"

/-- The sort column's order, ascending, of favourites with their listings. -/
def favoriteSortColumn
    (sortBy : FavoriteSortBy)
    (listing other : FavoriteRow × ProductListing) : Bool :=
  match sortBy with
  | .price => listing.2.row.price ≤ other.2.row.price
  | .created => listing.1.createdAt ≤ other.1.createdAt

def favoriteSort
    (sortBy : FavoriteSortBy) (sortDir : SortDir)
    (listing other : FavoriteRow × ProductListing) : Bool :=
  let upward := favoriteSortColumn sortBy listing other
  let downward := favoriteSortColumn sortBy other listing
  if upward && downward then other.2.row.id ≤ listing.2.row.id
  else
    match sortDir with
    | .asc => upward
    | .desc => downward

/-- user_favorites JOIN product_listing_view, without blocked owners. -/
def Database.favoritesOf (user : ℕ) (db : Database) :
    List (FavoriteRow × ProductListing) :=
  db.userFavorites.rows.filterMap fun favorite =>
    if favorite.userId = user then
      (db.liveProduct favorite.productId).bind fun row =>
        if db.hasBlockBetweenUsers user row.ownerId then none
        else some (favorite, db.listing (some true) row)
    else none

def Database.listFavorites
    (user : ℕ) (dto : ListFavoritesDto) (db : Database) :
    List ProductListing :=
  (page (dto.limit.getD defaultPageSize) (dto.offset.getD 0)
    ((db.favoritesOf user).mergeSort
      (favoriteSort (dto.sortBy.getD .created) (dto.sortDir.getD .desc)))).map
    Prod.snd

def listFavorites (user : ℕ) (dto : ListFavoritesDto) :
    Operation (List ProductListing) :=
  select none (Database.listFavorites user dto)

/-! ## BlocksService and RatingsService -/

def blockUser (user blockedUserId : ℕ) : Operation String :=
  if user = blockedUserId then
    throw (.exception .badRequest "You cannot block yourself")
  else do
    let target ← select none fun db => (db.liveUser blockedUserId).isSome
    if !target then throw userNotFound
    else do
      perform none fun _ => .insertBlock ⟨user, blockedUserId⟩
      pure "User blocked"

def unblockUser (user blockedUserId : ℕ) : Operation String := do
  perform none fun _ => .deleteBlock ⟨user, blockedUserId⟩
  pure "User unblocked"

/-- `assertUserExists`. -/
def assertUserExists (userId : ℕ) (label : String) : Operation Unit := do
  let result ← select none fun db => (db.liveUser userId).isSome
  if !result then throw (.exception .notFound (label ++ " not found"))
  else pure ()

/-- `if (isForeignKeyViolation(error)) throw new NotFoundException(message)`. -/
def notFoundOnForeignKey {α : Type} (message : String) (fault : Fault) :
    Operation α :=
  if fault = .database (some .foreignKey) then
    throw (.exception .notFound message)
  else throw fault

def rateUser (user ratedUserId ratingValue : ℕ) : Operation RatingRow :=
  if user = ratedUserId then
    throw (.exception .badRequest "You cannot rate yourself")
  else do
    assertUserExists ratedUserId "Rated user"
    tryCatch
      (insertReturning none (fun _ _ => ⟨user, ratedUserId, ratingValue⟩)
        .upsertRating)
      (notFoundOnForeignKey "Rated user not found")

end MarketPlace.Trade
