import MarketPlace.DataModel
import Mathlib.Algebra.Order.Floor.Defs
import Mathlib.Data.Rat.Floor

/-!
# Tables of the market

The tables behind products, media files, profiles, favourites, blocks and
chat, and one constructor for each SQL statement that changes them.  Times are
microseconds since a fixed origin, prices and ratings are hundredths.
-/

namespace MarketPlace.Trade

open Relational

inductive Json where
  | null
  | bool (value : Bool)
  | number (value : ℚ)
  | text (value : String)
  | array (items : List Json)
  | object (fields : List (String × Json))

inductive ProductStatus where
  | available
  | sold
  | archived
  deriving DecidableEq, Repr

inductive FilePurpose where
  | avatar
  | productImage
  | chatAttachment
  | document
  deriving DecidableEq, Repr

inductive FileStatus where
  | pending
  | uploaded
  | failed
  | deleted
  deriving DecidableEq, Repr

inductive OwnerType where
  | user
  | product
  | message
  deriving DecidableEq, Repr

def OwnerType.text : OwnerType → String
  | .user => "user"
  | .product => "product"
  | .message => "message"

inductive ContactMethod where
  | phone
  | chat
  | both
  deriving DecidableEq, Repr

/-! ## Rows -/

/-- The columns of users that profiles and products read. -/
structure ProfileRow where
  id : ℕ
  name : String
  phone : String
  status : UserStatus
  avatarFileId : Option ℕ
  contactInfo : Option String
  deletedAt : Option ℕ
  createdAt : ℕ
  updatedAt : ℕ
  deriving DecidableEq, Repr

/-- A row of files; every upload intent fills in the type, whose column could be
null. -/
structure FileRow where
  id : ℕ
  uploaderUserId : Option ℕ
  ownerType : OwnerType
  ownerId : Option ℕ
  purpose : FilePurpose
  storageProvider : String
  bucket : Option String
  objectKey : String
  originalFilename : String
  mimeType : String
  fileSizeBytes : Option ℕ
  checksumSha256 : Option String
  status : FileStatus
  uploadedAt : Option ℕ
  createdAt : ℕ
  updatedAt : ℕ
  deriving DecidableEq, Repr

structure ProductRow where
  id : ℕ
  ownerId : ℕ
  category : String
  subcategory : Option String
  name : String
  description : String
  price : ℕ
  city : String
  addressText : String
  details : Option Json
  status : ProductStatus
  isNegotiable : Bool
  preferredContactMethod : ContactMethod
  createdAt : ℕ
  updatedAt : ℕ
  deletedAt : Option ℕ

structure ProductImageRow where
  id : ℕ
  productId : ℕ
  fileId : ℕ
  objectKey : String
  sortOrder : ℕ
  deriving DecidableEq, Repr

/-- `UNIQUE (product_id, sort_order)`. -/
def ProductImageRow.key (row : ProductImageRow) : ℕ × ℕ :=
  (row.productId, row.sortOrder)

structure FavoriteRow where
  userId : ℕ
  productId : ℕ
  createdAt : ℕ
  deriving DecidableEq, Repr

def FavoriteRow.key (row : FavoriteRow) : ℕ × ℕ := (row.userId, row.productId)

structure RatingRow where
  raterId : ℕ
  ratedUserId : ℕ
  ratingValue : ℕ
  deriving DecidableEq, Repr

def RatingRow.key (row : RatingRow) : ℕ × ℕ := (row.raterId, row.ratedUserId)

structure ConversationRow where
  id : ℕ
  userAId : ℕ
  userBId : ℕ
  productId : Option ℕ
  lastMessageId : Option ℕ
  createdAt : ℕ
  deriving DecidableEq, Repr

/-- The unordered pair of a conversation, which is unique. -/
def ConversationRow.pair (row : ConversationRow) : ℕ × ℕ :=
  (row.userAId, row.userBId)

structure Database where
  users : Table ProfileRow.id
  files : Table FileRow.id
  products : Table ProductRow.id
  productImages : Table ProductImageRow.key
  userFavorites : Table FavoriteRow.key
  userRatings : Table RatingRow.key
  userBlocks : Table (id : BlockRow → BlockRow)
  conversations : Table ConversationRow.id
  messages : Table MessageRow.id

/-! ## Queries -/

namespace Database

def empty : Database :=
  ⟨.empty, .empty, .empty, .empty, .empty, .empty, .empty, .empty, .empty⟩

/-- `WHERE id = $1 AND deleted_at IS NULL` on users. -/
def liveUser (db : Database) (id : ℕ) : Option ProfileRow :=
  (db.users.get id).filter fun row => row.deletedAt.isNone

/-- `WHERE id = $1 AND deleted_at IS NULL` on products. -/
def liveProduct (db : Database) (id : ℕ) : Option ProductRow :=
  (db.products.get id).filter fun row => row.deletedAt.isNone

/-- The rows of product_images of a product. -/
def imagesOf (db : Database) (productId : ℕ) : List ProductImageRow :=
  db.productImages.rows.filter fun row => row.productId = productId

/-- `ORDER BY pi.sort_order ASC`, which is unique within a product. -/
def imagesInOrder (db : Database) (productId : ℕ) : List ProductImageRow :=
  (db.imagesOf productId).mergeSort fun row other =>
    row.sortOrder ≤ other.sortOrder

/-- EXISTS of a block in either direction. -/
def hasBlockBetweenUsers (db : Database) (userAId userBId : ℕ) : Bool :=
  db.userBlocks.rows.any fun row =>
    (row.blockerId = userAId && row.blockedId = userBId) ||
      (row.blockerId = userBId && row.blockedId = userAId)

/-- `WHERE user_a_id = $1 AND user_b_id = $2 LIMIT 1`. -/
def conversationOf (db : Database) (pair : ℕ × ℕ) : Option ConversationRow :=
  db.conversations.rows.find? fun row => row.pair = pair

def messagesOf (db : Database) (conversationId : ℕ) : List MessageRow :=
  db.messages.rows.filter fun row => row.conversationId = conversationId

def ratingsOf (db : Database) (userId : ℕ) : List ℕ :=
  (db.userRatings.rows.filter fun row => row.ratedUserId = userId).map
    RatingRow.ratingValue

/-- `COALESCE(ROUND(AVG(rating_value)::numeric, 2), 0.00)`, in hundredths. -/
def rateOf (db : Database) (userId : ℕ) : ℕ :=
  let values := db.ratingsOf userId
  (200 * values.sum + values.length) / (2 * values.length)

end Database

/-! ## Writes -/

/-- The assignments of the UPDATE of a product; an absent value keeps the
column, but for the subcategory, which has a flag. -/
structure ProductPatch where
  category : Option String
  setsSubcategory : Bool
  subcategory : Option String
  name : Option String
  description : Option String
  price : Option ℕ
  city : Option String
  addressText : Option String
  details : Option Json
  isNegotiable : Option Bool
  preferredContactMethod : Option ContactMethod

def ProductRow.patched (patch : ProductPatch) (now : ℕ) (row : ProductRow) :
    ProductRow :=
  { row with
    category := patch.category.getD row.category
    subcategory :=
      if patch.setsSubcategory then patch.subcategory else row.subcategory
    name := patch.name.getD row.name
    description := patch.description.getD row.description
    price := patch.price.getD row.price
    city := patch.city.getD row.city
    addressText := patch.addressText.getD row.addressText
    details := patch.details.or row.details
    isNegotiable := patch.isNegotiable.getD row.isNegotiable
    preferredContactMethod :=
      patch.preferredContactMethod.getD row.preferredContactMethod
    updatedAt := now }

structure ProfilePatch where
  name : Option String
  setsAvatarFileId : Bool
  avatarFileId : Option ℕ
  setsContactInfo : Bool
  contactInfo : Option String
  deriving DecidableEq, Repr

def ProfileRow.patched (patch : ProfilePatch) (now : ℕ) (row : ProfileRow) :
    ProfileRow :=
  { row with
    name := patch.name.getD row.name
    avatarFileId :=
      if patch.setsAvatarFileId then patch.avatarFileId else row.avatarFileId
    contactInfo :=
      if patch.setsContactInfo then patch.contactInfo else row.contactInfo
    updatedAt := now }

inductive Change where
  | insertProduct (row : ProductRow)
  | updateProduct (productId : ℕ) (patch : ProductPatch) (now : ℕ)
  | deleteProduct (productId now : ℕ)
  | updateProductStatus (productId : ℕ) (status : ProductStatus) (now : ℕ)
  | deleteProductImages (productId : ℕ)
  | insertProductImages (rows : List ProductImageRow)
  | ownFiles (productId : ℕ) (fileIds : List ℕ) (now : ℕ)
  | insertFile (row : FileRow)
  | markUploaded (fileId : ℕ) (checksumSha256 : Option String) (now : ℕ)
  | updateProfile (userId : ℕ) (patch : ProfilePatch) (now : ℕ)
  | insertFavorite (row : FavoriteRow)
  | deleteFavorite (userId productId : ℕ)
  | upsertRating (row : RatingRow)
  | insertBlock (row : BlockRow)
  | deleteBlock (row : BlockRow)
  | insertConversation (row : ConversationRow)
  | setConversationProduct (conversationId productId : ℕ)
  | setLastMessage (conversationId messageId : ℕ)
  | insertMessage (row : MessageRow)
  | markRead (messageId now : ℕ)
  | insertUser (row : ProfileRow)
  | deleteUser (userId now : ℕ)

namespace Database

def apply (change : Change) (db : Database) : Database :=
  match change with
  | .insertProduct row => { db with products := db.products.insert row }
  | .updateProduct productId patch now =>
      { db with
        products := db.products.modify (fun row => row.id = productId)
          (ProductRow.patched patch now) fun _ => rfl }
  | .deleteProduct productId now =>
      { db with
        products := db.products.modify (fun row => row.id = productId)
          (fun row => { row with deletedAt := some now }) fun _ => rfl }
  | .updateProductStatus productId status now =>
      { db with
        products := db.products.modify (fun row => row.id = productId)
          (fun row => { row with status := status, updatedAt := now })
          fun _ => rfl }
  | .deleteProductImages productId =>
      { db with
        productImages := db.productImages.filter fun row =>
          row.productId ≠ productId }
  | .insertProductImages rows =>
      { db with productImages := db.productImages.insertAll rows }
  | .ownFiles productId fileIds now =>
      { db with
        files := db.files.modify (fun row => row.id ∈ fileIds)
          (fun row =>
            { row with
              ownerType := .product
              ownerId := some productId
              updatedAt := now })
          fun _ => rfl }
  | .insertFile row => { db with files := db.files.insert row }
  | .markUploaded fileId checksumSha256 now =>
      { db with
        files := db.files.modify (fun row => row.id = fileId)
          (fun row =>
            { row with
              status := .uploaded
              uploadedAt := some now
              checksumSha256 := checksumSha256.or row.checksumSha256
              updatedAt := now })
          fun _ => rfl }
  | .updateProfile userId patch now =>
      { db with
        users := db.users.modify
          (fun row => row.id = userId && row.deletedAt.isNone)
          (ProfileRow.patched patch now) fun _ => rfl }
  | .insertFavorite row =>
      { db with userFavorites := db.userFavorites.insert row }
  | .deleteFavorite userId productId =>
      { db with
        userFavorites := db.userFavorites.filter fun row =>
          !(row.userId = userId && row.productId = productId) }
  | .upsertRating row =>
      { db with
        userRatings := db.userRatings.upsert row
          (fun old => { old with ratingValue := row.ratingValue })
          fun _ => rfl }
  | .insertBlock row => { db with userBlocks := db.userBlocks.insert row }
  | .deleteBlock row =>
      { db with userBlocks := db.userBlocks.filter fun other => other ≠ row }
  | .insertConversation row =>
      { db with conversations := db.conversations.insert row }
  | .setConversationProduct conversationId productId =>
      { db with
        conversations := db.conversations.modify
          (fun row => row.id = conversationId)
          (fun row => { row with productId := some productId }) fun _ => rfl }
  | .setLastMessage conversationId messageId =>
      { db with
        conversations := db.conversations.modify
          (fun row => row.id = conversationId)
          (fun row => { row with lastMessageId := some messageId })
          fun _ => rfl }
  | .insertMessage row => { db with messages := db.messages.insert row }
  | .markRead messageId now =>
      { db with
        messages := db.messages.modify (fun row => row.id = messageId)
          (fun row => { row with readAt := row.readAt.or (some now) })
          fun _ => rfl }
  | .insertUser row => { db with users := db.users.insert row }
  | .deleteUser userId now =>
      { db with
        users := db.users.modify
          (fun row => row.id = userId && row.deletedAt.isNone)
          (fun row => { row with deletedAt := some now, updatedAt := now })
          fun _ => rfl }

/-! ## Constraints -/

/-- How Postgres names the constraints that a statement can violate. -/
inductive Violation where
  | foreignKey
  | unique
  | check
  deriving DecidableEq, Repr

/-- `LENGTH(BTRIM(text)) > 0` fails. -/
def blank (text : String) : Bool := text.toList.all fun c => c = ' '

/-- The first constraint that a statement violates on the data it runs on. -/
def violation (change : Change) (db : Database) : Option Violation :=
  match change with
  | .insertProduct row =>
      if (db.users.get row.ownerId).isNone then some .foreignKey else none
  | .insertProductImages rows =>
      if rows.any fun row =>
          (db.products.get row.productId).isNone ||
            (db.files.get row.fileId).isNone then
        some .foreignKey
      else if rows.any fun row => (db.productImages.get row.key).isSome then
        some .unique
      else none
  | .insertFile row =>
      if row.uploaderUserId.any fun userId => (db.users.get userId).isNone then
        some .foreignKey
      else if db.files.rows.any fun other =>
          other.storageProvider = row.storageProvider &&
            other.bucket.getD "" = row.bucket.getD "" &&
              other.objectKey = row.objectKey then
        some .unique
      else if blank row.objectKey then some .check
      else none
  | .updateProfile userId patch _ =>
      if (db.liveUser userId).isSome && patch.setsAvatarFileId &&
          patch.avatarFileId.any fun fileId => (db.files.get fileId).isNone then
        some .foreignKey
      else none
  | .insertFavorite row =>
      if (db.users.get row.userId).isNone ||
          (db.products.get row.productId).isNone then
        some .foreignKey
      else none
  | .upsertRating row =>
      if ¬ (1 ≤ row.ratingValue ∧ row.ratingValue ≤ 5) ∨
          row.raterId = row.ratedUserId then
        some .check
      else if (db.users.get row.raterId).isNone ||
          (db.users.get row.ratedUserId).isNone then
        some .foreignKey
      else none
  | .insertBlock row =>
      if row.blockerId = row.blockedId then some .check
      else if (db.users.get row.blockerId).isNone ||
          (db.users.get row.blockedId).isNone then
        some .foreignKey
      else none
  | .insertConversation row =>
      if ¬ row.userAId < row.userBId then some .check
      else if (db.conversationOf row.pair).isSome then some .unique
      else if (db.users.get row.userAId).isNone ||
          (db.users.get row.userBId).isNone ||
          row.productId.any fun productId =>
            (db.products.get productId).isNone then
        some .foreignKey
      else none
  | .setConversationProduct conversationId productId =>
      if (db.conversations.get conversationId).isSome &&
          (db.products.get productId).isNone then
        some .foreignKey
      else none
  | .setLastMessage conversationId messageId =>
      if (db.conversations.get conversationId).isSome &&
          (db.messages.get messageId).isNone then
        some .foreignKey
      else none
  | .insertMessage row =>
      if blank row.messageText then some .check
      else if (db.conversations.get row.conversationId).isNone ||
          (db.users.get row.senderId).isNone then
        some .foreignKey
      else none
  | _ => none

end Database

/-! ## Locks -/

/-- A row that a transaction can hold. -/
inductive RowLock where
  | user (id : ℕ)
  | file (id : ℕ)
  | product (id : ℕ)
  | productImage (id : ℕ)
  | favorite (userId productId : ℕ)
  | rating (raterId ratedUserId : ℕ)
  | block (row : BlockRow)
  | conversation (id : ℕ)
  | message (id : ℕ)
  deriving DecidableEq, Repr

/-- The locks that a statement takes on the data it runs on. -/
def Change.footprint (change : Change) (db : Database) : List RowLock :=
  match change with
  | .insertProduct row => [.product row.id]
  | .updateProduct productId _ _ | .deleteProduct productId _
  | .updateProductStatus productId _ _ =>
      (db.products.get productId).toList.map fun row => .product row.id
  | .deleteProductImages productId =>
      (db.imagesOf productId).map fun row => .productImage row.id
  | .insertProductImages rows => rows.map fun row => .productImage row.id
  | .ownFiles _ fileIds _ =>
      (db.files.rows.filter fun row => row.id ∈ fileIds).map fun row =>
        .file row.id
  | .insertFile row => [.file row.id]
  | .markUploaded fileId _ _ =>
      (db.files.get fileId).toList.map fun row => .file row.id
  | .updateProfile userId _ _ | .deleteUser userId _ =>
      (db.liveUser userId).toList.map fun row => .user row.id
  | .insertFavorite row => [.favorite row.userId row.productId]
  | .deleteFavorite userId productId =>
      (db.userFavorites.get (userId, productId)).toList.map fun row =>
        .favorite row.userId row.productId
  | .upsertRating row => [.rating row.raterId row.ratedUserId]
  | .insertBlock row => [.block row]
  | .deleteBlock row => (db.userBlocks.get row).toList.map .block
  | .insertConversation row => [.conversation row.id]
  | .setConversationProduct conversationId _ | .setLastMessage conversationId _ =>
      (db.conversations.get conversationId).toList.map fun row =>
        .conversation row.id
  | .insertMessage row => [.message row.id]
  | .markRead messageId _ =>
      (db.messages.get messageId).toList.map fun row => .message row.id
  | .insertUser row => [.user row.id]

def schema : ReadCommitted.Schema Database Change RowLock where
  apply change db := db.apply change
  footprint := Change.footprint

@[simp] theorem schema_apply (change : Change) (db : Database) :
    schema.apply change db = db.apply change := rfl

end MarketPlace.Trade
