import MarketPlace.ProductDetails

/-!
# Bodies of the market's responses

What the controllers return for a request to the market, before the interceptor
expands its foreign keys: the objects of the services with their keys as the
queries name them.
-/

namespace MarketPlace.Relations

open Trade (Json)

/-- How the language writes a time in milliseconds, `toISOString`. -/
structure HttpDeployment extends RelationsDeployment where
  isoText : ℕ → String

variable (app : HttpDeployment)

def fileOwnerJson (ownerType : Trade.OwnerType) : Json := .text ownerType.text

/-- A time that the chat service has read as a `Date`. -/
def isoJson (time : ℕ) : Json := .text (app.isoText time)

/-- A count that the query casts to an integer. -/
def countJson (count : ℕ) : Json := .number count

/-! ## Profiles -/

def appUserFields (user : Trade.AppUser) : List (String × Json) :=
  [("id", .number user.id), ("name", .text user.name),
    ("phone", .text user.phone),
    ("profileState", .text (userStatusText user.profileState))]

/-- `buildAvatarFile`. -/
def avatarViewJson (view : Trade.AvatarView) : Json :=
  .object
    [("id", bigintJson view.id), ("purpose", .text (filePurposeText view.purpose)),
      ("object_key", .text view.objectKey), ("mime_type", .text view.mimeType),
      ("status", .text (fileStatusText view.status)),
      ("created_at", timestampJson app.toRelationsDeployment view.createdAt),
      ("uploaded_at",
        nullable (timestampJson app.toRelationsDeployment) view.uploadedAt),
      ("url", .text view.url)]

def meJson (view : Trade.MeView) : Json :=
  .object (appUserFields view.user ++
    [("rate", .text (hundredthsText view.rate)),
      ("contactInfo", nullable .text view.contactInfo),
      ("avatar", nullable (avatarViewJson app) view.avatar)])

def publicUserJson (view : Trade.PublicProfileView) : Json :=
  .object (appUserFields view.user.user ++
    [("created_at", timestampJson app.toRelationsDeployment view.user.createdAt),
      ("ads_count", countJson view.user.adsCount),
      ("rate", .text (hundredthsText view.user.rate)),
      ("contactInfo", nullable .text view.user.contactInfo),
      ("avatar", nullable (avatarViewJson app) view.user.avatar),
      ("blocked_by_me", nullable .bool view.blockedByMe),
      ("blocked_me", nullable .bool view.blockedMe)])

/-! ## Products and files -/

/-- A row of the list of one's own products, which is selected without
`is_favorite`. -/
def myListingJson (listing : Trade.ProductListing) : Json :=
  .object (productFields app.toRelationsDeployment listing.row ++
    [("seller_rate", .text (hundredthsText listing.sellerRate)),
      ("images", .array (listing.images.map
        (imageJson fun id => .number id)))])

/-- What the update of a product's status returns. -/
def productStatusJson (row : Trade.ProductRow) : Json :=
  .object
    [("id", bigintJson row.id), ("status", .text (productStatusText row.status)),
      ("updated_at", timestampJson app.toRelationsDeployment row.updatedAt)]

def fileViewJson (view : Trade.FileView) : Json :=
  .object
    [("id", bigintJson view.row.id),
      ("uploader_user_id", nullable bigintJson view.row.uploaderUserId),
      ("owner_type", fileOwnerJson view.row.ownerType),
      ("owner_id", nullable bigintJson view.row.ownerId),
      ("purpose", .text (filePurposeText view.row.purpose)),
      ("object_key", .text view.row.objectKey),
      ("mime_type", .text view.row.mimeType),
      ("file_size_bytes", nullable bigintJson view.row.fileSizeBytes),
      ("status", .text (fileStatusText view.row.status)),
      ("created_at", timestampJson app.toRelationsDeployment view.row.createdAt),
      ("uploaded_at",
        nullable (timestampJson app.toRelationsDeployment) view.row.uploadedAt),
      ("readUrl", .text view.readUrl)]

/-- `Record<string, string>`. -/
def recordJson (entries : List (String × String)) : Json :=
  .object (entries.map fun entry => (entry.1, .text entry.2))

/-- `headers` and `fields` are there if the storage provider gives them. -/
def uploadJson (intent : Trade.UploadIntent) : Json :=
  .object
    ([("method", .text intent.method), ("url", .text intent.url),
        ("expiresAt", .text intent.expiresAt)] ++
      (intent.headers.toList.map fun headers =>
        ("headers", recordJson headers)) ++
      intent.fields.toList.map fun fields => ("fields", recordJson fields))

def uploadIntentJson (view : Trade.UploadIntentView) : Json :=
  .object
    [("file", .object
        [("id", bigintJson view.id), ("objectKey", .text view.objectKey),
          ("status", .text "pending")]),
      ("upload", uploadJson view.upload)]

def markedUploadedJson (view : Trade.MarkedUploadedView) : Json :=
  .object
    [("file", .object
        [("id", .number view.id), ("objectKey", .text view.objectKey),
          ("status", .text "uploaded")])]

/-! ## Ratings and chat -/

/-- A row of user_ratings, as far as the market keeps it. -/
def ratingJson (row : Trade.RatingRow) : Json :=
  .object
    [("rater_id", bigintJson row.raterId),
      ("rated_user_id", bigintJson row.ratedUserId),
      ("rating_value", countJson row.ratingValue)]

/-- `normalizeConversationRow`. -/
def conversationViewJson (view : Trade.ConversationView) : Json :=
  .object
    [("id", bigintJson view.id), ("product_id", nullable bigintJson view.productId),
      ("created_at", isoJson app view.createdAt),
      ("last_message_id", nullable bigintJson view.lastMessageId),
      ("last_message_text", nullable .text view.lastMessageText),
      ("last_message_sent_at", nullable (isoJson app) view.lastMessageSentAt),
      ("peer_user_id", bigintJson view.peerUserId),
      ("unread_count", countJson view.unreadCount),
      ("product_name", nullable .text view.productName),
      ("product_price", nullable (fun price => .text (hundredthsText price))
        view.productPrice),
      ("product_image_file_id", nullable bigintJson view.productImageFileId),
      ("product_image_object_key", nullable .text view.productImageObjectKey)]

/-- `normalizeMessageRow`. -/
def messageViewJson (view : Trade.MessageView) : Json :=
  .object
    [("id", bigintJson view.id),
      ("conversation_id", bigintJson view.conversationId),
      ("sender_id", bigintJson view.senderId),
      ("message_text", .text view.messageText),
      ("sent_at", isoJson app view.sentAt),
      ("read_at", nullable (isoJson app) view.readAt)]

/-! ## Bodies -/

/-- What the controller returns. -/
def httpBody (request : Trade.Request) (response : Trade.Response) : Json :=
  match request, response with
  | .listMyProducts _ _ _, .items items =>
      .object [("items", .array (items.map (myListingJson app)))]
  | _, .product product =>
      .object [("product",
        nullable (productJson app.toRelationsDeployment) product)]
  | _, .productStatus row =>
      .object [("product", nullable (productStatusJson app) row)]
  | _, .items items =>
      .object [("items", .array (items.map
        (listingJson app.toRelationsDeployment)))]
  | _, .message text => .object [("message", .text text)]
  | _, .uploadIntent view => uploadIntentJson view
  | _, .markedUploaded view => markedUploadedJson view
  | _, .file view => .object [("file", fileViewJson app view)]
  | _, .me view => .object [("user", meJson app view)]
  | _, .publicProfile view =>
      .object [("user", publicUserJson app view),
        ("products", .array (view.products.map
          (listingJson app.toRelationsDeployment)))]
  | _, .rating row => .object [("rating", ratingJson row)]
  | _, .conversation view =>
      .object [("conversation", conversationViewJson app view)]
  | _, .conversations views =>
      .object [("conversations", .array (views.map
        (conversationViewJson app)))]
  | _, .messages views =>
      .object [("messages", .array (views.map (messageViewJson app)))]
  | _, .oneMessage view => .object [("message", messageViewJson app view)]

/-- The products that a response shows, as they were read. -/
def shownProducts : Trade.Response → List Trade.ProductRow
  | .publicProfile view => view.products.map Trade.ProductListing.row
  | response => productsOf response

end MarketPlace.Relations
