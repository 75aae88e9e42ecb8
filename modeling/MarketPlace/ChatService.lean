import MarketPlace.ProfileServices

/-!
# Chat and the market as a system

`ChatService`, statement by statement, and the system in which the requests
to all of the market's services interleave.  Timestamps leave the service in
milliseconds, as a JavaScript `Date` keeps them.
-/

namespace MarketPlace.Trade

open Interleaving

variable (app : Deployment)

/-- A timestamp as a `Date`, in milliseconds. -/
def milliseconds (time : ℕ) : ℕ := time / 1000

/-! ## Views of conversations and messages -/

structure ConversationView where
  id : ℕ
  productId : Option ℕ
  createdAt : ℕ
  lastMessageId : Option ℕ
  lastMessageText : Option String
  lastMessageSentAt : Option ℕ
  peerUserId : ℕ
  unreadCount : ℕ
  productName : Option String
  productPrice : Option ℕ
  productImageFileId : Option ℕ
  productImageObjectKey : Option String
  deriving DecidableEq, Repr

structure MessageView where
  id : ℕ
  conversationId : ℕ
  senderId : ℕ
  messageText : String
  sentAt : ℕ
  readAt : Option ℕ
  deriving DecidableEq, Repr

/-- `CASE WHEN c.user_a_id = $1 THEN c.user_b_id ELSE c.user_a_id END`. -/
def ConversationRow.peerOf (row : ConversationRow) (userId : ℕ) : ℕ :=
  if row.userAId = userId then row.userBId else row.userAId

/-- `normalizeMessageRow`. -/
def messageView (row : MessageRow) : MessageView where
  id := row.id
  conversationId := row.conversationId
  senderId := row.senderId
  messageText := row.messageText
  sentAt := milliseconds row.sentAt
  readAt := row.readAt.map milliseconds

namespace Database

/-- `LEFT JOIN messages m ON m.id = c.last_message_id`. -/
def lastMessage (db : Database) (row : ConversationRow) : Option MessageRow :=
  row.lastMessageId.bind db.messages.get

/-- `LEFT JOIN products p ON p.id = c.product_id AND p.deleted_at IS NULL`. -/
def conversationProduct (db : Database) (row : ConversationRow) :
    Option ProductRow :=
  row.productId.bind db.liveProduct

def unreadCount (db : Database) (userId conversationId : ℕ) : ℕ :=
  ((db.messagesOf conversationId).filter fun row =>
    row.senderId ≠ userId && row.readAt.isNone).length

/-- The row that the conversation queries select, if the peer exists. -/
def conversationView (db : Database) (userId : ℕ) (row : ConversationRow) :
    Option ConversationView :=
  let message := db.lastMessage row
  let product := db.conversationProduct row
  let image := product.bind fun product => (db.imagesInOrder product.id).head?
  (db.users.get (row.peerOf userId)).map fun peer =>
    { id := row.id
      productId := row.productId
      createdAt := milliseconds row.createdAt
      lastMessageId := message.map MessageRow.id
      lastMessageText := message.map MessageRow.messageText
      lastMessageSentAt := message.map fun message =>
        milliseconds message.sentAt
      peerUserId := peer.id
      unreadCount := db.unreadCount userId row.id
      productName := product.map ProductRow.name
      productPrice := product.map ProductRow.price
      productImageFileId := image.map ProductImageRow.fileId
      productImageObjectKey := image.map ProductImageRow.objectKey }

end Database

/-! ## ChatService -/

def conversationNotFound : Fault :=
  .exception .notFound "Conversation not found"

def hasBlockBetweenUsers (userAId userBId : ℕ) : Operation Bool :=
  select none fun db => db.hasBlockBetweenUsers userAId userBId

/-- What `assertConversationParticipant` finds wrong with the row alone. -/
def participantFault (conversationId userId : ℕ) (row : ConversationRow) :
    Option Fault :=
  match toPositiveInt ⟨row.userAId⟩, toPositiveInt ⟨row.userBId⟩ with
  | some userAId, some userBId =>
      if userAId ≠ userId ∧ userBId ≠ userId then
        some (.forbiddenChat .notParticipant
          "Not a participant of this conversation"
          [("conversationId", conversationId), ("userId", userId),
            ("userAId", userAId), ("userBId", userBId)])
      else none
  | _, _ =>
      some (.exception .notFound "Conversation participants are invalid")

def assertConversationParticipant (conversationId userId : ℕ) :
    Operation Unit := do
  let query ← select none fun db => db.conversations.get conversationId
  match query with
  | none => throw conversationNotFound
  | some row =>
      match participantFault conversationId userId row with
      | some fault => throw fault
      | none => do
          let blocked ← hasBlockBetweenUsers userId (row.peerOf userId)
          if blocked then
            throw (.forbiddenChat .conversationBlocked
              "Conversation is not available"
              [("conversationId", conversationId), ("userId", userId),
                ("userAId", row.userAId), ("userBId", row.userBId)])
          else pure ()

def getConversationById (userId conversationId : ℕ) :
    Operation ConversationView := do
  assertConversationParticipant conversationId userId
  let query ← select none fun db =>
    (db.conversations.get conversationId).bind (db.conversationView userId)
  match query with
  | none => throw conversationNotFound
  | some view => pure view

/-- The checks of the product that a conversation is opened about; the driver
returns `owner_id` as a text. -/
def productFault (userId participantId : ℕ) (product : Option ProductRow) :
    Option Fault :=
  match product with
  | none => some productNotFound
  | some row =>
      let ownerId : BigintText := ⟨row.ownerId⟩
      let isParticipantOwner :=
        ownerId.strictEquals userId || ownerId.strictEquals participantId
      if row.status ≠ .available ∧ isParticipantOwner = false then
        some (.exception .forbidden
          "Product is not available for conversation")
      else none

/-- `validatedProductId`. -/
def validateProduct (userId participantId : ℕ) (productId : Option ℕ) :
    Operation (Option ℕ) :=
  match truthy productId with
  | none => pure none
  | some productId => do
      let product ← select none fun db => db.liveProduct productId
      match productFault userId participantId product with
      | some fault => throw fault
      | none => pure (some productId)

/-- `userId < participantId ? [userId, participantId] : [participantId, userId]`. -/
def orderedPair (userId participantId : ℕ) : ℕ × ℕ :=
  if userId < participantId then (userId, participantId)
  else (participantId, userId)

/-- The UPDATE of a conversation that has no product yet. -/
def backfillProduct
    (conversation : ConversationRow) (validatedProductId : Option ℕ) :
    Operation Unit :=
  match validatedProductId with
  | none => pure ()
  | some productId =>
      if (truthy conversation.productId).isSome then pure ()
      else perform none fun _ =>
        .setConversationProduct conversation.id productId

def openConversation
    (pair : ℕ × ℕ) (validatedProductId : Option ℕ) :
    Operation ConversationRow :=
  tryCatch
    (insertReturning none
      (fun now ids =>
        ⟨ids.conversations, pair.1, pair.2, validatedProductId, none, now⟩)
      .insertConversation)
    (notFoundOnForeignKey "Participant or product not found")

def getOrCreateConversation
    (userId participantId : ℕ) (productId : Option ℕ) :
    Operation ConversationView :=
  if userId = participantId then
    throw (.exception .badRequest "Cannot start conversation with yourself")
  else do
    assertUserExists participantId "Participant"
    let blocked ← hasBlockBetweenUsers userId participantId
    if blocked then
      throw (.forbiddenChat .conversationBlocked "Conversation is not allowed"
        [("userId", userId), ("participantId", participantId)])
    else do
      let validatedProductId ← validateProduct userId participantId productId
      let existing ← select none fun db =>
        db.conversationOf (orderedPair userId participantId)
      match existing with
      | some conversation => do
          backfillProduct conversation validatedProductId
          getConversationById userId conversation.id
      | none => do
          let insert ← openConversation (orderedPair userId participantId)
            validatedProductId
          getConversationById userId insert.id

inductive ConversationScope where
  | all
  | buy
  | sell
  deriving DecidableEq, Repr

namespace Database

/-- The WHERE clause of the conversation list. -/
def listsConversation
    (db : Database) (userId : ℕ) (scope : ConversationScope)
    (row : ConversationRow) : Bool :=
  (row.userAId = userId || row.userBId = userId) &&
    !db.hasBlockBetweenUsers userId (row.peerOf userId) &&
      match scope with
      | .all => true
      | .buy => (db.conversationProduct row).any fun product =>
          product.ownerId ≠ userId
      | .sell => (db.conversationProduct row).any fun product =>
          product.ownerId = userId

/-- `COALESCE(m.sent_at, c.created_at)`. -/
def activity (db : Database) (row : ConversationRow) : ℕ :=
  ((db.lastMessage row).map MessageRow.sentAt).getD row.createdAt

def latestActivityFirst
    (db : Database) (tieRank : ℕ → ℕ) (row other : ConversationRow) : Bool :=
  if db.activity row = db.activity other then tieRank row.id ≤ tieRank other.id
  else db.activity other ≤ db.activity row

def listConversations
    (userId : ℕ) (scope : ConversationScope) (limit offset : ℕ)
    (tieRank : ℕ → ℕ) (db : Database) : List ConversationView :=
  let listed := db.conversations.rows.filter (db.listsConversation userId scope)
  let joined := listed.filter fun row =>
    (db.users.get (row.peerOf userId)).isSome
  (page limit offset (joined.mergeSort (db.latestActivityFirst tieRank))).filterMap
    (db.conversationView userId)

end Database

def listConversations
    (userId : ℕ) (scope : ConversationScope) (limit offset : ℕ) :
    Operation (List ConversationView) :=
  selectOrdered none (Database.listConversations userId scope limit offset)

/-- `ORDER BY sent_at DESC`, ties as they are arranged. -/
def latestFirst (tieRank : ℕ → ℕ) (row other : MessageRow) : Bool :=
  if row.sentAt = other.sentAt then tieRank row.id ≤ tieRank other.id
  else other.sentAt ≤ row.sentAt

/-- The page of messages sent before a time, in milliseconds if it is a
timestamp that the service returned. -/
def Database.listMessages
    (conversationId limit : ℕ) (before : Option ℕ) (tieRank : ℕ → ℕ)
    (db : Database) : List MessageRow :=
  (((db.messagesOf conversationId).filter fun row =>
    before.all fun time => row.sentAt < time).mergeSort
      (latestFirst tieRank)).take limit

def listMessages
    (userId conversationId limit : ℕ) (before : Option ℕ) :
    Operation (List MessageView) := do
  assertConversationParticipant conversationId userId
  let query ← selectOrdered none
    (Database.listMessages conversationId limit before)
  pure (query.map messageView)

def sendMessage (userId conversationId : ℕ) (messageText : String) :
    Operation MessageView := do
  assertConversationParticipant conversationId userId
  let insert ← tryCatch
    (insertReturning none
      (fun now ids =>
        ⟨ids.messages, conversationId, userId, messageText, now, none⟩)
      .insertMessage)
    (notFoundOnForeignKey "Conversation not found")
  perform none fun _ => .setLastMessage conversationId insert.id
  pure (messageView insert)

def markRead (userId messageId : ℕ) : Operation MessageView := do
  let message ← select none fun db => db.messages.get messageId
  match message with
  | none => throw (.exception .notFound "Message not found")
  | some row =>
      match toPositiveInt ⟨row.conversationId⟩, toPositiveInt ⟨row.senderId⟩ with
      | some conversationId, some senderId => do
          assertConversationParticipant conversationId userId
          if senderId = userId then
            throw (.exception .forbidden
              "Only recipients can mark messages as read")
          else do
            let updated ← execute none (fun now => .markRead messageId now)
              fun db => db.messages.get messageId
            match updated with
            | none => throw typeError
            | some row => pure (messageView row)
      | _, _ =>
          throw (.exception .notFound "Message has invalid ownership data")

/-! ## The market as a system -/

inductive Request where
  | createProduct (user : ℕ) (dto : CreateProductDto)
  | getProductById (productId : ℕ) (viewer : Option ℕ)
  | updateProduct (user productId : ℕ) (dto : UpdateProductDto)
  | deleteProduct (user productId : ℕ)
  | updateProductStatus (user productId : ℕ) (status : ProductStatus)
  | listMyProducts (user : ℕ) (dto : SearchProductsDto)
      (status : Option ProductStatus)
  | searchProducts (dto : SearchProductsDto) (viewer : Option ℕ)
  | createUploadIntent (user : ℕ) (dto : CreateUploadIntentDto)
  | markUploaded (user fileId : ℕ) (checksumSha256 : Option String)
  | getFile (user : ℕ) (isAdmin : Bool) (fileId : ℕ)
  | getMe (user : ℕ)
  | getPublicProfile (userId : ℕ) (dto : GetPublicUserQueryDto)
      (viewer : Option ℕ)
  | updateMe (user : ℕ) (dto : UpdateProfileDto)
  | addFavorite (user productId : ℕ)
  | removeFavorite (user productId : ℕ)
  | listFavorites (user : ℕ) (dto : ListFavoritesDto)
  | blockUser (user blockedUserId : ℕ)
  | unblockUser (user blockedUserId : ℕ)
  | rateUser (user ratedUserId ratingValue : ℕ)
  | getOrCreateConversation (user participantId : ℕ) (productId : Option ℕ)
  | listConversations (user : ℕ) (scope : ConversationScope)
      (limit offset : ℕ)
  | getConversationById (user conversationId : ℕ)
  | listMessages (user conversationId limit : ℕ) (before : Option ℕ)
  | sendMessage (user conversationId : ℕ) (messageText : String)
  | markRead (user messageId : ℕ)

/-- The user a request is authenticated as. -/
def Request.user : Request → Option ℕ
  | .createProduct user _ | .updateProduct user _ _ | .deleteProduct user _
  | .updateProductStatus user _ _ | .listMyProducts user _ _
  | .createUploadIntent user _ | .markUploaded user _ _ | .getFile user _ _
  | .getMe user | .updateMe user _ | .addFavorite user _
  | .removeFavorite user _ | .listFavorites user _ | .blockUser user _
  | .unblockUser user _ | .rateUser user _ _
  | .getOrCreateConversation user _ _ | .listConversations user _ _ _
  | .getConversationById user _ | .listMessages user _ _ _
  | .sendMessage user _ _ | .markRead user _ => some user
  | .getProductById _ viewer | .searchProducts _ viewer
  | .getPublicProfile _ _ viewer => viewer

inductive Response where
  | product (product : Option ProductView)
  | productStatus (row : Option ProductRow)
  | items (items : List ProductListing)
  | message (text : String)
  | uploadIntent (view : UploadIntentView)
  | markedUploaded (view : MarkedUploadedView)
  | file (view : FileView)
  | me (view : MeView)
  | publicProfile (view : PublicProfileView)
  | rating (row : RatingRow)
  | conversation (view : ConversationView)
  | conversations (views : List ConversationView)
  | messages (views : List MessageView)
  | oneMessage (view : MessageView)

def Request.handler : Request → Operation Response
  | .createProduct user dto => do
      let product ← Trade.createProduct user dto
      pure (.product product)
  | .getProductById productId viewer => do
      let product ← Trade.getProductById productId viewer
      pure (.product (some product))
  | .updateProduct user productId dto => do
      let product ← Trade.updateProduct user productId dto
      pure (.product product)
  | .deleteProduct user productId => do
      let text ← Trade.deleteProduct user productId
      pure (.message text)
  | .updateProductStatus user productId status => do
      let row ← Trade.updateProductStatus user productId status
      pure (.productStatus row)
  | .listMyProducts user dto status => do
      let items ← Trade.listMyProducts app user dto status
      pure (.items items)
  | .searchProducts dto viewer => do
      let items ← Trade.searchProducts app dto viewer
      pure (.items items)
  | .createUploadIntent user dto => do
      let view ← Trade.createUploadIntent app user dto
      pure (.uploadIntent view)
  | .markUploaded user fileId checksumSha256 => do
      let view ← Trade.markUploaded user fileId checksumSha256
      pure (.markedUploaded view)
  | .getFile user isAdmin fileId => do
      let view ← Trade.getFile app user isAdmin fileId
      pure (.file view)
  | .getMe user => do
      let view ← Trade.getMe app user
      pure (.me view)
  | .getPublicProfile userId dto viewer => do
      let view ← Trade.getPublicProfile app userId dto viewer
      pure (.publicProfile view)
  | .updateMe user dto => do
      let view ← Trade.updateMe app user dto
      pure (.me view)
  | .addFavorite user productId => do
      let text ← Trade.addFavorite user productId
      pure (.message text)
  | .removeFavorite user productId => do
      let text ← Trade.removeFavorite user productId
      pure (.message text)
  | .listFavorites user dto => do
      let items ← Trade.listFavorites user dto
      pure (.items items)
  | .blockUser user blockedUserId => do
      let text ← Trade.blockUser user blockedUserId
      pure (.message text)
  | .unblockUser user blockedUserId => do
      let text ← Trade.unblockUser user blockedUserId
      pure (.message text)
  | .rateUser user ratedUserId ratingValue => do
      let row ← Trade.rateUser user ratedUserId ratingValue
      pure (.rating row)
  | .getOrCreateConversation user participantId productId => do
      let view ← Trade.getOrCreateConversation user participantId productId
      pure (.conversation view)
  | .listConversations user scope limit offset => do
      let views ← Trade.listConversations user scope limit offset
      pure (.conversations views)
  | .getConversationById user conversationId => do
      let view ← Trade.getConversationById user conversationId
      pure (.conversation view)
  | .listMessages user conversationId limit before => do
      let views ← Trade.listMessages user conversationId limit before
      pure (.messages views)
  | .sendMessage user conversationId messageText => do
      let view ← Trade.sendMessage user conversationId messageText
      pure (.oneMessage view)
  | .markRead user messageId => do
      let view ← Trade.markRead user messageId
      pure (.oneMessage view)

/-- What happens outside of the market's requests. -/
inductive Surroundings where
  | timePasses (amount : ℕ)
  | userRegisters (name phone : String)
  | userDeleted (userId : ℕ)
  deriving DecidableEq, Repr

namespace Market

/-- A write by an endpoint that is not part of this model. -/
def writeElsewhere (change : Change) (m : Market) : Market :=
  { m with
    store := m.store.autocommit schema change
    ids := nextIds change m.ids
    history := .elsewhere change :: m.history }

def surroundings (event : Surroundings) (m : Market) : Market :=
  match event with
  | .timePasses amount => { m with now := m.now + amount }
  | .userRegisters name phone =>
      m.writeElsewhere (.insertUser
        ⟨m.ids.users, name, phone, .active, none, none, none, m.now, m.now⟩)
  | .userDeleted userId => m.writeElsewhere (.deleteUser userId m.now)

end Market

def market : System Request Draw Surroundings Market Fault Response where
  handler := Request.handler app
  environment := Market.surroundings

@[simp] theorem market_environment :
    (market app).environment = Market.surroundings := rfl

def Pool.opening (now : ℕ) : Pool Request Draw Market Fault Response :=
  ⟨Market.initial now, []⟩

/-! ## A deployment to run -/

def sampleApp : Deployment where
  storageProvider := "cloudinary"
  storageBucket := "market"
  cloudinaryCloudName := "market"
  search :=
    { ilike := fun text pattern => "%" ++ text ++ "%" = pattern
      matchesQuery := fun _ _ => true
      collates := fun text other => text ≤ other }

/-- The database answers and ties stay in the order of the ids. -/
def calmDraw : Draw := ⟨false, "00", none, id⟩

end MarketPlace.Trade
