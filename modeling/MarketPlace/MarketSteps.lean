import MarketPlace.ChatService

/-!
# What one action of a request can do to the market

Every action of every handler is one of the steps listed here, each with what
the acting request must know for it.  Products and their images change only at
the commit of a transaction that holds the product's lock, and the
transactions come in few shapes.
-/

namespace MarketPlace.Trade

open EventLog Interleaving Relational

/-! ## What every write keeps -/

structure FileKept (row row' : FileRow) : Prop where
  purpose : row'.purpose = row.purpose
  uploader : row'.uploaderUserId = row.uploaderUserId
  uploaded : row.status = .uploaded → row'.status = .uploaded

structure MessageKept (row row' : MessageRow) : Prop where
  conversation : row'.conversationId = row.conversationId
  sender : row'.senderId = row.senderId
  text : row'.messageText = row.messageText
  sentAt : row'.sentAt = row.sentAt
  read : ∀ time, row.readAt = some time → row'.readAt = some time

def ProductKept (row row' : ProductRow) : Prop := row'.ownerId = row.ownerId

def ConversationKept (row row' : ConversationRow) : Prop := row'.pair = row.pair

theorem FileKept.refl (row : FileRow) : FileKept row row := ⟨rfl, rfl, id⟩

theorem FileKept.trans {row row' row'' : FileRow}
    (h : FileKept row row') (h' : FileKept row' row'') : FileKept row row'' :=
  ⟨h'.purpose.trans h.purpose, h'.uploader.trans h.uploader,
    fun hup => h'.uploaded (h.uploaded hup)⟩

theorem MessageKept.refl (row : MessageRow) : MessageKept row row :=
  ⟨rfl, rfl, rfl, rfl, fun _ => id⟩

theorem MessageKept.trans {row row' row'' : MessageRow}
    (h : MessageKept row row') (h' : MessageKept row' row'') :
    MessageKept row row'' :=
  ⟨h'.conversation.trans h.conversation, h'.sender.trans h.sender,
    h'.text.trans h.text, h'.sentAt.trans h.sentAt,
    fun time hread => h'.read time (h.read time hread)⟩

theorem ProductKept.refl (row : ProductRow) : ProductKept row row := rfl

theorem ProductKept.trans {row row' row'' : ProductRow}
    (h : ProductKept row row') (h' : ProductKept row' row'') :
    ProductKept row row'' := Eq.trans h' h

theorem ConversationKept.refl (row : ConversationRow) :
    ConversationKept row row := rfl

theorem ConversationKept.trans {row row' row'' : ConversationRow}
    (h : ConversationKept row row') (h' : ConversationKept row' row'') :
    ConversationKept row row'' := Eq.trans h' h

structure Database.Grows (db db' : Database) : Prop where
  users : db.users.Keeps (fun _ _ => True) db'.users
  files : db.files.Keeps FileKept db'.files
  products : db.products.Keeps ProductKept db'.products
  conversations : db.conversations.Keeps ConversationKept db'.conversations
  messages : db.messages.Keeps MessageKept db'.messages

namespace Database.Grows

theorem refl (db : Database) : db.Grows db where
  users := Table.Keeps.refl (fun _ => trivial) _
  files := Table.Keeps.refl FileKept.refl _
  products := Table.Keeps.refl ProductKept.refl _
  conversations := Table.Keeps.refl ConversationKept.refl _
  messages := Table.Keeps.refl MessageKept.refl _

theorem trans {db db' db'' : Database} (h : db.Grows db')
    (h' : db'.Grows db'') : db.Grows db'' where
  users := h.users.trans (fun _ _ => trivial) h'.users
  files := h.files.trans FileKept.trans h'.files
  products := h.products.trans ProductKept.trans h'.products
  conversations := h.conversations.trans ConversationKept.trans h'.conversations
  messages := h.messages.trans MessageKept.trans h'.messages

end Database.Grows

theorem Database.grows_apply (db : Database) (change : Change) :
    db.Grows (db.apply change) := by
  have hsame := Database.Grows.refl db
  cases change with
  | insertProduct row =>
      exact { hsame with products := Table.keeps_insert ProductKept.refl _ _ }
  | updateProduct | deleteProduct | updateProductStatus =>
      exact { hsame with
        products := Table.keeps_modify ProductKept.refl _ (by intro; rfl)
          fun _ _ => rfl }
  | ownFiles productId fileIds now =>
      exact { hsame with
        files := Table.keeps_modify FileKept.refl _ (by intro; rfl)
          fun _ _ => ⟨rfl, rfl, id⟩ }
  | insertFile row =>
      exact { hsame with files := Table.keeps_insert FileKept.refl _ _ }
  | markUploaded fileId checksumSha256 now =>
      exact { hsame with
        files := Table.keeps_modify FileKept.refl _ (by intro; rfl)
          fun _ _ => ⟨rfl, rfl, fun _ => rfl⟩ }
  | updateProfile | deleteUser =>
      exact { hsame with
        users := Table.keeps_modify (fun _ => trivial) _ (by intro; rfl)
          fun _ _ => trivial }
  | insertUser row =>
      exact { hsame with users := Table.keeps_insert (fun _ => trivial) _ _ }
  | insertConversation row =>
      exact { hsame with
        conversations := Table.keeps_insert ConversationKept.refl _ _ }
  | setConversationProduct | setLastMessage =>
      exact { hsame with
        conversations :=
          Table.keeps_modify ConversationKept.refl _ (by intro; rfl)
            fun _ _ => rfl }
  | insertMessage row =>
      exact { hsame with messages := Table.keeps_insert MessageKept.refl _ _ }
  | markRead messageId now =>
      refine { hsame with
        messages := Table.keeps_modify MessageKept.refl _ (by intro; rfl)
          fun row _ => ?_ }
      refine ⟨rfl, rfl, rfl, rfl, fun time hread => ?_⟩
      rw [hread, Option.some_or]
  | _ =>
      exact ⟨hsame.users, hsame.files, hsame.products, hsame.conversations,
        hsame.messages⟩

theorem Database.grows_settle (db : Database) (changes : List Change) :
    db.Grows (schema.settle changes db) :=
  ReadCommitted.Store.settle_preserves schema
    (fun change _ data hdata => hdata.trans (data.grows_apply change))
    (Database.Grows.refl db)

/-! ## The products that a write touches -/

/-- The products whose row or images a write changes. -/
def Change.products : Change → List ℕ
  | .insertProduct row => [row.id]
  | .updateProduct productId _ _ | .deleteProduct productId _
  | .updateProductStatus productId _ _ | .deleteProductImages productId =>
      [productId]
  | .insertProductImages rows => rows.map ProductImageRow.productId
  | _ => []

/-- Writes that run inside of a transaction. -/
def Change.transactional : Change → Bool
  | .insertProduct _ | .updateProduct _ _ _ | .deleteProduct _ _
  | .updateProductStatus _ _ _ | .deleteProductImages _
  | .insertProductImages _ | .ownFiles _ _ _ => true
  | _ => false

/-- A write that touches a product needs the product's lock. -/
def Change.Needs (change : Change) (lock : RowLock) : Prop :=
  ∃ productId ∈ change.products, lock = .product productId

theorem Change.products_of_alone {change : Change}
    (halone : change.transactional = false) : change.products = [] := by
  cases change <;> first | rfl | contradiction

theorem Database.imagesOf_insert_of_ne
    {table : Table ProductImageRow.key} {row : ProductImageRow} {productId : ℕ}
    (hne : row.productId ≠ productId) :
    (table.insert row).rows.filter (fun row => row.productId = productId) =
      table.rows.filter fun row => row.productId = productId := by
  rw [Table.rows_insert]
  split
  · rw [List.filter_append]
    simp [hne]
  · rfl

/-- What a product's row and images are. -/
def Database.productState (db : Database) (productId : ℕ) :
    Option ProductRow × List ProductImageRow :=
  (db.products.get productId, db.imagesOf productId)

theorem Database.productState_apply_of_untouched
    {db : Database} {change : Change} {productId : ℕ}
    (huntouched : productId ∉ change.products) :
    (db.apply change).productState productId = db.productState productId := by
  cases change with
  | insertProduct row =>
      have hne : row.id ≠ productId := by
        rintro rfl
        exact huntouched List.mem_cons_self
      simp [productState, imagesOf, apply, Table.get_insert_of_ne hne]
  | updateProduct other | deleteProduct other | updateProductStatus other =>
      have hne : productId ≠ other := by simpa [Change.products] using huntouched
      simp only [productState, imagesOf, apply, Prod.mk.injEq, and_true]
      refine Table.get_modify_of_untouched fun row hrow => ?_
      simpa [hrow] using hne
  | deleteProductImages other =>
      have hne : productId ≠ other := by simpa [Change.products] using huntouched
      simp only [productState, imagesOf, apply, Prod.mk.injEq, true_and,
        Table.filter, List.filter_filter]
      refine List.filter_congr fun row _ => ?_
      by_cases hrow : row.productId = productId
      · simp [hrow, hne]
      · simp [hrow]
  | insertProductImages rows =>
      simp only [productState, imagesOf, apply, Prod.mk.injEq, true_and]
      generalize db.productImages = table
      induction rows generalizing table with
      | nil => rfl
      | cons row rest ih =>
          simp only [Change.products, List.map_cons, List.mem_cons,
            not_or] at huntouched
          rw [Table.insertAll_cons, ih huntouched.2,
            imagesOf_insert_of_ne (Ne.symm huntouched.1)]
  | _ => rfl

theorem Database.productState_settle_of_untouched
    {db : Database} {changes : List Change} {productId : ℕ}
    (huntouched : ∀ change ∈ changes, productId ∉ change.products) :
    (schema.settle changes db).productState productId =
      db.productState productId :=
  ReadCommitted.Store.settle_preserves schema
    (fun change hchange data
        (hdata : data.productState productId = db.productState productId) =>
      (productState_apply_of_untouched (huntouched change hchange)).trans hdata)
    rfl

/-! ## What the history determines -/

def Event.effect (event : Event) (db : Database) : Database :=
  match event with
  | .wrote _ _ change => db.apply change
  | .elsewhere change => db.apply change
  | _ => db

/-- The data after a history that began with `opened`. -/
def stored (opened : Database) (history : List Event) : Database :=
  replay Event.effect opened history

@[simp] theorem stored_nil (opened : Database) : stored opened [] = opened := rfl

@[simp] theorem stored_cons
    (opened : Database) (event : Event) (history : List Event) :
    stored opened (event :: history) = event.effect (stored opened history) :=
  rfl

/-- Who made a write, or tried to. -/
def Event.actor : Event → Option ℕ
  | .wrote actor _ _ | .rejected actor _ | .lost actor _ => some actor
  | .elsewhere _ => none

theorem stored_flush
    (opened : Database) (i now : ℕ) (changes : List Change)
    (history : List Event) :
    stored opened (Market.flush i now changes history) =
      schema.settle changes (stored opened history) := by
  induction changes generalizing history with
  | nil => rfl
  | cons change rest ih => exact ih (.wrote i now change :: history)

theorem flush_eq
    (i now : ℕ) (changes : List Change) (history : List Event) :
    Market.flush i now changes history =
      (changes.map fun change => Event.wrote i now change).reverse ++
        history := by
  induction changes generalizing history with
  | nil => rfl
  | cons change rest ih =>
      simp only [Market.flush, List.foldl_cons, List.map_cons,
        List.reverse_cons, List.append_assoc]
      exact ih _

theorem suffix_flush
    (i now : ℕ) (changes : List Change) (history : List Event) :
    history <:+ Market.flush i now changes history :=
  flush_eq i now changes history ▸ List.suffix_append _ _

/-! ## The transactions on products -/

/-- A file that a user has uploaded for a purpose. -/
def FileRow.UploadedFor
    (purpose : FilePurpose) (user : ℕ) (row : FileRow) : Prop :=
  row.purpose = purpose ∧ row.uploaderUserId = some user ∧
    row.status = .uploaded

theorem FileRow.UploadedFor.kept {purpose : FilePurpose} {user : ℕ}
    {row row' : FileRow} (h : row.UploadedFor purpose user)
    (hkept : FileKept row row') : row'.UploadedFor purpose user :=
  ⟨hkept.purpose.trans h.1, hkept.uploader.trans h.2.1, hkept.uploaded h.2.2⟩

/-- The rows that link a product's images to files of its owner. -/
structure ImageLinks
    (user productId : ℕ) (db : Database) (rows : List ProductImageRow) :
    Prop where
  product : ∀ row ∈ rows, row.productId = productId
  order : rows.map ProductImageRow.sortOrder = List.range rows.length
  files : ∀ row ∈ rows, ∃ file, db.files.get row.fileId = some file ∧
    file.UploadedFor .productImage user

/-- What `syncProductImages` can have queued when it is done. -/
inductive ImageSync (user productId : ℕ) (db : Database) : List Change → Prop
  | untouched : ImageSync user productId db []
  | cleared : ImageSync user productId db [.deleteProductImages productId]
  | replaced (rows : List ProductImageRow) (now : ℕ)
      (hlinks : ImageLinks user productId db rows) :
      ImageSync user productId db
        [.deleteProductImages productId, .insertProductImages rows,
          .ownFiles productId (rows.map ProductImageRow.fileId) now]

/-- The category is one of the taxonomy's, and the subcategory one of the
category's own. -/
structure InTaxonomy (category : String) (subcategory : Option String) : Prop
    where
  listed : category ∈ productCategories
  own : ∀ name, subcategory = some name →
    name ∈ categoryToSubcategories category ∧ name ≠ "all"

def ProductRow.Classified (row : ProductRow) : Prop :=
  InTaxonomy row.category row.subcategory

/-- The product is there, not deleted, and the user's. -/
def Database.Owns (db : Database) (user productId : ℕ) : Prop :=
  ∃ row, db.products.get productId = some row ∧ row.ownerId = user ∧
    row.deletedAt = none

/-- The queues that a transaction on a product commits. -/
inductive ProductTransaction (user : ℕ) (m : Market) : List Change → Prop
  | created (row : ProductRow) (sync : List Change)
      (hfree : m.db.products.get row.id = none)
      (hid : row.id < m.ids.products) (howner : row.ownerId = user)
      (hclassified : row.Classified)
      (hsync : ImageSync user row.id m.db sync) :
      ProductTransaction user m (.insertProduct row :: sync)
  | updated (productId now : ℕ) (patch : ProductPatch) (sync : List Change)
      (howns : m.db.Owns user productId)
      (hclassified : ∀ row, m.db.products.get productId = some row →
        (row.patched patch now).Classified)
      (hsync : ImageSync user productId m.db sync) :
      ProductTransaction user m (.updateProduct productId patch now :: sync)
  | deleted (productId now : ℕ) (howns : m.db.Owns user productId) :
      ProductTransaction user m [.deleteProduct productId now]
  | statusUpdated (productId : ℕ) (status : ProductStatus) (now : ℕ)
      (howns : m.db.Owns user productId) :
      ProductTransaction user m [.updateProductStatus productId status now]

theorem ImageSync.transactional {user productId : ℕ} {db : Database}
    {sync : List Change} (h : ImageSync user productId db sync) :
    ∀ change ∈ sync, change.transactional = true := by
  cases h <;> simp [Change.transactional]

theorem ProductTransaction.transactional {user : ℕ} {m : Market}
    {changes : List Change} (h : ProductTransaction user m changes) :
    ∀ change ∈ changes, change.transactional = true := by
  cases h with
  | created row sync hfree hid howner hclassified hsync =>
      exact List.forall_mem_cons.mpr ⟨rfl, hsync.transactional⟩
  | updated productId now patch sync howns hclassified hsync =>
      exact List.forall_mem_cons.mpr ⟨rfl, hsync.transactional⟩
  | deleted => simp [Change.transactional]
  | statusUpdated => simp [Change.transactional]

/-! ## Steps -/

/-- What the market must show for a user's statement outside of a
transaction. -/
def Change.Offered (user : ℕ) (change : Change) (m : Market) : Prop :=
  match change with
  | .insertFile row => row.id = m.ids.files
  | .updateProfile userId patch _ =>
      userId = user ∧ ∀ fileId, patch.setsAvatarFileId = true →
        patch.avatarFileId = some fileId →
          ∃ file, m.db.files.get fileId = some file ∧
            file.UploadedFor .avatar user
  | .insertConversation row =>
      row.id = m.ids.conversations ∧ row.lastMessageId = none ∧
        (row.userAId = user ∨ row.userBId = user)
  | .insertMessage row =>
      row.id = m.ids.messages ∧ row.senderId = user ∧ row.readAt = none ∧
        ∃ conversation,
          m.db.conversations.get row.conversationId = some conversation ∧
            (conversation.userAId = user ∨ conversation.userBId = user)
  | .markRead messageId _ =>
      ∃ row conversation, m.db.messages.get messageId = some row ∧
        m.db.conversations.get row.conversationId = some conversation ∧
          (conversation.userAId = user ∨ conversation.userBId = user) ∧
            row.senderId ≠ user
  | .setLastMessage conversationId messageId =>
      ∃ row, m.db.messages.get messageId = some row ∧
        row.conversationId = conversationId
  | .insertUser _ | .deleteUser _ _ => False
  | _ => True

/-- The statement that a write is. -/
inductive ChangeKind where
  | insertProduct
  | updateProduct
  | deleteProduct
  | updateProductStatus
  | deleteProductImages
  | insertProductImages
  | ownFiles
  | insertFile
  | markUploaded
  | updateProfile
  | insertFavorite
  | deleteFavorite
  | upsertRating
  | insertBlock
  | deleteBlock
  | insertConversation
  | setConversationProduct
  | setLastMessage
  | insertMessage
  | markRead
  | insertUser
  | deleteUser
  deriving DecidableEq, Repr

def Change.kind : Change → ChangeKind
  | .insertProduct _ => .insertProduct
  | .updateProduct _ _ _ => .updateProduct
  | .deleteProduct _ _ => .deleteProduct
  | .updateProductStatus _ _ _ => .updateProductStatus
  | .deleteProductImages _ => .deleteProductImages
  | .insertProductImages _ => .insertProductImages
  | .ownFiles _ _ _ => .ownFiles
  | .insertFile _ => .insertFile
  | .markUploaded _ _ _ => .markUploaded
  | .updateProfile _ _ _ => .updateProfile
  | .insertFavorite _ => .insertFavorite
  | .deleteFavorite _ _ => .deleteFavorite
  | .upsertRating _ => .upsertRating
  | .insertBlock _ => .insertBlock
  | .deleteBlock _ => .deleteBlock
  | .insertConversation _ => .insertConversation
  | .setConversationProduct _ _ => .setConversationProduct
  | .setLastMessage _ _ => .setLastMessage
  | .insertMessage _ => .insertMessage
  | .markRead _ _ => .markRead
  | .insertUser _ => .insertUser
  | .deleteUser _ _ => .deleteUser

/-- Who a request is authenticated as and which statements it has. -/
structure Rights where
  user : Option ℕ
  writes : List ChangeKind

/-- The statements of `syncProductImages`. -/
def syncWrites : List ChangeKind :=
  [.deleteProductImages, .insertProductImages, .ownFiles]

def Request.writes : Request → List ChangeKind
  | .createProduct _ _ => .insertProduct :: syncWrites
  | .updateProduct _ _ _ => .updateProduct :: syncWrites
  | .deleteProduct _ _ => [.deleteProduct]
  | .updateProductStatus _ _ _ => [.updateProductStatus]
  | .createUploadIntent _ _ => [.insertFile]
  | .markUploaded _ _ _ => [.markUploaded]
  | .updateMe _ _ => [.updateProfile]
  | .addFavorite _ _ => [.insertFavorite]
  | .removeFavorite _ _ => [.deleteFavorite]
  | .blockUser _ _ => [.insertBlock]
  | .unblockUser _ _ => [.deleteBlock]
  | .rateUser _ _ _ => [.upsertRating]
  | .getOrCreateConversation _ _ _ =>
      [.insertConversation, .setConversationProduct]
  | .sendMessage _ _ _ => [.insertMessage, .setLastMessage]
  | .markRead _ _ => [.markRead]
  | _ => []

def Request.rights (request : Request) : Rights :=
  ⟨request.user, request.writes⟩

/-- One action of request `i` with the given rights. -/
inductive Step (rights : Rights) (i : ℕ) (m : Market) : Market → Prop
  | lost (change : Change) (hwrites : change.kind ∈ rights.writes) :
      Step rights i m (m.record (.lost i change))
  | rejected (client : Option Client) (change : Change)
      (violation : Database.Violation)
      (hwrites : change.kind ∈ rights.writes)
      (hviolation :
        (m.viewFor client i).violation change = some violation) :
      Step rights i m ((m.take change).record (.rejected i change))
  | wrote (actor : ℕ) (change : Change) (huser : rights.user = some actor)
      (hwrites : change.kind ∈ rights.writes)
      (halone : change.transactional = false)
      (hunlocked : m.store.unlocked (change.footprint m.db) = true)
      (hviolation : m.db.violation change = none)
      (hoffered : change.Offered actor m) :
      Step rights i m (m.autocommit i change)
  | queued (change : Change) (hwrites : change.kind ∈ rights.writes)
      (htransactional : change.transactional = true)
      (havailable :
        m.store.available i (change.footprint (m.store.view schema i)) = true)
      (hneeded : ∀ lock, change.Needs lock →
        lock ∈ change.footprint (m.store.view schema i) ∨
          m.store.holder lock = some i) :
      Step rights i m (m.enqueue i change)
  | locked (locks : List RowLock)
      (havailable : m.store.available i locks = true) :
      Step rights i m (m.lock i locks)
  | rolledBack : Step rights i m (m.rollback i)
  | committed (actor : ℕ) (huser : rights.user = some actor)
      (htransaction : ProductTransaction actor m (m.store.queue i)) :
      Step rights i m (m.commit i)

/-- An action does nothing or is a step. -/
def Acts (rights : Rights) (i : ℕ) (m m' : Market) : Prop :=
  m' = m ∨ Step rights i m m'

end MarketPlace.Trade
