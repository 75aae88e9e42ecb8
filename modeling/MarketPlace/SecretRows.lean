import MarketPlace.ConversationTabs
import MarketPlace.DeletedSellers

/-!
# Rows that a user may not see

Some messages have a secret text and some files are secret.  What a user's
queries read of the data is what they read of the data without these, as long
as no row that the user can see leads to a secret one.
-/

namespace MarketPlace.Trade

open Relational

/-! ## Secrets -/

/-- The messages whose text is secret and the files that are, by their ids, and
the keys that secret files are stored under. -/
structure Secrets where
  messages : ℕ → Bool
  files : ℕ → Bool
  objectKeys : String → Bool

variable {secrets : Secrets} {user : ℕ} {db : Database}

/-- The data without the texts of the secret messages and without the secret
files. -/
def Database.without (db : Database) (secrets : Secrets) : Database :=
  { db with
    messages := db.messages.modify (fun row => secrets.messages row.id)
      (fun row => { row with messageText := "" }) fun _ => rfl
    files := db.files.filter fun row => !secrets.files row.id }

/-- No row that the user can see leads to a secret one: the secret messages are
those of conversations of others, and the secret files are no images of a
product and no avatars. -/
structure Secrets.Apart (secrets : Secrets) (user : ℕ) (db : Database) :
    Prop where
  messages : ∀ row ∈ db.messages.rows, secrets.messages row.id = true →
    ∃ conversation, db.conversations.get row.conversationId = some conversation ∧
      ¬ conversation.HasUser user
  lastMessages : ∀ conversation ∈ db.conversations.rows,
    conversation.HasUser user →
      ∀ id, conversation.lastMessageId = some id → secrets.messages id = false
  images : ∀ image ∈ db.productImages.rows, secrets.files image.fileId = false
  avatars : ∀ row ∈ db.users.rows, ∀ id, row.avatarFileId = some id →
    secrets.files id = false
  objectKeys : ∀ row ∈ db.files.rows, secrets.files row.id = true →
    secrets.objectKeys row.objectKey = true

/-- What is left of a message. -/
def Secrets.cover (secrets : Secrets) (row : MessageRow) : MessageRow :=
  if secrets.messages row.id then { row with messageText := "" } else row

@[simp] theorem Secrets.id_cover (row : MessageRow) :
    (secrets.cover row).id = row.id := by
  rw [cover]
  split <;> rfl

@[simp] theorem Secrets.conversationId_cover (row : MessageRow) :
    (secrets.cover row).conversationId = row.conversationId := by
  rw [cover]
  split <;> rfl

@[simp] theorem Secrets.senderId_cover (row : MessageRow) :
    (secrets.cover row).senderId = row.senderId := by
  rw [cover]
  split <;> rfl

@[simp] theorem Secrets.sentAt_cover (row : MessageRow) :
    (secrets.cover row).sentAt = row.sentAt := by
  rw [cover]
  split <;> rfl

@[simp] theorem Secrets.readAt_cover (row : MessageRow) :
    (secrets.cover row).readAt = row.readAt := by
  rw [cover]
  split <;> rfl

theorem Secrets.cover_of_open {row : MessageRow}
    (hopen : secrets.messages row.id = false) : secrets.cover row = row := by
  rw [cover, hopen]
  rfl

/-! ## Files -/

theorem Database.get_files_without {id : ℕ} (hopen : secrets.files id = false) :
    (db.without secrets).files.get id = db.files.get id := by
  have hget : (db.without secrets).files.get id =
      (db.files.get id).filter fun row => !secrets.files row.id :=
    Table.get_filter _ _ _
  rw [hget]
  cases hrow : db.files.get id with
  | none => rfl
  | some row =>
      have hid : row.id = id := Table.key_of_get hrow
      rw [Option.filter_some, hid, hopen]
      rfl

theorem Database.filter_files_without {p : FileRow → Bool}
    (hopen : ∀ row ∈ db.files.rows, p row = true →
      secrets.files row.id = false) :
    (db.without secrets).files.rows.filter p = db.files.rows.filter p := by
  change (db.files.rows.filter _).filter p = _
  rw [List.filter_filter]
  refine List.filter_congr fun row hrow => ?_
  cases hp : p row with
  | false => rfl
  | true =>
      rw [hopen row hrow hp]
      rfl

theorem Database.filesById_without {fileIds : List ℕ}
    (hopen : ∀ id ∈ fileIds, secrets.files id = false) :
    (db.without secrets).filesById fileIds = db.filesById fileIds :=
  filter_files_without fun row _ hrow => hopen row.id (of_decide_eq_true hrow)

namespace Secrets.Apart

variable (h : secrets.Apart user db)

include h

/-! ## Products and profiles -/

theorem fileId_of_mem_imagesInOrder {productId : ℕ} {image : ProductImageRow}
    (hmem : image ∈ db.imagesInOrder productId) :
    secrets.files image.fileId = false := by
  rw [Database.imagesInOrder, List.mem_mergeSort, Database.imagesOf,
    List.mem_filter] at hmem
  exact h.images image hmem.1

theorem imageViews_without (productId : ℕ) :
    (db.without secrets).imageViews productId = db.imageViews productId := by
  refine List.filterMap_congr fun image himage => ?_
  rw [Database.get_files_without (h.fileId_of_mem_imagesInOrder himage)]

theorem fileId_of_mem_imageViews {productId : ℕ} {image : ImageView}
    (hmem : image ∈ db.imageViews productId) :
    secrets.files image.fileId = false := by
  obtain ⟨row, hrow, hview⟩ := List.mem_filterMap.mp hmem
  obtain ⟨file, -, rfl⟩ := Option.map_eq_some_iff.mp hview
  exact h.fileId_of_mem_imagesInOrder hrow

theorem listing_without (isFavorite : Option Bool) (row : ProductRow) :
    (db.without secrets).listing isFavorite row = db.listing isFavorite row := by
  rw [Database.listing, Database.listing, h.imageViews_without]
  rfl

theorem avatarOf_without (app : Deployment) {row : ProfileRow}
    (hrow : row ∈ db.users.rows) :
    avatarOf app (db.without secrets) row = avatarOf app db row := by
  rw [avatarOf, avatarOf]
  cases hid : truthy row.avatarFileId with
  | none => rfl
  | some id =>
      have hsome : row.avatarFileId = some id :=
        (Option.filter_eq_some_iff.mp hid).1
      rw [Option.bind_some, Option.bind_some,
        Database.get_files_without (h.avatars row hrow id hsome)]

/-! ## Conversations -/

end Secrets.Apart

namespace Database

theorem rows_messages_without :
    (db.without secrets).messages.rows =
      db.messages.rows.map secrets.cover := rfl

theorem get_messages_without (id : ℕ) :
    (db.without secrets).messages.get id =
      (db.messages.get id).map secrets.cover :=
  Table.get_modify db.messages (fun row => secrets.messages row.id)
    (fun row => { row with messageText := "" }) (fun _ => rfl) id

theorem messagesOf_without (conversationId : ℕ) :
    (db.without secrets).messagesOf conversationId =
      (db.messagesOf conversationId).map secrets.cover := by
  rw [messagesOf, messagesOf, rows_messages_without, List.filter_map]
  congr 2
  funext row
  simp

theorem lastMessage_without (row : ConversationRow) :
    (db.without secrets).lastMessage row =
      (db.lastMessage row).map secrets.cover := by
  rw [lastMessage, lastMessage]
  cases row.lastMessageId with
  | none => rfl
  | some id => exact get_messages_without id

/-- Whether a message is unread does not depend on its text. -/
theorem unreadCount_without (userId conversationId : ℕ) :
    (db.without secrets).unreadCount userId conversationId =
      db.unreadCount userId conversationId := by
  rw [unreadCount, unreadCount, messagesOf_without, List.filter_map,
    List.length_map]
  congr 2
  funext row
  simp

/-- When a message was sent is no secret. -/
theorem activity_without (row : ConversationRow) :
    (db.without secrets).activity row = db.activity row := by
  rw [activity, activity, lastMessage_without, Option.map_map]
  congr 2
  funext message
  simp

end Database

namespace Secrets.Apart

variable (h : secrets.Apart user db)

include h

theorem lastMessage_open {row : ConversationRow} {message : MessageRow}
    (hrow : row ∈ db.conversations.rows) (huser : row.HasUser user)
    (hlast : db.lastMessage row = some message) :
    secrets.messages message.id = false := by
  obtain ⟨id, hid, hget⟩ := Option.bind_eq_some_iff.mp hlast
  rw [Table.key_of_get hget]
  exact h.lastMessages row hrow huser id hid

theorem lastMessage_without {row : ConversationRow}
    (hrow : row ∈ db.conversations.rows) (huser : row.HasUser user) :
    (db.without secrets).lastMessage row = db.lastMessage row := by
  rw [Database.lastMessage_without]
  cases hlast : db.lastMessage row with
  | none => rfl
  | some message =>
      exact congrArg some
        (Secrets.cover_of_open (h.lastMessage_open hrow huser hlast))

/-- A user sees their own conversations as they are. -/
theorem conversationView_without {row : ConversationRow}
    (hrow : row ∈ db.conversations.rows) (huser : row.HasUser user) :
    (db.without secrets).conversationView user row =
      db.conversationView user row := by
  unfold Database.conversationView
  rw [h.lastMessage_without hrow huser, Database.unreadCount_without]
  rfl

/-- The messages of one's own conversations have no secret texts. -/
theorem messagesOf_without {conversationId : ℕ} {row : ConversationRow}
    (hrow : db.conversations.get conversationId = some row)
    (huser : row.HasUser user) :
    (db.without secrets).messagesOf conversationId =
      db.messagesOf conversationId := by
  rw [Database.messagesOf_without]
  refine (List.map_congr_left fun message hmessage => ?_).trans (List.map_id _)
  obtain ⟨hmem, hconversation⟩ := List.mem_filter.mp hmessage
  rw [decide_eq_true_eq] at hconversation
  refine Secrets.cover_of_open (Bool.eq_false_iff.mpr fun hsecret => ?_)
  obtain ⟨other, hother, hnot⟩ := h.messages message hmem hsecret
  rw [hconversation, hrow] at hother
  exact hnot (Option.some.inj hother ▸ huser)

theorem listMessages_without {conversationId limit : ℕ} {before : Option ℕ}
    {tieRank : ℕ → ℕ} {row : ConversationRow}
    (hrow : db.conversations.get conversationId = some row)
    (huser : row.HasUser user) :
    Database.listMessages conversationId limit before tieRank
        (db.without secrets) =
      Database.listMessages conversationId limit before tieRank db := by
  rw [Database.listMessages, Database.listMessages,
    h.messagesOf_without hrow huser]

theorem listConversations_without (scope : ConversationScope)
    (limit offset : ℕ) (tieRank : ℕ → ℕ) :
    Database.listConversations user scope limit offset tieRank
        (db.without secrets) =
      Database.listConversations user scope limit offset tieRank db := by
  have horder : (db.without secrets).latestActivityFirst tieRank =
      db.latestActivityFirst tieRank := by
    funext row other
    rw [Database.latestActivityFirst, Database.latestActivityFirst,
      Database.activity_without, Database.activity_without]
  unfold Database.listConversations
  rw [horder]
  refine List.filterMap_congr fun row hpaged => ?_
  have hsorted := mem_of_mem_page hpaged
  rw [List.mem_mergeSort, List.mem_filter, List.mem_filter] at hsorted
  obtain ⟨⟨hrow, hlisted⟩, -⟩ := hsorted
  simp only [Database.listsConversation, Bool.and_eq_true, Bool.or_eq_true,
    decide_eq_true_eq] at hlisted
  exact h.conversationView_without hrow (hlisted.1.1.imp Eq.symm Eq.symm)

end Secrets.Apart

/-! ## Writes -/

/-- The write concerns no secret row, and its constraints do not ask for one. -/
def Change.Avoids (secrets : Secrets) : Change → Prop
  | .insertProductImages rows =>
      ∀ row ∈ rows, secrets.files row.fileId = false
  | .ownFiles _ fileIds _ => ∀ id ∈ fileIds, secrets.files id = false
  | .insertFile row =>
      secrets.files row.id = false ∧ secrets.objectKeys row.objectKey = false
  | .markUploaded fileId _ _ => secrets.files fileId = false
  | .updateProfile _ patch _ =>
      ∀ id, patch.avatarFileId = some id → secrets.files id = false
  | .insertConversation row => row.lastMessageId = none
  | .setLastMessage _ _ | .insertMessage _ | .markRead _ _ | .insertUser _
  | .deleteUser _ _ => False
  | _ => True

section Writes

variable {change : Change}

theorem table_eq_of_rows {ρ κ : Type} {key : ρ → κ} {table table' : Table key}
    (h : table.rows = table'.rows) : table = table' := by
  cases table
  cases table'
  cases h
  rfl

theorem any_congr_of_mem {α : Type} {rows : List α} {p q : α → Bool}
    (h : ∀ row ∈ rows, p row = q row) : rows.any p = rows.any q := by
  rw [Bool.eq_iff_iff, List.any_eq_true, List.any_eq_true]
  exact exists_congr fun row => and_congr_right fun hrow => by rw [h row hrow]

/-- An update of files and leaving secret ones out do not get in each other's
way. -/
theorem filter_modify_files (files : Table FileRow.id) (p q : FileRow → Bool)
    (f : FileRow → FileRow) (hkey : ∀ row, (f row).id = row.id)
    (hq : ∀ row, q (f row) = q row) :
    (files.modify p f hkey).filter q = (files.filter q).modify p f hkey := by
  refine table_eq_of_rows ?_
  change (files.rows.map _).filter q = (files.rows.filter q).map _
  rw [List.filter_map]
  congr 2
  funext row
  change q (if p row then f row else row) = q row
  split
  · exact hq row
  · rfl

theorem filter_insert_file (files : Table FileRow.id) (q : FileRow → Bool)
    (row : FileRow) (hrow : q row = true)
    (hq : ∀ other, other.id = row.id → q other = q row) :
    (files.insert row).filter q = (files.filter q).insert row := by
  have hfree : (files.filter q).get row.id = files.get row.id := by
    rw [Table.get_filter]
    cases hget : files.get row.id with
    | none => rfl
    | some other =>
        rw [Option.filter_some, hq other (Table.key_of_get hget), hrow]
        rfl
  refine table_eq_of_rows ?_
  change (files.insert row).rows.filter q = _
  rw [Table.rows_insert, Table.rows_insert, hfree]
  split
  · rw [List.filter_append, List.filter_cons_of_pos hrow]
    rfl
  · rfl

/-- A write that avoids the secrets does the same where they are left out. -/
theorem Change.Avoids.apply_without (h : change.Avoids secrets) :
    (db.without secrets).apply change = (db.apply change).without secrets := by
  cases change with
  | ownFiles productId fileIds now =>
      have hfiles := filter_modify_files db.files
        (fun row => row.id ∈ fileIds) (fun row => !secrets.files row.id)
        (fun row => { row with
          ownerType := .product, ownerId := some productId, updatedAt := now })
        (fun _ => rfl) fun _ => rfl
      simp only [Database.apply, Database.without, ← hfiles]
  | markUploaded fileId checksumSha256 now =>
      have hfiles := filter_modify_files db.files
        (fun row => row.id = fileId) (fun row => !secrets.files row.id)
        (fun row => { row with
          status := .uploaded, uploadedAt := some now,
          checksumSha256 := checksumSha256.or row.checksumSha256,
          updatedAt := now })
        (fun _ => rfl) fun _ => rfl
      simp only [Database.apply, Database.without, ← hfiles]
  | insertFile row =>
      have hfiles := filter_insert_file db.files
        (fun row => !secrets.files row.id) row (by simp [h.1])
        fun other hother => by rw [hother]
      simp only [Database.apply, Database.without, ← hfiles]
  | setLastMessage | insertMessage | markRead | insertUser | deleteUser =>
      exact h.elim
  | _ => rfl

theorem Change.Avoids.violation_without (h : change.Avoids secrets)
    (hapart : secrets.Apart user db) :
    (db.without secrets).violation change = db.violation change := by
  cases change with
  | insertProductImages rows =>
      have hrows : (rows.any fun row =>
          (db.products.get row.productId).isNone ||
            ((db.without secrets).files.get row.fileId).isNone) =
          rows.any fun row =>
            (db.products.get row.productId).isNone ||
              (db.files.get row.fileId).isNone :=
        any_congr_of_mem fun row hrow => by
          rw [Database.get_files_without (h row hrow)]
      exact if_congr (by rw [← hrows]; rfl) rfl rfl
  | insertFile row =>
      have hfiles : ((db.without secrets).files.rows.any fun other =>
          other.storageProvider = row.storageProvider &&
            other.bucket.getD "" = row.bucket.getD "" &&
              other.objectKey = row.objectKey) =
          db.files.rows.any fun other =>
            other.storageProvider = row.storageProvider &&
              other.bucket.getD "" = row.bucket.getD "" &&
                other.objectKey = row.objectKey := by
        change (db.files.rows.filter _).any _ = _
        rw [List.any_filter]
        refine any_congr_of_mem fun other hother => ?_
        cases hsecret : secrets.files other.id with
        | false => simp
        | true =>
            have hkey := hapart.objectKeys other hother hsecret
            have hne : other.objectKey ≠ row.objectKey := by
              intro hsame
              rw [hsame, h.2] at hkey
              contradiction
            simp [hne]
      exact if_congr Iff.rfl rfl (if_congr (by rw [← hfiles]) rfl rfl)
  | updateProfile userId patch now =>
      have hfile : (patch.avatarFileId.any fun fileId =>
          ((db.without secrets).files.get fileId).isNone) =
          patch.avatarFileId.any fun fileId =>
            (db.files.get fileId).isNone := by
        cases hid : patch.avatarFileId with
        | none => rfl
        | some id =>
            rw [Option.any_some, Option.any_some,
              Database.get_files_without (h id hid)]
      exact if_congr (by rw [← hfile]; rfl) rfl rfl
  | setLastMessage | insertMessage | markRead | insertUser | deleteUser =>
      exact h.elim
  | _ => rfl

theorem Change.Avoids.footprint_without (h : change.Avoids secrets) :
    change.footprint (db.without secrets) = change.footprint db := by
  cases change with
  | ownFiles productId fileIds now =>
      exact congrArg (List.map fun row : FileRow => RowLock.file row.id)
        (Database.filter_files_without fun row _ hrow =>
          h row.id (of_decide_eq_true hrow))
  | markUploaded fileId checksumSha256 now =>
      exact congrArg (fun file : Option FileRow => file.toList.map fun row =>
        RowLock.file row.id) (Database.get_files_without h)
  | setLastMessage | insertMessage | markRead | insertUser | deleteUser =>
      exact h.elim
  | _ => rfl

theorem objectKeys_modify {files : Table FileRow.id} {p : FileRow → Bool}
    {f : FileRow → FileRow} (hid : ∀ row, (f row).id = row.id)
    (hkey : ∀ row, (f row).objectKey = row.objectKey)
    (h : ∀ row ∈ files.rows, secrets.files row.id = true →
      secrets.objectKeys row.objectKey = true) :
    ∀ row ∈ (files.modify p f hid).rows, secrets.files row.id = true →
      secrets.objectKeys row.objectKey = true := by
  intro row hrow hsecret
  obtain ⟨old, hold, rfl⟩ := List.mem_map.mp hrow
  cases hp : p old with
  | false =>
      simp only [hp, Bool.false_eq_true, if_false] at hsecret ⊢
      exact h old hold hsecret
  | true =>
      simp only [hp, if_true, hid, hkey] at hsecret ⊢
      exact h old hold hsecret

/-- Such a write leads from no row that the user can see to a secret one. -/
theorem Secrets.Apart.apply (h : secrets.Apart user db)
    (havoids : change.Avoids secrets) :
    secrets.Apart user (db.apply change) := by
  cases change with
  | deleteProductImages productId =>
      exact ⟨h.messages, h.lastMessages,
        fun image himage => h.images image (List.mem_of_mem_filter himage),
        h.avatars, h.objectKeys⟩
  | insertProductImages rows =>
      refine ⟨h.messages, h.lastMessages, fun image himage => ?_, h.avatars,
        h.objectKeys⟩
      rcases Table.mem_insertAll himage with hold | hnew
      · exact h.images image hold
      · exact havoids image hnew
  | updateProfile userId patch now =>
      refine ⟨h.messages, h.lastMessages, h.images, fun row hrow id hid => ?_,
        h.objectKeys⟩
      obtain ⟨old, hold, rfl⟩ := List.mem_map.mp hrow
      split at hid
      · change (if patch.setsAvatarFileId then patch.avatarFileId
          else old.avatarFileId) = some id at hid
        split at hid
        · exact havoids id hid
        · exact h.avatars old hold id hid
      · exact h.avatars old hold id hid
  | insertConversation row =>
      refine ⟨fun message hmessage hsecret => ?_,
        fun conversation hmem huser id hid => ?_, h.images, h.avatars,
        h.objectKeys⟩
      · obtain ⟨conversation, hget, hnot⟩ := h.messages message hmessage hsecret
        exact ⟨conversation, Table.get_insert_of_get hget, hnot⟩
      · rcases Table.mem_insert hmem with hold | rfl
        · exact h.lastMessages conversation hold huser id hid
        · have hnone : conversation.lastMessageId = none := havoids
          rw [hnone] at hid
          contradiction
  | setConversationProduct conversationId productId =>
      refine ⟨fun message hmessage hsecret => ?_,
        fun conversation hmem huser id hid => ?_, h.images, h.avatars,
        h.objectKeys⟩
      · obtain ⟨conversation, hget, hnot⟩ := h.messages message hmessage hsecret
        have hmodified := Table.get_modify db.conversations
          (fun row => row.id = conversationId)
          (fun row => { row with productId := some productId }) (fun _ => rfl)
          message.conversationId
        rw [hget] at hmodified
        refine ⟨_, hmodified, ?_⟩
        dsimp only
        split <;> exact hnot
      · obtain ⟨old, hold, rfl⟩ := List.mem_map.mp hmem
        split at huser <;> split at hid <;>
          exact h.lastMessages old hold huser id hid
  | setLastMessage | insertMessage | markRead | insertUser | deleteUser =>
      exact havoids.elim
  | ownFiles | markUploaded =>
      refine ⟨h.messages, h.lastMessages, h.images, h.avatars, ?_⟩
      apply objectKeys_modify
      case hid | hkey => exact fun _ => rfl
      case h => exact h.objectKeys
  | insertFile row =>
      refine ⟨h.messages, h.lastMessages, h.images, h.avatars,
        fun other hother hsecret => ?_⟩
      rcases Table.mem_insert hother with hold | rfl
      · exact h.objectKeys other hold hsecret
      · rw [havoids.1] at hsecret
        contradiction
  | _ =>
      exact ⟨h.messages, h.lastMessages, h.images, h.avatars, h.objectKeys⟩

end Writes

end MarketPlace.Trade
