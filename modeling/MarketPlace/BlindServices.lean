import MarketPlace.BlindStatements
import MarketPlace.BlockedActions

/-!
# Services that do not look at secrets

What a request of a user does on the market is what it does where the secret
rows are left out, as long as the request names none of them.
-/

namespace MarketPlace.Trade

open Interleaving Relational

variable {β γ : Type} {secrets : Secrets} {user i : ℕ} {allowed : Draw → Prop}

/-! ## Products -/

section Services

variable {app : Deployment}

theorem discreet_assertCategoryPair (category : String)
    (subcategory : Option String) (allowAll : Bool) :
    Discreet secrets user i allowed
      (assertCategoryPair category subcategory allowAll) fun _ => True := by
  unfold assertCategoryPair
  split
  · exact discreet_failed
  · split
    · exact discreet_done trivial
    · split
      · exact discreet_failed
      · split
        · exact discreet_failed
        · exact discreet_done trivial

/-- The view keeps the secrets: no image of the product is a secret file. -/
def ProductView.Keeps (secrets : Secrets) (view : ProductView) : Prop :=
  ∀ image ∈ view.images, secrets.files image.fileId = false

theorem discreet_fetchProductWithImages (client : Option Client)
    (productId : ℕ) (viewer : Option ℕ) :
    Discreet secrets user i allowed
      (fetchProductWithImages client productId viewer)
      fun product => ∀ view, product = some view → view.Keeps secrets := by
  refine (discreet_select_open fun _ => rfl).bind fun product _ => ?_
  cases product with
  | none => exact discreet_done fun _ hview => by contradiction
  | some row =>
      have himages : Discreet secrets user i allowed
          (select client fun db => db.imageViews productId) fun images =>
            ∀ image ∈ images, secrets.files image.fileId = false :=
        discreet_select (fun db hdb => hdb.imageViews_without productId)
          fun db hdb _ => hdb.fileId_of_mem_imageViews
      refine himages.bind fun images hopen => ?_
      split
      · refine discreet_done fun view hview => ?_
        obtain rfl := Option.some.inj hview
        exact hopen
      · refine (discreet_select_open fun _ => rfl).bind fun isFavorite _ => ?_
        refine discreet_done fun view hview => ?_
        obtain rfl := Option.some.inj hview
        exact hopen

theorem discreet_validateFiles (actorUserId : ℕ) (files : List FileRow)
    (fileIds : List ℕ) :
    Discreet secrets user i allowed (validateFiles actorUserId files fileIds)
      fun _ => True := by
  induction fileIds with
  | nil => exact discreet_done trivial
  | cons fileId rest ih =>
      rw [validateFiles]
      split
      · exact discreet_failed
      · exact ih

theorem discreet_syncProductImages (client : Client)
    (actorUserId productId : ℕ) {imageFileIds : List ℕ}
    (hopen : ∀ id ∈ imageFileIds, secrets.files id = false) :
    Discreet secrets user i allowed
      (syncProductImages client actorUserId productId imageFileIds)
      fun _ => True := by
  have hdelete : ∀ now : ℕ,
      (Change.deleteProductImages productId).Avoids secrets := fun _ => trivial
  refine (discreet_perform hdelete).bind fun _ _ => ?_
  split
  · exact discreet_done trivial
  · have hfiles : Discreet secrets user i allowed
        (select (some client) fun db => db.filesById imageFileIds)
        fun _ => True :=
      discreet_select (fun db _ => Database.filesById_without hopen)
        fun _ _ => trivial
    refine hfiles.bind fun files _ => ?_
    refine (discreet_validateFiles _ _ _).bind fun _ _ => ?_
    have hinsert : Discreet secrets user i allowed
        (run (some client) (fun _ ids => .insertProductImages
          (imageRows productId files imageFileIds ids.productImages))
          fun _ _ _ _ => ()) fun _ => True := by
      refine discreet_run (fun m _ row hrow => ?_) (fun _ _ _ _ => rfl)
        fun _ _ _ _ => trivial
      obtain ⟨position, hposition, rfl⟩ := List.mem_mapIdx.mp hrow
      exact hopen _ (List.getElem_mem hposition)
    exact hinsert.bind fun _ _ => discreet_perform fun _ => hopen

theorem discreet_createProduct {dto : CreateProductDto}
    (hopen : ∀ id ∈ dto.imageFileIds.getD [], secrets.files id = false) :
    Discreet secrets user i allowed (createProduct user dto)
      fun product => ∀ view, product = some view → view.Keeps secrets := by
  refine Discreet.withTransaction fun client => ?_
  refine (discreet_assertCategoryPair _ _ _).bind fun _ _ => ?_
  have hinsert : Discreet secrets user i allowed
      (insertReturning (some client)
        (fun now ids => newProductRow user dto ids.products now)
        .insertProduct) fun _ => True :=
    discreet_insertReturning (fun _ _ => trivial) fun _ _ => trivial
  refine hinsert.bind fun row _ => ?_
  have hfetch := @discreet_fetchProductWithImages secrets user i allowed
    (some client) row.id (some user)
  cases hids : dto.imageFileIds with
  | none => exact hfetch
  | some imageFileIds =>
      rw [hids] at hopen
      dsimp only
      split
      · exact hfetch
      · exact (discreet_syncProductImages client user row.id hopen).bind
          fun _ _ => hfetch

theorem discreet_getProductById (productId : ℕ) (viewer : Option ℕ) :
    Discreet secrets user i allowed (getProductById productId viewer)
      (ProductView.Keeps secrets) := by
  refine (discreet_fetchProductWithImages _ _ _).bind fun product hkeeps => ?_
  cases product with
  | none => exact discreet_failed
  | some view =>
      have hview := hkeeps view rfl
      dsimp only
      split
      · exact discreet_done hview
      · refine (discreet_select_open fun _ => rfl).bind fun blocked _ => ?_
        split
        · exact discreet_failed
        · exact discreet_done hview

theorem discreet_assertOwner (client : Client) (actor productId : ℕ) :
    Discreet secrets user i allowed (assertOwner client actor productId)
      fun _ => True := by
  refine (discreet_selectProductForUpdate client productId).bind
    fun ownership _ => ?_
  cases ownership with
  | none => exact discreet_failed
  | some row =>
      dsimp only
      split
      · exact discreet_failed
      · exact discreet_done trivial

theorem discreet_updateProduct {productId : ℕ} {dto : UpdateProductDto}
    (hopen : ∀ id ∈ dto.imageFileIds.getD [], secrets.files id = false) :
    Discreet secrets user i allowed (updateProduct user productId dto)
      fun product => ∀ view, product = some view → view.Keeps secrets := by
  refine Discreet.withTransaction fun client => ?_
  refine (discreet_assertOwner client user productId).bind fun _ _ => ?_
  refine (discreet_select_open fun _ => rfl).bind fun current _ => ?_
  cases current with
  | none => exact discreet_failed
  | some row =>
      refine (discreet_assertCategoryPair _ _ _).bind fun _ _ => ?_
      have hupdate : ∀ now, (Change.updateProduct productId (productPatch dto)
          now).Avoids secrets := fun _ => trivial
      refine (discreet_perform hupdate).bind fun _ _ => ?_
      have hfetch := @discreet_fetchProductWithImages secrets user i allowed
        (some client) productId (some user)
      cases hids : dto.imageFileIds with
      | none => exact hfetch
      | some imageFileIds =>
          rw [hids] at hopen
          exact (discreet_syncProductImages client user productId hopen).bind
            fun _ _ => hfetch

theorem discreet_deleteProduct (actor productId : ℕ) :
    Discreet secrets user i allowed (deleteProduct actor productId)
      fun _ => True := by
  refine Discreet.withTransaction fun client => ?_
  refine (discreet_assertOwner client actor productId).bind fun _ _ => ?_
  have hdelete : ∀ now, (Change.deleteProduct productId now).Avoids secrets :=
    fun _ => trivial
  exact (discreet_perform hdelete).bind fun _ _ => discreet_done trivial

theorem discreet_updateProductStatus (actor productId : ℕ)
    (status : ProductStatus) :
    Discreet secrets user i allowed (updateProductStatus actor productId status)
      fun _ => True := by
  refine Discreet.withTransaction fun client => ?_
  refine (discreet_assertOwner client actor productId).bind fun _ _ => ?_
  exact discreet_run (fun _ _ => trivial) (fun _ _ _ _ => rfl)
    fun _ _ _ _ => trivial

/-! ## Lists of products -/

/-- No image of the listed product is a secret file. -/
def ProductListing.Keeps (secrets : Secrets) (listing : ProductListing) : Prop :=
  ∀ image ∈ listing.images, secrets.files image.fileId = false

theorem Secrets.Apart.listing_eq {db : Database}
    (h : secrets.Apart user db) : (db.without secrets).listing = db.listing := by
  funext isFavorite row
  exact h.listing_without isFavorite row

theorem Secrets.Apart.keeps_listing {db : Database}
    (h : secrets.Apart user db) (isFavorite : Option Bool) (row : ProductRow) :
    (db.listing isFavorite row).Keeps secrets :=
  fun _ => h.fileId_of_mem_imageViews

theorem discreet_assertSearchCategoryPair (category subcategory : Option String) :
    Discreet secrets user i allowed
      (assertSearchCategoryPair category subcategory) fun _ => True := by
  unfold assertSearchCategoryPair
  split
  · exact discreet_assertCategoryPair _ _ _
  · exact discreet_done trivial

theorem discreet_searchProducts (dto : SearchProductsDto)
    (viewer : Option ℕ) :
    Discreet secrets user i allowed (searchProducts app dto viewer)
      fun items => ∀ item ∈ items, item.Keeps secrets := by
  refine (discreet_assertSearchCategoryPair _ _).bind fun _ _ => ?_
  refine discreet_select (fun db hdb => ?_) fun db hdb item hitem => ?_
  · simp only [Database.searchProducts, hdb.listing_eq]
    rfl
  · have hsorted := mem_of_mem_page hitem
    rw [List.mem_mergeSort, List.mem_filter, List.mem_map] at hsorted
    obtain ⟨⟨row, -, rfl⟩, -⟩ := hsorted
    exact hdb.keeps_listing _ row

theorem discreet_listMyProducts (actor : ℕ) (dto : SearchProductsDto)
    (status : Option ProductStatus) :
    Discreet secrets user i allowed (listMyProducts app actor dto status)
      fun items => ∀ item ∈ items, item.Keeps secrets := by
  refine (discreet_assertSearchCategoryPair _ _).bind fun _ _ => ?_
  refine discreet_select (fun db hdb => ?_) fun db hdb item hitem => ?_
  · simp only [Database.listMyProducts, hdb.listing_eq]
    rfl
  · have hsorted := mem_of_mem_page hitem
    rw [List.mem_mergeSort, List.mem_filter, List.mem_map] at hsorted
    obtain ⟨⟨row, -, rfl⟩, -⟩ := hsorted
    exact hdb.keeps_listing _ row

theorem discreet_listFavorites (actor : ℕ) (dto : ListFavoritesDto) :
    Discreet secrets user i allowed (listFavorites actor dto)
      fun items => ∀ item ∈ items, item.Keeps secrets := by
  refine discreet_select (fun db hdb => ?_) fun db hdb item hitem => ?_
  · simp only [Database.listFavorites, Database.favoritesOf, hdb.listing_eq]
    rfl
  · obtain ⟨⟨favorite, listing⟩, hpaged, rfl⟩ := List.mem_map.mp hitem
    have hsorted := mem_of_mem_page hpaged
    rw [List.mem_mergeSort, Database.favoritesOf, List.mem_filterMap] at hsorted
    obtain ⟨_, -, hfavorite⟩ := hsorted
    split at hfavorite
    · obtain ⟨row, -, hlisting⟩ := Option.bind_eq_some_iff.mp hfavorite
      split at hlisting
      · contradiction
      · simp only [Option.some.injEq, Prod.mk.injEq] at hlisting
        obtain ⟨-, rfl⟩ := hlisting
        exact hdb.keeps_listing _ row
    · contradiction

/-! ## Files -/

/-- The bytes drawn for the key of a new file make no secret key. -/
theorem discreet_createUploadIntent {dto : CreateUploadIntentDto}
    {offered : UploadIntent → Prop}
    (hkey : ∀ w now, allowed w →
      secrets.objectKeys (buildObjectKey dto now w.randomHex) = false)
    (hintent : ∀ w intent, allowed w → w.uploadIntent = some intent →
      offered intent) :
    Discreet secrets user i allowed (createUploadIntent app user dto)
      fun view => offered view.upload := by
  refine discreet_currentTime.bind fun time _ => ?_
  have hdraw : Discreet secrets user i allowed (draw Draw.randomHex) fun hex =>
      secrets.objectKeys (buildObjectKey dto time hex) = false :=
    discreet_draw fun w => hkey w time
  refine hdraw.bind fun randomHex hopen => ?_
  have hinsert : Discreet secrets user i allowed
      (insertReturning none
        (fun now ids => newFileRow app user dto
          (buildObjectKey dto time randomHex) ids.files now) .insertFile)
      fun _ => True := by
    refine discreet_insertReturning (fun m hm => ⟨?_, hopen⟩) fun _ _ => trivial
    refine Bool.eq_false_iff.mpr fun hsecret => ?_
    exact Nat.lt_irrefl _ (hm.ids _ hsecret)
  refine hinsert.bind fun row _ => ?_
  have hupload : Discreet secrets user i allowed storageUploadIntent offered := by
    refine discreet_attempt (fun w m hw hm => ?_)
      fun w m outcome t hw hm haction => ?_
    · split <;> rfl
    · split at haction
      · obtain ⟨rfl, rfl⟩ := Prod.mk.inj (Option.some.inj haction)
        exact ⟨hm, fun _ hfails => by contradiction⟩
      · next intent hsome =>
          obtain ⟨rfl, rfl⟩ := Prod.mk.inj (Option.some.inj haction)
          refine ⟨hm, fun value hvalue => ?_⟩
          obtain rfl := Except.ok.inj hvalue
          exact hintent w intent hw hsome
  exact hupload.bind fun intent hoffered => discreet_done hoffered

theorem discreet_selectFile {fileId : ℕ} (hopen : secrets.files fileId = false) :
    Discreet secrets user i allowed
      (select none fun db => db.files.get fileId) fun _ => True :=
  discreet_select (fun _ _ => Database.get_files_without hopen)
    fun _ _ => trivial

theorem discreet_markUploaded {actor fileId : ℕ} {checksum : Option String}
    (hopen : secrets.files fileId = false) :
    Discreet secrets user i allowed (markUploaded actor fileId checksum)
      fun _ => True := by
  refine (discreet_selectFile hopen).bind fun file _ => ?_
  cases file with
  | none => exact discreet_failed
  | some row =>
      dsimp only
      split
      · exact discreet_failed
      · have hmark : ∀ now, (Change.markUploaded fileId checksum now).Avoids
            secrets := fun _ => hopen
        exact (discreet_perform hmark).bind fun _ _ => discreet_done trivial

theorem discreet_getFile {actor fileId : ℕ} {isAdmin : Bool}
    (hopen : secrets.files fileId = false) :
    Discreet secrets user i allowed (getFile app actor isAdmin fileId)
      fun _ => True := by
  refine (discreet_selectFile hopen).bind fun file _ => ?_
  cases file with
  | none => exact discreet_failed
  | some row =>
      dsimp only
      split
      · exact discreet_failed
      · exact discreet_done trivial

/-! ## Profiles -/

theorem Database.liveUser_map_without {δ : Type} {db : Database} {id : ℕ}
    {view : Database → ProfileRow → δ}
    (hview : ∀ row ∈ db.users.rows,
      view (db.without secrets) row = view db row) :
    ((db.without secrets).liveUser id).map (view (db.without secrets)) =
      (db.liveUser id).map (view db) := by
  change (db.liveUser id).map _ = _
  cases hrow : db.liveUser id with
  | none => rfl
  | some row =>
      have hmem := Table.mem_of_get (Option.filter_eq_some_iff.mp hrow).1
      exact congrArg some (hview row hmem)

theorem discreet_getMe (actor : ℕ) :
    Discreet secrets user i allowed (getMe app actor) fun _ => True := by
  have hselect : Discreet secrets user i allowed
      (select none fun db => (db.liveUser actor).map (meView app db))
      fun _ => True := by
    refine discreet_select (fun db hdb => ?_) fun _ _ => trivial
    refine Database.liveUser_map_without fun row hrow => ?_
    rw [meView, meView, hdb.avatarOf_without app hrow]
    rfl
  refine hselect.bind fun query _ => ?_
  cases query with
  | none => exact discreet_failed
  | some view => exact discreet_done trivial

theorem discreet_getPublicProfile (userId : ℕ) (dto : GetPublicUserQueryDto)
    (viewer : Option ℕ) :
    Discreet secrets user i allowed (getPublicProfile app userId dto viewer)
      fun view => ∀ item ∈ view.products, item.Keeps secrets := by
  have hblock : Discreet secrets user i allowed (blockState userId viewer)
      fun _ => True := by
    unfold blockState
    split
    · exact discreet_done trivial
    · exact discreet_select_open fun _ => rfl
  refine hblock.bind fun block _ => ?_
  split
  · exact discreet_failed
  have hselect : Discreet secrets user i allowed
      (select none fun db => (db.liveUser userId).map (publicUserView app db))
      fun _ => True := by
    refine discreet_select (fun db hdb => ?_) fun _ _ => trivial
    refine Database.liveUser_map_without fun row hrow => ?_
    rw [publicUserView, publicUserView, hdb.avatarOf_without app hrow]
    rfl
  refine hselect.bind fun found _ => ?_
  cases found with
  | none => exact discreet_failed
  | some view =>
      have hproducts : Discreet secrets user i allowed
          (selectOrdered none (Database.publicProducts userId viewer dto))
          fun items => ∀ item ∈ items, item.Keeps secrets := by
        refine discreet_selectOrdered (fun tieRank db hdb => ?_)
          fun tieRank db hdb item hitem => ?_
        · simp only [Database.publicProducts, hdb.listing_eq]
          rfl
        · have hsorted := mem_of_mem_page hitem
          rw [List.mem_mergeSort, List.mem_map] at hsorted
          obtain ⟨row, -, rfl⟩ := hsorted
          exact hdb.keeps_listing _ row
      exact hproducts.bind fun products hkeeps => discreet_done hkeeps

theorem discreet_updateMe {actor : ℕ} {dto : UpdateProfileDto}
    (hopen : ∀ id, dto.avatarFileId.join = some id →
      secrets.files id = false) :
    Discreet secrets user i allowed (updateMe app actor dto)
      fun _ => True := by
  unfold updateMe
  split
  · exact discreet_failed
  have hassert : Discreet secrets user i allowed
      (assertAvatarFile actor dto.avatarFileId.join) fun _ => True := by
    cases hid : dto.avatarFileId.join with
    | none => exact discreet_done trivial
    | some fileId =>
        refine (discreet_selectFile (hopen fileId hid)).bind fun file _ => ?_
        split
        · exact discreet_failed
        · exact discreet_done trivial
  refine hassert.bind fun _ _ => ?_
  have hupdate : ∀ now, (Change.updateProfile actor (profilePatch dto)
      now).Avoids secrets := fun now => hopen
  exact (discreet_perform hupdate).bind fun _ _ => discreet_getMe actor

/-! ## Favourites, blocks and ratings -/

theorem discreet_addFavorite (actor productId : ℕ) :
    Discreet secrets user i allowed (addFavorite actor productId)
      fun _ => True := by
  refine (discreet_select_open fun _ => rfl).bind fun product _ => ?_
  cases product with
  | none => exact discreet_failed
  | some row =>
      refine (discreet_select_open fun _ => rfl).bind fun blocked _ => ?_
      split
      · exact discreet_failed
      · have hinsert : ∀ now, (Change.insertFavorite
            ⟨actor, productId, now⟩).Avoids secrets := fun _ => trivial
        exact (discreet_perform hinsert).bind fun _ _ => discreet_done trivial

theorem discreet_removeFavorite (actor productId : ℕ) :
    Discreet secrets user i allowed (removeFavorite actor productId)
      fun _ => True := by
  have hdelete : ∀ now : ℕ,
      (Change.deleteFavorite actor productId).Avoids secrets :=
    fun _ => trivial
  exact (discreet_perform hdelete).bind fun _ _ => discreet_done trivial

theorem discreet_blockUser (actor blockedUserId : ℕ) :
    Discreet secrets user i allowed (blockUser actor blockedUserId)
      fun _ => True := by
  unfold blockUser
  split
  · exact discreet_failed
  refine (discreet_select_open fun _ => rfl).bind fun target _ => ?_
  split
  · exact discreet_failed
  · have hinsert : ∀ now : ℕ,
        (Change.insertBlock ⟨actor, blockedUserId⟩).Avoids secrets :=
      fun _ => trivial
    exact (discreet_perform hinsert).bind fun _ _ => discreet_done trivial

theorem discreet_unblockUser (actor blockedUserId : ℕ) :
    Discreet secrets user i allowed (unblockUser actor blockedUserId)
      fun _ => True := by
  have hdelete : ∀ now : ℕ,
      (Change.deleteBlock ⟨actor, blockedUserId⟩).Avoids secrets :=
    fun _ => trivial
  exact (discreet_perform hdelete).bind fun _ _ => discreet_done trivial

theorem discreet_assertUserExists (userId : ℕ) (label : String) :
    Discreet secrets user i allowed (assertUserExists userId label)
      fun _ => True := by
  refine (discreet_select_open fun _ => rfl).bind fun result _ => ?_
  split
  · exact discreet_failed
  · exact discreet_done trivial

theorem discreet_rateUser (actor ratedUserId ratingValue : ℕ) :
    Discreet secrets user i allowed (rateUser actor ratedUserId ratingValue)
      fun _ => True := by
  unfold rateUser
  split
  · exact discreet_failed
  refine (discreet_assertUserExists _ _).bind fun _ _ => ?_
  refine Discreet.notFoundOnForeignKey ?_ _
  exact discreet_insertReturning (fun _ _ => trivial) fun _ _ => trivial

/-! ## Conversations -/

/-- The conversation is there and the user takes part in it. -/
def Market.Admits (user conversationId : ℕ) (m : Market) : Prop :=
  ∃ row, m.db.conversations.get conversationId = some row ∧ row.HasUser user

/-- Only a participant gets past the check. -/
theorem blind_assertConversationParticipant (conversationId : ℕ) :
    (assertConversationParticipant conversationId user).Blind i allowed
      (Market.without secrets) (Market.Guarded secrets user i)
      fun result m => m.Guarded secrets user i ∧
        (result = .ok () → m.Admits user conversationId) := by
  have hread : (select none fun db =>
        db.conversations.get conversationId).Blind i allowed
      (Market.without secrets) (Market.Guarded secrets user i)
      fun result m => (m.Guarded secrets user i ∧ True) ∧ ∀ value,
        result = .ok value → value = m.db.conversations.get conversationId :=
    (blind_select_where fun _ _ _ => rfl).weaken (fun m hm => ⟨hm, trivial⟩)
      fun _ _ => id
  refine hread.bind (fun query => ?_) fun fault m hm =>
    ⟨hm.1.1, fun hfails => by contradiction⟩
  cases query with
  | none =>
      exact Program.blind_failed fun m hm =>
        ⟨hm.1.1, fun hfails => by contradiction⟩
  | some row =>
      dsimp only
      split
      · exact Program.blind_failed fun m hm =>
          ⟨hm.1.1, fun hfails => by contradiction⟩
      next hfault =>
      have huser := hasUser_of_participantFault hfault
      have hblock : (hasBlockBetweenUsers user (row.peerOf user)).Blind i allowed
          (Market.without secrets)
          (fun m => m.Guarded secrets user i ∧ m.Admits user conversationId)
          fun result m => (m.Guarded secrets user i ∧
            m.Admits user conversationId) ∧ ∀ value, result = .ok value →
              value = m.db.hasBlockBetweenUsers user (row.peerOf user) :=
        blind_select_where fun _ _ _ => rfl
      refine Program.Blind.bind (hblock.weaken (fun m hm =>
        ⟨hm.1.1, row, (hm.2 _ rfl).symm, huser⟩) fun _ _ => id)
        (fun blocked => ?_) fun fault m hm =>
          ⟨hm.1.1, fun hfails => by contradiction⟩
      split
      · exact Program.blind_failed fun m hm =>
          ⟨hm.1.1, fun hfails => by contradiction⟩
      · exact Program.blind_done fun m hm => ⟨hm.1.1, fun _ => hm.1.2⟩

/-- Neither the last message nor the image of the product is secret. -/
def ConversationView.Keeps (secrets : Secrets) (view : ConversationView) :
    Prop :=
  (∀ id, view.lastMessageId = some id → secrets.messages id = false) ∧
    ∀ id, view.productImageFileId = some id → secrets.files id = false

theorem Secrets.Apart.keeps_conversationView {db : Database}
    (h : secrets.Apart user db) {row : ConversationRow}
    (hrow : row ∈ db.conversations.rows) (huser : row.HasUser user)
    {view : ConversationView}
    (hview : db.conversationView user row = some view) :
    view.Keeps secrets := by
  obtain ⟨peer, -, rfl⟩ := Option.map_eq_some_iff.mp hview
  constructor
  · intro id hid
    obtain ⟨message, hlast, rfl⟩ := Option.map_eq_some_iff.mp hid
    exact h.lastMessage_open hrow huser hlast
  · intro id hid
    obtain ⟨image, himage, rfl⟩ := Option.map_eq_some_iff.mp hid
    obtain ⟨product, -, hfirst⟩ := Option.bind_eq_some_iff.mp himage
    exact h.fileId_of_mem_imagesInOrder (List.mem_of_mem_head? hfirst)

theorem discreet_getConversationById (conversationId : ℕ) :
    Discreet secrets user i allowed (getConversationById user conversationId)
      (ConversationView.Keeps secrets) := by
  refine Program.Blind.bind (blind_assertConversationParticipant conversationId)
    (fun _ => ?_) fun fault m hm => ⟨hm.1, fun _ hfails => by contradiction⟩
  have hread : (select none fun db =>
        (db.conversations.get conversationId).bind
          (db.conversationView user)).Blind i allowed
      (Market.without secrets)
      (fun m => m.Guarded secrets user i ∧ m.Admits user conversationId)
      fun result m => (m.Guarded secrets user i ∧
        m.Admits user conversationId) ∧ ∀ value, result = .ok value →
          value = (m.db.conversations.get conversationId).bind
            (m.db.conversationView user) := by
    refine blind_select_where fun m hm hadmits => ?_
    obtain ⟨row, hrow, huser⟩ := hadmits
    change (m.db.conversations.get conversationId).bind _ = _
    rw [hrow]
    exact hm.committed.conversationView_without (Table.mem_of_get hrow) huser
  refine Program.Blind.bind (hread.weaken (fun m hm => ⟨hm.1, hm.2 rfl⟩)
    fun _ _ => id) (fun query => ?_) fun fault m hm =>
      ⟨hm.1.1, fun _ hfails => by contradiction⟩
  cases query with
  | none =>
      exact Program.blind_failed fun m hm =>
        ⟨hm.1.1, fun _ hfails => by contradiction⟩
  | some view =>
      refine Program.blind_done fun m hm => ⟨hm.1.1, fun other hother => ?_⟩
      obtain rfl := Except.ok.inj hother
      obtain ⟨row, hrow, huser⟩ := hm.1.2
      have hview := (hm.2 _ rfl).symm
      rw [hrow] at hview
      exact hm.1.1.committed.keeps_conversationView (Table.mem_of_get hrow)
        huser hview

theorem discreet_listMessages (conversationId limit : ℕ)
    (before : Option ℕ) :
    Discreet secrets user i allowed
      (listMessages user conversationId limit before) fun _ => True := by
  refine Program.Blind.bind (blind_assertConversationParticipant conversationId)
    (fun _ => ?_) fun fault m hm => ⟨hm.1, fun _ hfails => by contradiction⟩
  have hread : (selectOrdered none
        (Database.listMessages conversationId limit before)).Blind i allowed
      (Market.without secrets)
      (fun m => m.Guarded secrets user i ∧ m.Admits user conversationId)
      fun result m => (m.Guarded secrets user i ∧
        m.Admits user conversationId) ∧ ∀ value, result = .ok value →
          ∃ tieRank, value =
            Database.listMessages conversationId limit before tieRank m.db := by
    refine blind_selectOrdered_where fun tieRank m hm hadmits => ?_
    obtain ⟨row, hrow, huser⟩ := hadmits
    exact hm.committed.listMessages_without hrow huser
  refine Program.Blind.bind (hread.weaken (fun m hm => ⟨hm.1, hm.2 rfl⟩)
    fun _ _ => id) (fun query => ?_) fun fault m hm =>
      ⟨hm.1.1, fun _ hfails => by contradiction⟩
  exact Program.blind_done fun m hm => ⟨hm.1.1, fun _ _ => trivial⟩

theorem discreet_listConversations (scope : ConversationScope)
    (limit offset : ℕ) :
    Discreet secrets user i allowed (listConversations user scope limit offset)
      fun views => ∀ view ∈ views, view.Keeps secrets := by
  refine discreet_selectOrdered
    (fun tieRank db hdb => hdb.listConversations_without scope limit offset
      tieRank) fun tieRank db hdb view hview => ?_
  obtain ⟨row, hpaged, hrow⟩ := List.mem_filterMap.mp hview
  have hsorted := mem_of_mem_page hpaged
  rw [List.mem_mergeSort, List.mem_filter, List.mem_filter] at hsorted
  obtain ⟨⟨hmem, hlisted⟩, -⟩ := hsorted
  simp only [Database.listsConversation, Bool.and_eq_true, Bool.or_eq_true,
    decide_eq_true_eq] at hlisted
  exact hdb.keeps_conversationView hmem (hlisted.1.1.imp Eq.symm Eq.symm) hrow

theorem discreet_getOrCreateConversation (participantId : ℕ)
    (productId : Option ℕ) :
    Discreet secrets user i allowed
      (getOrCreateConversation user participantId productId)
      (ConversationView.Keeps secrets) := by
  unfold getOrCreateConversation
  split
  · exact discreet_failed
  refine (discreet_assertUserExists _ _).bind fun _ _ => ?_
  refine (discreet_select_open fun _ => rfl).bind fun blocked _ => ?_
  split
  · exact discreet_failed
  have hproduct : Discreet secrets user i allowed
      (validateProduct user participantId productId) fun _ => True := by
    unfold validateProduct
    split
    · exact discreet_done trivial
    · refine (discreet_select_open fun _ => rfl).bind fun product _ => ?_
      split
      · exact discreet_failed
      · exact discreet_done trivial
  refine hproduct.bind fun validatedProductId _ => ?_
  refine (discreet_select_open fun _ => rfl).bind fun existing _ => ?_
  cases existing with
  | some conversation =>
      have hbackfill : Discreet secrets user i allowed
          (backfillProduct conversation validatedProductId) fun _ => True := by
        unfold backfillProduct
        split
        · exact discreet_done trivial
        · next productId =>
            split
            · exact discreet_done trivial
            · have hset : ∀ now : ℕ, (Change.setConversationProduct
                  conversation.id productId).Avoids secrets := fun _ => trivial
              exact discreet_perform hset
      exact hbackfill.bind fun _ _ => discreet_getConversationById _
  | none =>
      have hopened : Discreet secrets user i allowed
          (openConversation (orderedPair user participantId)
            validatedProductId) fun _ => True := by
        refine Discreet.notFoundOnForeignKey ?_ _
        refine discreet_insertReturning (fun m hm => ?_) fun _ _ => trivial
        rfl
      exact hopened.bind fun row _ => discreet_getConversationById _

end Services

end MarketPlace.Trade
