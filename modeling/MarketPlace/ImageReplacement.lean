import MarketPlace.DeletedSellers
import MarketPlace.ImageStatements
import MarketPlace.LoneServices
import MarketPlace.MediaIntegrity

/-!
# The images of a product are replaced

A product that was created or updated with a list of files has the images of
exactly these files, in the order of the list.  A list with a file that may
not be attached fails the call, which then changes nothing.
-/

namespace MarketPlace.Trade

open Interleaving Relational

variable {i : ℕ} {ws : List Draw} {m t : Market} {user productId : ℕ}
  {imageFileIds : List ℕ} {client : Client}

/-! ## What is asked of the files and of the images -/

/-- The file is there, was uploaded by the user, and is for products. -/
def Database.Attachable (db : Database) (user fileId : ℕ) : Prop :=
  ∃ file, db.files.get fileId = some file ∧
    file.UploadedFor .productImage user

/-- The files, each with its object key. -/
def Database.keysOf (db : Database) (fileIds : List ℕ) :
    List (ℕ × Option String) :=
  fileIds.map fun fileId =>
    (fileId, (db.files.get fileId).map FileRow.objectKey)

/-- The images of the product, in their order, are of these files and have
their object keys, in the rows and where they are read. -/
structure Database.HasImages (db : Database) (productId : ℕ)
    (imageFileIds : List ℕ) : Prop where
  rows : (db.imagesInOrder productId).map
    (fun row => (row.fileId, some row.objectKey)) = db.keysOf imageFileIds
  views : (db.imageViews productId).map
    (fun image => (image.fileId, some image.objectKey)) =
      db.keysOf imageFileIds

/-- Rows with the files' own keys are read with these keys. -/
theorem Database.hasImages_of_rows {db : Database}
    (hrows : (db.imagesInOrder productId).map
      (fun row => (row.fileId, some row.objectKey)) =
        db.keysOf imageFileIds) : db.HasImages productId imageFileIds := by
  refine ⟨hrows, ?_⟩
  rw [imageViews, ← hrows]
  have hkeys : ∀ row ∈ db.imagesInOrder productId,
      (db.files.get row.fileId).map FileRow.objectKey =
        some row.objectKey := by
    intro row hrow
    have hmem : (row.fileId, some row.objectKey) ∈ db.keysOf imageFileIds :=
      hrows ▸ List.mem_map_of_mem hrow
    obtain ⟨fileId, -, hpair⟩ := List.mem_map.mp hmem
    obtain ⟨rfl, hkey⟩ := Prod.mk.inj hpair
    exact hkey
  generalize db.imagesInOrder productId = rows at hkeys
  induction rows with
  | nil => rfl
  | cons row rest ih =>
      have hrest := ih fun other hother =>
        hkeys other (List.mem_cons_of_mem _ hother)
      obtain ⟨file, hfile, hkey⟩ := Option.map_eq_some_iff.mp
        (hkeys row List.mem_cons_self)
      simp only [List.filterMap_cons, hfile, Option.map_some, List.map_cons,
        hrest, hkey]

/-! ## The rows of a replacement -/

theorem Database.imagesInOrder_of_numbered {db : Database}
    {rows : List ProductImageRow} (himages : db.imagesOf productId = rows)
    (horder : rows.map ProductImageRow.sortOrder = List.range rows.length) :
    db.imagesInOrder productId = rows := by
  rw [imagesInOrder, himages]
  refine List.mergeSort_of_pairwise ?_
  have hsorted : (rows.map ProductImageRow.sortOrder).Pairwise (· ≤ ·) := by
    rw [horder]
    exact List.pairwise_le_range
  simpa [List.pairwise_map] using hsorted

/-- A file that passed the checks is found in the batch with its key. -/
theorem Database.objectKey_fileOf {db : Database} {fileId : ℕ}
    (hvalid : imageFileFault user fileId
      (fileOf (db.filesById imageFileIds) fileId) = none) :
    db.Attachable user fileId ∧
      (db.files.get fileId).map FileRow.objectKey =
        some (((fileOf (db.filesById imageFileIds) fileId).map
          FileRow.objectKey).getD "") := by
  obtain ⟨file, hfile, huploaded⟩ := uploadedFor_of_imageFileFault hvalid
  have hget := get_of_fileOf hfile
  refine ⟨⟨file, hget, huploaded⟩, ?_⟩
  rw [hget, hfile]
  rfl

/-- What the three writes of `syncProductImages` make of the data. -/
def Database.replaceImages (db : Database) (productId : ℕ)
    (imageFileIds : List ℕ) (firstId now : ℕ) : Database :=
  ((db.apply (.deleteProductImages productId)).apply
    (.insertProductImages (imageRows productId (db.filesById imageFileIds)
      imageFileIds firstId))).apply (.ownFiles productId imageFileIds now)

theorem Database.keysOf_replaceImages (db : Database) (productId : ℕ)
    (imageFileIds : List ℕ) (firstId now : ℕ) (fileIds : List ℕ) :
    (db.replaceImages productId imageFileIds firstId now).keysOf fileIds =
      db.keysOf fileIds := by
  have hkept : ∀ fileId,
      ((db.replaceImages productId imageFileIds firstId now).files.get
        fileId).map FileRow.objectKey =
          (db.files.get fileId).map FileRow.objectKey := by
    intro fileId
    change ((db.apply (.ownFiles productId imageFileIds now)).files.get
      fileId).map FileRow.objectKey = _
    rw [Database.apply, Table.get_modify, Option.map_map]
    refine congrArg (Option.map · _) (funext fun file => ?_)
    simp only [Function.comp_apply]
    split <;> rfl
  simp only [keysOf, hkept]

theorem Database.keysOf_imageRows {db : Database} {firstId : ℕ}
    (hvalid : ∀ fileId ∈ imageFileIds, imageFileFault user fileId
      (fileOf (db.filesById imageFileIds) fileId) = none) :
    (imageRows productId (db.filesById imageFileIds) imageFileIds firstId).map
      (fun row => (row.fileId, some row.objectKey)) =
        db.keysOf imageFileIds := by
  refine List.ext_getElem (by simp [imageRows, keysOf]) fun position h h' => ?_
  have hposition : position < imageFileIds.length := by
    simpa [keysOf] using h'
  have hkey := (objectKey_fileOf (hvalid _ (List.getElem_mem hposition))).2
  simp only [imageRows, keysOf, List.getElem_map, List.getElem_mapIdx, hkey]

/-- After the three writes the product has these images. -/
theorem Database.hasImages_replaceImages {db : Database} {firstId now : ℕ}
    (hvalid : ∀ fileId ∈ imageFileIds, imageFileFault user fileId
      (fileOf (db.filesById imageFileIds) fileId) = none) :
    (db.replaceImages productId imageFileIds firstId now).HasImages productId
      imageFileIds := by
  have hlinks := @imageLinks_imageRows user productId db imageFileIds hvalid
    firstId
  have himages : (db.replaceImages productId imageFileIds firstId now).imagesOf
      productId =
        imageRows productId (db.filesById imageFileIds) imageFileIds firstId :=
    imagesOf_insertProductImages (imagesOf_deleteProductImages productId db)
      hlinks.product hlinks.order
  refine hasImages_of_rows ?_
  rw [imagesInOrder_of_numbered himages hlinks.order, keysOf_imageRows hvalid,
    keysOf_replaceImages]

theorem Database.hasImages_nil {db : Database}
    (hnone : db.imagesOf productId = []) : db.HasImages productId [] := by
  refine hasImages_of_rows ?_
  rw [imagesInOrder_of_numbered hnone rfl]
  rfl

/-! ## The calls run alone -/

theorem ends_assertCategoryPair_ok {category : String}
    {subcategory : Option String} {value : Unit}
    (h : (assertCategoryPair category subcategory false).Ends i ws m
      (.ok value) t) : t = m := by
  rcases assertCategoryPair_cases category subcategory false with
    ⟨hdone, -⟩ | ⟨fault, hfailed⟩
  · rw [hdone] at h
    exact h.2.2
  · rw [hfailed] at h
    exact absurd h not_ends_failed_ok

theorem ends_validateFiles_ok {files : List FileRow} {value : Unit}
    (h : (validateFiles user files imageFileIds).Ends i ws m (.ok value) t) :
    t = m ∧ ∀ fileId ∈ imageFileIds,
      imageFileFault user fileId (fileOf files fileId) = none := by
  rcases validateFiles_cases user files imageFileIds with
    ⟨hdone, hvalid⟩ | ⟨fault, hfailed⟩
  · rw [hdone] at h
    exact ⟨h.2.2, hvalid⟩
  · rw [hfailed] at h
    exact absurd h not_ends_failed_ok

/-- What an answered `syncProductImages` leaves in its transaction. -/
structure SyncedTo (user i productId : ℕ) (imageFileIds : List ℕ)
    (m t : Market) : Prop where
  attachable : ∀ fileId ∈ imageFileIds,
    (m.store.view schema i).Attachable user fileId
  images : (t.store.view schema i).HasImages productId imageFileIds
  products : (t.store.view schema i).products =
    (m.store.view schema i).products

theorem ends_syncProductImages_ok {value : Unit}
    (h : (syncProductImages client user productId imageFileIds).Ends i ws m
      (.ok value) t) : SyncedTo user i productId imageFileIds m t := by
  unfold syncProductImages at h
  obtain ⟨_, _, _, m₁, _, hdelete, hends⟩ := Program.ends_bind_ok.mp h
  obtain rfl := ends_perform_ok hdelete
  have hview := view_enqueue i (.deleteProductImages productId) m
  split at hends
  · next hnone =>
      subst hnone
      obtain ⟨_, _, rfl⟩ := hends
      refine ⟨fun _ h => absurd h List.not_mem_nil, ?_, ?_⟩
      · rw [hview]
        exact Database.hasImages_nil (imagesOf_deleteProductImages _ _)
      · rw [hview]
        rfl
  · obtain ⟨_, hends⟩ := ends_select_bind_ok hends
    obtain ⟨_, _, _, m₂, _, hvalidate, hends⟩ := Program.ends_bind_ok.mp hends
    obtain ⟨rfl, hvalid⟩ := ends_validateFiles_ok hvalidate
    obtain ⟨_, _, _, m₃, _, hinsert, hown⟩ := Program.ends_bind_ok.mp hends
    obtain ⟨_, rfl, _⟩ := ends_run_ok hinsert
    obtain rfl := ends_perform_ok hown
    rw [viewFor_some, hview] at hvalid ⊢
    have hreplaced : ∀ firstId, ((((m.enqueue i
        (.deleteProductImages productId)).enqueue i
          (.insertProductImages (imageRows productId
            (((m.store.view schema i).apply
              (.deleteProductImages productId)).filesById imageFileIds)
            imageFileIds firstId))).enqueue i
          (.ownFiles productId imageFileIds client.startedAt)).store.view
            schema i) =
        (m.store.view schema i).replaceImages productId imageFileIds firstId
          client.startedAt := by
      intro firstId
      rw [view_enqueue, view_enqueue, hview]
      rfl
    refine ⟨fun fileId hmem => (Database.objectKey_fileOf
      (hvalid fileId hmem)).1, ?_, ?_⟩
    · rw [hreplaced]
      exact Database.hasImages_replaceImages hvalid
    · rw [hreplaced]
      rfl

/-- What an answered read of a product shows. -/
theorem ends_fetchProductWithImages_ok {runner : Option Client}
    {viewer : Option ℕ} {value : Option ProductView}
    (h : (fetchProductWithImages runner productId viewer).Ends i ws m
      (.ok value) t) :
    t = m ∧ ((value = none ∧ (m.viewFor runner i).liveProduct productId = none) ∨
      ∃ shown, value = some shown ∧
        (m.viewFor runner i).liveProduct productId = some shown.row ∧
        shown.images = (m.viewFor runner i).imageViews productId) := by
  obtain ⟨_, hends⟩ := ends_select_bind_ok h
  cases hproduct : (m.viewFor runner i).liveProduct productId with
  | none =>
      rw [hproduct] at hends
      obtain ⟨_, hvalue, rfl⟩ := hends
      exact ⟨rfl, .inl ⟨Except.ok.inj hvalue, rfl⟩⟩
  | some row =>
      rw [hproduct] at hends
      obtain ⟨_, hends⟩ := ends_select_bind_ok hends
      split at hends
      · obtain ⟨_, hvalue, rfl⟩ := hends
        exact ⟨rfl, .inr ⟨_, Except.ok.inj hvalue, rfl, rfl⟩⟩
      · obtain ⟨_, hends⟩ := ends_select_bind_ok hends
        obtain ⟨_, hvalue, rfl⟩ := hends
        exact ⟨rfl, .inr ⟨_, Except.ok.inj hvalue, rfl, rfl⟩⟩

/-- What an answered call with these files leaves, and the product it shows. -/
structure ImagesReplaced (user productId : ℕ) (imageFileIds : List ℕ)
    (m t : Market) (shown : ProductView) : Prop where
  attachable : ∀ fileId ∈ imageFileIds, m.db.Attachable user fileId
  id : shown.row.id = productId
  product : t.db.liveProduct productId = some shown.row
  shown : shown.images = t.db.imageViews productId
  images : t.db.HasImages productId imageFileIds

/-- The end of both calls. -/
theorem imagesReplaced_of_ends {n : Market} {viewer : Option ℕ}
    {value : Option ProductView} {fileIds : List ℕ}
    (hattachable : ∀ fileId ∈ fileIds, m.db.Attachable user fileId)
    (hproduct : ((n.store.view schema i).liveProduct productId).isSome = true)
    (himages : (n.store.view schema i).HasImages productId fileIds)
    (h : (fetchProductWithImages (some client) productId viewer).Ends i ws n
      (.ok value) t) :
    ∃ shown, value = some shown ∧
      ImagesReplaced user productId fileIds m (t.commit i) shown := by
  obtain ⟨rfl, ⟨_, hnone⟩ | ⟨shown, rfl, hrow, hviews⟩⟩ :=
    ends_fetchProductWithImages_ok h
  · rw [viewFor_some] at hnone
    rw [hnone] at hproduct
    contradiction
  · refine ⟨shown, rfl, hattachable, ?_, hrow, hviews, himages⟩
    exact Table.key_of_get (Database.liveProduct_eq_some.mp hrow).1

theorem Database.liveProduct_congr {db db' : Database}
    (h : db'.products = db.products) (productId : ℕ) :
    db'.liveProduct productId = db.liveProduct productId := by
  rw [liveProduct, h, liveProduct]

theorem ends_createProduct_ok {dto : CreateProductDto}
    {value : Option ProductView} (hsound : m.Sound)
    (hids : dto.imageFileIds = some imageFileIds)
    (h : (createProduct user dto).Ends i ws m (.ok value) t) :
    ∃ shown, value = some shown ∧
      ImagesReplaced user m.ids.products imageFileIds m t shown := by
  obtain ⟨_, n, hcallback, rfl⟩ := ends_withTransaction_ok h
  obtain ⟨_, _, _, _, _, hcategory, hends⟩ := Program.ends_bind_ok.mp hcallback
  obtain rfl := ends_assertCategoryPair_ok hcategory
  obtain ⟨_, _, insert, _, _, hinsert, hends⟩ := Program.ends_bind_ok.mp hends
  obtain ⟨-, rfl, rfl⟩ := ends_run_ok hinsert
  have hview := view_enqueue i (.insertProduct
    (newProductRow user dto (m.rollback i).ids.products m.now)) (m.rollback i)
  rw [view_rollback] at hview
  have hfree : m.db.products.get m.ids.products = none := by
    refine Option.eq_none_iff_forall_ne_some.mpr fun row hrow => ?_
    exact absurd (hsound.within.products _ row hrow) (Nat.lt_irrefl _)
  have hcreated : (m.db.apply (.insertProduct (newProductRow user dto
      (m.rollback i).ids.products m.now))).liveProduct m.ids.products =
        some (newProductRow user dto (m.rollback i).ids.products m.now) :=
    Database.liveProduct_eq_some.mpr ⟨Table.get_insert_self hfree, rfl⟩
  rw [hids] at hends
  dsimp only at hends
  split at hends
  · next hnone =>
      subst hnone
      refine imagesReplaced_of_ends (fun _ h => absurd h List.not_mem_nil)
        ?_ ?_ hends
      · rw [hview, hcreated]
        rfl
      · rw [hview]
        refine Database.hasImages_nil (List.filter_eq_nil_iff.mpr ?_)
        intro row hrow hid
        have hlinked := hsound.linked row hrow
        rw [of_decide_eq_true hid] at hlinked
        change (m.db.products.get m.ids.products).isSome = true at hlinked
        rw [hfree] at hlinked
        exact absurd hlinked (by decide)
  · obtain ⟨_, _, _, n', _, hsync, hfetch⟩ := Program.ends_bind_ok.mp hends
    have hsynced : SyncedTo user i m.ids.products imageFileIds _ n' :=
      ends_syncProductImages_ok hsync
    refine imagesReplaced_of_ends (fun fileId hmem => ?_) ?_ hsynced.images
      hfetch
    · have hattachable := hsynced.attachable fileId hmem
      rw [hview] at hattachable
      exact hattachable
    · rw [Database.liveProduct_congr hsynced.products, hview, hcreated]
      rfl

theorem ends_assertOwner_ok {value : Unit}
    (h : (assertOwner client user productId).Ends i ws m (.ok value) t) :
    t.store.view schema i = m.store.view schema i ∧
      ((m.store.view schema i).liveProduct productId).isSome = true := by
  obtain ⟨_, _, ownership, m₁, _, hselect, hends⟩ := Program.ends_bind_ok.mp h
  obtain ⟨w, _, haction⟩ := ends_attempt.mp hselect
  split at haction
  · simp at haction
  cases hproduct : (m.store.view schema i).liveProduct productId with
  | none =>
      rw [viewFor_some, hproduct] at haction
      obtain ⟨hanswer, rfl⟩ := Prod.mk.inj (Option.some.inj haction)
      obtain rfl := Except.ok.inj hanswer
      exact absurd hends not_ends_failed_ok
  | some row =>
      rw [viewFor_some, hproduct] at haction
      obtain ⟨-, haction⟩ := Option.ite_none_right_eq_some.mp haction
      obtain ⟨hanswer, rfl⟩ := Prod.mk.inj (Option.some.inj haction)
      obtain rfl := Except.ok.inj hanswer
      dsimp only at hends
      split at hends
      · exact absurd hends not_ends_failed_ok
      · obtain ⟨_, _, rfl⟩ := hends
        exact ⟨rfl, rfl⟩

theorem Database.liveProduct_updateProduct (db : Database)
    (patch : ProductPatch) (now : ℕ) :
    (db.apply (.updateProduct productId patch now)).liveProduct productId =
      (db.liveProduct productId).map (ProductRow.patched patch now) := by
  have hmodified : (db.apply (.updateProduct productId patch now)).products.get
      productId = (db.products.get productId).map fun row =>
        if row.id = productId then row.patched patch now else row := by
    have hget := Table.get_modify db.products
      (fun row => decide (row.id = productId)) (ProductRow.patched patch now)
      (fun _ => rfl) productId
    simp only [decide_eq_true_eq] at hget
    exact hget
  rw [liveProduct, hmodified, liveProduct]
  cases hrow : db.products.get productId with
  | none => rfl
  | some row =>
      have hid : row.id = productId := Table.key_of_get hrow
      cases hdeleted : row.deletedAt <;>
        simp [hid, hdeleted, Option.filter, ProductRow.patched]

theorem ends_updateProduct_ok {dto : UpdateProductDto}
    {value : Option ProductView}
    (hids : dto.imageFileIds = some imageFileIds)
    (h : (updateProduct user productId dto).Ends i ws m (.ok value) t) :
    ∃ shown, value = some shown ∧
      ImagesReplaced user productId imageFileIds m t shown := by
  obtain ⟨_, n, hcallback, rfl⟩ := ends_withTransaction_ok h
  obtain ⟨_, _, _, m₁, _, howner, hends⟩ := Program.ends_bind_ok.mp hcallback
  obtain ⟨hview, hproduct⟩ := ends_assertOwner_ok howner
  rw [view_rollback] at hview hproduct
  obtain ⟨_, hchecked⟩ := ends_select_bind_ok hends
  split at hchecked
  · exact absurd hchecked not_ends_failed_ok
  obtain ⟨_, _, _, _, _, hcategory, hwrites⟩ :=
    Program.ends_bind_ok.mp hchecked
  obtain rfl := ends_assertCategoryPair_ok hcategory
  obtain ⟨_, _, _, _, _, hupdate, himages⟩ := Program.ends_bind_ok.mp hwrites
  obtain rfl := ends_perform_ok hupdate
  rw [hids] at himages
  obtain ⟨_, _, _, n', _, hsync, hfetch⟩ := Program.ends_bind_ok.mp himages
  have hsynced : SyncedTo user i productId imageFileIds _ n' :=
    ends_syncProductImages_ok hsync
  refine imagesReplaced_of_ends (fun fileId hmem => ?_) ?_ hsynced.images hfetch
  · have hattachable := hsynced.attachable fileId hmem
    rw [view_enqueue, hview] at hattachable
    exact hattachable
  · rw [Database.liveProduct_congr hsynced.products, view_enqueue, hview]
    rwa [Database.liveProduct_updateProduct, Option.isSome_map]

/-! ## What a failed call leaves -/

theorem keepsCommitted_assertCategoryPair (category : String)
    (subcategory : Option String) :
    KeepsCommitted (assertCategoryPair category subcategory false) := by
  rcases assertCategoryPair_cases category subcategory false with
    ⟨hdone, -⟩ | ⟨fault, hfailed⟩
  · rw [hdone]
    exact keepsCommitted_done ()
  · rw [hfailed]
    exact keepsCommitted_failed fault

theorem keepsCommitted_syncProductImages (client : Client)
    (user productId : ℕ) (imageFileIds : List ℕ) :
    KeepsCommitted (syncProductImages client user productId imageFileIds) := by
  unfold syncProductImages
  refine (keepsCommitted_perform _ _).bind fun _ => ?_
  split
  · exact keepsCommitted_done ()
  refine (keepsCommitted_select _).bind fun files => ?_
  refine KeepsCommitted.bind ?_ fun _ => (keepsCommitted_run _ _ _).bind fun _ =>
    keepsCommitted_perform _ _
  rcases validateFiles_cases user files imageFileIds with
    ⟨hdone, -⟩ | ⟨fault, hfailed⟩
  · rw [hdone]
    exact keepsCommitted_done ()
  · rw [hfailed]
    exact keepsCommitted_failed fault

theorem keepsCommitted_fetchProductWithImages (runner : Option Client)
    (productId : ℕ) (viewer : Option ℕ) :
    KeepsCommitted (fetchProductWithImages runner productId viewer) := by
  unfold fetchProductWithImages
  refine (keepsCommitted_select _).bind fun product => ?_
  split
  · exact keepsCommitted_done _
  refine (keepsCommitted_select _).bind fun images => ?_
  split
  · exact keepsCommitted_done _
  · exact (keepsCommitted_select _).bind fun _ => keepsCommitted_done _

theorem ends_createProduct_error {dto : CreateProductDto} {fault : Fault}
    (h : (createProduct user dto).Ends i ws m (.error fault) t) :
    t.db = m.db := by
  refine ends_withTransaction_error (fun client => ?_) h
  refine (keepsCommitted_assertCategoryPair _ _).bind fun _ => ?_
  refine (keepsCommitted_run _ _ _).bind fun insert => ?_
  have hfetch := keepsCommitted_fetchProductWithImages (some client) insert.id
    (some user)
  split
  · exact hfetch
  · split
    · exact hfetch
    · exact (keepsCommitted_syncProductImages _ _ _ _).bind fun _ => hfetch

theorem ends_updateProduct_error {dto : UpdateProductDto} {fault : Fault}
    (h : (updateProduct user productId dto).Ends i ws m (.error fault) t) :
    t.db = m.db := by
  refine ends_withTransaction_error (fun client => ?_) h
  have hfetch := keepsCommitted_fetchProductWithImages (some client) productId
    (some user)
  refine KeepsCommitted.bind ?_ fun _ => ?_
  · refine (keepsCommitted_selectProductForUpdate _ _).bind fun ownership => ?_
    split
    · exact keepsCommitted_failed _
    · split
      · exact keepsCommitted_failed _
      · exact keepsCommitted_done _
  refine (keepsCommitted_select _).bind fun current => ?_
  split
  · exact keepsCommitted_failed _
  refine (keepsCommitted_assertCategoryPair _ _).bind fun _ => ?_
  refine (keepsCommitted_perform _ _).bind fun _ => ?_
  split
  · exact hfetch
  · exact (keepsCommitted_syncProductImages _ _ _ _).bind fun _ => hfetch

/-! ## The round trip -/

/-- How a call with these files ends. -/
structure ReplacesOrFails (user productId : ℕ) (imageFileIds : List ℕ)
    (m : Market) (result : Except Fault (Option ProductView)) (t : Market) :
    Prop where
  answered : ∀ value, result = .ok value → ∃ shown, value = some shown ∧
    ImagesReplaced user productId imageFileIds m t shown
  readBack : ∀ value j ws viewer again t', result = .ok value →
    (getProductById productId viewer).Ends j ws t (.ok again) t' →
      (again.images.map fun image => (image.fileId, some image.objectKey)) =
        t.db.keysOf imageFileIds
  refused : (∃ fileId ∈ imageFileIds, ¬ m.db.Attachable user fileId) →
    ∃ fault, result = .error fault
  unchanged : ∀ fault, result = .error fault → t.db = m.db

theorem ImagesReplaced.readBack {shown again : ProductView} {j : ℕ}
    {viewer : Option ℕ} {n : Market}
    (h : ImagesReplaced user productId imageFileIds m t shown)
    (hends : (getProductById productId viewer).Ends j ws t (.ok again) n) :
    (again.images.map fun image => (image.fileId, some image.objectKey)) =
      t.db.keysOf imageFileIds := by
  obtain ⟨_, _, product, _, _, hfetch, hchecked⟩ := Program.ends_bind_ok.mp hends
  obtain ⟨rfl, ⟨rfl, _⟩ | ⟨seen, rfl, _, hviews⟩⟩ :=
    ends_fetchProductWithImages_ok hfetch
  · exact absurd hchecked not_ends_failed_ok
  have hsame : again = seen := by
    dsimp only at hchecked
    split at hchecked
    · exact Except.ok.inj hchecked.2.1
    · obtain ⟨_, hblocked⟩ := ends_select_bind_ok hchecked
      split at hblocked
      · exact absurd hblocked not_ends_failed_ok
      · exact Except.ok.inj hblocked.2.1
  rw [hsame, hviews]
  exact h.images.views

theorem replacesOrFails_of_ok
    {result : Except Fault (Option ProductView)}
    (hok : ∀ value, result = .ok value → ∃ shown, value = some shown ∧
      ImagesReplaced user productId imageFileIds m t shown)
    (herror : ∀ fault, result = .error fault → t.db = m.db) :
    ReplacesOrFails user productId imageFileIds m result t where
  answered := hok
  readBack value j ws viewer again t' hvalue hends := by
    obtain ⟨shown, -, hreplaced⟩ := hok value hvalue
    exact hreplaced.readBack hends
  refused := by
    rintro ⟨fileId, hmem, hbad⟩
    cases hresult : result with
    | error fault => exact ⟨fault, rfl⟩
    | ok value =>
        obtain ⟨shown, -, hreplaced⟩ := hok value hresult
        exact absurd (hreplaced.attachable fileId hmem) hbad
  unchanged := herror

/-- In every reachable market, `createProduct` and `updateProduct` with a list
of files, as their statements are assembled, end in one of two ways, whatever
fails on the way: the product has the images of exactly these files in their
order, which is what the response and later reads show, or the call fails and
nothing has changed.  With a file that is missing, of another purpose, of
another uploader or not uploaded, it is the second. -/
theorem images_replaced_or_unchanged {app : Deployment} {now : ℕ}
    {pool : Pool Request Draw Market Fault Response}
    (hreach : (market app).Reaches (fun _ _ => True) (Pool.opening now) pool) :
    (∀ (user : ℕ) (dto : CreateProductDto) (imageFileIds : List ℕ) (i : ℕ)
      (ws : List Draw) (result : Except Fault (Option ProductView))
      (t : Market), dto.imageFileIds = some imageFileIds →
      (Assembled.createProduct user dto).Ends i ws pool.state result t →
      ReplacesOrFails user pool.state.ids.products imageFileIds pool.state
        result t) ∧
    ∀ (user productId : ℕ) (dto : UpdateProductDto) (imageFileIds : List ℕ)
      (i : ℕ) (ws : List Draw) (result : Except Fault (Option ProductView))
      (t : Market), dto.imageFileIds = some imageFileIds →
      (Assembled.updateProduct user productId dto).Ends i ws pool.state result
        t →
      ReplacesOrFails user productId imageFileIds pool.state result t := by
  have hsound : pool.state.Sound := (onCourse_of_reaches hreach).invariant
  constructor
  · intro user dto imageFileIds i ws result t hids hends
    rw [Assembled.createProduct_eq] at hends
    refine replacesOrFails_of_ok ?_ ?_
    · rintro value rfl
      exact ends_createProduct_ok hsound hids hends
    · rintro fault rfl
      exact ends_createProduct_error hends
  · intro user productId dto imageFileIds i ws result t hids hends
    rw [Assembled.updateProduct_eq] at hends
    refine replacesOrFails_of_ok ?_ ?_
    · rintro value rfl
      exact ends_updateProduct_ok hids hends
    · rintro fault rfl
      exact ends_updateProduct_error hends

/-- User 1 uploads two files. -/
def uploadsTwo : List (Move Request Draw Surroundings) :=
  [Move.environment (Surroundings.userRegisters "Amina" "+201")] ++
    uploads 0 1 .productImage ++
    uploads 2 2 .productImage

/-- A product with the second file, the first and the second again. -/
def sampleIllustrated : CreateProductDto :=
  { sampleProduct with imageFileIds := some [2, 1, 2] }

theorem images_replaced_illustrated :
    ∃ pool t shown, (market sampleApp).Reaches (fun _ _ => True)
        (Pool.opening 0) pool ∧
      (Assembled.createProduct 1 sampleIllustrated).Ends 4
        (List.replicate 10 calmDraw) pool.state (.ok (some shown)) t ∧
      ImagesReplaced 1 pool.state.ids.products [2, 1, 2] pool.state t shown := by
  obtain ⟨pool, hreach, hcheck⟩ := System.exists_reaches_of_run
    (show ((market sampleApp).run uploadsTwo (Pool.opening 0)).any (fun pool =>
      ((Assembled.createProduct 1 sampleIllustrated).runUnder 4
        (List.replicate 10 calmDraw) pool.state).any fun ended =>
          ended.1.toOption.isSome) = true by decide +kernel)
  obtain ⟨value, t, hends⟩ := ends_ok_of_runUnder hcheck
  obtain ⟨shown, rfl, hreplaced⟩ := ((images_replaced_or_unchanged hreach).1 1
    sampleIllustrated [2, 1, 2] 4 _ _ t rfl hends).answered value rfl
  exact ⟨pool, t, shown, hreach, hends, hreplaced⟩

end MarketPlace.Trade
