import MarketPlace.ProductAuthority

/-!
# Images and avatars

Every image of a product is an uploaded product image of the product's owner,
the images of a product are numbered without gaps, and every avatar is an
uploaded avatar of its user.  The checks are made when a file is attached; the
invariant lasts because nothing that they look at ever changes back.
-/

namespace MarketPlace.Trade

open Interleaving Relational

variable {app : Deployment}

/-! ## The invariant -/

/-- The image is of a product that is there, and of a file that the product's
owner has uploaded as a product image. -/
def ProductImageRow.Fits (row : ProductImageRow) (db : Database) : Prop :=
  ∃ product file, db.products.get row.productId = some product ∧
    db.files.get row.fileId = some file ∧
      file.UploadedFor .productImage product.ownerId

/-- The sort orders of a product's images count from 0. -/
def Database.Numbered (db : Database) (productId : ℕ) : Prop :=
  (db.imagesOf productId).map ProductImageRow.sortOrder =
    List.range (db.imagesOf productId).length

/-- The file is one that the user has uploaded as an avatar. -/
def Database.HasAvatar (db : Database) (user fileId : ℕ) : Prop :=
  ∃ file, db.files.get fileId = some file ∧ file.UploadedFor .avatar user

structure MediaIntegrity (db : Database) : Prop where
  images : ∀ row ∈ db.productImages.rows, row.Fits db
  numbered : ∀ productId, db.Numbered productId
  avatars : ∀ user row, db.users.get user = some row →
    ∀ fileId, row.avatarFileId = some fileId → db.HasAvatar user fileId

theorem ProductImageRow.Fits.grows {row : ProductImageRow}
    {db db' : Database} (h : row.Fits db) (hgrows : db.Grows db') :
    row.Fits db' := by
  obtain ⟨product, file, hproduct, hfile, huploaded⟩ := h
  obtain ⟨product', hproduct', howner⟩ := hgrows.products _ product hproduct
  obtain ⟨file', hfile', hkept⟩ := hgrows.files _ file hfile
  refine ⟨product', file', hproduct', hfile', ?_⟩
  rw [show product'.ownerId = product.ownerId from howner]
  exact huploaded.kept hkept

theorem Database.HasAvatar.grows {user fileId : ℕ} {db db' : Database}
    (h : db.HasAvatar user fileId) (hgrows : db.Grows db') :
    db'.HasAvatar user fileId := by
  obtain ⟨file, hfile, huploaded⟩ := h
  obtain ⟨file', hfile', hkept⟩ := hgrows.files _ file hfile
  exact ⟨file', hfile', huploaded.kept hkept⟩

/-! ## What one write keeps -/

/-- The images that a write inserts fit. -/
theorem images_apply {db : Database} {change : Change}
    (h : ∀ row ∈ db.productImages.rows, row.Fits db)
    (hrows : ∀ rows, change = .insertProductImages rows →
      ∀ row ∈ rows, row.Fits db) :
    ∀ row ∈ (db.apply change).productImages.rows, row.Fits (db.apply change) := by
  intro row hrow
  refine ProductImageRow.Fits.grows ?_ (db.grows_apply change)
  cases change with
  | deleteProductImages productId =>
      exact h row (List.mem_of_mem_filter hrow)
  | insertProductImages rows =>
      rcases Table.mem_insertAll hrow with hrow | hrow
      · exact h row hrow
      · exact hrows rows rfl row hrow
  | _ => exact h row hrow

/-- The avatars that a write sets have been checked. -/
def Change.AvatarChecked (change : Change) (db : Database) : Prop :=
  match change with
  | .updateProfile userId patch _ =>
      ∀ fileId, patch.setsAvatarFileId = true →
        patch.avatarFileId = some fileId → db.HasAvatar userId fileId
  | .insertUser row => row.avatarFileId = none
  | _ => True

theorem avatars_apply {db : Database} {change : Change}
    (h : ∀ user row, db.users.get user = some row →
      ∀ fileId, row.avatarFileId = some fileId → db.HasAvatar user fileId)
    (hchecked : change.AvatarChecked db) :
    ∀ user row, (db.apply change).users.get user = some row →
      ∀ fileId, row.avatarFileId = some fileId →
        (db.apply change).HasAvatar user fileId := by
  intro user row hrow fileId hfileId
  refine Database.HasAvatar.grows ?_ (db.grows_apply change)
  cases change with
  | updateProfile userId patch now =>
      obtain ⟨old, hold, rfl⟩ :=
        Table.get_modify_eq_some (by intro; rfl) hrow
      have huser : old.id = user := Table.key_of_get hold
      by_cases hset : old.id = userId ∧ patch.setsAvatarFileId = true
      · split at hfileId
        · rw [ProfileRow.patched, if_pos hset.2] at hfileId
          rw [← huser, hset.1]
          exact hchecked fileId hset.2 hfileId
        · exact h user old hold fileId hfileId
      · refine h user old hold fileId ?_
        split at hfileId
        · next hcondition =>
            have hid : old.id = userId := by simp_all
            rwa [ProfileRow.patched, if_neg fun hsets => hset ⟨hid, hsets⟩]
              at hfileId
        · exact hfileId
  | deleteUser userId now =>
      obtain ⟨old, hold, rfl⟩ :=
        Table.get_modify_eq_some (by intro; rfl) hrow
      refine h user old hold fileId ?_
      split at hfileId <;> exact hfileId
  | insertUser new =>
      rcases Table.get_insert_eq_some hrow with hold | ⟨rfl, -, -⟩
      · exact h user row hold fileId hfileId
      · rw [show row.avatarFileId = none from hchecked] at hfileId
        contradiction
  | _ => exact h user row hrow fileId hfileId

/-! ## What one transaction keeps -/

theorem Change.avatarChecked_of_transactional {change : Change}
    (htransactional : change.transactional = true) (db : Database) :
    change.AvatarChecked db := by
  cases change <;> first | contradiction | trivial

theorem avatars_settle {changes : List Change} {db : Database}
    (htransactional : ∀ change ∈ changes, change.transactional = true)
    (h : ∀ user row, db.users.get user = some row →
      ∀ fileId, row.avatarFileId = some fileId → db.HasAvatar user fileId) :
    ∀ user row, (schema.settle changes db).users.get user = some row →
      ∀ fileId, row.avatarFileId = some fileId →
        (schema.settle changes db).HasAvatar user fileId :=
  ReadCommitted.Store.settle_preserves schema
    (fun change hchange data hdata => avatars_apply hdata
      (Change.avatarChecked_of_transactional (htransactional change hchange)
        data))
    h

section Sync

variable {user productId : ℕ} {db : Database} {sync : List Change}

/-- Images are synchronised on data in which the user owns the product. -/
theorem images_sync (h : ∀ row ∈ db.productImages.rows, row.Fits db)
    (howner : ∃ product, db.products.get productId = some product ∧
      product.ownerId = user)
    (hsync : ImageSync user productId db sync) :
    ∀ row ∈ (schema.settle sync db).productImages.rows,
      row.Fits (schema.settle sync db) := by
  cases hsync with
  | untouched => exact h
  | cleared =>
      simp only [settle_cons, settle_nil]
      exact images_apply h nofun
  | replaced rows now hlinks =>
      simp only [settle_cons, settle_nil]
      refine images_apply (images_apply (images_apply h nofun) ?_) nofun
      rintro _ ⟨⟩ row hrow
      obtain ⟨product, hproduct, rfl⟩ := howner
      obtain ⟨file, hfile, huploaded⟩ := hlinks.files row hrow
      refine ProductImageRow.Fits.grows ⟨product, file, ?_, hfile, huploaded⟩
        (db.grows_apply _)
      rw [hlinks.product row hrow]
      exact hproduct

theorem imagesOf_deleteProductImages (productId : ℕ) (db : Database) :
    (db.apply (.deleteProductImages productId)).imagesOf productId = [] := by
  simp [Database.imagesOf, Database.apply, Table.filter, List.filter_filter]

/-- The images of a product without any are those that are inserted. -/
theorem imagesOf_insertProductImages {rows : List ProductImageRow}
    (hnone : db.imagesOf productId = [])
    (hproduct : ∀ row ∈ rows, row.productId = productId)
    (horder : rows.map ProductImageRow.sortOrder = List.range rows.length) :
    (db.apply (.insertProductImages rows)).imagesOf productId = rows := by
  have hfree : ∀ row ∈ rows, db.productImages.get row.key = none := by
    intro row hrow
    refine Option.eq_none_iff_forall_ne_some.mpr fun other hother => ?_
    have hkey := congrArg Prod.fst (Table.key_of_get hother)
    have himage : other ∈ db.imagesOf productId :=
      List.mem_filter.mpr ⟨Table.mem_of_get hother,
        decide_eq_true (hkey.trans (hproduct row hrow))⟩
    rw [hnone] at himage
    exact absurd himage List.not_mem_nil
  have hnodup : (rows.map ProductImageRow.key).Nodup := by
    refine List.Nodup.of_map Prod.snd ?_
    rw [List.map_map]
    exact horder ▸ List.nodup_range
  have hall : rows.filter (fun row => row.productId = productId) = rows :=
    List.filter_eq_self.mpr fun row hrow => decide_eq_true (hproduct row hrow)
  simp only [Database.imagesOf, Database.apply,
    Table.rows_insertAll_of_free hfree hnodup, List.filter_append]
  rw [hall, show db.productImages.rows.filter (fun row =>
    row.productId = productId) = [] from hnone, List.nil_append]

theorem numbered_sync (h : db.Numbered productId)
    (hsync : ImageSync user productId db sync) :
    (schema.settle sync db).Numbered productId := by
  cases hsync with
  | untouched => exact h
  | cleared =>
      have hnone := imagesOf_deleteProductImages productId db
      simp only [Database.Numbered, ReadCommitted.Schema.settle,
        List.foldl_cons, List.foldl_nil, schema_apply, hnone]
      rfl
  | replaced rows now hlinks =>
      have himages := imagesOf_insertProductImages
        (imagesOf_deleteProductImages productId db) hlinks.product hlinks.order
      have horder := hlinks.order
      rw [← himages] at horder
      exact horder

end Sync

theorem ProductTransaction.media {user : ℕ} {m : Market}
    {changes : List Change} (h : ProductTransaction user m changes)
    (hmedia : MediaIntegrity m.db) :
    MediaIntegrity (schema.settle changes m.db) := by
  have havatars := avatars_settle h.transactional hmedia.avatars
  obtain ⟨productId, first, sync, rfl, hopens, hsync⟩ := h.opens
  have hsync' := hsync.grows (m.db.grows_apply first)
  have howner : ∃ product,
      (m.db.apply first).products.get productId = some product ∧
        product.ownerId = user := by
    rcases hopens.owner with ⟨row, hrow, howner, -⟩ | ⟨-, hcreated⟩
    · obtain ⟨row', hrow', hkept⟩ :=
        (m.db.grows_apply first).products _ row hrow
      exact ⟨row', hrow', Eq.trans hkept howner⟩
    · exact hcreated
  constructor
  · rw [settle_cons]
    refine images_sync (fun row hrow => ?_) howner hsync'
    rw [hopens.images] at hrow
    exact (hmedia.images row hrow).grows (m.db.grows_apply first)
  · intro other
    by_cases hother : other = productId
    · subst hother
      rw [settle_cons]
      refine numbered_sync ?_ hsync'
      rw [Database.Numbered, Database.imagesOf, hopens.images]
      exact hmedia.numbered other
    · have hsame : (schema.settle (first :: sync) m.db).imagesOf other =
          m.db.imagesOf other :=
        congrArg Prod.snd (hopens.productState_of_ne hsync hother)
      rw [Database.Numbered, hsame]
      exact hmedia.numbered other
  · exact havatars

/-! ## Runs -/

/-- A statement outside of a transaction keeps the invariant. -/
theorem MediaIntegrity.apply_alone {db : Database} {change : Change}
    (h : MediaIntegrity db) (halone : change.transactional = false)
    (hchecked : change.AvatarChecked db) :
    MediaIntegrity (db.apply change) := by
  refine ⟨images_apply h.images ?_, fun productId => ?_,
    avatars_apply h.avatars hchecked⟩
  · rintro rows rfl
    contradiction
  · have huntouched : productId ∉ change.products := by
      rw [change.products_of_alone halone]
      exact List.not_mem_nil
    have hsame : (db.apply change).imagesOf productId =
        db.imagesOf productId :=
      congrArg Prod.snd (Database.productState_apply_of_untouched huntouched)
    rw [Database.Numbered, hsame]
    exact h.numbered productId

theorem Change.Offered.avatarChecked {user : ℕ} {change : Change} {m : Market}
    (h : change.Offered user m) : change.AvatarChecked m.db := by
  cases change with
  | updateProfile userId patch now =>
      obtain ⟨rfl, hchecked⟩ := h
      exact hchecked
  | insertUser row => exact absurd h id
  | _ => trivial

theorem Acts.media {rights : Rights} {i : ℕ} {m m' : Market}
    (hacts : Acts rights i m m') (h : MediaIntegrity m.db) :
    MediaIntegrity m'.db := by
  rcases hacts with rfl | hstep
  · exact h
  cases hstep with
  | wrote actor change huser hwrites halone hunlocked hviolation hoffered =>
      exact h.apply_alone halone hoffered.avatarChecked
  | committed actor huser htransaction => exact htransaction.media h
  | lost | rejected | queued | locked | rolledBack => exact h

theorem MediaIntegrity.writeElsewhere {change : Change} {m : Market}
    (halone : change.transactional = false)
    (hchecked : change.AvatarChecked m.db) (h : MediaIntegrity m.db) :
    MediaIntegrity (m.writeElsewhere change).db :=
  h.apply_alone halone hchecked

theorem media_surroundings {event : Surroundings} {m : Market}
    (h : MediaIntegrity m.db) : MediaIntegrity (m.surroundings event).db := by
  cases event with
  | timePasses amount => exact h
  | userRegisters name phone => exact MediaIntegrity.writeElsewhere rfl rfl h
  | userDeleted userId => exact MediaIntegrity.writeElsewhere rfl trivial h

theorem mediaIntegrity_empty : MediaIntegrity .empty where
  images _ h := absurd h List.not_mem_nil
  numbered _ := rfl
  avatars _ _ h := nomatch h

/-- In every reachable state every image fits its product, the images of a
product are numbered from 0, and every avatar is its user's. -/
theorem media_integrity {pool : Pool Request Draw Market Fault Response}
    {now : ℕ}
    (hreach : (market app).Reaches (fun _ _ => True) (Pool.opening now) pool) :
    MediaIntegrity pool.state.db :=
  hreach.furtherWithin market_sound onCourse_opening
    (fun m => MediaIntegrity m.db) mediaIntegrity_empty
    (fun hacts _ h => hacts.media h) fun _ _ _ h => media_surroundings h

def sampleUpload (purpose : FilePurpose) : CreateUploadIntentDto where
  ownerType := .user
  ownerId := some 1
  purpose := purpose
  filename := "a"
  mimeType := "image/png"
  fileSizeBytes := none

def uploadingDraw : Draw :=
  { calmDraw with uploadIntent := some ⟨"PUT", "u", none, none, "later"⟩ }

/-- User 1 uploads a file, from thread `i` on. -/
def uploads (i fileId : ℕ) (purpose : FilePurpose) :
    List (Move Request Draw Surroundings) :=
  [.environment (.timePasses 1000),
    .submit (.createUploadIntent 1 (sampleUpload purpose))] ++
    List.replicate 4 (.advance i uploadingDraw) ++
    [.submit (.markUploaded 1 fileId none)] ++
    List.replicate 2 (.advance (i + 1) calmDraw)

/-- User 1 lists a product with an image and sets an avatar. -/
def illustrates : List (Move Request Draw Surroundings) :=
  [Move.environment (Surroundings.userRegisters "Amina" "+201")] ++
    uploads 0 1 .productImage ++
    uploads 2 2 .avatar ++
    [Move.submit (Request.createProduct 1
      { sampleProduct with imageFileIds := some [1] })] ++
    List.replicate 10 (Move.advance 4 calmDraw) ++
    [Move.submit (Request.updateMe 1 ⟨none, some (some 2), none⟩)] ++
    List.replicate 3 (Move.advance 5 calmDraw)

theorem media_integrity_illustrated :
    ∃ db : Database, db.productImages.rows ≠ [] ∧
      (∃ row, db.users.get 1 = some row ∧ row.avatarFileId = some 2) ∧
      MediaIntegrity db := by
  obtain ⟨pool, hreach, hcheck⟩ := System.exists_reaches_of_run
    (show ((market sampleApp).run illustrates (Pool.opening 0)).any
      (fun pool => !pool.state.db.productImages.rows.isEmpty &&
        (pool.state.db.users.get 1).any fun row =>
          row.avatarFileId = some 2) = true by decide +kernel)
  simp only [Bool.and_eq_true, Bool.not_eq_true', List.isEmpty_eq_false_iff,
    Option.any_eq_true, decide_eq_true_eq] at hcheck
  exact ⟨pool.state.db, hcheck.1, hcheck.2, media_integrity hreach⟩

end MarketPlace.Trade
