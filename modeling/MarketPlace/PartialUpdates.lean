import MarketPlace.ImageReplacement
import MarketPlace.ProductAuthority

/-!
# Updates of what was sent

A column whose field is not in the body of an update is to stay as it is, and
a null in the body is to clear it.  The handlers look for the fields among the
own properties of the object they are given.  An instance of the class owns
all of its declared fields, so that what is not sent is cleared as well.
-/

namespace MarketPlace.Trade

open Interleaving Relational

variable {app : Deployment} {i : ℕ} {ws : List Draw} {m t : Market}
  {user productId : ℕ}

/-! ## What was sent -/

/-- The columns of a product that an update does not name are as before, and
its null clears the subcategory. -/
structure UpdateProductDto.ChangesWhatWasSent
    (dto : UpdateProductDto) (before after : ProductRow) : Prop where
  category : dto.category = none → after.category = before.category
  subcategory : dto.subcategory = none →
    after.subcategory = before.subcategory
  name : dto.name = none → after.name = before.name
  description : dto.description = none →
    after.description = before.description
  price : dto.price = none → after.price = before.price
  city : dto.city = none → after.city = before.city
  addressText : dto.addressText = none →
    after.addressText = before.addressText
  details : dto.details = none → after.details = before.details
  isNegotiable : dto.isNegotiable = none →
    after.isNegotiable = before.isNegotiable
  preferredContactMethod : dto.preferredContactMethod = none →
    after.preferredContactMethod = before.preferredContactMethod
  unnamed : after.id = before.id ∧ after.ownerId = before.ownerId ∧
    after.status = before.status ∧ after.createdAt = before.createdAt ∧
    after.deletedAt = before.deletedAt
  cleared : dto.subcategory = some none → after.subcategory = none

/-- The update changes what was sent of this product, and nothing else of the
products and of their images. -/
structure UpdateProductDto.UpdatesWhatWasSent
    (dto : UpdateProductDto) (productId : ℕ) (db db' : Database) : Prop where
  product : ∀ before, db.liveProduct productId = some before →
    ∃ after, db'.liveProduct productId = some after ∧
      dto.ChangesWhatWasSent before after
  others : ∀ other, other ≠ productId →
    db'.products.get other = db.products.get other
  images : dto.imageFileIds = none → db'.productImages = db.productImages

/-- A product whose subcategory is not sent has none. -/
def UpdateProductDto.NothingToClear
    (dto : UpdateProductDto) (productId : ℕ) (db : Database) : Prop :=
  ∀ row, db.liveProduct productId = some row → dto.subcategory = none →
    row.subcategory = none

/-- The columns of a user that an update does not name are as before, and its
nulls clear the avatar and the contact information. -/
structure UpdateProfileDto.ChangesWhatWasSent
    (dto : UpdateProfileDto) (before after : ProfileRow) : Prop where
  name : dto.name = none → after.name = before.name
  avatarFileId : dto.avatarFileId = none →
    after.avatarFileId = before.avatarFileId
  contactInfo : dto.contactInfo = none →
    after.contactInfo = before.contactInfo
  unnamed : after.id = before.id ∧ after.phone = before.phone ∧
    after.status = before.status ∧ after.createdAt = before.createdAt ∧
    after.deletedAt = before.deletedAt
  avatarCleared : dto.avatarFileId = some none → after.avatarFileId = none
  contactCleared : dto.contactInfo = some none → after.contactInfo = none

/-- The update changes what was sent of this user, and no other user. -/
structure UpdateProfileDto.UpdatesWhatWasSent
    (dto : UpdateProfileDto) (user : ℕ) (db db' : Database) : Prop where
  row : ∀ before, db.liveUser user = some before →
    ∃ after, db'.liveUser user = some after ∧
      dto.ChangesWhatWasSent before after
  others : ∀ other, other ≠ user → db'.users.get other = db.users.get other

/-- A user whose avatar or contact information is not sent has none. -/
def UpdateProfileDto.NothingToClear
    (dto : UpdateProfileDto) (user : ℕ) (db : Database) : Prop :=
  ∀ row, db.liveUser user = some row →
    (dto.avatarFileId = none → row.avatarFileId = none) ∧
      (dto.contactInfo = none → row.contactInfo = none)

/-! ## What the patches do -/

theorem changesWhatWasSent_productPatch_iff
    (dto : UpdateProductDto) (now : ℕ) (row : ProductRow) :
    dto.ChangesWhatWasSent row (row.patched (productPatch dto) now) ↔
      (dto.subcategory = none → row.subcategory = none) := by
  have hset : (row.patched (productPatch dto) now).subcategory =
      trimmed dto.subcategory := by
    simp [ProductRow.patched, productPatch, hasOwnProperty]
  constructor
  · intro h habsent
    have hkept := h.subcategory habsent
    rw [hset, habsent] at hkept
    exact hkept.symm
  · intro hnone
    exact
      { category := fun h => by simp [ProductRow.patched, productPatch, h]
        subcategory := fun h => by
          rw [hset, hnone h, h]
          rfl
        name := fun h => by simp [ProductRow.patched, productPatch, h]
        description := fun h => by simp [ProductRow.patched, productPatch, h]
        price := fun h => by simp [ProductRow.patched, productPatch, h]
        city := fun h => by simp [ProductRow.patched, productPatch, h]
        addressText := fun h => by simp [ProductRow.patched, productPatch, h]
        details := fun h => by simp [ProductRow.patched, productPatch, h]
        isNegotiable := fun h => by simp [ProductRow.patched, productPatch, h]
        preferredContactMethod := fun h => by
          simp [ProductRow.patched, productPatch, h]
        unnamed := by simp [ProductRow.patched]
        cleared := fun h => by
          rw [hset, h]
          rfl }

theorem changesWhatWasSent_profilePatch_iff
    (dto : UpdateProfileDto) (now : ℕ) (row : ProfileRow) :
    dto.ChangesWhatWasSent row (row.patched (profilePatch dto) now) ↔
      (dto.avatarFileId = none → row.avatarFileId = none) ∧
        (dto.contactInfo = none → row.contactInfo = none) := by
  have havatar : (row.patched (profilePatch dto) now).avatarFileId =
      dto.avatarFileId.join := by
    simp [ProfileRow.patched, profilePatch, hasOwnProperty]
  have hcontact : (row.patched (profilePatch dto) now).contactInfo =
      dto.contactInfo.join := by
    simp [ProfileRow.patched, profilePatch, hasOwnProperty]
  constructor
  · intro h
    constructor
    · intro habsent
      have hkept := h.avatarFileId habsent
      rw [havatar, habsent] at hkept
      exact hkept.symm
    · intro habsent
      have hkept := h.contactInfo habsent
      rw [hcontact, habsent] at hkept
      exact hkept.symm
  · intro hnone
    exact
      { name := fun h => by simp [ProfileRow.patched, profilePatch, h]
        avatarFileId := fun h => by
          rw [havatar, hnone.1 h, h]
          rfl
        contactInfo := fun h => by
          rw [hcontact, hnone.2 h, h]
          rfl
        unnamed := by simp [ProfileRow.patched]
        avatarCleared := fun h => by
          rw [havatar, h]
          rfl
        contactCleared := fun h => by
          rw [hcontact, h]
          rfl }

/-- A written patch is a partial update where it clears nothing unasked. -/
theorem UpdateProductDto.updatesWhatWasSent_iff
    {dto : UpdateProductDto} {db db' : Database} {now : ℕ}
    (hproducts : db'.products =
      (db.apply (.updateProduct productId (productPatch dto) now)).products)
    (himages : dto.imageFileIds = none →
      db'.productImages = db.productImages) :
    dto.UpdatesWhatWasSent productId db db' ↔
      dto.NothingToClear productId db := by
  have hwritten : db'.liveProduct productId = (db.liveProduct productId).map
      (ProductRow.patched (productPatch dto) now) := by
    rw [Database.liveProduct_congr hproducts,
      Database.liveProduct_updateProduct]
  constructor
  · intro h row hrow
    obtain ⟨after, hafter, hchanges⟩ := h.product row hrow
    rw [hwritten, hrow, Option.map_some] at hafter
    rw [← Option.some.inj hafter] at hchanges
    exact (changesWhatWasSent_productPatch_iff dto now row).mp hchanges
  · intro h
    refine ⟨fun row hrow => ?_, fun other hother => ?_, himages⟩
    · refine ⟨row.patched (productPatch dto) now, ?_, ?_⟩
      · rw [hwritten, hrow, Option.map_some]
      · exact (changesWhatWasSent_productPatch_iff dto now row).mpr (h row hrow)
    · rw [hproducts]
      refine @Table.get_modify_of_untouched _ _ _ _ db.products _
        (ProductRow.patched (productPatch dto) now) (fun _ => rfl) other
        fun row hkey => ?_
      have hrow : row.id ≠ productId := fun hid => hother (hkey.symm.trans hid)
      exact decide_eq_false hrow

theorem Database.liveUser_updateProfile (db : Database) (user : ℕ)
    (patch : ProfilePatch) (now : ℕ) :
    (db.apply (.updateProfile user patch now)).liveUser user =
      (db.liveUser user).map (ProfileRow.patched patch now) := by
  have hmodified : (db.apply (.updateProfile user patch now)).users.get user =
      (db.users.get user).map fun row =>
        if row.id = user ∧ row.deletedAt.isNone then row.patched patch now
        else row := by
    have hget := Table.get_modify db.users
      (fun row => row.id = user && row.deletedAt.isNone)
      (ProfileRow.patched patch now) (fun _ => rfl) user
    simp only [Bool.and_eq_true, decide_eq_true_eq] at hget
    exact hget
  rw [liveUser, hmodified, liveUser]
  cases hrow : db.users.get user with
  | none => rfl
  | some row =>
      have hid : row.id = user := Table.key_of_get hrow
      cases hdeleted : row.deletedAt <;>
        simp [hid, hdeleted, Option.filter, ProfileRow.patched]

theorem UpdateProfileDto.updatesWhatWasSent_iff
    (dto : UpdateProfileDto) (db : Database) (now : ℕ) :
    dto.UpdatesWhatWasSent user db
        (db.apply (.updateProfile user (profilePatch dto) now)) ↔
      dto.NothingToClear user db := by
  have hwritten := db.liveUser_updateProfile user (profilePatch dto) now
  constructor
  · intro h row hrow
    obtain ⟨after, hafter, hchanges⟩ := h.row row hrow
    rw [hwritten, hrow, Option.map_some] at hafter
    rw [← Option.some.inj hafter] at hchanges
    exact (changesWhatWasSent_profilePatch_iff dto now row).mp hchanges
  · intro h
    refine ⟨fun row hrow => ?_, fun other hother => ?_⟩
    · refine ⟨row.patched (profilePatch dto) now, ?_, ?_⟩
      · rw [hwritten, hrow, Option.map_some]
      · exact (changesWhatWasSent_profilePatch_iff dto now row).mpr (h row hrow)
    · refine @Table.get_modify_of_untouched _ _ _ _ db.users _
        (ProfileRow.patched (profilePatch dto) now) (fun _ => rfl) other
        fun row hkey => ?_
      have hrow : row.id ≠ user := fun hid => hother (hkey.symm.trans hid)
      simp [hrow]

/-! ## The calls run alone -/

/-- An answered `updateProduct` has written its patch, and no image unless it
has a list of files. -/
theorem ends_updateProduct_patched {dto : UpdateProductDto}
    {value : Option ProductView}
    (h : (updateProduct user productId dto).Ends i ws m (.ok value) t) :
    t.db.products = (m.db.apply
        (.updateProduct productId (productPatch dto) m.now)).products ∧
      (dto.imageFileIds = none →
        t.db.productImages = m.db.productImages) := by
  obtain ⟨_, n, hcallback, rfl⟩ := ends_withTransaction_ok h
  obtain ⟨_, _, _, m₁, _, howner, hends⟩ := Program.ends_bind_ok.mp hcallback
  have hview := (ends_assertOwner_ok howner).1
  rw [view_rollback] at hview
  obtain ⟨_, hchecked⟩ := ends_select_bind_ok hends
  split at hchecked
  · exact absurd hchecked not_ends_failed_ok
  obtain ⟨_, _, _, m₂, _, hcategory, hwrites⟩ :=
    Program.ends_bind_ok.mp hchecked
  obtain rfl := ends_assertCategoryPair_ok hcategory
  obtain ⟨_, _, _, _, _, hupdate, himages⟩ := Program.ends_bind_ok.mp hwrites
  obtain rfl := ends_perform_ok hupdate
  have hwritten := view_enqueue i
    (.updateProduct productId (productPatch dto) m.now) m₂
  rw [hview] at hwritten
  rw [db_commit]
  cases hids : dto.imageFileIds with
  | none =>
      rw [hids] at himages
      obtain rfl := (ends_fetchProductWithImages_ok himages).1
      rw [hwritten]
      exact ⟨rfl, fun _ => rfl⟩
  | some imageFileIds =>
      rw [hids] at himages
      obtain ⟨_, _, _, n', _, hsync, hfetch⟩ := Program.ends_bind_ok.mp himages
      obtain rfl := (ends_fetchProductWithImages_ok hfetch).1
      have hsynced : SyncedTo user i productId imageFileIds _ n :=
        ends_syncProductImages_ok hsync
      refine ⟨?_, fun hnone => by contradiction⟩
      rw [hsynced.products, hwritten]

theorem ends_assertAvatarFile {avatarFileId : Option ℕ}
    {result : Except Fault Unit}
    (h : (assertAvatarFile user avatarFileId).Ends i ws m result t) :
    t = m := by
  cases avatarFileId with
  | none => exact h.2.2
  | some fileId =>
      rcases Program.ends_bind.mp h with
        ⟨_, _, hfails⟩ | ⟨_, _, _, _, _, hselect, hcheck⟩
      · exact (ends_select hfails).1
      · obtain rfl := (ends_select_ok hselect).1
        split at hcheck <;> exact hcheck.2.2

theorem keepsCommitted_getMe : KeepsCommitted (getMe app user) := by
  refine (keepsCommitted_select _).bind fun query => ?_
  split
  · exact keepsCommitted_failed _
  · exact keepsCommitted_done _

/-- `updateMe` has written its patch, or it has failed before. -/
theorem ends_updateMe {dto : UpdateProfileDto} {result : Except Fault MeView}
    (h : (updateMe app user dto).Ends i ws m result t) :
    ((∃ fault, result = .error fault) ∧ t.db = m.db) ∨
      t.db = m.db.apply (.updateProfile user (profilePatch dto) m.now) := by
  unfold updateMe at h
  split at h
  · exact .inl ⟨⟨_, h.2.1⟩, congrArg Market.db h.2.2⟩
  rcases Program.ends_bind.mp h with
    ⟨fault, rfl, hfails⟩ | ⟨_, _, _, n, _, hchecked, hwrites⟩
  · exact .inl ⟨⟨fault, rfl⟩, congrArg Market.db (ends_assertAvatarFile hfails)⟩
  obtain rfl := ends_assertAvatarFile hchecked
  rcases Program.ends_bind.mp hwrites with
    ⟨fault, rfl, hfails⟩ | ⟨_, _, _, n, _, hupdate, hends⟩
  · rcases ends_perform hfails with ⟨-, hkept⟩ | ⟨-, hanswer⟩
    · exact .inl ⟨⟨fault, rfl⟩, hkept⟩
    · contradiction
  · obtain rfl := ends_perform_none_ok hupdate
    right
    exact keepsCommitted_getMe _ _ _ _ _ hends

/-! ## Partial updates -/

/-- Whatever the data and the update, a run of `updateProduct` or `updateMe`
fails and changes nothing, or it has changed what was sent, and nothing else,
exactly if the columns it was sent nothing for held nothing: the subcategory,
the avatar and the contact information. -/
theorem partial_update_iff (app : Deployment) (user i : ℕ) (ws : List Draw)
    (m t : Market) :
    (∀ (productId : ℕ) (dto : UpdateProductDto)
      (result : Except Fault (Option ProductView)),
      (updateProduct user productId dto).Ends i ws m result t →
      ((∃ fault, result = .error fault) ∧ t.db = m.db) ∨
        (dto.UpdatesWhatWasSent productId m.db t.db ↔
          dto.NothingToClear productId m.db)) ∧
    ∀ (dto : UpdateProfileDto) (result : Except Fault MeView),
      (updateMe app user dto).Ends i ws m result t →
      ((∃ fault, result = .error fault) ∧ t.db = m.db) ∨
        (dto.UpdatesWhatWasSent user m.db t.db ↔
          dto.NothingToClear user m.db) := by
  constructor
  · intro productId dto result hends
    cases result with
    | error fault => exact .inl ⟨⟨fault, rfl⟩, ends_updateProduct_error hends⟩
    | ok value =>
        have hpatched := ends_updateProduct_patched hends
        exact .inr (UpdateProductDto.updatesWhatWasSent_iff hpatched.1
          hpatched.2)
  · intro dto result hends
    rcases ends_updateMe hends with hfailed | hpatched
    · exact .inl hfailed
    · rw [hpatched]
      exact .inr (dto.updatesWhatWasSent_iff m.db m.now)

/-- `{ "price": 20 }`. -/
def samplePrice : UpdateProductDto :=
  ⟨none, none, none, none, some 20, none, none, none, none, none, none⟩

/-- `{ "name": "Amira" }`. -/
def sampleName : UpdateProfileDto := ⟨some "Amira", none, none⟩

/-- A price and a name are changed where nothing else is stored. -/
theorem partial_update_iff_unset :
    ∃ pool value t view t', (market sampleApp).Reaches (fun _ _ => True)
        (Pool.opening 0) pool ∧
      (updateProduct 1 1 samplePrice).Ends 4 (List.replicate 8 calmDraw)
        pool.state (.ok value) t ∧
      samplePrice.UpdatesWhatWasSent 1 pool.state.db t.db ∧
      (updateMe sampleApp 1 sampleName).Ends 4 (List.replicate 2 calmDraw)
        pool.state (.ok view) t' ∧
      sampleName.UpdatesWhatWasSent 1 pool.state.db t'.db := by
  obtain ⟨pool, hreach, hcheck⟩ := System.exists_reaches_of_run
    (show ((market sampleApp).run lists (Pool.opening 0)).any (fun pool =>
      ((pool.state.db.liveProduct 1).all fun row => row.subcategory.isNone) &&
      ((pool.state.db.liveUser 1).all fun row =>
        row.avatarFileId.isNone && row.contactInfo.isNone) &&
      (((updateProduct 1 1 samplePrice).runUnder 4 (List.replicate 8 calmDraw)
        pool.state).any fun ended => ended.1.toOption.isSome) &&
      ((updateMe sampleApp 1 sampleName).runUnder 4 (List.replicate 2 calmDraw)
        pool.state).any fun ended => ended.1.toOption.isSome) = true by decide +kernel)
  simp only [Bool.and_eq_true] at hcheck
  obtain ⟨⟨⟨hproduct, huser⟩, hupdates⟩, hnames⟩ := hcheck
  obtain ⟨value, t, hprice⟩ := ends_ok_of_runUnder hupdates
  obtain ⟨view, t', hname⟩ := ends_ok_of_runUnder hnames
  have hpartial := (partial_update_iff sampleApp 1 4 (List.replicate 8 calmDraw)
    pool.state t).1 1 samplePrice (.ok value) hprice
  have hpartial' := (partial_update_iff sampleApp 1 4
    (List.replicate 2 calmDraw) pool.state t').2 sampleName (.ok view) hname
  refine ⟨pool, value, t, view, t', hreach, hprice, ?_, hname, ?_⟩
  · rcases hpartial with ⟨⟨fault, hfails⟩, -⟩ | hiff
    · contradiction
    refine hiff.mpr fun row hrow _ => ?_
    rw [hrow] at hproduct
    exact Option.isNone_iff_eq_none.mp hproduct
  · rcases hpartial' with ⟨⟨fault, hfails⟩, -⟩ | hiff
    · contradiction
    refine hiff.mpr fun row hrow => ?_
    rw [hrow] at huser
    simp only [Option.all_some, Bool.and_eq_true, Option.isNone_iff_eq_none]
      at huser
    exact ⟨fun _ => huser.1, fun _ => huser.2⟩

/-- `{ "contactInfo": "+201" }`. -/
def sampleContact : UpdateProfileDto := ⟨none, none, some (some "+201")⟩

/-- A user who changes only the name loses the contact information. -/
theorem not_always_partial_update :
    ¬ ∀ (pool : Pool Request Draw Market Fault Response) (user : ℕ)
      (dto : UpdateProfileDto) (i : ℕ) (ws : List Draw) (view : MeView)
      (t : Market), (market sampleApp).Reaches (fun _ _ => True)
        (Pool.opening 0) pool →
      (updateMe sampleApp user dto).Ends i ws pool.state (.ok view) t →
      dto.UpdatesWhatWasSent user pool.state.db t.db := by
  intro h
  obtain ⟨pool, hreach, hcheck⟩ := System.exists_reaches_of_run
    (show ((market sampleApp).run ([.environment (.userRegisters "Amina" "+201"),
        .submit (.updateMe 1 sampleContact)] ++
        List.replicate 2 (.advance 0 calmDraw)) (Pool.opening 0)).any
      (fun pool =>
        ((pool.state.db.liveUser 1).any fun row => row.contactInfo.isSome) &&
        ((updateMe sampleApp 1 sampleName).runUnder 4
          (List.replicate 2 calmDraw) pool.state).any fun ended =>
            ended.1.toOption.isSome) = true by decide +kernel)
  obtain ⟨huser, hnames⟩ := Bool.and_eq_true_iff.mp hcheck
  obtain ⟨view, t, hname⟩ := ends_ok_of_runUnder hnames
  obtain ⟨row, hrow, hcontact⟩ := (Option.any_eq_true _ _).mp huser
  have hlaw := h pool 1 sampleName 4 _ view t hreach hname
  rcases ends_updateMe hname with ⟨⟨fault, hfails⟩, -⟩ | hpatched
  · contradiction
  rw [hpatched] at hlaw
  have hcleared := ((sampleName.updatesWhatWasSent_iff pool.state.db
    pool.state.now).mp hlaw row hrow).2 rfl
  rw [hcleared] at hcontact
  contradiction

end MarketPlace.Trade
