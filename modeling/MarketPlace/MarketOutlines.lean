import MarketPlace.MarketRules

/-!
# Outlines of the market's handlers

Every handler keeps to the rights of its request: the products' transactions
with the lock, the check and the writes in their order, and the statements of
the other services with what they have checked before.
-/

namespace MarketPlace.Trade

open EventLog Interleaving Relational

variable {rights : Rights} {i : ℕ} {m : Market}
variable {β γ : Type}

/-! ## Programs that keep to their rights -/

/-- Every action of the program is within the rights. -/
def Safe (rights : Rights) (i : ℕ) (m : Market) (program : Operation β) :
    Prop :=
  program.Meets (acting rights) i (fun _ _ => True) (fun _ _ => True) m

theorem safe_of_meets {program : Operation β} {post : β → Market → Prop}
    (h : program.Meets (acting rights) i post (fun _ _ => True) m) :
    Safe rights i m program :=
  h.mono (fun _ _ _ => trivial) fun _ _ hfail => hfail

theorem safe_done (value : β) : Safe rights i m (.done value) :=
  done_meets fun _ _ => trivial

theorem safe_failed (fault : Fault) :
    Safe rights i m (.failed fault : Operation β) :=
  failed_meets fun _ _ => trivial

theorem safe_selectOrdered {client : Option Client}
    {query : (ℕ → ℕ) → Database → β} :
    Safe rights i m (selectOrdered client query) :=
  selectOrdered_meets (fun _ _ => trivial) fun _ _ _ _ => trivial

theorem safe_select {client : Option Client} {query : Database → β} :
    Safe rights i m (select client query) := safe_selectOrdered

theorem Safe.bind {program : Operation β} {next : β → Operation γ}
    (h : Safe rights i m program)
    (hnext : ∀ value t, Safe rights i t (next value)) :
    Safe rights i m (program >>= next) :=
  Program.Meets.seq _ h fun value t _ => hnext value t

theorem Safe.map {program : Operation β} {f : β → γ}
    (h : Safe rights i m program) :
    Safe rights i m (program >>= fun value => pure (f value)) :=
  h.bind fun _ _ => safe_done _

/-- A check and what follows if it passes. -/
theorem safe_ite {p : Prop} [Decidable p] {program other : Operation β}
    (h : p → Safe rights i m program) (hother : ¬ p → Safe rights i m other) :
    Safe rights i m (if p then program else other) := by
  split
  · next hp => exact h hp
  · next hp => exact hother hp

/-- A statement outside of a transaction after which nothing is known. -/
theorem safe_run {change : ℕ → Sequences → Change}
    {result : ℕ → Sequences → Database → Database → β}
    (hwrites : ∀ now ids, (change now ids).kind ∈ rights.writes)
    (halone : ∀ now ids, (change now ids).transactional = false)
    (hoffered : ∀ u, Later i m u → ∃ actor, rights.user = some actor ∧
      (change u.now u.ids).Offered actor u) :
    Safe rights i m (run none change result) :=
  run_meets hwrites halone hoffered (fun _ _ _ _ => trivial)
    (fun _ _ _ _ _ _ => trivial) fun _ _ _ _ _ => trivial

theorem safe_execute {change : ℕ → Change} {returning : Database → β}
    (hwrites : ∀ now, (change now).kind ∈ rights.writes)
    (halone : ∀ now, (change now).transactional = false)
    (hoffered : ∀ u, Later i m u → ∃ actor, rights.user = some actor ∧
      (change u.now).Offered actor u) :
    Safe rights i m (execute none change returning) :=
  safe_run (fun now _ => hwrites now) (fun now _ => halone now) hoffered

theorem safe_insertReturning {ρ : Type} {row : ℕ → Sequences → ρ}
    {insert : ρ → Change}
    (hwrites : ∀ row, (insert row).kind ∈ rights.writes)
    (halone : ∀ row, (insert row).transactional = false)
    (hoffered : ∀ u, Later i m u → ∃ actor, rights.user = some actor ∧
      (insert (row u.now u.ids)).Offered actor u) :
    Safe rights i m (insertReturning none row insert) :=
  safe_run (fun _ _ => hwrites _) (fun _ _ => halone _) hoffered

/-! ## Checks without an action -/

theorem isValidSubcategory_iff {category subcategory : String} :
    isValidSubcategory category subcategory = true ↔
      isValidCategory category = true ∧
        subcategory ∈ categoryToSubcategories category := by
  simp [isValidSubcategory]

theorem assertCategoryPair_cases (category : String)
    (subcategory : Option String) (allowAll : Bool) :
    (assertCategoryPair category subcategory allowAll = .done () ∧
      (allowAll = false → InTaxonomy category subcategory)) ∨
      ∃ fault, assertCategoryPair category subcategory allowAll =
        .failed fault := by
  unfold assertCategoryPair
  by_cases hcategory : isValidCategory category = true
  · have hlisted : category ∈ productCategories := by
      simpa [isValidCategory] using hcategory
    rw [hcategory, Bool.not_true, if_neg Bool.false_ne_true]
    cases subcategory with
    | none => exact .inl ⟨rfl, fun _ => ⟨hlisted, nofun⟩⟩
    | some subcategory =>
        dsimp only
        by_cases hvalid : isValidSubcategory category subcategory = true
        · rw [hvalid, Bool.not_true, if_neg Bool.false_ne_true]
          split
          · exact .inr ⟨_, rfl⟩
          · next hallowed =>
              refine .inl ⟨rfl, fun hall => ⟨hlisted, ?_⟩⟩
              rintro name ⟨⟩
              refine ⟨(isValidSubcategory_iff.mp hvalid).2, ?_⟩
              simpa [hall, isAllowedProductSubcategory, hvalid] using hallowed
        · rw [if_pos (by simpa using hvalid)]
          exact .inr ⟨_, rfl⟩
  · rw [if_pos (by simpa using hcategory)]
    exact .inr ⟨_, rfl⟩

/-- A check without an action passes, or nothing happens any more. -/
theorem safe_assertCategoryPair {category : String}
    {subcategory : Option String} {next : Unit → Operation β}
    {post : β → Market → Prop}
    (hnext : InTaxonomy category subcategory →
      (next ()).Meets (acting rights) i post (fun _ _ => True) m) :
    (assertCategoryPair category subcategory false >>= next).Meets
      (acting rights) i post (fun _ _ => True) m := by
  rcases assertCategoryPair_cases category subcategory false with
    ⟨hdone, hpair⟩ | ⟨fault, hfailed⟩
  · rw [hdone]
    exact hnext (hpair rfl)
  · rw [hfailed]
    exact failed_meets fun _ _ => trivial

theorem validateFiles_cases (actorUserId : ℕ) (files : List FileRow)
    (fileIds : List ℕ) :
    (validateFiles actorUserId files fileIds = .done () ∧
      ∀ fileId ∈ fileIds,
        imageFileFault actorUserId fileId (fileOf files fileId) = none) ∨
      ∃ fault, validateFiles actorUserId files fileIds = .failed fault := by
  induction fileIds with
  | nil => exact .inl ⟨rfl, fun _ h => absurd h List.not_mem_nil⟩
  | cons fileId rest ih =>
      cases hfault : imageFileFault actorUserId fileId
          (fileOf files fileId) with
      | some fault => exact .inr ⟨fault, by rw [validateFiles, hfault]; rfl⟩
      | none =>
          rcases ih with ⟨hdone, hvalid⟩ | ⟨fault, hfailed⟩
          · exact .inl ⟨by rw [validateFiles, hfault]; exact hdone,
              List.forall_mem_cons.mpr ⟨hfault, hvalid⟩⟩
          · exact .inr ⟨fault, by rw [validateFiles, hfault]; exact hfailed⟩

theorem toPositiveInt_eq_some {text : BigintText} {value : ℕ}
    (h : toPositiveInt text = some value) : text.value = value := by
  simp only [toPositiveInt, Option.ite_none_right_eq_some,
    Option.some.injEq] at h
  exact h.2

theorem toPositiveIntOfNullable_eq_some {column : Option ℕ} {user : ℕ}
    (h : toPositiveIntOfNullable (column.map BigintText.mk) = some user) :
    column = some user := by
  cases column with
  | none => contradiction
  | some value => exact congrArg some (toPositiveInt_eq_some h)

/-- A file without a fault is one that the user uploaded for a product. -/
theorem uploadedFor_of_imageFileFault {user fileId : ℕ}
    {file : Option FileRow} (h : imageFileFault user fileId file = none) :
    ∃ row, file = some row ∧ row.UploadedFor .productImage user := by
  cases file with
  | none => contradiction
  | some row =>
      simp only [imageFileFault] at h
      by_cases hpurpose : row.purpose = .productImage
      · by_cases huploader : toPositiveIntOfNullable
            (row.uploaderUserId.map BigintText.mk) = some user
        · by_cases hstatus : row.status = .uploaded
          · exact ⟨row, rfl, hpurpose,
              toPositiveIntOfNullable_eq_some huploader, hstatus⟩
          · simp [hpurpose, huploader, hstatus] at h
        · simp [hpurpose, huploader] at h
      · simp [hpurpose] at h

/-! ## The transactions on products -/

section Transactions

variable {client : Client} {user productId : ℕ}

/-- The request holds a product of the user. -/
structure Holding (user i productId : ℕ) (m : Market) : Prop where
  held : m.store.holder (.product productId) = some i
  owns : m.db.Owns user productId

theorem Holding.carried {t : Market} (h : Holding user i productId m)
    (hcarried : Carried i m t) : Holding user i productId t := by
  obtain ⟨row, hrow, howner⟩ := h.owns
  have hsame := hcarried.product productId h.held
  exact ⟨hcarried.held _ h.held, row, (congrArg Prod.fst hsame).trans hrow,
    howner⟩

theorem assertOwner_meets {post : Unit → Market → Prop}
    (hqueue : m.store.queue i = [])
    (hpost : ∀ t, Later i m t → Holding user i productId t → post () t) :
    (assertOwner client user productId).Meets (acting rights) i post
      (fun _ _ => True) m := by
  unfold assertOwner
  refine Program.Meets.bind (selectProductForUpdate_meets hqueue
    (fun _ _ => trivial) (fun _ _ => failed_meets fun _ _ => trivial) ?_)
  intro row t hlater hheld hrow hlive
  dsimp only
  split
  · exact failed_meets fun _ _ => trivial
  · next howner =>
      refine done_meets fun u hu => hpost u (Later.trans hlater.toRely hu) ?_
      have howner := toPositiveInt_eq_some (not_not.mp howner)
      exact Holding.carried ⟨hheld, row, hrow, howner, hlive⟩ hu.carried

/-- A statement on a held product whose transaction is that statement alone. -/
theorem committable_of_queued {change : Change} {t u : Market}
    (huser : rights.user = some user)
    (hqueue : t.store.queue i = [change])
    (htransaction : ∀ v, v.db.Owns user productId →
      ProductTransaction user v [change])
    (hholding : Holding user i productId t) (hlater : Later i t u) :
    Committable rights i u := by
  refine ⟨user, huser, ?_⟩
  rw [hlater.queue, hqueue]
  exact htransaction u (hholding.carried hlater.carried).owns

theorem safe_deleteProduct (huser : rights.user = some user)
    (hwrites : .deleteProduct ∈ rights.writes) :
    Safe rights i m (deleteProduct user productId) := by
  refine withTransaction_meets fun client t hsound hqueue => ?_
  refine Program.Meets.bind (assertOwner_meets hqueue ?_)
  intro u hu hholding
  refine Program.Meets.bind (execute_queued_meets (hu.queue.trans hqueue)
    (fun _ => hwrites) (fun _ => rfl) ?_ (fun _ _ => trivial) ?_)
  · exact List.forall_mem_singleton.mpr hholding.held
  · intro value v w hqueued hnext
    exact done_meets fun x hx => ⟨trivial, fun y hy =>
      committable_of_queued huser hnext
        (fun _ howns => .deleted productId _ howns)
        (hholding.carried hqueued.carried) (Later.trans hx.toRely hy)⟩

theorem safe_updateProductStatus {status : ProductStatus}
    (huser : rights.user = some user)
    (hwrites : .updateProductStatus ∈ rights.writes) :
    Safe rights i m (updateProductStatus user productId status) := by
  refine withTransaction_meets fun client t hsound hqueue => ?_
  refine Program.Meets.bind (assertOwner_meets hqueue ?_)
  intro u hu hholding
  refine execute_queued_meets (hu.queue.trans hqueue)
    (fun _ => hwrites) (fun _ => rfl) ?_ (fun _ _ => trivial) ?_
  · exact List.forall_mem_singleton.mpr hholding.held
  · intro value v w hqueued hnext
    exact ⟨trivial, fun x hx => committable_of_queued huser hnext
      (fun _ howns => .statusUpdated productId status _ howns)
      (hholding.carried hqueued.carried) hx⟩

/-! ## Creating and updating products -/

/-- How a transaction that synchronises images can begin. -/
inductive Beginning (user : ℕ) (m : Market) : ℕ → Change → Prop
  | created (row : ProductRow) (hfree : m.db.products.get row.id = none)
      (hid : row.id < m.ids.products) (howner : row.ownerId = user)
      (hclassified : row.Classified) :
      Beginning user m row.id (.insertProduct row)
  | updated (productId now : ℕ) (patch : ProductPatch)
      (howns : m.db.Owns user productId)
      (hclassified : ∀ row, m.db.products.get productId = some row →
        (row.patched patch now).Classified) :
      Beginning user m productId (.updateProduct productId patch now)

theorem Beginning.carried {change : Change} {t : Market}
    (h : Beginning user m productId change)
    (hheld : m.store.holder (.product productId) = some i)
    (hcarried : Carried i m t) : Beginning user t productId change := by
  have hsame := hcarried.product productId hheld
  cases h with
  | created row hfree hid howner hclassified =>
      exact .created row ((congrArg Prod.fst hsame).trans hfree)
        (hid.trans_le hcarried.ids.products) howner hclassified
  | updated productId now patch howns hclassified =>
      refine .updated productId now patch
        (Holding.carried ⟨hheld, howns⟩ hcarried).owns fun row hrow => ?_
      exact hclassified row ((congrArg Prod.fst hsame).symm.trans hrow)

theorem Beginning.transaction {change : Change}
    {sync : List Change} (h : Beginning user m productId change)
    (hsync : ImageSync user productId m.db sync) :
    ProductTransaction user m (change :: sync) := by
  cases h with
  | created row hfree hid howner hclassified =>
      exact .created row sync hfree hid howner hclassified hsync
  | updated productId now patch howns hclassified =>
      exact .updated productId now patch sync howns hclassified hsync

/-- The files that a transaction sees before it links any. -/
theorem Beginning.files_settle {change : Change}
    (h : Beginning user m productId change) (db : Database) :
    (schema.settle [change, .deleteProductImages productId] db).files =
      db.files := by
  cases h <;> rfl

theorem ImageLinks.grows {rows : List ProductImageRow} {db db' : Database}
    (h : ImageLinks user productId db rows) (hgrows : db.Grows db') :
    ImageLinks user productId db' rows where
  product := h.product
  order := h.order
  files row hrow := by
    obtain ⟨file, hfile, huploaded⟩ := h.files row hrow
    obtain ⟨file', hfile', hkept⟩ := hgrows.files _ file hfile
    exact ⟨file', hfile', huploaded.kept hkept⟩

theorem ImageSync.grows {sync : List Change} {db db' : Database}
    (h : ImageSync user productId db sync) (hgrows : db.Grows db') :
    ImageSync user productId db' sync := by
  cases h with
  | untouched => exact .untouched
  | cleared => exact .cleared
  | replaced rows now hlinks =>
      exact .replaced rows now (hlinks.grows hgrows)

/-- Synchronising the images leaves the products as they are. -/
theorem ImageSync.products_settle {sync : List Change} {db : Database}
    (h : ImageSync user productId db sync) (other : Database) :
    (schema.settle sync other).products = other.products := by
  cases h <;> rfl

/-- The request holds the product and has queued its first write and what it
has synchronised so far. -/
structure Underway (user i productId : ℕ) (first : Change)
    (sync : List Change) (m : Market) : Prop where
  held : m.store.holder (.product productId) = some i
  beginning : Beginning user m productId first
  queue : m.store.queue i = first :: sync

theorem Underway.later {first : Change} {sync : List Change} {t : Market}
    (h : Underway user i productId first sync m) (hlater : Later i m t) :
    Underway user i productId first sync t :=
  ⟨hlater.held _ h.held, h.beginning.carried h.held hlater.carried,
    hlater.queue.trans h.queue⟩

theorem Underway.queued {first change : Change} {sync : List Change}
    {u t : Market} (h : Underway user i productId first sync m)
    (hqueued : Queued i m u t change)
    (hqueue : t.store.queue i = (first :: sync) ++ [change]) :
    Underway user i productId first (sync ++ [change]) t :=
  ⟨hqueued.carried.held _ h.held, h.beginning.carried h.held hqueued.carried,
    hqueue⟩

/-- The images are synchronised as far as the source does. -/
def Synced (user i productId : ℕ) (first : Change) (m : Market) : Prop :=
  ∃ sync, Underway user i productId first sync m ∧
    ImageSync user productId m.db sync

theorem Synced.later {first : Change} {t : Market}
    (h : Synced user i productId first m) (hlater : Later i m t) :
    Synced user i productId first t := by
  obtain ⟨sync, hunderway, hsync⟩ := h
  exact ⟨sync, hunderway.later hlater, hsync.grows hlater.grows⟩

theorem Synced.committable {first : Change}
    (h : Synced user i productId first m) (huser : rights.user = some user) :
    Committable rights i m := by
  obtain ⟨sync, hunderway, hsync⟩ := h
  refine ⟨user, huser, ?_⟩
  rw [hunderway.queue]
  exact hunderway.beginning.transaction hsync

/-- The files of a batch are the files of their ids. -/
theorem get_of_fileOf {db : Database} {fileIds : List ℕ} {fileId : ℕ}
    {file : FileRow} (h : fileOf (db.filesById fileIds) fileId = some file) :
    db.files.get fileId = some file := by
  have hmem := List.mem_of_find?_eq_some h
  have hid : file.id = fileId := by simpa using List.find?_some h
  exact Table.get_eq_some_iff.mpr ⟨(List.mem_filter.mp hmem).1, hid⟩

theorem imageLinks_imageRows {db : Database} {fileIds : List ℕ}
    (hvalid : ∀ fileId ∈ fileIds,
      imageFileFault user fileId
        (fileOf (db.filesById fileIds) fileId) = none) (firstId : ℕ) :
    ImageLinks user productId db
      (imageRows productId (db.filesById fileIds) fileIds firstId) where
  product row hrow := by
    obtain ⟨position, hposition, rfl⟩ := List.mem_mapIdx.mp hrow
    rfl
  order := by
    refine List.ext_getElem (by simp) fun position _ _ => ?_
    simp [imageRows]
  files row hrow := by
    obtain ⟨position, hposition, rfl⟩ := List.mem_mapIdx.mp hrow
    obtain ⟨file, hfile, huploaded⟩ := uploadedFor_of_imageFileFault
      (hvalid _ (List.getElem_mem hposition))
    exact ⟨file, get_of_fileOf hfile, huploaded⟩

theorem fileId_imageRows (productId : ℕ) (files : List FileRow)
    (fileIds : List ℕ) (firstId : ℕ) :
    (imageRows productId files fileIds firstId).map ProductImageRow.fileId =
      fileIds := by
  refine List.ext_getElem (by simp [imageRows]) fun position _ _ => ?_
  simp [imageRows]

theorem syncProductImages_meets {first : Change} {fileIds : List ℕ}
    (hwrites : ∀ kind ∈ syncWrites, kind ∈ rights.writes)
    (hunderway : Underway user i productId first [] m) :
    (syncProductImages client user productId fileIds).Meets (acting rights) i
      (fun _ t => Synced user i productId first t) (fun _ _ => True) m := by
  unfold syncProductImages
  have hkinds : ∀ kind ∈ syncWrites, kind ∈ rights.writes := hwrites
  simp only [syncWrites, List.forall_mem_cons] at hkinds
  refine Program.Meets.bind (execute_queued_meets hunderway.queue
    (fun _ => hkinds.1) (fun _ => rfl) ?_ (fun _ _ => trivial) ?_)
  · exact List.forall_mem_singleton.mpr hunderway.held
  intro _ u₁ t₁ hqueued₁ hnext₁
  have hcleared := hunderway.queued hqueued₁ hnext₁
  split
  · exact done_meets fun u hu =>
      ⟨_, hcleared.later hu, .cleared⟩
  refine Program.Meets.bind (select_meets (fun _ _ => trivial) ?_)
  intro u₂ t₂ hseen
  have hfiles : (u₂.viewFor (some client) i).files = u₂.db.files := by
    have hqueue := (hcleared.later hseen.before).queue
    rw [Market.viewFor, ReadCommitted.Store.view, hqueue]
    exact (hcleared.later hseen.before).beginning.files_settle u₂.db
  have hbatch : (u₂.viewFor (some client) i).filesById fileIds =
      u₂.db.filesById fileIds := by
    rw [Database.filesById, hfiles]
    rfl
  rw [hbatch]
  rcases validateFiles_cases user (u₂.db.filesById fileIds) fileIds with
    ⟨hdone, hvalid⟩ | ⟨fault, hfailed⟩
  · rw [hdone, Program.done_bind]
    have hlinks : ∀ firstId, ImageLinks user productId t₂.db
        (imageRows productId (u₂.db.filesById fileIds) fileIds firstId) :=
      fun firstId => (imageLinks_imageRows hvalid firstId).grows
        hseen.after.grows
    have hheld := (hcleared.later hseen.later).held
    refine Program.Meets.bind (run_queued_meets
      (hcleared.later hseen.later).queue (fun _ _ => hkinds.2.1)
      (fun _ _ => rfl) ?_ (fun _ _ => trivial) ?_)
    · rintro u hu lock ⟨other, hother, rfl⟩
      obtain ⟨row, hrow, rfl⟩ := List.mem_map.mp hother
      rw [(hlinks _).product row hrow]
      exact .inr (hu.held _ hheld)
    intro u₃ t₃ before after hqueued₃ hnext₃
    have hinserted := (hcleared.later hseen.later).queued hqueued₃ hnext₃
    refine execute_queued_meets hinserted.queue
      (fun _ => hkinds.2.2.1) (fun _ => rfl) ?_ (fun _ _ => trivial) ?_
    · exact fun _ h => absurd h List.not_mem_nil
    intro _ u₄ t₄ hqueued₄ hnext₄
    have hsync := ImageSync.replaced _ client.startedAt
      (((hlinks u₃.ids.productImages).grows hqueued₃.carried.grows).grows
        hqueued₄.carried.grows)
    rw [fileId_imageRows] at hsync
    exact ⟨_, hinserted.queued hqueued₄ hnext₄, hsync⟩
  · rw [hfailed]
    exact failed_meets fun _ _ => trivial

theorem fetchProductWithImages_meets {runner : Option Client}
    {viewerUserId : Option ℕ} {post : Option ProductView → Market → Prop}
    (hpost : ∀ value t, Later i m t →
      (∀ view, value = some view → ∃ u, Later i m u ∧
        (u.viewFor runner i).products.get productId = some view.row) →
      post value t) :
    (fetchProductWithImages runner productId viewerUserId).Meets
      (acting rights) i post (fun _ _ => True) m := by
  unfold fetchProductWithImages
  refine Program.Meets.bind (select_meets (fun _ _ => trivial) ?_)
  intro u t hseen
  split
  · exact done_meets fun v hv =>
      hpost _ v (Later.trans hseen.later.toRely hv) nofun
  next row hrow =>
  have hshown : ∀ isFavorite images view,
      some (⟨row, isFavorite, images⟩ : ProductView) = some view →
        ∃ u, Later i m u ∧
          (u.viewFor runner i).products.get productId = some view.row := by
    rintro isFavorite images view ⟨⟩
    exact ⟨u, hseen.before, (Option.filter_eq_some_iff.mp hrow).1⟩
  refine Program.Meets.bind (select_meets (fun _ _ => trivial) ?_)
  intro u' t' hseen'
  have hlater := Later.trans hseen.later.toRely hseen'.later
  split
  · exact done_meets fun v hv =>
      hpost _ v (Later.trans hlater.toRely hv) (hshown _ _)
  refine Program.Meets.bind (select_meets (fun _ _ => trivial) ?_)
  intro u'' t'' hseen''
  have hlater' := Later.trans hlater.toRely hseen''.later
  exact done_meets fun v hv =>
    hpost _ v (Later.trans hlater'.toRely hv) (hshown _ _)

/-- The first write of a transaction leaves such a product. -/
def Leaves (user productId : ℕ) (first : Change) (good : ProductRow → Prop) :
    Prop :=
  ∀ t : Market, Beginning user t productId first → ∀ row,
    (t.db.apply first).products.get productId = some row → good row

theorem fetched_meets {first : Change} {client : Client}
    {viewerUserId : Option ℕ} {good : ProductRow → Prop}
    (huser : rights.user = some user)
    (hsynced : Synced user i productId first m)
    (hleaves : Leaves user productId first good) :
    (fetchProductWithImages (some client) productId viewerUserId).Meets
      (acting rights) i
      (fun product u => (∀ view, product = some view → good view.row) ∧
        ∀ v, Later i u v → Committable rights i v)
      (fun _ _ => True) m := by
  refine fetchProductWithImages_meets fun product t ht hshown => ⟨?_, ?_⟩
  · intro view hview
    obtain ⟨u, hu, hrow⟩ := hshown view hview
    obtain ⟨sync, hunderway, hsync⟩ := hsynced.later hu
    have hview : u.viewFor (some client) i =
        schema.settle sync (u.db.apply first) := by
      have hqueue : u.viewFor (some client) i =
          schema.settle (u.store.queue i) u.db := rfl
      rw [hqueue, hunderway.queue]
      rfl
    rw [hview, hsync.products_settle] at hrow
    exact hleaves u hunderway.beginning view.row hrow
  · exact fun v hv =>
      (hsynced.later (Later.trans ht.toRely hv)).committable huser

theorem leaves_insertProduct (new : ProductRow) :
    Leaves user productId (.insertProduct new) fun row => row = new := by
  intro t hbegins row hrow
  cases hbegins with
  | created _ hfree hid howner hclassified =>
      have hself : (t.db.products.insert new).get new.id = some new :=
        Table.get_insert_self hfree
      exact Option.some.inj (hrow.symm.trans hself)

/-- The product that is returned is the user's, with the given details. -/
def Created (user : ℕ) (dto : CreateProductDto)
    (product : Option ProductView) : Prop :=
  ∀ view, product = some view →
    view.row.ownerId = user ∧ view.row.details = dto.details

theorem createProduct_meets {dto : CreateProductDto}
    (huser : rights.user = some user)
    (hwrites : ∀ kind ∈ .insertProduct :: syncWrites, kind ∈ rights.writes) :
    (createProduct user dto).Meets (acting rights) i
      (fun product _ => Created user dto product) (fun _ _ => True) m := by
  rw [List.forall_mem_cons] at hwrites
  refine withTransaction_meets fun client t hsound hqueue => ?_
  refine safe_assertCategoryPair fun hpair => ?_
  refine Program.Meets.bind (run_queued_meets hqueue
    (fun _ _ => hwrites.1) (fun _ _ => rfl) ?_ (fun _ _ => trivial) ?_)
  · rintro u hu lock ⟨other, hother, rfl⟩
    rw [List.mem_singleton.mp hother]
    exact .inl List.mem_cons_self
  intro u v before after hqueued hnext
  have hheld := hqueued.after.held _
    (ReadCommitted.Store.holder_lock_of_mem List.mem_cons_self)
  have hfree : u.db.products.get u.ids.products = none :=
    Option.eq_none_iff_forall_ne_some.mpr fun row hrow =>
      lt_irrefl _ (hqueued.before.sound.within.products _ row hrow)
  have hsame := hqueued.after.product _
    (ReadCommitted.Store.holder_lock_of_mem List.mem_cons_self)
  have hunderway : Underway user i u.ids.products
      (.insertProduct (newProductRow user dto u.ids.products client.startedAt))
      [] v :=
    ⟨hheld, .created _ ((congrArg Prod.fst hsame).trans hfree)
      ((Nat.lt_succ_self _).trans_le hqueued.after.ids.products) rfl hpair,
      hnext⟩
  have hcreated : Leaves user u.ids.products (.insertProduct
      (newProductRow user dto u.ids.products client.startedAt))
      fun row => row.ownerId = user ∧ row.details = dto.details := by
    intro t hbegins row hrow
    rw [leaves_insertProduct _ t hbegins row hrow]
    exact ⟨rfl, rfl⟩
  split
  · exact fetched_meets huser ⟨[], hunderway, .untouched⟩ hcreated
  split
  · exact fetched_meets huser ⟨[], hunderway, .untouched⟩ hcreated
  exact Program.Meets.seq _ (syncProductImages_meets hwrites.2 hunderway)
    fun _ _ hsynced => fetched_meets huser hsynced hcreated

theorem safe_createProduct {dto : CreateProductDto}
    (huser : rights.user = some user)
    (hwrites : ∀ kind ∈ .insertProduct :: syncWrites, kind ∈ rights.writes) :
    Safe rights i m (createProduct user dto) :=
  safe_of_meets (createProduct_meets huser hwrites)

/-- The row that the merged pair was checked on is the one that is patched. -/
theorem classified_patched {row : ProductRow} {dto : UpdateProductDto}
    {ownsSubcategory : Bool} (now : ℕ)
    (hpair : InTaxonomy ((dto.category.map trim).getD row.category)
      (if ownsSubcategory then trimmed dto.subcategory
        else row.subcategory)) :
    (row.patched (productPatchOwning ownsSubcategory dto) now).Classified :=
  hpair

/-- The product that is returned is the user's, with the details that were
given, if any were. -/
def Updated (user : ℕ) (dto : UpdateProductDto)
    (product : Option ProductView) : Prop :=
  ∀ view, product = some view → view.row.ownerId = user ∧
    ∀ details, dto.details = some details → view.row.details = some details

theorem leaves_updateProduct (patch : ProductPatch) (now : ℕ) :
    Leaves user productId (.updateProduct productId patch now) fun row =>
      row.ownerId = user ∧ ∀ details, patch.details = some details →
        row.details = some details := by
  intro t hbegins row hrow
  cases hbegins with
  | updated _ _ _ howns hclassified =>
      obtain ⟨owned, howned, howner, -⟩ := howns
      obtain ⟨old, hold, hnew⟩ := Table.get_modify_eq_some (by intro; rfl) hrow
      obtain rfl := Option.some.inj (howned.symm.trans hold)
      have hid : owned.id = productId := Table.key_of_get hold
      rw [if_pos (by simp [hid])] at hnew
      subst hnew
      refine ⟨howner, fun details hdetails => ?_⟩
      simp [ProductRow.patched, hdetails]

theorem updateProductOwning_meets {dto : UpdateProductDto}
    {ownsSubcategory : Bool} (huser : rights.user = some user)
    (hwrites : ∀ kind ∈ .updateProduct :: syncWrites, kind ∈ rights.writes) :
    (updateProductOwning ownsSubcategory user productId dto).Meets
      (acting rights) i (fun product _ => Updated user dto product)
      (fun _ _ => True) m := by
  rw [List.forall_mem_cons] at hwrites
  refine withTransaction_meets fun client t hsound hqueue => ?_
  refine Program.Meets.bind (assertOwner_meets hqueue ?_)
  intro u hu hholding
  refine Program.Meets.bind (select_meets (fun _ _ => trivial) ?_)
  intro s v hseen
  have hview : s.viewFor (some client) i = s.db :=
    ReadCommitted.Store.view_of_queue_eq_nil _
      ((hseen.before.queue.trans hu.queue).trans hqueue)
  have hrows : v.db.products.get productId = s.db.products.get productId :=
    congrArg Prod.fst (hseen.after.product _
      (hseen.before.held _ hholding.held))
  rw [hview]
  split
  · exact failed_meets fun _ _ => trivial
  next row hrow =>
  refine safe_assertCategoryPair fun hpair => ?_
  have hlater := Later.trans hu.toRely hseen.later
  have hholding := hholding.carried hseen.later.carried
  refine Program.Meets.bind (execute_queued_meets (hlater.queue.trans hqueue)
    (fun _ => hwrites.1) (fun _ => rfl) ?_ (fun _ _ => trivial) ?_)
  · exact List.forall_mem_singleton.mpr hholding.held
  intro _ w x hqueued hnext
  have hsame := hqueued.carried.product _ hholding.held
  have hclassified : ∀ other, x.db.products.get productId = some other →
      (other.patched (productPatchOwning ownsSubcategory dto)
        client.startedAt).Classified := by
    intro other hother
    have hother' := ((congrArg Prod.fst hsame).trans hrows).symm.trans hother
    obtain rfl := Option.some.inj (hrow.symm.trans hother')
    exact classified_patched _ hpair
  have hholding := hholding.carried hqueued.carried
  have hunderway : Underway user i productId
      (.updateProduct productId (productPatchOwning ownsSubcategory dto)
        client.startedAt) [] x :=
    ⟨hholding.held, .updated productId _ _ hholding.owns hclassified, hnext⟩
  split
  · exact fetched_meets huser ⟨[], hunderway, .untouched⟩ (leaves_updateProduct _ _)
  exact Program.Meets.seq _ (syncProductImages_meets hwrites.2 hunderway)
    fun _ _ hsynced => fetched_meets huser hsynced (leaves_updateProduct _ _)

theorem updateProduct_meets {dto : UpdateProductDto}
    (huser : rights.user = some user)
    (hwrites : ∀ kind ∈ .updateProduct :: syncWrites, kind ∈ rights.writes) :
    (updateProduct user productId dto).Meets (acting rights) i
      (fun product _ => Updated user dto product) (fun _ _ => True) m :=
  updateProductOwning_meets huser hwrites

theorem safe_updateProduct {dto : UpdateProductDto}
    (huser : rights.user = some user)
    (hwrites : ∀ kind ∈ .updateProduct :: syncWrites, kind ∈ rights.writes) :
    Safe rights i m (updateProduct user productId dto) :=
  safe_of_meets (updateProduct_meets huser hwrites)

end Transactions

end MarketPlace.Trade
