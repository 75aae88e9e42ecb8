import MarketPlace.MarketHistories
import MarketPlace.MediaIntegrity

/-!
# Who owns the files of images

A file that a product links is recorded as the product's.  Synchronising the
images of a product hands the new files over, but it neither asks whether
another product links them nor releases the files that it drops; where neither
happens, the two tables agree.
-/

namespace MarketPlace.Trade

open EventLog Interleaving Relational

variable {app : Deployment}

/-! ## The agreement -/

def Database.Links (db : Database) (productId fileId : ℕ) : Prop :=
  ∃ row ∈ db.imagesOf productId, row.fileId = fileId

/-- The owner that a file has in its own row. -/
def Database.ownerOf (db : Database) (fileId : ℕ) :
    Option (OwnerType × Option ℕ) :=
  (db.files.get fileId).map fun file => (file.ownerType, file.ownerId)

/-- At some point of the history the product linked the file. -/
def EverLinked
    (opened : Database) (history : List Event) (productId fileId : ℕ) : Prop :=
  ∃ past, past <:+ history ∧ (stored opened past).Links productId fileId

/-- Every image is of a file that is recorded as the image's product's, so that
no file is linked by two products, and what a product no longer links is not
recorded as its own. -/
structure OwnershipAgrees (m : Market) : Prop where
  owned : ∀ row ∈ m.db.productImages.rows,
    m.db.ownerOf row.fileId = some (.product, some row.productId)
  unique : ∀ row ∈ m.db.productImages.rows,
    ∀ other ∈ m.db.productImages.rows, row.fileId = other.fileId →
      row.productId = other.productId
  released : ∀ productId fileId,
    EverLinked m.opened m.history productId fileId →
      ¬ m.db.Links productId fileId →
        m.db.ownerOf fileId ≠ some (.product, some productId)

/-! ## Careful syncs -/

/-- The images of a product are set to these files after this past. -/
structure ImagesSet where
  productId : ℕ
  imageFileIds : List ℕ
  past : List Event

/-- What `syncProductImages` did in a history. -/
def imagesSet : List Event → List ImagesSet
  | .wrote _ _ (.ownFiles productId imageFileIds _) ::
      .wrote _ _ (.insertProductImages _) ::
      .wrote _ _ (.deleteProductImages _) :: past =>
      ⟨productId, imageFileIds, past⟩ :: imagesSet past
  | .wrote _ _ (.deleteProductImages productId) :: past =>
      ⟨productId, [], past⟩ :: imagesSet past
  | _ :: past => imagesSet past
  | [] => []

/-- No file of the request is an image of another product, and the request
keeps the files that the product has. -/
structure ImagesSet.Careful (sync : ImagesSet) (opened : Database) : Prop where
  unshared : ∀ row ∈ (stored opened sync.past).productImages.rows,
    row.fileId ∈ sync.imageFileIds → row.productId = sync.productId
  kept : ∀ row ∈ (stored opened sync.past).imagesOf sync.productId,
    row.fileId ∈ sync.imageFileIds

instance (sync : ImagesSet) (opened : Database) :
    Decidable (sync.Careful opened) :=
  decidable_of_iff
    ((∀ row ∈ (stored opened sync.past).productImages.rows,
      row.fileId ∈ sync.imageFileIds → row.productId = sync.productId) ∧
    ∀ row ∈ (stored opened sync.past).imagesOf sync.productId,
      row.fileId ∈ sync.imageFileIds)
    ⟨fun h => ⟨h.1, h.2⟩, fun h => ⟨h.unshared, h.kept⟩⟩

/-- Every request so far that set the images of a product did so carefully. -/
def ImagesCareful (m : Market) : Prop :=
  ∀ sync ∈ imagesSet m.history, sync.Careful m.opened

instance (m : Market) : Decidable (ImagesCareful m) :=
  inferInstanceAs (Decidable (∀ sync ∈ imagesSet m.history, _))

/-! ## One write -/

/-- An event that is not of `syncProductImages`. -/
def Event.Apart (event : Event) : Prop :=
  ∀ change, event.change = some change → change.kind ∉ syncWrites

theorem imagesSet_cons_of_apart {event : Event} (h : event.Apart)
    (history : List Event) :
    imagesSet (event :: history) = imagesSet history := by
  cases event with
  | wrote i now change =>
      have hkind := h change rfl
      cases change with
      | deleteProductImages | ownFiles =>
          exact absurd (by simp [Change.kind, syncWrites]) hkind
      | _ => rfl
  | _ => rfl

theorem Database.productImages_apply_of_apart {db : Database}
    {change : Change} (h : change.kind ∉ syncWrites) :
    (db.apply change).productImages = db.productImages := by
  cases change with
  | deleteProductImages | insertProductImages =>
      exact absurd (by simp [Change.kind, syncWrites]) h
  | _ => rfl

/-- Who owns a file changes with `syncProductImages` only. -/
theorem Database.ownerOf_apply_of_apart {db : Database} {change : Change}
    (h : change.kind ∉ syncWrites) {fileId : ℕ}
    {owner : OwnerType × Option ℕ} (howner : db.ownerOf fileId = some owner) :
    (db.apply change).ownerOf fileId = some owner := by
  obtain ⟨file, hfile, hcolumns⟩ := Option.map_eq_some_iff.mp howner
  cases change with
  | ownFiles => exact absurd (by simp [Change.kind, syncWrites]) h
  | insertFile row =>
      have hkept : (db.apply (.insertFile row)).files.get fileId = some file :=
        Table.get_insert_of_get hfile
      rw [ownerOf, hkept, Option.map_some, hcolumns]
  | markUploaded other checksumSha256 now =>
      simp only [ownerOf, apply, Table.get_modify, hfile, Option.map_some]
      rw [← hcolumns]
      split <;> rfl
  | _ => exact howner

theorem Database.links_iff (db : Database) (productId fileId : ℕ) :
    db.Links productId fileId ↔ ∃ row ∈ db.productImages.rows,
      row.productId = productId ∧ row.fileId = fileId := by
  simp only [Links, imagesOf, List.mem_filter, decide_eq_true_eq, and_assoc]

theorem Database.links_congr {db db' : Database}
    (h : db'.productImages = db.productImages) (productId fileId : ℕ) :
    db'.Links productId fileId ↔ db.Links productId fileId := by
  rw [links_iff, links_iff, h]

theorem Database.ownerOf_ownFiles (db : Database) (productId : ℕ)
    (fileIds : List ℕ) (now fileId : ℕ) :
    (db.apply (.ownFiles productId fileIds now)).ownerOf fileId =
      (db.ownerOf fileId).map fun owner =>
        if fileId ∈ fileIds then (.product, some productId) else owner := by
  simp only [ownerOf, apply, Table.get_modify, Option.map_map]
  cases hfile : db.files.get fileId with
  | none => rfl
  | some file =>
      have hid : file.id = fileId := Table.key_of_get hfile
      by_cases hmem : fileId ∈ fileIds <;> simp [hid, hmem]

theorem everLinked_cons {opened : Database} {event : Event}
    {history : List Event} {productId fileId : ℕ} :
    EverLinked opened (event :: history) productId fileId ↔
      (stored opened (event :: history)).Links productId fileId ∨
        EverLinked opened history productId fileId := by
  constructor
  · rintro ⟨past, hpast, hlinks⟩
    rcases List.suffix_cons_iff.mp hpast with rfl | hpast
    · exact .inl hlinks
    · exact .inr ⟨past, hpast, hlinks⟩
  · rintro (hlinks | ⟨past, hpast, hlinks⟩)
    · exact ⟨_, List.suffix_refl _, hlinks⟩
    · exact ⟨past, hpast.trans (List.suffix_cons event history), hlinks⟩

/-! ## The invariant -/

/-- A file that a product links or has linked is there, and recorded as the
product's for as long as the product links it. -/
def Recorded (opened : Database) (history : List Event) : Prop :=
  ∀ productId fileId, EverLinked opened history productId fileId →
    ∃ owner, (stored opened history).ownerOf fileId = some owner ∧
      (owner = (.product, some productId) ↔
        (stored opened history).Links productId fileId)

section Recorded

variable {opened : Database} {history : List Event}

/-- An event after which the links and the owners of files are as before. -/
theorem Recorded.cons {event : Event} (h : Recorded opened history)
    (hlinks : ∀ productId fileId,
      (stored opened (event :: history)).Links productId fileId ↔
        (stored opened history).Links productId fileId)
    (howners : ∀ fileId owner, (stored opened history).ownerOf fileId =
      some owner →
        (stored opened (event :: history)).ownerOf fileId = some owner) :
    Recorded opened (event :: history) := by
  intro productId fileId hever
  have hbefore : EverLinked opened history productId fileId := by
    rcases everLinked_cons.mp hever with hnow | hbefore
    · exact ⟨history, List.suffix_refl _, (hlinks _ _).mp hnow⟩
    · exact hbefore
  obtain ⟨owner, howner, hiff⟩ := h productId fileId hbefore
  exact ⟨owner, howners fileId owner howner, hiff.trans (hlinks _ _).symm⟩

theorem Recorded.apart {event : Event} (h : Recorded opened history)
    (hapart : event.Apart) : Recorded opened (event :: history) := by
  cases hchange : event.change with
  | none =>
      have hsame : stored opened (event :: history) = stored opened history :=
        Event.effect_of_change_eq_none hchange _
      exact h.cons (fun _ _ => hsame ▸ Iff.rfl) fun _ _ howner => hsame ▸ howner
  | some change =>
      have happly : stored opened (event :: history) =
          (stored opened history).apply change :=
        Event.effect_of_change hchange _
      refine h.cons (fun productId fileId => ?_) fun fileId owner howner => ?_
      · rw [happly]
        exact Database.links_congr
          (Database.productImages_apply_of_apart (hapart change hchange)) _ _
      · rw [happly]
        exact Database.ownerOf_apply_of_apart (hapart change hchange) howner

/-- Clearing the images of a product that has none. -/
theorem Recorded.cleared {i now productId : ℕ} (h : Recorded opened history)
    (hcareful : ImagesSet.Careful ⟨productId, [], history⟩ opened) :
    Recorded opened (.wrote i now (.deleteProductImages productId) :: history) := by
  have hnone : ∀ row ∈ (stored opened history).productImages.rows,
      row.productId ≠ productId := by
    intro row hrow heq
    have himage : row ∈ (stored opened history).imagesOf productId :=
      List.mem_filter.mpr ⟨hrow, decide_eq_true heq⟩
    exact absurd (hcareful.kept row himage) List.not_mem_nil
  have hrows : ((stored opened history).productImages.filter fun row =>
      row.productId ≠ productId).rows =
      (stored opened history).productImages.rows :=
    List.filter_eq_self.mpr fun row hrow => decide_eq_true (hnone row hrow)
  refine h.cons (fun other fileId => ?_) fun fileId owner howner => howner
  rw [Database.links_iff, Database.links_iff]
  exact iff_of_eq (congrArg (fun rows => ∃ row ∈ rows,
    row.productId = other ∧ row.fileId = fileId) hrows)

section Replaced

variable {user productId : ℕ} {rows : List ProductImageRow} {i now : ℕ}

theorem ImageLinks.mem_fileIds {db : Database}
    (hlinks : ImageLinks user productId db rows) {fileId : ℕ}
    (hmem : fileId ∈ rows.map ProductImageRow.fileId) :
    ∃ file, db.files.get fileId = some file := by
  obtain ⟨row, hrow, rfl⟩ := List.mem_map.mp hmem
  obtain ⟨file, hfile, -⟩ := hlinks.files row hrow
  exact ⟨file, hfile⟩

/-- What a product links once its images are replaced. -/
theorem links_replaced {db : Database}
    (hlinks : ImageLinks user productId db rows) (other fileId : ℕ) :
    ((db.apply (.deleteProductImages productId)).apply
      (.insertProductImages rows)).Links other fileId ↔
      if other = productId then fileId ∈ rows.map ProductImageRow.fileId
      else db.Links other fileId := by
  split
  · next heq =>
      subst heq
      rw [Database.Links, imagesOf_insertProductImages
        (imagesOf_deleteProductImages other db) hlinks.product hlinks.order,
        List.mem_map]
  · next hne =>
      have hinserted : other ∉ (Change.insertProductImages rows).products := by
        intro hmem
        obtain ⟨row, hrow, hrow'⟩ := List.mem_map.mp hmem
        exact hne (hrow'.symm.trans (hlinks.product row hrow))
      have hdeleted : other ∉ (Change.deleteProductImages productId).products :=
        fun hmem => hne (List.mem_singleton.mp hmem)
      have hafter : (db.apply (.deleteProductImages productId)).productState
          other = db.productState other :=
        Database.productState_apply_of_untouched hdeleted
      have himages := congrArg Prod.snd
        ((Database.productState_apply_of_untouched hinserted).trans hafter)
      rw [Database.Links, Database.Links]
      exact iff_of_eq (congrArg (fun images => ∃ row ∈ images,
        row.fileId = fileId) himages)

variable {fileIds : List ℕ} {time : ℕ}

/-- A sync adds no links but those of its files. -/
theorem everLinked_replaced
    (hlinks : ImageLinks user productId (stored opened history) rows)
    (hfileIds : rows.map ProductImageRow.fileId = fileIds) {other fileId : ℕ}
    (hever : EverLinked opened
      (.wrote i now (.ownFiles productId fileIds time) ::
        .wrote i now (.insertProductImages rows) ::
        .wrote i now (.deleteProductImages productId) :: history)
      other fileId) :
    (other = productId ∧ fileId ∈ fileIds) ∨
      EverLinked opened history other fileId := by
  have hinserted : (((stored opened history).apply
      (.deleteProductImages productId)).apply
        (.insertProductImages rows)).Links other fileId →
      (other = productId ∧ fileId ∈ fileIds) ∨
        EverLinked opened history other fileId := by
    intro hnow
    rw [links_replaced hlinks, hfileIds] at hnow
    split at hnow
    · next heq => exact .inl ⟨heq, hnow⟩
    · exact .inr ⟨history, List.suffix_refl _, hnow⟩
  rcases everLinked_cons.mp hever with hnow | hever
  · exact hinserted ((Database.links_congr rfl other fileId).mp hnow)
  rcases everLinked_cons.mp hever with hnow | hever
  · exact hinserted hnow
  rcases everLinked_cons.mp hever with hnow | hever
  · obtain ⟨row, hrow, hcolumns⟩ := (Database.links_iff _ _ _).mp hnow
    exact .inr ⟨history, List.suffix_refl _, (Database.links_iff _ _ _).mpr
      ⟨row, List.mem_of_mem_filter hrow, hcolumns⟩⟩
  · exact .inr hever

/-- A careful sync hands over the files of its images and keeps the rest. -/
theorem Recorded.replaced (h : Recorded opened history)
    (hlinks : ImageLinks user productId (stored opened history) rows)
    (hfileIds : rows.map ProductImageRow.fileId = fileIds)
    (hcareful : ImagesSet.Careful ⟨productId, fileIds, history⟩ opened) :
    Recorded opened
      (.wrote i now (.ownFiles productId fileIds time) ::
        .wrote i now (.insertProductImages rows) ::
        .wrote i now (.deleteProductImages productId) :: history) := by
  intro other fileId hever
  have hnow : (stored opened
      (.wrote i now (.ownFiles productId fileIds time) ::
        .wrote i now (.insertProductImages rows) ::
        .wrote i now (.deleteProductImages productId) :: history)).Links
        other fileId ↔
        if other = productId then fileId ∈ fileIds
        else (stored opened history).Links other fileId :=
    hfileIds ▸ (Database.links_congr rfl other fileId).trans
      (links_replaced hlinks other fileId)
  obtain ⟨owner, hbefore, hiff⟩ : ∃ owner,
      (stored opened history).ownerOf fileId = some owner ∧
        (fileId ∉ fileIds → (owner = (.product, some other) ↔
          (stored opened history).Links other fileId)) := by
    rcases everLinked_replaced hlinks hfileIds hever with ⟨-, hmem⟩ | hever
    · obtain ⟨file, hfile⟩ := hlinks.mem_fileIds (hfileIds ▸ hmem)
      exact ⟨_, congrArg _ hfile, fun hnot => absurd hmem hnot⟩
    · obtain ⟨owner, hbefore, hiff⟩ := h other fileId hever
      exact ⟨owner, hbefore, fun _ => hiff⟩
  have howner := (Database.ownerOf_ownFiles
    (((stored opened history).apply (.deleteProductImages productId)).apply
      (.insertProductImages rows)) productId fileIds time fileId).trans
        (congrArg _ hbefore)
  refine ⟨if fileId ∈ fileIds then (.product, some productId) else owner,
    howner, ?_⟩
  rw [hnow]
  by_cases hmem : fileId ∈ fileIds
  · rw [if_pos hmem]
    by_cases heq : other = productId
    · simp only [heq, if_true, hmem]
    · rw [if_neg heq]
      have hnot : ¬ (stored opened history).Links other fileId := by
        intro hlink
        obtain ⟨row, hrow, hproduct, rfl⟩ := (Database.links_iff _ _ _).mp hlink
        exact heq (hproduct.symm.trans (hcareful.unshared row hrow hmem))
      refine iff_of_false (fun hsame => heq ?_) hnot
      exact (Option.some.inj (congrArg Prod.snd hsame)).symm
  · rw [if_neg hmem, hiff hmem]
    by_cases heq : other = productId
    · rw [if_pos heq]
      refine iff_of_false (fun hlink => hmem ?_) hmem
      obtain ⟨row, hrow, rfl⟩ := hlink
      exact hcareful.kept row (heq ▸ hrow)
    · rw [if_neg heq]

end Replaced

end Recorded

/-! ## Steps -/

/-- The first statement of a transaction on a product is none of
`syncProductImages`. -/
theorem ProductTransaction.begins {user : ℕ} {m : Market}
    {changes : List Change} (h : ProductTransaction user m changes) :
    ∃ productId first sync, changes = first :: sync ∧
      first.kind ∉ syncWrites ∧ ImageSync user productId m.db sync := by
  cases h with
  | created row sync hfree hid howner hclassified hsync =>
      exact ⟨row.id, _, sync, rfl, by simp [Change.kind, syncWrites], hsync⟩
  | updated productId now patch sync howns hclassified hsync =>
      exact ⟨productId, _, sync, rfl, by simp [Change.kind, syncWrites], hsync⟩
  | deleted productId now howns =>
      exact ⟨productId, _, [], rfl, by simp [Change.kind, syncWrites],
        .untouched⟩
  | statusUpdated productId status now howns =>
      exact ⟨productId, _, [], rfl, by simp [Change.kind, syncWrites],
        .untouched⟩

/-- What carries the agreement through a run. -/
def RecordedIfCareful (m : Market) : Prop :=
  ImagesCareful m → Recorded m.opened m.history

theorem RecordedIfCareful.apart {m m' : Market} {event : Event}
    (h : RecordedIfCareful m) (hopened : m'.opened = m.opened)
    (hhistory : m'.history = event :: m.history) (hapart : event.Apart) :
    RecordedIfCareful m' := by
  intro hcareful
  rw [ImagesCareful, hopened, hhistory, imagesSet_cons_of_apart hapart]
    at hcareful
  rw [hopened, hhistory]
  exact (h hcareful).apart hapart

theorem Change.apart_of_alone {change : Change}
    (h : change.transactional = false) : change.kind ∉ syncWrites := by
  cases change with
  | deleteProductImages | insertProductImages | ownFiles => contradiction
  | _ => simp [Change.kind, syncWrites]

theorem Event.apart_of_change {event : Event} {change : Change}
    (hchange : event.change = some change) (h : change.kind ∉ syncWrites) :
    event.Apart := by
  intro other hother
  obtain rfl := Option.some.inj (hchange.symm.trans hother)
  exact h

theorem Event.apart_of_none {event : Event} (h : event.change = none) :
    event.Apart :=
  fun _ hchange => nomatch h.symm.trans hchange

/-- A transaction that sets the images carefully keeps the agreement. -/
theorem recorded_flush {opened : Database} {history : List Event}
    {user i now productId : ℕ} {sync : List Change}
    (hsync : ImageSync user productId (stored opened history) sync)
    (hcareful : ∀ images ∈ imagesSet (Market.flush i now sync history),
      images.Careful opened)
    (h : (∀ images ∈ imagesSet history, images.Careful opened) →
      Recorded opened history) :
    Recorded opened (Market.flush i now sync history) := by
  cases hsync with
  | untouched => exact h hcareful
  | cleared =>
      have hsplit := List.forall_mem_cons.mp hcareful
      exact (h hsplit.2).cleared hsplit.1
  | replaced rows time hlinks =>
      have hsplit := List.forall_mem_cons.mp hcareful
      exact (h hsplit.2).replaced hlinks rfl hsplit.1

theorem Acts.recorded {rights : Rights} {i : ℕ} {m m' : Market}
    (hacts : Acts rights i m m') (hsound : m.Sound)
    (h : RecordedIfCareful m) : RecordedIfCareful m' := by
  rcases hacts with rfl | hstep
  · exact h
  cases hstep with
  | lost change hwrites => exact h.apart rfl rfl (Event.apart_of_none rfl)
  | rejected client change violation hwrites hviolation =>
      exact h.apart rfl rfl (Event.apart_of_none rfl)
  | wrote actor change huser hwrites halone hunlocked hviolation hoffered =>
      exact h.apart rfl rfl
        (Event.apart_of_change rfl (Change.apart_of_alone halone))
  | queued | locked | rolledBack => exact h
  | committed actor huser htransaction =>
      obtain ⟨productId, first, sync, hqueue, hfirst, hsync⟩ :=
        htransaction.begins
      have hapart : (Event.wrote i m.now first).Apart :=
        Event.apart_of_change rfl hfirst
      have hstored : stored m.opened (.wrote i m.now first :: m.history) =
          m.db.apply first := by
        rw [hsound.traced]
        rfl
      have hbegun : (∀ images ∈ imagesSet (.wrote i m.now first :: m.history),
          images.Careful m.opened) →
          Recorded m.opened (.wrote i m.now first :: m.history) := by
        intro hcareful
        rw [imagesSet_cons_of_apart hapart] at hcareful
        exact (h hcareful).apart hapart
      have hsync' : ImageSync actor productId
          (stored m.opened (.wrote i m.now first :: m.history)) sync := by
        rw [hstored]
        exact hsync.grows (m.db.grows_apply first)
      have hrest : (∀ images ∈ imagesSet (Market.flush i m.now sync
          (.wrote i m.now first :: m.history)), images.Careful m.opened) →
          Recorded m.opened (Market.flush i m.now sync
            (.wrote i m.now first :: m.history)) :=
        fun hcareful => recorded_flush hsync' hcareful hbegun
      intro hcareful
      rw [ImagesCareful, Market.commit, hqueue] at hcareful
      rw [Market.commit, hqueue]
      exact hrest hcareful

theorem RecordedIfCareful.surroundings {event : Surroundings} {m : Market}
    (h : RecordedIfCareful m) : RecordedIfCareful (m.surroundings event) := by
  cases event with
  | timePasses amount => exact h
  | userRegisters name phone =>
      exact h.apart rfl rfl
        (Event.apart_of_change rfl (Change.apart_of_alone rfl))
  | userDeleted userId =>
      exact h.apart rfl rfl
        (Event.apart_of_change rfl (Change.apart_of_alone rfl))

/-! ## Runs -/

variable {now : ℕ} {pool : Pool Request Draw Market Fault Response}

theorem Recorded.agrees {m : Market} (hsound : m.Sound)
    (h : Recorded m.opened m.history) : OwnershipAgrees m := by
  have hrecorded : ∀ productId fileId,
      EverLinked m.opened m.history productId fileId →
        (m.db.ownerOf fileId = some (.product, some productId) ↔
          m.db.Links productId fileId) := by
    intro productId fileId hever
    obtain ⟨owner, howner, hiff⟩ := h productId fileId hever
    rw [hsound.traced, howner, Option.some.injEq]
    exact hiff
  have howned : ∀ row ∈ m.db.productImages.rows,
      m.db.ownerOf row.fileId = some (.product, some row.productId) := by
    intro row hrow
    have hlinks : m.db.Links row.productId row.fileId :=
      (Database.links_iff _ _ _).mpr ⟨row, hrow, rfl, rfl⟩
    refine (hrecorded _ _ ⟨m.history, List.suffix_refl _, ?_⟩).mpr hlinks
    rwa [← hsound.traced]
  constructor
  case owned => exact howned
  case unique =>
    intro row hrow other hother hfile
    have hrowOwner := howned row hrow
    rw [hfile, howned other hother] at hrowOwner
    injection hrowOwner with hcolumns
    exact (Option.some.inj (congrArg Prod.snd hcolumns)).symm
  case released =>
    exact fun productId fileId hever hnot howner =>
      hnot ((hrecorded productId fileId hever).mp howner)

/-- In a run in which every request that sets the images of a product keeps the
files that the product has and takes none of another product, the owners of
files agree with the links of images in every state. -/
theorem ownership_agrees_of_careful
    (hreach : (market app).Reaches (fun _ _ => True) (Pool.opening now) pool)
    (hcareful : ImagesCareful pool.state) : OwnershipAgrees pool.state := by
  have hsound := (onCourse_of_reaches hreach).invariant
  have hrecorded : RecordedIfCareful pool.state :=
    hreach.furtherWithin market_sound onCourse_opening RecordedIfCareful
      (fun _ productId fileId hever => by
        obtain ⟨past, hpast, row, hrow, -⟩ := hever
        obtain rfl := List.suffix_nil.mp hpast
        exact absurd hrow List.not_mem_nil)
      (fun hacts hsound h => hacts.recorded hsound h)
      fun _ _ _ h => h.surroundings
  exact (hrecorded hcareful).agrees hsound

def withImages (imageFileIds : List ℕ) : CreateProductDto :=
  { sampleProduct with imageFileIds := some imageFileIds }

/-- User 1 uploads file 1 and lists a product with it. -/
def listsWithImage : List (Move Request Draw Surroundings) :=
  [Move.environment (Surroundings.userRegisters "Amina" "+201")] ++
    uploads 0 1 .productImage ++
    [Move.submit (Request.createProduct 1 (withImages [1]))] ++
    List.replicate 10 (Move.advance 2 calmDraw)

theorem ownership_agrees_of_careful_image :
    ∃ pool, (market sampleApp).Reaches (fun _ _ => True) (Pool.opening 0)
        pool ∧
      pool.state.db.productImages.rows ≠ [] ∧ OwnershipAgrees pool.state := by
  obtain ⟨pool, hreach, hcheck⟩ := System.exists_reaches_of_run
    (show ((market sampleApp).run listsWithImage (Pool.opening 0)).any
      (fun pool => !pool.state.db.productImages.rows.isEmpty &&
        decide (ImagesCareful pool.state)) = true by decide +kernel)
  simp only [Bool.and_eq_true, Bool.not_eq_true', List.isEmpty_eq_false_iff,
    decide_eq_true_eq] at hcheck
  exact ⟨pool, hreach, hcheck.1, ownership_agrees_of_careful hreach hcheck.2⟩

/-- Two products of user 1 are listed with the same file. -/
def listsTwice : List (Move Request Draw Surroundings) :=
  listsWithImage ++
    [Move.submit (Request.createProduct 1 (withImages [1]))] ++
    List.replicate 10 (Move.advance 3 calmDraw)

theorem not_always_ownership_agrees :
    ¬ ∀ pool, (market sampleApp).Reaches (fun _ _ => True) (Pool.opening 0)
        pool → OwnershipAgrees pool.state := by
  intro halways
  obtain ⟨pool, hreach, hcheck⟩ := System.exists_reaches_of_run
    (show ((market sampleApp).run listsTwice (Pool.opening 0)).any
      (fun pool => pool.state.db.productImages.rows.any fun row =>
        pool.state.db.ownerOf row.fileId ≠
          some (.product, some row.productId)) = true by decide +kernel)
  obtain ⟨row, hrow, hother⟩ := List.any_eq_true.mp hcheck
  exact of_decide_eq_true hother ((halways pool hreach).owned row hrow)

end MarketPlace.Trade
