import MarketPlace.SearchStatements

/-!
# The statements of the product images

`syncProductImages` looks all files up with one placeholder each, and inserts
all images in one statement whose tuples count their placeholders in steps of
three against one flat list of parameters.
-/

namespace MarketPlace.Trade.Assembled

open Interleaving NumberedParameters

/-! ## Looking the files up -/

/-- The numbers of `WHERE id IN (…)`. -/
def placeholders (imageFileIds : List ℕ) : List ℕ :=
  imageFileIds.mapIdx fun i _ => i + 1

def selectFiles (params : List Value) (placeholders : List ℕ)
    (db : Database) : Option (List FileRow) :=
  if covers params.length placeholders then do
    let fileIds ← placeholders.mapM fun number =>
      (bound params number).bind Value.toBigint
    some (db.filesById fileIds)
  else none

/-! ## Inserting the images -/

/-- The numbers in the tuples after VALUES: the product, the file, its object
key and its position. -/
def insertValues (imageFileIds : List ℕ) : List (ℕ × ℕ × ℕ × ℕ) :=
  imageFileIds.mapIdx fun i _ => (1, i * 3 + 2, i * 3 + 3, i * 3 + 4)

def insertParams (productId : ℕ) (files : List FileRow)
    (imageFileIds : List ℕ) : List Value :=
  .ofNat productId :: (imageFileIds.mapIdx fun i fileId =>
    [Value.ofNat fileId,
      .text (((fileOf files fileId).map FileRow.objectKey).getD ""),
      .ofNat i]).flatten

def Value.toText : Value → Option String
  | .text value => some value
  | _ => none

/-- The row of one tuple, but for its identity value. -/
def insertedRow (params : List Value) (values : ℕ × ℕ × ℕ × ℕ) :
    Option (ℕ → ProductImageRow) := do
  let productId ← (bound params values.1).bind Value.toBigint
  let fileId ← (bound params values.2.1).bind Value.toBigint
  let objectKey ← (bound params values.2.2.1).bind Value.toText
  let sortOrder ← (bound params values.2.2.2).bind Value.toBigint
  some fun id => ⟨id, productId, fileId, objectKey, sortOrder⟩

/-- The rows that the statement inserts, unless Postgres rejects it. -/
def insertedRows (params : List Value) (values : List (ℕ × ℕ × ℕ × ℕ)) :
    Option (ℕ → List ProductImageRow) :=
  if covers params.length
      (values.flatMap fun (a, b, c, d) => [a, b, c, d]) then do
    let rows ← values.mapM (insertedRow params)
    some fun firstId => rows.mapIdx fun position row => row (firstId + position)
  else none

def syncProductImages
    (client : Client) (actorUserId productId : ℕ) (imageFileIds : List ℕ) :
    Operation Unit := do
  perform (some client) fun _ => .deleteProductImages productId
  if imageFileIds = [] then pure ()
  else do
    let files ← query (some client) (selectFiles
      (imageFileIds.map Value.ofNat) (placeholders imageFileIds))
    validateFiles actorUserId files imageFileIds
    match insertedRows (insertParams productId files imageFileIds)
        (insertValues imageFileIds) with
    | none => throw rejected
    | some rows =>
        run (some client)
          (fun _ ids => .insertProductImages (rows ids.productImages))
          fun _ _ _ _ => ()
    perform (some client) fun now => .ownFiles productId imageFileIds now

/-! ## What the statements do -/

section Rows

variable {db : Database} {productId : ℕ} {files : List FileRow}
  {imageFileIds : List ℕ}

theorem selectFiles_eq :
    selectFiles (imageFileIds.map Value.ofNat) (placeholders imageFileIds) db =
      some (db.filesById imageFileIds) := by
  have hcovers : covers (imageFileIds.map Value.ofNat).length
      (placeholders imageFileIds) = true := by
    refine covers_of_forall fun number => ?_
    simp only [placeholders, List.mem_mapIdx, List.length_map]
    constructor
    · rintro ⟨i, hi, rfl⟩
      omega
    · rintro ⟨hpos, hle⟩
      exact ⟨number - 1, by omega, by omega⟩
  have hvalues : (placeholders imageFileIds).map (fun number =>
      (bound (imageFileIds.map Value.ofNat) number).bind Value.toBigint) =
        imageFileIds.map some := by
    refine List.ext_getElem (by simp [placeholders]) fun i h h' => ?_
    simp only [List.length_map] at h'
    simp [placeholders, List.getElem?_eq_getElem h']
  rw [selectFiles, if_pos hcovers, mapM_eq_some hvalues]
  rfl

/-- The parameters of one image. -/
def imageParams (files : List FileRow) (i fileId : ℕ) : List Value :=
  [.ofNat fileId,
    .text (((fileOf files fileId).map FileRow.objectKey).getD ""), .ofNat i]

theorem length_imageParams : ∀ row ∈ imageFileIds.mapIdx (imageParams files),
    row.length = 3 := by
  intro row hrow
  obtain ⟨i, hi, rfl⟩ := List.mem_mapIdx.mp hrow
  rfl

/-- The parameter that a tuple's number stands for. -/
theorem bound_insertParams {i column : ℕ} (hcolumn : column < 3)
    (hi : i < imageFileIds.length) :
    bound (insertParams productId files imageFileIds) (i * 3 + column + 2) =
      (imageParams files i imageFileIds[i])[column]? := by
  refine (bound_cons_flatten length_imageParams hcolumn i).trans ?_
  rw [List.getElem?_mapIdx, List.getElem?_eq_getElem hi]
  rfl

theorem insertedRow_eq {i : ℕ} (hi : i < imageFileIds.length) :
    insertedRow (insertParams productId files imageFileIds)
      (1, i * 3 + 2, i * 3 + 3, i * 3 + 4) =
        some fun id => ⟨id, productId, imageFileIds[i],
          ((fileOf files imageFileIds[i]).map FileRow.objectKey).getD "", i⟩ := by
  have hfile := @bound_insertParams productId files imageFileIds i 0
    (by decide) hi
  have hkey := @bound_insertParams productId files imageFileIds i 1
    (by decide) hi
  have hposition := @bound_insertParams productId files imageFileIds i 2
    (by decide) hi
  have hproduct : bound (insertParams productId files imageFileIds) 1 =
      some (Value.ofNat productId) := rfl
  simp only [insertedRow, hproduct, show i * 3 + 2 = i * 3 + 0 + 2 from rfl,
    show i * 3 + 3 = i * 3 + 1 + 2 from rfl,
    show i * 3 + 4 = i * 3 + 2 + 2 from rfl, hfile, hkey, hposition]
  simp [imageParams, Value.toText]

theorem covers_insertValues (hne : imageFileIds ≠ []) :
    covers (insertParams productId files imageFileIds).length
      ((insertValues imageFileIds).flatMap fun (a, b, c, d) => [a, b, c, d]) =
        true := by
  have hlength : (insertParams productId files imageFileIds).length =
      imageFileIds.length * 3 + 1 := by
    have hflat := length_flatten (@length_imageParams files imageFileIds)
    rw [List.length_mapIdx] at hflat
    exact congrArg (· + 1) hflat
  refine covers_of_forall fun number => ?_
  rw [hlength]
  simp only [insertValues, List.mem_flatMap, List.mem_mapIdx]
  have hpos := List.length_pos_of_ne_nil hne
  constructor
  · rintro ⟨_, ⟨i, hi, rfl⟩, hnumber⟩
    simp only [List.mem_cons, List.not_mem_nil, or_false] at hnumber
    omega
  · rintro ⟨hfirst, hlast⟩
    -- the tuple of the image, or the first tuple for the product's number
    refine ⟨_, ⟨(number - 2) / 3, by omega, rfl⟩, ?_⟩
    simp only [List.mem_cons, List.not_mem_nil, or_false]
    omega

theorem insertedRows_eq (hne : imageFileIds ≠ []) :
    insertedRows (insertParams productId files imageFileIds)
      (insertValues imageFileIds) =
        some (imageRows productId files imageFileIds) := by
  have hvalues : (insertValues imageFileIds).map
      (insertedRow (insertParams productId files imageFileIds)) =
        (imageFileIds.mapIdx fun i fileId => fun id =>
          ProductImageRow.mk id productId fileId
            (((fileOf files fileId).map FileRow.objectKey).getD "") i).map
              some := by
    refine List.ext_getElem (by simp [insertValues]) fun i h h' => ?_
    simp only [List.length_map, List.length_mapIdx] at h'
    simp only [insertValues, List.getElem_map, List.getElem_mapIdx]
    exact insertedRow_eq h'
  rw [insertedRows, if_pos (covers_insertValues hne), mapM_eq_some hvalues]
  simp only [Option.bind_eq_bind, Option.bind_some, Option.some.injEq]
  funext firstId
  rw [List.mapIdx_mapIdx]
  rfl

theorem syncProductImages_eq (client : Client) (actorUserId productId : ℕ)
    (imageFileIds : List ℕ) :
    syncProductImages client actorUserId productId imageFileIds =
      Trade.syncProductImages client actorUserId productId imageFileIds := by
  unfold syncProductImages Trade.syncProductImages
  by_cases hnone : imageFileIds = []
  · simp only [hnone, if_true]
  · simp only [hnone, if_false, query_eq_select fun _ => selectFiles_eq,
      insertedRows_eq hnone]

end Rows

/-! ## The calls -/

def createProduct (user : ℕ) (dto : CreateProductDto) :
    Operation (Option ProductView) :=
  withTransaction fun client => do
    assertCategoryPair (trim dto.category) (trimmed dto.subcategory) false
    let insert ← insertReturning (some client)
      (fun now ids => newProductRow user dto ids.products now) .insertProduct
    match dto.imageFileIds with
    | none => pure ()
    | some imageFileIds =>
        if imageFileIds = [] then pure ()
        else syncProductImages client user insert.id imageFileIds
    fetchProductWithImages (some client) insert.id (some user)

def updateProduct (user productId : ℕ) (dto : UpdateProductDto) :
    Operation (Option ProductView) :=
  withTransaction fun client => do
    assertOwner client user productId
    let current ← select (some client) fun db => db.products.get productId
    match current with
    | none => throw typeError
    | some row => do
        let nextCategory := (dto.category.map trim).getD row.category
        let nextSubcategory :=
          if hasOwnProperty dto.subcategory then trimmed dto.subcategory
          else row.subcategory
        assertCategoryPair nextCategory nextSubcategory false
        perform (some client) fun now =>
          .updateProduct productId (productPatch dto) now
        match dto.imageFileIds with
        | none => pure ()
        | some imageFileIds =>
            syncProductImages client user productId imageFileIds
        fetchProductWithImages (some client) productId (some user)

theorem createProduct_eq (user : ℕ) (dto : CreateProductDto) :
    createProduct user dto = Trade.createProduct user dto := by
  simp only [createProduct, syncProductImages_eq]
  rfl

theorem updateProduct_eq (user productId : ℕ) (dto : UpdateProductDto) :
    updateProduct user productId dto =
      Trade.updateProduct user productId dto := by
  simp only [updateProduct, syncProductImages_eq]
  rfl

end MarketPlace.Trade.Assembled
