import MarketPlace.MarketHistories

/-!
# Categories and subcategories

The database checks the category and the subcategory of a product apart from
each other.  That they belong together is checked on the pair that a request
merges from what it is given and what is stored, while it holds the product's
lock, so that the row it patches is the row it checked.
-/

namespace MarketPlace.Trade

open EventLog Interleaving Relational

variable {app : Deployment}

/-! ## Every caller of an update -/

/-- An update by a caller whose object may lack its own `subcategory`. -/
structure Edit where
  user : ℕ
  productId : ℕ
  dto : UpdateProductDto
  ownsSubcategory : Bool

def Edit.rights (edit : Edit) : Rights :=
  ⟨some edit.user, .updateProduct :: syncWrites⟩

def Edit.handler (edit : Edit) : Operation Response := do
  let product ← updateProductOwning edit.ownsSubcategory edit.user
    edit.productId edit.dto
  pure (.product product)

/-- The market with updates by every caller. -/
def editing (app : Deployment) :
    System (Request ⊕ Edit) Draw Surroundings Market Fault Response where
  handler := Sum.elim (Request.handler app) Edit.handler
  environment := Market.surroundings

/-- A request of the class's own objects is one of the market's. -/
theorem handler_edit (user productId : ℕ) (dto : UpdateProductDto) :
    Edit.handler ⟨user, productId, dto, hasOwnProperty dto.subcategory⟩ =
      Request.handler app (.updateProduct user productId dto) := rfl

def editingRights : Request ⊕ Edit → Rights :=
  Sum.elim Request.rights Edit.rights

theorem editing_sound : (editing app).SoundWithin discipline
    (fun request i => Acts (editingRights request) i) Fresh (fun _ _ => True)
    (fun _ _ _ _ => True) (fun _ _ _ _ => True) where
  handler_meets request i m _ hfresh := by
    cases request with
    | inl request =>
        have hmeets : (request.handler app).Meets (acting request.rights) i
            (fun _ t => PointersFollowed i t) (fun _ t => PointersFollowed i t)
            m := request.handler_meets hfresh
        exact hmeets.mono (fun _ _ _ => trivial) fun _ _ _ => trivial
    | inr edit =>
        exact (safe_of_meets (updateProductOwning_meets rfl fun _ => id)).map
  guarantee_fresh hne hguarantee hfresh :=
    fresh_of_guarantee hne hguarantee hfresh
  environment_fresh event _ _ hfresh := Market.fresh_surroundings hfresh
  environment_rely event i m _ := Market.rely_surroundings event i m
  environment_invariant event m hsound := Market.sound_surroundings hsound

/-! ## The pair stays together -/

def Database.Classified (db : Database) : Prop :=
  ∀ productId row, db.products.get productId = some row → row.Classified

/-- A warranted write keeps the pair of every product in the taxonomy. -/
theorem Database.Classified.apply {db : Database} {change : Change}
    (h : db.Classified) (hwarranted : change.Warranted db) :
    (db.apply change).Classified := by
  intro productId row hrow
  cases change with
  | insertProduct inserted =>
      rcases Table.get_insert_eq_some hrow with hold | ⟨hnew, -⟩
      · exact h productId row hold
      · exact hnew ▸ hwarranted.1
  | updateProduct updated patch now =>
      obtain ⟨old, hold, hnew⟩ := Table.get_modify_eq_some (by intro; rfl) hrow
      by_cases hid : old.id = updated
      · have hupdated : productId = updated :=
          (Table.key_of_get hold).symm.trans hid
        subst hupdated
        rw [if_pos (by simpa using hid)] at hnew
        exact hnew ▸ hwarranted old hold
      · rw [if_neg (by simpa using hid)] at hnew
        exact hnew ▸ h productId old hold
  | deleteProduct | updateProductStatus =>
      obtain ⟨old, hold, hnew⟩ := Table.get_modify_eq_some (by intro; rfl) hrow
      have hclassified := h productId old hold
      split at hnew <;> exact hnew ▸ hclassified
  | _ => exact h productId row hrow

theorem Warranted.classified {m : Market} (h : Warranted m)
    (hopened : m.opened.Classified) :
    (stored m.opened m.history).Classified :=
  stored_lawful (fun event db => event.Warranted db) Database.Classified h
    hopened fun _ _ change hevent hchange hdb =>
      hdb.apply (hevent change hchange)

/-! ## Runs -/

abbrev EditingPool := Pool (Request ⊕ Edit) Draw Market Fault Response

def EditingPool.opening (now : ℕ) : EditingPool := ⟨Market.initial now, []⟩

variable {pool : EditingPool} {now : ℕ}

theorem onCourse_editing : System.OnCourseWithin discipline
    (fun request i => Acts (editingRights request) i) Fresh
    (fun _ _ _ _ => True) (fun _ _ _ _ => True)
    (EditingPool.opening now) := by
  refine System.OnCourseWithin.of_empty rfl ?_ fun i => ?_
  · exact Market.sound_opening (Database.within_empty _) Database.linked_empty
  · exact ⟨rfl, fun _ h => absurd h List.not_mem_nil⟩

/-- In every state that requests and updates by any callers reach, the
category of every product is listed and its subcategory, if it has one, is one
of the category's own other than "all". -/
theorem products_classified
    (hreach : (editing app).Reaches (fun _ _ => True)
      (EditingPool.opening now) pool) :
    ∀ row ∈ pool.state.db.products.rows,
      (row.category ∈ productCategories ∧
        categoryToSubcategories row.category ≠ []) ∧
      ∀ subcategory, row.subcategory = some subcategory →
        subcategory ∈ categoryToSubcategories row.category ∧
          subcategory ≠ "all" := by
  have hwarranted : Warranted pool.state ∧ pool.state.opened = .empty :=
    hreach.furtherWithin editing_sound onCourse_editing
      (fun m => Warranted m ∧ m.opened = .empty) ⟨lawful_nil, rfl⟩
      (fun hacts hsound h => ⟨hacts.warranted hsound h.1,
        (hacts.rely hsound).opened.trans h.2⟩)
      fun event m hsound h => ⟨Market.warranted_surroundings hsound h.1,
        (Market.rely_surroundings event 0 m).opened.trans h.2⟩
  have hclassified : pool.state.db.Classified := by
    rw [(hreach.soundWithin editing_sound onCourse_editing).invariant.traced]
    refine hwarranted.1.classified ?_
    rw [hwarranted.2]
    exact fun _ _ h => nomatch h
  intro row hrow
  have hpair := hclassified row.id row (Table.get_of_mem hrow)
  refine ⟨⟨hpair.listed, ?_⟩, hpair.own⟩
  have hkeys : ∀ category ∈ productCategories,
      categoryToSubcategories category ≠ [] := by decide
  exact hkeys row.category hpair.listed

/-- A bicycle whose category and subcategory are padded, and an update of the
subcategory alone. -/
def padded : List (Move (Request ⊕ Edit) Draw Surroundings) :=
  let dto : CreateProductDto :=
    { sampleProduct with
      category := " vehicles", subcategory := some (some "bicycles ") }
  let change : UpdateProductDto :=
    ⟨none, some (some " motorCycles"), none, none, none, none, none, none,
      none, none, none⟩
  [.environment (.userRegisters "Amina" "+201"),
    .submit (.inl (.createProduct 1 dto))] ++
    List.replicate 6 (.advance 0 calmDraw) ++
      .submit (.inr ⟨1, 1, change, true⟩) ::
        List.replicate 8 (.advance 1 calmDraw)

theorem products_classified_padded :
    ∃ (pool : EditingPool) (row : ProductRow),
      row ∈ pool.state.db.products.rows ∧
      row.subcategory = some "motorCycles" ∧
      "motorCycles" ∈ categoryToSubcategories row.category := by
  obtain ⟨pool, hreach, hcheck⟩ := System.exists_reaches_of_run
    (show ((editing sampleApp).run padded (EditingPool.opening 0)).any
      (fun pool => pool.state.db.products.rows.any fun row =>
        row.subcategory = some "motorCycles") = true by decide +kernel)
  obtain ⟨row, hrow, hsubcategory⟩ := List.any_eq_true.mp hcheck
  have hsubcategory := of_decide_eq_true hsubcategory
  exact ⟨pool, row, hrow, hsubcategory,
    ((products_classified hreach row hrow).2 _ hsubcategory).1⟩

end MarketPlace.Trade
