import MarketPlace.MarketActions
import MarketPlace.ResponseBodies

/-!
# The products that an answer may show

Which products the query of a request selects from the data that it sees, on
whatever page.  Every product of an answer was selected so by one of the
request's own statements.
-/

namespace MarketPlace.Trade

open Interleaving Relational

variable {app : Deployment} {i user productId : ℕ} {request : Request}
  {response : Response} {acts : List (Acted Draw Market)} {row : ProductRow}

/-- The data that a statement of request `i` can see: what is committed, and
inside of a transaction its own writes over it. -/
def Market.sees (i : ℕ) (m : Market) : List Database :=
  [m.db, m.store.view schema i]

theorem Market.viewFor_mem_sees (client : Option Client) (m : Market) :
    m.viewFor client i ∈ m.sees i := by
  cases client with
  | none => exact List.mem_cons_self
  | some client => exact List.mem_cons_of_mem _ (List.mem_singleton_self _)

/-- What the queries of a request ask of a product that is on sale.  Those that
create and update one return it as they have left it. -/
def Request.mayShow (app : Deployment) (request : Request) (db : Database)
    (row : ProductRow) : Bool :=
  match request with
  | .createProduct user dto =>
      row.ownerId = user && row.details = dto.details
  | .updateProduct _ productId dto =>
      row.id = productId &&
        dto.details.all fun details => row.details = some details
  | .getProductById productId _ => row.id = productId
  | .searchProducts dto viewer =>
      row.status = .available &&
        (viewer.all fun viewer =>
          row.ownerId ≠ viewer && !db.hasBlockBetweenUsers viewer row.ownerId) &&
        buildSearchFilters app dto none
          (db.listing (viewer.map fun viewer => db.isFavorite viewer row.id) row)
  | .listMyProducts user dto status =>
      row.ownerId = user && buildSearchFilters app dto status (db.listing none row)
  | .getPublicProfile userId _ _ =>
      row.ownerId = userId && row.status = .available
  | .listFavorites user _ =>
      db.userFavorites.rows.any (fun favorite =>
        favorite.userId = user && favorite.productId = row.id) &&
        !db.hasBlockBetweenUsers user row.ownerId
  | _ => false

/-- The request's query selects the product, on one page or another. -/
def Request.Selects (app : Deployment) (request : Request) (db : Database)
    (row : ProductRow) : Prop :=
  row ∈ db.listedProducts ∧ request.mayShow app db row = true

/-! ## Queries -/

theorem selects_searchProducts {dto : SearchProductsDto} {viewer : Option ℕ}
    {items : List ProductListing}
    (htakes : (searchProducts app dto viewer).Takes i acts (.done items)) :
    ∀ item ∈ items, ∃ a ∈ acts,
      (Request.searchProducts dto viewer).Selects app a.before.db item.row := by
  obtain ⟨front, _, _, rfl, -, hread⟩ := Program.takes_bind htakes
  obtain ⟨a, rfl, rfl⟩ := takes_select hread
  intro item hitem
  have hsorted := mem_of_mem_page hitem
  rw [List.mem_mergeSort, List.mem_filter, List.mem_map] at hsorted
  obtain ⟨⟨row, hrow, rfl⟩, hfilters⟩ := hsorted
  obtain ⟨hlisted, hvisible⟩ := List.mem_filter.mp hrow
  refine ⟨a, List.mem_append_right _ List.mem_cons_self, hlisted, ?_⟩
  rw [Request.mayShow, Bool.and_eq_true]
  exact ⟨hvisible, hfilters⟩

theorem selects_listMyProducts {dto : SearchProductsDto}
    {status : Option ProductStatus} {items : List ProductListing}
    (htakes : (listMyProducts app user dto status).Takes i acts (.done items)) :
    ∀ item ∈ items, ∃ a ∈ acts,
      (Request.listMyProducts user dto status).Selects app a.before.db item.row := by
  obtain ⟨front, _, _, rfl, -, hread⟩ := Program.takes_bind htakes
  obtain ⟨a, rfl, rfl⟩ := takes_select hread
  intro item hitem
  have hsorted := mem_of_mem_page hitem
  rw [List.mem_mergeSort, List.mem_filter, List.mem_map] at hsorted
  obtain ⟨⟨row, hrow, rfl⟩, hfilters⟩ := hsorted
  obtain ⟨hlisted, hown⟩ := List.mem_filter.mp hrow
  refine ⟨a, List.mem_append_right _ List.mem_cons_self, hlisted, ?_⟩
  rw [Request.mayShow, Bool.and_eq_true]
  exact ⟨hown, hfilters⟩

theorem selects_listFavorites (app : Deployment) {dto : ListFavoritesDto}
    {items : List ProductListing}
    (htakes : (listFavorites user dto).Takes i acts (.done items)) :
    ∀ item ∈ items, ∃ a ∈ acts,
      (Request.listFavorites user dto).Selects app a.before.db item.row := by
  obtain ⟨a, rfl, rfl⟩ := takes_select htakes
  intro item hitem
  obtain ⟨⟨favorite, listing⟩, hpaged, rfl⟩ := List.mem_map.mp hitem
  have hsorted := mem_of_mem_page hpaged
  rw [List.mem_mergeSort, Database.favoritesOf, List.mem_filterMap] at hsorted
  obtain ⟨mark, hmark, hfavorite⟩ := hsorted
  split at hfavorite
  · next huser =>
      obtain ⟨row, hrow, hlisting⟩ := Option.bind_eq_some_iff.mp hfavorite
      split at hlisting
      · contradiction
      · next hunblocked =>
          simp only [Option.some.injEq, Prod.mk.injEq] at hlisting
          obtain ⟨rfl, rfl⟩ := hlisting
          have hid : row.id = mark.productId :=
            Table.key_of_get (Database.liveProduct_eq_some.mp hrow).1
          refine ⟨a, List.mem_cons_self,
            Database.mem_listedProducts.mpr (hid.symm ▸ hrow), ?_⟩
          simp only [Request.mayShow, Bool.and_eq_true, List.any_eq_true,
            decide_eq_true_eq, Bool.not_eq_true']
          exact ⟨⟨mark, hmark, huser, hid.symm⟩, Bool.eq_false_iff.mpr hunblocked⟩
  · contradiction

theorem selects_getPublicProfile {userId : ℕ} {dto : GetPublicUserQueryDto}
    {viewer : Option ℕ} {view : PublicProfileView}
    (htakes : (getPublicProfile app userId dto viewer).Takes i acts
      (.done view)) :
    ∀ item ∈ view.products, ∃ a ∈ acts,
      (Request.getPublicProfile userId dto viewer).Selects app a.before.db
        item.row := by
  obtain ⟨_, _, block, rfl, -, hrest⟩ := Program.takes_bind htakes
  split at hrest
  · exact absurd hrest Program.not_takes_failed
  obtain ⟨_, _, found, rfl, -, hshows⟩ := Program.takes_bind hrest
  split at hshows
  · exact absurd hshows Program.not_takes_failed
  obtain ⟨_, _, products, rfl, hlist, hdone⟩ := Program.takes_bind hshows
  obtain ⟨a, rfl, rfl⟩ := takes_selectOrdered hlist
  obtain ⟨-, hvalue⟩ := Program.takes_done.mp hdone
  obtain rfl := Program.done.inj hvalue
  intro item hitem
  have hsorted := mem_of_mem_page hitem
  rw [List.mem_mergeSort, List.mem_map] at hsorted
  obtain ⟨row, hrow, rfl⟩ := hsorted
  obtain ⟨hlisted, hselected⟩ := List.mem_filter.mp hrow
  exact ⟨a, List.mem_append_right _ (List.mem_append_right _
    (List.mem_append_left _ List.mem_cons_self)), hlisted, hselected⟩

/-! ## Single products -/

theorem takes_fetchProductWithImages {runner : Option Client}
    {viewer : Option ℕ} {view : ProductView}
    (htakes : (fetchProductWithImages runner productId viewer).Takes i acts
      (.done (some view))) :
    ∃ a ∈ acts, ∃ db ∈ a.before.sees i, view.row.id = productId ∧
      view.row ∈ db.listedProducts := by
  obtain ⟨_, _, product, rfl, hread, hrest⟩ := Program.takes_bind htakes
  obtain ⟨a, rfl, hproduct⟩ := takes_selectFor hread
  cases hrow : (a.before.viewFor runner i).liveProduct productId with
  | none =>
      rw [hproduct, hrow] at hrest
      obtain ⟨-, hvalue⟩ := Program.takes_done.mp hrest
      exact absurd (Program.done.inj hvalue) nofun
  | some row =>
      rw [hproduct, hrow] at hrest
      have hview : view.row = row := by
        obtain ⟨_, _, images, -, -, hshows⟩ := Program.takes_bind hrest
        split at hshows
        · obtain ⟨-, hvalue⟩ := Program.takes_done.mp hshows
          obtain rfl := Option.some.inj (Program.done.inj hvalue)
          rfl
        · obtain ⟨_, _, favorite, -, -, hdone⟩ := Program.takes_bind hshows
          obtain ⟨-, hvalue⟩ := Program.takes_done.mp hdone
          obtain rfl := Option.some.inj (Program.done.inj hvalue)
          rfl
      have hid : row.id = productId :=
        Table.key_of_get (Database.liveProduct_eq_some.mp hrow).1
      refine ⟨a, List.mem_cons_self, _, a.before.viewFor_mem_sees runner, ?_⟩
      rw [hview]
      exact ⟨hid, Database.mem_listedProducts.mpr (hid.symm ▸ hrow)⟩

theorem selects_getProductById {viewer : Option ℕ} {view : ProductView}
    (htakes : (getProductById productId viewer).Takes i acts (.done view)) :
    ∃ a ∈ acts, ∃ db ∈ a.before.sees i,
      (Request.getProductById productId viewer).Selects app db view.row := by
  obtain ⟨_, _, product, rfl, hfetch, hrest⟩ := Program.takes_bind htakes
  cases product with
  | none =>
      exact absurd hrest Program.not_takes_failed
  | some shown =>
      have hview : view = shown := by
        dsimp only at hrest
        split at hrest
        · obtain ⟨-, hvalue⟩ := Program.takes_done.mp hrest
          exact Program.done.inj hvalue
        · obtain ⟨_, _, blocked, -, -, hdone⟩ := Program.takes_bind hrest
          split at hdone
          · exact absurd hdone Program.not_takes_failed
          · obtain ⟨-, hvalue⟩ := Program.takes_done.mp hdone
            exact Program.done.inj hvalue
      obtain ⟨a, ha, db, hdb, hid, hlisted⟩ :=
        takes_fetchProductWithImages hfetch
      rw [hview]
      exact ⟨a, List.mem_append_left _ ha, db, hdb, hlisted,
        decide_eq_true hid⟩

/-- The fetch that ends a transaction on a product sees the product that is
returned. -/
theorem takes_createProduct {dto : CreateProductDto} {view : ProductView}
    (htakes : (createProduct user dto).Takes i acts (.done (some view))) :
    ∃ a ∈ acts, ∃ db ∈ a.before.sees i, view.row ∈ db.listedProducts := by
  obtain ⟨client, front, _, back, rfl, hcallback⟩ := takes_withTransaction htakes
  obtain ⟨_, _, _, rfl, -, hrest⟩ := Program.takes_bind hcallback
  obtain ⟨_, last, insert, rfl, -, hsync⟩ := Program.takes_bind hrest
  have hfetch : ∃ own, (∀ a ∈ own, a ∈ last) ∧ (fetchProductWithImages
      (some client) insert.id (some user)).Takes i own (.done (some view)) := by
    dsimp only at hsync
    split at hsync
    · exact ⟨last, fun _ => id, hsync⟩
    split at hsync
    · exact ⟨last, fun _ => id, hsync⟩
    obtain ⟨_, own, _, rfl, -, hfetch⟩ := Program.takes_bind hsync
    exact ⟨own, fun a => List.mem_append_right _, hfetch⟩
  obtain ⟨own, hown, hfetch⟩ := hfetch
  obtain ⟨a, ha, db, hdb, -, hlisted⟩ := takes_fetchProductWithImages hfetch
  exact ⟨a, by simp [hown a ha], db, hdb, hlisted⟩

theorem takes_updateProduct {dto : UpdateProductDto} {view : ProductView}
    (htakes : (updateProduct user productId dto).Takes i acts
      (.done (some view))) :
    ∃ a ∈ acts, ∃ db ∈ a.before.sees i, view.row.id = productId ∧
      view.row ∈ db.listedProducts := by
  obtain ⟨client, front, _, back, rfl, hcallback⟩ := takes_withTransaction htakes
  obtain ⟨_, _, _, rfl, -, hrest⟩ := Program.takes_bind hcallback
  obtain ⟨_, _, current, rfl, -, hupdates⟩ := Program.takes_bind hrest
  split at hupdates
  · exact absurd hupdates Program.not_takes_failed
  obtain ⟨_, _, _, rfl, -, hwrites⟩ := Program.takes_bind hupdates
  obtain ⟨_, last, _, rfl, -, hsync⟩ := Program.takes_bind hwrites
  have hfetch : ∃ own, (∀ a ∈ own, a ∈ last) ∧ (fetchProductWithImages
      (some client) productId (some user)).Takes i own (.done (some view)) := by
    dsimp only at hsync
    split at hsync
    · exact ⟨last, fun _ => id, hsync⟩
    obtain ⟨_, own, _, rfl, -, hfetch⟩ := Program.takes_bind hsync
    exact ⟨own, fun a => List.mem_append_right _, hfetch⟩
  obtain ⟨own, hown, hfetch⟩ := hfetch
  obtain ⟨a, ha, db, hdb, hshown⟩ := takes_fetchProductWithImages hfetch
  exact ⟨a, by simp [hown a ha], db, hdb, hshown⟩

/-! ## Answers -/

/-- The product of an answer is the user's, and as the request has left it. -/
def Request.Returns (request : Request) (response : Response) : Prop :=
  match request with
  | .createProduct user dto => ∀ product, response = .product product →
      Created user dto product
  | .updateProduct user _ dto => ∀ product, response = .product product →
      Updated user dto product
  | _ => True

theorem Request.handler_returns {m : Market} (request : Request)
    (hfresh : Fresh i m) :
    (request.handler app).Meets (acting request.rights) i
      (fun response _ => request.Returns response) (fun _ _ => True) m := by
  have hother : (request.handler app).Meets (acting request.rights) i
      (fun _ t => PointersFollowed i t) (fun _ t => PointersFollowed i t) m :=
    request.handler_meets hfresh
  cases request with
  | createProduct user dto =>
      refine Program.Meets.seq _ (createProduct_meets rfl fun _ => id)
        fun product t hcreated => ?_
      exact done_meets fun v hv other hother =>
        Response.product.inj hother ▸ hcreated
  | updateProduct user productId dto =>
      refine Program.Meets.seq _ (updateProduct_meets rfl fun _ => id)
        fun product t hupdated => ?_
      exact done_meets fun v hv other hother =>
        Response.product.inj hother ▸ hupdated
  | _ => exact hother.mono (fun _ _ _ => trivial) fun _ _ _ => trivial

/-- Every product of an answer is one that the request has selected from what
it saw. -/
theorem Request.selects_shown
    (htakes : (request.handler app).Takes i acts (.done response))
    (hreturns : request.Returns response) :
    ∀ row ∈ Relations.shownProducts response, ∃ a ∈ acts,
      ∃ db ∈ a.before.sees i, request.Selects app db row := by
  intro row hrow
  have hcommitted : (∃ a ∈ acts, request.Selects app a.before.db row) →
      ∃ a ∈ acts, ∃ db ∈ a.before.sees i, request.Selects app db row :=
    fun ⟨a, ha, hselects⟩ => ⟨a, ha, _, List.mem_cons_self, hselects⟩
  cases request with
  | createProduct user dto =>
      obtain ⟨product, hservice, rfl⟩ := takes_map htakes
      cases product with
      | none => exact absurd hrow List.not_mem_nil
      | some view =>
          obtain rfl := List.mem_singleton.mp hrow
          obtain ⟨howner, hdetails⟩ := hreturns _ rfl view rfl
          obtain ⟨a, ha, db, hdb, hlisted⟩ := takes_createProduct hservice
          refine ⟨a, ha, db, hdb, hlisted, ?_⟩
          simp [Request.mayShow, howner, hdetails]
  | updateProduct user productId dto =>
      obtain ⟨product, hservice, rfl⟩ := takes_map htakes
      cases product with
      | none => exact absurd hrow List.not_mem_nil
      | some view =>
          obtain rfl := List.mem_singleton.mp hrow
          obtain ⟨-, hdetails⟩ := hreturns _ rfl view rfl
          obtain ⟨a, ha, db, hdb, hid, hlisted⟩ := takes_updateProduct hservice
          refine ⟨a, ha, db, hdb, hlisted, ?_⟩
          rw [Request.mayShow, Bool.and_eq_true, Option.all_eq_true]
          exact ⟨decide_eq_true hid, fun details hgiven =>
            decide_eq_true (hdetails details hgiven)⟩
  | getProductById productId viewer =>
      obtain ⟨view, hservice, rfl⟩ := takes_map htakes
      obtain rfl := List.mem_singleton.mp hrow
      exact selects_getProductById hservice
  | searchProducts dto viewer =>
      obtain ⟨items, hservice, rfl⟩ := takes_map htakes
      obtain ⟨item, hitem, rfl⟩ := List.mem_map.mp hrow
      exact hcommitted (selects_searchProducts hservice item hitem)
  | listMyProducts user dto status =>
      obtain ⟨items, hservice, rfl⟩ := takes_map htakes
      obtain ⟨item, hitem, rfl⟩ := List.mem_map.mp hrow
      exact hcommitted (selects_listMyProducts hservice item hitem)
  | listFavorites user dto =>
      obtain ⟨items, hservice, rfl⟩ := takes_map htakes
      obtain ⟨item, hitem, rfl⟩ := List.mem_map.mp hrow
      exact hcommitted (selects_listFavorites app hservice item hitem)
  | getPublicProfile userId dto viewer =>
      obtain ⟨view, hservice, rfl⟩ := takes_map htakes
      obtain ⟨item, hitem, rfl⟩ := List.mem_map.mp hrow
      exact hcommitted (selects_getPublicProfile hservice item hitem)
  | _ =>
      obtain ⟨_, -, rfl⟩ := takes_map htakes
      exact absurd hrow List.not_mem_nil

end MarketPlace.Trade
