import MarketPlace.MarketHistories

/-!
# What deleted accounts still sell

Deleting an account only marks the user's row, and the listing view, the
product page and the favourites look at the products alone.  They show nothing
of a deleted account exactly as long as accounts are deleted without products
on sale, and no product is created for an account that is gone.
-/

namespace MarketPlace.Trade

open EventLog Interleaving Relational

variable {app : Deployment}

/-- The user has deleted the account, or an administrator has. -/
def Database.accountDeleted (db : Database) (userId : ℕ) : Bool :=
  (db.users.get userId).any fun row => row.deletedAt.isSome

/-- A product is created for an account that is there, and an account is
deleted without products on sale. -/
def Change.keepsSales (db : Database) : Change → Bool
  | .insertProduct row => !db.accountDeleted row.ownerId
  | .deleteUser userId _ =>
      db.listedProducts.all fun row => row.ownerId ≠ userId
  | _ => true

/-- Every write of the history met the condition on the data it ran on. -/
def SalesKept (m : Market) : Prop :=
  Lawful (fun event past => event.change.all
    (Change.keepsSales (stored m.opened past)) = true) m.history

instance (m : Market) : Decidable (SalesKept m) :=
  inferInstanceAs (Decidable (Lawful _ _))

/-- The products that an answer shows, or that are favourites by it. -/
def Request.sold (request : Request) (response : Response) (db : Database) :
    List ProductRow :=
  match request, response with
  | .searchProducts _ _, .items items => items.map ProductListing.row
  | .getProductById _ _, .product product => product.toList.map ProductView.row
  | .listFavorites _ _, .items items => items.map ProductListing.row
  | .addFavorite _ productId, .message _ => (db.products.get productId).toList
  | _, _ => []

/-! ## Products on sale have owners -/

/-- No product on sale belongs to a deleted account. -/
def Database.OwnersThere (db : Database) : Prop :=
  ∀ productId row, db.liveProduct productId = some row →
    db.accountDeleted row.ownerId = false

section Apply

variable {db : Database} {change : Change} {userId productId : ℕ}

theorem Database.accountDeleted_iff :
    db.accountDeleted userId = true ↔
      ∃ row, db.users.get userId = some row ∧ row.deletedAt.isSome = true := by
  rw [accountDeleted, Option.any_eq_true]

/-- A deleted account stays deleted. -/
theorem Database.accountDeleted_apply (change : Change)
    (h : db.accountDeleted userId = true) :
    (db.apply change).accountDeleted userId = true := by
  obtain ⟨row, hrow, hdeleted⟩ := accountDeleted_iff.mp h
  refine accountDeleted_iff.mpr ?_
  cases change with
  | insertUser other => exact ⟨row, Table.get_insert_of_get hrow, hdeleted⟩
  | updateProfile id patch now | deleteUser id now =>
      have hkept : row.deletedAt ≠ none := Option.isSome_iff_ne_none.mp hdeleted
      refine ⟨row, (Table.get_modify _ _ _ (by intro; rfl) _).trans ?_, hdeleted⟩
      rw [hrow, Option.map_some, if_neg (by simp [hkept])]
  | _ => exact ⟨row, hrow, hdeleted⟩

/-- An account that a write leaves deleted was so before, or the write deletes
it. -/
theorem Database.accountDeleted_of_apply (hwarranted : change.Warranted db)
    (h : (db.apply change).accountDeleted userId = true) :
    db.accountDeleted userId = true ∨
      ∃ now, change = .deleteUser userId now := by
  obtain ⟨row, hrow, hdeleted⟩ := accountDeleted_iff.mp h
  cases change with
  | insertUser other =>
      rcases Table.get_insert_eq_some hrow with hold | ⟨hnew, -⟩
      · exact .inl (accountDeleted_iff.mpr ⟨row, hold, hdeleted⟩)
      · have hlive : other.deletedAt = none := hwarranted
        simp [hnew, hlive] at hdeleted
  | updateProfile id patch now =>
      obtain ⟨old, hold, hnew⟩ := Table.get_modify_eq_some (by intro; rfl) hrow
      refine .inl (accountDeleted_iff.mpr ⟨old, hold, ?_⟩)
      split at hnew
      all_goals
        subst hnew
        exact hdeleted
  | deleteUser id now =>
      obtain ⟨old, hold, hnew⟩ := Table.get_modify_eq_some (by intro; rfl) hrow
      have hkey : old.id = userId := Table.key_of_get hold
      by_cases hid : old.id = id
      · exact .inr ⟨now, by rw [← hkey, hid]⟩
      · rw [if_neg (by simp [hid])] at hnew
        exact .inl (accountDeleted_iff.mpr ⟨old, hold, hnew ▸ hdeleted⟩)
  | _ => exact .inl (accountDeleted_iff.mpr ⟨row, hrow, hdeleted⟩)

theorem Database.liveProduct_eq_some {row : ProductRow} :
    db.liveProduct productId = some row ↔
      db.products.get productId = some row ∧ row.deletedAt = none := by
  simp [liveProduct, Option.filter_eq_some_iff]

theorem Database.mem_listedProducts {row : ProductRow} :
    row ∈ db.listedProducts ↔ db.liveProduct row.id = some row := by
  rw [listedProducts, List.mem_filter, liveProduct_eq_some,
    Option.isNone_iff_eq_none]
  constructor
  · exact fun ⟨hrow, hlive⟩ => ⟨Table.get_of_mem hrow, hlive⟩
  · exact fun ⟨hrow, hlive⟩ => ⟨Table.mem_of_get hrow, hlive⟩

/-- A product that is on sale after a write was so before, with the same owner,
or the write creates it. -/
theorem Database.liveProduct_of_apply {row : ProductRow}
    (h : (db.apply change).liveProduct productId = some row) :
    (∃ old, db.liveProduct productId = some old ∧
      old.ownerId = row.ownerId) ∨ change = .insertProduct row := by
  obtain ⟨hrow, hlive⟩ := liveProduct_eq_some.mp h
  cases change with
  | insertProduct other =>
      rcases Table.get_insert_eq_some hrow with hold | ⟨hnew, -⟩
      · exact .inl ⟨row, liveProduct_eq_some.mpr ⟨hold, hlive⟩, rfl⟩
      · exact .inr (hnew ▸ rfl)
  | updateProduct | updateProductStatus =>
      obtain ⟨old, hold, hnew⟩ := Table.get_modify_eq_some (by intro; rfl) hrow
      split at hnew
      all_goals
        subst hnew
        exact .inl ⟨old, liveProduct_eq_some.mpr ⟨hold, hlive⟩, rfl⟩
  | deleteProduct =>
      obtain ⟨old, hold, hnew⟩ := Table.get_modify_eq_some (by intro; rfl) hrow
      split at hnew
      · rw [← hnew] at hlive
        contradiction
      · exact .inl ⟨old, liveProduct_eq_some.mpr ⟨hold, hnew ▸ hlive⟩,
          hnew ▸ rfl⟩
  | _ => exact .inl ⟨row, h, rfl⟩

theorem Database.OwnersThere.apply (h : db.OwnersThere)
    (hwarranted : change.Warranted db) (hkeeps : change.keepsSales db = true) :
    (db.apply change).OwnersThere := by
  intro productId row hrow
  rw [Bool.eq_false_iff]
  intro hdeleted
  rcases accountDeleted_of_apply hwarranted hdeleted with hbefore | ⟨now, rfl⟩
  · rcases liveProduct_of_apply hrow with ⟨old, hold, howner⟩ | rfl
    · have hthere := h productId old hold
      rw [howner, hbefore] at hthere
      contradiction
    · simp [Change.keepsSales, hbefore] at hkeeps
  · have hold : db.liveProduct productId = some row := hrow
    have hid : row.id = productId :=
      Table.key_of_get (liveProduct_eq_some.mp hold).1
    have hall := List.all_eq_true.mp hkeeps row
      (mem_listedProducts.mpr (hid.symm ▸ hold))
    simp at hall

end Apply

/-- At every point of a history whose writes all meet the condition, products
on sale have owners. -/
theorem SalesKept.ownersThere {m : Market} (h : SalesKept m)
    (hwarranted : Warranted m) (hopened : m.opened.OwnersThere)
    {past : List Event} (hpast : past <:+ m.history) :
    (stored m.opened past).OwnersThere := by
  refine stored_lawful (fun event db => event.Warranted db ∧
    event.change.all (Change.keepsSales db) = true) Database.OwnersThere
    ((hwarranted.and h).older hpast) hopened ?_
  intro event db change hlaw hchange hdb
  refine hdb.apply (hlaw.1 change hchange) ?_
  simpa [hchange] using hlaw.2

theorem accountDeleted_stored {opened : Database} {history past : List Event}
    {userId : ℕ} (hpast : past <:+ history)
    (h : (stored opened past).accountDeleted userId = true) :
    (stored opened history).accountDeleted userId = true := by
  refine replay_preserves
    (fun db : Database => db.accountDeleted userId = true) hpast h
    fun event before _ _ hbefore => ?_
  cases hchange : event.change with
  | none => rwa [Event.effect_of_change_eq_none hchange]
  | some change =>
      rw [Event.effect_of_change hchange]
      exact Database.accountDeleted_apply change hbefore

/-! ## What the requests show -/

theorem mem_of_mem_page {α : Type} {limit offset : ℕ} {rows : List α} {row : α}
    (h : row ∈ page limit offset rows) : row ∈ rows :=
  List.mem_of_mem_drop (List.mem_of_mem_take h)

theorem Database.mem_searchProducts {db : Database} {dto : SearchProductsDto}
    {viewer : Option ℕ} {item : ProductListing}
    (h : item ∈ db.searchProducts app dto viewer) :
    db.liveProduct item.row.id = some item.row := by
  have hsorted := mem_of_mem_page h
  rw [List.mem_mergeSort, List.mem_filter, List.mem_map] at hsorted
  obtain ⟨⟨row, hrow, rfl⟩, -⟩ := hsorted
  exact mem_listedProducts.mp (List.mem_of_mem_filter hrow)

theorem Database.mem_listFavorites {db : Database} {user : ℕ}
    {dto : ListFavoritesDto} {item : ProductListing}
    (h : item ∈ db.listFavorites user dto) :
    ∃ productId, db.liveProduct productId = some item.row := by
  obtain ⟨⟨favorite, listing⟩, hpaged, rfl⟩ := List.mem_map.mp h
  have hsorted := mem_of_mem_page hpaged
  rw [List.mem_mergeSort, favoritesOf, List.mem_filterMap] at hsorted
  obtain ⟨other, -, hfavorite⟩ := hsorted
  split at hfavorite
  · obtain ⟨row, hrow, hlisting⟩ := Option.bind_eq_some_iff.mp hfavorite
    split at hlisting
    · contradiction
    · simp only [Option.some.injEq, Prod.mk.injEq] at hlisting
      obtain ⟨rfl, rfl⟩ := hlisting
      exact ⟨other.productId, hrow⟩
  · contradiction

section Outlines

variable {rights : Rights} {i : ℕ} {m : Market}

/-- A product of the same owner was on sale at some time since. -/
def WasOnSale (since : List Event) (row : ProductRow) (t : Market) : Prop :=
  ∃ past productId old, since <:+ past ∧ past <:+ t.history ∧
    (stored t.opened past).liveProduct productId = some old ∧
      old.ownerId = row.ownerId

variable {since : List Event}

theorem WasOnSale.later {row : ProductRow} {t v : Market}
    (h : WasOnSale since row t) (hhistory : t.history <:+ v.history)
    (hopened : v.opened = t.opened) : WasOnSale since row v := by
  obtain ⟨past, productId, old, hsince, hpast, hold, howner⟩ := h
  exact ⟨past, productId, old, hsince, hpast.trans hhistory,
    hopened.symm ▸ hold, howner⟩

theorem WasOnSale.kept {row other : ProductRow} {t : Market}
    (h : WasOnSale since row t) (hkept : ProductKept row other) :
    WasOnSale since other t := by
  obtain ⟨past, productId, old, hsince, hpast, hold, howner⟩ := h
  exact ⟨past, productId, old, hsince, hpast, hold, howner.trans hkept.symm⟩

theorem Later.wasOnSale {row : ProductRow} {t v : Market} (h : Later i t v)
    (hsale : WasOnSale since row t) : WasOnSale since row v :=
  hsale.later h.history h.opened

theorem Market.Sound.wasOnSale {productId : ℕ} {row : ProductRow}
    (h : m.Sound) (hsince : since <:+ m.history)
    (hrow : m.db.liveProduct productId = some row) :
    WasOnSale since row m :=
  ⟨m.history, productId, row, hsince, List.suffix_refl _, h.traced ▸ hrow, rfl⟩

theorem Seen.wasOnSale {u t : Market} {productId : ℕ} {row : ProductRow}
    (h : Seen i m u t) (hsince : since <:+ m.history)
    (hrow : u.db.liveProduct productId = some row) :
    WasOnSale since row t :=
  h.after.wasOnSale (h.before.sound.wasOnSale
    (hsince.trans h.before.history) hrow)

theorem assertSearchCategoryPair_cases (category subcategory : Option String) :
    assertSearchCategoryPair category subcategory = .done () ∨
      ∃ fault, assertSearchCategoryPair category subcategory =
        .failed fault := by
  unfold assertSearchCategoryPair
  split
  · rcases assertCategoryPair_cases _ _ _ with ⟨hdone, -⟩ | ⟨fault, hfailed⟩
    · exact .inl hdone
    · exact .inr ⟨fault, hfailed⟩
  · exact .inl rfl

theorem searchProducts_meets {dto : SearchProductsDto} {viewer : Option ℕ} :
    (searchProducts app dto viewer).Meets (acting rights) i
      (fun items t => ∀ item ∈ items, WasOnSale m.history item.row t)
      (fun _ _ => True) m := by
  unfold searchProducts
  rcases assertSearchCategoryPair_cases dto.category dto.subcategory with
    hdone | ⟨fault, hfailed⟩
  · rw [hdone, Program.done_bind]
    refine select_meets (fun _ _ => trivial) fun u t hseen item hitem => ?_
    exact hseen.wasOnSale (List.suffix_refl _) (Database.mem_searchProducts hitem)
  · rw [hfailed]
    exact failed_meets fun _ _ => trivial

theorem listFavorites_meets {user : ℕ} {dto : ListFavoritesDto} :
    (listFavorites user dto).Meets (acting rights) i
      (fun items t => ∀ item ∈ items, WasOnSale m.history item.row t)
      (fun _ _ => True) m := by
  refine select_meets (fun _ _ => trivial) fun u t hseen item hitem => ?_
  obtain ⟨productId, hrow⟩ := Database.mem_listFavorites hitem
  exact hseen.wasOnSale (List.suffix_refl _) hrow

theorem fetchProductWithImages_shows {productId : ℕ} {viewer : Option ℕ} :
    (fetchProductWithImages none productId viewer).Meets (acting rights) i
      (fun product t => ∀ view, product = some view →
        WasOnSale m.history view.row t) (fun _ _ => True) m := by
  unfold fetchProductWithImages
  refine Program.Meets.bind (select_meets (fun _ _ => trivial) ?_)
  intro u t hseen
  split
  · exact done_meets fun _ _ _ h => nomatch h
  next row hrow =>
  have hsale : WasOnSale m.history row t :=
    hseen.wasOnSale (List.suffix_refl _) hrow
  refine Program.Meets.bind (select_meets (fun _ _ => trivial) ?_)
  intro u' t' hseen'
  split
  · refine done_meets fun v hv => ?_
    rintro view ⟨⟩
    exact (Later.trans hseen'.later.toRely hv).wasOnSale hsale
  · refine Program.Meets.bind (select_meets (fun _ _ => trivial) ?_)
    intro u'' t'' hseen''
    refine done_meets fun v hv => ?_
    rintro view ⟨⟩
    exact (Later.trans hseen'.later.toRely
      (Later.trans hseen''.later.toRely hv)).wasOnSale hsale

theorem getProductById_meets {productId : ℕ} {viewer : Option ℕ} :
    (getProductById productId viewer).Meets (acting rights) i
      (fun view t => WasOnSale m.history view.row t) (fun _ _ => True) m := by
  refine Program.Meets.seq _ fetchProductWithImages_shows fun product t h => ?_
  split
  · exact failed_meets fun _ _ => trivial
  next view =>
  have hsale := h view rfl
  split
  · exact done_meets fun v hv => hv.wasOnSale hsale
  refine Program.Meets.bind (select_meets (fun _ _ => trivial) ?_)
  intro u t' hseen
  split
  · exact failed_meets fun _ _ => trivial
  · exact done_meets fun v hv =>
      (Later.trans hseen.later.toRely hv).wasOnSale hsale

theorem addFavorite_meets {user productId : ℕ}
    (huser : rights.user = some user)
    (hwrites : .insertFavorite ∈ rights.writes) :
    (addFavorite user productId).Meets (acting rights) i
      (fun _ t => ∃ row, t.db.products.get productId = some row ∧
        WasOnSale m.history row t) (fun _ _ => True) m := by
  unfold addFavorite
  refine Program.Meets.bind (select_meets (fun _ _ => trivial) ?_)
  intro u t hseen
  split
  · exact failed_meets fun _ _ => trivial
  next row hrow =>
  refine Program.Meets.bind (select_meets (fun _ _ => trivial) ?_)
  intro u' t' hseen'
  split
  · exact failed_meets fun _ _ => trivial
  have hsale : WasOnSale m.history row t' :=
    hseen'.later.wasOnSale (hseen.wasOnSale (List.suffix_refl _) hrow)
  have hstored := (Database.liveProduct_eq_some.mp hrow).1
  unfold perform execute
  refine Program.Meets.bind (run_meets ?_ ?_ ?_ ?_ ?_ ?_)
  · exact fun _ _ => hwrites
  · exact fun _ _ => rfl
  · exact fun _ _ => ⟨user, huser, trivial⟩
  · exact fun _ _ _ _ => trivial
  · exact fun _ _ _ _ _ _ => trivial
  intro v w hv _ hw
  refine done_meets fun x hx => ?_
  have hgrows : u.db.Grows x.db :=
    ((hseen.after.grows.trans hseen'.later.grows).trans hv.grows).trans
      ((v.grows_autocommit i _).trans (hw.grows.trans hx.grows))
  obtain ⟨row', hrow', hkept⟩ := hgrows.products productId row hstored
  have hsale' : WasOnSale m.history row' v := (hv.wasOnSale hsale).kept hkept
  refine ⟨row', hrow', hsale'.later ?_ (hx.opened.trans hw.opened)⟩
  exact (List.suffix_cons _ _).trans (hw.history.trans hx.history)

theorem Request.handler_sells (request : Request) (hfresh : Fresh i m) :
    (request.handler app).Meets (acting request.rights) i
      (fun response t => ∀ row ∈ request.sold response t.db,
        WasOnSale m.history row t) (fun _ _ => True) m := by
  have hother : (request.handler app).Meets (acting request.rights) i
      (fun _ t => PointersFollowed i t) (fun _ t => PointersFollowed i t) m :=
    request.handler_meets hfresh
  cases request with
  | searchProducts dto viewer =>
      refine Program.Meets.seq _ searchProducts_meets fun items t h => ?_
      refine done_meets fun v hv row hrow => ?_
      obtain ⟨item, hitem, rfl⟩ := List.mem_map.mp hrow
      exact hv.wasOnSale (h item hitem)
  | getProductById productId viewer =>
      refine Program.Meets.seq _ getProductById_meets fun view t h => ?_
      refine done_meets fun v hv row hrow => ?_
      obtain rfl : row = view.row := by simpa [Request.sold] using hrow
      exact hv.wasOnSale h
  | listFavorites user dto =>
      refine Program.Meets.seq _ listFavorites_meets fun items t h => ?_
      refine done_meets fun v hv row hrow => ?_
      obtain ⟨item, hitem, rfl⟩ := List.mem_map.mp hrow
      exact hv.wasOnSale (h item hitem)
  | addFavorite user productId =>
      refine Program.Meets.seq _ (addFavorite_meets rfl List.mem_cons_self)
        fun text t h => ?_
      obtain ⟨old, hold, hsale⟩ := h
      refine done_meets fun v hv row hrow => ?_
      obtain ⟨row', hrow', hkept⟩ := hv.grows.products productId old hold
      have hget : v.db.products.get productId = some row :=
        Option.mem_toList.mp hrow
      obtain rfl := Option.some.inj (hget.symm.trans hrow')
      exact (hv.wasOnSale hsale).kept hkept
  | _ => exact hother.mono (fun _ _ _ => by simp [Request.sold]) fun _ _ _ =>
      trivial

end Outlines

/-! ## Runs -/

variable {now : ℕ} {pool later : Pool Request Draw Market Fault Response}

/-- The pool with one more request. -/
abbrev Pool.asked (app : Deployment)
    (pool : Pool Request Draw Market Fault Response) (request : Request) :
    Pool Request Draw Market Fault Response :=
  ⟨pool.state, pool.threads ++ [⟨request, request.handler app⟩]⟩

/-- In every run whose writes all meet the condition, a request that is made
after an account is deleted shows no product of the account, and makes none a
favourite, however it interleaves with others. -/
theorem deleted_accounts_sell_nothing {request : Request} {response : Response}
    (hreach : (market app).Reaches (fun _ _ => True) (Pool.opening now) pool)
    (hlater : (market app).Reaches (fun _ _ => True)
      (Pool.asked app pool request) later)
    (hdone : later.threads[pool.threads.length]? =
      some ⟨request, .done response⟩)
    (hkept : SalesKept later.state) :
    ∀ row ∈ request.sold response later.state.db,
      pool.state.db.accountDeleted row.ownerId = false := by
  have hasked : (market app).Reaches (fun _ _ => True) (Pool.opening now)
      (Pool.asked app pool request) :=
    .step hreach (fun _ _ => trivial)
      (show (market app).perform (.submit request) pool = _ from rfl)
  have hreach' := hasked.trans hlater
  have hfresh := (onCourse_of_reaches hreach).fresh _ le_rfl
  have hthread : (Pool.asked app pool request).threads[pool.threads.length]? =
      some ⟨request, request.handler app⟩ := by simp
  obtain ⟨body, hbody, hmeets⟩ := hlater.thread_meets market_sound
    (onCourse_of_reaches hasked) hthread (request.handler_sells hfresh)
  obtain rfl : body = .done response := by
    simpa using hbody.symm.trans hdone
  have hsound := (onCourse_of_reaches hreach').invariant
  intro row hrow
  obtain ⟨past, productId, old, hsince, hpast, hold, howner⟩ :=
    hmeets later.state (Rely.refl _ _) hsound row hrow
  have hthere := hkept.ownersThere (warranted_of_reaches hreach')
    (opened_of_reaches hreach' ▸ fun _ _ h => nomatch h) hpast productId old hold
  rw [Bool.eq_false_iff]
  intro hdeleted
  rw [traced_of_reaches hreach] at hdeleted
  rw [opened_of_reaches hreach', howner,
    accountDeleted_stored hsince hdeleted] at hthere
  contradiction

def sampleSearch : SearchProductsDto :=
  ⟨none, none, none, none, none, none, none, none, none, none, none, none, none,
    none⟩

/-- User 1 lists a product, deletes it and then the account. -/
def closesShop : List (Move Request Draw Surroundings) :=
  lists ++
    [Move.submit (Request.deleteProduct 1 1)] ++
    List.replicate 4 (Move.advance 1 calmDraw) ++
    [Move.environment (Surroundings.userDeleted 1)]

/-- Request 2 is the search, and it is done. -/
def searched (pool : Pool Request Draw Market Fault Response) : Bool :=
  match pool.answer 2 with
  | some (.searchProducts dto none, _) => dto = sampleSearch
  | _ => false

theorem exists_done_of_searched (h : searched pool = true) :
    ∃ response, pool.threads[2]? =
      some ⟨.searchProducts sampleSearch none, .done response⟩ := by
  unfold searched at h
  split at h
  · next dto response hanswer =>
      obtain rfl := of_decide_eq_true h
      exact ⟨response, Pool.thread_of_answer hanswer⟩
  · contradiction

/-- A search that is made once the account is gone. -/
theorem deleted_accounts_sell_nothing_closed :
    ∃ (pool later : Pool Request Draw Market Fault Response)
      (response : Response), pool.state.db.accountDeleted 1 = true ∧
      later.threads[2]? =
        some ⟨.searchProducts sampleSearch none, .done response⟩ ∧
      ∀ row ∈ (Request.searchProducts sampleSearch none).sold response
          later.state.db,
        pool.state.db.accountDeleted row.ownerId = false := by
  obtain ⟨pool, hreach, hcheck⟩ := System.exists_reaches_of_run
    (show ((market sampleApp).run closesShop (Pool.opening 0)).any
      (fun pool => (pool.threads.length = 2 &&
        pool.state.db.accountDeleted 1) &&
          ((market sampleApp).run [.advance 2 calmDraw]
            (Pool.asked sampleApp pool (.searchProducts sampleSearch none))).any
          fun later => decide (SalesKept later.state) && searched later) =
        true by decide +kernel)
  simp only [Bool.and_eq_true, decide_eq_true_eq] at hcheck
  obtain ⟨⟨hlength, hdeleted⟩, hrun⟩ := hcheck
  obtain ⟨later, hlater, hcheck⟩ := System.exists_reaches_of_run hrun
  obtain ⟨hkept, hsearched⟩ := (Bool.and_eq_true _ _).mp hcheck
  obtain ⟨response, hdone⟩ := exists_done_of_searched hsearched
  exact ⟨pool, later, response, hdeleted, hdone, deleted_accounts_sell_nothing
    hreach hlater (hlength.symm ▸ hdone) (of_decide_eq_true hkept)⟩

/-- User 1 lists a product and deletes the account. -/
def leavesShop : List (Move Request Draw Surroundings) :=
  lists ++ [.environment (.userDeleted 1)]

/-- Request 1 asked for product 1, and was shown a product of user 1. -/
def shownProduct (pool : Pool Request Draw Market Fault Response) : Bool :=
  match pool.answer 1 with
  | some (.getProductById 1 none, .product (some view)) => view.row.ownerId = 1
  | _ => false

theorem exists_done_of_shownProduct (h : shownProduct pool = true) :
    ∃ view, pool.threads[1]? =
        some ⟨.getProductById 1 none, .done (.product (some view))⟩ ∧
      view.row.ownerId = 1 := by
  unfold shownProduct at h
  split at h
  · next view hanswer =>
      exact ⟨view, Pool.thread_of_answer hanswer, of_decide_eq_true h⟩
  · contradiction

/-- The page of a product is still shown when its owner is gone. -/
theorem not_always_sell_nothing :
    ¬ ∀ (pool later : Pool Request Draw Market Fault Response)
      (request : Request) (response : Response),
      (market sampleApp).Reaches (fun _ _ => True) (Pool.opening 0) pool →
      (market sampleApp).Reaches (fun _ _ => True)
        (Pool.asked sampleApp pool request) later →
      later.threads[pool.threads.length]? =
        some ⟨request, .done response⟩ →
      ∀ row ∈ request.sold response later.state.db,
        pool.state.db.accountDeleted row.ownerId = false := by
  intro halways
  obtain ⟨pool, hreach, hcheck⟩ := System.exists_reaches_of_run
    (show ((market sampleApp).run leavesShop (Pool.opening 0)).any
      (fun pool => (pool.threads.length = 1 &&
        pool.state.db.accountDeleted 1) &&
          ((market sampleApp).run (List.replicate 2 (.advance 1 calmDraw))
            (Pool.asked sampleApp pool (.getProductById 1 none))).any
          shownProduct) = true by decide +kernel)
  simp only [Bool.and_eq_true, decide_eq_true_eq] at hcheck
  obtain ⟨⟨hlength, hdeleted⟩, hrun⟩ := hcheck
  obtain ⟨later, hlater, hshown⟩ := System.exists_reaches_of_run hrun
  obtain ⟨view, hdone, howner⟩ := exists_done_of_shownProduct hshown
  have hdone' : later.threads[pool.threads.length]? =
      some ⟨.getProductById 1 none, .done (.product (some view))⟩ := by
    rw [hlength]
    exact hdone
  have hthere := halways pool later _ _ hreach hlater hdone'
    view.row List.mem_cons_self
  rw [howner, hdeleted] at hthere
  contradiction

end MarketPlace.Trade
