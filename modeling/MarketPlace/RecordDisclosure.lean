import MarketPlace.BodyNames

/-!
# Records for whoever asks

The expansion looks up every row that the details of a product name, whoever
has written them.  A user who lists a product can read the record of any row of
the six tables in the answer.
-/

namespace MarketPlace.Trade

open Interleaving Relational

section Listing

variable {β : Type} {i user : ℕ} {m n : Market} {dto : CreateProductDto}

/-- A statement that writes, can lock its rows and violates nothing. -/
theorem ends_run_calm {client : Option Client}
    {change : ℕ → Sequences → Change}
    {result : ℕ → Sequences → Database → Database → β}
    (hlockable : m.lockable client i (change (m.nowFor client) m.ids) = true)
    (hviolation : (m.viewFor client i).violation
      (change (m.nowFor client) m.ids) = none) :
    (run client change result).Ends i [calmDraw] m
      (.ok (result (m.nowFor client) m.ids (m.viewFor client i)
        ((m.write client i (change (m.nowFor client) m.ids)).viewFor client i)))
      (m.write client i (change (m.nowFor client) m.ids)) := by
  have hfails : ¬ calmDraw.databaseFails = true := Bool.false_ne_true
  refine ends_attempt.mpr ⟨calmDraw, rfl, ?_⟩
  dsimp only
  rw [if_neg hfails, if_pos hlockable, hviolation]

/-- A transaction that is answered commits what its callback has written. -/
theorem ends_withTransaction_of_callback {callback : Client → Operation β}
    {ws : List Draw} {value : β}
    (h : (callback ⟨m.now⟩).Ends i ws (m.rollback i) (.ok value) n) :
    ∃ ws', (withTransaction callback).Ends i ws' m (.ok value)
      (n.commit i) := by
  have hbegin : begin.Ends i [calmDraw] m (.ok ⟨m.now⟩) (m.rollback i) :=
    ends_attempt.mpr ⟨calmDraw, rfl, rfl⟩
  have hcommit : commit.Ends i [calmDraw] n (.ok ()) (n.commit i) :=
    ends_attempt.mpr ⟨calmDraw, rfl, rfl⟩
  have hdone : (commit >>= fun _ => pure value).Ends i [calmDraw] n
      (.ok value) (n.commit i) :=
    Program.ends_bind_ok.mpr ⟨_, [], _, _, rfl, hcommit, rfl, rfl, rfl⟩
  have hcallback : (callback ⟨m.now⟩ >>= fun result => do
      commit
      pure result).Ends i (ws ++ [calmDraw]) (m.rollback i) (.ok value)
        (n.commit i) :=
    Program.ends_bind_ok.mpr ⟨ws, [calmDraw], _, _, rfl, h, hdone⟩
  have hbody : Program.Ends i (do
      let client ← begin
      let result ← callback client
      commit
      pure result) ([calmDraw] ++ (ws ++ [calmDraw])) m (.ok value)
        (n.commit i) :=
    Program.ends_bind_ok.mpr ⟨_, _, _, _, rfl, hbegin, hcallback⟩
  exact ⟨_, Program.ends_recover.mpr (.inl ⟨value, rfl, hbody⟩)⟩

/-- A product that is there is read with its images, and with the user's
favourite if there is a user. -/
theorem ends_fetchProductWithImages_calm {client : Client} {productId : ℕ}
    {row : ProductRow}
    (hrow : (m.store.view schema i).liveProduct productId = some row) :
    ∃ ws, (fetchProductWithImages (some client) productId (some user)).Ends i
      ws m (.ok (some ⟨row,
        (truthy (some user)).map fun viewer =>
          (m.store.view schema i).isFavorite viewer productId,
        (m.store.view schema i).imageViews productId⟩)) m := by
  have hproduct := ends_select_calm (some client)
    (fun db => db.liveProduct productId) i m
  have himages := ends_select_calm (some client)
    (fun db => db.imageViews productId) i m
  rw [viewFor_some] at hproduct himages
  rw [hrow] at hproduct
  cases hviewer : truthy (some user) with
  | none =>
      refine ⟨_, Program.ends_bind_ok.mpr ⟨_, _, _, _, rfl, hproduct,
        Program.ends_bind_ok.mpr ⟨_, [], _, _, rfl, himages, ?_⟩⟩⟩
      simp [hviewer]
  | some viewer =>
      have hfavorite := ends_select_calm (some client)
        (fun db => db.isFavorite viewer productId) i m
      refine ⟨_, Program.ends_bind_ok.mpr ⟨_, _, _, _, rfl, hproduct,
        Program.ends_bind_ok.mpr ⟨_, [calmDraw], _, _, rfl, himages, ?_⟩⟩⟩
      simp only [hviewer]
      exact Program.ends_bind_ok.mpr ⟨_, [], _, _, rfl, hfavorite, rfl, rfl,
        rfl⟩

/-- The rows that the transaction of user `user` reads of the product it has
just inserted. -/
def insertedView (user : ℕ) (dto : CreateProductDto) (m : Market) :
    ProductView :=
  let row := newProductRow user dto m.ids.products m.now
  let db := m.db.apply (.insertProduct row)
  ⟨row, (truthy (some user)).map fun viewer => db.isFavorite viewer row.id,
    db.imageViews row.id⟩

/-- A product without images is listed if nobody else acts. -/
theorem ends_createProduct_of_free
    (hpair : assertCategoryPair (trim dto.category) (trimmed dto.subcategory)
      false = pure ())
    (himages : dto.imageFileIds = none)
    (huser : (m.db.users.get user).isSome = true)
    (hunused : m.db.products.get m.ids.products = none)
    (hfree : m.store.unlocked [.product m.ids.products] = true) :
    ∃ ws t, (createProduct user dto).Ends i ws m
        (.ok (some (insertedView user dto m))) t ∧
      t.db = m.db.apply
        (.insertProduct (newProductRow user dto m.ids.products m.now)) := by
  let row := newProductRow user dto m.ids.products m.now
  let n := (m.rollback i).enqueue i (.insertProduct row)
  have hview : n.store.view schema i = m.db.apply (.insertProduct row) := by
    rw [view_enqueue, view_rollback]
  have hinsert : (insertReturning (some ⟨m.now⟩)
      (fun now ids => newProductRow user dto ids.products now)
      .insertProduct).Ends i [calmDraw] (m.rollback i) (.ok row) n := by
    have hlockable : (m.rollback i).lockable (some ⟨m.now⟩) i
        (.insertProduct row) = true := by
      have hnobody : m.store.holder (.product m.ids.products) = none := by
        simpa [ReadCommitted.Store.unlocked] using hfree
      simp [Market.lockable, Change.footprint, ReadCommitted.Store.available,
        Market.rollback, ReadCommitted.Store.rollback,
        ReadCommitted.Store.release, ReadCommitted.Store.setQueue, row,
        newProductRow, hnobody]
    have hviolation : ((m.rollback i).viewFor (some ⟨m.now⟩) i).violation
        (.insertProduct row) = none := by
      have hsome : m.db.users.get user ≠ none :=
        Option.isSome_iff_ne_none.mp huser
      rw [viewFor_some, view_rollback]
      simp [Database.violation, row, newProductRow, hsome]
    exact ends_run_calm hlockable hviolation
  have hlive : (n.store.view schema i).liveProduct row.id = some row := by
    have hget : (m.db.products.insert row).get row.id = some row :=
      Table.get_insert_self hunused
    rw [hview]
    exact Database.liveProduct_eq_some.mpr ⟨hget, rfl⟩
  obtain ⟨ws, hfetch⟩ := @ends_fetchProductWithImages_calm i user n ⟨m.now⟩
    row.id row hlive
  rw [hview] at hfetch
  have hends : ∃ ws', (createProduct user dto).Ends i ws' m
      (.ok (some (insertedView user dto m))) (n.commit i) := by
    refine @ends_withTransaction_of_callback _ i m n _ (calmDraw :: ws) _ ?_
    simp only [hpair, himages, Program.pure_eq_done, Program.done_bind]
    exact Program.ends_bind_ok.mpr ⟨[calmDraw], ws, _, _, rfl, hinsert, hfetch⟩
  obtain ⟨ws', hends⟩ := hends
  exact ⟨ws', n.commit i, hends, (db_commit i n).trans hview⟩

end Listing

end MarketPlace.Trade

namespace MarketPlace.Relations

open Interleaving Relational
open Trade (Json ProductRow ProductView)

/-! ## The body of the new product -/

section Bodies

variable {app : RelationsDeployment} {key : String} {rule : FkRule}
  {entity : EntityType} {id : ℕ}

/-- Whatever an entry names is a number that the language writes exactly. -/
def NamesExactly (app : RelationsDeployment) (container : List (String × Json))
    (field : String × Json) : Prop :=
  ∀ named number, Names app (container, field) named number →
    app.nearestNumber number = number

theorem namesExactly_of_plain {container : List (String × Json)}
    {field : String × Json} (hplain : ruleOf field.1 = none) :
    NamesExactly app container field := by
  rintro named number ⟨rule, hactive, -, -⟩
  rw [activeRule_eq_none hplain] at hactive
  contradiction

theorem namesExactly_bigint {container : List (String × Json)} {number : ℕ}
    (hexact : app.nearestNumber number = number) :
    NamesExactly app container (key, bigintJson number) := by
  rintro named other ⟨rule, -, -, hother⟩
  obtain rfl := nearestNumber_of_bigint hother
  rw [hexact, hexact]

theorem namesExactly_number {container : List (String × Json)} {number : ℕ}
    (hexact : app.nearestNumber number = number) :
    NamesExactly app container (key, .number number) := by
  rintro named other ⟨rule, -, -, hother⟩
  obtain rfl := number_of_toPositiveInt hother
  exact hexact

theorem mem_entries_object {fields : List (String × Json)}
    {field : String × Json} (hfield : field ∈ fields)
    {entry : List (String × Json) × String × Json}
    (hentry : entry = (fields, field) ∨ entry ∈ field.2.entries) :
    entry ∈ (Json.object fields).entries := by
  rw [Json.entries, Json.entries_ofFields, List.mem_flatMap]
  exact ⟨field, hfield, by simpa using hentry⟩

/-- The keys of a product that are no foreign keys. -/
def plainKeys : List String :=
  ["product", "id", "category", "subcategory", "name", "description", "price",
    "city", "address_text", "details", "status", "is_negotiable",
    "preferred_contact_method", "created_at", "updated_at", "is_favorite",
    "images"]

theorem ruleOf_plainKeys : ∀ key ∈ plainKeys, ruleOf key = none := by
  decide +kernel

theorem entries_nullable {α : Type} {json : α → Json} {value : Option α}
    (hleaf : ∀ other, (json other).entries = []) :
    (nullable json value).entries = [] := by
  cases value with
  | none => rfl
  | some other => exact hleaf other

/-- The only foreign keys of the body are the owner and the one in the
details. -/
theorem namesExactly_body {view : ProductView}
    (hdetails : view.row.details = some (numbered key id))
    (himages : view.images = [])
    (howner : app.nearestNumber view.row.ownerId = view.row.ownerId)
    (hid : app.nearestNumber id = id) :
    (Json.object [("product", productJson app view)]).Each
      (NamesExactly app) := by
  have hproduct : ruleOf "product" = none :=
    ruleOf_plainKeys _ (by simp [plainKeys])
  have hnumbered : (numbered key id).Each (NamesExactly app) := by
    refine Json.each_object_iff.mpr ⟨?_, by simp [Json.Each, Json.entries]⟩
    exact List.forall_mem_singleton.mpr (namesExactly_number hid)
  have hkeys : ∀ field ∈ productFields app view.row ++
      [("is_favorite", nullable .bool view.isFavorite),
        ("images", .array (view.images.map (imageJson bigintJson)))],
      field.1 ∈ plainKeys ∨
        field = ("owner_id", bigintJson view.row.ownerId) := by
    simp [productFields, plainKeys]
  have hvalues : ∀ field ∈ productFields app view.row ++
      [("is_favorite", nullable .bool view.isFavorite),
        ("images", .array (view.images.map (imageJson bigintJson)))],
      field.2.entries = [] ∨ field.2 = numbered key id := by
    have hsubcategory : (nullable .text view.row.subcategory).entries = [] :=
      entries_nullable fun other => by simp [Json.entries]
    have hfavorite : (nullable .bool view.isFavorite).entries = [] :=
      entries_nullable fun other => by simp [Json.entries]
    simp [productFields, hdetails, himages, hsubcategory, hfavorite,
      Json.entries, bigintJson, timestampJson, Json.entries.ofItems]
  refine Json.each_object_iff.mpr
    ⟨List.forall_mem_singleton.mpr (namesExactly_of_plain hproduct),
      List.forall_mem_singleton.mpr (Json.each_object_iff.mpr ⟨?_, ?_⟩)⟩
  · intro field hfield
    rcases hkeys field hfield with hplain | rfl
    · exact namesExactly_of_plain (ruleOf_plainKeys _ hplain)
    · exact namesExactly_bigint howner
  · intro field hfield
    rcases hvalues field hfield with hleaf | hvalue
    · simp [Json.Each, hleaf]
    · exact hvalue ▸ hnumbered

/-- The entry of the details stands in the body. -/
theorem mem_entries_body {view : ProductView} {value : Json}
    (hdetails : view.row.details = some (.object [(key, value)])) :
    ([(key, value)], key, value) ∈
      (Json.object [("product", productJson app view)]).entries := by
  have hfield : ("details", Json.object [(key, value)]) ∈
      productFields app view.row ++
        [("is_favorite", nullable .bool view.isFavorite),
          ("images", .array (view.images.map (imageJson bigintJson)))] := by
    simp [productFields, hdetails]
  have hentry : ([(key, value)], key, value) ∈
      (Json.object [(key, value)]).entries :=
    mem_entries_object List.mem_cons_self (.inl rfl)
  have hproduct : ([(key, value)], key, value) ∈
      (productJson app view).entries :=
    mem_entries_object hfield (.inr hentry)
  exact mem_entries_object List.mem_cons_self (.inr hproduct)

/-- A foreign key alone in an object is one. -/
theorem activeRule_single {value : Json}
    (hrule : fkRules.lookup key = some rule) :
    activeRule [(key, value)] key = some rule := by
  have hkey : key ∉ objectPrototypeMembers := fun hmember => by
    have hnone := (prototype_keeps _ hmember).2
    simp [hrule] at hnone
  have howner : ¬ (key = "owner_id" ∧
      hasOwn [(key, value)] "owner_type" = true) := by
    rintro ⟨rfl, hown⟩
    simp [hasOwn] at hown
  rw [activeRule_eq_foreignKey hkey, foreignKey, if_neg howner, hrule]

/-- The foreign key alone is replaced by what it names. -/
theorem field_transformNode_single {maps : MapsByEntity} {value : Json}
    (hrule : fkRules.lookup key = some rule) :
    field (outputKeyOf rule key)
        (transformNode app maps (.object [(key, value)])) =
      some (expandedValue app maps rule.entity value) := by
  have hproto := (fkRules_shape _ (mem_of_lookup hrule)).2.2
  have hentry : expandedEntry app maps [(key, value)] (key, value) =
      (outputKeyOf rule key, expandedValue app maps rule.entity value) := by
    rw [expandedEntry, activeRule_single hrule]
  rw [field_transformNode, assigned, List.map_singleton, hentry,
    List.filter_cons_of_pos (by simpa using hproto)]
  simp

/-- The answer shows the record that the details ask for. -/
theorem returnedDetails_numbered {db : Snapshot} {view : ProductView}
    (hexact : ∀ number < 2 ^ 53, app.nearestNumber number = number)
    (hrule : fkRules.lookup key = some rule)
    (hentity : rule.entity = some entity) (hpos : 0 < id) (hid : id < 2 ^ 53)
    (hdetails : view.row.details = some (numbered key id))
    (himages : view.images = []) (howner : view.row.ownerId < 2 ^ 53) :
    ∃ returned,
      returnedDetails app db (.product (some view)) 0 = some returned ∧
      field (outputKeyOf rule key) returned =
        some ((liveRecord app db entity id).getD .null) := by
  let body := Json.object [("product", productJson app view)]
  let ids := collectIds app body
  have hint : (id : ℚ).isInt = true := by simp [Rat.isInt]
  have hnamed : toPositiveInt app (.number id) = some id := by
    simp [toPositiveInt, hpos, hint]
  have hcollected : Collected ids (some entity) id :=
    collected_collectIds.mpr ⟨_, mem_entries_body hdetails, rule,
      activeRule_single hrule, hentity, hnamed⟩
  have hnearest : ∀ number, Collected ids (some entity) number →
      app.nearestNumber number = number := by
    intro number hnumber
    obtain ⟨entry, hentry, hnames⟩ := collected_collectIds.mp hnumber
    exact namesExactly_body hdetails himages (hexact _ howner) (hexact _ hid)
      entry hentry _ _ hnames
  have hvalue : expandedValue app (resolveEntities app db ids) rule.entity
      (.number id) = (liveRecord app db entity id).getD .null := by
    rw [hentity, expandedValue_eq hnearest rfl]
    · simp [namedRecord, namedId, hpos, hint]
    · intro number hnumber
      obtain rfl := Option.some.inj (hnamed.symm.trans hnumber)
      exact hcollected
  have hproduct : ruleOf "product" = none :=
    ruleOf_plainKeys _ (by simp [plainKeys])
  have hbody : expand app db body = .object [("product",
      transformNode app (resolveEntities app db ids)
        (productJson app view))] :=
    transformNode_single hproduct _
  have hfield : field "details" (productJson app view) =
      some (numbered key id) := by
    simp [field, productJson, productFields, List.lookup_cons, hdetails]
  have hplaces : bodyProducts (expand app db body) =
      [transformNode app (resolveEntities app db ids)
        (productJson app view)] := by
    rw [hbody]
    rfl
  have hreturned : returnedDetails app db (.product (some view)) 0 =
      some (transformNode app (resolveEntities app db ids)
        (numbered key id)) := by
    have hresponse : responseBody app (.product (some view)) = some body := rfl
    simp [returnedDetails, hresponse, hplaces, field_details, hfield]
  refine ⟨_, hreturned, ?_⟩
  rw [numbered, field_transformNode_single hrule, hvalue]

/-- A new product takes no record away. -/
theorem liveRecord_insertProduct {market : Trade.Database}
    {categories : Table Catalog.CategoryRow.id} {row : ProductRow}
    {record : Json}
    (h : liveRecord app ⟨market, categories⟩ entity id = some record) :
    liveRecord app ⟨market.apply (.insertProduct row), categories⟩ entity id =
      some record := by
  cases entity with
  | product =>
      obtain ⟨product, hproduct, rfl⟩ := Option.map_eq_some_iff.mp h
      obtain ⟨hget, hlive⟩ := Trade.Database.liveProduct_eq_some.mp hproduct
      have hget' : (market.apply (.insertProduct row)).products.get id =
          some product := Table.get_insert_of_get hget
      have hproduct' := Trade.Database.liveProduct_eq_some.mpr ⟨hget', hlive⟩
      exact Option.map_eq_some_iff.mpr ⟨product, hproduct', rfl⟩
  | user | category | message | conversation | file => exact h

end Bodies

/-! ## Reading any row -/

section Runs

variable {app : RelationsDeployment} {now : ℕ}
  {pool : Pool Trade.Request Trade.Draw Trade.Market Trade.Fault
    Trade.Response}

/-- A new product has no images. -/
theorem images_insertedView {user : ℕ} {dto : Trade.CreateProductDto}
    {m : Trade.Market} (hlinked : m.db.Linked)
    (hunused : m.db.products.get m.ids.products = none) :
    (Trade.insertedView user dto m).images = [] := by
  have hnone : m.db.imagesOf m.ids.products = [] := by
    refine List.filter_eq_nil_iff.mpr fun row hrow hproduct => ?_
    have hsome := hlinked row hrow
    rw [of_decide_eq_true hproduct, hunused] at hsome
    contradiction
  have himages : (Trade.insertedView user dto m).images =
      m.db.imageViews m.ids.products := rfl
  simp [himages, Trade.Database.imageViews, Trade.Database.imagesInOrder, hnone]

/-- The sample product is of a category that there is. -/
theorem assertCategoryPair_detailed (key : String) (value : ℚ) :
    Trade.assertCategoryPair (Trade.trim (detailed key value).category)
      (Trade.trimmed (detailed key value).subcategory) false = pure () := by
  have hvalid : Trade.isValidCategory (Trade.trim "vehicles") = true := by
    decide +kernel
  simp [detailed, described, Trade.sampleProduct, Trade.assertCategoryPair,
    Trade.trimmed, hvalid]

/-- From every reachable state in which nobody locks the row that comes next,
each user can list a product whose details name any row of the six tables, and
reads the record of the row in the answer. -/
theorem any_row_readable
    (hexact : ∀ number < 2 ^ 53, app.nearestNumber number = number)
    (hreach : (Trade.market app.market).Reaches (fun _ _ => True)
      (Trade.Pool.opening now) pool)
    (hfree : pool.state.store.unlocked [.product pool.state.ids.products] =
      true)
    {reader : ℕ} (hreader : (pool.state.db.users.get reader).isSome = true)
    (hsmall : reader < 2 ^ 53) {key : String} {rule : FkRule}
    (hrule : fkRules.lookup key = some rule) {entity : EntityType}
    (hentity : rule.entity = some entity) {id : ℕ} (hpos : 0 < id)
    (hid : id < 2 ^ 53) {categories : Table Catalog.CategoryRow.id}
    {record : Json}
    (hrecord : liveRecord app ⟨pool.state.db, categories⟩ entity id =
      some record) :
    ∃ next response returned,
      (Trade.market app.market).Reaches (fun _ _ => True) pool next ∧
      next.threads[pool.threads.length]? =
        some ⟨.createProduct reader (detailed key id), .done response⟩ ∧
      returnedDetails app ⟨next.state.db, categories⟩ response 0 =
        some returned ∧
      field (outputKeyOf rule key) returned = some record := by
  have hsound := (Trade.onCourse_of_reaches hreach).invariant
  have hunused : pool.state.db.products.get pool.state.ids.products = none := by
    cases hget : pool.state.db.products.get pool.state.ids.products with
    | none => rfl
    | some row => exact absurd (hsound.within.products _ row hget) (by omega)
  obtain ⟨ws, t, hends, hdb⟩ := @Trade.ends_createProduct_of_free
    pool.threads.length reader pool.state (detailed key id)
    (assertCategoryPair_detailed key id) rfl hreader hunused hfree
  obtain ⟨next, hnext, hstate, hthread⟩ :=
    @System.exists_answered_of_ends _ _ _ _ _ _ (Trade.market app.market) pool
      (.createProduct reader (detailed key id)) ws _ t
      (Program.ends_bind_ok.mpr ⟨ws, [], _, _, (List.append_nil ws).symm, hends,
        rfl, rfl, rfl⟩)
  have himages := @images_insertedView reader (detailed key id) _
    hsound.linked hunused
  obtain ⟨returned, hreturned, hfield⟩ :=
    @returnedDetails_numbered app key rule entity id
      ⟨next.state.db, categories⟩ _ hexact hrule hentity hpos hid rfl himages
      hsmall
  have hshown : liveRecord app ⟨next.state.db, categories⟩ entity id =
      some record := by
    rw [hstate, hdb]
    exact liveRecord_insertProduct hrecord
  rw [hshown] at hfield
  exact ⟨next, _, returned, hnext, hthread, hreturned, hfield⟩

/-- User 1 writes to user 2 in private, and user 3 has registered. -/
def confides : List (Move Trade.Request Trade.Draw Trade.Surroundings) :=
  [Move.environment (Trade.Surroundings.userRegisters "Amina" "+201"),
    Move.environment (Trade.Surroundings.userRegisters "Basil" "+202"),
    Move.environment (Trade.Surroundings.userRegisters "Carim" "+203"),
    Move.submit (Trade.Request.getOrCreateConversation 1 2 none)] ++
    List.replicate 7 (Move.advance 0 Trade.calmDraw) ++
    [Move.submit (Trade.Request.sendMessage 1 1 "Hello")] ++
    List.replicate 4 (Move.advance 1 Trade.calmDraw)

/-- User 3 reads the message, whose conversation they do not take part in. -/
theorem any_row_readable_message :
    ∃ pool conversation message next response returned,
      (Trade.market sampleRelations.market).Reaches (fun _ _ => True)
        (Trade.Pool.opening 0) pool ∧
      pool.state.db.conversations.get 1 = some conversation ∧
      conversation.userAId = 1 ∧ conversation.userBId = 2 ∧
      pool.state.db.messages.get 1 = some message ∧
      message.conversationId = 1 ∧ message.messageText = "Hello" ∧
      (Trade.market sampleRelations.market).Reaches (fun _ _ => True) pool
        next ∧
      next.threads[pool.threads.length]? =
        some ⟨.createProduct 3 (detailed "last_message_id" (1 : ℕ)),
          .done response⟩ ∧
      returnedDetails sampleRelations ⟨next.state.db, .empty⟩ response 0 =
        some returned ∧
      field "last_message" returned =
        some (messageRecord sampleRelations message) := by
  obtain ⟨pool, hreach, hcheck⟩ := System.exists_reaches_of_run
    (show ((Trade.market sampleRelations.market).run confides
      (Trade.Pool.opening 0)).any (fun pool =>
        pool.state.store.unlocked [.product pool.state.ids.products] &&
        (pool.state.db.users.get 3).isSome &&
        (pool.state.db.conversations.get 1).any (fun row =>
          row.userAId = 1 ∧ row.userBId = 2) &&
        (pool.state.db.messages.get 1).any fun row =>
          row.conversationId = 1 ∧ row.messageText = "Hello") = true
      by decide +kernel)
  simp only [Bool.and_eq_true, Option.any_eq_true, decide_eq_true_eq] at hcheck
  obtain ⟨⟨⟨hfree, hreader⟩, conversation, hconversation, ha, hb⟩, message,
    hmessage, hof, htext⟩ := hcheck
  have hrecord : liveRecord sampleRelations ⟨pool.state.db, .empty⟩ .message 1 =
      some (messageRecord sampleRelations message) := by
    simp [liveRecord, hmessage]
  obtain ⟨next, response, returned, hnext, hthread, hreturned, hfield⟩ :=
    @any_row_readable sampleRelations 0 pool (fun _ _ => rfl) hreach hfree 3
      hreader (by norm_num) "last_message_id" ⟨some .message, none, none⟩
      rfl .message rfl 1 (by norm_num) (by norm_num) .empty _ hrecord
  have hkey : outputKeyOf ⟨some .message, none, none⟩ "last_message_id" =
      "last_message" := by
    decide +kernel
  rw [hkey] at hfield
  exact ⟨pool, conversation, message, next, response, returned, hreach,
    hconversation, ha, hb, hmessage, hof, htext, hnext, hthread, hreturned,
    hfield⟩

end Runs

end MarketPlace.Relations
