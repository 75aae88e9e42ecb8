import MarketPlace.MarketHistories

/-!
# The tabs of the conversation list

The list shows a conversation about a product under "sell" to the product's
owner and under "buy" to anybody else who takes part.  A conversation may be
opened about any product that is available, so that its owner need not be one
of the two.
-/

namespace MarketPlace.Trade

open EventLog Interleaving Relational

variable {app : Deployment}

/-- Some page of the list shows the conversation under the scope. -/
def Database.InTab
    (db : Database) (tieRank : ℕ → ℕ) (userId : ℕ) (scope : ConversationScope)
    (conversationId : ℕ) : Prop :=
  ∃ limit offset view,
    view ∈ db.listConversations userId scope limit offset tieRank ∧
      view.id = conversationId

def ConversationRow.HasUser (row : ConversationRow) (userId : ℕ) : Prop :=
  userId = row.userAId ∨ userId = row.userBId

/-- The seller sees the conversation under "sell" only and the buyer under
"buy" only. -/
structure Database.Divides
    (db : Database) (tieRank : ℕ → ℕ) (conversationId seller buyer : ℕ) :
    Prop where
  sells : db.InTab tieRank seller .sell conversationId
  notBuys : ¬ db.InTab tieRank seller .buy conversationId
  buys : db.InTab tieRank buyer .buy conversationId
  notSells : ¬ db.InTab tieRank buyer .sell conversationId

/-! ## What the list shows -/

section List

variable {db : Database} {userId conversationId limit offset : ℕ}
  {scope : ConversationScope} {tieRank : ℕ → ℕ} {row : ConversationRow}
  {product : ProductRow}

theorem Database.conversationView_id {view : ConversationView}
    (h : db.conversationView userId row = some view) : view.id = row.id := by
  obtain ⟨peer, -, rfl⟩ := Option.map_eq_some_iff.mp h
  rfl

theorem Database.mem_listConversations {view : ConversationView}
    (h : view ∈ db.listConversations userId scope limit offset tieRank) :
    ∃ row, db.conversations.get view.id = some row ∧
      db.listsConversation userId scope row = true := by
  obtain ⟨row, hrow, hview⟩ := List.mem_filterMap.mp h
  have hsorted := List.mem_of_mem_drop (List.mem_of_mem_take hrow)
  rw [List.mem_mergeSort, List.mem_filter, List.mem_filter] at hsorted
  rw [conversationView_id hview]
  exact ⟨row, Table.get_of_mem hsorted.1.1, hsorted.1.2⟩

/-- A conversation that the scope lists is on a page that is long enough. -/
theorem Database.inTab_of_listsConversation
    (hrow : db.conversations.get conversationId = some row)
    (hlists : db.listsConversation userId scope row = true)
    (hpeer : (db.users.get (row.peerOf userId)).isSome = true) :
    db.InTab tieRank userId scope conversationId := by
  obtain ⟨peer, hget⟩ := Option.isSome_iff_exists.mp hpeer
  have hview : ∃ view, db.conversationView userId row = some view := by
    rw [conversationView, hget]
    exact ⟨_, rfl⟩
  obtain ⟨view, hview⟩ := hview
  have hid : view.id = conversationId :=
    (conversationView_id hview).trans (Table.key_of_get hrow)
  let listed := (db.conversations.rows.filter
    (db.listsConversation userId scope)).filter fun row =>
      (db.users.get (row.peerOf userId)).isSome
  have hmem : row ∈ listed :=
    List.mem_filter.mpr ⟨List.mem_filter.mpr
      ⟨Table.mem_of_get hrow, hlists⟩, hpeer⟩
  let sorted := listed.mergeSort (db.latestActivityFirst tieRank)
  have hpage : page sorted.length 0 sorted = sorted := by
    rw [page, List.drop_zero, List.take_length]
  refine ⟨sorted.length, 0, view, List.mem_filterMap.mpr ⟨row, ?_, hview⟩, hid⟩
  show row ∈ page sorted.length 0 sorted
  rw [hpage, List.mem_mergeSort]
  exact hmem

theorem Database.inTab_iff
    (hrow : db.conversations.get conversationId = some row)
    (hpeer : (db.users.get (row.peerOf userId)).isSome = true) :
    db.InTab tieRank userId scope conversationId ↔
      db.listsConversation userId scope row = true := by
  constructor
  · rintro ⟨limit, offset, view, hview, rfl⟩
    obtain ⟨other, hother, hlists⟩ := mem_listConversations hview
    obtain rfl := Option.some.inj (hrow.symm.trans hother)
    exact hlists
  · exact fun hlists => inTab_of_listsConversation hrow hlists hpeer

theorem Database.hasBlockBetweenUsers_comm (db : Database) (userId other : ℕ) :
    db.hasBlockBetweenUsers userId other =
      db.hasBlockBetweenUsers other userId := by
  simp only [hasBlockBetweenUsers]
  congr 1
  funext row
  rw [Bool.or_comm]

theorem ConversationRow.unblocked_peerOf (huser : row.HasUser userId)
    (hunblocked : db.hasBlockBetweenUsers row.userAId row.userBId = false) :
    db.hasBlockBetweenUsers userId (row.peerOf userId) = false := by
  by_cases hA : row.userAId = userId
  · rw [peerOf, if_pos hA, ← hA]
    exact hunblocked
  · have hB : userId = row.userBId := huser.resolve_left (Ne.symm hA)
    rw [peerOf, if_neg hA, hB, db.hasBlockBetweenUsers_comm]
    exact hunblocked

/-- Between users who do not block each other the scope looks at the owner of
the product alone. -/
theorem Database.listsConversation_iff (huser : row.HasUser userId)
    (hunblocked : db.hasBlockBetweenUsers row.userAId row.userBId = false)
    (hproduct : db.conversationProduct row = some product) :
    (db.listsConversation userId .sell row = true ↔
      product.ownerId = userId) ∧
    (db.listsConversation userId .buy row = true ↔
      product.ownerId ≠ userId) := by
  have hpeer := ConversationRow.unblocked_peerOf huser hunblocked
  have htakesPart : (row.userAId = userId || row.userBId = userId) = true := by
    rcases huser with rfl | rfl <;> simp
  simp only [listsConversation, htakesPart, hpeer, hproduct, Option.any_some,
    Bool.not_false, Bool.true_and, decide_eq_true_eq, ne_eq, and_self]

end List

/-! ## Participants are there -/

/-- A conversation is between two different users, and both are there. -/
def Database.Peopled (db : Database) : Prop :=
  ∀ id row, db.conversations.get id = some row →
    row.userAId < row.userBId ∧
      (db.users.get row.userAId).isSome = true ∧
        (db.users.get row.userBId).isSome = true

theorem Database.Grows.user_isSome {db db' : Database} (h : db.Grows db')
    {id : ℕ} (hsome : (db.users.get id).isSome = true) :
    (db'.users.get id).isSome = true := by
  obtain ⟨row, hrow⟩ := Option.isSome_iff_exists.mp hsome
  obtain ⟨row', hrow', -⟩ := h.users id row hrow
  rw [hrow']
  rfl

/-- A conversation after a write was there before with the same two users, or
the write opens it. -/
theorem Database.conversation_of_apply {db : Database} {change : Change}
    {id : ℕ} {row : ConversationRow}
    (h : (db.apply change).conversations.get id = some row) :
    (∃ old, db.conversations.get id = some old ∧ old.pair = row.pair) ∨
      change = .insertConversation row := by
  cases change with
  | insertConversation other =>
      rcases Table.get_insert_eq_some h with hold | ⟨hnew, -⟩
      · exact .inl ⟨row, hold, rfl⟩
      · exact .inr (hnew ▸ rfl)
  | setConversationProduct | setLastMessage =>
      obtain ⟨old, hold, hnew⟩ := Table.get_modify_eq_some (by intro; rfl) h
      split at hnew
      all_goals
        subst hnew
        exact .inl ⟨old, hold, rfl⟩
  | _ => exact .inl ⟨row, h, rfl⟩

theorem violation_insertConversation_eq_none {db : Database}
    {row : ConversationRow}
    (h : db.violation (.insertConversation row) = none) :
    row.userAId < row.userBId ∧ (db.users.get row.userAId).isSome = true ∧
      (db.users.get row.userBId).isSome = true := by
  simp only [Database.violation] at h
  by_cases hordered : row.userAId < row.userBId
  · rw [if_neg (not_not.mpr hordered)] at h
    split at h
    · contradiction
    split at h
    · contradiction
    · next husers =>
        simp only [Bool.or_eq_true, not_or, Option.isNone_iff_eq_none,
          ← Option.ne_none_iff_isSome] at husers ⊢
        exact ⟨hordered, husers.1.1, husers.1.2⟩
  · rw [if_pos hordered] at h
    contradiction

theorem Database.Peopled.apply {db : Database} {change : Change}
    (h : db.Peopled) (hwarranted : change.Warranted db) :
    (db.apply change).Peopled := by
  intro id row hrow
  have hgrows := db.grows_apply change
  rcases conversation_of_apply hrow with ⟨old, hold, hpair⟩ | rfl
  · obtain ⟨hordered, hA, hB⟩ := h id old hold
    obtain ⟨heqA, heqB⟩ := Prod.mk.inj hpair
    rw [heqA, heqB] at hordered
    rw [heqA] at hA
    rw [heqB] at hB
    exact ⟨hordered, hgrows.user_isSome hA, hgrows.user_isSome hB⟩
  · have hviolation : db.violation (.insertConversation row) = none :=
      hwarranted.resolve_left Bool.false_ne_true
    obtain ⟨hordered, hA, hB⟩ :=
      violation_insertConversation_eq_none hviolation
    exact ⟨hordered, hgrows.user_isSome hA, hgrows.user_isSome hB⟩

/-! ## Runs -/

variable {now : ℕ} {pool : Pool Request Draw Market Fault Response}

theorem peopled_of_reaches
    (hreach : (market app).Reaches (fun _ _ => True) (Pool.opening now) pool) :
    pool.state.db.Peopled := by
  rw [traced_of_reaches hreach, ← opened_of_reaches hreach]
  refine stored_lawful (fun event db => event.Warranted db) Database.Peopled
    (warranted_of_reaches hreach) ?_ fun _ _ change hevent hchange hdb =>
      hdb.apply (hevent change hchange)
  rw [opened_of_reaches hreach]
  exact fun _ _ h => nomatch h

/-- In every reachable state a conversation between users who do not block
each other is, for the owner of its product, under "sell" only, and for a
participant who is not the owner under "buy" only: the tabs divide it between
the two when one of them is the owner, and otherwise both have it under "buy".
-/
theorem tabs_follow_owner
    (hreach : (market app).Reaches (fun _ _ => True) (Pool.opening now) pool)
    {conversationId : ℕ} {row : ConversationRow} {product : ProductRow}
    (hrow : pool.state.db.conversations.get conversationId = some row)
    (hproduct : pool.state.db.conversationProduct row = some product)
    (hunblocked :
      pool.state.db.hasBlockBetweenUsers row.userAId row.userBId = false)
    (tieRank : ℕ → ℕ) :
    (row.HasUser product.ownerId →
      row.HasUser (row.peerOf product.ownerId) ∧
        row.peerOf product.ownerId ≠ product.ownerId ∧
          pool.state.db.Divides tieRank conversationId product.ownerId
            (row.peerOf product.ownerId)) ∧
    (¬ row.HasUser product.ownerId → ∀ userId, row.HasUser userId →
      pool.state.db.InTab tieRank userId .buy conversationId ∧
        ¬ pool.state.db.InTab tieRank userId .sell conversationId) := by
  obtain ⟨hordered, hA, hB⟩ := peopled_of_reaches hreach _ row hrow
  have hpeer : ∀ userId,
      (pool.state.db.users.get (row.peerOf userId)).isSome = true := by
    intro userId
    unfold ConversationRow.peerOf
    split
    · exact hB
    · exact hA
  have hsell : ∀ userId, row.HasUser userId →
      (pool.state.db.InTab tieRank userId .sell conversationId ↔
        product.ownerId = userId) := fun userId huser =>
    (Database.inTab_iff hrow (hpeer userId)).trans
      (Database.listsConversation_iff huser hunblocked hproduct).1
  have hbuy : ∀ userId, row.HasUser userId →
      (pool.state.db.InTab tieRank userId .buy conversationId ↔
        product.ownerId ≠ userId) := fun userId huser =>
    (Database.inTab_iff hrow (hpeer userId)).trans
      (Database.listsConversation_iff huser hunblocked hproduct).2
  constructor
  · intro howner
    have hother : row.HasUser (row.peerOf product.ownerId) := by
      unfold ConversationRow.peerOf
      split
      · exact .inr rfl
      · exact .inl rfl
    have hne : row.peerOf product.ownerId ≠ product.ownerId := by
      unfold ConversationRow.peerOf
      split
      · omega
      · next hnot => exact hnot
    exact ⟨hother, hne,
      { sells := (hsell _ howner).mpr rfl
        notBuys := fun hin => (hbuy _ howner).mp hin rfl
        buys := (hbuy _ hother).mpr hne.symm
        notSells := fun hin => hne ((hsell _ hother).mp hin).symm }⟩
  · intro howner userId huser
    have hne : product.ownerId ≠ userId := fun h => howner (h ▸ huser)
    exact ⟨(hbuy userId huser).mpr hne, fun hin =>
      hne ((hsell userId huser).mp hin)⟩

/-- The parts of the state that the tabs depend on, as far as they are checked
on a run: conversation 1 is between users 1 and 2 without blocks, and product 1
of the owner is its product. -/
def tabsDependOn (ownerId : ℕ) (db : Database) : Bool :=
  (db.conversations.get 1).any fun row =>
    row.userAId = 1 && row.userBId = 2 && !db.hasBlockBetweenUsers 1 2 &&
      (db.conversationProduct row).any fun product =>
        product.ownerId = ownerId

theorem exists_of_tabsDependOn {ownerId : ℕ} {db : Database}
    (h : tabsDependOn ownerId db = true) :
    ∃ row product, db.conversations.get 1 = some row ∧ row.userAId = 1 ∧
      row.userBId = 2 ∧ db.hasBlockBetweenUsers 1 2 = false ∧
        db.conversationProduct row = some product ∧
          product.ownerId = ownerId := by
  simp only [tabsDependOn, Option.any_eq_true_iff_get, Bool.and_eq_true,
    decide_eq_true_eq, Bool.not_eq_true'] at h
  obtain ⟨hsome, ⟨⟨⟨hA, hB⟩, hblock⟩, hsome', howner⟩⟩ := h
  exact ⟨_, _, (Option.some_get hsome).symm, hA, hB, hblock,
    (Option.some_get hsome').symm, howner⟩

/-- Users 1, 2 and 3 register, one of them lists a product, and user 1 opens a
conversation with user 2 about it. -/
def asksAbout (ownerId : ℕ) : List (Move Request Draw Surroundings) :=
  [.environment (.userRegisters "Amina" "+201"),
    .environment (.userRegisters "Basil" "+202"),
    .environment (.userRegisters "Celia" "+203"),
    .submit (.createProduct ownerId sampleProduct)] ++
    List.replicate 6 (.advance 0 calmDraw) ++
    [.submit (.getOrCreateConversation 1 2 (some 1))] ++
    List.replicate 8 (.advance 1 calmDraw)

/-- User 2 sells and user 1 buys. -/
theorem tabs_follow_owner_sale :
    ∃ pool row product, (market sampleApp).Reaches (fun _ _ => True)
        (Pool.opening 0) pool ∧
      pool.state.db.conversations.get 1 = some row ∧
      pool.state.db.conversationProduct row = some product ∧
      pool.state.db.Divides id 1 product.ownerId
        (row.peerOf product.ownerId) := by
  obtain ⟨pool, hreach, hcheck⟩ := System.exists_reaches_of_run
    (show ((market sampleApp).run (asksAbout 2) (Pool.opening 0)).any
      (fun pool => tabsDependOn 2 pool.state.db) = true by decide +kernel)
  obtain ⟨row, product, hrow, hA, hB, hblock, hproduct, howner⟩ :=
    exists_of_tabsDependOn hcheck
  have hunblocked :
      pool.state.db.hasBlockBetweenUsers row.userAId row.userBId = false := by
    rw [hA, hB]
    exact hblock
  have huser : row.HasUser product.ownerId := .inr (howner.trans hB.symm)
  exact ⟨pool, row, product, hreach, hrow, hproduct,
    ((tabs_follow_owner hreach hrow hproduct hunblocked id).1 huser).2.2⟩

/-- Users 1 and 2 talk about a product of user 3, and neither of them sells
it. -/
theorem not_always_divides :
    ¬ ∀ (pool : Pool Request Draw Market Fault Response)
      (conversationId : ℕ) (row : ConversationRow) (product : ProductRow)
      (tieRank : ℕ → ℕ),
      (market sampleApp).Reaches (fun _ _ => True) (Pool.opening 0) pool →
      pool.state.db.conversations.get conversationId = some row →
      pool.state.db.conversationProduct row = some product →
      pool.state.db.hasBlockBetweenUsers row.userAId row.userBId = false →
      ∃ seller buyer, row.HasUser seller ∧ row.HasUser buyer ∧
        seller ≠ buyer ∧ product.ownerId = seller ∧
        pool.state.db.Divides tieRank conversationId seller buyer := by
  intro halways
  obtain ⟨pool, hreach, hcheck⟩ := System.exists_reaches_of_run
    (show ((market sampleApp).run (asksAbout 3) (Pool.opening 0)).any
      (fun pool => tabsDependOn 3 pool.state.db) = true by decide +kernel)
  obtain ⟨row, product, hrow, hA, hB, hblock, hproduct, howner⟩ :=
    exists_of_tabsDependOn hcheck
  have hunblocked :
      pool.state.db.hasBlockBetweenUsers row.userAId row.userBId = false := by
    rw [hA, hB]
    exact hblock
  obtain ⟨seller, -, huser, -, -, hseller, -⟩ :=
    halways pool 1 row product id hreach hrow hproduct hunblocked
  unfold ConversationRow.HasUser at huser
  omega

end MarketPlace.Trade
