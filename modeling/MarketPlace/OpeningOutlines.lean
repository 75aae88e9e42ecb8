import MarketPlace.MessageIntegrity

/-!
# What a call that opens a conversation does

Calls between two users that exist and do not block one another, and the
outline of such a call: it returns the conversation of the pair unless its
insert is rejected.
-/

namespace MarketPlace.Trade

open EventLog Interleaving Relational

/-! ## The calls as a system -/

structure OpeningCall where
  userId : ℕ
  participantId : ℕ
  productId : Option ℕ
  deriving DecidableEq, Repr

/-- The calls alone, while time passes. -/
def openings : System OpeningCall Draw ℕ Market Fault ConversationView where
  handler call :=
    getOrCreateConversation call.userId call.participantId call.productId
  environment amount m := { m with now := m.now + amount }

/-- The product that a call names passes the service's own check. -/
def OpeningCall.Valid (call : OpeningCall) (db : Database) : Prop :=
  ∀ productId, truthy call.productId = some productId →
    productFault call.userId call.participantId
      (db.liveProduct productId) = none

/-- The call is between these two users, in one direction or the other. -/
def OpeningCall.Between (call : OpeningCall) (userId participantId : ℕ) :
    Prop :=
  (call.userId = userId ∧ call.participantId = participantId) ∨
    (call.userId = participantId ∧ call.participantId = userId)

/-- Every pair of users has one conversation at most. -/
def Database.PairsUnique (db : Database) : Prop :=
  ∀ row ∈ db.conversations.rows, ∀ other ∈ db.conversations.rows,
    row.pair = other.pair → row.id = other.id

/-- Two different users that exist and do not block one another. -/
structure Database.Acquainted (db : Database) (userId participantId : ℕ) :
    Prop where
  distinct : userId ≠ participantId
  positive : 0 < userId ∧ 0 < participantId
  live : (db.liveUser userId).isSome = true ∧
    (db.liveUser participantId).isSome = true
  unblocked : db.hasBlockBetweenUsers userId participantId = false

theorem Database.Acquainted.symm {db : Database} {userId participantId : ℕ}
    (h : db.Acquainted userId participantId) :
    db.Acquainted participantId userId where
  distinct := h.distinct.symm
  positive := h.positive.symm
  live := h.live.symm
  unblocked := by
    have hunblocked := h.unblocked
    simp only [hasBlockBetweenUsers, List.any_eq_false, Bool.or_eq_true,
      not_or] at hunblocked ⊢
    exact fun row hrow => (hunblocked row hrow).symm

theorem orderedPair_comm {userId participantId : ℕ}
    (hne : userId ≠ participantId) :
    orderedPair userId participantId = orderedPair participantId userId := by
  unfold orderedPair
  rcases Nat.lt_or_gt_of_ne hne with hlt | hlt
  · rw [if_pos hlt, if_neg (Nat.lt_asymm hlt)]
  · rw [if_neg (Nat.lt_asymm hlt), if_pos hlt]

/-! ## What the calls leave alone -/

/-- Only conversations are inserted or given a product. -/
def Event.OfOpening : Event → Prop
  | .wrote _ _ change | .elsewhere change =>
      change.kind = .insertConversation ∨ change.kind = .setConversationProduct
  | _ => True

def Undisturbed (m : Market) : Prop := ∀ event ∈ m.history, event.OfOpening

theorem Event.effect_of_opening {event : Event} (h : event.OfOpening)
    (db : Database) :
    (event.effect db).users = db.users ∧
      (event.effect db).products = db.products ∧
        (event.effect db).userBlocks = db.userBlocks := by
  cases event with
  | wrote actor at_ change | elsewhere change =>
      cases change with
      | insertConversation | setConversationProduct => exact ⟨rfl, rfl, rfl⟩
      | _ => simp [Event.OfOpening, Change.kind] at h
  | rejected | lost => exact ⟨rfl, rfl, rfl⟩

theorem stored_of_opening (opened : Database) {history : List Event}
    (h : ∀ event ∈ history, event.OfOpening) :
    (stored opened history).users = opened.users ∧
      (stored opened history).products = opened.products ∧
        (stored opened history).userBlocks = opened.userBlocks := by
  induction history with
  | nil => exact ⟨rfl, rfl, rfl⟩
  | cons event past ih =>
      obtain ⟨hevent, hpast⟩ := List.forall_mem_cons.mp h
      obtain ⟨husers, hproducts, hblocks⟩ := ih hpast
      obtain ⟨husers', hproducts', hblocks'⟩ :=
        Event.effect_of_opening hevent (stored opened past)
      exact ⟨husers'.trans husers, hproducts'.trans hproducts,
        hblocks'.trans hblocks⟩

/-- The users of a call are as they were when the market opened. -/
structure Ready (userId participantId : ℕ) (m : Market) : Prop where
  undisturbed : Undisturbed m
  acquainted : m.opened.Acquainted userId participantId

variable {rights : Rights} {i userId participantId : ℕ} {m t : Market}

theorem Ready.older (h : Ready userId participantId t)
    (hhistory : m.history <:+ t.history) (hopened : t.opened = m.opened) :
    Ready userId participantId m where
  undisturbed event hevent := h.undisturbed event (hhistory.subset hevent)
  acquainted := hopened ▸ h.acquainted

theorem Ready.before (h : Ready userId participantId t) (hrely : Rely i m t) :
    Ready userId participantId m :=
  h.older hrely.history hrely.opened

theorem Ready.now (h : Ready userId participantId m) (hsound : m.Sound) :
    m.db.Acquainted userId participantId := by
  obtain ⟨husers, -, hblocks⟩ := stored_of_opening m.opened h.undisturbed
  rw [← hsound.traced] at husers hblocks
  have hopened := h.acquainted
  refine ⟨hopened.distinct, hopened.positive, ?_, ?_⟩
  · simp only [Database.liveUser, husers]
    exact hopened.live
  · simp only [Database.hasBlockBetweenUsers, hblocks]
    exact hopened.unblocked

/-! ## The outline of a call -/

/-- The conversation with this id is the one of the pair. -/
def IsConversation (pair : ℕ × ℕ) (id : ℕ) (db : Database) : Prop :=
  ∃ row, db.conversations.get id = some row ∧ row.pair = pair

theorem IsConversation.grows {pair : ℕ × ℕ} {id : ℕ} {db db' : Database}
    (h : IsConversation pair id db) (hgrows : db.Grows db') :
    IsConversation pair id db' := by
  obtain ⟨row, hget, hpair⟩ := h
  obtain ⟨row', hget', hkept⟩ := hgrows.conversations _ row hget
  exact ⟨row', hget', Eq.trans hkept hpair⟩

theorem isConversation_of_conversationOf {pair : ℕ × ℕ} {db : Database}
    {row : ConversationRow} (h : db.conversationOf pair = some row) :
    IsConversation pair row.id db :=
  ⟨row, Table.get_of_mem (List.mem_of_find?_eq_some h),
    by simpa using List.find?_some h⟩

/-- An insert that was rejected while a conversation of the pair was there. -/
def InsertLost (i : ℕ) (pair : ℕ × ℕ) (m : Market) : Prop :=
  ∃ row past, Happened (.rejected i (.insertConversation row)) past m.history ∧
    row.pair = pair ∧
      ((stored m.opened past).conversationOf pair).isSome = true

theorem InsertLost.later {pair : ℕ × ℕ} (h : InsertLost i pair m)
    (hrely : Rely i m t) : InsertLost i pair t := by
  obtain ⟨row, past, hhappened, hpair, hsome⟩ := h
  exact ⟨row, past, hhappened.later hrely.history, hpair,
    hrely.opened ▸ hsome⟩

/-- How a call can fail: the database did not answer, or its insert lost. -/
def Excused (i : ℕ) (pair : ℕ × ℕ) (fault : Fault) (m : Market) : Prop :=
  fault = .database none ∨ InsertLost i pair m

theorem users_of_pair {row : ConversationRow}
    (hpair : row.pair = orderedPair userId participantId) :
    (row.userAId = userId ∧ row.userBId = participantId) ∨
      (row.userAId = participantId ∧ row.userBId = userId) := by
  unfold orderedPair at hpair
  split at hpair
  · exact .inl (Prod.mk.inj hpair)
  · exact .inr (Prod.mk.inj hpair)

theorem participantFault_eq_none {conversationId : ℕ} {row : ConversationRow}
    (hpositive : 0 < userId ∧ 0 < participantId)
    (hpair : row.pair = orderedPair userId participantId) :
    participantFault conversationId userId row = none := by
  obtain ⟨huser, hparticipant⟩ := hpositive
  rcases users_of_pair hpair with ⟨hA, hB⟩ | ⟨hA, hB⟩ <;>
    simp [participantFault, toPositiveInt, hA, hB, huser, hparticipant]

theorem peerOf_eq {row : ConversationRow} (hne : userId ≠ participantId)
    (hpair : row.pair = orderedPair userId participantId) :
    row.peerOf userId = participantId := by
  rcases users_of_pair hpair with ⟨hA, hB⟩ | ⟨hA, hB⟩ <;>
    simp [ConversationRow.peerOf, hA, hB, hne.symm]

theorem exists_conversationView {db : Database} {row : ConversationRow}
    (hacquainted : db.Acquainted userId participantId)
    (hpair : row.pair = orderedPair userId participantId) :
    ∃ view, db.conversationView userId row = some view ∧ view.id = row.id := by
  obtain ⟨peer, hpeer⟩ := Option.isSome_iff_exists.mp hacquainted.live.2
  have hget : db.users.get participantId = some peer :=
    (Option.filter_eq_some_iff.mp hpeer).1
  simp only [Database.conversationView, peerOf_eq hacquainted.distinct hpair,
    hget, Option.map_some]
  exact ⟨_, rfl, rfl⟩

section Outline

variable {conversationId : ℕ}

/-- A participant's own conversation is always shown. -/
theorem getConversationById_meets
    (hconversation : IsConversation (orderedPair userId participantId)
      conversationId m.db) :
    (getConversationById userId conversationId).Meets (acting rights) i
      (fun view t => Ready userId participantId t → view.id = conversationId)
      (fun fault t => Ready userId participantId t →
        fault = .database none) m := by
  refine Program.Meets.bind (Program.Meets.bind
    (select_meets (fun _ _ _ => rfl) fun u t hseen => ?_))
  obtain ⟨row, hget, hpair⟩ := hconversation.grows hseen.before.grows
  have hrow : (u.viewFor none i).conversations.get conversationId = some row :=
    hget
  rw [hrow]
  dsimp only
  split
  · next fault hfault =>
      refine failed_meets fun v hv hready => ?_
      rw [participantFault_eq_none hready.acquainted.positive hpair] at hfault
      contradiction
  refine Program.Meets.bind (select_meets (fun _ _ _ => rfl)
    fun u' t' hseen' => ?_)
  have hlater := Later.trans hseen.after.toRely hseen'.before
  split
  · next hblocked =>
      refine failed_meets fun v hv hready => ?_
      have hready' := hready.before (hseen'.after.toRely.trans hv.toRely)
      have hnow := hready'.now hseen'.before.sound
      rw [peerOf_eq hnow.distinct hpair] at hblocked
      exact absurd (hnow.unblocked.symm.trans hblocked) Bool.false_ne_true
  refine Program.Meets.done fun v hv hsound => ?_
  have hlater' := Later.trans hlater.toRely hseen'.after
  refine Program.Meets.bind (select_meets (fun _ _ _ => rfl)
    fun u'' t'' hseen'' => ?_)
  have hsince := Later.trans hlater'.toRely
    (Later.trans hv ⟨hseen''.before.toRely, hseen''.before.sound⟩)
  obtain ⟨row', hget', hkept⟩ := hsince.grows.conversations _ row hget
  have hpair' : row'.pair = orderedPair userId participantId :=
    Eq.trans hkept hpair
  have hquery : (u''.viewFor none i).conversations.get conversationId =
      some row' := hget'
  rw [hquery, Option.bind_some]
  cases hview : (u''.viewFor none i).conversationView userId row' with
  | none =>
      refine failed_meets fun x hx hready => ?_
      have hnow := (hready.before (hseen''.after.toRely.trans hx.toRely)).now
        hseen''.before.sound
      obtain ⟨view, hsome, -⟩ := exists_conversationView hnow hpair'
      exact absurd (hview.symm.trans hsome) (by simp)
  | some view =>
      refine done_meets fun x hx hready => ?_
      have hnow := (hready.before (hseen''.after.toRely.trans hx.toRely)).now
        hseen''.before.sound
      obtain ⟨other, hother, hid⟩ := exists_conversationView hnow hpair'
      obtain rfl := Option.some.inj (hview.symm.trans hother)
      exact hid.trans (Table.key_of_get hget')

/-- The conversation is shown, however the call came by it. -/
theorem opened_meets
    (hconversation : IsConversation (orderedPair userId participantId)
      conversationId m.db) :
    (getConversationById userId conversationId).Meets (acting rights) i
      (fun view t => Ready userId participantId t →
        IsConversation (orderedPair userId participantId) view.id t.db)
      (fun fault t => Ready userId participantId t →
        Excused i (orderedPair userId participantId) fault t) m := by
  refine Program.Meets.of_later fun t hrely hsound => ?_
  have hthere := hconversation.grows hrely.grows
  refine (Program.Meets.frame
    (fun u => IsConversation (orderedPair userId participantId) conversationId
      u.db) ?_ ?_ (getConversationById_meets hthere) hthere).mono ?_ ?_
  · exact fun hlater h => h.grows hlater.grows
  · exact fun haction h => h.grows (haction.2.rely haction.1.1).grows
  · exact fun view u h hready => (h.1 hready).symm ▸ h.2
  · exact fun fault u h hready => .inl (h.1 hready)

/-- A product that the service's check lets pass is there. -/
theorem productFault_eq_none {product : Option ProductRow}
    (h : productFault userId participantId product = none) :
    product.isSome = true := by
  cases product with
  | none => contradiction
  | some row => rfl

/-- The product, if there is one, was there when the market opened. -/
def ProductThere (productId : Option ℕ) (m : Market) : Prop :=
  ∀ id, productId = some id → (m.opened.liveProduct id).isSome = true

theorem ready_product {productId : ℕ} (h : Ready userId participantId m)
    (hsound : m.Sound)
    (hthere : (m.opened.liveProduct productId).isSome = true) :
    (m.db.products.get productId).isSome = true := by
  obtain ⟨-, hproducts, -⟩ := stored_of_opening m.opened h.undisturbed
  rw [← hsound.traced] at hproducts
  rw [hproducts]
  obtain ⟨row, hrow⟩ := Option.isSome_iff_exists.mp hthere
  rw [(Option.filter_eq_some_iff.mp hrow).1]
  rfl

theorem orderedPair_lt (hne : userId ≠ participantId) :
    (orderedPair userId participantId).1 <
      (orderedPair userId participantId).2 := by
  unfold orderedPair
  split
  · next hlt => exact hlt
  · next hnot => exact lt_of_le_of_ne (Nat.le_of_not_lt hnot) hne.symm

/-- Ready users' insert is only ever rejected for a conversation that is
there. -/
theorem violation_insertConversation {productId : Option ℕ} {id createdAt : ℕ}
    (hready : Ready userId participantId m) (hsound : m.Sound)
    (hproduct : ProductThere productId m) {violation : Database.Violation}
    (hviolation : m.db.violation (.insertConversation
      ⟨id, (orderedPair userId participantId).1,
        (orderedPair userId participantId).2, productId, none, createdAt⟩) =
      some violation) :
    (m.db.conversationOf (orderedPair userId participantId)).isSome = true := by
  have hnow := hready.now hsound
  have huser : ∀ id, (m.db.liveUser id).isSome = true →
      (m.db.users.get id).isNone = false := by
    intro id hlive
    obtain ⟨row, hrow⟩ := Option.isSome_iff_exists.mp hlive
    rw [(Option.filter_eq_some_iff.mp hrow).1]
    rfl
  have hfirst : (m.db.users.get (orderedPair userId participantId).1).isNone =
      false := by
    unfold orderedPair
    split
    · exact huser _ hnow.live.1
    · exact huser _ hnow.live.2
  have hsecond : (m.db.users.get (orderedPair userId participantId).2).isNone =
      false := by
    unfold orderedPair
    split
    · exact huser _ hnow.live.2
    · exact huser _ hnow.live.1
  have hthere : (productId.any fun id => (m.db.products.get id).isNone) =
      false := by
    cases productId with
    | none => rfl
    | some id => simpa using ready_product hready hsound (hproduct id rfl)
  by_contra hnone
  have hpair : (m.db.conversationOf ((orderedPair userId participantId).1,
      (orderedPair userId participantId).2)).isSome = false :=
    Bool.eq_false_iff.mpr hnone
  simp [Database.violation, orderedPair_lt hnow.distinct, ConversationRow.pair,
    hfirst, hsecond, hthere, hpair] at hviolation

theorem Excused.later {pair : ℕ × ℕ} {fault : Fault}
    (h : Excused i pair fault m) (hrely : Rely i m t) :
    Excused i pair fault t := by
  rcases h with hdatabase | hlost
  · exact .inl hdatabase
  · exact .inr (hlost.later hrely)

theorem excused_notFound {pair : ℕ × ℕ} {fault : Fault} {message : String}
    {β : Type} {post : β → Market → Prop}
    (hexcused : Ready userId participantId m → Excused i pair fault m) :
    (notFoundOnForeignKey message fault : Operation β).Meets (acting rights) i
      post (fun other t => Ready userId participantId t →
        Excused i pair other t) m := by
  unfold notFoundOnForeignKey
  split
  · next hforeign =>
      refine failed_meets fun t ht hready => ?_
      rcases hexcused (hready.before ht.toRely) with hdatabase | hlost
      · exact absurd (hforeign.symm.trans hdatabase) (by simp)
      · exact .inr (hlost.later ht.toRely)
  · exact failed_meets fun t ht hready =>
      (hexcused (hready.before ht.toRely)).later ht.toRely

theorem openConversation_meets {productId : Option ℕ}
    (huser : rights.user = some userId)
    (hwrites : .insertConversation ∈ rights.writes)
    (hproduct : ProductThere productId m) :
    (openConversation (orderedPair userId participantId) productId).Meets
      (acting rights) i
      (fun row t => IsConversation (orderedPair userId participantId) row.id
        t.db)
      (fun fault t => Ready userId participantId t →
        Excused i (orderedPair userId participantId) fault t) m := by
  refine Program.Meets.caught (fun fault t => Ready userId participantId t →
    Excused i (orderedPair userId participantId) fault t) ?_
    fun fault t hexcused => excused_notFound hexcused
  refine run_meets (fun _ _ => hwrites) (fun _ _ => rfl) ?_
    (fun _ _ _ _ _ => .inl rfl) ?_ ?_
  · exact fun _ _ => ⟨userId, huser, rfl, rfl, orderedPair_eq_or _ _⟩
  · intro u t violation hu hviolation ht hready
    refine InsertLost.later (m := (u.take _).record _) ?_ ht.toRely |> .inr
    have hready' : Ready userId participantId u :=
      (hready.before ht.toRely).older (List.suffix_cons _ _) rfl
    refine ⟨_, u.history, happened_self, rfl, ?_⟩
    have hthere := violation_insertConversation hready' hu.sound
      (fun id hid => hu.opened ▸ hproduct id hid) hviolation
    rw [hu.sound.traced] at hthere
    exact hthere
  · intro u t hu _ ht
    have hfree : u.db.conversations.get u.ids.conversations = none :=
      Option.eq_none_iff_forall_ne_some.mpr fun row hrow =>
        lt_irrefl _ (hu.sound.within.conversations _ row hrow)
    refine IsConversation.grows ?_ ht.grows
    exact ⟨⟨u.ids.conversations, (orderedPair userId participantId).1,
      (orderedPair userId participantId).2, productId, none, u.now⟩,
      Table.get_insert_self hfree, rfl⟩

theorem backfillProduct_meets {productId : Option ℕ}
    {conversation : ConversationRow}
    (huser : rights.user = some userId)
    (hwrites : .setConversationProduct ∈ rights.writes)
    (hproduct : ProductThere productId m) :
    (backfillProduct conversation productId).Meets (acting rights) i
      (fun _ t => m.db.Grows t.db)
      (fun fault t => Ready userId participantId t → fault = .database none)
      m := by
  unfold backfillProduct
  split
  · exact done_meets fun t ht => ht.grows
  split
  · exact done_meets fun t ht => ht.grows
  unfold perform execute
  refine run_meets (fun _ _ => hwrites) (fun _ _ => rfl) ?_
    (fun _ _ _ _ _ => rfl) ?_ ?_
  · exact fun _ _ => ⟨userId, huser, trivial⟩
  · intro u t violation hu hviolation ht hready
    have hready' : Ready userId participantId u :=
      (hready.before ht.toRely).older (List.suffix_cons _ _) rfl
    have hthere := ready_product hready' hu.sound
      (hu.opened ▸ hproduct _ rfl)
    obtain ⟨row, hrow⟩ := Option.isSome_iff_exists.mp hthere
    simp [Database.violation, hrow] at hviolation
  · exact fun u t hu _ ht =>
      (hu.grows.trans (u.grows_autocommit i _)).trans ht.grows

theorem validateProduct_meets {productId : Option ℕ}
    (hvalid : ∀ id, truthy productId = some id →
      productFault userId participantId (m.opened.liveProduct id) = none) :
    (validateProduct userId participantId productId).Meets (acting rights) i
      (fun product t => Later i m t ∧ ProductThere product t)
      (fun fault t => Ready userId participantId t → fault = .database none)
      m := by
  unfold validateProduct
  split
  · exact done_meets fun t ht => ⟨ht, fun _ h => nomatch h⟩
  next id hid =>
  have hfault := hvalid id hid
  refine Program.Meets.bind (select_meets (fun _ _ _ => rfl)
    fun u t hseen => ?_)
  split
  · next fault hrefused =>
      refine failed_meets fun v hv hready => ?_
      have hready' := hready.before (hseen.after.toRely.trans hv.toRely)
      obtain ⟨-, hproducts, -⟩ :=
        stored_of_opening u.opened hready'.undisturbed
      rw [← hseen.before.sound.traced] at hproducts
      have hsame : (u.viewFor none i).liveProduct id =
          m.opened.liveProduct id := by
        rw [← hseen.before.opened]
        exact congrArg (fun table : Table ProductRow.id =>
          (table.get id).filter fun row => row.deletedAt.isNone) hproducts
      rw [hsame, hfault] at hrefused
      contradiction
  · refine done_meets fun v hv => ⟨Later.trans hseen.later.toRely hv, ?_⟩
    rintro other ⟨⟩
    rw [hv.opened, hseen.later.opened]
    exact productFault_eq_none hfault

theorem getOrCreateConversation_meets {productId : Option ℕ}
    (huser : rights.user = some userId)
    (hwrites : ∀ kind ∈ [.insertConversation, .setConversationProduct],
      kind ∈ rights.writes)
    (hvalid : ∀ id, truthy productId = some id →
      productFault userId participantId (m.opened.liveProduct id) = none) :
    (getOrCreateConversation userId participantId productId).Meets
      (acting rights) i
      (fun view t => Ready userId participantId t →
        IsConversation (orderedPair userId participantId) view.id t.db)
      (fun fault t => Ready userId participantId t →
        Excused i (orderedPair userId participantId) fault t) m := by
  simp only [List.forall_mem_cons] at hwrites
  unfold getOrCreateConversation
  split
  · next hsame =>
      exact failed_meets fun t _ hready =>
        absurd hsame hready.acquainted.distinct
  -- The participant is there.
  refine Program.Meets.bind (Program.Meets.bind (select_meets
    (fun _ _ _ => .inl rfl) fun u₁ t₁ hseen₁ => ?_))
  split
  · next habsent =>
      refine failed_meets fun t ht hready => ?_
      have hnow := (hready.before (hseen₁.after.toRely.trans ht.toRely)).now
        hseen₁.before.sound
      have hlive : ((u₁.viewFor none i).liveUser participantId).isSome = true :=
        hnow.live.2
      rw [hlive] at habsent
      contradiction
  refine Program.Meets.done fun v₁ hv₁ hsound₁ => ?_
  have hlater₁ := Later.trans hseen₁.later.toRely ⟨hv₁, hsound₁⟩
  -- Nobody is blocked.
  refine Program.Meets.bind (select_meets (fun _ _ _ => .inl rfl)
    fun u₂ t₂ hseen₂ => ?_)
  have hlater₂ := Later.trans hlater₁.toRely hseen₂.later
  split
  · next hblocked =>
      refine failed_meets fun t ht hready => ?_
      have hnow := (hready.before (hseen₂.after.toRely.trans ht.toRely)).now
        hseen₂.before.sound
      exact absurd (hnow.unblocked.symm.trans hblocked) Bool.false_ne_true
  -- The product is valid.
  refine Program.Meets.bind (((validateProduct_meets fun id hid => ?_).mono
    (fun product t h => ?_) fun fault t h hready => .inl (h hready)))
  · rw [hlater₂.opened]
    exact hvalid id hid
  obtain ⟨hlater₃, hproduct⟩ := h
  refine Program.Meets.bind (select_meets (fun _ _ _ => .inl rfl)
    fun u₄ t₄ hseen₄ => ?_)
  have hproduct₄ : ProductThere product t₄ := fun id hid =>
    hseen₄.later.opened ▸ hproduct id hid
  split
  · next conversation hfound =>
      have hthere : IsConversation (orderedPair userId participantId)
          conversation.id t₄.db :=
        (isConversation_of_conversationOf hfound).grows hseen₄.after.grows
      refine Program.Meets.bind ((backfillProduct_meets huser hwrites.2.1
        hproduct₄).mono (fun _ t hgrows => ?_)
          fun fault t h hready => .inl (h hready))
      exact opened_meets (hthere.grows hgrows)
  · refine Program.Meets.bind ((openConversation_meets huser hwrites.1
      hproduct₄).mono (fun row t hthere => ?_) fun _ _ h => h)
    exact opened_meets hthere

end Outline

end MarketPlace.Trade
