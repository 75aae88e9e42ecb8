import MarketPlace.CoherentRows
import MarketPlace.MarketActions

/-!
# Actions of a user while a block is there

Whom an answer shows and a write concerns, and why no write concerns the other
one of two users while one of them blocks the other.  A request asks for the
block in a statement of its own, and goes on in later ones.
-/

namespace MarketPlace.Trade

open Interleaving Relational

/-! ## Whom an answer is about, and whom a write concerns -/

def Database.ownersOf (db : Database) (productId : ℕ) : List ℕ :=
  (db.products.get productId).toList.map ProductRow.ownerId

def ConversationRow.participants (row : ConversationRow) : List ℕ :=
  [row.userAId, row.userBId]

def Database.participantsIn (db : Database) (conversationId : ℕ) : List ℕ :=
  (db.conversations.get conversationId).toList.flatMap
    ConversationRow.participants

/-- The sender of a message and those who read it. -/
def Database.partiesTo (db : Database) (messageId : ℕ) : List ℕ :=
  (db.messages.get messageId).toList.flatMap fun row =>
    row.senderId :: db.participantsIn row.conversationId

/-- The peer of a conversation, the owner of the product that it is about and
the parties to its last message. -/
def Database.shownIn (db : Database) (view : ConversationView) : List ℕ :=
  view.peerUserId :: (view.productId.toList.flatMap db.ownersOf ++
    view.lastMessageId.toList.flatMap db.partiesTo)

def Database.shownBy (db : Database) (view : MessageView) : List ℕ :=
  view.senderId :: db.participantsIn view.conversationId

/-- Whose products, profiles and conversations a service returns. -/
def Response.about (db : Database) : Response → List ℕ
  | .product view => view.toList.map fun view => view.row.ownerId
  | .items listed => listed.map fun item => item.row.ownerId
  | .file view => view.row.uploaderUserId.toList
  | .me view => [view.user.id]
  | .publicProfile view =>
      view.user.user.id :: view.products.map fun item => item.row.ownerId
  | .rating row => [row.raterId, row.ratedUserId]
  | .conversation view => db.shownIn view
  | .conversations views => views.flatMap db.shownIn
  | .messages views => views.flatMap db.shownBy
  | .oneMessage view => db.shownBy view
  | _ => []

/-- Whose product or conversation an answered request has named. -/
def Request.about (db : Database) : Request → List ℕ
  | .addFavorite _ productId => db.ownersOf productId
  | .listMessages _ conversationId _ _ | .sendMessage _ conversationId _ =>
      db.participantsIn conversationId
  | .markRead _ messageId => db.partiesTo messageId
  | _ => []

/-- Whose product a write makes a favourite, and who takes part in the
conversations that it creates or changes. -/
def Change.concerned (db : Database) : Change → List ℕ
  | .insertFavorite row => db.ownersOf row.productId
  | .insertConversation row => row.participants
  | .setConversationProduct conversationId _
  | .setLastMessage conversationId _ => db.participantsIn conversationId
  | .insertMessage row => db.participantsIn row.conversationId
  | .markRead messageId _ =>
      (db.messages.get messageId).toList.flatMap fun row =>
        db.participantsIn row.conversationId
  | _ => []

/-- No conversation of the user is about a product of the other one. -/
def Database.ProductsApart (user other : ℕ) (db : Database) : Prop :=
  ∀ row ∈ db.conversations.rows, row.HasUser user →
    ∀ productId ∈ row.productId.toList, other ∉ db.ownersOf productId

instance (user other : ℕ) (db : Database) :
    Decidable (db.ProductsApart user other) :=
  inferInstanceAs (Decidable (∀ row ∈ db.conversations.rows,
    (user = row.userAId ∨ user = row.userBId) →
      ∀ productId ∈ row.productId.toList, other ∉ db.ownersOf productId))

/-- The answers that show what a conversation is about. -/
def Request.showsConversations : Request → Bool
  | .getOrCreateConversation _ _ _ | .getConversationById _ _
  | .listConversations _ _ _ _ => true
  | _ => false

/-! ## Actions while a block is there -/

section Parted

variable {i user other conversationId productId : ℕ} {final : Database}
  {acts more : List (Acted Draw Market)} {a : Acted Draw Market}

/-- A block separates the two users at all of these actions, and what is there
at one of them is there in the end. -/
structure Parted (user other : ℕ) (final : Database)
    (acts : List (Acted Draw Market)) : Prop where
  ne : user ≠ other
  blocked : ∀ a ∈ acts, a.before.db.hasBlockBetweenUsers user other = true
  coherent : ∀ a ∈ acts, a.before.db.Coherent
  grows : ∀ a ∈ acts, a.before.db.Grows final

theorem Parted.left (h : Parted user other final (acts ++ more)) :
    Parted user other final acts :=
  ⟨h.ne, fun a ha => h.blocked a (List.mem_append_left _ ha),
    fun a ha => h.coherent a (List.mem_append_left _ ha),
    fun a ha => h.grows a (List.mem_append_left _ ha)⟩

theorem Parted.right (h : Parted user other final (acts ++ more)) :
    Parted user other final more :=
  ⟨h.ne, fun a ha => h.blocked a (List.mem_append_right _ ha),
    fun a ha => h.coherent a (List.mem_append_right _ ha),
    fun a ha => h.grows a (List.mem_append_right _ ha)⟩

/-- Whom no block separates from the user is not the other one. -/
theorem Parted.ne_of_unblocked {someone : ℕ}
    (h : Parted user other final acts) (ha : a ∈ acts)
    (hunblocked :
      a.before.db.hasBlockBetweenUsers user someone = false) :
    someone ≠ other := by
  rintro rfl
  rw [h.blocked a ha] at hunblocked
  contradiction

theorem Parted.ownersOf {row : ProductRow}
    (h : Parted user other final acts) (ha : a ∈ acts)
    (hrow : a.before.db.products.get productId = some row)
    (hother : row.ownerId ≠ other) : other ∉ final.ownersOf productId := by
  obtain ⟨row', hrow', hkept⟩ := (h.grows a ha).products productId row hrow
  have howner : row'.ownerId = row.ownerId := hkept
  simp only [Database.ownersOf, hrow', Option.toList_some, List.map_singleton,
    List.mem_singleton, howner]
  exact fun hsame => hother hsame.symm

theorem ConversationRow.peerOf_congr {row row' : ConversationRow}
    (h : row'.pair = row.pair) (user : ℕ) :
    row'.peerOf user = row.peerOf user := by
  obtain ⟨hA, hB⟩ := Prod.mk.inj h
  rw [peerOf, peerOf, hA, hB]

theorem ConversationRow.HasUser.congr {row row' : ConversationRow}
    (h : row.HasUser user) (hpair : row'.pair = row.pair) :
    row'.HasUser user := by
  obtain ⟨hA, hB⟩ := Prod.mk.inj hpair
  rw [HasUser, hA, hB]
  exact h

/-- The conversation is one of the user's, and not one with the other user. -/
def Database.ApartIn (db : Database) (user other conversationId : ℕ) : Prop :=
  ∃ row, db.conversations.get conversationId = some row ∧ row.HasUser user ∧
    row.peerOf user ≠ other

/-- Who takes part in a conversation of the user with someone else. -/
theorem ConversationRow.HasUser.participants {row : ConversationRow}
    (huser : row.HasUser user) (hne : user ≠ other)
    (hpeer : row.peerOf user ≠ other) : other ∉ row.participants := by
  simp only [ConversationRow.participants, List.mem_cons, List.not_mem_nil,
    or_false, not_or]
  rw [ConversationRow.peerOf] at hpeer
  rcases huser with rfl | rfl
  · rw [if_pos rfl] at hpeer
    exact ⟨hne.symm, hpeer.symm⟩
  · split at hpeer
    · next hsame => exact ⟨hsame ▸ hne.symm, hne.symm⟩
    · exact ⟨hpeer.symm, hne.symm⟩

theorem Database.ApartIn.participants
    (h : final.ApartIn user other conversationId) (hne : user ≠ other) :
    other ∉ final.participantsIn conversationId := by
  obtain ⟨row, hrow, huser, hpeer⟩ := h
  simp only [Database.participantsIn, hrow, Option.toList_some,
    List.flatMap_cons, List.flatMap_nil, List.append_nil]
  exact huser.participants hne hpeer

theorem Parted.apartIn {row : ConversationRow}
    (h : Parted user other final acts) (ha : a ∈ acts)
    (hrow : a.before.db.conversations.get conversationId = some row)
    (huser : row.HasUser user) (hother : row.peerOf user ≠ other) :
    final.ApartIn user other conversationId := by
  obtain ⟨row', hrow', hkept⟩ :=
    (h.grows a ha).conversations conversationId row hrow
  refine ⟨row', hrow', huser.congr hkept, ?_⟩
  rw [ConversationRow.peerOf_congr hkept]
  exact hother

/-- A conversation that is found at one of the actions is the one there is in
the end. -/
theorem Parted.found {row : ConversationRow}
    (h : Parted user other final acts) (ha : a ∈ acts)
    (hrow : a.before.db.conversations.get conversationId = some row)
    (hapart : final.ApartIn user other conversationId) :
    row.HasUser user ∧ row.peerOf user ≠ other := by
  obtain ⟨row', hrow', hkept⟩ :=
    (h.grows a ha).conversations conversationId row hrow
  obtain ⟨last, hlast, huser, hpeer⟩ := hapart
  obtain rfl := Option.some.inj (hrow'.symm.trans hlast)
  have hpair : row'.pair = row.pair := hkept
  refine ⟨huser.congr hpair.symm, ?_⟩
  rw [← ConversationRow.peerOf_congr hpair]
  exact hpeer

theorem hasUser_of_participantFault {row : ConversationRow}
    (h : participantFault conversationId user row = none) :
    row.HasUser user := by
  unfold participantFault at h
  split at h
  · next userAId userBId hA hB =>
      have hA := toPositiveInt_eq_some hA
      have hB := toPositiveInt_eq_some hB
      simp only [ite_eq_right_iff, reduceCtorEq, imp_false, not_and_or,
        not_not] at h
      rw [ConversationRow.HasUser]
      rcases h with hsame | hsame
      · exact .inl (hsame.symm.trans hA.symm)
      · exact .inr (hsame.symm.trans hB.symm)
  · contradiction

/-- The conversation that has passed the check is not one with the other
user. -/
theorem takes_assertConversationParticipant {value : Unit}
    (htakes : (assertConversationParticipant conversationId user).Takes i acts
      (.done value)) (hparted : Parted user other final acts) :
    final.ApartIn user other conversationId := by
  obtain ⟨_, _, found, rfl, hread, hrest⟩ := Program.takes_bind htakes
  obtain ⟨a, rfl, hfound⟩ := takes_select hread
  cases hrow : a.before.db.conversations.get conversationId with
  | none =>
      rw [hfound, hrow] at hrest
      exact absurd hrest Program.not_takes_failed
  | some row =>
      rw [hfound, hrow] at hrest
      dsimp only at hrest
      split at hrest
      · exact absurd hrest Program.not_takes_failed
      · next hnone =>
          obtain ⟨_, _, blocked, rfl, hcheck, hdone⟩ :=
            Program.takes_bind hrest
          obtain ⟨b, rfl, hblocked⟩ := takes_select hcheck
          split at hdone
          · exact absurd hdone Program.not_takes_failed
          · next hunblocked =>
              rw [hblocked, Bool.not_eq_true] at hunblocked
              have hother := hparted.right.ne_of_unblocked List.mem_cons_self
                hunblocked
              exact hparted.apartIn List.mem_cons_self hrow
                (hasUser_of_participantFault hnone) hother

theorem keeps_assertConversationParticipant {fact : Market → Prop}
    (conversationId user : ℕ) :
    (assertConversationParticipant conversationId user).Keeps fact := by
  refine (keeps_select _ _).bind fun query => ?_
  split
  · exact Program.keeps_failed _
  split
  · exact Program.keeps_failed _
  refine (keeps_select _ _).bind fun blocked => ?_
  split
  · exact Program.keeps_failed _
  · exact Program.keeps_done _

theorem keeps_getConversationById {fact : Market → Prop}
    (user conversationId : ℕ) :
    (getConversationById user conversationId).Keeps fact := by
  refine (keeps_assertConversationParticipant _ _).bind fun _ => ?_
  refine (keeps_select _ _).bind fun query => ?_
  split
  · exact Program.keeps_failed _
  · exact Program.keeps_done _

/-! ### Writes -/

/-- The write is not about the other user. -/
def Change.Spares (other : ℕ) (final : Database) (change : Change) : Prop :=
  other ∉ change.concerned final

section Writes

variable {β : Type} {j participantId messageId : ℕ} {body : Operation β}

theorem acts_addFavorite {body : Operation String}
    (htakes : (addFavorite user productId).Takes i acts body)
    (hparted : Parted user other final acts) :
    Program.ActsKeep (OwnWrites j (Change.Spares other final)) acts := by
  rcases Program.takes_bind_cases htakes with
    ⟨_, hread⟩ | ⟨_, _, product, rfl, hread, hrest⟩
  · exact (keeps_select _ _).each hread
  refine ((keeps_select _ _).each hread).append ?_
  obtain ⟨a, rfl, hproduct⟩ := takes_select hread
  cases hrow : a.before.db.liveProduct productId with
  | none =>
      rw [hproduct, hrow] at hrest
      exact (Program.keeps_failed _).each hrest
  | some row =>
      rw [hproduct, hrow] at hrest
      rcases Program.takes_bind_cases hrest with
        ⟨_, hcheck⟩ | ⟨_, _, blocked, rfl, hcheck, hwrite⟩
      · exact (keeps_select _ _).each hcheck
      refine ((keeps_select _ _).each hcheck).append ?_
      obtain ⟨b, rfl, hblocked⟩ := takes_select hcheck
      split at hwrite
      · exact (Program.keeps_failed _).each hwrite
      next hunblocked =>
      rw [hblocked, Bool.not_eq_true] at hunblocked
      have howner : row.ownerId ≠ other :=
        hparted.right.left.ne_of_unblocked List.mem_cons_self hunblocked
      have hget := (Database.liveProduct_eq_some.mp hrow).1
      have hspared : other ∉ final.ownersOf productId :=
        hparted.ownersOf List.mem_cons_self hget howner
      refine Program.Keeps.each ?_ hwrite
      exact (keeps_execute fun _ => hspared).bind fun _ => Program.keeps_done _

theorem acts_sendMessage {messageText : String} {body : Operation MessageView}
    (htakes : (sendMessage user conversationId messageText).Takes i acts body)
    (hparted : Parted user other final acts) :
    Program.ActsKeep (OwnWrites j (Change.Spares other final)) acts := by
  have hreads : (assertConversationParticipant conversationId user).Keeps
      (OwnWrites j (Change.Spares other final)) :=
    keeps_assertConversationParticipant _ _
  rcases Program.takes_bind_cases htakes with
    ⟨_, hcheck⟩ | ⟨_, _, _, rfl, hcheck, hsend⟩
  · exact hreads.each hcheck
  refine (hreads.each hcheck).append (Program.Keeps.each ?_ hsend)
  have hspared := (takes_assertConversationParticipant hcheck
    hparted.left).participants hparted.ne
  refine Program.Keeps.bind ?_ fun insert => ?_
  · exact keeps_tryCatch (keeps_run fun _ _ => hspared) fun fault =>
      keeps_notFoundOnForeignKey _ fault
  · exact (keeps_execute fun _ => hspared).bind fun _ => Program.keeps_done _

theorem acts_markRead {body : Operation MessageView}
    (htakes : (markRead user messageId).Takes i acts body)
    (hparted : Parted user other final acts) :
    Program.ActsKeep (OwnWrites j (Change.Spares other final)) acts := by
  rcases Program.takes_bind_cases htakes with
    ⟨_, hread⟩ | ⟨_, _, message, rfl, hread, hrest⟩
  · exact (keeps_select _ _).each hread
  refine ((keeps_select _ _).each hread).append ?_
  obtain ⟨a, rfl, hmessage⟩ := takes_select hread
  cases hrow : a.before.db.messages.get messageId with
  | none =>
      rw [hmessage, hrow] at hrest
      exact (Program.keeps_failed _).each hrest
  | some row =>
      rw [hmessage, hrow] at hrest
      dsimp only at hrest
      split at hrest
      · next conversationId senderId hconversation _ =>
          have hid : row.conversationId = conversationId :=
            toPositiveInt_eq_some hconversation
          have hreads : (assertConversationParticipant conversationId
              user).Keeps (OwnWrites j (Change.Spares other final)) :=
            keeps_assertConversationParticipant _ _
          rcases Program.takes_bind_cases hrest with
            ⟨_, hcheck⟩ | ⟨_, _, _, rfl, hcheck, hwrite⟩
          · exact hreads.each hcheck
          refine (hreads.each hcheck).append ?_
          have hpeers := (takes_assertConversationParticipant hcheck
            hparted.right.left).participants hparted.ne
          have hspared : ∀ now, Change.Spares other final
              (.markRead messageId now) := by
            intro now
            obtain ⟨row', hrow', hkept⟩ := (hparted.grows a
              List.mem_cons_self).messages messageId row hrow
            simp only [Change.Spares, Change.concerned, hrow',
              Option.toList_some, List.flatMap_cons, List.flatMap_nil,
              List.append_nil, hkept.conversation]
            exact hid ▸ hpeers
          refine Program.Keeps.each ?_ hwrite
          split
          · exact Program.keeps_failed _
          refine (keeps_execute hspared).bind fun updated => ?_
          split
          · exact Program.keeps_failed _
          · exact Program.keeps_done _
      · exact (Program.keeps_failed _).each hrest

theorem ConversationRow.peerOf_orderedPair {row : ConversationRow}
    (hne : user ≠ participantId)
    (hpair : row.pair = orderedPair user participantId) :
    row.HasUser user ∧ row.peerOf user = participantId := by
  unfold orderedPair at hpair
  split at hpair
  · obtain ⟨hA, hB⟩ := Prod.mk.inj hpair
    exact ⟨.inl hA.symm, by rw [peerOf, if_pos hA, hB]⟩
  · obtain ⟨hA, hB⟩ := Prod.mk.inj hpair
    have hnot : ¬ row.userAId = user := fun h => hne (h.symm.trans hA)
    exact ⟨.inr hB.symm, by rw [peerOf, if_neg hnot, hA]⟩

theorem Database.mem_of_conversationOf {db : Database} {pair : ℕ × ℕ}
    {row : ConversationRow} (h : db.conversationOf pair = some row) :
    row ∈ db.conversations.rows ∧ row.pair = pair :=
  ⟨List.mem_of_find?_eq_some h, by simpa using List.find?_some h⟩

theorem keeps_assertUserExists {fact : Market → Prop} (userId : ℕ)
    (label : String) : (assertUserExists userId label).Keeps fact := by
  refine (keeps_select _ _).bind fun found => ?_
  split
  · exact Program.keeps_failed _
  · exact Program.keeps_done _

theorem keeps_validateProduct {fact : Market → Prop}
    (userId participantId : ℕ) (productId : Option ℕ) :
    (validateProduct userId participantId productId).Keeps fact := by
  unfold validateProduct
  split
  · exact Program.keeps_done _
  refine (keeps_select _ _).bind fun product => ?_
  split
  · exact Program.keeps_failed _
  · exact Program.keeps_done _

/-- What a request that has passed the check of the block goes on with. -/
theorem acts_getOrCreateConversation {productId : Option ℕ}
    {body : Operation ConversationView}
    (htakes : (getOrCreateConversation user participantId productId).Takes i
      acts body) (hparted : Parted user other final acts) :
    Program.ActsKeep (OwnWrites j (Change.Spares other final)) acts := by
  unfold getOrCreateConversation at htakes
  split at htakes
  · exact (Program.keeps_failed _).each htakes
  next hne =>
  rcases Program.takes_bind_cases htakes with
    ⟨_, hexists⟩ | ⟨_, _, _, rfl, hexists, hrest⟩
  · exact (keeps_assertUserExists _ _).each hexists
  refine ((keeps_assertUserExists _ _).each hexists).append ?_
  rcases Program.takes_bind_cases hrest with
    ⟨_, hcheck⟩ | ⟨_, _, blocked, rfl, hcheck, hopens⟩
  · exact (keeps_select _ _).each hcheck
  refine ((keeps_select _ _).each hcheck).append ?_
  obtain ⟨b, rfl, hblocked⟩ := takes_select hcheck
  split at hopens
  · exact (Program.keeps_failed _).each hopens
  next hunblocked =>
  rw [hblocked, Bool.not_eq_true] at hunblocked
  have hother : participantId ≠ other :=
    hparted.right.left.ne_of_unblocked List.mem_cons_self hunblocked
  rcases Program.takes_bind_cases hopens with
    ⟨_, hvalidate⟩ | ⟨_, _, product, rfl, hvalidate, hfinds⟩
  · exact (keeps_validateProduct _ _ _).each hvalidate
  refine ((keeps_validateProduct _ _ _).each hvalidate).append ?_
  rcases Program.takes_bind_cases hfinds with
    ⟨_, hfind⟩ | ⟨_, _, existing, rfl, hfind, hends⟩
  · exact (keeps_select _ _).each hfind
  refine ((keeps_select _ _).each hfind).append ?_
  obtain ⟨c, rfl, hfound⟩ := takes_select hfind
  cases hrow : c.before.db.conversationOf (orderedPair user participantId) with
  | none =>
      rw [hfound, hrow] at hends
      refine Program.Keeps.each ?_ hends
      refine Program.Keeps.bind ?_ fun insert => keeps_getConversationById _ _
      refine keeps_tryCatch (keeps_run fun now ids => ?_) fun fault =>
        keeps_notFoundOnForeignKey _ fault
      have hpair : (⟨ids.conversations, (orderedPair user participantId).1,
          (orderedPair user participantId).2, product, none, now⟩ :
            ConversationRow).pair = orderedPair user participantId := rfl
      obtain ⟨huser, hpeer⟩ := ConversationRow.peerOf_orderedPair hne hpair
      exact huser.participants hparted.ne (hpeer.trans_ne hother)
  | some conversation =>
      rw [hfound, hrow] at hends
      obtain ⟨hmem, hpair⟩ := Database.mem_of_conversationOf hrow
      obtain ⟨huser, hpeer⟩ := ConversationRow.peerOf_orderedPair hne hpair
      have hpeers : other ∉ final.participantsIn conversation.id :=
        (hparted.right.right.right.left.apartIn List.mem_cons_self
          (Table.get_of_mem hmem) huser (hpeer ▸ hother)).participants
            hparted.ne
      refine Program.Keeps.each ?_ hends
      refine Program.Keeps.bind ?_ fun _ => keeps_getConversationById _ _
      unfold backfillProduct
      split
      · exact Program.keeps_done _
      split
      · exact Program.keeps_done _
      · exact keeps_execute fun _ => hpeers

end Writes

end Parted

end MarketPlace.Trade
