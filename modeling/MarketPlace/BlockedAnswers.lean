import MarketPlace.BlockedActions
import MarketPlace.SelectedProducts

/-!
# Answers to a user while a block is there

What the eleven requests that ask for a block return while it is there: nothing
of the other user.  For a conversation this needs that it is not about a
product of the other user, since the block is asked for with the peer alone.
-/

namespace MarketPlace.Trade

open Interleaving Relational

variable {app : Deployment} {final : Database}
  {i user other participantId conversationId productId messageId : ℕ}
  {limit offset : ℕ} {acts more : List (Acted Draw Market)}
  {a : Acted Draw Market}

/-- What a request that shows conversations needs at its actions. -/
def Parted.Apart (user other : ℕ) (acts : List (Acted Draw Market)) : Prop :=
  ∀ a ∈ acts, a.before.db.ProductsApart user other

theorem Parted.Apart.right (h : Parted.Apart user other (acts ++ more)) :
    Parted.Apart user other more :=
  fun a ha => h a (List.mem_append_right _ ha)

/-- A message that was read at one of the actions, in a conversation that is
not one with the other user. -/
theorem Parted.parties {row : MessageRow} (h : Parted user other final acts)
    (ha : a ∈ acts) (hrow : a.before.db.messages.get messageId = some row)
    (hapart : final.ApartIn user other row.conversationId) :
    other ∉ final.partiesTo messageId ∧
      other ∉ final.shownBy (messageView row) := by
  have hparticipants := hapart.participants h.ne
  obtain ⟨row', hrow', hkept⟩ := (h.grows a ha).messages messageId row hrow
  obtain ⟨conversation, hget, hpart⟩ :=
    ((h.coherent a ha).senders messageId row hrow).grows (h.grows a ha)
  have hsender : other ≠ row.senderId := by
    rintro rfl
    apply hparticipants
    simp only [Database.participantsIn, hget, Option.toList_some,
      List.flatMap_cons, List.flatMap_nil, List.append_nil,
      ConversationRow.participants, List.mem_cons, List.not_mem_nil, or_false]
    exact hpart.imp Eq.symm Eq.symm
  constructor
  · simp only [Database.partiesTo, hrow', Option.toList_some, List.flatMap_cons,
      List.flatMap_nil, List.append_nil, hkept.sender, hkept.conversation]
    exact List.not_mem_cons_of_ne_of_not_mem hsender hparticipants
  · exact List.not_mem_cons_of_ne_of_not_mem hsender hparticipants

/-- A view that was read at one of the actions shows nobody but the user and
others. -/
theorem Parted.shownIn {row : ConversationRow} {view : ConversationView}
    (h : Parted user other final acts) (hapart : Parted.Apart user other acts)
    (ha : a ∈ acts) (hmem : row ∈ a.before.db.conversations.rows)
    (huser : row.HasUser user) (hpeer : row.peerOf user ≠ other)
    (hview : a.before.db.conversationView user row = some view) :
    other ∉ final.shownIn view := by
  have hget := Table.get_of_mem hmem
  obtain ⟨peer, -, hshown⟩ := Option.map_eq_some_iff.mp hview
  have hproduct : view.productId = row.productId := hshown ▸ rfl
  have hmessage : view.lastMessageId =
      (a.before.db.lastMessage row).map MessageRow.id := hshown ▸ rfl
  rw [Database.shownIn, (conversationView_eq_some hview).2.1, hproduct, hmessage,
    List.mem_cons, List.mem_append, not_or, not_or]
  refine ⟨Ne.symm hpeer, fun hshown => ?_, fun hshown => ?_⟩
  · obtain ⟨productId, hproduct, howner⟩ := List.mem_flatMap.mp hshown
    have hsold := Option.mem_toList.mp hproduct
    obtain ⟨product, hthere⟩ := Option.isSome_iff_exists.mp
      ((h.coherent a ha).referenced.products _ row productId hget hsold)
    have hother := hapart a ha row hmem huser productId hproduct
    simp only [Database.ownersOf, hthere, Option.toList_some, List.map_singleton,
      List.mem_singleton] at hother
    exact h.ownersOf ha hthere (Ne.symm hother) howner
  · obtain ⟨messageId, hid, hparty⟩ := List.mem_flatMap.mp hshown
    obtain ⟨message, hlast, rfl⟩ := Option.map_eq_some_iff.mp
      (Option.mem_toList.mp hid)
    obtain ⟨pointer, hpointer, hthere⟩ := Option.bind_eq_some_iff.mp hlast
    obtain ⟨message', hthere', hin⟩ :=
      (h.coherent a ha).pointers _ row pointer hget hpointer
    obtain rfl := Option.some.inj (hthere.symm.trans hthere')
    have hkey : message.id = pointer := Table.key_of_get hthere
    refine (h.parties ha (hkey.symm ▸ hthere) ?_).1 hparty
    rw [hin]
    exact h.apartIn ha hget huser hpeer

theorem shown_getConversationById {view : ConversationView}
    (htakes : (getConversationById user conversationId).Takes i acts
      (.done view)) (hparted : Parted user other final acts)
    (hapart : Parted.Apart user other acts) :
    other ∉ final.shownIn view := by
  obtain ⟨_, _, _, rfl, hcheck, hrest⟩ := Program.takes_bind htakes
  have hthere := takes_assertConversationParticipant hcheck hparted.left
  obtain ⟨_, _, query, rfl, hread, hdone⟩ := Program.takes_bind hrest
  obtain ⟨a, rfl, hquery⟩ := takes_select hread
  cases hfound : (a.before.db.conversations.get conversationId).bind
      (a.before.db.conversationView user) with
  | none =>
      rw [hquery, hfound] at hdone
      exact absurd hdone Program.not_takes_failed
  | some shown =>
      rw [hquery, hfound] at hdone
      obtain ⟨-, hvalue⟩ := Program.takes_done.mp hdone
      obtain rfl := Program.done.inj hvalue
      obtain ⟨row, hrow, hview⟩ := Option.bind_eq_some_iff.mp hfound
      obtain ⟨huser, hpeer⟩ :=
        hparted.right.left.found List.mem_cons_self hrow hthere
      exact hparted.right.shownIn hapart.right List.mem_cons_self
        (Table.mem_of_get hrow) huser hpeer hview

theorem shown_getOrCreateConversation {productId : Option ℕ}
    {view : ConversationView}
    (htakes : (getOrCreateConversation user participantId productId).Takes i
      acts (.done view)) (hparted : Parted user other final acts)
    (hapart : Parted.Apart user other acts) :
    other ∉ final.shownIn view := by
  unfold getOrCreateConversation at htakes
  split at htakes
  · exact absurd htakes Program.not_takes_failed
  obtain ⟨_, _, _, rfl, -, hrest⟩ := Program.takes_bind htakes
  obtain ⟨_, _, blocked, rfl, -, hopens⟩ := Program.takes_bind hrest
  split at hopens
  · exact absurd hopens Program.not_takes_failed
  obtain ⟨_, _, _, rfl, -, hfinds⟩ := Program.takes_bind hopens
  obtain ⟨_, _, existing, rfl, -, hends⟩ := Program.takes_bind hfinds
  have hparted := hparted.right.right.right.right
  have hapart := hapart.right.right.right.right
  cases existing with
  | none =>
      obtain ⟨_, _, _, rfl, -, hshows⟩ := Program.takes_bind hends
      exact shown_getConversationById hshows hparted.right hapart.right
  | some conversation =>
      obtain ⟨_, _, _, rfl, -, hshows⟩ := Program.takes_bind hends
      exact shown_getConversationById hshows hparted.right hapart.right

theorem shown_listConversations {scope : ConversationScope}
    {views : List ConversationView}
    (htakes : (listConversations user scope limit offset).Takes i acts
      (.done views)) (hparted : Parted user other final acts)
    (hapart : Parted.Apart user other acts) :
    other ∉ views.flatMap final.shownIn := by
  obtain ⟨a, rfl, rfl⟩ := takes_selectOrdered htakes
  intro hshown
  obtain ⟨view, hview, hin⟩ := List.mem_flatMap.mp hshown
  obtain ⟨row, hpaged, hrow⟩ := List.mem_filterMap.mp hview
  have hsorted := mem_of_mem_page hpaged
  rw [List.mem_mergeSort, List.mem_filter, List.mem_filter] at hsorted
  obtain ⟨⟨hmem, hlisted⟩, -⟩ := hsorted
  simp only [Database.listsConversation, Bool.and_eq_true, Bool.or_eq_true,
    decide_eq_true_eq, Bool.not_eq_true'] at hlisted
  obtain ⟨⟨hparticipant, hunblocked⟩, -⟩ := hlisted
  have huser : row.HasUser user := hparticipant.imp Eq.symm Eq.symm
  have hpeer := hparted.ne_of_unblocked List.mem_cons_self hunblocked
  exact hparted.shownIn hapart List.mem_cons_self hmem huser hpeer hrow hin

theorem shown_searchProducts {dto : SearchProductsDto}
    {items : List ProductListing}
    (htakes : (searchProducts app dto (some user)).Takes i acts (.done items))
    (hparted : Parted user other final acts) :
    other ∉ items.map fun item => item.row.ownerId := by
  intro hshown
  obtain ⟨item, hitem, howner⟩ := List.mem_map.mp hshown
  obtain ⟨a, ha, -, hselected⟩ := selects_searchProducts htakes item hitem
  simp only [Request.mayShow, Option.all_some, Bool.and_eq_true,
    Bool.not_eq_true'] at hselected
  exact hparted.ne_of_unblocked ha hselected.1.2.2 howner

theorem shown_listFavorites (app : Deployment) {dto : ListFavoritesDto}
    {items : List ProductListing}
    (htakes : (listFavorites user dto).Takes i acts (.done items))
    (hparted : Parted user other final acts) :
    other ∉ items.map fun item => item.row.ownerId := by
  intro hshown
  obtain ⟨item, hitem, howner⟩ := List.mem_map.mp hshown
  obtain ⟨a, ha, -, hselected⟩ := selects_listFavorites app htakes item hitem
  rw [Request.mayShow, Bool.and_eq_true, Bool.not_eq_true'] at hselected
  exact hparted.ne_of_unblocked ha hselected.2 howner

theorem shown_getProductById {view : ProductView} (hpositive : 0 < user)
    (htakes : (getProductById productId (some user)).Takes i acts (.done view))
    (hparted : Parted user other final acts) : view.row.ownerId ≠ other := by
  obtain ⟨_, _, product, rfl, -, hrest⟩ := Program.takes_bind htakes
  cases product with
  | none =>
      exact absurd hrest Program.not_takes_failed
  | some shown =>
      rw [truthy_of_pos hpositive] at hrest
      obtain ⟨_, _, blocked, rfl, hcheck, hdone⟩ := Program.takes_bind hrest
      obtain ⟨a, rfl, hblocked⟩ := takes_select hcheck
      split at hdone
      · exact absurd hdone Program.not_takes_failed
      · next hunblocked =>
          obtain ⟨-, hvalue⟩ := Program.takes_done.mp hdone
          obtain rfl := Program.done.inj hvalue
          rw [hblocked, Bool.not_eq_true] at hunblocked
          exact hparted.right.left.ne_of_unblocked List.mem_cons_self hunblocked

/-- Neither user blocks the other where no block separates them. -/
theorem Database.blocks_or_of_hasBlock {db : Database}
    (h : db.hasBlockBetweenUsers user other = true) :
    db.blocks user other = true ∨ db.blocks other user = true := by
  obtain ⟨row, hrow, hpair⟩ := List.any_eq_true.mp h
  have hget := Table.get_of_mem hrow
  simp only [Bool.or_eq_true, Bool.and_eq_true, decide_eq_true_eq] at hpair
  rcases hpair with ⟨rfl, rfl⟩ | ⟨rfl, rfl⟩
  · left
    rw [blocks]
    exact Option.isSome_iff_exists.mpr ⟨row, hget⟩
  · right
    rw [blocks]
    exact Option.isSome_iff_exists.mpr ⟨row, hget⟩

theorem shown_getPublicProfile {userId : ℕ} {dto : GetPublicUserQueryDto}
    {view : PublicProfileView} (hpositive : 0 < user)
    (htakes : (getPublicProfile app userId dto (some user)).Takes i acts
      (.done view)) (hparted : Parted user other final acts) :
    other ∉ view.user.user.id ::
      view.products.map fun item => item.row.ownerId := by
  have hselects := selects_getPublicProfile htakes
  obtain ⟨_, _, block, rfl, hcheck, hrest⟩ := Program.takes_bind htakes
  rw [blockState, truthy_of_pos hpositive] at hcheck
  obtain ⟨a, rfl, hblock⟩ := takes_select hcheck
  split at hrest
  · exact absurd hrest Program.not_takes_failed
  next hunblocked =>
  have hother : userId ≠ other := by
    rintro rfl
    rw [hblock] at hunblocked
    exact hunblocked (Database.blocks_or_of_hasBlock
      (hparted.left.blocked a List.mem_cons_self))
  obtain ⟨_, _, found, rfl, hread, hshows⟩ := Program.takes_bind hrest
  obtain ⟨b, rfl, hfound⟩ := takes_select hread
  cases hrow : b.before.db.liveUser userId with
  | none =>
      rw [hfound, hrow] at hshows
      exact absurd hshows Program.not_takes_failed
  | some row =>
      rw [hfound, hrow] at hshows
      obtain ⟨_, _, products, rfl, hlist, hdone⟩ := Program.takes_bind hshows
      obtain ⟨-, hvalue⟩ := Program.takes_done.mp hdone
      obtain rfl := Program.done.inj hvalue
      have hid : row.id = userId :=
        Table.key_of_get (Option.filter_eq_some_iff.mp hrow).1
      rw [List.mem_cons, not_or]
      refine ⟨fun hsame => hother (hid.symm.trans hsame.symm), fun hshown => ?_⟩
      obtain ⟨item, hitem, howner⟩ := List.mem_map.mp hshown
      obtain ⟨c, -, -, hselected⟩ := hselects item hitem
      rw [Request.mayShow, Bool.and_eq_true, decide_eq_true_eq] at hselected
      exact hother (hselected.1.symm.trans howner)

theorem shown_addFavorite {text : String}
    (htakes : (addFavorite user productId).Takes i acts (.done text))
    (hparted : Parted user other final acts) :
    other ∉ final.ownersOf productId := by
  obtain ⟨_, _, product, rfl, hread, hrest⟩ := Program.takes_bind htakes
  obtain ⟨a, rfl, hproduct⟩ := takes_select hread
  cases hrow : a.before.db.liveProduct productId with
  | none =>
      rw [hproduct, hrow] at hrest
      exact absurd hrest Program.not_takes_failed
  | some row =>
      rw [hproduct, hrow] at hrest
      obtain ⟨_, _, blocked, rfl, hcheck, hwrite⟩ := Program.takes_bind hrest
      obtain ⟨b, rfl, hblocked⟩ := takes_select hcheck
      split at hwrite
      · exact absurd hwrite Program.not_takes_failed
      · next hunblocked =>
          rw [hblocked, Bool.not_eq_true] at hunblocked
          have howner : row.ownerId ≠ other :=
            hparted.right.left.ne_of_unblocked List.mem_cons_self hunblocked
          exact hparted.ownersOf List.mem_cons_self
            (Database.liveProduct_eq_some.mp hrow).1 howner

theorem shown_listMessages {before : Option ℕ} {views : List MessageView}
    (htakes : (listMessages user conversationId limit before).Takes i acts
      (.done views)) (hparted : Parted user other final acts) :
    other ∉ final.participantsIn conversationId ∧
      other ∉ views.flatMap final.shownBy := by
  obtain ⟨_, _, _, rfl, hcheck, hrest⟩ := Program.takes_bind htakes
  have hapart := takes_assertConversationParticipant hcheck hparted.left
  obtain ⟨_, _, rows, rfl, hread, hdone⟩ := Program.takes_bind hrest
  obtain ⟨a, rfl, hrows⟩ := takes_selectOrdered hread
  obtain ⟨-, hvalue⟩ := Program.takes_done.mp hdone
  obtain rfl := Program.done.inj hvalue
  refine ⟨hapart.participants hparted.ne, fun hshown => ?_⟩
  obtain ⟨view, hview, hparty⟩ := List.mem_flatMap.mp hshown
  obtain ⟨row, hrow, rfl⟩ := List.mem_map.mp hview
  rw [hrows] at hrow
  have hsorted := List.mem_of_mem_take hrow
  rw [List.mem_mergeSort, List.mem_filter, Database.mem_messagesOf] at hsorted
  obtain ⟨⟨hget, hin⟩, -⟩ := hsorted
  exact (hparted.right.left.parties List.mem_cons_self hget (hin.symm ▸ hapart)).2
    hparty

/-- What an INSERT returns that did not fail. -/
theorem takes_insertReturning {ρ : Type} {row : ℕ → Sequences → ρ}
    {insert : ρ → Change} {message : String} {value : ρ}
    (htakes : (tryCatch (insertReturning none row insert)
      (notFoundOnForeignKey message)).Takes i acts (.done value)) :
    ∃ time ids, value = row time ids := by
  rw [Program.tryCatch_eq_recover] at htakes
  rcases Program.takes_recover htakes with
    hinserted | ⟨_, _, fault, rfl, -, hhandler⟩
  · obtain ⟨a, -, hvalue⟩ := takes_run hinserted
    exact ⟨_, _, hvalue⟩
  · obtain ⟨other, hfails⟩ := notFoundOnForeignKey_eq_failed message fault
    rw [hfails] at hhandler
    exact absurd hhandler Program.not_takes_failed

theorem shown_sendMessage {messageText : String} {view : MessageView}
    (htakes : (sendMessage user conversationId messageText).Takes i acts
      (.done view)) (hparted : Parted user other final acts) :
    other ∉ final.participantsIn conversationId ∧
      other ∉ final.shownBy view := by
  obtain ⟨_, _, _, rfl, hcheck, hsend⟩ := Program.takes_bind htakes
  have hparticipants := (takes_assertConversationParticipant hcheck
    hparted.left).participants hparted.ne
  obtain ⟨_, _, row, rfl, hinsert, hlink⟩ := Program.takes_bind hsend
  obtain ⟨_, _, _, rfl, -, hdone⟩ := Program.takes_bind hlink
  obtain ⟨-, hvalue⟩ := Program.takes_done.mp hdone
  obtain rfl := Program.done.inj hvalue
  obtain ⟨sentAt, ids, hrow⟩ := takes_insertReturning hinsert
  have hsame : row.conversationId = conversationId ∧ row.senderId = user :=
    hrow ▸ ⟨rfl, rfl⟩
  simp only [Database.shownBy, messageView, hsame.1, hsame.2, List.mem_cons,
    not_or]
  exact ⟨hparticipants, hparted.ne.symm, hparticipants⟩

theorem shown_markRead {view : MessageView}
    (htakes : (markRead user messageId).Takes i acts (.done view))
    (hparted : Parted user other final acts) :
    other ∉ final.partiesTo messageId ∧ other ∉ final.shownBy view := by
  obtain ⟨_, _, message, rfl, hread, hrest⟩ := Program.takes_bind htakes
  obtain ⟨a, rfl, hmessage⟩ := takes_select hread
  cases hrow : a.before.db.messages.get messageId with
  | none =>
      rw [hmessage, hrow] at hrest
      exact absurd hrest Program.not_takes_failed
  | some row =>
      rw [hmessage, hrow] at hrest
      dsimp only at hrest
      split at hrest
      · next conversationId senderId hconversation _ =>
          have hid : row.conversationId = conversationId :=
            toPositiveInt_eq_some hconversation
          obtain ⟨_, _, _, rfl, hcheck, hmarks⟩ := Program.takes_bind hrest
          have hapart := takes_assertConversationParticipant hcheck
            hparted.right.left
          have hparties := hparted.parties List.mem_cons_self hrow
            (hid.symm ▸ hapart)
          split at hmarks
          · exact absurd hmarks Program.not_takes_failed
          obtain ⟨_, _, updated, rfl, hupdate, hdone⟩ :=
            Program.takes_bind hmarks
          obtain ⟨b, rfl, hupdated⟩ := takes_run hupdate
          split at hdone
          · exact absurd hdone Program.not_takes_failed
          · next read =>
              obtain ⟨-, hvalue⟩ := Program.takes_done.mp hdone
              obtain rfl := Program.done.inj hvalue
              have hkept : read.senderId = row.senderId ∧
                  read.conversationId = row.conversationId := by
                obtain ⟨old, hold, hnew⟩ :=
                  Table.get_modify_eq_some (by intro; rfl) hupdated.symm
                have hlast := (hparted.grows a List.mem_cons_self).messages
                  messageId row hrow
                have hlast' := (hparted.right.right.left.grows b
                  List.mem_cons_self).messages messageId old hold
                obtain ⟨last, hget, hsame⟩ := hlast
                obtain ⟨last', hget', hsame'⟩ := hlast'
                obtain rfl := Option.some.inj (hget.symm.trans hget')
                have hold : old.senderId = row.senderId ∧
                    old.conversationId = row.conversationId :=
                  ⟨hsame'.sender.symm.trans hsame.sender,
                    hsame'.conversation.symm.trans hsame.conversation⟩
                split at hnew <;> rw [← hnew] <;> exact hold
              have hshown : final.shownBy (messageView read) =
                  final.shownBy (messageView row) := by
                simp only [Database.shownBy, messageView, hkept.1, hkept.2]
              rw [hshown]
              exact hparties
      · exact absurd hrest Program.not_takes_failed

/-! ## Requests that ask for no block -/

theorem shown_listMyProducts {dto : SearchProductsDto}
    {status : Option ProductStatus} {items : List ProductListing}
    (htakes : (listMyProducts app user dto status).Takes i acts (.done items))
    (hne : user ≠ other) : other ∉ items.map fun item => item.row.ownerId := by
  intro hshown
  obtain ⟨item, hitem, howner⟩ := List.mem_map.mp hshown
  obtain ⟨a, -, -, hselected⟩ := selects_listMyProducts htakes item hitem
  rw [Request.mayShow, Bool.and_eq_true, decide_eq_true_eq] at hselected
  exact hne (hselected.1.symm.trans howner)

theorem shown_getMe {view : MeView}
    (htakes : (getMe app user).Takes i acts (.done view)) :
    view.user.id = user := by
  obtain ⟨_, _, query, rfl, hread, hdone⟩ := Program.takes_bind htakes
  obtain ⟨a, rfl, hquery⟩ := takes_select hread
  cases hrow : a.before.db.liveUser user with
  | none =>
      rw [hquery, hrow] at hdone
      exact absurd hdone Program.not_takes_failed
  | some row =>
      rw [hquery, hrow] at hdone
      obtain ⟨-, hvalue⟩ := Program.takes_done.mp hdone
      obtain rfl := Program.done.inj hvalue
      have hid : row.id = user :=
        Table.key_of_get (Option.filter_eq_some_iff.mp hrow).1
      exact hid

theorem shown_updateMe {dto : UpdateProfileDto} {view : MeView}
    (htakes : (updateMe app user dto).Takes i acts (.done view)) :
    view.user.id = user := by
  unfold updateMe at htakes
  split at htakes
  · exact absurd htakes Program.not_takes_failed
  obtain ⟨_, _, _, rfl, -, hrest⟩ := Program.takes_bind htakes
  obtain ⟨_, _, _, rfl, -, hshows⟩ := Program.takes_bind hrest
  exact shown_getMe hshows

theorem shown_rateUser {ratedUserId ratingValue : ℕ} {row : RatingRow}
    (htakes : (rateUser user ratedUserId ratingValue).Takes i acts
      (.done row)) : row.raterId = user ∧ row.ratedUserId = ratedUserId := by
  unfold rateUser at htakes
  split at htakes
  · exact absurd htakes Program.not_takes_failed
  obtain ⟨_, _, _, rfl, -, hinsert⟩ := Program.takes_bind htakes
  obtain ⟨_, _, rfl⟩ := takes_insertReturning hinsert
  exact ⟨rfl, rfl⟩

/-- A file that is shown is one that the user has uploaded, or an administrator
asks. -/
theorem shown_getFile {isAdmin : Bool} {fileId : ℕ} {view : FileView}
    (htakes : (getFile app user isAdmin fileId).Takes i acts (.done view))
    (hparted : Parted user other final acts) :
    view.row.uploaderUserId = some user ∨ isAdmin = true ∧
      ∃ row, final.files.get fileId = some row ∧
        row.uploaderUserId = view.row.uploaderUserId := by
  obtain ⟨_, _, query, rfl, hread, hdone⟩ := Program.takes_bind htakes
  obtain ⟨a, rfl, hquery⟩ := takes_select hread
  cases hrow : a.before.db.files.get fileId with
  | none =>
      rw [hquery, hrow] at hdone
      exact absurd hdone Program.not_takes_failed
  | some row =>
      rw [hquery, hrow] at hdone
      dsimp only at hdone
      split at hdone
      · exact absurd hdone Program.not_takes_failed
      next hallowed =>
      obtain ⟨-, hvalue⟩ := Program.takes_done.mp hdone
      obtain rfl := Program.done.inj hvalue
      rw [not_and_or, Bool.not_eq_false, not_not] at hallowed
      rcases hallowed with hadmin | huploader
      · obtain ⟨row', hrow', hkept⟩ :=
          (hparted.grows a List.mem_cons_self).files fileId row hrow
        exact .inr ⟨hadmin, row', hrow', hkept.uploader⟩
      · exact .inl (toPositiveIntOfNullable_eq_some huploader)

end MarketPlace.Trade
