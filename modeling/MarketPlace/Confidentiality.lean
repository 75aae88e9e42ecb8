import MarketPlace.BodySecrets
import MarketPlace.ConversationOpening

/-!
# Responses do not tell secrets

Two states of the data differ only in rows that a user cannot see.  A request of
the user then does the same in both, and its response is the same after the
interceptor has expanded it, as long as neither the request nor the details of
the products that it shows name a secret row.
-/

namespace MarketPlace.Trade

open Interleaving Relational
open Relations (HttpDeployment ResponseKeeps SignedUpload)

variable {secrets : Secrets} {user i : ℕ} {app : HttpDeployment}

/-! ## Requests -/

/-- The request comes over HTTP and names no secret file. -/
def Request.Unnamed (secrets : Secrets) : Request → Prop
  | .createProduct _ dto =>
      ∀ id ∈ dto.imageFileIds.getD [], secrets.files id = false
  | .updateProduct _ _ dto =>
      ∀ id ∈ dto.imageFileIds.getD [], secrets.files id = false
  | .markUploaded _ fileId _ | .getFile _ _ fileId =>
      secrets.files fileId = false
  | .updateMe _ dto =>
      ∀ id, dto.avatarFileId.join = some id → secrets.files id = false
  | .sendMessage _ _ _ | .markRead _ _ => False
  | _ => True

/-- The storage provider signs what it answers, and the key of a new file gets
bytes that are in no secret key. -/
structure Draw.Fresh (secrets : Secrets) (w : Draw) : Prop where
  intent : ∀ intent, w.uploadIntent = some intent → SignedUpload intent
  objectKey : ∀ dto now,
    secrets.objectKeys (buildObjectKey dto now w.randomHex) = false

/-- A service that returns nothing secret, and the response made of it. -/
theorem Discreet.respond {β : Type} {allowed : Draw → Prop}
    {program : Operation β} {respond : β → Response} {good : β → Prop}
    (h : Discreet secrets user i allowed program good)
    (hgood : ∀ value, good value → ResponseKeeps secrets (respond value)) :
    Discreet secrets user i allowed
      (do let value ← program; pure (respond value))
      (ResponseKeeps secrets) :=
  h.bind fun value hvalue => discreet_done (hgood value hvalue)

/-- Every request that names no secret file is blind to the secrets. -/
theorem discreet_handler {request : Request} (huser : request.user = some user)
    (hunnamed : request.Unnamed secrets) :
    Discreet secrets user i (Draw.Fresh secrets) (request.handler app.market)
      (ResponseKeeps secrets) := by
  cases request <;> try obtain rfl := Option.some.inj huser
  case createProduct actor dto =>
    exact (discreet_createProduct hunnamed).respond fun _ => id
  case getProductById productId viewer =>
    refine (discreet_getProductById _ _).respond fun view hview => ?_
    intro other hother
    obtain rfl := Option.some.inj hother
    exact hview
  case updateProduct actor productId dto =>
    exact (discreet_updateProduct hunnamed).respond fun _ => id
  case deleteProduct actor productId =>
    exact (discreet_deleteProduct _ _).respond fun _ => id
  case updateProductStatus actor productId status =>
    exact (discreet_updateProductStatus _ _ _).respond fun _ => id
  case listMyProducts actor dto status =>
    exact (discreet_listMyProducts _ _ _).respond fun _ => id
  case searchProducts dto viewer =>
    exact (discreet_searchProducts _ _).respond fun _ => id
  case createUploadIntent actor dto =>
    exact (discreet_createUploadIntent (fun w now hw => hw.objectKey dto now)
      fun w intent hw => hw.intent intent).respond fun _ => id
  case markUploaded actor fileId checksum =>
    exact (discreet_markUploaded hunnamed).respond fun _ => id
  case getFile actor isAdmin fileId =>
    exact (discreet_getFile hunnamed).respond fun _ => id
  case getMe actor => exact (discreet_getMe _).respond fun _ => id
  case getPublicProfile userId dto viewer =>
    exact (discreet_getPublicProfile _ _ _).respond fun _ => id
  case updateMe actor dto =>
    exact (discreet_updateMe hunnamed).respond fun _ => id
  case addFavorite actor productId =>
    exact (discreet_addFavorite _ _).respond fun _ => id
  case removeFavorite actor productId =>
    exact (discreet_removeFavorite _ _).respond fun _ => id
  case listFavorites actor dto =>
    exact (discreet_listFavorites _ _).respond fun _ => id
  case blockUser actor blockedUserId =>
    exact (discreet_blockUser _ _).respond fun _ => id
  case unblockUser actor blockedUserId =>
    exact (discreet_unblockUser _ _).respond fun _ => id
  case rateUser actor ratedUserId ratingValue =>
    exact (discreet_rateUser _ _ _).respond fun _ => id
  case getOrCreateConversation actor participantId productId =>
    exact (discreet_getOrCreateConversation _ _).respond fun _ => id
  case listConversations actor scope limit offset =>
    exact (discreet_listConversations _ _ _).respond fun _ => id
  case getConversationById actor conversationId =>
    exact (discreet_getConversationById _).respond fun _ => id
  case listMessages actor conversationId limit before =>
    exact (discreet_listMessages _ _ _).respond fun _ _ => trivial
  case sendMessage actor conversationId messageText =>
    exact hunnamed.elim
  case markRead actor messageId => exact hunnamed.elim

/-! ## Conversations with the server -/

/-- A request that comes some time after the last one, what the outcomes of its
actions are drawn from, and what its handler and its client get. -/
structure Exchange where
  wait : ℕ
  request : Request
  draws : List Draw
  result : Except Fault Response
  answer : Except Fault Json

variable (app : HttpDeployment) (categories : Table Catalog.CategoryRow.id)

/-- What the interceptor makes of the body that a handler returns. -/
def clientAnswer (m : Market) (request : Request) :
    Except Fault Response → Except Fault Json
  | .error fault => .error fault
  | .ok response => .ok (Relations.expand app.toRelationsDeployment
      ⟨m.db, categories⟩ (Relations.httpBody app request response))

/-- The requests of a client run one after another, as request `i`. -/
def Converses (i : ℕ) : Market → List Exchange → Market → Prop
  | m, [], final => final = m
  | m, exchange :: rest, final => ∃ next,
      (exchange.request.handler app.market).Ends i exchange.draws
        (m.surroundings (.timePasses exchange.wait)) exchange.result next ∧
      exchange.answer =
        clientAnswer app categories next exchange.request exchange.result ∧
      Converses i next rest final

/-- A request of the user that does not name a secret row, and neither do the
details of the products that its response shows. -/
structure Exchange.Careful (secrets : Secrets) (user : ℕ)
    (exchange : Exchange) : Prop where
  user : exchange.request.user = some user
  unnamed : exchange.request.Unnamed secrets
  fresh : ∀ w ∈ exchange.draws, w.Fresh secrets
  details : ∀ response, exchange.result = .ok response →
    ∀ row ∈ Relations.shownProducts response,
      Relations.DetailsKeep app.toRelationsDeployment secrets row

variable {app categories}

theorem Market.db_without (m : Market) :
    (m.without secrets).db = m.db.without secrets := rfl

theorem Market.Guarded.timePasses {m : Market} (h : m.Guarded secrets user i)
    (amount : ℕ) :
    (m.surroundings (.timePasses amount)).Guarded secrets user i :=
  ⟨h.committed, h.queued, h.ids⟩

theorem Market.without_timePasses (m : Market) (amount : ℕ) :
    (m.surroundings (.timePasses amount)).without secrets =
      (m.without secrets).surroundings (.timePasses amount) := rfl

/-- The expansion of a careful response does not tell the secrets. -/
theorem clientAnswer_eq {m m' : Market} {request : Request}
    {result : Except Fault Response}
    (happart : Relations.WritesApart app.toRelationsDeployment secrets)
    (hm : m.Guarded secrets user i) (hm' : m'.Guarded secrets user i)
    (hsame : m.without secrets = m'.without secrets)
    (hkeeps : ∀ response, result = .ok response →
      ResponseKeeps secrets response)
    (hdetails : ∀ response, result = .ok response →
      ∀ row ∈ Relations.shownProducts response,
        Relations.DetailsKeep app.toRelationsDeployment secrets row) :
    clientAnswer app categories m request result =
      clientAnswer app categories m' request result := by
  cases result with
  | error fault => rfl
  | ok response =>
      have hbody := @Relations.keepsSecrets_httpBody app secrets request
        response happart (hkeeps response rfl) (hdetails response rfl)
      have hdb : m.db.without secrets = m'.db.without secrets := by
        rw [← Market.db_without, hsame, Market.db_without]
      rw [clientAnswer, clientAnswer,
        ← Relations.expand_without hm.committed hbody, hdb,
        Relations.expand_without hm'.committed hbody]

/-- One careful exchange is possible in both markets, and leaves them with the
same rest. -/
theorem Exchange.Careful.step {exchange : Exchange} {m m' next : Market}
    (h : exchange.Careful app secrets user)
    (happart : Relations.WritesApart app.toRelationsDeployment secrets)
    (hm : m.Guarded secrets user i) (hm' : m'.Guarded secrets user i)
    (hsame : m.without secrets = m'.without secrets)
    (hends : (exchange.request.handler app.market).Ends i exchange.draws
      (m.surroundings (.timePasses exchange.wait)) exchange.result next) :
    ∃ next', (exchange.request.handler app.market).Ends i exchange.draws
        (m'.surroundings (.timePasses exchange.wait)) exchange.result next' ∧
      next.Guarded secrets user i ∧ next'.Guarded secrets user i ∧
      next.without secrets = next'.without secrets ∧
      clientAnswer app categories next exchange.request exchange.result =
        clientAnswer app categories next' exchange.request exchange.result := by
  have hblind := @discreet_handler secrets user i app exchange.request h.user
    h.unnamed
  have hwaited : (m.surroundings (.timePasses exchange.wait)).without secrets =
      (m'.surroundings (.timePasses exchange.wait)).without secrets := by
    rw [Market.without_timePasses, hsame, Market.without_timePasses]
  obtain ⟨next', hends', hnext, hgives, hgives'⟩ :=
    hblind.ends_of_forget_eq h.fresh (hm.timePasses exchange.wait)
      (hm'.timePasses exchange.wait) hwaited hends
  refine ⟨next', hends', hgives.1, hgives'.1, hnext, ?_⟩
  exact clientAnswer_eq happart hgives.1 hgives'.1 hnext hgives.2 h.details

theorem converses_of_without_eq
    (happart : Relations.WritesApart app.toRelationsDeployment secrets)
    {exchanges : List Exchange} {m m' final : Market}
    (hm : m.Guarded secrets user i) (hm' : m'.Guarded secrets user i)
    (hsame : m.without secrets = m'.without secrets)
    (hcareful : ∀ exchange ∈ exchanges, exchange.Careful app secrets user)
    (hconverses : Converses app categories i m exchanges final) :
    ∃ final', Converses app categories i m' exchanges final' ∧
      final.without secrets = final'.without secrets := by
  induction exchanges generalizing m m' with
  | nil =>
      obtain rfl : final = m := hconverses
      exact ⟨m', rfl, hsame⟩
  | cons exchange rest ih =>
      obtain ⟨next, hends, hanswer, hrest⟩ := hconverses
      obtain ⟨hfirst, hcareful⟩ := List.forall_mem_cons.mp hcareful
      obtain ⟨next', hends', hnext, hnext', hleft, hanswers⟩ :=
        @Exchange.Careful.step secrets user i app categories exchange m m' next
          hfirst happart hm hm' hsame hends
      obtain ⟨final', hrest', hfinal⟩ := ih hnext hnext' hleft hcareful hrest
      exact ⟨final', ⟨next', hends', hanswer.trans hanswers, hrest'⟩, hfinal⟩

theorem guarded_opening {db : Database} {ids : Sequences} {now : ℕ}
    (happart : secrets.Apart user db)
    (hids : ∀ id, secrets.files id = true → id < ids.files) :
    (Market.opening db ids now).Guarded secrets user i where
  committed := happart
  queued change hchange := by contradiction
  ids := hids

/-- Two states of the data that differ only in secrets of others: whatever
careful requests a user makes, one after another, the answers are the same. -/
theorem same_answers_of_without_eq {db db' : Database} {ids : Sequences}
    {exchanges : List Exchange} {final : Market} {now : ℕ}
    (hexact : ∀ number id, id < 2 ^ 53 → app.nearestNumber number = id →
      number = id)
    (hsmall : ∀ id, secrets.messages id = true ∨ secrets.files id = true →
      id < 2 ^ 53)
    (happart : secrets.Apart user db) (happart' : secrets.Apart user db')
    (hsame : db.without secrets = db'.without secrets)
    (hids : ∀ id, secrets.files id = true → id < ids.files)
    (hcareful : ∀ exchange ∈ exchanges, exchange.Careful app secrets user)
    (hconverses : Converses app categories 0 (.opening db ids now) exchanges
      final) :
    ∃ final',
      Converses app categories 0 (.opening db' ids now) exchanges final' := by
  have hwrites : Relations.WritesApart app.toRelationsDeployment secrets := by
    intro entity id hhides number hnumber
    refine hexact number id (hsmall id ?_) hnumber
    unfold Relations.hides at hhides
    split at hhides
    · exact .inl hhides
    · exact .inr hhides
    · contradiction
  have hmarket : (Market.opening db ids now).without secrets =
      (Market.opening db' ids now).without secrets := by
    change ({ Market.opening db ids now with
      store := .fresh (db.without secrets)
      opened := db.without secrets } : Market) = _
    rw [hsame]
    rfl
  obtain ⟨final', hconverses', -⟩ := converses_of_without_eq hwrites
    (guarded_opening happart hids) (guarded_opening happart' hids) hmarket
    hcareful hconverses
  exact ⟨final', hconverses'⟩

/-- Users 2 and 3 have written a message to each other. -/
def gossip (text : String) : Database :=
  { acquaintances with
    users := acquaintances.users.insert (sampleUser 3 "+203")
    conversations := Database.empty.conversations.insert
      ⟨1, 2, 3, none, some 1, 0⟩
    messages := Database.empty.messages.insert ⟨1, 1, 2, text, 0, none⟩ }

def gossipSecrets : Secrets where
  messages id := id = 1
  files _ := false
  objectKeys _ := false

theorem apart_gossip (text : String) :
    gossipSecrets.Apart 1 (gossip text) where
  messages row hrow _ := by
    obtain rfl := List.mem_singleton.mp hrow
    exact ⟨⟨1, 2, 3, none, some 1, 0⟩, rfl,
      by simp [ConversationRow.HasUser]⟩
  lastMessages conversation hmem huser := by
    obtain rfl := List.mem_singleton.mp hmem
    simp [ConversationRow.HasUser] at huser
  images _ _ := rfl
  avatars _ _ _ _ := rfl
  objectKeys _ _ hsecret := by contradiction

def sampleHttp : HttpDeployment where
  toRelationsDeployment := Relations.sampleRelations
  isoText time := toString time

/-- A request that comes at once, and what its handler does with it. -/
def answered (request : Request) (draws : List Draw) (next : Market)
    (result : Except Fault Response) : Exchange :=
  ⟨0, request, draws, result, clientAnswer sampleHttp .empty next request result⟩

theorem fresh_calm (count : ℕ) :
    ∀ w ∈ List.replicate count calmDraw, w.Fresh gossipSecrets := by
  intro w hw
  obtain rfl := List.eq_of_mem_replicate hw
  exact ⟨fun _ hintent => by contradiction, fun _ _ => rfl⟩

def listsNothing : Except Fault Response → Bool
  | .ok (.conversations []) => true
  | _ => false

theorem listsNothing_iff {result : Except Fault Response} :
    listsNothing result = true ↔ result = .ok (.conversations []) := by
  unfold listsNothing
  split <;> simp_all

/-- User 1 is refused the messages, finds no conversations, and lists a
product, which tells nothing of the message either. -/
theorem same_answers_of_without_eq_listing :
    ∃ refused listing created final,
      refused.request = .listMessages 1 1 20 none ∧
      refused.answer.toOption = none ∧
      listing.request = .listConversations 1 .all 20 0 ∧
      created.request = .createProduct 1 (Relations.detailed "weight" 12) ∧
      Converses sampleHttp .empty 0 (.opening (gossip "Hello") acquaintanceIds 0)
        [refused, listing, created] final := by
  have hrun : (((Request.listMessages 1 1 20 none).handler
      sampleHttp.market).runUnder 0 (List.replicate 1 calmDraw)
        (.opening (gossip "Goodbye") acquaintanceIds 0)).any (fun refused =>
      refused.1.toOption.isNone &&
      (((Request.listConversations 1 .all 20 0).handler
        sampleHttp.market).runUnder 0 (List.replicate 1 calmDraw)
          (refused.2.surroundings (.timePasses 0))).any fun listing =>
      listsNothing listing.1 &&
      (((Request.createProduct 1 (Relations.detailed "weight" 12)).handler
        sampleHttp.market).runUnder 0 (List.replicate 6 calmDraw)
          (listing.2.surroundings (.timePasses 0))).any fun created =>
        Relations.answersDetails (Relations.numbered "weight" 12) created.1) =
      true := by
    decide +kernel
  obtain ⟨fault, m, hrefused, hcheck⟩ := Program.exists_ends_of_runUnder hrun
  rw [Bool.and_eq_true] at hcheck
  obtain ⟨conversations, n, hlisted, hcheck'⟩ :=
    Program.exists_ends_of_runUnder hcheck.2
  rw [Bool.and_eq_true, listsNothing_iff] at hcheck'
  obtain ⟨product, final, hcreated, hanswers⟩ :=
    Program.exists_ends_of_runUnder hcheck'.2
  obtain ⟨view, rfl, hview⟩ := Relations.answersDetails_iff.mp hanswers
  obtain ⟨error, rfl⟩ : ∃ error, fault = .error error := by
    cases fault with
    | error error => exact ⟨error, rfl⟩
    | ok response => exact absurd hcheck.1 Bool.false_ne_true
  obtain rfl : conversations = .ok (.conversations []) := hcheck'.1
  let refused := answered (.listMessages 1 1 20 none)
    (List.replicate 1 calmDraw) m (.error error)
  let listing := answered (.listConversations 1 .all 20 0)
    (List.replicate 1 calmDraw) n (.ok (.conversations []))
  let created := answered (.createProduct 1 (Relations.detailed "weight" 12))
    (List.replicate 6 calmDraw) final (.ok (.product (some view)))
  have hrefused' : refused.Careful sampleHttp gossipSecrets 1 :=
    ⟨rfl, trivial, fresh_calm 1, fun _ hresponse => by contradiction⟩
  have hlisting : listing.Careful sampleHttp gossipSecrets 1 :=
    { user := rfl
      unnamed := trivial
      fresh := fresh_calm 1
      details := fun response hresponse row hrow => by
        obtain rfl := Except.ok.inj hresponse
        exact absurd hrow List.not_mem_nil }
  have hcreated' : created.Careful sampleHttp gossipSecrets 1 :=
    { user := rfl
      unnamed := fun id _ => rfl
      fresh := fresh_calm 6
      details := fun response hresponse row hrow details hdetails => by
        obtain rfl := Except.ok.inj hresponse
        obtain rfl := List.mem_singleton.mp hrow
        obtain rfl := Option.some.inj (hview.symm.trans hdetails)
        exact Relations.namesOnly_field (by decide)
          (Relations.namesOnly_number 12) }
  obtain ⟨final', hconverses⟩ :=
    @same_answers_of_without_eq gossipSecrets 1 sampleHttp .empty
      (gossip "Goodbye") (gossip "Hello") acquaintanceIds
      [refused, listing, created] final 0
      (fun _ _ _ => id) (fun id hid => by
        have hone : id = 1 := by simpa [gossipSecrets] using hid
        omega)
      (apart_gossip _) (apart_gossip _) rfl (fun _ hid => by contradiction)
      (by simp [hrefused', hlisting, hcreated'])
      ⟨m, hrefused, rfl, n, hlisted, rfl, final, hcreated, rfl, rfl⟩
  exact ⟨refused, listing, created, final', rfl, rfl, rfl, rfl, hconverses⟩

end MarketPlace.Trade
