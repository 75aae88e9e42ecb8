import MarketPlace.BlockedBodies
import MarketPlace.Confidentiality

/-!
# Users who block each other

While one of two users blocks the other, neither of them is shown the other's
products and profile, and neither has a conversation with the other.  Every
service asks for the block on its own.  Those that return a conversation ask
for it with the peer, and not with the owner of the product that the
conversation is about; and the interceptor that puts records into the answers
asks for none.
-/

namespace MarketPlace.Trade

open Interleaving Relational

/-! ## Requests -/

section Requests

variable {i user other : ℕ} {final : Database}
  {acts : List (Acted Draw Market)}

variable {app : Deployment} {request : Request} {response : Response}

theorem acts_map {β γ : Type} {program : Operation β} {f : β → γ}
    {body : Operation γ}
    (h : (program >>= fun result => pure (f result)).Takes i acts body) :
    ∃ middle, program.Takes i acts middle := by
  rcases Program.takes_bind_cases h with
    hfirst | ⟨first, _, result, rfl, hfirst, hdone⟩
  · exact hfirst
  · obtain ⟨rfl, -⟩ := Program.takes_done.mp hdone
    rw [List.append_nil]
    exact ⟨_, hfirst⟩

/-- The answer to a request at whose actions the block is there is not about
the other user. -/
theorem Request.about_nothing (huser : request.user = some user)
    (hpositive : 0 < user)
    (htakes : (request.handler app).Takes i acts (.done response))
    (hparted : Parted user other final acts)
    (hreturns : request.Returns response)
    (hasks : request.AsksApart other final)
    (hapart : request.showsConversations = true →
      Parted.Apart user other acts) :
    other ∉ request.about final ∧ other ∉ response.about final := by
  cases request with
  | createProduct userId dto =>
      obtain rfl : userId = user := Option.some.inj huser
      obtain ⟨product, -, rfl⟩ := takes_map htakes
      refine ⟨List.not_mem_nil, fun hshown => ?_⟩
      obtain ⟨view, hview, howner⟩ := List.mem_map.mp hshown
      obtain ⟨hown, -⟩ := hreturns _ rfl view (Option.mem_toList.mp hview)
      exact hparted.ne (hown.symm.trans howner)
  | updateProduct userId productId dto =>
      obtain rfl : userId = user := Option.some.inj huser
      obtain ⟨product, -, rfl⟩ := takes_map htakes
      refine ⟨List.not_mem_nil, fun hshown => ?_⟩
      obtain ⟨view, hview, howner⟩ := List.mem_map.mp hshown
      obtain ⟨hown, -⟩ := hreturns _ rfl view (Option.mem_toList.mp hview)
      exact hparted.ne (hown.symm.trans howner)
  | listMyProducts userId dto status =>
      obtain rfl : userId = user := Option.some.inj huser
      obtain ⟨items, hservice, rfl⟩ := takes_map htakes
      exact ⟨List.not_mem_nil, shown_listMyProducts hservice hparted.ne⟩
  | searchProducts dto viewer =>
      obtain rfl : viewer = some user := huser
      obtain ⟨items, hservice, rfl⟩ := takes_map htakes
      exact ⟨List.not_mem_nil, shown_searchProducts hservice hparted⟩
  | getProductById productId viewer =>
      obtain rfl : viewer = some user := huser
      obtain ⟨view, hservice, rfl⟩ := takes_map htakes
      have howner := shown_getProductById hpositive hservice hparted
      refine ⟨List.not_mem_nil, fun hshown => ?_⟩
      exact howner (List.mem_singleton.mp hshown).symm
  | getPublicProfile userId dto viewer =>
      obtain rfl : viewer = some user := huser
      obtain ⟨view, hservice, rfl⟩ := takes_map htakes
      exact ⟨List.not_mem_nil, shown_getPublicProfile hpositive hservice hparted⟩
  | listFavorites userId dto =>
      obtain rfl : userId = user := Option.some.inj huser
      obtain ⟨items, hservice, rfl⟩ := takes_map htakes
      exact ⟨List.not_mem_nil, shown_listFavorites app hservice hparted⟩
  | addFavorite userId productId =>
      obtain rfl : userId = user := Option.some.inj huser
      obtain ⟨text, hservice, rfl⟩ := takes_map htakes
      exact ⟨shown_addFavorite hservice hparted, List.not_mem_nil⟩
  | getOrCreateConversation userId participantId productId =>
      obtain rfl : userId = user := Option.some.inj huser
      obtain ⟨view, hservice, rfl⟩ := takes_map htakes
      exact ⟨List.not_mem_nil,
        shown_getOrCreateConversation hservice hparted (hapart rfl)⟩
  | getConversationById userId conversationId =>
      obtain rfl : userId = user := Option.some.inj huser
      obtain ⟨view, hservice, rfl⟩ := takes_map htakes
      exact ⟨List.not_mem_nil,
        shown_getConversationById hservice hparted (hapart rfl)⟩
  | listConversations userId scope limit offset =>
      obtain rfl : userId = user := Option.some.inj huser
      obtain ⟨views, hservice, rfl⟩ := takes_map htakes
      exact ⟨List.not_mem_nil,
        shown_listConversations hservice hparted (hapart rfl)⟩
  | listMessages userId conversationId limit before =>
      obtain rfl : userId = user := Option.some.inj huser
      obtain ⟨views, hservice, rfl⟩ := takes_map htakes
      exact shown_listMessages hservice hparted
  | sendMessage userId conversationId messageText =>
      obtain rfl : userId = user := Option.some.inj huser
      obtain ⟨view, hservice, rfl⟩ := takes_map htakes
      exact shown_sendMessage hservice hparted
  | markRead userId messageId =>
      obtain rfl : userId = user := Option.some.inj huser
      obtain ⟨view, hservice, rfl⟩ := takes_map htakes
      exact shown_markRead hservice hparted
  | getMe userId =>
      obtain rfl : userId = user := Option.some.inj huser
      obtain ⟨view, hservice, rfl⟩ := takes_map htakes
      refine ⟨List.not_mem_nil, fun hshown => ?_⟩
      exact hparted.ne
        ((shown_getMe hservice).symm.trans (List.mem_singleton.mp hshown).symm)
  | updateMe userId dto =>
      obtain rfl : userId = user := Option.some.inj huser
      obtain ⟨view, hservice, rfl⟩ := takes_map htakes
      refine ⟨List.not_mem_nil, fun hshown => ?_⟩
      exact hparted.ne ((shown_updateMe hservice).symm.trans
        (List.mem_singleton.mp hshown).symm)
  | rateUser userId ratedUserId ratingValue =>
      obtain rfl : userId = user := Option.some.inj huser
      obtain ⟨row, hservice, rfl⟩ := takes_map htakes
      obtain ⟨hrater, hrated⟩ := shown_rateUser hservice
      have hother : ratedUserId ≠ other := hasks
      simp only [Response.about, hrater, hrated]
      simp [Request.about, hparted.ne.symm, hother.symm]
  | getFile userId isAdmin fileId =>
      obtain rfl : userId = user := Option.some.inj huser
      obtain ⟨view, hservice, rfl⟩ := takes_map htakes
      refine ⟨List.not_mem_nil, fun hshown => ?_⟩
      have huploader := Option.mem_toList.mp hshown
      rcases shown_getFile hservice hparted with
        hown | ⟨hadmin, row, hrow, hsame⟩
      · exact hparted.ne (Option.some.inj (hown.symm.trans huploader))
      · exact hasks hadmin row (Option.mem_toList.mpr hrow)
          (hsame.trans huploader)
  | _ =>
      obtain ⟨_, -, rfl⟩ := takes_map htakes
      exact ⟨List.not_mem_nil, List.not_mem_nil⟩

/-- The storage provider's answer is one that an action has drawn. -/
theorem takes_createUploadIntent {dto : CreateUploadIntentDto}
    {view : UploadIntentView}
    (htakes : (createUploadIntent app user dto).Takes i acts (.done view)) :
    ∃ a ∈ acts, a.draw.uploadIntent = some view.upload := by
  obtain ⟨_, _, now, rfl, -, hrest⟩ := Program.takes_bind htakes
  obtain ⟨_, _, randomHex, rfl, -, hinserts⟩ := Program.takes_bind hrest
  obtain ⟨_, _, insert, rfl, -, huploads⟩ := Program.takes_bind hinserts
  obtain ⟨_, _, intent, rfl, hupload, hdone⟩ := Program.takes_bind huploads
  obtain ⟨a, rfl, haction⟩ := takes_attempt hupload
  obtain ⟨-, hvalue⟩ := Program.takes_done.mp hdone
  obtain rfl := Program.done.inj hvalue
  refine ⟨a, by simp, ?_⟩
  split at haction
  · simp at haction
  · next hintent =>
      obtain ⟨hvalue, -⟩ := Prod.mk.inj (Option.some.inj haction)
      exact hintent.trans (congrArg some (Except.ok.inj hvalue))

theorem Request.upload_drawn {view : UploadIntentView}
    (htakes : (request.handler app).Takes i acts
      (.done (.uploadIntent view))) :
    ∃ a ∈ acts, a.draw.uploadIntent = some view.upload := by
  cases request with
  | createUploadIntent userId dto =>
      obtain ⟨shown, hservice, hview⟩ := takes_map htakes
      obtain rfl := Response.uploadIntent.inj hview
      exact takes_createUploadIntent hservice
  | _ =>
      obtain ⟨_, -, hview⟩ := takes_map htakes
      contradiction

theorem Acts.ownWrites {rights : Rights} {m m' : Market} {ok : Change → Prop}
    (hacts : Acts rights i m m')
    (hok : ∀ change : Change, change.kind ∈ rights.writes ∨
      change.transactional = true → ok change)
    (h : OwnWrites i ok m) : OwnWrites i ok m' := by
  rcases hacts with rfl | hstep
  · exact h
  cases hstep with
  | lost change hwrites => exact h.record rfl
  | rejected client change violation hwrites hviolation =>
      exact OwnWrites.record (m := m.take change) h rfl
  | wrote actor change huser hwrites halone hunlocked hviolation hoffered =>
      intro event hevent hactor written hwritten
      rcases List.mem_cons.mp hevent with rfl | hold
      · obtain rfl := Option.some.inj hwritten
        exact hok change (.inl hwrites)
      · exact h event hold hactor written hwritten
  | queued | locked | rolledBack => exact h
  | committed actor huser htransaction =>
      intro event hevent hactor written hwritten
      simp only [Market.commit, flush_eq, List.mem_append, List.mem_reverse,
        List.mem_map] at hevent
      rcases hevent with ⟨change, hchange, rfl⟩ | hold
      · obtain rfl := Option.some.inj hwritten
        exact hok change (.inr (htransaction.transactional change hchange))
      · exact h event hold hactor written hwritten

/-- The statements of writes that are about others. -/
def concernedKinds : List ChangeKind :=
  [.insertFavorite, .insertConversation, .setConversationProduct,
    .setLastMessage, .insertMessage, .markRead]

theorem Change.spares_of_kind {change : Change} {writes : List ChangeKind}
    (hkind : change.kind ∈ writes ∨ change.transactional = true)
    (hwrites : ∀ kind ∈ writes, kind ∉ concernedKinds) :
    change.Spares other final := by
  have hother : change.kind ∉ concernedKinds := by
    rcases hkind with hkind | halone
    · exact hwrites change.kind hkind
    · cases change <;> first | contradiction | simp [kind, concernedKinds]
  cases change <;> first
    | exact List.not_mem_nil
    | exact absurd hother (by simp [kind, concernedKinds])

/-- A request at whose actions the block is there writes nothing about the
other user. -/
theorem Request.writes_nothing {body : Operation Response}
    (huser : request.user = some user)
    (htakes : (request.handler app).Takes i acts body)
    (hparted : Parted user other final acts)
    (hacts : ∀ a ∈ acts, Acts request.rights i a.before a.after) :
    Program.ActsKeep (OwnWrites i (Change.Spares other final)) acts := by
  have hkinds : (∀ change : Change, change.kind ∈ request.writes ∨
      change.transactional = true → Change.Spares other final change) →
      Program.ActsKeep (OwnWrites i (Change.Spares other final)) acts :=
    fun hok a ha => (hacts a ha).ownWrites hok
  cases request with
  | addFavorite userId productId =>
      obtain rfl : userId = user := Option.some.inj huser
      obtain ⟨_, hservice⟩ := acts_map htakes
      exact acts_addFavorite hservice hparted
  | getOrCreateConversation userId participantId productId =>
      obtain rfl : userId = user := Option.some.inj huser
      obtain ⟨_, hservice⟩ := acts_map htakes
      exact acts_getOrCreateConversation hservice hparted
  | sendMessage userId conversationId messageText =>
      obtain rfl : userId = user := Option.some.inj huser
      obtain ⟨_, hservice⟩ := acts_map htakes
      exact acts_sendMessage hservice hparted
  | markRead userId messageId =>
      obtain rfl : userId = user := Option.some.inj huser
      obtain ⟨_, hservice⟩ := acts_map htakes
      exact acts_markRead hservice hparted
  | _ =>
      refine hkinds fun change hkind => Change.spares_of_kind hkind ?_
      simp [Request.writes, syncWrites, concernedKinds]

end Requests

/-! ## Runs -/

section Runs

variable {app : Relations.HttpDeployment} {now user other : ℕ}
  {pool later : Pool Request Draw Market Fault Response}
  {request : Request} {moves : List (Move Request Draw Surroundings)}

/-- The storage provider always answers with the fields that its uploader
signs. -/
def SignsUploads (moves : List (Move Request Draw Surroundings)) : Prop :=
  ∀ i w, .advance i w ∈ moves → ∀ intent, w.uploadIntent = some intent →
    Relations.SignedUpload intent

/-- A request writes nothing about the other user, and its answer shows nothing
of the other user. -/
structure KeptApart (app : Relations.HttpDeployment) (other : ℕ)
    (pool : Pool Request Draw Market Fault Response) (request : Request)
    (later : Pool Request Draw Market Fault Response) : Prop where
  writes : ∀ event ∈ later.state.history,
    event.actor = some pool.threads.length → ∀ change,
      event.change = some change → other ∉ change.concerned later.state.db
  answer : ∀ response, later.threads[pool.threads.length]? =
      some ⟨request, .done response⟩ →
    other ∉ request.shown app response later.state.db

/-- In every run in which a block is between two users from the call of one of
them on, whatever the others do: the request writes nothing about the other
user, and its answer shows nothing of the other user, if no conversation that it
shows is ever about a product of the other user, no details that it shows name
the other user, and it does not ask for the other user by rating or, as an
administrator, by a file. -/
theorem blocked_users_apart
    (hexact : ∀ number id, id < 2 ^ 53 → app.nearestNumber number = id →
      number = id)
    (hsigned : SignsUploads moves)
    (hreach : (market app.market).Reaches (fun _ _ => True) (Pool.opening now)
      pool)
    (huser : request.user = some user)
    (hrun : (market app.market).run moves
      (Pool.asked app.market pool request) = some later)
    (hblocked : (market app.market).Throughout
      (fun m => m.db.hasBlockBetweenUsers user other = true) moves
      (Pool.asked app.market pool request))
    (hapart : request.showsConversations = true →
      (market app.market).Throughout (fun m => m.db.ProductsApart user other)
        moves (Pool.asked app.market pool request))
    (hdetails : (market app.market).Throughout
      (request.DetailsApart app other later.state.db pool.threads.length) moves
      (Pool.asked app.market pool request))
    (hasks : request.AsksApart other later.state.db)
    (hsmall : later.state.db.SmallIds other) :
    KeptApart app other pool request later := by
  have hasked : (market app.market).Reaches (fun _ _ => True)
      (Pool.opening now) (Pool.asked app.market pool request) :=
    .step hreach (fun _ _ => trivial)
      (show (market app.market).perform (.submit request) pool = _ from rfl)
  have hthread : (Pool.asked app.market pool request).threads[
      pool.threads.length]? = some ⟨request, request.handler app.market⟩ := by
    simp
  have hfresh := (onCourse_of_reaches hreach).fresh _ le_rfl
  have hacted := fun a ha => @acted_of_run pool.threads.length app.market now _
    later moves a request _ hasked hrun hthread ha
  have hparted : Parted user other later.state.db
      ((market app.market).actionsOf pool.threads.length moves
        (Pool.asked app.market pool request)) := by
    refine ⟨ne_of_blocked hreach hblocked.here,
      fun a ha => hblocked.acted hrun ha, fun a ha => ?_,
      fun a ha => (hacted a ha).2.2⟩
    obtain ⟨⟨middle, hmiddle, hstate⟩, -⟩ := hacted a ha
    exact hstate ▸ coherent_of_reaches hmiddle
  obtain ⟨body, hbody, htakes⟩ := System.takes_of_run hrun hthread
  constructor
  · refine ownWrites_of_run hasked hrun ?_ (request.writes_nothing huser htakes
      hparted fun a ha => (hacted a ha).2.1)
    exact fun event hevent hactor => absurd hactor (hfresh.2 event hevent)
  · intro response hdone
    obtain ⟨-, rfl⟩ := Thread.mk.inj (Option.some.inj (hbody.symm.trans hdone))
    have hreturns : request.Returns response := by
      obtain ⟨body, hbody', hmeets⟩ := (System.Reaches.refl.run
        (fun _ _ _ => trivial) hrun).thread_meets market_sound
          (onCourse_of_reaches hasked) hthread (request.handler_returns hfresh)
      obtain ⟨-, rfl⟩ := Thread.mk.inj (Option.some.inj (hbody'.symm.trans hdone))
      exact hmeets later.state (Rely.refl _ _)
        (onCourse_of_reaches (reaches_run hasked hrun)).invariant
    obtain ⟨hnamed, habout⟩ := request.about_nothing huser
      (positive_of_blocked hreach hblocked.here) htakes hparted hreturns hasks
      fun hshows a ha => (hapart hshows).acted hrun ha
    refine Request.not_mem_shown (hsmall.readsApart hexact) hnamed habout ?_
      htakes hreturns fun a ha => hdetails.acted hrun ha
    rintro view rfl
    obtain ⟨a, ha, hintent⟩ := request.upload_drawn htakes
    obtain ⟨front, back, _, _, hmoves, -⟩ := System.exists_move_of_acted hrun ha
    refine hsigned pool.threads.length a.draw ?_ view.upload hintent
    rw [hmoves]
    exact List.mem_append_right _ List.mem_cons_self

/-- Of three users the second one lists a product whose details name that user,
and the third one lists a product and is blocked by the first. -/
def blocksSeller : List (Move Request Draw Surroundings) :=
  [Move.environment (Surroundings.userRegisters "Amina" "+201"),
    Move.environment (Surroundings.userRegisters "Basma" "+202"),
    Move.environment (Surroundings.userRegisters "Camille" "+203"),
    Move.submit (Request.createProduct 2 (Relations.detailed "user_id" 2))] ++
    List.replicate 6 (Move.advance 0 calmDraw) ++
    [Move.submit (Request.createProduct 3 sampleProduct)] ++
    List.replicate 6 (Move.advance 1 calmDraw) ++
    [Move.submit (Request.blockUser 1 3)] ++
    List.replicate 2 (Move.advance 2 calmDraw)

/-- Request 3 comes next, and the block is there all the time. -/
def askedWhileBlocked (request : Request) (advances : ℕ)
    (pool : Pool Request Draw Market Fault Response) : Bool :=
  pool.threads.length = 3 &&
    decide ((market sampleApp).Throughout
      (fun m => m.db.hasBlockBetweenUsers 1 3 = true)
      (List.replicate advances (.advance 3 calmDraw))
      (Pool.asked sampleApp pool request))

/-- Request 3 was answered with something of the user. -/
def showsUser (user : ℕ) (pool : Pool Request Draw Market Fault Response) :
    Bool :=
  match pool.answer 3 with
  | some (request, response) =>
      (request.shown sampleHttp response pool.state.db).contains user
  | none => false

/-- A search of user 1. -/
def searchesShop : Request := .searchProducts sampleSearch (some 1)

/-- User 1 opens a conversation with user 2 about the product of user 2. -/
def asksAboutShown : Request := .getOrCreateConversation 1 2 (some 1)

/-- As long as request 3 advances, no conversation of user 1 is about a product
of user 3, and no details that the request shows name user 3. -/
def advancesApart (request : Request) (advances : ℕ)
    (pool later : Pool Request Draw Market Fault Response) : Bool :=
  decide ((market sampleApp).Throughout (fun m => m.db.ProductsApart 1 3)
    (List.replicate advances (.advance 3 calmDraw))
    (Pool.asked sampleApp pool request)) &&
    decide ((market sampleApp).Throughout
      (request.DetailsApart sampleHttp 3 later.state.db pool.threads.length)
      (List.replicate advances (.advance 3 calmDraw))
      (Pool.asked sampleApp pool request)) &&
    decide (later.state.db.SmallIds 3)

/-- The request shows user 2 with all that is asked of it. -/
def showsApart (request : Request) (advances : ℕ)
    (pool : Pool Request Draw Market Fault Response) : Bool :=
  askedWhileBlocked request advances pool &&
    ((market sampleApp).run (List.replicate advances (.advance 3 calmDraw))
      (Pool.asked sampleApp pool request)).any fun later =>
        advancesApart request advances pool later && showsUser 2 later

/-- The search of user 1 shows the product of user 2 with the record that its
details name, the conversation is about that product, and both show nothing of
user 3. -/
theorem blocked_users_apart_shop :
    ∃ pool searched opened,
      (market sampleApp).Reaches (fun _ _ => True) (Pool.opening 0) pool ∧
      (market sampleApp).run [.advance 3 calmDraw]
        (Pool.asked sampleApp pool searchesShop) = some searched ∧
      showsUser 2 searched = true ∧
      KeptApart sampleHttp 3 pool searchesShop searched ∧
      (market sampleApp).run (List.replicate 8 (.advance 3 calmDraw))
        (Pool.asked sampleApp pool asksAboutShown) = some opened ∧
      showsUser 2 opened = true ∧
      KeptApart sampleHttp 3 pool asksAboutShown opened := by
  obtain ⟨pool, hreach, hcheck⟩ := System.exists_reaches_of_run
    (show ((market sampleApp).run blocksSeller (Pool.opening 0)).any
      (fun pool => showsApart searchesShop 1 pool &&
        showsApart asksAboutShown 8 pool) = true
      by decide +kernel)
  obtain ⟨hsearch, hopens⟩ := Bool.and_eq_true_iff.mp hcheck
  have hkept : ∀ (request : Request) (advances : ℕ), request.user = some 1 →
      (∀ db, request.AsksApart 3 db) → showsApart request advances pool = true →
      ∃ later, (market sampleApp).run
          (List.replicate advances (.advance 3 calmDraw))
          (Pool.asked sampleApp pool request) = some later ∧
        showsUser 2 later = true ∧
        KeptApart sampleHttp 3 pool request later := by
    intro request advances huser hasks hshows
    simp only [showsApart, askedWhileBlocked, Bool.and_eq_true,
      decide_eq_true_eq] at hshows
    obtain ⟨⟨-, hblocked⟩, hruns⟩ := hshows
    obtain ⟨later, hrun, hchecks⟩ := (Option.any_eq_true _ _).mp hruns
    simp only [advancesApart, Bool.and_eq_true, decide_eq_true_eq] at hchecks
    obtain ⟨⟨⟨hproducts, hdetails⟩, hsmall⟩, hshown⟩ := hchecks
    have hsigned : SignsUploads (List.replicate advances
        (Move.advance 3 calmDraw)) := by
      intro i w hmove intent hintent
      obtain ⟨-, rfl⟩ := Move.advance.inj (List.eq_of_mem_replicate hmove)
      contradiction
    exact ⟨later, hrun, hshown, @blocked_users_apart sampleHttp 0 1 3 pool later
      request _ (fun _ _ _ => id) hsigned hreach huser hrun hblocked
      (fun _ => hproducts) hdetails (hasks _) hsmall⟩
  obtain ⟨searched, hsearched⟩ :=
    hkept searchesShop 1 rfl (fun _ => trivial) hsearch
  obtain ⟨opened, hrun, hopened⟩ :=
    hkept asksAboutShown 8 rfl (fun _ => trivial) hopens
  exact ⟨pool, searched, opened, hreach, hsearched.1, hsearched.2.1,
    hsearched.2.2, hrun, hopened⟩

/-- User 1 opens a conversation with user 2 about the product of user 3. -/
def asksAboutBlocked : Request := .getOrCreateConversation 1 2 (some 2)

/-- The conversation that user 1 is shown is about a product of user 3. -/
theorem not_always_blocked_users_apart :
    ¬ ∀ (pool later : Pool Request Draw Market Fault Response)
      (user other : ℕ) (request : Request)
      (moves : List (Move Request Draw Surroundings)),
      (market sampleApp).Reaches (fun _ _ => True) (Pool.opening 0) pool →
      request.user = some user →
      (market sampleApp).run moves (Pool.asked sampleApp pool request) =
        some later →
      (market sampleApp).Throughout
        (fun m => m.db.hasBlockBetweenUsers user other = true) moves
        (Pool.asked sampleApp pool request) →
      KeptApart sampleHttp other pool request later := by
  intro halways
  obtain ⟨pool, hreach, hcheck⟩ := System.exists_reaches_of_run
    (show ((market sampleApp).run blocksSeller (Pool.opening 0)).any
      (fun pool => askedWhileBlocked asksAboutBlocked 8 pool &&
        ((market sampleApp).run (List.replicate 8 (.advance 3 calmDraw))
          (Pool.asked sampleApp pool asksAboutBlocked)).any
            (showsUser 3)) = true
      by decide +kernel)
  simp only [askedWhileBlocked, Bool.and_eq_true, decide_eq_true_eq] at hcheck
  obtain ⟨⟨hlength, hblocked⟩, hruns⟩ := hcheck
  obtain ⟨later, hrun, hshows⟩ := (Option.any_eq_true _ _).mp hruns
  have hapart := halways pool later 1 3 asksAboutBlocked _ hreach rfl hrun
    hblocked
  unfold showsUser at hshows
  split at hshows
  · next request response hanswer =>
      have hdone := Pool.thread_of_answer hanswer
      obtain ⟨body, hbody, -⟩ := System.takes_of_run (i := 3) hrun
        (show (Pool.asked sampleApp pool asksAboutBlocked).threads[3]? =
          some ⟨asksAboutBlocked, asksAboutBlocked.handler sampleApp⟩ by
            simp [← hlength])
      obtain ⟨rfl, -⟩ := Thread.mk.inj (Option.some.inj (hdone.symm.trans hbody))
      exact hapart.answer response (hlength.symm ▸ hdone)
        (List.contains_iff_mem.mp hshows)
  · contradiction

end Runs

end MarketPlace.Trade
