import MarketPlace.ChatOutlines
import MarketPlace.GatewayDiscipline

/-!
# Outlines of the gateway's handlers

Every action of a handler is a step, and what a request emits as a joined
conversation is the conversation as the acting user saw it since the request.
-/

namespace MarketPlace.Trade

open Interleaving

variable {i : ℕ} {g : Gateway} {α β : Type}

/-! ## Facts that stay -/

/-- A fact that no step undoes. -/
structure Stable (fact : Gateway → Prop) : Prop where
  kept : ∀ {g g' : Gateway}, g.Grows g' → fact g → fact g'

theorem Stable.and {fact other : Gateway → Prop} (h : Stable fact)
    (hother : Stable other) : Stable fun g => fact g ∧ other g :=
  ⟨fun hgrows hboth => ⟨h.kept hgrows hboth.1, hother.kept hgrows hboth.2⟩⟩

theorem stable_true : Stable fun _ => True := ⟨fun _ h => h⟩

theorem stable_userOf (client user : ℕ) :
    Stable fun g => g.userOf client = some user :=
  ⟨fun hgrows huser => hgrows.users client user huser⟩

theorem stable_takesPart (user conversationId : ℕ) :
    Stable fun g => TakesPart user conversationId g.market.db :=
  ⟨fun hgrows hpart => hpart.grows hgrows.data⟩

theorem stable_since (since : List Event) :
    Stable fun g => since <:+ g.market.history :=
  ⟨fun hgrows hsince => hsince.trans hgrows.history⟩

theorem stable_seenSince (since : List Event) (user : ℕ)
    (view : ConversationView) :
    Stable fun g => SeenSince since user view g.market :=
  ⟨fun hgrows hseen => hseen.later hgrows.history hgrows.opened⟩

/-- The user that a request acts as. -/
def GatewayRequest.actsAs (request : GatewayRequest) (g : Gateway) :
    Option ℕ :=
  match request with
  | .handleConnection _ => none
  | .joinConversation client _ | .sendMessage client _ _
  | .markRead client _ => g.userOf client
  | .createConversation user _ _ => some user
  | .http request => request.user

theorem stable_actsAs (request : GatewayRequest) (user : ℕ) :
    Stable fun g => request.actsAs g = some user := by
  refine ⟨fun {g g'} hgrows huser => ?_⟩
  cases request with
  | handleConnection handshake => contradiction
  | joinConversation client conversationId =>
      exact hgrows.users client user huser
  | sendMessage client conversationId text =>
      exact hgrows.users client user huser
  | markRead client messageId => exact hgrows.users client user huser
  | createConversation creator participantId productId => exact huser
  | http request => exact huser

/-! ## What a request emits -/

/-- The acting user, who takes part, saw the conversation like this. -/
def Shows (since : List Event) (request : GatewayRequest)
    (view : ConversationView) (g : Gateway) : Prop :=
  ∃ user, request.actsAs g = some user ∧
    SeenSince since user view g.market ∧
      TakesPart user view.id g.market.db

theorem stable_shows (since : List Event) (request : GatewayRequest)
    (view : ConversationView) : Stable (Shows since request view) := by
  refine ⟨fun hgrows h => ?_⟩
  obtain ⟨user, huser, hseen, hpart⟩ := h
  exact ⟨user, (stable_actsAs request user).kept hgrows huser,
    (stable_seenSince since user view).kept hgrows hseen,
    (stable_takesPart user view.id).kept hgrows hpart⟩

/-- A joined conversation is shown to its own room. -/
def Relayed (since : List Event) (request : GatewayRequest)
    (emission : Emission) (g : Gateway) : Prop :=
  emission.event = .conversationJoined →
    ∃ view, emission.payload = .joined true 200 view ∧
      emission.room = roomName view.id ∧ Shows since request view g

/-- A step of request `i` that emits, if anything, what it should. -/
structure Emits (since : List Event) (request : GatewayRequest) (i : ℕ)
    (g g' : Gateway) : Prop where
  step : GatewayStep i g g'
  emissions : ∀ emission ∈ g'.emissions, emission ∈ g.emissions ∨
    emission.actor = i ∧ Relayed since request emission g

abbrev emitting (since : List Event) (request : GatewayRequest) :
    Discipline Gateway :=
  gatewayDiscipline.within (Emits since request)

variable {since : List Event} {request : GatewayRequest}

theorem Emits.silent {g' : Gateway} (hstep : GatewayStep i g g')
    (hemissions : g'.emissions = g.emissions) :
    Emits since request i g g' :=
  ⟨hstep, fun _ hemission => .inl (hemissions ▸ hemission)⟩

/-! ## Rules -/

/-- A sound gateway in which the others have gone on. -/
structure GatewayLater (i : ℕ) (g t : Gateway) : Prop
    extends GatewayRely i g t where
  sound : t.Sound

theorem GatewayLater.grows {t : Gateway} (h : GatewayLater i g t) :
    g.Grows t := h.toGatewayRely.grows

theorem update_meets {change : ℕ → GatewayDraw → Gateway → Gateway}
    {post : Unit → Gateway → Prop} {fail : Fault → Gateway → Prop}
    (hstep : ∀ u d, GatewayLater i g u →
      Emits since request i u (change i d u))
    (hpost : ∀ u d t, GatewayLater i g u → GatewayLater i (change i d u) t →
      post () t) :
    (update change).Meets (emitting since request) i post fail g := by
  intro u hu hsound d result v hrun
  simp only [Option.some.injEq, Prod.mk.injEq] at hrun
  obtain ⟨-, rfl⟩ := hrun
  have hemits := hstep u d ⟨hu, hsound⟩
  refine ⟨⟨⟨hsound, hemits.step⟩, hemits⟩, fun t ht ht' => ?_⟩
  exact hpost u d t ⟨hu, hsound⟩ ⟨ht, ht'⟩

/-- A change that needs a stable fact keeps it. -/
theorem update_keeps {change : ℕ → GatewayDraw → Gateway → Gateway}
    {fact : Gateway → Prop} (hstable : Stable fact) (hfact : fact g)
    (hstep : ∀ u d, fact u → Emits since request i u (change i d u)) :
    (update change).Meets (emitting since request) i (fun _ t => fact t)
      (fun _ _ => True) g := by
  refine update_meets (fun u d hu => hstep u d (hstable.kept hu.grows hfact)) ?_
  intro u d t hu ht
  have hu' := hstable.kept hu.grows hfact
  have hgrows := (hstep u d hu').step.grows hu.sound
  exact hstable.kept ht.grows (hstable.kept hgrows hu')

theorem getUser_meets {client : ℕ} {post : ℕ → Gateway → Prop}
    (hpost : ∀ user t, GatewayLater i g t → t.userOf client = some user →
      post user t) :
    (getUser client).Meets (emitting since request) i post (fun _ _ => True)
      g := by
  intro u hu hsound d result v hrun
  simp only [Option.some.injEq, Prod.mk.injEq] at hrun
  obtain ⟨rfl, rfl⟩ := hrun
  have hstep := GatewayStep.idle i u
  refine ⟨⟨⟨hsound, hstep⟩, .silent hstep rfl⟩, ?_⟩
  cases huser : u.userOf client with
  | none => exact fun _ _ _ => trivial
  | some user =>
      intro t ht ht'
      exact hpost user t ⟨GatewayRely.trans hu ht, ht'⟩
        (GatewayRely.users ht client user huser)

/-- A service of the market that keeps to some rights is called. -/
theorem onMarket_meets {rights : Rights} {operation : Operation α}
    {post : α → Market → Prop} {fact : Gateway → Prop}
    (hstable : Stable fact) (hfact : fact g)
    (hmeets : operation.Meets (acting rights) i post (fun _ _ => True)
      g.market) :
    (onMarket operation).Meets (emitting since request) i
      (fun value t => post value t.market ∧ fact t) (fun _ _ => True) g := by
  have hlifted : (onMarket operation).Meets (emitting since request) i
      (fun value t => post value t.market) (fun _ _ => True) g := by
    unfold onMarket
    refine (Program.Meets.onPart ?_ ?_ ?_ hmeets).mono (fun _ _ h => h)
      fun _ _ _ => trivial
    · exact fun hrely => GatewayRely.market hrely
    · exact fun hsound => Gateway.Sound.market hsound
    · intro s m hsound hacts
      have hstep : GatewayStep i s { s with market := m } :=
        .traded rights m hacts.2
      exact ⟨⟨hsound, hstep⟩, .silent hstep rfl⟩
  have hframed := Program.Meets.frame fact
    (fun {_ _} (hrely : GatewayRely i _ _) h => hstable.kept hrely.grows h)
    (fun {_ _} (hacts : (_ ∧ GatewayStep i _ _) ∧ _) h =>
      hstable.kept (hacts.1.2.grows hacts.1.1) h) hlifted hfact
  exact hframed.mono (fun _ _ h => h) fun _ _ _ => trivial

theorem expand_meets {payload : α} {fact : Gateway → Prop}
    (hstable : Stable fact) (hfact : fact g) :
    (expand payload).Meets (emitting since request) i
      (fun value t => value = payload ∧ fact t) (fun _ _ => True) g := by
  have hselect : (select none fun _ => payload).Meets (acting ⟨none, []⟩) i
      (fun value _ => value = payload) (fun _ _ => True) g.market :=
    select_meets (fun _ _ => trivial) fun _ _ _ => rfl
  exact onMarket_meets hstable hfact hselect

theorem join_meets {client user conversationId : ℕ} {fact : Gateway → Prop}
    (hstable : Stable fact) (hfact : fact g)
    (huser : g.userOf client = some user)
    (hpart : TakesPart user conversationId g.market.db) :
    (join client (roomName conversationId)).Meets (emitting since request) i
      (fun _ t => fact t) (fun _ _ => True) g := by
  refine (update_keeps (hstable.and ((stable_userOf client user).and
    (stable_takesPart user conversationId))) ⟨hfact, huser, hpart⟩ ?_).mono
    (fun _ _ h => h.1) fun _ _ h => h
  rintro u - ⟨-, huser, hpart⟩
  exact .silent (.joined client user conversationId huser hpart)
    Gateway.joinRoom_emissions

theorem emit_meets {event : ChatEvent} {conversationId : ℕ}
    {payload : WsPayload} {fact : Gateway → Prop}
    (hconversation : payload.conversationId = conversationId)
    (hstable : Stable fact) (hfact : fact g)
    (hrelayed : ∀ u, fact u → Relayed since request
      ⟨i, event, roomName conversationId, payload,
        u.rooms (roomName conversationId)⟩ u) :
    (emit event (roomName conversationId) payload).Meets
      (emitting since request) i (fun _ _ => True) (fun _ _ => True) g := by
  subst hconversation
  refine (update_keeps hstable hfact ?_).mono (fun _ _ _ => trivial)
    fun _ _ h => h
  intro u d hu
  refine ⟨.emitted event payload, fun emission hemission => ?_⟩
  rcases List.mem_cons.mp hemission with rfl | hold
  · exact .inr ⟨rfl, hrelayed u hu⟩
  · exact .inl hold

/-! ## Connections -/

theorem GatewayLater.new {t : Gateway} (h : GatewayLater i g t)
    (hnew : g.sockets i = none) : t.sockets i = none := by
  have haccepted := h.accepted
  rw [hnew] at haccepted
  exact Option.not_isSome_iff_eq_none.mp (by simp [haccepted])

theorem handleConnection_meets {jwtAccessSecret : String}
    {handshake : Handshake} (hnew : g.sockets i = none) :
    (handleConnection jwtAccessSecret handshake).Meets
      (emitting since request) i (fun _ _ => True) (fun _ _ => True) g := by
  unfold handleConnection
  cases extractToken handshake with
  | none =>
      refine update_meets (fun u d hu => ?_) fun _ _ _ _ _ => trivial
      exact .silent (.turnedAwayAtOnce (hu.new hnew))
        Gateway.turnAway_emissions
  | some token =>
      refine Program.Meets.seq (fun _ t => t.Pending i) ?_ ?_
      · refine update_meets (fun u d hu => ?_) ?_
        · exact .silent (.accepted (hu.new hnew)) rfl
        · exact fun u d t _ ht => ht.pending (Gateway.pending_accept i u)
      · intro _ t hpending
        refine update_meets (fun u d hu => ?_) fun _ _ _ _ _ => trivial
        have hpending := hu.pending hpending
        cases (d.verifyAsync token jwtAccessSecret).bind normalizedSub with
        | none =>
            exact .silent (.turnedAway hpending) Gateway.turnAway_emissions
        | some user =>
            exact .silent (.authenticated user hpending)
              Gateway.authenticate_emissions

/-! ## Events -/

theorem buildConversationJoinedPayload_meets {view : ConversationView}
    {fact : Gateway → Prop} (hstable : Stable fact) (hfact : fact g) :
    (buildConversationJoinedPayload view).Meets (emitting since request) i
      (fun payload t => payload = .joined true 200 view ∧ fact t)
      (fun _ _ => True) g := by
  refine Program.Meets.seq _ (expand_meets hstable hfact) ?_
  rintro expanded t ⟨rfl, hfact⟩
  exact fun u hu _ => ⟨rfl, hstable.kept (GatewayRely.grows hu) hfact⟩

theorem done_keeps {value : α} :
    (Program.done value : GatewayOperation α).Meets (emitting since request) i
      (fun _ _ => True) (fun _ _ => True) g :=
  fun _ _ _ => trivial

theorem joinConversation_meets {client conversationId : ℕ}
    (hsince : since <:+ g.market.history) :
    (joinConversation client conversationId).Meets
      (emitting since (.joinConversation client conversationId)) i
      (fun _ _ => True) (fun _ _ => True) g := by
  refine Program.Meets.bind (getUser_meets fun user t ht huser => ?_)
  have hstable := (stable_userOf client user).and (stable_since since)
  have hsince := (stable_since since).kept ht.grows hsince
  have hassert : Safe ⟨none, []⟩ i t.market
      (assertConversationParticipant conversationId user) :=
    safe_assertConversationParticipant
  refine Program.Meets.seq _
    (onMarket_meets hstable ⟨huser, hsince⟩ hassert) ?_
  rintro - u ⟨-, huser, hsince⟩
  have hget : (getConversationById user conversationId).Meets
      (acting ⟨none, []⟩) i
      (fun view t => view.id = conversationId ∧
        SeenSince since user view t ∧ TakesPart user conversationId t.db)
      (fun _ _ => True) u.market :=
    getConversationById_shows hsince
  refine Program.Meets.seq _
    (onMarket_meets hstable ⟨huser, hsince⟩ hget) ?_
  rintro view v ⟨⟨rfl, hseen, hpart⟩, huser, -⟩
  have hstable := (stable_userOf client user).and
    ((stable_takesPart user view.id).and
      (stable_shows since (.joinConversation client view.id) view))
  have hshows : Shows since (.joinConversation client view.id) view v :=
    ⟨user, huser, hseen, hpart⟩
  refine Program.Meets.seq _
    (buildConversationJoinedPayload_meets hstable ⟨huser, hpart, hshows⟩) ?_
  rintro payload w ⟨rfl, hfact⟩
  refine Program.Meets.seq _
    (join_meets hstable hfact hfact.1 hfact.2.1) fun _ x hfact => ?_
  refine Program.Meets.seq _ (emit_meets rfl hstable hfact ?_)
    fun _ _ _ => done_keeps
  exact fun y hy _ => ⟨view, rfl, rfl, hy.2.2⟩

/-- A message event is relayed to the room of a conversation of the user. -/
theorem relay_meets {client user conversationId : ℕ} {event : ChatEvent}
    {payload : WsPayload} {value : α} (hevent : event ≠ .conversationJoined)
    (hconversation : payload.conversationId = conversationId)
    (huser : g.userOf client = some user)
    (hpart : TakesPart user conversationId g.market.db) :
    (do
      join client (roomName conversationId)
      emit event (roomName conversationId) payload
      pure value : GatewayOperation α).Meets (emitting since request) i
      (fun _ _ => True) (fun _ _ => True) g := by
  refine Program.Meets.seq _ (join_meets stable_true trivial huser hpart)
    fun _ t _ => ?_
  refine Program.Meets.seq _ (emit_meets hconversation stable_true trivial ?_)
    fun _ _ _ => done_keeps
  exact fun u _ hjoined => absurd hjoined hevent

theorem Fresh.later {m t : Market} (h : Fresh i m) (hrely : Rely i m t) :
    Fresh i t :=
  ⟨hrely.queue.trans h.1, fun event hevent hactor =>
    h.2 event (hrely.mem_of_actor hevent hactor) hactor⟩

theorem sendMessageEvent_meets {client conversationId : ℕ} {text : String}
    (hfresh : Fresh i g.market) :
    (sendMessageEvent client conversationId text).Meets
      (emitting since request) i (fun _ _ => True) (fun _ _ => True) g := by
  refine Program.Meets.bind (getUser_meets fun user t ht huser => ?_)
  have hsend : (sendMessage user conversationId text).Meets
      (acting (Request.sendMessage user conversationId text).rights) i
      (fun view t => view.conversationId = conversationId ∧
        TakesPart user conversationId t.db) (fun _ _ => True) t.market :=
    (sendMessage_meets rfl (fun _ => id) (hfresh.later ht.market)).mono
      (fun _ _ h => ⟨h.1.2, h.2⟩) fun _ _ _ => trivial
  refine Program.Meets.seq _
    (onMarket_meets (stable_userOf client user) huser hsend) ?_
  rintro view u ⟨⟨rfl, hpart⟩, huser⟩
  refine Program.Meets.seq _
    (expand_meets ((stable_userOf client user).and
      (stable_takesPart user view.conversationId)) ⟨huser, hpart⟩) ?_
  rintro expanded v ⟨rfl, huser, hpart⟩
  exact relay_meets (by simp) rfl huser hpart

theorem markReadEvent_meets {client messageId : ℕ} :
    (markReadEvent client messageId).Meets
      (emitting since request) i (fun _ _ => True) (fun _ _ => True) g := by
  refine Program.Meets.bind (getUser_meets fun user t ht huser => ?_)
  have hmark : (markRead user messageId).Meets
      (acting (Request.markRead user messageId).rights) i
      (fun view t => TakesPart user view.conversationId t.db)
      (fun _ _ => True) t.market :=
    markRead_meets rfl List.mem_cons_self
  refine Program.Meets.seq _
    (onMarket_meets (stable_userOf client user) huser hmark) ?_
  rintro view u ⟨hpart, huser⟩
  refine Program.Meets.seq _
    (expand_meets ((stable_userOf client user).and
      (stable_takesPart user view.conversationId)) ⟨huser, hpart⟩) ?_
  rintro expanded v ⟨rfl, huser, hpart⟩
  exact relay_meets (by simp) rfl huser hpart

/-! ## REST creation -/

theorem Gateway.registered_of_nextSocket {userId created socket : ℕ}
    {visited : List ℕ} (h : g.nextSocket userId created visited = some socket) :
    g.Registered userId socket := by
  obtain ⟨set, hset, hsocket⟩ := Option.bind_eq_some_iff.mp h
  exact ⟨set, (Option.filter_eq_some_iff.mp hset).1,
    List.mem_of_find?_eq_some hsocket⟩

section Participants

variable {conversationId userId : ℕ} {fact : Gateway → Prop}

/-- A loop over the sockets of a participant only joins sockets that are
authenticated as this participant. -/
theorem joinSockets_meets {created turns : ℕ} {visited : List ℕ}
    (hstable : Stable fact) (hfact : fact g)
    (hpart : TakesPart userId conversationId g.market.db) :
    (joinSockets (roomName conversationId) userId created turns visited).Meets
      (emitting since request) i (fun _ t => fact t) (fun _ _ => True) g := by
  induction turns generalizing g visited with
  | zero =>
      intro u _ _ d result v hrun
      contradiction
  | succ turns ih =>
      intro u hu hsound d result v hrun
      have hfact := hstable.kept (GatewayRely.grows hu) hfact
      have hpart := hpart.grows (GatewayRely.grows hu).data
      cases hnext : u.nextSocket userId created visited with
      | none =>
          simp only [hnext, Option.some.injEq, Prod.mk.injEq] at hrun
          obtain ⟨rfl, rfl⟩ := hrun
          have hstep := GatewayStep.idle i u
          refine ⟨⟨⟨hsound, hstep⟩, .silent hstep rfl⟩, fun t ht _ => ?_⟩
          exact hstable.kept (GatewayRely.grows ht) hfact
      | some socket =>
          simp only [hnext, Option.some.injEq, Prod.mk.injEq] at hrun
          obtain ⟨rfl, rfl⟩ := hrun
          have huser := Gateway.Sound.registry hsound userId socket
            (Gateway.registered_of_nextSocket hnext)
          have hstep : GatewayStep i u
              (u.joinRoom socket (roomName conversationId)) :=
            .joined socket userId conversationId huser hpart
          have hgrows := hstep.grows hsound
          refine ⟨⟨⟨hsound, hstep⟩, .silent hstep Gateway.joinRoom_emissions⟩,
            ih (hstable.kept hgrows hfact) (hpart.grows hgrows.data)⟩

theorem joinUser_meets (hstable : Stable fact) (hfact : fact g)
    (hpart : TakesPart userId conversationId g.market.db) :
    (joinUser (roomName conversationId) userId).Meets
      (emitting since request) i (fun _ t => fact t) (fun _ _ => True) g := by
  intro u hu hsound d result v hrun
  simp only [Option.some.injEq, Prod.mk.injEq] at hrun
  obtain ⟨rfl, rfl⟩ := hrun
  have hfact := hstable.kept (GatewayRely.grows hu) hfact
  have hpart := hpart.grows (GatewayRely.grows hu).data
  have hstep := GatewayStep.idle i u
  refine ⟨⟨⟨hsound, hstep⟩, .silent hstep rfl⟩, ?_⟩
  cases (u.socketsByUserId userId).map SocketSet.created with
  | none => exact fun t ht _ => hstable.kept (GatewayRely.grows ht) hfact
  | some created => exact joinSockets_meets hstable hfact hpart

theorem joinUsers_meets {userIds : List ℕ} (hstable : Stable fact)
    (hfact : fact g)
    (hpart : ∀ userId ∈ userIds, TakesPart userId conversationId g.market.db) :
    (joinUsers (roomName conversationId) userIds).Meets
      (emitting since request) i (fun _ t => fact t) (fun _ _ => True) g := by
  induction userIds generalizing g with
  | nil => exact fun t ht _ => hstable.kept (GatewayRely.grows ht) hfact
  | cons userId rest ih =>
      rw [List.forall_mem_cons] at hpart
      have hrest : Stable fun g => ∀ userId ∈ rest,
          TakesPart userId conversationId g.market.db :=
        ⟨fun hgrows h other hother => (h other hother).grows hgrows.data⟩
      refine Program.Meets.seq _
        (joinUser_meets (hstable.and hrest) ⟨hfact, hpart.2⟩ hpart.1) ?_
      exact fun _ t ht => ih ht.1 ht.2

end Participants

theorem createConversation_meets {user participantId : ℕ}
    {productId : Option ℕ} (hsince : since <:+ g.market.history) :
    (createConversation user participantId productId).Meets
      (emitting since (.createConversation user participantId productId)) i
      (fun _ _ => True) (fun _ _ => True) g := by
  have hcreate : (getOrCreateConversation user participantId productId).Meets
      (acting (Request.getOrCreateConversation user participantId
        productId).rights) i
      (fun view t => SeenSince since user view t ∧ TakesPart user view.id t.db)
      (fun _ _ => True) g.market :=
    getOrCreateConversation_shows rfl (fun _ => id) hsince
  refine Program.Meets.seq _ (onMarket_meets stable_true trivial hcreate) ?_
  rintro view t ⟨⟨hseen, hpart⟩, -⟩
  dsimp only
  split
  case isFalse => exact done_keeps
  have hstable := stable_shows since
    (.createConversation user participantId productId) view
  have hshows : Shows since
      (.createConversation user participantId productId) view t :=
    ⟨user, rfl, hseen, hpart⟩
  have hparticipants : (getConversationParticipants view.id).Meets
      (acting ⟨none, []⟩) i
      (fun participants t => TakesPart participants.1 view.id t.db ∧
        TakesPart participants.2 view.id t.db) (fun _ _ => True) t.market :=
    getConversationParticipants_meets
  refine Program.Meets.seq _ (onMarket_meets hstable hshows hparticipants) ?_
  rintro ⟨userAId, userBId⟩ u ⟨hboth, hshows⟩
  have hstable := hstable.and ((stable_takesPart userAId view.id).and
    (stable_takesPart userBId view.id))
  refine Program.Meets.seq _
    (buildConversationJoinedPayload_meets hstable ⟨hshows, hboth⟩) ?_
  rintro payload v ⟨rfl, hshows, hboth⟩
  refine Program.Meets.seq (fun _ _ => True) ?_ fun _ _ _ => done_keeps
  refine Program.Meets.seq _ (joinUsers_meets (stable_shows since
    (.createConversation user participantId productId) view) hshows ?_) ?_
  · intro userId huserId
    rw [List.mem_eraseDups, List.mem_filterMap] at huserId
    obtain ⟨id, hid, hpositive⟩ := huserId
    simp only [List.mem_cons, List.not_mem_nil, or_false] at hid
    rcases hid with rfl | rfl
    · obtain ⟨-, hsame⟩ := Option.ite_none_right_eq_some.mp hpositive
      obtain rfl := Option.some.inj hsame
      exact hboth.1
    · obtain ⟨-, hsame⟩ := Option.ite_none_right_eq_some.mp hpositive
      obtain rfl := Option.some.inj hsame
      exact hboth.2
  · exact fun _ w hshows => emit_meets rfl
      (stable_shows since (.createConversation user participantId productId)
        view) hshows fun x hx _ => ⟨view, rfl, rfl, hx⟩

/-! ## The gateway -/

variable {app : GatewayDeployment}

theorem GatewayRequest.handler_meets (hfresh : GatewayFresh i g)
    (hsince : since <:+ g.market.history) :
    (request.handler app).Meets (emitting since request) i
      (fun _ _ => True) (fun _ _ => True) g := by
  cases request with
  | handleConnection handshake =>
      exact Program.Meets.seq _ (handleConnection_meets hfresh.sockets)
        fun _ _ _ => done_keeps
  | joinConversation client conversationId =>
      exact Program.Meets.seq _ (joinConversation_meets hsince)
        fun _ _ _ => done_keeps
  | sendMessage client conversationId text =>
      exact Program.Meets.seq _ (sendMessageEvent_meets hfresh.market)
        fun _ _ _ => done_keeps
  | markRead client messageId =>
      exact Program.Meets.seq _ markReadEvent_meets fun _ _ _ => done_keeps
  | createConversation user participantId productId =>
      exact Program.Meets.seq _ (createConversation_meets hsince)
        fun _ _ _ => done_keeps
  | http request =>
      have hhandler : (request.handler app.market).Meets
          (acting request.rights) i (fun _ _ => True) (fun _ _ => True)
          g.market :=
        (request.handler_meets hfresh.market).mono (fun _ _ _ => trivial)
          fun _ _ _ => trivial
      exact Program.Meets.seq _ (onMarket_meets stable_true trivial hhandler)
        fun _ _ _ => done_keeps

/-- Every action of every request is a step, however the requests
interleave. -/
theorem gateway_sound : (gateway app).SoundWithin gatewayDiscipline
    (fun _ => GatewayStep) GatewayFresh (fun _ _ => True)
    (fun _ _ _ _ => True) (fun _ _ _ _ => True) where
  handler_meets request _ _ _ hfresh :=
    (request.handler_meets hfresh (List.suffix_refl _)).within_mono Emits.step
  guarantee_fresh hne hguarantee := hguarantee.2.fresh hne hguarantee.1
  environment_fresh _ _ _ := Gateway.fresh_surroundings
  environment_rely event i g _ := g.rely_surroundings event i
  environment_invariant event _ hsound := Gateway.Sound.surroundings hsound event

theorem gateway_onCourse_opening (now : ℕ) :
    System.OnCourseWithin gatewayDiscipline (fun _ => GatewayStep) GatewayFresh
      (fun _ _ _ _ => True) (fun _ _ _ _ => True)
      (GatewayPool.opening now) := by
  refine .of_empty rfl (Gateway.sound_opening now) fun i => ?_
  exact ⟨⟨rfl, fun _ hevent => absurd hevent List.not_mem_nil⟩, rfl,
    fun _ hemission => absurd hemission List.not_mem_nil⟩

end MarketPlace.Trade
