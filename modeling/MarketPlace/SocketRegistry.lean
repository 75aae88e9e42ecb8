import MarketPlace.RoomMembership

/-!
# The registry after disconnections

`handleConnection` stores the user and registers the socket when its token has
been verified; `handleDisconnect` takes the socket out of the set of the user
it finds.  A client that goes while its token is being verified is registered
by the former after the latter has found no user, and stays in the user's set.
The registry is clean exactly as long as this has not happened.
-/

namespace MarketPlace.Trade

open Interleaving

/-! ## Clean registries -/

def Gateway.Disconnected (client : ℕ) (g : Gateway) : Prop :=
  ∃ user, g.sockets client = some ⟨user, false⟩

/-- Of a socket whose handlers have both finished no set is left, a connected
and authenticated socket is in exactly its own user's set, and no user maps to
an empty set. -/
structure RegistryClean (pool : GatewayPool) : Prop where
  gone : ∀ client thread, pool.threads[client]? = some thread →
    thread.body.ended = true → pool.state.Disconnected client →
      ∀ userId, ¬ pool.state.Registered userId client
  present : ∀ client userId, pool.state.connected client = true →
    pool.state.userOf client = some userId →
      ∀ other, pool.state.Registered other client ↔ other = userId
  noEmptySet : pool.state.NoEmptySet

/-- The verification of the socket's token succeeded after the client had
gone. -/
def LateVerified (client : ℕ) (log : List ConnectionLog) : Prop :=
  ∃ user userId past, .clientConnected client user :: past <:+ log ∧
    .clientDisconnected client userId ∈ past

/-- No client has gone before the verification of its token succeeded. -/
def VerifiedInTime (log : List ConnectionLog) : Prop :=
  ∀ client, ¬ LateVerified client log

theorem not_lateVerified_nil {client : ℕ} : ¬ LateVerified client [] := by
  rintro ⟨user, userId, past, hsuffix, -⟩
  simpa using List.IsSuffix.length_le hsuffix

theorem lateVerified_cons {client : ℕ} {line : ConnectionLog}
    {log : List ConnectionLog} :
    LateVerified client (line :: log) ↔
      (∃ user userId, line = .clientConnected client user ∧
        .clientDisconnected client userId ∈ log) ∨
      LateVerified client log := by
  constructor
  · rintro ⟨user, userId, past, hsuffix, hgone⟩
    rcases List.suffix_cons_iff.mp hsuffix with hall | hrest
    · obtain ⟨rfl, rfl⟩ := List.cons.inj hall
      exact .inl ⟨user, userId, rfl, hgone⟩
    · exact .inr ⟨user, userId, past, hrest, hgone⟩
  · rintro (⟨user, userId, rfl, hgone⟩ | ⟨user, userId, past, hsuffix, hgone⟩)
    · exact ⟨user, userId, log, List.suffix_refl _, hgone⟩
    · exact ⟨user, userId, past, hsuffix.trans (List.suffix_cons _ _), hgone⟩

theorem lateVerified_cons_of_ne {client : ℕ} {line : ConnectionLog}
    {log : List ConnectionLog}
    (hline : ∀ user, line ≠ .clientConnected client user) :
    LateVerified client (line :: log) ↔ LateVerified client log := by
  rw [lateVerified_cons, or_iff_right]
  rintro ⟨user, -, heq, -⟩
  exact hline user heq

/-! ## What the log says of the registry -/

/-- The log determines who is authenticated, who has gone and, with the
connections, who is registered. -/
structure Tracked (g : Gateway) : Prop where
  authenticated : ∀ client userId, g.userOf client = some userId ↔
    .clientConnected client userId ∈ g.log
  gone : ∀ client, g.Disconnected client ↔
    ∃ userId, .clientDisconnected client userId ∈ g.log
  registered : ∀ client userId, g.Registered userId client ↔
    g.userOf client = some userId ∧
      (g.connected client = true ∨ LateVerified client g.log)
  noEmptySet : g.NoEmptySet

theorem tracked_opening (now : ℕ) : Tracked (.opening now) where
  authenticated client userId := by
    simp [Gateway.opening, Gateway.userOf]
  gone client := by
    simp [Gateway.opening, Gateway.Disconnected]
  registered client userId := by
    simp [Gateway.opening, Gateway.userOf, Gateway.Registered]
  noEmptySet userId set h := nomatch h

section Tracked

variable {g g' : Gateway} {client : ℕ}

theorem Gateway.Disconnected.not_connected (h : g.Disconnected client) :
    g.connected client = false := by
  obtain ⟨user, hsocket⟩ := h
  simp [connected, hsocket]

theorem Gateway.disconnected_of_not_connected
    (haccepted : (g.sockets client).isSome = true)
    (h : g.connected client = false) : g.Disconnected client := by
  obtain ⟨⟨user, isConnected⟩, hsocket⟩ :=
    Option.isSome_iff_exists.mp haccepted
  simp only [connected, hsocket, Option.any_some] at h
  subst h
  exact ⟨user, hsocket⟩

theorem Gateway.disconnected_congr
    (h : g'.sockets client = g.sockets client) :
    g'.Disconnected client ↔ g.Disconnected client := by
  rw [Disconnected, Disconnected, h]

theorem Tracked.congr (h : Tracked g) (hsockets : g'.sockets = g.sockets)
    (hregistry : g'.socketsByUserId = g.socketsByUserId)
    (hlog : g'.log = g.log) : Tracked g' where
  authenticated client userId := by
    rw [Gateway.userOf_congr hsockets, hlog]
    exact h.authenticated client userId
  gone client := by
    rw [Gateway.disconnected_congr (congrFun hsockets client), hlog]
    exact h.gone client
  registered client userId := by
    rw [Gateway.registered_congr hregistry, Gateway.userOf_congr hsockets,
      Gateway.connected_congr hsockets, hlog]
    exact h.registered client userId
  noEmptySet userId set hset := h.noEmptySet userId set (hregistry ▸ hset)

theorem Tracked.authFailed (h : Tracked g) :
    Tracked (g.record (.authFailed client)) where
  authenticated other userId := by
    refine (h.authenticated other userId).trans ?_
    simp [Gateway.record]
  gone other := by
    refine (h.gone other).trans ?_
    simp [Gateway.record]
  registered other userId := by
    rw [Gateway.registered_record, h.registered, Gateway.record,
      lateVerified_cons_of_ne (by simp)]
    exact Iff.rfl
  noEmptySet := h.noEmptySet

theorem Tracked.accept (h : Tracked g) (hnew : g.sockets client = none) :
    Tracked (g.accept client) := by
  have huser : ∀ other, (g.accept client).userOf other = g.userOf other := by
    intro other
    rw [Gateway.userOf_accept]
    split
    · next hother => rw [hother, Gateway.userOf_of_new hnew]
    · rfl
  constructor
  case authenticated =>
    intro other userId
    rw [huser]
    exact h.authenticated other userId
  case gone =>
    intro other
    refine Iff.trans ?_ (h.gone other)
    by_cases hother : other = client
    · subst hother
      simp [Gateway.Disconnected, Gateway.accept, hnew]
    · exact Gateway.disconnected_congr (by simp [Gateway.accept, hother])
  case registered =>
    intro other userId
    have hregistered : (g.accept client).Registered userId other ↔
        g.Registered userId other := Iff.rfl
    rw [hregistered, huser, h.registered, Gateway.connected_accept]
    by_cases hother : other = client
    · simp [hother, Gateway.userOf_of_new hnew]
    · rw [if_neg hother]
      exact Iff.rfl
  case noEmptySet => exact h.noEmptySet

theorem Tracked.disconnect (h : Tracked g) (client : ℕ) :
    Tracked (g.disconnect client) := by
  by_cases hconnected : g.connected client = true
  case neg =>
    rw [Gateway.disconnect_of_not_connected (by simpa using hconnected)]
    exact h
  have hlog : (g.disconnect client).log =
      .clientDisconnected client (g.userOf client) :: g.log := by
    rw [Gateway.log_disconnect, if_pos hconnected]
  constructor
  case authenticated =>
    intro other userId
    rw [Gateway.userOf_disconnect, hlog, h.authenticated]
    simp
  case gone =>
    intro other
    rw [hlog]
    by_cases hother : other = client
    · subst hother
      have hgone : (g.disconnect other).Disconnected other := by
        refine Gateway.disconnected_of_not_connected ?_ ?_
        · rw [Gateway.isSome_sockets_disconnect]
          exact Option.isSome_of_any hconnected
        · simp [Gateway.connected_disconnect]
      exact iff_of_true hgone ⟨_, List.mem_cons_self⟩
    · rw [Gateway.disconnected_congr (Gateway.sockets_disconnect hother),
        h.gone]
      simp [hother]
  case registered =>
    intro other userId
    rw [Gateway.registered_disconnect, Gateway.userOf_disconnect,
      Gateway.connected_disconnect, hlog, lateVerified_cons_of_ne (by simp),
      h.registered]
    by_cases hother : other = client
    · subst hother
      -- A socket that is still connected has not been verified late.
      have hnotLate : ¬ LateVerified other g.log := by
        rintro ⟨user, goneUser, past, hsuffix, hmem⟩
        have hgone := (h.gone other).mpr
          ⟨goneUser, hsuffix.subset (List.mem_cons_of_mem _ hmem)⟩
        rw [hgone.not_connected] at hconnected
        contradiction
      simp [hconnected, hnotLate]
    · simp [hother]
  case noEmptySet => exact h.noEmptySet.disconnect

theorem Tracked.turnAway (h : Tracked g) (client : ℕ) :
    Tracked (g.turnAway client) :=
  h.authFailed.disconnect client

theorem Tracked.authenticate (h : Tracked g) (hpending : g.Pending client)
    (user : WsUser) : Tracked (g.authenticate client user) := by
  constructor
  case authenticated =>
    intro other userId
    rw [Gateway.userOf_authenticate, Gateway.authenticate_log]
    by_cases hother : other = client
    · subst hother
      have hold : .clientConnected other userId ∉ g.log := fun hmem => by
        have huser := (h.authenticated other userId).mpr hmem
        rw [hpending.anonymous] at huser
        contradiction
      simp [hold, eq_comm]
    · rw [if_neg hother, h.authenticated]
      simp [hother]
  case gone =>
    intro other
    rw [Gateway.authenticate_log]
    refine Iff.trans ?_ ((h.gone other).trans (by simp))
    by_cases hother : other = client
    · subst hother
      obtain ⟨⟨anonymous, isConnected⟩, hsocket⟩ :=
        Option.isSome_iff_exists.mp hpending.accepted
      simp [Gateway.Disconnected, Gateway.authenticate_sockets, hsocket,
        Gateway.connected]
    · exact Gateway.disconnected_congr
        (by simp [Gateway.authenticate_sockets, hother])
  case registered =>
    intro other userId
    rw [Gateway.registered_authenticate, Gateway.userOf_authenticate,
      Gateway.connected_authenticate, Gateway.authenticate_log, h.registered,
      lateVerified_cons]
    by_cases hother : other = client
    · subst hother
      -- Either the socket is connected or its handler is late.
      have heither : g.connected other = true ∨
          ∃ goneUser, .clientDisconnected other goneUser ∈ g.log := by
        cases hconnected : g.connected other with
        | true => exact .inl rfl
        | false => exact .inr ((h.gone other).mp
            (Gateway.disconnected_of_not_connected hpending.accepted
              hconnected))
      rw [hpending.anonymous]
      simp only [reduceCtorEq, false_and, and_true, false_or, if_true,
        Option.some.injEq]
      constructor
      · rintro rfl
        refine ⟨rfl, ?_⟩
        rcases heither with hconnected | ⟨goneUser, hgone⟩
        · exact .inl hconnected
        · exact .inr (.inl ⟨user.sub, goneUser, rfl, hgone⟩)
      · exact fun hboth => hboth.1.symm
    · have hclient : ¬ client = other := fun heq => hother heq.symm
      simp [hother, hclient]
  case noEmptySet => exact h.noEmptySet.authenticate

theorem GatewayStep.tracked {i : ℕ} (hstep : GatewayStep i g g')
    (h : Tracked g) : Tracked g' := by
  cases hstep with
  | traded rights m hacts => exact h.congr rfl rfl rfl
  | accepted hnew => exact h.accept hnew
  | turnedAwayAtOnce hnew => exact (h.accept hnew).turnAway i
  | turnedAway hpending => exact h.turnAway i
  | authenticated user hpending => exact h.authenticate hpending user
  | joined client user conversationId huser hpart =>
      exact h.congr Gateway.joinRoom_sockets Gateway.joinRoom_socketsByUserId
        Gateway.joinRoom_log
  | emitted event payload => exact h.congr rfl rfl rfl

theorem Tracked.surroundings (h : Tracked g) (event : GatewaySurroundings) :
    Tracked (g.surroundings event) := by
  cases event with
  | disconnects client => exact h.disconnect client
  | elsewhere event => exact h.congr rfl rfl rfl

end Tracked

/-! ## The verification ends the handler -/

def Authenticated (client : ℕ) (g : Gateway) : Prop := g.userOf client ≠ none

section Handlers

variable {α : Type}

theorem unmarked_update {change : ℕ → GatewayDraw → Gateway → Gateway}
    (h : ∀ i d g, (change i d g).userOf i = g.userOf i) :
    (update change).Unmarked Authenticated := by
  refine ⟨fun i d g result t hrun hbefore hafter => ?_, fun _ => trivial⟩
  simp only [Option.some.injEq, Prod.mk.injEq] at hrun
  obtain ⟨-, rfl⟩ := hrun
  rw [Authenticated, h] at hafter
  exact hbefore hafter

theorem unmarked_onMarket (operation : Operation α) :
    (onMarket operation).Unmarked Authenticated :=
  Program.unmarked_onPart (fun _ _ _ h => h) operation

theorem unmarked_getUser (client : ℕ) :
    (getUser client).Unmarked Authenticated := by
  refine ⟨fun i d g result t hrun hbefore => ?_, fun user => ?_⟩
  · simp only [Option.some.injEq, Prod.mk.injEq] at hrun
    obtain ⟨-, rfl⟩ := hrun
    exact hbefore
  · cases user <;> trivial

theorem unmarked_join (client : ℕ) (room : String) :
    (join client room).Unmarked Authenticated :=
  unmarked_update fun _ _ _ => Gateway.userOf_congr Gateway.joinRoom_sockets

theorem unmarked_emit (event : ChatEvent) (room : String)
    (payload : WsPayload) : (emit event room payload).Unmarked Authenticated :=
  unmarked_update fun _ _ _ => rfl

theorem unmarked_joinSockets (room : String) (userId created turns : ℕ)
    (visited : List ℕ) :
    (joinSockets room userId created turns visited).Unmarked
      Authenticated := by
  induction turns generalizing visited with
  | zero => exact ⟨fun _ _ _ _ _ hrun => (nomatch hrun), fun _ => trivial⟩
  | succ turns ih =>
      refine ⟨fun i d g result t hrun hbefore hafter => ?_, fun result => ?_⟩
      · dsimp only at hrun
        split at hrun
        · simp only [Option.some.injEq, Prod.mk.injEq] at hrun
          obtain ⟨-, rfl⟩ := hrun
          exact hbefore hafter
        · simp only [Option.some.injEq, Prod.mk.injEq] at hrun
          obtain ⟨-, rfl⟩ := hrun
          rw [Authenticated, Gateway.userOf_congr Gateway.joinRoom_sockets]
            at hafter
          exact hbefore hafter
      · cases result with
        | none => trivial
        | some socket => exact ih _

theorem unmarked_joinUsers (room : String) (userIds : List ℕ) :
    (joinUsers room userIds).Unmarked Authenticated := by
  induction userIds with
  | nil => trivial
  | cons userId rest ih =>
      refine Program.Unmarked.bind ?_ fun _ => ih
      refine ⟨fun i d g result t hrun hbefore => ?_, ?_⟩
      · simp only [Option.some.injEq, Prod.mk.injEq] at hrun
        obtain ⟨-, rfl⟩ := hrun
        exact hbefore
      · rintro ⟨created, turns⟩
        cases created with
        | none => trivial
        | some created => exact unmarked_joinSockets _ _ _ _ _

theorem unmarked_buildConversationJoinedPayload (view : ConversationView) :
    (buildConversationJoinedPayload view).Unmarked Authenticated :=
  (unmarked_onMarket _).bind fun _ => trivial

variable {app : GatewayDeployment}

/-- Whoever a handler authenticates, it does so with its last action. -/
theorem GatewayRequest.marksLast (request : GatewayRequest) :
    (request.handler app).MarksLast Authenticated := by
  cases request with
  | handleConnection handshake =>
      simp only [handler, Trade.handleConnection]
      cases extractToken handshake with
      | none =>
          refine ⟨fun i d g result t hrun _ hafter => ?_, fun _ => trivial⟩
          simp only [Option.some.injEq, Prod.mk.injEq] at hrun
          obtain ⟨-, rfl⟩ := hrun
          simp [Authenticated, Gateway.userOf_accept] at hafter
      | some token =>
          refine ⟨fun i d g result t hrun _ hafter => ?_,
            fun _ => ⟨fun _ _ _ _ _ _ _ _ => rfl, fun _ => trivial⟩⟩
          simp only [Option.some.injEq, Prod.mk.injEq] at hrun
          obtain ⟨-, rfl⟩ := hrun
          simp [Authenticated, Gateway.userOf_accept] at hafter
  | joinConversation client conversationId =>
      refine Program.Unmarked.marksLast (Program.Unmarked.bind ?_
        fun _ => trivial)
      refine (unmarked_getUser client).bind fun user => ?_
      refine (unmarked_onMarket _).bind fun _ => ?_
      refine (unmarked_onMarket _).bind fun view => ?_
      refine (unmarked_buildConversationJoinedPayload view).bind
        fun payload => ?_
      refine (unmarked_join _ _).bind fun _ => ?_
      exact (unmarked_emit _ _ _).bind fun _ => trivial
  | sendMessage client conversationId text =>
      refine Program.Unmarked.marksLast (Program.Unmarked.bind ?_
        fun _ => trivial)
      refine (unmarked_getUser client).bind fun user => ?_
      refine (unmarked_onMarket _).bind fun _ => ?_
      refine (unmarked_onMarket _).bind fun view => ?_
      refine (unmarked_join _ _).bind fun _ => ?_
      exact (unmarked_emit _ _ _).bind fun _ => trivial
  | markRead client messageId =>
      refine Program.Unmarked.marksLast (Program.Unmarked.bind ?_
        fun _ => trivial)
      refine (unmarked_getUser client).bind fun user => ?_
      refine (unmarked_onMarket _).bind fun _ => ?_
      refine (unmarked_onMarket _).bind fun view => ?_
      refine (unmarked_join _ _).bind fun _ => ?_
      exact (unmarked_emit _ _ _).bind fun _ => trivial
  | createConversation user participantId productId =>
      refine Program.Unmarked.marksLast (Program.Unmarked.bind ?_
        fun _ => trivial)
      refine (unmarked_onMarket _).bind fun view => ?_
      dsimp only
      split
      · refine (unmarked_onMarket _).bind fun participants => ?_
        refine (unmarked_buildConversationJoinedPayload view).bind
          fun payload => ?_
        refine Program.Unmarked.bind ?_ fun _ => trivial
        exact (unmarked_joinUsers _ _).bind fun _ => unmarked_emit _ _ _
      · trivial
  | http request =>
      refine Program.Unmarked.marksLast (Program.Unmarked.bind ?_
        fun _ => trivial)
      exact unmarked_onMarket _

end Handlers

/-! ## Runs -/

variable {app : GatewayDeployment} {now : ℕ} {pool : GatewayPool}

theorem tracked_of_reaches
    (hreach : (gateway app).Reaches (fun _ _ => True)
      (GatewayPool.opening now) pool) : Tracked pool.state :=
  hreach.furtherWithin gateway_sound (gateway_onCourse_opening now) Tracked
    (tracked_opening now) (fun hstep _ h => hstep.tracked h)
    fun event _ _ h => h.surroundings event

/-- The handler of an authenticated socket has finished. -/
theorem ended_of_authenticated
    (hreach : (gateway app).Reaches (fun _ _ => True)
      (GatewayPool.opening now) pool)
    {client userId : ℕ} (huser : pool.state.userOf client = some userId) :
    ∃ thread, pool.threads[client]? = some thread ∧
      thread.body.ended = true := by
  have hmark : Authenticated client pool.state := by
    rw [Authenticated, huser]
    simp
  refine (hreach.ended_of_mark gateway_sound (gateway_onCourse_opening now) rfl
    Authenticated ?_ GatewayRequest.marksLast ?_ ?_).1 client hmark
  · intro i hi
    exact hi rfl
  · intro i j g g' hne hguarantee hafter
    have hown := (GatewayStep.rely hne hguarantee.1 hguarantee.2).own
    rwa [Authenticated, ← hown]
  · intro event j g hafter
    rwa [Authenticated, ← (g.rely_surroundings event j).own]

/-- The registry is clean in exactly those states in which no verification has
succeeded after its client had gone. -/
theorem registry_clean_iff
    (hreach : (gateway app).Reaches (fun _ _ => True)
      (GatewayPool.opening now) pool) :
    RegistryClean pool ↔ VerifiedInTime pool.state.log := by
  have htracked := tracked_of_reaches hreach
  constructor
  · intro hclean client hlate
    obtain ⟨userId, goneUser, past, hsuffix, hmem⟩ := id hlate
    have huser : pool.state.userOf client = some userId :=
      (htracked.authenticated client userId).mpr
        (hsuffix.subset List.mem_cons_self)
    have hgone : pool.state.Disconnected client :=
      (htracked.gone client).mpr
        ⟨goneUser, hsuffix.subset (List.mem_cons_of_mem _ hmem)⟩
    obtain ⟨thread, hthread, hended⟩ := ended_of_authenticated hreach huser
    exact hclean.gone client thread hthread hended hgone userId
      ((htracked.registered client userId).mpr ⟨huser, .inr hlate⟩)
  · intro hintime
    constructor
    case gone =>
      intro client thread _ _ hgone userId hregistered
      rcases ((htracked.registered client userId).mp hregistered).2 with
        hconnected | hlate
      · rw [hgone.not_connected] at hconnected
        contradiction
      · exact hintime client hlate
    case present =>
      intro client userId hconnected huser other
      rw [htracked.registered, huser, Option.some.injEq]
      constructor
      · exact fun hboth => hboth.1.symm
      · exact fun heq => ⟨heq.symm, .inl hconnected⟩
    case noEmptySet => exact htracked.noEmptySet

/-- Both clients connect; the second one goes and comes back with a new
socket. -/
def reconnects : List GatewayMove :=
  connectBoth ++ [.environment (.disconnects 2)] ++
    performs 3 2 (.handleConnection ⟨none, some "bearer two"⟩)

theorem registry_clean_iff_reconnected :
    ∃ pool, (gateway sampleGateway).Reaches (fun _ _ => True)
        (GatewayPool.opening 0) pool ∧
      pool.state.Disconnected 2 ∧ pool.state.Registered 1 1 ∧
      pool.state.Registered 2 3 ∧ RegistryClean pool := by
  obtain ⟨pool, hreach, hcheck⟩ := System.exists_reaches_of_run
    (show ((gateway sampleGateway).run reconnects
      (GatewayPool.opening 0)).any
      (fun pool => decide (pool.state.log =
          [.clientConnected 3 2, .clientDisconnected 2 (some 2),
            .clientConnected 2 2, .clientConnected 1 1]) &&
        decide (pool.state.connected 1 = true) &&
        decide (pool.state.connected 3 = true)) = true by decide +kernel)
  simp only [Bool.and_eq_true, decide_eq_true_eq] at hcheck
  obtain ⟨⟨hlog, hfirst⟩, hthird⟩ := hcheck
  have htracked := tracked_of_reaches hreach
  refine ⟨pool, hreach, (htracked.gone 2).mpr ⟨some 2, by simp [hlog]⟩,
    (htracked.registered 1 1).mpr ⟨?_, .inl hfirst⟩,
    (htracked.registered 3 2).mpr ⟨?_, .inl hthird⟩,
    (registry_clean_iff hreach).mpr fun client => ?_⟩
  · rw [htracked.authenticated, hlog]
    simp
  · rw [htracked.authenticated, hlog]
    simp
  · rw [hlog]
    have hother : 3 = client → ¬ client = 2 := by omega
    simpa [lateVerified_cons, not_lateVerified_nil] using hother

/-- A client goes while its token is being verified. -/
def goesTooEarly : List GatewayMove :=
  [.submit (.handleConnection ⟨some "Bearer one", none⟩),
    .advance 0 gatewayDraw, .environment (.disconnects 0),
    .advance 0 gatewayDraw]

theorem not_always_registry_clean :
    ¬ ∀ pool, (gateway sampleGateway).Reaches (fun _ _ => True)
        (GatewayPool.opening 0) pool → RegistryClean pool := by
  intro halways
  obtain ⟨pool, hreach, hcheck⟩ := System.exists_reaches_of_run
    (show ((gateway sampleGateway).run goesTooEarly
      (GatewayPool.opening 0)).any
      (fun pool => decide (pool.state.log =
        [.clientConnected 0 1, .clientDisconnected 0 none])) = true by
      decide +kernel)
  have hlog := of_decide_eq_true hcheck
  have htracked := tracked_of_reaches hreach
  have huser : pool.state.userOf 0 = some 1 := by
    rw [htracked.authenticated, hlog]
    simp
  have hgone : pool.state.Disconnected 0 := by
    rw [htracked.gone, hlog]
    simp
  have hlate : LateVerified 0 pool.state.log := by
    rw [hlog]
    exact ⟨1, none, _, List.suffix_refl _, by simp⟩
  obtain ⟨thread, hthread, hended⟩ := ended_of_authenticated hreach huser
  exact (halways pool hreach).gone 0 thread hthread hended hgone 1
    ((htracked.registered 0 1).mpr ⟨huser, .inr hlate⟩)

end MarketPlace.Trade
