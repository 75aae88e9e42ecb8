import MarketPlace.ChatGateway
import MarketPlace.ServiceOutlines

/-!
# What one action of a request can do to the gateway

Who is registered, who is authenticated and who is in a room after each of the
gateway's functions, and the steps that the actions of its handlers are.
-/

namespace MarketPlace.Trade

open Interleaving

namespace Gateway

variable {g : Gateway} {client other userId : ℕ} {user : WsUser}
  {room : String}

/-! ## The registry -/

/-- The socket is in the user's set. -/
def Registered (userId socket : ℕ) (g : Gateway) : Prop :=
  ∃ set, g.socketsByUserId userId = some set ∧ socket ∈ set.sockets

/-- No user maps to an empty set. -/
def NoEmptySet (g : Gateway) : Prop :=
  ∀ userId set, g.socketsByUserId userId = some set → set.sockets ≠ []

theorem registered_congr {g' : Gateway}
    (h : g'.socketsByUserId = g.socketsByUserId) {userId socket : ℕ} :
    g'.Registered userId socket ↔ g.Registered userId socket := by
  rw [Registered, Registered, h]

@[simp] theorem registered_record {line : ConnectionLog} {socket : ℕ} :
    (g.record line).Registered userId socket ↔ g.Registered userId socket :=
  registered_congr rfl

theorem registered_registerUserSocket {userId socket other otherSocket : ℕ} :
    (g.registerUserSocket userId socket).Registered other otherSocket ↔
      g.Registered other otherSocket ∨
        (other = userId ∧ otherSocket = socket) := by
  unfold registerUserSocket Registered
  by_cases hother : other = userId
  · subst hother
    cases hset : g.socketsByUserId other with
    | none => simp
    | some set =>
        by_cases hmem : socket ∈ set.sockets
        · simp only [hmem, if_true, Function.update_self, Option.some.injEq,
            exists_eq_left', true_and]
          constructor
          · exact .inl
          · rintro (hold | rfl)
            · exact hold
            · exact hmem
        · simp [hmem]
  · cases hset : g.socketsByUserId userId with
    | none => simp [hother]
    | some set => simp [hother]

theorem registered_unregisterUserSocket
    {userId socket other otherSocket : ℕ} :
    (g.unregisterUserSocket userId socket).Registered other otherSocket ↔
      g.Registered other otherSocket ∧
        ¬ (other = userId ∧ otherSocket = socket) := by
  unfold unregisterUserSocket Registered
  by_cases hother : other = userId
  · subst hother
    cases hset : g.socketsByUserId other with
    | none => simp [hset]
    | some set =>
        simp only [Function.update_self, true_and, Option.some.injEq,
          exists_eq_left']
        split
        · next hempty =>
            rw [List.filter_eq_nil_iff] at hempty
            simp only [reduceCtorEq, false_and, exists_false, false_iff,
              not_and, not_not]
            intro hmem
            simpa using hempty _ hmem
        · simp [List.mem_filter]
  · cases hset : g.socketsByUserId userId with
    | none => simp [hother]
    | some set => simp [hother]

theorem NoEmptySet.registerUserSocket (h : g.NoEmptySet)
    {userId socket : ℕ} : (g.registerUserSocket userId socket).NoEmptySet := by
  intro other otherSet hother
  unfold Gateway.registerUserSocket at hother
  by_cases heq : other = userId
  · subst heq
    cases hset : g.socketsByUserId other with
    | none =>
        simp only [hset, Function.update_self, Option.some.injEq] at hother
        simp [← hother]
    | some set =>
        simp only [hset, Function.update_self, Option.some.injEq] at hother
        have hnonempty := h other set hset
        subst hother
        dsimp only
        split
        · exact hnonempty
        · simp
  · cases hset : g.socketsByUserId userId with
    | none =>
        simp only [hset, Function.update_of_ne heq] at hother
        exact h other otherSet hother
    | some set =>
        simp only [hset, Function.update_of_ne heq] at hother
        exact h other otherSet hother

theorem NoEmptySet.unregisterUserSocket (h : g.NoEmptySet)
    {userId socket : ℕ} :
    (g.unregisterUserSocket userId socket).NoEmptySet := by
  intro other otherSet hother
  unfold Gateway.unregisterUserSocket at hother
  cases hset : g.socketsByUserId userId with
  | none =>
      rw [hset] at hother
      exact h other otherSet hother
  | some set =>
      by_cases heq : other = userId
      · subst heq
        simp only [hset, Function.update_self, Option.ite_none_left_eq_some,
          Option.some.injEq] at hother
        obtain ⟨hnonempty, rfl⟩ := hother
        exact hnonempty
      · simp only [hset, Function.update_of_ne heq] at hother
        exact h other otherSet hother

@[simp] theorem registerUserSocket_market {socket : ℕ} :
    (g.registerUserSocket userId socket).market = g.market := by
  unfold registerUserSocket
  split <;> rfl

@[simp] theorem registerUserSocket_sockets {socket : ℕ} :
    (g.registerUserSocket userId socket).sockets = g.sockets := by
  unfold registerUserSocket
  split <;> rfl

@[simp] theorem registerUserSocket_rooms {socket : ℕ} :
    (g.registerUserSocket userId socket).rooms = g.rooms := by
  unfold registerUserSocket
  split <;> rfl

@[simp] theorem registerUserSocket_emissions {socket : ℕ} :
    (g.registerUserSocket userId socket).emissions = g.emissions := by
  unfold registerUserSocket
  split <;> rfl

@[simp] theorem registerUserSocket_log {socket : ℕ} :
    (g.registerUserSocket userId socket).log = g.log := by
  unfold registerUserSocket
  split <;> rfl

@[simp] theorem unregisterUserSocket_market {socket : ℕ} :
    (g.unregisterUserSocket userId socket).market = g.market := by
  unfold unregisterUserSocket
  split <;> rfl

@[simp] theorem unregisterUserSocket_sockets {socket : ℕ} :
    (g.unregisterUserSocket userId socket).sockets = g.sockets := by
  unfold unregisterUserSocket
  split <;> rfl

@[simp] theorem unregisterUserSocket_rooms {socket : ℕ} :
    (g.unregisterUserSocket userId socket).rooms = g.rooms := by
  unfold unregisterUserSocket
  split <;> rfl

@[simp] theorem unregisterUserSocket_emissions {socket : ℕ} :
    (g.unregisterUserSocket userId socket).emissions = g.emissions := by
  unfold unregisterUserSocket
  split <;> rfl

@[simp] theorem unregisterUserSocket_log {socket : ℕ} :
    (g.unregisterUserSocket userId socket).log = g.log := by
  unfold unregisterUserSocket
  split <;> rfl

/-! ## Sockets -/

theorem userOf_congr {g' : Gateway} (h : g'.sockets = g.sockets) :
    g'.userOf client = g.userOf client := by
  rw [userOf, userOf, h]

theorem connected_congr {g' : Gateway} (h : g'.sockets = g.sockets) :
    g'.connected client = g.connected client := by
  rw [connected, connected, h]

theorem userOf_accept :
    (g.accept client).userOf other =
      if other = client then none else g.userOf other := by
  by_cases hother : other = client
  · simp [userOf, accept, hother]
  · simp [userOf, accept, hother]

theorem connected_accept :
    (g.accept client).connected other =
      if other = client then true else g.connected other := by
  by_cases hother : other = client
  · simp [connected, accept, hother]
  · simp [connected, accept, hother]

theorem handleDisconnect_eq :
    g.handleDisconnect client =
      (match g.userOf client with
        | some user => g.unregisterUserSocket user client
        | none => g).record
          (.clientDisconnected client (g.userOf client)) := by
  unfold handleDisconnect userOf
  cases (g.sockets client).bind ChatSocket.user <;> rfl

/-- The gateway once a socket that was connected has gone. -/
theorem disconnect_of_connected (h : g.connected client = true) :
    ∃ user, g.sockets client = some ⟨user, true⟩ ∧
      g.disconnect client = handleDisconnect client
        { g with
          sockets := Function.update g.sockets client (some ⟨user, false⟩)
          rooms := fun room =>
            (g.rooms room).filter fun other => other ≠ client } := by
  obtain ⟨⟨user, connected⟩, hsocket, htrue⟩ := (Option.any_eq_true _ _).mp h
  obtain rfl : connected = true := htrue
  refine ⟨user, hsocket, ?_⟩
  rw [disconnect, hsocket]

theorem disconnect_of_not_connected (h : g.connected client = false) :
    g.disconnect client = g := by
  unfold disconnect
  split
  · next user hsocket => simp [connected, hsocket] at h
  · rfl

@[simp] theorem handleDisconnect_market :
    (g.handleDisconnect client).market = g.market := by
  rw [handleDisconnect_eq]
  split <;> simp [record]

@[simp] theorem handleDisconnect_sockets :
    (g.handleDisconnect client).sockets = g.sockets := by
  rw [handleDisconnect_eq]
  split <;> simp [record]

@[simp] theorem handleDisconnect_rooms :
    (g.handleDisconnect client).rooms = g.rooms := by
  rw [handleDisconnect_eq]
  split <;> simp [record]

@[simp] theorem handleDisconnect_emissions :
    (g.handleDisconnect client).emissions = g.emissions := by
  rw [handleDisconnect_eq]
  split <;> simp [record]

@[simp] theorem handleDisconnect_log :
    (g.handleDisconnect client).log =
      .clientDisconnected client (g.userOf client) :: g.log := by
  rw [handleDisconnect_eq]
  split <;> simp [record]

theorem registered_handleDisconnect {socket : ℕ} :
    (g.handleDisconnect client).Registered userId socket ↔
      g.Registered userId socket ∧
        ¬ (g.userOf client = some userId ∧ socket = client) := by
  rw [handleDisconnect_eq, registered_record]
  cases huser : g.userOf client with
  | none => simp
  | some user =>
      rw [registered_unregisterUserSocket, Option.some.injEq,
        eq_comm (a := user)]

theorem NoEmptySet.handleDisconnect (h : g.NoEmptySet) :
    (g.handleDisconnect client).NoEmptySet := by
  rw [handleDisconnect_eq]
  split
  · exact h.unregisterUserSocket
  · exact h

/-! ## The end of a connection -/

@[simp] theorem disconnect_market :
    (g.disconnect client).market = g.market := by
  cases h : g.connected client with
  | false => rw [disconnect_of_not_connected h]
  | true =>
      obtain ⟨user, -, heq⟩ := disconnect_of_connected h
      rw [heq, handleDisconnect_market]

@[simp] theorem disconnect_emissions :
    (g.disconnect client).emissions = g.emissions := by
  cases h : g.connected client with
  | false => rw [disconnect_of_not_connected h]
  | true =>
      obtain ⟨user, -, heq⟩ := disconnect_of_connected h
      rw [heq, handleDisconnect_emissions]

@[simp] theorem userOf_disconnect :
    (g.disconnect client).userOf other = g.userOf other := by
  cases h : g.connected client with
  | false => rw [disconnect_of_not_connected h]
  | true =>
      obtain ⟨user, hsocket, heq⟩ := disconnect_of_connected h
      rw [heq, userOf_congr handleDisconnect_sockets]
      by_cases hother : other = client
      · simp [userOf, hother, hsocket]
      · simp [userOf, hother]

theorem sockets_disconnect (hother : other ≠ client) :
    (g.disconnect client).sockets other = g.sockets other := by
  cases h : g.connected client with
  | false => rw [disconnect_of_not_connected h]
  | true =>
      obtain ⟨user, -, heq⟩ := disconnect_of_connected h
      rw [heq, handleDisconnect_sockets]
      exact Function.update_of_ne hother _ _

theorem isSome_sockets_disconnect :
    ((g.disconnect client).sockets other).isSome =
      (g.sockets other).isSome := by
  cases h : g.connected client with
  | false => rw [disconnect_of_not_connected h]
  | true =>
      obtain ⟨user, hsocket, heq⟩ := disconnect_of_connected h
      rw [heq, handleDisconnect_sockets]
      by_cases hother : other = client
      · simp [hother, hsocket]
      · simp [hother]

theorem connected_disconnect :
    (g.disconnect client).connected other =
      (decide (other ≠ client) && g.connected other) := by
  cases h : g.connected client with
  | false =>
      rw [disconnect_of_not_connected h]
      by_cases hother : other = client
      · simp [hother, h]
      · simp [hother]
  | true =>
      obtain ⟨user, hsocket, heq⟩ := disconnect_of_connected h
      rw [heq, connected_congr handleDisconnect_sockets]
      by_cases hother : other = client
      · simp [connected, hother]
      · simp [connected, hother]

theorem rooms_disconnect_subset :
    (g.disconnect client).rooms room ⊆ g.rooms room := by
  cases h : g.connected client with
  | false =>
      rw [disconnect_of_not_connected h]
      exact List.Subset.refl _
  | true =>
      obtain ⟨user, -, heq⟩ := disconnect_of_connected h
      rw [heq, handleDisconnect_rooms]
      exact List.filter_subset_self _

theorem registered_disconnect {socket : ℕ} :
    (g.disconnect client).Registered userId socket ↔
      g.Registered userId socket ∧
        ¬ (g.connected client = true ∧ g.userOf client = some userId ∧
          socket = client) := by
  cases h : g.connected client with
  | false =>
      rw [disconnect_of_not_connected h]
      simp
  | true =>
      obtain ⟨user, hsocket, heq⟩ := disconnect_of_connected h
      have huser : ∀ g' : Gateway, g'.sockets =
          Function.update g.sockets client (some ⟨user, false⟩) →
          g'.userOf client = g.userOf client := by
        intro g' hsockets
        simp [userOf, hsockets, hsocket]
      rw [heq, registered_handleDisconnect, huser _ rfl]
      simp only [true_and]
      exact Iff.rfl

theorem NoEmptySet.disconnect (h : g.NoEmptySet) :
    (g.disconnect client).NoEmptySet := by
  cases hconnected : g.connected client with
  | false =>
      rw [disconnect_of_not_connected hconnected]
      exact h
  | true =>
      obtain ⟨user, -, heq⟩ := disconnect_of_connected hconnected
      rw [heq]
      exact NoEmptySet.handleDisconnect h

theorem log_disconnect :
    (g.disconnect client).log =
      if g.connected client = true then
        .clientDisconnected client (g.userOf client) :: g.log
      else g.log := by
  cases h : g.connected client with
  | false =>
      rw [disconnect_of_not_connected h]
      simp
  | true =>
      obtain ⟨user, hsocket, heq⟩ := disconnect_of_connected h
      rw [heq, handleDisconnect_log]
      simp [userOf, hsocket]

/-! ## The end of a verification -/

@[simp] theorem authenticate_market :
    (g.authenticate client user).market = g.market := by
  simp [authenticate, record]

@[simp] theorem authenticate_rooms :
    (g.authenticate client user).rooms = g.rooms := by
  simp [authenticate, record]

@[simp] theorem authenticate_emissions :
    (g.authenticate client user).emissions = g.emissions := by
  simp [authenticate, record]

@[simp] theorem authenticate_log :
    (g.authenticate client user).log =
      .clientConnected client user.sub :: g.log := by
  simp [authenticate, record]

theorem authenticate_sockets :
    (g.authenticate client user).sockets =
      Function.update g.sockets client
        (some ⟨some user, g.connected client⟩) := by
  simp [authenticate, record]

theorem userOf_authenticate :
    (g.authenticate client user).userOf other =
      if other = client then some user.sub else g.userOf other := by
  rw [userOf, authenticate_sockets]
  by_cases hother : other = client
  · simp [hother]
  · simp [hother, userOf]

theorem connected_authenticate :
    (g.authenticate client user).connected other = g.connected other := by
  rw [connected, authenticate_sockets]
  by_cases hother : other = client
  · simp [hother]
  · simp [hother, connected]

theorem registered_authenticate {socket : ℕ} :
    (g.authenticate client user).Registered userId socket ↔
      g.Registered userId socket ∨ (userId = user.sub ∧ socket = client) := by
  rw [authenticate, registered_record, registered_registerUserSocket]
  exact Iff.rfl

theorem NoEmptySet.authenticate (h : g.NoEmptySet) :
    (g.authenticate client user).NoEmptySet :=
  NoEmptySet.registerUserSocket
    (g := { g with
      sockets := Function.update g.sockets client
        (some ⟨some user, g.connected client⟩) }) h

@[simp] theorem turnAway_market :
    (g.turnAway client).market = g.market :=
  disconnect_market

@[simp] theorem turnAway_emissions :
    (g.turnAway client).emissions = g.emissions :=
  disconnect_emissions

@[simp] theorem userOf_turnAway :
    (g.turnAway client).userOf other = g.userOf other :=
  userOf_disconnect

theorem isSome_sockets_turnAway :
    ((g.turnAway client).sockets other).isSome = (g.sockets other).isSome :=
  isSome_sockets_disconnect

/-! ## Rooms -/

theorem mem_rooms_joinRoom {socket : ℕ} {name : String}
    (h : socket ∈ (g.joinRoom client name).rooms room) :
    socket ∈ g.rooms room ∨ (socket = client ∧ room = name) := by
  unfold joinRoom at h
  split at h
  · by_cases hroom : room = name
    · subst hroom
      simpa using h
    · exact .inl (by simpa [hroom] using h)
  · exact .inl h

@[simp] theorem joinRoom_market :
    (g.joinRoom client room).market = g.market := by
  unfold joinRoom
  split <;> rfl

@[simp] theorem joinRoom_sockets :
    (g.joinRoom client room).sockets = g.sockets := by
  unfold joinRoom
  split <;> rfl

@[simp] theorem joinRoom_socketsByUserId :
    (g.joinRoom client room).socketsByUserId = g.socketsByUserId := by
  unfold joinRoom
  split <;> rfl

@[simp] theorem joinRoom_emissions :
    (g.joinRoom client room).emissions = g.emissions := by
  unfold joinRoom
  split <;> rfl

@[simp] theorem joinRoom_log : (g.joinRoom client room).log = g.log := by
  unfold joinRoom
  split <;> rfl

end Gateway

/-! ## Steps -/

/-- The token of the socket has not been verified yet. -/
structure Gateway.Pending (client : ℕ) (g : Gateway) : Prop where
  accepted : (g.sockets client).isSome = true
  anonymous : g.userOf client = none

/-- One action of request `i`, with what it must know for it. -/
inductive GatewayStep (i : ℕ) (g : Gateway) : Gateway → Prop
  | traded (rights : Rights) (m : Market) (hacts : Acts rights i g.market m) :
      GatewayStep i g { g with market := m }
  | accepted (hnew : g.sockets i = none) : GatewayStep i g (g.accept i)
  | turnedAwayAtOnce (hnew : g.sockets i = none) :
      GatewayStep i g ((g.accept i).turnAway i)
  | turnedAway (hpending : g.Pending i) : GatewayStep i g (g.turnAway i)
  | authenticated (user : WsUser) (hpending : g.Pending i) :
      GatewayStep i g (g.authenticate i user)
  | joined (client user conversationId : ℕ)
      (huser : g.userOf client = some user)
      (hpart : TakesPart user conversationId g.market.db) :
      GatewayStep i g (g.joinRoom client (roomName conversationId))
  | emitted (event : ChatEvent) (payload : WsPayload) :
      GatewayStep i g
        (g.emit i event (roomName payload.conversationId) payload)

theorem GatewayStep.idle (i : ℕ) (g : Gateway) : GatewayStep i g g :=
  .traded ⟨none, []⟩ g.market (.inl rfl)

/-- A socket that has just been accepted is pending. -/
theorem Gateway.pending_accept (client : ℕ) (g : Gateway) :
    (g.accept client).Pending client where
  accepted := by simp [accept]
  anonymous := by simp [userOf_accept]

theorem Gateway.userOf_of_new {client : ℕ} {g : Gateway}
    (hnew : g.sockets client = none) : g.userOf client = none := by
  simp [userOf, hnew]

end MarketPlace.Trade
