import MarketPlace.GatewaySteps

/-!
# What the gateway's requests rely on

The invariant of the gateway between any two actions: what the registry, the
rooms and the emissions say of users is true.  A user once authenticated stays
the user of the socket, and a conversation keeps its two participants.
-/

namespace MarketPlace.Trade

open Interleaving

/-! ## What every step keeps -/

theorem Rely.of_eq {i : ℕ} {m m' : Market} (h : m' = m) : Rely i m m' :=
  h ▸ Rely.refl i m'

structure Gateway.Grows (g g' : Gateway) : Prop where
  users : ∀ client user, g.userOf client = some user →
    g'.userOf client = some user
  data : g.market.db.Grows g'.market.db
  history : g.market.history <:+ g'.market.history
  opened : g'.market.opened = g.market.opened

theorem Gateway.Grows.refl (g : Gateway) : g.Grows g :=
  ⟨fun _ _ => id, Database.Grows.refl _, List.suffix_refl _, rfl⟩

theorem Gateway.Grows.trans {g g' g'' : Gateway} (h : g.Grows g')
    (h' : g'.Grows g'') : g.Grows g'' :=
  ⟨fun client user huser => h'.users client user (h.users client user huser),
    h.data.trans h'.data, h.history.trans h'.history,
    h'.opened.trans h.opened⟩

/-- What others leave alone in the market grows, if users stay. -/
theorem Gateway.Grows.of_rely {i : ℕ} {g g' : Gateway}
    (hmarket : Rely i g.market g'.market)
    (husers : ∀ client user, g.userOf client = some user →
      g'.userOf client = some user) : g.Grows g' :=
  ⟨husers, hmarket.grows, hmarket.history, hmarket.opened⟩

/-- A step that leaves the market and the users of sockets alone. -/
theorem Gateway.Grows.of_eq {g g' : Gateway} (hmarket : g'.market = g.market)
    (husers : ∀ client, g'.userOf client = g.userOf client) : g.Grows g' :=
  .of_rely (Rely.of_eq (i := 0) hmarket) fun client _ huser =>
    (husers client).trans huser

theorem Gateway.grows_disconnect (client : ℕ) (g : Gateway) :
    g.Grows (g.disconnect client) :=
  .of_eq disconnect_market fun _ => userOf_disconnect

theorem Gateway.grows_accept {client : ℕ} {g : Gateway}
    (hnew : g.sockets client = none) : g.Grows (g.accept client) := by
  refine .of_eq rfl fun other => ?_
  rw [userOf_accept]
  split
  · next hother => rw [hother, userOf_of_new hnew]
  · rfl

theorem Gateway.grows_turnAway (client : ℕ) (g : Gateway) :
    g.Grows (g.turnAway client) :=
  .of_eq turnAway_market fun _ => userOf_turnAway

theorem Gateway.grows_authenticate {client : ℕ} {user : WsUser} {g : Gateway}
    (hpending : g.Pending client) : g.Grows (g.authenticate client user) := by
  refine .of_rely (Rely.of_eq (i := 0) authenticate_market) ?_
  intro other otherUser huser
  rw [userOf_authenticate]
  split
  · next hother =>
      rw [hother, hpending.anonymous] at huser
      contradiction
  · exact huser

/-- The socket is authenticated as a participant of the conversation. -/
def Gateway.Participates (client conversationId : ℕ) (g : Gateway) : Prop :=
  ∃ user, g.userOf client = some user ∧
    TakesPart user conversationId g.market.db

theorem Gateway.Participates.mono {client conversationId : ℕ} {g g' : Gateway}
    (h : g.Participates client conversationId) (hgrows : g.Grows g') :
    g'.Participates client conversationId := by
  obtain ⟨user, huser, hpart⟩ := h
  exact ⟨user, hgrows.users client user huser, hpart.grows hgrows.data⟩

/-! ## The invariant -/

structure Gateway.Sound (g : Gateway) : Prop where
  market : g.market.Sound
  registry : ∀ userId socket, g.Registered userId socket →
    g.userOf socket = some userId
  rooms : ∀ conversationId, ∀ socket ∈ g.rooms (roomName conversationId),
    g.Participates socket conversationId
  emissions : ∀ emission ∈ g.emissions,
    emission.room = roomName emission.payload.conversationId ∧
      ∀ socket ∈ emission.receivers,
        g.Participates socket emission.payload.conversationId

theorem Gateway.sound_opening (now : ℕ) : (opening now).Sound where
  market := Market.sound_opening (Database.within_empty _)
    Database.linked_empty
  registry userId socket h := by
    obtain ⟨set, hset, -⟩ := h
    contradiction
  rooms _ socket hsocket := absurd hsocket List.not_mem_nil
  emissions _ hemission := absurd hemission List.not_mem_nil

section Kept

variable {g g' : Gateway}

/-- What is true of users stays true, so it is enough to look at what is new
in the registry, the rooms and the emissions. -/
theorem Gateway.Sound.kept (h : g.Sound) (hgrows : g.Grows g')
    (hmarket : g'.market.Sound)
    (hregistry : ∀ userId socket, g'.Registered userId socket →
      g.Registered userId socket ∨ g'.userOf socket = some userId)
    (hrooms : ∀ conversationId, ∀ socket ∈ g'.rooms (roomName conversationId),
      socket ∈ g.rooms (roomName conversationId) ∨
        g'.Participates socket conversationId)
    (hemissions : ∀ emission ∈ g'.emissions, emission ∈ g.emissions ∨
      emission.room = roomName emission.payload.conversationId ∧
        emission.receivers = g.rooms emission.room) :
    g'.Sound where
  market := hmarket
  registry userId socket hregistered := by
    rcases hregistry userId socket hregistered with hold | hnew
    · exact hgrows.users _ _ (h.registry userId socket hold)
    · exact hnew
  rooms conversationId socket hsocket := by
    rcases hrooms conversationId socket hsocket with hold | hnew
    · exact (h.rooms conversationId socket hold).mono hgrows
    · exact hnew
  emissions emission hemission := by
    rcases hemissions emission hemission with hold | ⟨hroom, hreceivers⟩
    · obtain ⟨hroom, hparticipates⟩ := h.emissions emission hold
      exact ⟨hroom,
        fun socket hsocket => (hparticipates socket hsocket).mono hgrows⟩
    · refine ⟨hroom, fun socket hsocket => ?_⟩
      rw [hreceivers, hroom] at hsocket
      exact (h.rooms _ socket hsocket).mono hgrows

theorem Gateway.Sound.disconnect (h : g.Sound) (client : ℕ) :
    (g.disconnect client).Sound := by
  refine h.kept (grows_disconnect client g) ?_ ?_ ?_ ?_
  · rw [disconnect_market]
    exact h.market
  · intro userId socket hregistered
    exact .inl (registered_disconnect.mp hregistered).1
  · intro conversationId socket hsocket
    exact .inl (rooms_disconnect_subset hsocket)
  · intro emission hemission
    rw [disconnect_emissions] at hemission
    exact .inl hemission

theorem Gateway.Sound.record (h : g.Sound) (line : ConnectionLog) :
    (g.record line).Sound :=
  ⟨h.market, h.registry, h.rooms, h.emissions⟩

theorem Gateway.Sound.turnAway (h : g.Sound) (client : ℕ) :
    (g.turnAway client).Sound :=
  (h.record _).disconnect client

theorem Gateway.Sound.accept {client : ℕ} (h : g.Sound)
    (hnew : g.sockets client = none) : (g.accept client).Sound :=
  h.kept (grows_accept hnew) h.market (fun _ _ => .inl)
    (fun _ _ => .inl) fun _ => .inl

theorem Gateway.Sound.authenticate {client : ℕ} (h : g.Sound)
    (hpending : g.Pending client) (user : WsUser) :
    (g.authenticate client user).Sound := by
  refine h.kept (grows_authenticate hpending) ?_ ?_ ?_ ?_
  · rw [authenticate_market]
    exact h.market
  · intro userId socket hregistered
    rcases registered_authenticate.mp hregistered with hold | ⟨rfl, rfl⟩
    · exact .inl hold
    · exact .inr (by simp [userOf_authenticate])
  · intro conversationId socket hsocket
    rw [authenticate_rooms] at hsocket
    exact .inl hsocket
  · intro emission hemission
    rw [authenticate_emissions] at hemission
    exact .inl hemission

theorem Gateway.grows_joinRoom (client : ℕ) (room : String) (g : Gateway) :
    g.Grows (g.joinRoom client room) :=
  .of_eq joinRoom_market fun _ => userOf_congr joinRoom_sockets

theorem Gateway.Sound.joinRoom {client conversationId : ℕ} (h : g.Sound)
    (hparticipates : g.Participates client conversationId) :
    (g.joinRoom client (roomName conversationId)).Sound := by
  have hgrows := g.grows_joinRoom client (roomName conversationId)
  refine h.kept hgrows ?_ ?_ ?_ ?_
  · rw [joinRoom_market]
    exact h.market
  · intro userId socket hregistered
    exact .inl ((registered_congr joinRoom_socketsByUserId).mp hregistered)
  · intro other socket hsocket
    rcases mem_rooms_joinRoom hsocket with hold | ⟨rfl, hroom⟩
    · exact .inl hold
    · obtain rfl := roomName_injective hroom
      exact .inr (hparticipates.mono hgrows)
  · intro emission hemission
    rw [joinRoom_emissions] at hemission
    exact .inl hemission

theorem GatewayStep.grows {i : ℕ} (hstep : GatewayStep i g g')
    (h : g.Sound) : g.Grows g' := by
  cases hstep with
  | traded rights m hacts =>
      exact .of_rely (hacts.rely h.market) fun _ _ => id
  | accepted hnew => exact Gateway.grows_accept hnew
  | turnedAwayAtOnce hnew =>
      exact (Gateway.grows_accept hnew).trans (Gateway.grows_turnAway _ _)
  | turnedAway hpending => exact Gateway.grows_turnAway _ _
  | authenticated user hpending => exact Gateway.grows_authenticate hpending
  | joined client user conversationId huser hpart =>
      exact Gateway.grows_joinRoom _ _ _
  | emitted event payload => exact .of_eq rfl fun _ => rfl

theorem Acts.sound {rights : Rights} {i : ℕ} {m m' : Market}
    (hacts : Acts rights i m m') (h : m.Sound) : m'.Sound := by
  rcases hacts with rfl | hstep
  · exact h
  · exact hstep.sound h

theorem GatewayStep.sound {i : ℕ} (hstep : GatewayStep i g g')
    (h : g.Sound) : g'.Sound := by
  have hgrows := hstep.grows h
  cases hstep with
  | traded rights m hacts =>
      exact h.kept hgrows (hacts.sound h.market) (fun _ _ => .inl)
        (fun _ _ => .inl) fun _ => .inl
  | accepted hnew => exact h.accept hnew
  | turnedAwayAtOnce hnew => exact (h.accept hnew).turnAway i
  | turnedAway hpending => exact h.turnAway i
  | authenticated user hpending => exact h.authenticate hpending user
  | joined client user conversationId huser hpart =>
      exact h.joinRoom ⟨user, huser, hpart⟩
  | emitted event payload =>
      refine h.kept hgrows h.market (fun _ _ => .inl) (fun _ _ => .inl) ?_
      intro emission hemission
      rcases List.mem_cons.mp hemission with rfl | hold
      · exact .inr ⟨rfl, rfl⟩
      · exact .inl hold

theorem Gateway.Sound.surroundings (h : g.Sound)
    (event : GatewaySurroundings) : (g.surroundings event).Sound := by
  cases event with
  | disconnects client => exact h.disconnect client
  | elsewhere event =>
      exact h.kept (.of_rely (Market.rely_surroundings event 0 g.market)
        fun _ _ => id) (Market.sound_surroundings h.market)
        (fun _ _ => .inl) (fun _ _ => .inl) fun _ => .inl

end Kept

/-! ## The rely -/

/-- Besides what it relies on in the market, a request relies on the others
to leave its own connection alone until it is verified. -/
structure GatewayRely (i : ℕ) (g g' : Gateway) : Prop where
  market : Rely i g.market g'.market
  users : ∀ client user, g.userOf client = some user →
    g'.userOf client = some user
  accepted : (g'.sockets i).isSome = (g.sockets i).isSome
  own : g'.userOf i = g.userOf i

theorem GatewayRely.refl (i : ℕ) (g : Gateway) : GatewayRely i g g :=
  ⟨Rely.refl i _, fun _ _ => id, rfl, rfl⟩

theorem GatewayRely.trans {i : ℕ} {g g' g'' : Gateway}
    (h : GatewayRely i g g') (h' : GatewayRely i g' g'') :
    GatewayRely i g g'' where
  market := h.market.trans h'.market
  users client user huser := h'.users client user (h.users client user huser)
  accepted := h'.accepted.trans h.accepted
  own := h'.own.trans h.own

theorem GatewayRely.grows {i : ℕ} {g g' : Gateway} (h : GatewayRely i g g') :
    g.Grows g' :=
  .of_rely h.market h.users

theorem GatewayRely.pending {i : ℕ} {g g' : Gateway} (h : GatewayRely i g g')
    (hpending : g.Pending i) : g'.Pending i :=
  ⟨h.accepted.trans hpending.accepted, h.own.trans hpending.anonymous⟩

/-- A step that leaves the market alone, and the sockets of the others. -/
theorem GatewayRely.of_sockets {i : ℕ} {g g' : Gateway} (hgrows : g.Grows g')
    (hmarket : g'.market = g.market)
    (haccepted : (g'.sockets i).isSome = (g.sockets i).isSome)
    (hown : g'.userOf i = g.userOf i) : GatewayRely i g g' :=
  ⟨Rely.of_eq hmarket, hgrows.users, haccepted, hown⟩

theorem GatewayStep.rely {i j : ℕ} {g g' : Gateway} (hne : i ≠ j)
    (h : g.Sound) (hstep : GatewayStep i g g') : GatewayRely j g g' := by
  have hgrows := hstep.grows h
  have hji : j ≠ i := Ne.symm hne
  cases hstep with
  | traded rights m hacts =>
      refine ⟨?_, fun _ _ => id, rfl, rfl⟩
      rcases hacts with rfl | hstep
      · exact Rely.refl j _
      · exact hstep.rely hne h.market
  | accepted hnew =>
      refine .of_sockets hgrows rfl ?_ ?_
      · simp [Gateway.accept, hji]
      · simp [Gateway.userOf_accept, hji]
  | turnedAwayAtOnce hnew =>
      refine .of_sockets hgrows Gateway.turnAway_market ?_ ?_
      · rw [Gateway.isSome_sockets_turnAway]
        simp [Gateway.accept, hji]
      · rw [Gateway.userOf_turnAway]
        simp [Gateway.userOf_accept, hji]
  | turnedAway hpending =>
      exact .of_sockets hgrows Gateway.turnAway_market
        Gateway.isSome_sockets_turnAway Gateway.userOf_turnAway
  | authenticated user hpending =>
      refine .of_sockets hgrows Gateway.authenticate_market ?_ ?_
      · simp [Gateway.authenticate_sockets, hji]
      · simp [Gateway.userOf_authenticate, hji]
  | joined client user conversationId huser hpart =>
      refine .of_sockets hgrows Gateway.joinRoom_market ?_ ?_
      · rw [Gateway.joinRoom_sockets]
      · rw [Gateway.userOf_congr Gateway.joinRoom_sockets]
  | emitted event payload =>
      exact .of_sockets hgrows rfl rfl rfl

theorem Gateway.rely_surroundings (event : GatewaySurroundings) (i : ℕ)
    (g : Gateway) : GatewayRely i g (g.surroundings event) := by
  cases event with
  | disconnects client =>
      exact .of_sockets (grows_disconnect client g) disconnect_market
        isSome_sockets_disconnect userOf_disconnect
  | elsewhere event =>
      exact ⟨Market.rely_surroundings event i g.market, fun _ _ => id, rfl, rfl⟩

theorem Gateway.emissions_surroundings (event : GatewaySurroundings)
    (g : Gateway) : (g.surroundings event).emissions = g.emissions := by
  cases event with
  | disconnects client => exact disconnect_emissions
  | elsewhere event => rfl

/-! ## The discipline -/

def gatewayDiscipline : Discipline Gateway where
  invariant := Gateway.Sound
  rely := GatewayRely
  guarantee i g g' := g.Sound ∧ GatewayStep i g g'
  rely_refl := GatewayRely.refl
  rely_trans := GatewayRely.trans
  guarantee_rely hne h := h.2.rely hne h.1
  guarantee_invariant h _ := h.2.sound h.1

/-- Request `i` has not done anything yet. -/
structure GatewayFresh (i : ℕ) (g : Gateway) : Prop where
  market : Fresh i g.market
  sockets : g.sockets i = none
  emissions : ∀ emission ∈ g.emissions, emission.actor ≠ i

/-- A step of request `i` emits in its own name. -/
theorem GatewayStep.actor {i : ℕ} {g g' : Gateway}
    (hstep : GatewayStep i g g') :
    ∀ emission ∈ g'.emissions, emission ∈ g.emissions ∨ emission.actor = i := by
  intro emission hemission
  cases hstep with
  | traded rights m hacts => exact .inl hemission
  | accepted hnew => exact .inl hemission
  | turnedAwayAtOnce hnew =>
      rw [Gateway.turnAway_emissions] at hemission
      exact .inl hemission
  | turnedAway hpending =>
      rw [Gateway.turnAway_emissions] at hemission
      exact .inl hemission
  | authenticated user hpending =>
      rw [Gateway.authenticate_emissions] at hemission
      exact .inl hemission
  | joined client user conversationId huser hpart =>
      rw [Gateway.joinRoom_emissions] at hemission
      exact .inl hemission
  | emitted event payload =>
      rcases List.mem_cons.mp hemission with rfl | hold
      · exact .inr rfl
      · exact .inl hold

theorem GatewayStep.fresh {i j : ℕ} {g g' : Gateway} (hne : i ≠ j)
    (h : g.Sound) (hstep : GatewayStep i g g') (hfresh : GatewayFresh j g) :
    GatewayFresh j g' := by
  have hsockets := (hstep.rely hne h).accepted
  obtain ⟨hmarket, hnone, hemissions⟩ := hfresh
  constructor
  case market =>
    cases hstep with
    | traded rights m hacts =>
        exact fresh_of_guarantee hne ⟨h.market, rights, hacts⟩ hmarket
    | turnedAwayAtOnce hnew => rwa [Gateway.turnAway_market]
    | turnedAway hpending => rwa [Gateway.turnAway_market]
    | authenticated user hpending => rwa [Gateway.authenticate_market]
    | joined client user conversationId huser hpart =>
        rwa [Gateway.joinRoom_market]
    | accepted hnew => exact hmarket
    | emitted event payload => exact hmarket
  case sockets =>
    rw [hnone] at hsockets
    exact Option.not_isSome_iff_eq_none.mp (by simp [hsockets])
  case emissions =>
    intro emission hemission
    rcases hstep.actor emission hemission with hold | hactor
    · exact hemissions emission hold
    · exact hactor ▸ hne

theorem Gateway.fresh_surroundings {event : GatewaySurroundings} {i : ℕ}
    {g : Gateway} (hfresh : GatewayFresh i g) :
    GatewayFresh i (g.surroundings event) := by
  have hsockets := (g.rely_surroundings event i).accepted
  obtain ⟨hmarket, hnone, hemissions⟩ := hfresh
  constructor
  case market =>
    cases event with
    | disconnects client =>
        change Fresh i (g.disconnect client).market
        rwa [disconnect_market]
    | elsewhere event => exact Market.fresh_surroundings hmarket
  case sockets =>
    rw [hnone] at hsockets
    exact Option.not_isSome_iff_eq_none.mp (by simp [hsockets])
  case emissions =>
    rw [emissions_surroundings]
    exact hemissions

end MarketPlace.Trade
