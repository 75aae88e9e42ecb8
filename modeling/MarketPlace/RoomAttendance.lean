import MarketPlace.RoomMembership

/-!
# Sockets that stay in their rooms

A socket that is in a room leaves it only by going, and what is emitted to the
room reaches it until then.
-/

namespace MarketPlace.Trade

open Interleaving

/-! ## One step -/

/-- A socket that is there has not connected again, and if it has not gone it is
where it was. -/
structure Gateway.Stays (client : ℕ) (g g' : Gateway) : Prop where
  accepted : (g'.sockets client).isSome = true
  connected : g'.connected client = true → g.connected client = true
  rooms : g'.connected client = true → ∀ room, client ∈ g.rooms room →
    client ∈ g'.rooms room

theorem Gateway.Stays.refl {client : ℕ} {g : Gateway}
    (h : (g.sockets client).isSome = true) : g.Stays client g :=
  ⟨h, id, fun _ _ => id⟩

theorem Gateway.Stays.trans {client : ℕ} {g g' g'' : Gateway}
    (h : g.Stays client g') (h' : g'.Stays client g'') : g.Stays client g'' where
  accepted := h'.accepted
  connected hconnected := h.connected (h'.connected hconnected)
  rooms hconnected room hroom :=
    h'.rooms hconnected room (h.rooms (h'.connected hconnected) room hroom)

theorem Gateway.mem_rooms_disconnect {client other : ℕ} {g : Gateway}
    {room : String} (hne : other ≠ client) (h : other ∈ g.rooms room) :
    other ∈ (g.disconnect client).rooms room := by
  cases hconnected : g.connected client with
  | false => rwa [disconnect_of_not_connected hconnected]
  | true =>
      obtain ⟨user, -, heq⟩ := disconnect_of_connected hconnected
      rw [heq, handleDisconnect_rooms]
      simp [h, hne]

theorem Gateway.mem_rooms_joinRoom_of_mem {client other : ℕ} {g : Gateway}
    {room name : String} (h : other ∈ g.rooms room) :
    other ∈ (g.joinRoom client name).rooms room := by
  unfold joinRoom
  split
  · by_cases hroom : room = name
    · subst hroom
      simp [h]
    · simp [hroom, h]
  · exact h

/-- A socket that joins a room is in it, if it has not gone. -/
theorem Gateway.mem_rooms_joinRoom_self {client : ℕ} {g : Gateway}
    {room : String} (h : g.connected client = true) :
    client ∈ (g.joinRoom client room).rooms room := by
  unfold joinRoom
  split
  · simp
  · next hjoined =>
      rw [not_and, not_not] at hjoined
      exact hjoined h

theorem Gateway.stays_disconnect {client other : ℕ} {g : Gateway}
    (h : (g.sockets client).isSome = true) :
    g.Stays client (g.disconnect other) where
  accepted := isSome_sockets_disconnect.trans h
  connected hconnected := by
    rw [connected_disconnect, Bool.and_eq_true] at hconnected
    exact hconnected.2
  rooms hconnected room hroom := by
    rw [connected_disconnect, Bool.and_eq_true, decide_eq_true_eq] at hconnected
    exact mem_rooms_disconnect hconnected.1 hroom

theorem Gateway.stays_turnAway {client other : ℕ} {g : Gateway}
    (h : (g.sockets client).isSome = true) :
    g.Stays client (g.turnAway other) := by
  have hstays : (g.record (.authFailed other)).Stays client
      (g.turnAway other) := stays_disconnect h
  exact ⟨hstays.accepted, hstays.connected, hstays.rooms⟩

theorem Gateway.stays_accept {client other : ℕ} {g : Gateway}
    (h : (g.sockets client).isSome = true) (hnew : g.sockets other = none) :
    g.Stays client (g.accept other) := by
  have hne : client ≠ other := by
    rintro rfl
    rw [hnew] at h
    contradiction
  have hconnected : (g.accept other).connected client = g.connected client := by
    rw [connected_accept, if_neg hne]
  refine ⟨?_, fun h => hconnected ▸ h, fun _ _ => id⟩
  simpa [accept, hne] using h

section Step

variable {client i : ℕ} {g g' : Gateway}

theorem GatewayStep.stays (hstep : GatewayStep i g g')
    (h : (g.sockets client).isSome = true) : g.Stays client g' := by
  cases hstep with
  | traded rights m hacts => exact ⟨h, id, fun _ _ => id⟩
  | accepted hnew => exact Gateway.stays_accept h hnew
  | turnedAwayAtOnce hnew =>
      have haccept := Gateway.stays_accept h hnew
      exact haccept.trans (Gateway.stays_turnAway haccept.accepted)
  | turnedAway hpending => exact Gateway.stays_turnAway h
  | authenticated user hpending =>
      refine ⟨?_, fun hconnected => ?_, fun _ room hroom => ?_⟩
      · rw [Gateway.authenticate_sockets]
        by_cases hother : client = i
        · simp [hother]
        · simpa [hother] using h
      · rwa [Gateway.connected_authenticate] at hconnected
      · rwa [Gateway.authenticate_rooms]
  | joined other user conversationId huser hpart =>
      refine ⟨?_, fun hconnected => ?_, fun _ room hroom => ?_⟩
      · rwa [Gateway.joinRoom_sockets]
      · rwa [Gateway.connected_congr Gateway.joinRoom_sockets] at hconnected
      · exact Gateway.mem_rooms_joinRoom_of_mem hroom
  | emitted event payload => exact ⟨h, id, fun _ _ => id⟩

/-- A step emits at most once, to the sockets that are in the room. -/
theorem GatewayStep.emits (hstep : GatewayStep i g g') :
    g'.emissions = g.emissions ∨ ∃ emission,
      g'.emissions = emission :: g.emissions ∧ emission.actor = i ∧
        emission.receivers = g.rooms emission.room := by
  cases hstep with
  | traded rights m hacts => exact .inl rfl
  | accepted hnew => exact .inl rfl
  | turnedAwayAtOnce hnew => exact .inl Gateway.turnAway_emissions
  | turnedAway hpending => exact .inl Gateway.turnAway_emissions
  | authenticated user hpending => exact .inl Gateway.authenticate_emissions
  | joined other user conversationId huser hpart =>
      exact .inl Gateway.joinRoom_emissions
  | emitted event payload => exact .inr ⟨_, rfl, rfl, rfl⟩

end Step

theorem Gateway.stays_surroundings {client : ℕ} {g : Gateway}
    (h : (g.sockets client).isSome = true) (event : GatewaySurroundings) :
    g.Stays client (g.surroundings event) := by
  cases event with
  | disconnects other => exact stays_disconnect h
  | elsewhere event => exact ⟨h, id, fun _ _ => id⟩

/-! ## Runs -/

variable {app : GatewayDeployment} {now client conversationId : ℕ}
  {pool later : GatewayPool}

/-- One move appends at most one emission, to the sockets that are in its room,
and lets every socket stay. -/
theorem stays_of_perform
    (hreach : (gateway app).Reaches (fun _ _ => True)
      (GatewayPool.opening now) pool)
    {move : GatewayMove} {next : GatewayPool}
    (hperform : (gateway app).perform move pool = some next)
    (h : (pool.state.sockets client).isSome = true) :
    pool.state.Stays client next.state ∧
      ∃ new, next.state.emissions = new ++ pool.state.emissions ∧
        ∀ emission ∈ new,
          emission.receivers = pool.state.rooms emission.room := by
  rcases (gateway_onCourse hreach).perform_cases hperform with
    hsame | ⟨i, w, thread, -, -, hstep⟩ | ⟨event, -, henvironment⟩
  · rw [hsame]
    exact ⟨.refl h, [], rfl, by simp⟩
  · refine ⟨hstep.stays h, ?_⟩
    rcases hstep.emits with hsame | ⟨emission, hemits, -, hreceivers⟩
    · exact ⟨[], hsame, by simp⟩
    · exact ⟨[emission], hemits, by simpa using hreceivers⟩
  · refine ⟨henvironment ▸ Gateway.stays_surroundings h event, [], ?_, by simp⟩
    rw [henvironment]
    exact Gateway.emissions_surroundings event _

/-- The socket is in the conversation's room, if it has not gone. -/
structure Gateway.InRoom (client conversationId : ℕ) (g : Gateway) : Prop where
  accepted : (g.sockets client).isSome = true
  joined : g.connected client = true →
    client ∈ g.rooms (roomName conversationId)

theorem Gateway.InRoom.kept {g g' : Gateway}
    (h : g.InRoom client conversationId) (hstays : g.Stays client g') :
    g'.InRoom client conversationId :=
  ⟨hstays.accepted, fun hconnected =>
    hstays.rooms hconnected _ (h.joined (hstays.connected hconnected))⟩

/-- What is emitted to a room from some time on. -/
theorem receives_of_inRoom
    (hreach : (gateway app).Reaches (fun _ _ => True)
      (GatewayPool.opening now) pool)
    (hlater : (gateway app).Reaches (fun _ _ => True) pool later)
    (h : pool.state.InRoom client conversationId) :
    later.state.InRoom client conversationId ∧
      ∃ new, later.state.emissions = new ++ pool.state.emissions ∧
        (later.state.connected client = true → ∀ emission ∈ new,
          emission.room = roomName conversationId →
            client ∈ emission.receivers) := by
  induction hlater with
  | refl => exact ⟨h, [], rfl, by simp⟩
  | step hbefore _ hperform ih =>
      obtain ⟨hin, new, hnew, hreceived⟩ := ih
      obtain ⟨hstays, newest, hnewest, hreceivers⟩ :=
        stays_of_perform (hreach.trans hbefore) hperform hin.accepted
      refine ⟨hin.kept hstays, newest ++ new, by simp [hnewest, hnew], ?_⟩
      intro hconnected emission hemission hroom
      have hconnected := hstays.connected hconnected
      rcases List.mem_append.mp hemission with hemission | hemission
      · rw [hreceivers emission hemission, hroom]
        exact hin.joined hconnected
      · exact hreceived hconnected emission hemission hroom

end MarketPlace.Trade
