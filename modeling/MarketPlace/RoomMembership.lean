import MarketPlace.GatewayOutlines

/-!
# Rooms belong to participants

Sockets enter a room when a conversation is joined, when a message is sent or
read, and when a conversation is created.  However these interleave with
connections and disconnections, the sockets of a room are authenticated as the
two participants of its conversation, and emissions reach nobody else.
-/

namespace MarketPlace.Trade

open Interleaving

variable {app : GatewayDeployment} {now : ℕ} {pool : GatewayPool}

theorem gateway_onCourse
    (hreach : (gateway app).Reaches (fun _ _ => True)
      (GatewayPool.opening now) pool) :
    System.OnCourseWithin gatewayDiscipline (fun _ => GatewayStep) GatewayFresh
      (fun _ _ _ _ => True) (fun _ _ _ _ => True) pool :=
  hreach.soundWithin gateway_sound (gateway_onCourse_opening now)

/-- Every socket in a conversation's room is authenticated as one of the two
participants, and so is every socket that an event about the conversation was
delivered to. -/
theorem rooms_of_participants
    (hreach : (gateway app).Reaches (fun _ _ => True)
      (GatewayPool.opening now) pool) :
    (∀ conversationId, ∀ socket ∈ pool.state.rooms (roomName conversationId),
      pool.state.Participates socket conversationId) ∧
    ∀ emission ∈ pool.state.emissions,
      emission.room = roomName emission.payload.conversationId ∧
        ∀ socket ∈ emission.receivers,
          pool.state.Participates socket emission.payload.conversationId := by
  have hsound : pool.state.Sound := (gateway_onCourse hreach).invariant
  exact ⟨hsound.rooms, hsound.emissions⟩

/-! ## A gateway to run -/

def sampleGateway : GatewayDeployment := ⟨sampleApp, "secret"⟩

/-- Two tokens of the users 1 and 2. -/
def sampleVerification (token secret : String) : Option WsUserPayload :=
  if secret ≠ "secret" then none
  else if token = "one" then some ⟨some 1⟩
  else if token = "two" then some ⟨some 2⟩
  else none

def gatewayDraw : GatewayDraw := ⟨calmDraw, sampleVerification, 3⟩

abbrev GatewayMove := Move GatewayRequest GatewayDraw GatewaySurroundings

/-- A request that is submitted as number `i` and advances `n` times. -/
def performs (i n : ℕ) (request : GatewayRequest) : List GatewayMove :=
  .submit request :: List.replicate n (.advance i gatewayDraw)

/-- The users 1 and 2 register, user 1 opens conversation 1 with user 2, and
both connect as the sockets 1 and 2. -/
def connectBoth : List GatewayMove :=
  [.environment (.elsewhere (.userRegisters "Amina" "+201")),
    .environment (.elsewhere (.userRegisters "Basim" "+202"))] ++
      performs 0 12 (.createConversation 1 2 none) ++
        performs 1 2 (.handleConnection ⟨some "Bearer one", none⟩) ++
          performs 2 2 (.handleConnection ⟨none, some "bearer two"⟩)

/-- Socket 2 joins the conversation, and then socket 1 does. -/
def joinsBoth : List GatewayMove :=
  connectBoth ++ performs 3 9 (.joinConversation 2 1) ++
    performs 4 9 (.joinConversation 1 1)

theorem rooms_of_participants_joined :
    ∃ pool, (gateway sampleGateway).Reaches (fun _ _ => True)
        (GatewayPool.opening 0) pool ∧
      pool.state.rooms (roomName 1) = [2, 1] ∧
      pool.state.Participates 1 1 ∧ pool.state.Participates 2 1 := by
  obtain ⟨pool, hreach, hcheck⟩ := System.exists_reaches_of_run
    (show ((gateway sampleGateway).run joinsBoth (GatewayPool.opening 0)).any
      (fun pool => decide (pool.state.rooms (roomName 1) = [2, 1])) = true by
        decide +kernel)
  have hrooms := of_decide_eq_true hcheck
  have hparticipates := (rooms_of_participants hreach).1 1
  rw [hrooms] at hparticipates
  exact ⟨pool, hreach, hrooms, hparticipates 1 (by simp),
    hparticipates 2 (by simp)⟩

end MarketPlace.Trade
