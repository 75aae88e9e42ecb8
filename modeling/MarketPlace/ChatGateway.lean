import MarketPlace.ChatService
import MarketPlace.LiftedPrograms
import Mathlib.Logic.Function.Basic

/-!
# The chat gateway

`ChatGateway`, `ChatSocketRegistryService` and the one endpoint of
`ChatController` that emits, over the services of the market.  A socket has
the number of the request that handles its connection, a socket that has gone
joins no room, and an emission goes to the sockets that are in its room.

Left out are correlation ids, the log lines of events and the foreign keys
that payloads are expanded by; the reading that the expansion does is kept.
-/

namespace MarketPlace.Trade

open Interleaving

/-! ## Sockets -/

/-- The user in `client.data`. -/
structure WsUser where
  sub : ℕ
  positive : 0 < sub
  deriving DecidableEq

structure ChatSocket where
  user : Option WsUser
  connected : Bool
  deriving DecidableEq

/-- One of the registry's sets, and which of those it has created it is. -/
structure SocketSet where
  created : ℕ
  sockets : List ℕ
  deriving DecidableEq, Repr

inductive ChatEvent where
  | messageReceived
  | messageRead
  | conversationJoined
  deriving DecidableEq, Repr

inductive WsPayload where
  | message (success : Bool) (message : MessageView)
  | joined (success : Bool) (statusCode : ℕ) (data : ConversationView)
  deriving DecidableEq, Repr

/-- The conversation that a payload is about. -/
def WsPayload.conversationId : WsPayload → ℕ
  | .message _ view => view.conversationId
  | .joined _ _ view => view.id

/-- An emission, with the request that made it and the sockets it went to. -/
structure Emission where
  actor : ℕ
  event : ChatEvent
  room : String
  payload : WsPayload
  receivers : List ℕ
  deriving DecidableEq, Repr

/-- What the gateway logs of connections. -/
inductive ConnectionLog where
  | clientConnected (socketId userId : ℕ)
  | authFailed (socketId : ℕ)
  | clientDisconnected (socketId : ℕ) (userId : Option ℕ)
  deriving DecidableEq, Repr

/-- The market with the gateway in front of it; emissions and log lines are
the newest first. -/
structure Gateway where
  market : Market
  sockets : ℕ → Option ChatSocket
  socketsByUserId : ℕ → Option SocketSet
  setsCreated : ℕ
  rooms : String → List ℕ
  emissions : List Emission
  log : List ConnectionLog

/-- A payload of `verifyAsync`, with `Number(payload.sub)` if it is an
integer. -/
structure WsUserPayload where
  sub : Option ℤ

/-- What the surroundings choose for one action, with what the verification of
a token under a secret gives and how long a loop over a set can go on. -/
structure GatewayDraw where
  market : Draw
  verifyAsync : String → String → Option WsUserPayload
  turns : ℕ

abbrev GatewayOperation (α : Type) := Program GatewayDraw Gateway Fault α

def roomName (conversationId : ℕ) : String :=
  "conversation:" ++ toString conversationId

theorem roomName_injective : Function.Injective roomName := by
  intro conversationId other hrooms
  have htexts : toString conversationId = toString other :=
    (String.append_right_inj _).mp hrooms
  have hdigits : Nat.toDigits 10 conversationId = Nat.toDigits 10 other := by
    have hlists := congrArg String.toList htexts
    simpa using hlists
  have hvalues := congrArg (fun digits => Nat.ofDigitChars 10 digits 0) hdigits
  simpa using hvalues

namespace Gateway

def opening (now : ℕ) : Gateway where
  market := .initial now
  sockets _ := none
  socketsByUserId _ := none
  setsCreated := 0
  rooms _ := []
  emissions := []
  log := []

/-- `client.data.user?.sub`. -/
def userOf (client : ℕ) (g : Gateway) : Option ℕ :=
  ((g.sockets client).bind ChatSocket.user).map WsUser.sub

def connected (client : ℕ) (g : Gateway) : Bool :=
  (g.sockets client).any ChatSocket.connected

def record (line : ConnectionLog) (g : Gateway) : Gateway :=
  { g with log := line :: g.log }

/-! ## ChatSocketRegistryService -/

def registerUserSocket (userId socket : ℕ) (g : Gateway) : Gateway :=
  match g.socketsByUserId userId with
  | some set =>
      let sockets :=
        if socket ∈ set.sockets then set.sockets else set.sockets ++ [socket]
      { g with
        socketsByUserId := Function.update g.socketsByUserId userId
          (some { set with sockets := sockets }) }
  | none =>
      { g with
        socketsByUserId := Function.update g.socketsByUserId userId
          (some ⟨g.setsCreated, [socket]⟩)
        setsCreated := g.setsCreated + 1 }

def unregisterUserSocket (userId socket : ℕ) (g : Gateway) : Gateway :=
  match g.socketsByUserId userId with
  | some set =>
      let sockets := set.sockets.filter fun other => other ≠ socket
      { g with
        socketsByUserId := Function.update g.socketsByUserId userId
          (if sockets = [] then none
            else some { set with sockets := sockets }) }
  | none => g

/-! ## Connections -/

def accept (client : ℕ) (g : Gateway) : Gateway :=
  { g with sockets := Function.update g.sockets client (some ⟨none, true⟩) }

def handleDisconnect (client : ℕ) (g : Gateway) : Gateway :=
  match (g.sockets client).bind ChatSocket.user with
  | some user =>
      (g.unregisterUserSocket user.sub client).record
        (.clientDisconnected client (some user.sub))
  | none => g.record (.clientDisconnected client none)

/-- The end of a connection, from either side: the socket leaves its rooms and
the gateway is told. -/
def disconnect (client : ℕ) (g : Gateway) : Gateway :=
  match g.sockets client with
  | some ⟨user, true⟩ =>
      handleDisconnect client
        { g with
          sockets := Function.update g.sockets client (some ⟨user, false⟩)
          rooms := fun room =>
            (g.rooms room).filter fun other => other ≠ client }
  | _ => g

/-- `handleConnection` from the verified payload on. -/
def authenticate (client : ℕ) (user : WsUser) (g : Gateway) : Gateway :=
  let stored :=
    { g with
      sockets := Function.update g.sockets client
        (some ⟨some user, g.connected client⟩) }
  (stored.registerUserSocket user.sub client).record
    (.clientConnected client user.sub)

/-- What `handleConnection` does with an error. -/
def turnAway (client : ℕ) (g : Gateway) : Gateway :=
  (g.record (.authFailed client)).disconnect client

/-! ## Rooms -/

def joinRoom (client : ℕ) (room : String) (g : Gateway) : Gateway :=
  if g.connected client = true ∧ client ∉ g.rooms room then
    { g with
      rooms := Function.update g.rooms room (g.rooms room ++ [client]) }
  else g

/-- `server.to(room).emit(event, payload)`. -/
def emit (actor : ℕ) (event : ChatEvent) (room : String) (payload : WsPayload)
    (g : Gateway) : Gateway :=
  { g with
    emissions := ⟨actor, event, room, payload, g.rooms room⟩ :: g.emissions }

/-- The next socket of a loop over one of the user's sets.  The map never
returns to a set that it has dropped, and a dropped set is empty. -/
def nextSocket (userId created : ℕ) (visited : List ℕ) (g : Gateway) :
    Option ℕ :=
  ((g.socketsByUserId userId).filter fun set => set.created = created).bind
    fun set => set.sockets.find? fun socket => socket ∉ visited

end Gateway

/-! ## Actions -/

def marketPart : Part Gateway Market where
  get := Gateway.market
  set m g := { g with market := m }
  get_set _ _ := rfl

/-- A service of the market, called from the gateway. -/
def onMarket {α : Type} (operation : Operation α) : GatewayOperation α :=
  operation.onPart marketPart GatewayDraw.market

/-- A synchronous step of the gateway. -/
def update (change : ℕ → GatewayDraw → Gateway → Gateway) :
    GatewayOperation Unit :=
  .atomic (fun i draw g => some ((), change i draw g)) .done

def getUser (client : ℕ) : GatewayOperation ℕ :=
  .atomic (fun _ _ g => some (g.userOf client, g)) fun
    | some user => .done user
    | none => .failed (.exception .unauthorized "Unauthorized")

/-- `FkExpansionService.expand`, which reads the rows behind the ids. -/
def expand {α : Type} (payload : α) : GatewayOperation α :=
  onMarket (select none fun _ => payload)

/-! ## handleConnection -/

structure Handshake where
  authToken : Option String
  authorization : Option String
  deriving DecidableEq, Repr

/-- `text.replace(/^Bearer\s+/i, '')`. -/
def stripBearer (text : String) : String :=
  let rest := text.toList.drop 6
  if (text.toList.take 6).map Char.toLower = "bearer".toList ∧
      rest.head?.any isJsWhitespace = true then
    String.ofList (rest.dropWhile isJsWhitespace)
  else text

def extractToken (handshake : Handshake) : Option String :=
  match truthyText handshake.authToken with
  | some token => some (stripBearer token)
  | none => (truthyText handshake.authorization).map stripBearer

/-- `Number(payload.sub)`, if it is a positive integer. -/
def normalizedSub (payload : WsUserPayload) : Option WsUser :=
  payload.sub.bind fun sub =>
    if h : 0 < sub then some ⟨sub.toNat, by omega⟩ else none

def handleConnection (jwtAccessSecret : String) (handshake : Handshake) :
    GatewayOperation Unit :=
  match extractToken handshake with
  | none => update fun client _ g => (g.accept client).turnAway client
  | some token => do
      update fun client _ g => g.accept client
      update fun client draw g =>
        match (draw.verifyAsync token jwtAccessSecret).bind normalizedSub with
        | some user => g.authenticate client user
        | none => g.turnAway client

/-! ## Events -/

def buildConversationJoinedPayload (conversation : ConversationView) :
    GatewayOperation WsPayload := do
  let expanded ← expand conversation
  pure (.joined true 200 expanded)

def join (client : ℕ) (room : String) : GatewayOperation Unit :=
  update fun _ _ g => g.joinRoom client room

def emit (event : ChatEvent) (room : String) (payload : WsPayload) :
    GatewayOperation Unit :=
  update fun i _ g => g.emit i event room payload

def joinConversation (client conversationId : ℕ) : GatewayOperation String := do
  let user ← getUser client
  onMarket (assertConversationParticipant conversationId user)
  let conversationResponse ← onMarket (getConversationById user conversationId)
  let outboundPayload ← buildConversationJoinedPayload conversationResponse
  let room := roomName conversationId
  join client room
  emit .conversationJoined room outboundPayload
  pure room

/-- `ChatGateway.sendMessage`. -/
def sendMessageEvent (client conversationId : ℕ) (text : String) :
    GatewayOperation MessageView := do
  let user ← getUser client
  let response ← onMarket (sendMessage user conversationId text)
  let wsPayload ← expand response
  let room := roomName conversationId
  join client room
  emit .messageReceived room (.message true wsPayload)
  pure wsPayload

/-- `ChatGateway.markRead`. -/
def markReadEvent (client messageId : ℕ) : GatewayOperation MessageView := do
  let user ← getUser client
  let response ← onMarket (markRead user messageId)
  let wsPayload ← expand response
  let room := roomName response.conversationId
  join client room
  emit .messageRead room (.message true wsPayload)
  pure wsPayload

/-! ## REST creation -/

/-- `ChatService.getConversationParticipants`. -/
def getConversationParticipants (conversationId : ℕ) : Operation (ℕ × ℕ) := do
  let query ← select none fun db => db.conversations.get conversationId
  match query with
  | none => throw conversationNotFound
  | some row =>
      match toPositiveInt ⟨row.userAId⟩, toPositiveInt ⟨row.userBId⟩ with
      | some userAId, some userBId => pure (userAId, userBId)
      | _, _ =>
          throw (.exception .notFound "Conversation participants are invalid")

inductive ParticipantId where
  | number (id : ℕ)
  | text (id : BigintText)
  deriving DecidableEq

/-- `ChatSocketRegistryService.toPositiveInt`. -/
def ParticipantId.toPositiveInt : ParticipantId → Option ℕ
  | .number id => if 0 < id then some id else none
  | .text id => Trade.toPositiveInt id

/-- `for (const socket of sockets) await socket.join(room)`, over a set that
can change between two turns. -/
def joinSockets (room : String) (userId created : ℕ) :
    ℕ → List ℕ → GatewayOperation Unit
  | 0, _ => .atomic (fun _ _ _ => (none : Option (Unit × Gateway))) .done
  | turns + 1, visited =>
      .atomic
        (fun _ _ g =>
          match g.nextSocket userId created visited with
          | none => some (none, g)
          | some socket => some (some socket, g.joinRoom socket room))
        fun
          | none => .done ()
          | some socket =>
              joinSockets room userId created turns (visited ++ [socket])

def joinUser (room : String) (userId : ℕ) : GatewayOperation Unit :=
  .atomic
    (fun _ draw g =>
      some (((g.socketsByUserId userId).map SocketSet.created, draw.turns), g))
    fun
      | (none, _) => .done ()
      | (some created, turns) => joinSockets room userId created turns []

def joinUsers (room : String) : List ℕ → GatewayOperation Unit
  | [] => pure ()
  | userId :: rest => do
      joinUser room userId
      joinUsers room rest

def emitConversationJoinedToParticipants
    (conversationId : ℕ) (participantUserIds : List ParticipantId)
    (payload : WsPayload) : GatewayOperation Unit := do
  let room := roomName conversationId
  let normalizedUserIds :=
    participantUserIds.filterMap ParticipantId.toPositiveInt
  joinUsers room normalizedUserIds.eraseDups
  emit .conversationJoined room payload

def createConversation
    (user participantId : ℕ) (productId : Option ℕ) :
    GatewayOperation ConversationView := do
  let response ← onMarket (getOrCreateConversation user participantId productId)
  let conversationId := response.id
  if 0 < conversationId then do
    let participants ← onMarket (getConversationParticipants conversationId)
    let payload ← buildConversationJoinedPayload response
    emitConversationJoinedToParticipants conversationId
      [.number participants.1, .number participants.2] payload
    pure response
  else pure response

/-! ## The gateway as a system -/

inductive GatewayRequest where
  | handleConnection (handshake : Handshake)
  | joinConversation (client conversationId : ℕ)
  | sendMessage (client conversationId : ℕ) (text : String)
  | markRead (client messageId : ℕ)
  | createConversation (user participantId : ℕ) (productId : Option ℕ)
  | http (request : Request)

inductive GatewayResponse where
  | none
  | room (room : String)
  | message (message : MessageView)
  | conversation (view : ConversationView)
  | http (response : Response)

/-- The market's deployment and the secret of the access tokens. -/
structure GatewayDeployment where
  market : Deployment
  jwtAccessSecret : String

variable (app : GatewayDeployment)

def GatewayRequest.handler : GatewayRequest → GatewayOperation GatewayResponse
  | .handleConnection handshake => do
      Trade.handleConnection app.jwtAccessSecret handshake
      pure .none
  | .joinConversation client conversationId => do
      let room ← Trade.joinConversation client conversationId
      pure (.room room)
  | .sendMessage client conversationId text => do
      let view ← sendMessageEvent client conversationId text
      pure (.message view)
  | .markRead client messageId => do
      let view ← markReadEvent client messageId
      pure (.message view)
  | .createConversation user participantId productId => do
      let view ← Trade.createConversation user participantId productId
      pure (.conversation view)
  | .http request => do
      let response ← onMarket (request.handler app.market)
      pure (.http response)

/-- What happens outside of all requests: a client disconnects, or what goes on
around the market. -/
inductive GatewaySurroundings where
  | disconnects (client : ℕ)
  | elsewhere (event : Surroundings)
  deriving DecidableEq, Repr

def Gateway.surroundings (event : GatewaySurroundings) (g : Gateway) :
    Gateway :=
  match event with
  | .disconnects client => g.disconnect client
  | .elsewhere event => { g with market := g.market.surroundings event }

def gateway : System GatewayRequest GatewayDraw GatewaySurroundings Gateway
    Fault GatewayResponse where
  handler := GatewayRequest.handler app
  environment := Gateway.surroundings

@[simp] theorem gateway_environment :
    (gateway app).environment = Gateway.surroundings := rfl

abbrev GatewayPool :=
  Pool GatewayRequest GatewayDraw Gateway Fault GatewayResponse

def GatewayPool.opening (now : ℕ) : GatewayPool := ⟨.opening now, []⟩

end MarketPlace.Trade
