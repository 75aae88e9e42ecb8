import Mathlib.Data.Rat.Floor

/-!
# Errors on the chat's sockets

`ChatWsExceptionFilter` turns whatever is thrown under an event into the two
events that the client gets.  It keeps what it was told of the error only for
the classes of exceptions that are meant for clients, and of a context only the
conversation.

Left out are the lines that it logs.
-/

namespace MarketPlace.ChatErrors

/-- A value of the language, with functions and symbols as `opaque_`, and class
instances as objects with their own fields. -/
inductive Value where
  | undefined
  | null
  | bool (value : Bool)
  | number (value : ℚ)
  | notFinite
  | text (value : String)
  | array (items : List Value)
  | object (fields : List (String × Value))
  | opaque_ (identity : ℕ)

/-- The language's conversions: `Number(text)` if it is finite, and an item as
`join` writes it. -/
structure Conversions where
  numberOf : String → Option ℚ
  joined : Value → String
  isBlank : String → Bool

namespace Value

/-- `typeof value === 'object' && value !== null`. -/
def isObject : Value → Bool
  | .object _ | .array _ => true
  | _ => false

/-- A property that objects do not inherit. -/
def property (key : String) : Value → Value
  | .object fields => (fields.lookup key).getD .undefined
  | _ => .undefined

/-- `value ?? other`. -/
def orElse (value other : Value) : Value :=
  match value with
  | .undefined | .null => other
  | value => value

/-- `typeof value === 'string' ? value : undefined`. -/
def asText : Value → Option String
  | .text value => some value
  | _ => none

/-- `Array.isArray(value) ? value : undefined`. -/
def asArray : Value → Option (List Value)
  | .array items => some items
  | _ => none

end Value

/-- `getResponse()` and `message` of an exception of the framework. -/
structure HttpException where
  message : String
  response : Value

inductive Exception where
  | ws (error : Value)
  | badRequest (exception : HttpException)
  | unauthorized (exception : HttpException)
  | forbidden (exception : HttpException)
  | notFound (exception : HttpException)
  | other (thrown : Value)

/-- What the envelope says of an error; a field that is not there is
undefined. -/
structure NormalizedError where
  code : Value
  event : String
  message : Value
  details : Option Value
  reason : Option String
  context : Option Value
  correlationId : String
  timestamp : String
  statusCode : ℕ

structure Envelope where
  success : Bool
  error : NormalizedError

structure ExceptionCause where
  pattern : String
  data : Value
  code : Value
  correlationId : String

structure ExceptionEvent where
  status : String
  message : Value
  cause : ExceptionCause

/-- What the client gets, in this order. -/
structure ClientEvents where
  chatError : Envelope
  exception : ExceptionEvent

variable (js : Conversions)

/-! ## The filter -/

def toPositiveInt (value : Value) : Option ℚ :=
  match value with
  | .number number =>
      if number.isInt ∧ 0 < number then some number else none
  | .text text =>
      if js.isBlank text then none
      else (js.numberOf text).filter fun number =>
        number.isInt && decide (0 < number)
  | _ => none

/-- `Array.isArray(message) ? message.join(', ') : …`. -/
def messageOf (message : Value) (fallback : String) : Value :=
  match message with
  | .array items => .text (String.intercalate ", " (items.map js.joined))
  | .text text => .text text
  | _ => .text fallback

/-- The message and the details of `extractBadRequestDetails`. -/
def extractBadRequestDetails (response : Value) : Value × Option Value :=
  match response with
  | .text text => (.text text, none)
  | response =>
      if response.isObject then
        (messageOf js (response.property "message") "Invalid payload",
          (response.property "details").asArray.map .array)
      else (.text "Invalid payload", none)

structure ForbiddenDetails where
  message : Value
  reason : Option String
  context : Option Value

def extractForbiddenDetails (response : Value) : ForbiddenDetails :=
  match response with
  | .text text => ⟨.text text, none, none⟩
  | response =>
      if response.isObject then
        { message := messageOf js (response.property "message") "Forbidden"
          reason := (response.property "reason").asText
          context :=
            if (response.property "context").isObject then
              some (response.property "context")
            else none }
      else ⟨.text "Forbidden", none, none⟩

/-- `exception.message || fallback`. -/
def messageOr (message fallback : String) : Value :=
  .text (if message = "" then fallback else message)

def internalServerError : Value := .text "Internal server error"

/-- An error without details, reason and context. -/
def plainError (code message : Value) (statusCode : ℕ)
    (event correlationId timestamp : String) : NormalizedError where
  code := code
  event := event
  message := message
  details := none
  reason := none
  context := none
  correlationId := correlationId
  timestamp := timestamp
  statusCode := statusCode

def normalizeError (exception : Exception)
    (event correlationId timestamp : String) : NormalizedError :=
  match exception with
  | .ws error =>
      if error.isObject then
        let code := error.property "code"
        { plainError (code.orElse (.text "INTERNAL_ERROR"))
            ((error.property "message").orElse internalServerError)
            (match code with
              | .text "VALIDATION_ERROR" => 400
              | _ => 500)
            event correlationId timestamp with
          details := some (error.property "details") }
      else
        plainError (.text "INTERNAL_ERROR")
          (match error with
            | .text text => .text text
            | _ => internalServerError)
          500 event correlationId timestamp
  | .badRequest exception =>
      let (message, details) := extractBadRequestDetails js exception.response
      { plainError (.text "VALIDATION_ERROR") message 400 event correlationId
          timestamp with
        details := details }
  | .unauthorized exception =>
      plainError (.text "UNAUTHORIZED")
        (messageOr exception.message "Unauthorized") 401 event correlationId
        timestamp
  | .forbidden exception =>
      let extracted := extractForbiddenDetails js exception.response
      { plainError (.text "FORBIDDEN") extracted.message 403 event correlationId
          timestamp with
        reason := extracted.reason
        context := extracted.context }
  | .notFound exception =>
      plainError (.text "NOT_FOUND") (messageOr exception.message "Not found")
        404 event correlationId timestamp
  | .other _ =>
      plainError (.text "INTERNAL_ERROR") internalServerError 500 event
        correlationId timestamp

/-- `code !== 'FORBIDDEN'` is the second of the three conditions. -/
def exposeSafeContext (event : String) (code : Value)
    (context : Option Value) : Option Value :=
  match code, context with
  | .text code, some context =>
      if event = "message.send" ∧ code = "FORBIDDEN" then
        some (.object
          (match toPositiveInt js (context.property "conversationId") with
            | some conversationId =>
                [("conversationId", .number conversationId)]
            | none => []))
      else none
  | _, _ => none

/-- `fromHeader` is the client's `x-request-id`, `drawn` the random id. -/
def getCorrelationId (fromHeader : Value) (drawn : String) : String :=
  match fromHeader with
  | .text text => if text = "" then drawn else text
  | _ => drawn

/-- The emissions of `catch`. -/
def emitted (exception : Exception) (event : String) (payload : Value)
    (correlationId timestamp : String) : ClientEvents :=
  let normalized := normalizeError js exception event correlationId timestamp
  { chatError :=
      { success := false
        error :=
          { normalized with
            context := exposeSafeContext js event normalized.code
              normalized.context } }
    exception :=
      { status := "error"
        message := normalized.message
        cause := ⟨event, payload, normalized.code, correlationId⟩ } }

/-! ## What the client can learn -/

/-- Two exceptions that carry a context and differ only there, and not in its
conversation. -/
structure AlikeButContext (left right : HttpException) : Prop where
  message : left.message = right.message
  left_isObject : left.response.isObject
  right_isObject : right.response.isObject
  field : ∀ key, key ≠ "context" →
    left.response.property key = right.response.property key
  left_context : (left.response.property "context").isObject
  right_context : (right.response.property "context").isObject
  conversationId :
    (left.response.property "context").property "conversationId" =
      (right.response.property "context").property "conversationId"

/-- The pairs of exceptions between which a client is not to see a
difference. -/
inductive Hidden : Exception → Exception → Prop where
  | outside (left right : Value) : Hidden (.other left) (.other right)
  | forbidden {left right : HttpException} :
      AlikeButContext left right → Hidden (.forbidden left) (.forbidden right)

/-- The events with another correlation id and time. -/
def ClientEvents.stamped (events : ClientEvents)
    (correlationId timestamp : String) : ClientEvents where
  chatError :=
    { events.chatError with
      error :=
        { events.chatError.error with
          correlationId := correlationId
          timestamp := timestamp } }
  exception :=
    { events.exception with
      cause := { events.exception.cause with correlationId := correlationId } }

theorem normalizeError_restamped (exception : Exception)
    (event correlationId timestamp other later : String) :
    normalizeError js exception event correlationId timestamp =
      { normalizeError js exception event other later with
        correlationId := correlationId
        timestamp := timestamp } := by
  cases exception with
  | ws error =>
      simp only [normalizeError]
      split <;> rfl
  | badRequest | unauthorized | forbidden | notFound | other => rfl

theorem emitted_restamped (exception : Exception) (event : String)
    (payload : Value) (correlationId timestamp other later : String) :
    emitted js exception event payload correlationId timestamp =
      (emitted js exception event payload other later).stamped
        correlationId timestamp := by
  have hnormalized := normalizeError_restamped js exception event
    correlationId timestamp other later
  simp only [emitted, ClientEvents.stamped]
  rw [hnormalized]

theorem extractForbiddenDetails_of_isObject {response : Value}
    (hobject : response.isObject)
    (hcontext : (response.property "context").isObject) :
    extractForbiddenDetails js response =
      { message := messageOf js (response.property "message") "Forbidden"
        reason := (response.property "reason").asText
        context := some (response.property "context") } := by
  cases response with
  | object fields =>
      simp only [extractForbiddenDetails, hobject, hcontext, if_true]
  | array items => simp [Value.property, Value.isObject] at hcontext
  | undefined | null | bool | number | notFinite | text | opaque_ =>
      simp [Value.isObject] at hobject

/-- Only the conversation of a context is read. -/
theorem exposeSafeContext_congr (event : String) (code : Value)
    {left right : Value}
    (hconversation : left.property "conversationId" =
      right.property "conversationId") :
    exposeSafeContext js event code (some left) =
      exposeSafeContext js event code (some right) := by
  cases code <;> simp only [exposeSafeContext, hconversation]

theorem emitted_eq_of_hidden {left right : Exception}
    (hidden : Hidden left right) (event : String) (payload : Value)
    (correlationId timestamp : String) :
    emitted js left event payload correlationId timestamp =
      emitted js right event payload correlationId timestamp := by
  cases hidden with
  | outside left right => rfl
  | @forbidden left right alike =>
      have hleft := extractForbiddenDetails_of_isObject js alike.left_isObject
        alike.left_context
      have hright := extractForbiddenDetails_of_isObject js
        alike.right_isObject alike.right_context
      have hmessage := alike.field "message" (by decide)
      have hreason := alike.field "reason" (by decide)
      have hexposed := exposeSafeContext_congr js event (.text "FORBIDDEN")
        alike.conversationId
      simp only [emitted, normalizeError, plainError, hleft, hright, hmessage,
        hreason, hexposed]

theorem exposeSafeContext_isSome {event : String} {code : Value}
    {context : Option Value}
    (hexposed : (exposeSafeContext js event code context).isSome) :
    event = "message.send" ∧ code = .text "FORBIDDEN" := by
  unfold exposeSafeContext at hexposed
  split at hexposed
  · split at hexposed
    next hboth => exact ⟨hboth.1, by rw [hboth.2]⟩
    next => simp at hexposed
  · simp at hexposed

/-- Exceptions of no class for clients look alike, contexts show their
conversation only, and this only under `message.send`. -/
theorem error_events_leak_nothing (event : String) (payload : Value) :
    (∀ left right, Hidden left right →
      ∀ correlationId timestamp other later,
        emitted js left event payload correlationId timestamp =
          (emitted js right event payload other later).stamped
            correlationId timestamp) ∧
      ∀ exception correlationId timestamp,
        let error :=
          (emitted js exception event payload correlationId
            timestamp).chatError.error
        error.context.isSome →
          event = "message.send" ∧ error.code = .text "FORBIDDEN" := by
  constructor
  · intro left right hidden correlationId timestamp other later
    rw [emitted_eq_of_hidden js hidden]
    exact emitted_restamped js right event payload correlationId timestamp
      other later
  · intro exception correlationId timestamp error hexposed
    exact exposeSafeContext_isSome js hexposed

/-- `forbiddenChatException` of the chat's service. -/
def forbiddenChatException (reason message : String)
    (context : List (String × ℚ)) : HttpException where
  message := message
  response := .object
    [("message", .text message), ("reason", .text reason),
      ("context", .object (context.map fun (key, value) =>
        (key, .number value)))]

def notAvailable (conversationId userId userAId userBId : ℚ) : HttpException :=
  forbiddenChatException "CONVERSATION_BLOCKED" "Conversation is not available"
    [("conversationId", conversationId), ("userId", userId),
      ("userAId", userAId), ("userBId", userBId)]

def plainConversions : Conversions where
  numberOf := fun _ => none
  joined := fun value => value.asText.getD ""
  isBlank := fun text => text.trimAscii.isEmpty

theorem error_events_leak_nothing_blocked :
    emitted plainConversions (.forbidden (notAvailable 7 1 1 2))
        "message.send" .undefined "a" "now" =
      (emitted plainConversions (.forbidden (notAvailable 7 4 3 4))
        "message.send" .undefined "b" "later").stamped "a" "now" := by
  refine (error_events_leak_nothing plainConversions "message.send"
    .undefined).1 _ _ (.forbidden ⟨rfl, rfl, rfl, ?_, rfl, rfl, rfl⟩) _ _ _ _
  intro key hkey
  have hother : (key == "context") = false := by simpa using hkey
  simp [notAvailable, forbiddenChatException, Value.property, List.lookup_cons,
    hother]

end MarketPlace.ChatErrors
