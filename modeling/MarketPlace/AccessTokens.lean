import MarketPlace.ChatErrorEvents
import MarketPlace.GatewaySteps
import MarketPlace.PasswordSessions
import MarketPlace.RoomMembership

/-!
# Access tokens over HTTP and over WebSocket

`JwtStrategy.validate` and `ChatGateway.handleConnection` get the payload of
the same access token once it has verified.  The strategy looks the user up
and compares token versions, the gateway converts the subject and does no
more.
-/

namespace MarketPlace

open ChatErrors (Value)
open Interleaving
open Trade (ChatSocket Gateway GatewayDraw Handshake WsUser)

/-- The payload of a token; a field that is not there is undefined. -/
structure JwtPayload where
  sub : Value
  phone : Value
  isAdmin : Value
  tokenVersion : Value

/-- `Number` of a text and of an object, if it is finite.  A blank text counts
as zero. -/
structure NumberConversions extends ChatErrors.Conversions where
  numberOfObject : Value → Option ℚ
  blank : ∀ text, isBlank text = true → numberOf text = some 0

variable (js : NumberConversions)

/-- `Number(value)`, if it is finite. -/
def NumberConversions.number : Value → Option ℚ
  | .undefined | .notFinite => none
  | .null => some 0
  | .bool value => some (if value then 1 else 0)
  | .number value => some value
  | .text text => js.numberOf text
  | value => js.numberOfObject value

/-! ## The two paths -/

/-- The payload as `handleConnection` goes on with it. -/
def wsUserPayload (payload : JwtPayload) : Trade.WsUserPayload :=
  ⟨(js.number payload.sub).bind fun sub =>
    if sub.isInt then some sub.num else none⟩

/-- `JwtStrategy.toPositiveInt`. -/
def JwtStrategy.toPositiveInt (value : Value) : Option ℕ :=
  (ChatErrors.toPositiveInt js.toConversions value).map fun number =>
    number.num.toNat

/-- `typeof value === 'number'`. -/
def isNumber : Value → Bool
  | .number _ | .notFinite => true
  | _ => false

/-- `value === number`, for a number of the database. -/
def isSameNumber (number : ℕ) : Value → Bool
  | .number value => value = number
  | _ => false

/-- The user of a request as `validate` returns it. -/
structure ValidatedUser where
  sub : ℕ
  phone : String
  isAdmin : Value
  tokenVersion : ℕ

/-- `JwtStrategy.validate`. -/
def JwtStrategy.validate (db : Database) (payload : JwtPayload) :
    Except HttpError ValidatedUser :=
  if isNumber payload.tokenVersion then
    match JwtStrategy.toPositiveInt js payload.sub with
    | none => .error invalidToken
    | some normalizedSub =>
        match db.liveUserById normalizedSub with
        | none => .error staleToken
        | some row =>
            if isSameNumber row.tokenVersion payload.tokenVersion then
              .ok ⟨normalizedSub, row.phone, payload.isAdmin, row.tokenVersion⟩
            else .error staleToken
  else .error invalidToken

/-- With this token in its handshake the connection of the client registers its
socket for the user. -/
def RegistersSocket (secret : String) (handshake : Handshake) (client : ℕ)
    (draw : GatewayDraw) (g : Gateway) (userId : ℕ) : Prop :=
  ∃ g', (Trade.handleConnection secret handshake).Returns client draw g () g' ∧
    g'.Registered userId client

def AcceptsToken (db : Database) (payload : JwtPayload) (userId : ℕ) : Prop :=
  ∃ user, JwtStrategy.validate js db payload = .ok user ∧ user.sub = userId

/-! ## Subjects -/

variable {js} {payload : JwtPayload} {userId : ℕ} {db : Database}

/-- `Number` makes the subject the positive integer `userId`. -/
def NumberConversions.Names (js : NumberConversions) (value : Value)
    (userId : ℕ) : Prop :=
  ∃ number, js.number value = some number ∧ number.isInt = true ∧
    0 < number ∧ number.num.toNat = userId

/-- A subject of the type that it is declared with. -/
def isNumberOrText : Value → Bool
  | .number _ | .text _ => true
  | _ => false

theorem normalizedSub_eq_some_iff :
    (Trade.normalizedSub (wsUserPayload js payload)).map WsUser.sub =
        some userId ↔
      js.Names payload.sub userId := by
  unfold Trade.normalizedSub wsUserPayload NumberConversions.Names
  cases hnumber : js.number payload.sub with
  | none => simp
  | some number =>
      by_cases hint : number.isInt = true
      · by_cases hpositive : 0 < number
        · simp [hint, hpositive]
        · simp [hint, hpositive]
      · simp [hint]

theorem toPositiveInt_eq_some_iff {value : Value} :
    JwtStrategy.toPositiveInt js value = some userId ↔
      isNumberOrText value = true ∧ js.Names value userId := by
  unfold JwtStrategy.toPositiveInt NumberConversions.Names
  cases value with
  | number value =>
      by_cases hvalue : value.isInt = true ∧ 0 < value
      · simp [ChatErrors.toPositiveInt, NumberConversions.number,
          isNumberOrText, hvalue]
      · simp only [ChatErrors.toPositiveInt, NumberConversions.number,
          isNumberOrText, if_neg hvalue]
        grind
  | text text =>
      cases hblank : js.isBlank text with
      | true =>
          have hzero := js.blank text hblank
          simp [ChatErrors.toPositiveInt, NumberConversions.number, hblank,
            hzero]
      | false =>
          simp only [ChatErrors.toPositiveInt, NumberConversions.number,
            isNumberOrText, hblank]
          cases hnumber : js.numberOf text with
          | none => simp
          | some number =>
              by_cases hvalue : number.isInt = true ∧ 0 < number
              · simp [hvalue]
              · simp [Option.filter_some]
                grind
  | undefined | null | bool | notFinite | array | object | opaque_ =>
      simp [ChatErrors.toPositiveInt, isNumberOrText]

/-! ## Acceptance -/

section Acceptance

variable {secret token : String} {handshake : Handshake} {client : ℕ}
  {draw : GatewayDraw} {g : Gateway}

/-- The gateway asks of the subject that it names a user, and of nothing
else. -/
theorem registersSocket_iff
    (htoken : Trade.extractToken handshake = some token)
    (hverify : draw.verifyAsync token secret = some (wsUserPayload js payload))
    (hnew : ∀ userId, ¬ g.Registered userId client) :
    RegistersSocket secret handshake client draw g userId ↔
      js.Names payload.sub userId := by
  rw [← normalizedSub_eq_some_iff]
  unfold RegistersSocket Trade.handleConnection
  simp only [htoken, Trade.update, Program.Returns, Program.atomic_bind,
    Program.done_bind, Program.runAlone, hverify, Option.bind_some,
    Option.some.injEq, Prod.mk.injEq, true_and, exists_eq_left']
  have haccepted : ∀ other, ¬ (g.accept client).Registered other client :=
    fun other hother => hnew other ((Gateway.registered_congr rfl).mp hother)
  cases Trade.normalizedSub (wsUserPayload js payload) with
  | none =>
      have hclosed : ¬ ((g.accept client).turnAway client).Registered userId
          client := by
        rw [Gateway.turnAway, Gateway.registered_disconnect,
          Gateway.registered_record]
        exact fun hregistered => haccepted userId hregistered.1
      simp [hclosed]
  | some user =>
      rw [Gateway.registered_authenticate]
      simp [haccepted userId, eq_comm]

/-- The strategy asks for a live user at the token's version besides. -/
theorem acceptsToken_iff :
    AcceptsToken js db payload userId ↔
      isNumberOrText payload.sub = true ∧ js.Names payload.sub userId ∧
        ∃ row, db.liveUserById userId = some row ∧
          isSameNumber row.tokenVersion payload.tokenVersion = true := by
  rw [← and_assoc, ← toPositiveInt_eq_some_iff]
  unfold AcceptsToken JwtStrategy.validate
  constructor
  · rintro ⟨user, hvalidate, rfl⟩
    split at hvalidate
    · split at hvalidate
      · contradiction
      next normalizedSub hsub =>
      split at hvalidate
      · contradiction
      next row hrow =>
      split at hvalidate
      next hversion =>
          obtain rfl := Except.ok.inj hvalidate
          exact ⟨hsub, row, hrow, hversion⟩
      · contradiction
    · contradiction
  · rintro ⟨hsub, row, hrow, hversion⟩
    have hnumber : isNumber payload.tokenVersion = true := by
      cases htokenVersion : payload.tokenVersion <;>
        simp_all [isSameNumber, isNumber]
    exact ⟨⟨userId, row.phone, payload.isAdmin, row.tokenVersion⟩,
      by simp [hnumber, hsub, hrow, hversion], rfl⟩

/-- The gateway and the strategy accept the same tokens for the same user,
exactly when a subject that names a user is a number or a text, and the user
is there, not deleted and at the token's version. -/
theorem sockets_accept_same_iff (js : NumberConversions) (db : Database)
    (payload : JwtPayload)
    (htoken : Trade.extractToken handshake = some token)
    (hverify : draw.verifyAsync token secret = some (wsUserPayload js payload))
    (hnew : ∀ userId, ¬ g.Registered userId client) :
    (∀ userId, RegistersSocket secret handshake client draw g userId ↔
        AcceptsToken js db payload userId) ↔
      ∀ userId, js.Names payload.sub userId →
        isNumberOrText payload.sub = true ∧
          ∃ row, db.liveUserById userId = some row ∧
            isSameNumber row.tokenVersion payload.tokenVersion = true := by
  constructor
  · intro hsame userId hnames
    have hregisters := (registersSocket_iff htoken hverify hnew).mpr hnames
    obtain ⟨htype, -, hrow⟩ := acceptsToken_iff.mp ((hsame userId).mp hregisters)
    exact ⟨htype, hrow⟩
  · intro hcurrent userId
    rw [registersSocket_iff htoken hverify hnew, acceptsToken_iff]
    constructor
    · intro hnames
      obtain ⟨htype, hrow⟩ := hcurrent userId hnames
      exact ⟨htype, hnames, hrow⟩
    · exact fun haccepts => haccepts.2.1

end Acceptance

/-- A handshake with the token of user 1, which was minted at version 0. -/
def userOneHandshake : Handshake := ⟨some "Bearer one", none⟩

def userOnePayload : JwtPayload :=
  ⟨.number 1, .text "+201", .bool false, .number 0⟩

def plainNumbers : NumberConversions where
  toConversions :=
    { ChatErrors.plainConversions with
      numberOf := fun text =>
        if ChatErrors.plainConversions.isBlank text then some 0 else none }
  numberOfObject _ := none
  blank _ hblank := if_pos hblank

def userOneRegistered : Database :=
  Database.empty.apply
    (.insertUser ⟨1, "Amina", "+201", "hash", .active, false, 0, none, 0, 0⟩)

theorem userOne_connects :
    Trade.extractToken userOneHandshake = some "one" ∧
      Trade.gatewayDraw.verifyAsync "one" "secret" =
        some (wsUserPayload plainNumbers userOnePayload) ∧
      ∀ userId, ¬ (Gateway.opening 0).Registered userId 0 :=
  ⟨by decide +kernel, rfl, fun _ ⟨_, hset, _⟩ => nomatch hset⟩

theorem sockets_accept_same_iff_here :
    RegistersSocket "secret" userOneHandshake 0 Trade.gatewayDraw (.opening 0)
        1 ↔
      AcceptsToken plainNumbers userOneRegistered userOnePayload 1 := by
  obtain ⟨htoken, hverify, hnew⟩ := userOne_connects
  refine (sockets_accept_same_iff plainNumbers userOneRegistered
    userOnePayload htoken hverify hnew).mpr ?_ 1
  rintro userId ⟨number, hnumber, -, -, rfl⟩
  obtain rfl := Option.some.inj hnumber
  exact ⟨rfl, ⟨1, "Amina", "+201", "hash", .active, false, 0, none, 0, 0⟩,
    by decide +kernel, by decide +kernel⟩

/-- User 1 is deleted, and still connects. -/
theorem not_sockets_accept_same :
    ¬ ∀ userId,
      RegistersSocket "secret" userOneHandshake 0 Trade.gatewayDraw
          (.opening 0) userId ↔
        AcceptsToken plainNumbers (userOneRegistered.apply (.deleteUser 1 9))
          userOnePayload userId := by
  obtain ⟨htoken, hverify, hnew⟩ := userOne_connects
  intro hsame
  have hnames : plainNumbers.Names userOnePayload.sub 1 :=
    ⟨1, rfl, by decide, by decide, by decide⟩
  have hregisters := (registersSocket_iff htoken hverify hnew).mpr hnames
  obtain ⟨-, -, row, hrow, -⟩ := acceptsToken_iff.mp ((hsame 1).mp hregisters)
  have hgone : (userOneRegistered.apply (.deleteUser 1 9)).liveUserById 1 =
      none := by
    decide +kernel
  rw [hgone] at hrow
  contradiction

/-! ## Tokens of the backend -/

/-- The payload of a token that the backend has minted. -/
def payloadOf (token : Token) : JwtPayload :=
  ⟨.number token.sub, .text token.phone, .bool token.isAdmin,
    .number token.tokenVersion⟩

theorem names_payloadOf {token : Token} :
    js.Names (payloadOf token).sub userId ↔ token.sub = userId ∧ 0 < userId := by
  simp only [NumberConversions.Names, payloadOf, NumberConversions.number]
  constructor
  · rintro ⟨number, hnumber, -, hpositive, rfl⟩
    obtain rfl := Option.some.inj hnumber
    simpa using hpositive
  · rintro ⟨rfl, hpositive⟩
    exact ⟨token.sub, rfl, by simp [Rat.isInt], by exact_mod_cast hpositive,
      by simp⟩

/-- For these tokens the strategy is the guard's. -/
theorem acceptsToken_payloadOf {i : ℕ} {d : Draw} {w : World} {token : Token}
    (hd : d.databaseFails = false) :
    AcceptsToken js w.db (payloadOf token) token.sub ↔
      ∃ user t, (validate token).Returns i d w user t := by
  rw [acceptsToken_iff, names_payloadOf, validate_accepts_iff hd]
  simp [payloadOf, isNumberOrText, isSameNumber, CurrentIn, Nat.pos_iff_ne_zero,
    eq_comm]

end MarketPlace
