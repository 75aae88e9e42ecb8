import MarketPlace.Statements

/-!
# OTP state and verification providers

`AuthStateStore` keeps attempt counters, Akedly transaction ids and refresh
token ids, in Postgres with Redis beside it.  The two verification providers
start and check a verification: the console provider against rows of
auth_otps, the Akedly provider against the service.
-/

namespace MarketPlace

open Interleaving

variable (app : Deployment)

/-! ## AuthStateStore -/

def otpAttemptsKey (phone : String) (purpose : OtpPurpose) : String :=
  "otp_attempts:" ++ phone ++ ":" ++ purpose.text

def otpTransactionKey (phone : String) (purpose : OtpPurpose) : String :=
  "otp:tx:" ++ purpose.text ++ ":" ++ phone

def refreshJtiKey (jti : String) : String := "refresh_jti:" ++ jti

def tryRedisSet (op : Handler Unit) : Handler Unit :=
  if app.redisEnabled then tryCatch op fun _ => pure () else pure ()

structure IncrementOtpResult where
  attempts : ℕ
  locked : Bool
  deriving DecidableEq, Repr

/-- `raw ? parseInt(raw, 10) + 1 : 1`, as a text.  The number is the one that
the text begins with; nobody writes a text with a sign or spaces before it. -/
def nextAttemptsText (raw : Option String) : String :=
  match raw with
  | none => "1"
  | some raw =>
      if raw = "" then "1"
      else
        match (String.ofList (raw.toList.takeWhile Char.isDigit)).toNat? with
        | none => "NaN"
        | some attempts => toString (attempts + 1)

/-- The upsert of the attempt counter, RETURNING attempts. -/
def countAttempt
    (phone : String) (purpose : OtpPurpose) (ttlSeconds : ℕ) : Handler ℕ :=
  statement fun i _ w =>
    let change := Write.countAttempt phone purpose ttlSeconds w.now
    if w.lockable none i change then
      let after := w.autocommit i change
      let attempts :=
        ((after.db.authOtpAttempts.get (phone, purpose)).map
          OtpAttemptRow.attempts).getD 0
      some (.ok attempts,
        after.record (.attemptCounted i phone purpose attempts))
    else none

def clearOtpAttempts (phone : String) (purpose : OtpPurpose) :
    Handler Unit := do
  tryRedisSet app (redisDel app (otpAttemptsKey phone purpose))
  perform none fun _ => .clearAttempts phone purpose

def incrementOtpAttempts
    (phone : String) (purpose : OtpPurpose) (maxAttempts ttlSeconds : ℕ) :
    Handler IncrementOtpResult := do
  let key := otpAttemptsKey phone purpose
  tryRedisSet app do
    let raw ← redisGet app key
    redisSet app key (nextAttemptsText raw) ttlSeconds
  let attempts ← countAttempt phone purpose ttlSeconds
  if maxAttempts ≤ attempts then do
    clearOtpAttempts app phone purpose
    pure ⟨attempts, true⟩
  else pure ⟨attempts, false⟩

def saveOtpTransactionReqId
    (phone : String) (purpose : OtpPurpose) (transactionReqID : String)
    (ttlSeconds : ℕ) : Handler Unit :=
  tryRedisSet app
    (redisSet app (otpTransactionKey phone purpose) transactionReqID
      ttlSeconds)

def getOtpTransactionReqId (phone : String) (purpose : OtpPurpose) :
    Handler (Option String) :=
  if app.redisEnabled then
    tryCatch (redisGet app (otpTransactionKey phone purpose)) fun _ =>
      pure none
  else pure none

def clearOtpTransactionReqId (phone : String) (purpose : OtpPurpose) :
    Handler Unit :=
  tryRedisSet app (redisDel app (otpTransactionKey phone purpose))

def saveRefreshTokenJti
    (jti : String) (userId ttlSeconds : ℕ) (queryRunner : Option Client) :
    Handler Unit := do
  tryRedisSet app
    (redisSet app (refreshJtiKey jti) (toString userId) ttlSeconds)
  perform queryRunner fun now =>
    .saveRefreshToken jti userId (now + microseconds ttlSeconds)

/-- RETURNING user_id: the row that was there and is not any more. -/
def consumedUserId (jti : String) (before after : Database) : Option ℕ :=
  match before.authRefreshTokens.get jti, after.authRefreshTokens.get jti with
  | some row, none => some row.userId
  | _, _ => none

def consumeRefreshTokenJti (jti : String) : Handler (Option ℕ) := do
  tryRedisSet app (redisDel app (refreshJtiKey jti))
  execute none (fun now _ => .consumeRefreshToken jti now) (consumedUserId jti)

def revokeRefreshTokenJti (jti : String) : Handler Unit := do
  tryRedisSet app (redisDel app (refreshJtiKey jti))
  perform none fun now => .revokeRefreshToken jti now

/-! ## The console provider -/

structure PowSolution where
  challengeToken : String
  nonce : String
  deriving DecidableEq, Repr

structure StartVerificationPayload where
  phone : String
  purpose : OtpPurpose
  userId : Option ℕ
  powSolution : Option PowSolution
  deriving DecidableEq, Repr

structure StartVerificationResult where
  otp : Option String
  transactionReqID : Option String
  deriving DecidableEq, Repr

structure CheckVerificationPayload where
  phone : String
  code : String
  purpose : OtpPurpose
  transactionReqID : Option String
  deriving DecidableEq, Repr

structure CheckVerificationResult where
  localOtpId : Option ℕ
  deriving DecidableEq, Repr

def hashOtp (otp salt : String) : String :=
  app.libraries.createHmac app.config.otpSigningSecret (otp ++ ":" ++ salt)

/-- `randomInt(OTP_RANGE_MIN, OTP_RANGE_MAX)` as a text. -/
def Draw.otpText (draw : Draw) : String :=
  toString (otpRangeMin + draw.otp % (otpRangeMax - otpRangeMin))

/-- Dates in JavaScript count milliseconds. -/
def OtpRow.expired (now : ℕ) (row : OtpRow) : Bool :=
  decide (row.expiresAt / 1000 < now / 1000)

def newOtpRow
    (payload : StartVerificationPayload) (otp salt : String) (id now : ℕ) :
    OtpRow where
  id := id
  userId := payload.userId
  phone := payload.phone
  codeHash := hashOtp app otp salt
  salt := salt
  purpose := payload.purpose
  expiresAt := now + microseconds (app.config.otpTtlMinutes * 60)
  usedAt := none
  createdAt := now

def consoleStartVerification (payload : StartVerificationPayload) :
    Handler StartVerificationResult := do
  let otp ← draw fun d =>
    if app.config.otpDevMode then "000000" else d.otpText
  let salt ← draw Draw.salt
  execute none
    (fun now ids => .insertOtp (newOtpRow app payload otp salt ids.authOtps now))
    fun _ _ => ()
  pure
    { otp := if app.config.otpDevMode then some otp else none
      transactionReqID := none }

/-- The newest row of auth_otps for the pair. -/
def selectNewestOtp (phone : String) (purpose : OtpPurpose) :
    Handler (Option OtpRow) :=
  statement fun i _ w =>
    match w.db.newestOtp phone purpose with
    | none => some (.ok none, w)
    | some row => some (.ok (some row), w.record (.otpRead i w.now row))

def tooManyAttempts : HttpError :=
  ⟨.badRequest, "Too many attempts — OTP invalidated"⟩

def consoleCheckVerification (payload : CheckVerificationPayload) :
    Handler CheckVerificationResult := do
  let otpQuery ← selectNewestOtp payload.phone payload.purpose
  match otpQuery with
  | none => throw ⟨.badRequest, "OTP not found"⟩
  | some otpRow =>
      if otpRow.usedAt.isSome then throw ⟨.badRequest, "OTP already used"⟩
      else do
        let now ← currentTime
        if otpRow.expired now then throw ⟨.badRequest, "OTP expired"⟩
        else if hashOtp app payload.code otpRow.salt ≠ otpRow.codeHash then do
          let result ← incrementOtpAttempts app payload.phone payload.purpose
            otpMaxAttempts otpAttemptsTtlSeconds
          if result.locked then throw tooManyAttempts
          else throw ⟨.badRequest, "Invalid OTP"⟩
        else do
          clearOtpAttempts app payload.phone payload.purpose
          pure ⟨some otpRow.id⟩

/-! ## The Akedly provider -/

def normalizePhone (phone : String) : String :=
  if phone.startsWith "+" then phone else "+" ++ phone

def mappedSendError (response : AkedlyRejection) : HttpError :=
  let message := response.message.getD "OTP delivery failed"
  if 400 ≤ response.statusCode ∧ response.statusCode < 500 then
    ⟨.badRequest, message⟩
  else ⟨.serviceUnavailable, "OTP delivery failed: " ++ message⟩

def mappedVerifyError (response : AkedlyRejection) : HttpError :=
  let message := response.message.getD "Invalid or expired OTP"
  if response.code = some "ALREADY_VERIFIED" then ⟨.conflict, message⟩
  else if response.code = some "INVALID_OTP" ∨
      response.code = some "TRANSACTION_EXPIRED" ∨
      400 ≤ response.statusCode ∧ response.statusCode < 500 then
    ⟨.badRequest, message⟩
  else ⟨.serviceUnavailable, "OTP verification failed: " ++ message⟩

/-- Akedly never hands out a transaction id twice. -/
def akedlySend (payload : StartVerificationPayload) :
    Handler StartVerificationResult :=
  attempt fun i draw w =>
    match draw.akedly with
    | .unreachable => some (.error networkError, w)
    | .rejects => some (.error (mappedSendError draw.rejection), w)
    | .answers =>
        if draw.transactionReqID = "" then
          some (.error ⟨.serviceUnavailable,
            "OTP delivery failed: missing transactionReqID"⟩, w)
        else if w.akedly.any fun other =>
            other.transactionReqID = draw.transactionReqID then none
        else
          some (.ok ⟨none, some draw.transactionReqID⟩,
            (w.startTransaction
              ⟨draw.transactionReqID, normalizePhone payload.phone,
                draw.akedlyCode⟩).record
              (.akedlySent i payload.phone payload.purpose
                draw.transactionReqID))

def akedlyStartVerification (payload : StartVerificationPayload) :
    Handler StartVerificationResult :=
  if payload.powSolution.isNone then
    throw ⟨.badRequest, "powSolution is required"⟩
  else akedlySend payload

def akedlyVerify (transactionReqID code : String) :
    Handler CheckVerificationResult :=
  attempt fun i draw w =>
    match draw.akedly with
    | .unreachable => some (.error networkError, w)
    | .rejects => some (.error (mappedVerifyError draw.rejection), w)
    | .answers =>
        if w.akedlyVerifies transactionReqID code then
          some (.ok ⟨none⟩, w.record (.akedlyVerified i transactionReqID code))
        else some (.error (mappedVerifyError draw.rejection), w)

def akedlyCheckVerification (payload : CheckVerificationPayload) :
    Handler CheckVerificationResult :=
  match payload.transactionReqID with
  | none => throw ⟨.badRequest, "transactionReqID is required"⟩
  | some transactionReqID =>
      if transactionReqID = "" then
        throw ⟨.badRequest, "transactionReqID is required"⟩
      else akedlyVerify transactionReqID payload.code

/-! ## The configured provider -/

def startVerification (payload : StartVerificationPayload) :
    Handler StartVerificationResult :=
  match app.config.otpProvider with
  | .akedly => akedlyStartVerification payload
  | .console => consoleStartVerification app payload

def checkVerification (payload : CheckVerificationPayload) :
    Handler CheckVerificationResult :=
  match app.config.otpProvider with
  | .akedly => akedlyCheckVerification payload
  | .console => consoleCheckVerification app payload

end MarketPlace
