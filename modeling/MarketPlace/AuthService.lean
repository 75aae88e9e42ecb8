import MarketPlace.OtpVerification

/-!
# AuthService

Registration, login, password reset, refresh and logout, statement by
statement.
-/

namespace MarketPlace

open Interleaving

variable (app : Deployment)

structure RequestRegistrationOtpDto where
  name : String
  phone : String
  password : String
  deriving DecidableEq, Repr

structure VerifyRegistrationOtpDto where
  phone : String
  otp : String
  transactionReqID : Option String
  deriving DecidableEq, Repr

structure LoginDto where
  phone : String
  password : String
  deriving DecidableEq, Repr

structure ResetPasswordDto where
  phone : String
  otp : String
  transactionReqID : Option String
  newPassword : String
  confirmPassword : String
  deriving DecidableEq, Repr

structure AkedlySendOtpDto where
  phoneNumber : String
  purpose : OtpPurpose
  powSolution : PowSolution
  deriving DecidableEq, Repr

structure AppUser where
  id : ℕ
  name : String
  phone : String
  profileState : UserStatus
  deriving DecidableEq, Repr

structure AuthUser where
  sub : ℕ
  phone : String
  isAdmin : Bool
  tokenVersion : ℕ
  deriving DecidableEq, Repr

structure Tokens where
  accessToken : Token
  refreshToken : Token
  deriving DecidableEq, Repr

inductive Response where
  | message (text : String)
  | otpSent (otp : Option String)
  | session (user : AppUser) (tokens : Tokens)
  | passwordReset (tokens : Tokens)
  | refreshed (tokens : Tokens)
  | empty
  | started (result : StartVerificationResult)
  | checked (result : CheckVerificationResult)
  | authenticated (user : AuthUser)
  | promoted (user : AppUser) (isAdmin : Bool) (tokenVersion : ℕ)
  | moderated (user : AppUser) (isAdmin : Bool)
  | seeded (id : ℕ) (phone : String) (created : Bool)
  | connected (socket : ℕ)
  | messageSent (row : MessageRow)
  deriving DecidableEq, Repr

def mapToAppUser (row : UserRow) : AppUser :=
  ⟨row.id, row.name, row.phone, row.status⟩

def buildOtpSentResponse (result : StartVerificationResult) : Response :=
  .otpSent result.otp

/-! ## Tokens -/

def unitSeconds (unit : Char) : Option ℕ :=
  if unit = 's' then some 1
  else if unit = 'm' then some 60
  else if unit = 'h' then some 3600
  else if unit = 'd' then some 86400
  else none

def decimal (digits : List Char) : ℕ :=
  digits.foldl (fun value digit => 10 * value + (digit.toNat - '0'.toNat)) 0

/-- `ttl.match(/^(\d+)([smhd])$/)`. -/
def parseTtlSeconds (ttl : String) : ℕ :=
  match ttl.toList.reverse with
  | [] => refreshTtlFallbackSeconds
  | unit :: digits =>
      match unitSeconds unit with
      | none => refreshTtlFallbackSeconds
      | some seconds =>
          if digits ≠ [] ∧ digits.all Char.isDigit then
            decimal digits.reverse * seconds
          else refreshTtlFallbackSeconds

def accessTokenFor
    (userId : ℕ) (phone : String) (isAdmin : Bool) (tokenVersion seconds : ℕ) :
    Token where
  secret := app.config.jwtAccessSecret
  sub := userId
  phone := phone
  isAdmin := isAdmin
  tokenVersion := tokenVersion
  jti := none
  exp := seconds + app.libraries.jwtLifetime app.config.jwtAccessTtl

def refreshTokenFor
    (userId : ℕ) (phone : String) (isAdmin : Bool) (tokenVersion : ℕ)
    (jti : String) (seconds : ℕ) : Token where
  secret := app.config.jwtRefreshSecret
  sub := userId
  phone := phone
  isAdmin := isAdmin
  tokenVersion := tokenVersion
  jti := some jti
  exp := seconds + app.libraries.jwtLifetime app.config.jwtRefreshTtl

/-- The two `signAsync` calls. -/
def signTokens
    (userId : ℕ) (phone : String) (isAdmin : Bool) (tokenVersion : ℕ)
    (jti : String) : Handler Tokens :=
  .atomic
    (fun i _ w =>
      let accessToken :=
        accessTokenFor app userId phone isAdmin tokenVersion w.seconds
      let refreshToken :=
        refreshTokenFor app userId phone isAdmin tokenVersion jti w.seconds
      some (⟨accessToken, refreshToken⟩,
        (w.record (.minted i accessToken)).record (.minted i refreshToken)))
    .done

def generateTokens
    (userId : ℕ) (phone : String) (isAdmin : Bool) (tokenVersion : ℕ)
    (queryRunner : Option Client) : Handler Tokens := do
  let jti ← draw Draw.jti
  let tokens ← signTokens app userId phone isAdmin tokenVersion jti
  saveRefreshTokenJti app jti userId
    (parseTtlSeconds app.config.jwtRefreshTtl) queryRunner
  pure tokens

def invalidSignature : HttpError := ⟨.unauthorized, "Unauthorized"⟩

/-- `JwtService.verifyAsync`. -/
def verifyAsync (token : Token) (secret : String) : Handler Unit :=
  attempt fun i _ w =>
    if w.tokenVerifies token secret then
      some (.ok (), w.record (.verified i w.now token))
    else some (.error invalidSignature, w)

/-- `hash(password, BCRYPT_ROUNDS)` of bcryptjs. -/
def hashPassword (password : String) : Handler String :=
  draw fun d => app.libraries.bcryptHash password bcryptRounds d.passwordSalt

/-! ## Registration -/

def registrationPayload (phone : String) : StartVerificationPayload :=
  ⟨phone, .registration, none, none⟩

/-- The upsert of a pending registration, RETURNING id. -/
def upsertPendingRegistration
    (phone name passwordHash : String) (ttlMinutes : ℕ) : Handler (Option ℕ) :=
  execute none
    (fun now ids =>
      .upsertPending
        { id := ids.pendingRegistrations
          phone := phone
          name := name
          passwordHash := passwordHash
          expiresAt := now + microseconds (ttlMinutes * 60)
          createdAt := now })
    fun _ after =>
      (after.pendingRegistrations.get phone).map PendingRegistrationRow.id

def deletePendingById (pendingId : Option ℕ) : Handler Unit :=
  match pendingId with
  | none => throw typeError
  | some id => perform none fun _ => .deletePendingById id

def requestRegistrationOtp (dto : RequestRegistrationOtpDto) :
    Handler Response := do
  let existingUser ← select none fun db => (db.userByPhone dto.phone).isSome
  if existingUser then throw ⟨.conflict, "Phone already exists"⟩
  else do
    let passwordHash ← hashPassword app dto.password
    let pendingId ← upsertPendingRegistration dto.phone dto.name passwordHash
      app.config.otpTtlMinutes
    if app.config.otpProvider = .akedly then
      pure (.message
        "Registration pending. Complete Shield flow then call /auth/akedly/send.")
    else
      tryCatch
        (do
          let verificationResult ←
            startVerification app (registrationPayload dto.phone)
          pure (buildOtpSentResponse verificationResult))
        fun error => do
          tryCatch (deletePendingById pendingId) fun _ => pure ()
          throw error

def pendingNotFound : HttpError :=
  ⟨.notFound, "No pending registration found for this phone"⟩

/-- `WHERE phone = $1 AND expires_at > NOW()`, of which only the count is
read. -/
def hasPendingRegistration (phone : String) : Handler Bool :=
  statement fun _ _ w => some (.ok (w.db.openPending phone w.now).isSome, w)

def resendRegistrationOtp (phone : String) : Handler Response := do
  let pending ← hasPendingRegistration phone
  if !pending then throw pendingNotFound
  else if app.config.otpProvider = .akedly then
    pure (.message
      "Pending registration found. Complete Shield flow then call /auth/akedly/send.")
  else do
    let verificationResult ← startVerification app (registrationPayload phone)
    pure (buildOtpSentResponse verificationResult)

/-- `SELECT … FROM pending_registrations … FOR UPDATE`. -/
def selectPendingForUpdate (client : Client) (phone : String) :
    Handler (Option PendingRegistrationRow) :=
  statement fun i _ w =>
    match (w.viewFor (some client) i).openPending phone client.startedAt with
    | none => some (.ok none, w)
    | some row =>
        if w.store.available i [.pending row.phone] then
          some (.ok (some row),
            (w.lock i [.pending row.phone]).record (.pendingRead i row))
        else none

def newUserRow
    (name phone passwordHash : String) (isAdmin : Bool) (id now : ℕ) :
    UserRow where
  id := id
  name := name
  phone := phone
  passwordHash := passwordHash
  status := .active
  isAdmin := isAdmin
  tokenVersion := 0
  deletedAt := none
  createdAt := now
  updatedAt := now

def uniqueViolation : HttpError := ⟨.internal, "Internal server error"⟩

/-- `INSERT INTO users … RETURNING`, which the unique phone may reject. -/
def insertUser (client : Client) (name phone passwordHash : String)
    (isAdmin : Bool) : Handler UserRow :=
  statement fun i _ w =>
    let row :=
      newUserRow name phone passwordHash isAdmin w.ids.users client.startedAt
    if ((w.viewFor (some client) i).userByPhone phone).isSome then
      some (.error uniqueViolation, w)
    else if w.lockable (some client) i (.insertUser row) then
      some (.ok row, w.enqueue i (.insertUser row))
    else none

/-- `if (verificationResult.localOtpId) UPDATE auth_otps SET used_at`. -/
def markOtpUsed (client : Client) (result : CheckVerificationResult) :
    Handler Unit :=
  match result.localOtpId with
  | none => pure ()
  | some id => perform (some client) fun now => .useOtp id now

/-- `dto.transactionReqID ?? (await getOtpTransactionReqId(…)) ?? undefined`. -/
def resolveTransactionReqID
    (fromBody : Option String) (phone : String) (purpose : OtpPurpose) :
    Handler (Option String) :=
  match fromBody with
  | some transactionReqID => pure (some transactionReqID)
  | none => getOtpTransactionReqId app phone purpose

def phoneAlreadyExists : HttpError := ⟨.conflict, "Phone already exists"⟩

/-- The transaction of `verifyRegistrationOtp`. -/
def completeRegistration
    (phone : String) (verificationResult : CheckVerificationResult)
    (client : Client) : Handler Response := do
  let pendingQuery ← selectPendingForUpdate client phone
  match pendingQuery with
  | none => throw ⟨.badRequest, "Registration session expired or not found"⟩
  | some pending => do
      let createdUser ← tryCatch
        (insertUser client pending.name phone pending.passwordHash false)
        fun _ => throw phoneAlreadyExists
      markOtpUsed client verificationResult
      clearOtpTransactionReqId app phone .registration
      perform (some client) fun _ => .deletePendingByPhone phone
      let tokens ← generateTokens app createdUser.id phone false 0 (some client)
      pure (.session (mapToAppUser createdUser) tokens)

def verifyRegistrationOtp (dto : VerifyRegistrationOtpDto) :
    Handler Response := do
  let transactionReqID ←
    resolveTransactionReqID app dto.transactionReqID dto.phone .registration
  let verificationResult ← checkVerification app
    ⟨dto.phone, dto.otp, .registration, transactionReqID⟩
  withTransaction (completeRegistration app dto.phone verificationResult)

/-! ## Login -/

def invalidCredentials : HttpError := ⟨.unauthorized, "Invalid credentials"⟩

def login (dto : LoginDto) : Handler Response := do
  let query ← selectUser none fun db => db.liveUserByPhone dto.phone
  match query with
  | none => throw invalidCredentials
  | some user =>
      if user.status ≠ .active then throw invalidCredentials
      else if app.libraries.bcryptCompare dto.password user.passwordHash = false
      then throw invalidCredentials
      else do
        let tokens ← generateTokens app user.id user.phone user.isAdmin
          user.tokenVersion none
        pure (.session (mapToAppUser user) tokens)

/-! ## Password reset -/

def requestPasswordResetOtp (phone : String) : Handler Response := do
  let userQuery ← select none fun db =>
    (db.liveUserByPhone phone).map UserRow.id
  match userQuery with
  | none =>
      pure (.message "If this number is registered, an OTP has been sent")
  | some userId =>
      if app.config.otpProvider = .akedly then
        pure (.message
          "If this number is registered, complete Shield flow then call /auth/akedly/send")
      else do
        let verificationResult ← startVerification app
          ⟨phone, .passwordReset, some userId, none⟩
        pure (buildOtpSentResponse verificationResult)

def userNotFound : HttpError := ⟨.badRequest, "User not found"⟩

/-- The transaction of `resetPassword`. -/
def completeReset
    (dto : ResetPasswordDto) (verificationResult : CheckVerificationResult)
    (client : Client) : Handler Response := do
  let account ← selectUser (some client) fun db => db.liveUserByPhone dto.phone
  match account with
  | none => throw userNotFound
  | some user =>
      if user.status ≠ .active then throw invalidCredentials
      else do
        let passwordHash ← hashPassword app dto.newPassword
        let updatedUser ← execute (some client)
          (fun now _ => .updatePassword user.id passwordHash false now)
          fun _ after => after.users.get user.id
        match updatedUser with
        | none => throw userNotFound
        | some updated => do
            markOtpUsed client verificationResult
            clearOtpTransactionReqId app dto.phone .passwordReset
            let tokens ← generateTokens app updated.id updated.phone
              user.isAdmin user.tokenVersion (some client)
            pure (.passwordReset tokens)

def resetPassword (dto : ResetPasswordDto) : Handler Response :=
  if dto.newPassword ≠ dto.confirmPassword then
    throw ⟨.badRequest, "Passwords do not match"⟩
  else do
    let transactionReqID ←
      resolveTransactionReqID app dto.transactionReqID dto.phone .passwordReset
    let verificationResult ← checkVerification app
      ⟨dto.phone, dto.otp, .passwordReset, transactionReqID⟩
    withTransaction (completeReset app dto verificationResult)

/-! ## Refresh and logout -/

def invalidRefreshToken : HttpError :=
  ⟨.unauthorized, "Invalid refresh token"⟩

def refresh (refreshToken : Token) : Handler Response := do
  tryCatch (verifyAsync refreshToken app.config.jwtRefreshSecret) fun _ =>
    throw invalidRefreshToken
  match refreshToken.jti with
  | none => throw invalidRefreshToken
  | some jti =>
      if jti = "" then throw invalidRefreshToken
      else do
        let storedUserId ← consumeRefreshTokenJti app jti
        if storedUserId ≠ some refreshToken.sub then throw invalidRefreshToken
        else do
          let query ← selectUser none fun db =>
            db.liveUserById refreshToken.sub
          match query with
          | none => throw invalidRefreshToken
          | some user =>
              if user.status ≠ .active then throw invalidRefreshToken
              else if user.tokenVersion ≠ refreshToken.tokenVersion then
                throw invalidRefreshToken
              else do
                let tokens ← generateTokens app user.id user.phone
                  user.isAdmin user.tokenVersion none
                pure (.refreshed tokens)

def logout (refreshToken : Token) : Handler Response := do
  tryCatch
    (do
      verifyAsync refreshToken app.config.jwtRefreshSecret
      match refreshToken.jti with
      | none => pure ()
      | some jti =>
          if jti = "" then pure () else revokeRefreshTokenJti app jti)
    fun _ => pure ()
  pure .empty

/-! ## Akedly -/

/-- `if (verificationResult.transactionReqID) saveOtpTransactionReqId(…)`. -/
def rememberTransaction
    (dto : AkedlySendOtpDto) (result : StartVerificationResult) :
    Handler Unit :=
  match result.transactionReqID with
  | none => pure ()
  | some transactionReqID =>
      if transactionReqID = "" then pure ()
      else
        saveOtpTransactionReqId app dto.phoneNumber dto.purpose
          transactionReqID (app.config.otpTtlMinutes * 60)

def startAkedlyVerification (dto : AkedlySendOtpDto) : Handler Response := do
  let verificationResult ← startVerification app
    ⟨dto.phoneNumber, dto.purpose, none, some dto.powSolution⟩
  rememberTransaction app dto verificationResult
  pure (buildOtpSentResponse verificationResult)

def sendAkedlyOtp (dto : AkedlySendOtpDto) : Handler Response :=
  if app.config.otpProvider ≠ .akedly then
    throw ⟨.badRequest, "AKEDLY is not enabled"⟩
  else
    match dto.purpose with
    | .registration => do
        let pending ← hasPendingRegistration dto.phoneNumber
        if !pending then throw pendingNotFound
        else startAkedlyVerification app dto
    | .passwordReset => do
        let userQuery ← select none fun db =>
          (db.liveUserByPhone dto.phoneNumber).isSome
        if !userQuery then
          pure (.message "If this number is registered, an OTP has been sent")
        else startAkedlyVerification app dto

end MarketPlace
