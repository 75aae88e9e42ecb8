import MarketPlace.AuthService

/-!
# Accounts, moderation, chat messages and the whole backend

The guards, the account and admin services, the seed script, the hourly
cleanup and the chat gateway's connection and message events.  The backend is
the system in which requests to all of these interleave.
-/

namespace MarketPlace

open Interleaving

variable (app : Deployment)

/-! ## Guards -/

def invalidToken : HttpError := ⟨.unauthorized, "Invalid token"⟩
def staleToken : HttpError := ⟨.unauthorized, "Token is stale"⟩

/-- `JwtStrategy.validate`. -/
def validate (payload : Token) : Handler AuthUser :=
  if payload.sub = 0 then throw invalidToken
  else do
    let user ← selectUser none fun db => db.liveUserById payload.sub
    match user with
    | none => throw staleToken
    | some row =>
        if row.tokenVersion ≠ payload.tokenVersion then throw staleToken
        else pure ⟨payload.sub, row.phone, payload.isAdmin, row.tokenVersion⟩

/-- The bearer token is verified, then validated. -/
def jwtAuthGuard (token : Token) : Handler AuthUser := do
  verifyAsync token app.config.jwtAccessSecret
  validate token

def adminRequired : HttpError :=
  ⟨.forbidden, "Admin privileges required"⟩

def adminGuard (token : Token) : Handler AuthUser := do
  let user ← jwtAuthGuard app token
  let isAdmin ← select none fun db =>
    (db.users.get user.sub).any UserRow.isAdmin
  if isAdmin then pure { user with isAdmin := true }
  else throw adminRequired

/-! ## UsersService -/

structure ChangePasswordDto where
  oldPassword : String
  newPassword : String
  deriving DecidableEq, Repr

def accountNotFound : HttpError := ⟨.notFound, "User not found"⟩

def changePassword (user : AuthUser) (dto : ChangePasswordDto) :
    Handler Response := do
  let query ← select none fun db =>
    (db.liveUserById user.sub).map UserRow.passwordHash
  match query with
  | none => throw accountNotFound
  | some passwordHash =>
      if app.libraries.bcryptCompare dto.oldPassword passwordHash = false then
        throw ⟨.badRequest, "Invalid old password"⟩
      else do
        let newPasswordHash ← hashPassword app dto.newPassword
        perform none fun now =>
          .updatePassword user.sub newPasswordHash true now
        pure (.message "Password changed successfully")

/-- The soft delete, RETURNING id. -/
def softDelete (userId : ℕ) : Handler Bool :=
  execute none (fun now _ => .deleteUser userId now) fun before _ =>
    (before.liveUserById userId).isSome

def deleteMe (user : AuthUser) : Handler Response := do
  let deleted ← softDelete user.sub
  if !deleted then throw accountNotFound
  else pure (.message "Account deleted")

/-! ## AdminService -/

def logAdminAction
    (actorId : ℕ) (action targetType : String) (targetId : Option ℕ)
    (payload : AuditPayload) : Handler Unit :=
  tryCatch
    (execute none
      (fun now ids =>
        .insertAuditLog
          { id := ids.adminAuditLogs
            actorId := actorId
            action := action
            targetType := targetType
            targetId := targetId
            payload := payload
            createdAt := now })
      fun _ _ => ())
    fun _ => pure ()

/-- An UPDATE of a live user, RETURNING the row. -/
def updateLiveUser (userId : ℕ) (write : ℕ → Write) :
    Handler (Option UserRow) :=
  execute none (fun now _ => write now) fun _ after =>
    after.liveUserById userId

/-- The response of promote and demote, which reads `rows[0]` unchecked. -/
def promotionResponse (row : Option UserRow) : Handler Response :=
  match row with
  | none => throw typeError
  | some row =>
      pure (.promoted (mapToAppUser row) row.isAdmin row.tokenVersion)

def promoteAdmin (admin : AuthUser) (userId : ℕ) : Handler Response := do
  let before ← select none fun db =>
    (db.liveUserById userId).map UserRow.isAdmin
  match before with
  | none => throw accountNotFound
  | some isAdmin =>
      if isAdmin then throw ⟨.conflict, "User is already an admin"⟩
      else do
        let row ← updateLiveUser userId fun now => .promoteAdmin userId now
        logAdminAction admin.sub "promote_admin" "user" (some userId)
          (.isAdmin true)
        promotionResponse row

def demoteAdmin (admin : AuthUser) (userId : ℕ) : Handler Response :=
  if admin.sub = userId then
    throw ⟨.badRequest, "Admins cannot demote themselves"⟩
  else do
    let before ← select none fun db =>
      (db.liveUserById userId).map UserRow.isAdmin
    match before with
    | none => throw accountNotFound
    | some isAdmin =>
        if !isAdmin then throw ⟨.conflict, "User is not an admin"⟩
        else do
          let row ← updateLiveUser userId fun now => .demoteAdmin userId now
          logAdminAction admin.sub "demote_admin" "user" (some userId)
            (.isAdmin false)
          promotionResponse row

def userStatusKey (userId : ℕ) : String := "user:status:" ++ toString userId

def updateUserStatus (admin : AuthUser) (userId : ℕ) (status : UserStatus) :
    Handler Response := do
  let query ← updateLiveUser userId fun now => .updateStatus userId status now
  match query with
  | none => throw accountNotFound
  | some row => do
      logAdminAction admin.sub "update_user_status" "user" (some userId)
        (.status status)
      redisDel app (userStatusKey userId)
      pure (.moderated (mapToAppUser row) row.isAdmin)

def deleteUser (admin : AuthUser) (userId : ℕ) : Handler Response := do
  let deleted ← softDelete userId
  if !deleted then throw accountNotFound
  else do
    logAdminAction admin.sub "delete_user" "user" (some userId) .empty
    redisDel app (userStatusKey userId)
    pure (.message "User deleted")

/-! ## The seed script and the cleanup task -/

def seedFailed : HttpError := ⟨.internal, "Failed to seed admin user"⟩

def seedAdminUser (phone passwordHash : String) (client : Client) :
    Handler Response := do
  let existing ← select (some client) fun db => (db.userByPhone phone).isSome
  if existing then pure ()
  else do
    let _ ← insertUser client "Primary Admin" phone passwordHash true
    pure ()
  let updated ← execute (some client)
    (fun now _ => .seedAdmin phone passwordHash now)
    fun _ after => (after.userByPhone phone).map fun row => (row.id, row.phone)
  match updated with
  | none => throw seedFailed
  | some (id, phone) => pure (.seeded id phone (!existing))

/-- `scripts/seed-admin.ts`. -/
def seedAdmin (phone password : String) : Handler Response := do
  let passwordHash ← hashPassword app password
  withTransaction (seedAdminUser phone passwordHash)

def purgeExpiredOtps : Handler Response := do
  perform none fun now => .purgeOtps now
  perform none fun now => .purgePending now
  pure .empty

/-! ## The chat gateway -/

def missingSubject : HttpError := ⟨.unauthorized, "Invalid token subject"⟩

def registerUserSocket (userId : ℕ) : Handler Response :=
  .atomic
    (fun i _ w =>
      some (.connected w.ids.sockets,
        (w.openSocket ⟨w.ids.sockets, userId⟩).record
          (.socketOpened i w.ids.sockets userId)))
    .done

/-- A connection whose handshake token does not verify is closed. -/
def handleConnection (token : Token) : Handler Response := do
  verifyAsync token app.config.jwtAccessSecret
  if token.sub = 0 then throw missingSubject
  else registerUserSocket token.sub

/-- `getUser(client)`. -/
def socketUser (socket : ℕ) : Handler ℕ :=
  attempt fun i _ w =>
    match w.sockets.find? fun other => other.id = socket with
    | none => some (.error ⟨.unauthorized, "Unauthorized"⟩, w)
    | some other =>
        some (.ok other.userId, w.record (.socketUsed i socket other.userId))

def assertConversationParticipant (conversationId userId : ℕ) :
    Handler Unit := do
  let query ← select none fun db => db.conversations.get conversationId
  match query with
  | none => throw ⟨.notFound, "Conversation not found"⟩
  | some conversation =>
      if conversation.userAId = 0 ∨ conversation.userBId = 0 then
        throw ⟨.notFound, "Conversation participants are invalid"⟩
      else if conversation.userAId ≠ userId ∧ conversation.userBId ≠ userId then
        throw ⟨.forbidden, "Not a participant of this conversation"⟩
      else do
        let otherUserId :=
          if conversation.userAId = userId then conversation.userBId
          else conversation.userAId
        let blocked ← select none fun db =>
          db.hasBlockBetweenUsers userId otherUserId
        if blocked then throw ⟨.forbidden, "Conversation is not available"⟩
        else pure ()

/-- `INSERT INTO messages … RETURNING`, with the text's CHECK. -/
def insertMessage (conversationId senderId : ℕ) (text : String) :
    Handler MessageRow :=
  statement fun i _ w =>
    let row : MessageRow :=
      ⟨w.ids.messages, conversationId, senderId, text, w.now, none⟩
    if (w.db.conversations.get conversationId).isNone then
      some (.error ⟨.notFound, "Conversation not found"⟩, w)
    else if text.toList.all fun c => c = ' ' then
      some (.error databaseError, w)
    else some (.ok row, w.autocommit i (.insertMessage row))

def sendMessage (socket conversationId : ℕ) (text : String) :
    Handler Response := do
  let userId ← socketUser socket
  assertConversationParticipant conversationId userId
  let row ← insertMessage conversationId userId text
  perform none fun _ => .setLastMessage conversationId row.id
  pure (.messageSent row)

/-! ## The backend as a system -/

/-- A call of the configured verification provider or of its attempt counter. -/
inductive ProviderCall where
  | startVerification (payload : StartVerificationPayload)
  | checkVerification (payload : CheckVerificationPayload)
  | clearOtpAttempts (phone : String) (purpose : OtpPurpose)
  deriving DecidableEq, Repr

def ProviderCall.handler : ProviderCall → Handler Response
  | .startVerification payload => do
      let result ← MarketPlace.startVerification app payload
      pure (.started result)
  | .checkVerification payload => do
      let result ← MarketPlace.checkVerification app payload
      pure (.checked result)
  | .clearOtpAttempts phone purpose => do
      MarketPlace.clearOtpAttempts app phone purpose
      pure .empty

inductive Request where
  | provider (call : ProviderCall)
  | requestRegistrationOtp (dto : RequestRegistrationOtpDto)
  | resendRegistrationOtp (phone : String)
  | verifyRegistrationOtp (dto : VerifyRegistrationOtpDto)
  | login (dto : LoginDto)
  | requestPasswordResetOtp (phone : String)
  | resetPassword (dto : ResetPasswordDto)
  | refresh (refreshToken : Token)
  | logout (accessToken refreshToken : Token)
  | sendAkedlyOtp (dto : AkedlySendOtpDto)
  | authenticate (accessToken : Token)
  | changePassword (accessToken : Token) (dto : ChangePasswordDto)
  | deleteMe (accessToken : Token)
  | promoteAdmin (accessToken : Token) (userId : ℕ)
  | demoteAdmin (accessToken : Token) (userId : ℕ)
  | updateUserStatus (accessToken : Token) (userId : ℕ) (status : UserStatus)
  | deleteUser (accessToken : Token) (userId : ℕ)
  | seedAdmin (phone password : String)
  | purgeExpiredOtps
  | handleConnection (token : Token)
  | sendMessage (socket conversationId : ℕ) (text : String)
  deriving DecidableEq, Repr

/-- What the router runs for a request: the guards, then the service. -/
def Request.handler : Request → Handler Response
  | .provider call => call.handler app
  | .requestRegistrationOtp dto => MarketPlace.requestRegistrationOtp app dto
  | .resendRegistrationOtp phone => MarketPlace.resendRegistrationOtp app phone
  | .verifyRegistrationOtp dto => MarketPlace.verifyRegistrationOtp app dto
  | .login dto => MarketPlace.login app dto
  | .requestPasswordResetOtp phone =>
      MarketPlace.requestPasswordResetOtp app phone
  | .resetPassword dto => MarketPlace.resetPassword app dto
  | .refresh refreshToken => MarketPlace.refresh app refreshToken
  | .logout accessToken refreshToken => do
      let _ ← jwtAuthGuard app accessToken
      MarketPlace.logout app refreshToken
  | .sendAkedlyOtp dto => MarketPlace.sendAkedlyOtp app dto
  | .authenticate accessToken => do
      let user ← jwtAuthGuard app accessToken
      pure (.authenticated user)
  | .changePassword accessToken dto => do
      let user ← jwtAuthGuard app accessToken
      MarketPlace.changePassword app user dto
  | .deleteMe accessToken => do
      let user ← jwtAuthGuard app accessToken
      MarketPlace.deleteMe user
  | .promoteAdmin accessToken userId => do
      let admin ← adminGuard app accessToken
      MarketPlace.promoteAdmin admin userId
  | .demoteAdmin accessToken userId => do
      let admin ← adminGuard app accessToken
      MarketPlace.demoteAdmin admin userId
  | .updateUserStatus accessToken userId status => do
      let admin ← adminGuard app accessToken
      MarketPlace.updateUserStatus app admin userId status
  | .deleteUser accessToken userId => do
      let admin ← adminGuard app accessToken
      MarketPlace.deleteUser app admin userId
  | .seedAdmin phone password => MarketPlace.seedAdmin app phone password
  | .purgeExpiredOtps => MarketPlace.purgeExpiredOtps
  | .handleConnection token => MarketPlace.handleConnection app token
  | .sendMessage socket conversationId text =>
      MarketPlace.sendMessage socket conversationId text

def backend : System Request Draw Surroundings World HttpError Response where
  handler := Request.handler app
  environment := World.surroundings

/-- Only the provider's own calls, as one process sees them. -/
def otpProviderSystem :
    System ProviderCall Draw Surroundings World HttpError Response where
  handler := ProviderCall.handler app
  environment := World.surroundings

def Pool.start {ρ : Type} (now : ℕ) :
    Pool ρ Draw World HttpError Response :=
  ⟨World.initial now, []⟩

end MarketPlace
