import MarketPlace.KeyedTables
import MarketPlace.ReadCommittedStore
import Mathlib.Data.List.MinMax

/-!
# Tables, writes and configuration

The tables that the account, OTP and chat-message code of the backend reads and
writes, and one constructor for each SQL statement that changes them.  Times
are microseconds since a fixed origin, except where the source counts in
seconds.
-/

namespace MarketPlace

open Relational

inductive UserStatus where
  | active
  | paused
  | banned
  deriving DecidableEq, Repr

inductive OtpPurpose where
  | registration
  | passwordReset
  deriving DecidableEq, Repr

def OtpPurpose.text : OtpPurpose → String
  | .registration => "registration"
  | .passwordReset => "password_reset"

/-! ## Rows -/

structure UserRow where
  id : ℕ
  name : String
  phone : String
  passwordHash : String
  status : UserStatus
  isAdmin : Bool
  tokenVersion : ℕ
  deletedAt : Option ℕ
  createdAt : ℕ
  updatedAt : ℕ
  deriving DecidableEq, Repr

structure OtpRow where
  id : ℕ
  userId : Option ℕ
  phone : String
  codeHash : String
  salt : String
  purpose : OtpPurpose
  expiresAt : ℕ
  usedAt : Option ℕ
  createdAt : ℕ
  deriving DecidableEq, Repr

structure OtpAttemptRow where
  phone : String
  purpose : OtpPurpose
  attempts : ℕ
  expiresAt : ℕ
  updatedAt : ℕ
  deriving DecidableEq, Repr

def OtpAttemptRow.key (row : OtpAttemptRow) : String × OtpPurpose :=
  (row.phone, row.purpose)

structure RefreshTokenRow where
  jti : String
  userId : ℕ
  expiresAt : ℕ
  revokedAt : Option ℕ
  deriving DecidableEq, Repr

structure PendingRegistrationRow where
  id : ℕ
  phone : String
  name : String
  passwordHash : String
  expiresAt : ℕ
  createdAt : ℕ
  deriving DecidableEq, Repr

inductive AuditPayload where
  | empty
  | isAdmin (value : Bool)
  | status (value : UserStatus)
  deriving DecidableEq, Repr

structure AuditLogRow where
  id : ℕ
  actorId : ℕ
  action : String
  targetType : String
  targetId : Option ℕ
  payload : AuditPayload
  createdAt : ℕ
  deriving DecidableEq, Repr

structure ConversationRow where
  id : ℕ
  userAId : ℕ
  userBId : ℕ
  lastMessageId : Option ℕ
  deriving DecidableEq, Repr

structure MessageRow where
  id : ℕ
  conversationId : ℕ
  senderId : ℕ
  messageText : String
  sentAt : ℕ
  readAt : Option ℕ
  deriving DecidableEq, Repr

structure BlockRow where
  blockerId : ℕ
  blockedId : ℕ
  deriving DecidableEq, Repr

structure Database where
  users : Table UserRow.id
  authOtps : Table OtpRow.id
  authOtpAttempts : Table OtpAttemptRow.key
  authRefreshTokens : Table RefreshTokenRow.jti
  pendingRegistrations : Table PendingRegistrationRow.phone
  adminAuditLogs : Table AuditLogRow.id
  conversations : Table ConversationRow.id
  messages : Table MessageRow.id
  userBlocks : Table (id : BlockRow → BlockRow)

namespace Database

def empty : Database :=
  ⟨.empty, .empty, .empty, .empty, .empty, .empty, .empty, .empty, .empty⟩

/-- `WHERE phone = $1 LIMIT 1` on users. -/
def userByPhone (db : Database) (phone : String) : Option UserRow :=
  db.users.rows.find? fun row => row.phone = phone

/-- `WHERE phone = $1 AND deleted_at IS NULL LIMIT 1` on users. -/
def liveUserByPhone (db : Database) (phone : String) : Option UserRow :=
  db.users.rows.find? fun row => row.phone = phone && row.deletedAt.isNone

/-- `WHERE id = $1 AND deleted_at IS NULL LIMIT 1` on users. -/
def liveUserById (db : Database) (id : ℕ) : Option UserRow :=
  (db.users.get id).filter fun row => row.deletedAt.isNone

/-- `WHERE phone = $1 AND purpose = $2 ORDER BY created_at DESC LIMIT 1`.  Of OTPs
of one time, which the source leaves open, it is the one inserted first. -/
def newestOtp (db : Database) (phone : String) (purpose : OtpPurpose) :
    Option OtpRow :=
  (db.authOtps.rows.filter fun row =>
    row.phone = phone && row.purpose = purpose).argmax OtpRow.createdAt

/-- `WHERE phone = $1 AND expires_at > NOW()` on pending_registrations. -/
def openPending (db : Database) (phone : String) (now : ℕ) :
    Option PendingRegistrationRow :=
  (db.pendingRegistrations.get phone).filter fun row => now < row.expiresAt

/-- EXISTS of a block in either direction. -/
def hasBlockBetweenUsers (db : Database) (userAId userBId : ℕ) : Bool :=
  db.userBlocks.rows.any fun row =>
    (row.blockerId = userAId && row.blockedId = userBId) ||
      (row.blockerId = userBId && row.blockedId = userAId)

end Database

/-! ## Writes -/

def microseconds (seconds : ℕ) : ℕ := seconds * 1000000

/-- `INTERVAL '1 day'`. -/
def oneDay : ℕ := microseconds 86400

inductive Write where
  | insertUser (row : UserRow)
  | updatePassword
      (userId : ℕ) (passwordHash : String) (whereLive : Bool) (now : ℕ)
  | promoteAdmin (userId now : ℕ)
  | demoteAdmin (userId now : ℕ)
  | updateStatus (userId : ℕ) (status : UserStatus) (now : ℕ)
  | deleteUser (userId now : ℕ)
  | seedAdmin (phone passwordHash : String) (now : ℕ)
  | insertOtp (row : OtpRow)
  | useOtp (id now : ℕ)
  | purgeOtps (now : ℕ)
  | countAttempt
      (phone : String) (purpose : OtpPurpose) (ttlSeconds now : ℕ)
  | clearAttempts (phone : String) (purpose : OtpPurpose)
  | saveRefreshToken (jti : String) (userId expiresAt : ℕ)
  | consumeRefreshToken (jti : String) (now : ℕ)
  | revokeRefreshToken (jti : String) (now : ℕ)
  | upsertPending (row : PendingRegistrationRow)
  | deletePendingById (id : ℕ)
  | deletePendingByPhone (phone : String)
  | purgePending (now : ℕ)
  | insertAuditLog (row : AuditLogRow)
  | openConversation (row : ConversationRow)
  | insertMessage (row : MessageRow)
  | setLastMessage (conversationId messageId : ℕ)
  | insertBlock (row : BlockRow)
  | deleteBlock (row : BlockRow)
  deriving DecidableEq, Repr

/-- The rows that the hourly DELETE on auth_otps matches. -/
def OtpRow.purgeable (now : ℕ) (row : OtpRow) : Bool :=
  row.usedAt.isSome || decide (row.expiresAt + oneDay < now)

def PendingRegistrationRow.purgeable
    (now : ℕ) (row : PendingRegistrationRow) : Bool :=
  decide (row.expiresAt + oneDay < now)

/-- The row that `consumeRefreshToken` deletes if it is there. -/
def RefreshTokenRow.consumable (now : ℕ) (row : RefreshTokenRow) : Bool :=
  row.revokedAt.isNone && decide (now < row.expiresAt)

/-- The CASE expressions of the attempt counter's ON CONFLICT branch. -/
def OtpAttemptRow.counted
    (ttlSeconds now : ℕ) (row : OtpAttemptRow) : OtpAttemptRow :=
  if row.expiresAt ≤ now then
    { row with
      attempts := 1
      expiresAt := now + microseconds ttlSeconds
      updatedAt := now }
  else
    { row with attempts := row.attempts + 1, updatedAt := now }

namespace Database

def updateUser (db : Database) (p : UserRow → Bool)
    (f : UserRow → UserRow) (hkey : ∀ row, (f row).id = row.id) : Database :=
  { db with users := db.users.modify p f hkey }

def apply (write : Write) (db : Database) : Database :=
  match write with
  | .insertUser row =>
      if (db.userByPhone row.phone).isSome then db
      else { db with users := db.users.insert row }
  | .updatePassword userId passwordHash whereLive now =>
      db.updateUser
        (fun row => row.id = userId && (!whereLive || row.deletedAt.isNone))
        (fun row =>
          { row with passwordHash := passwordHash, updatedAt := now })
        fun _ => rfl
  | .promoteAdmin userId now =>
      db.updateUser
        (fun row => row.id = userId && row.deletedAt.isNone)
        (fun row =>
          { row with
            isAdmin := true
            tokenVersion := row.tokenVersion + 1
            updatedAt := now })
        fun _ => rfl
  | .demoteAdmin userId now =>
      db.updateUser
        (fun row => row.id = userId && row.deletedAt.isNone)
        (fun row =>
          { row with
            isAdmin := false
            tokenVersion := row.tokenVersion + 1
            updatedAt := now })
        fun _ => rfl
  | .updateStatus userId status now =>
      db.updateUser
        (fun row => row.id = userId && row.deletedAt.isNone)
        (fun row => { row with status := status, updatedAt := now })
        fun _ => rfl
  | .deleteUser userId now =>
      db.updateUser
        (fun row => row.id = userId && row.deletedAt.isNone)
        (fun row =>
          { row with
            deletedAt := some now
            tokenVersion := row.tokenVersion + 1
            updatedAt := now })
        fun _ => rfl
  | .seedAdmin phone passwordHash now =>
      db.updateUser
        (fun row => row.phone = phone)
        (fun row =>
          { row with
            passwordHash := passwordHash
            status := .active
            isAdmin := true
            updatedAt := now })
        fun _ => rfl
  | .insertOtp row => { db with authOtps := db.authOtps.insert row }
  | .useOtp id now =>
      { db with
        authOtps := db.authOtps.modify (fun row => row.id = id)
          (fun row => { row with usedAt := some now }) fun _ => rfl }
  | .purgeOtps now =>
      { db with
        authOtps := db.authOtps.filter fun row => !row.purgeable now }
  | .countAttempt phone purpose ttlSeconds now =>
      { db with
        authOtpAttempts := db.authOtpAttempts.upsert
          ⟨phone, purpose, 1, now + microseconds ttlSeconds, now⟩
          (OtpAttemptRow.counted ttlSeconds now)
          fun row => by unfold OtpAttemptRow.counted; split <;> rfl }
  | .clearAttempts phone purpose =>
      { db with
        authOtpAttempts := db.authOtpAttempts.filter fun row =>
          !(row.phone = phone && row.purpose = purpose) }
  | .saveRefreshToken jti userId expiresAt =>
      { db with
        authRefreshTokens := db.authRefreshTokens.upsert
          ⟨jti, userId, expiresAt, none⟩
          (fun row =>
            { row with
              userId := userId, expiresAt := expiresAt, revokedAt := none })
          fun _ => rfl }
  | .consumeRefreshToken jti now =>
      { db with
        authRefreshTokens := db.authRefreshTokens.filter fun row =>
          !(row.jti = jti && row.consumable now) }
  | .revokeRefreshToken jti now =>
      { db with
        authRefreshTokens := db.authRefreshTokens.modify
          (fun row => row.jti = jti)
          (fun row => { row with revokedAt := some now }) fun _ => rfl }
  | .upsertPending row =>
      { db with
        pendingRegistrations := db.pendingRegistrations.upsert row
          (fun old =>
            { old with
              name := row.name
              passwordHash := row.passwordHash
              expiresAt := row.expiresAt
              createdAt := row.createdAt })
          fun _ => rfl }
  | .deletePendingById id =>
      { db with
        pendingRegistrations := db.pendingRegistrations.filter fun row =>
          row.id ≠ id }
  | .deletePendingByPhone phone =>
      { db with
        pendingRegistrations := db.pendingRegistrations.filter fun row =>
          row.phone ≠ phone }
  | .purgePending now =>
      { db with
        pendingRegistrations := db.pendingRegistrations.filter fun row =>
          !row.purgeable now }
  | .insertAuditLog row =>
      { db with adminAuditLogs := db.adminAuditLogs.insert row }
  | .openConversation row =>
      { db with conversations := db.conversations.insert row }
  | .insertMessage row => { db with messages := db.messages.insert row }
  | .setLastMessage conversationId messageId =>
      { db with
        conversations := db.conversations.modify
          (fun row => row.id = conversationId)
          (fun row => { row with lastMessageId := some messageId })
          fun _ => rfl }
  | .insertBlock row => { db with userBlocks := db.userBlocks.insert row }
  | .deleteBlock row =>
      { db with userBlocks := db.userBlocks.filter fun other => other ≠ row }

end Database

/-! ## Locks -/

/-- A row that a transaction can hold, or a unique key that it is inserting. -/
inductive Lock where
  | user (id : ℕ)
  | userPhone (phone : String)
  | otp (id : ℕ)
  | attempts (phone : String) (purpose : OtpPurpose)
  | refreshToken (jti : String)
  | pending (phone : String)
  | conversation (id : ℕ)
  deriving DecidableEq, Repr

/-- The locks that a statement takes on the data it runs on. -/
def Write.footprint (write : Write) (db : Database) : List Lock :=
  match write with
  | .insertUser row => [.userPhone row.phone]
  | .updatePassword userId _ whereLive _ =>
      ((db.users.get userId).filter fun row =>
        !whereLive || row.deletedAt.isNone).toList.map fun row => .user row.id
  | .promoteAdmin userId _ | .demoteAdmin userId _
  | .updateStatus userId _ _ | .deleteUser userId _ =>
      (db.liveUserById userId).toList.map fun row => .user row.id
  | .seedAdmin phone _ _ =>
      (db.users.rows.filter fun row => row.phone = phone).map fun row =>
        .user row.id
  | .useOtp id _ => (db.authOtps.get id).toList.map fun row => .otp row.id
  | .purgeOtps now =>
      (db.authOtps.rows.filter (·.purgeable now)).map fun row => .otp row.id
  | .countAttempt phone purpose _ _ => [.attempts phone purpose]
  | .clearAttempts phone purpose =>
      (db.authOtpAttempts.get (phone, purpose)).toList.map fun row =>
        .attempts row.phone row.purpose
  | .saveRefreshToken jti _ _ => [.refreshToken jti]
  | .consumeRefreshToken jti now =>
      ((db.authRefreshTokens.get jti).filter (·.consumable now)).toList.map
        fun row => .refreshToken row.jti
  | .revokeRefreshToken jti _ =>
      (db.authRefreshTokens.get jti).toList.map fun row =>
        .refreshToken row.jti
  | .upsertPending row => [.pending row.phone]
  | .deletePendingById id =>
      (db.pendingRegistrations.rows.filter fun row => row.id = id).map
        fun row => .pending row.phone
  | .deletePendingByPhone phone =>
      (db.pendingRegistrations.get phone).toList.map fun row =>
        .pending row.phone
  | .purgePending now =>
      (db.pendingRegistrations.rows.filter (·.purgeable now)).map fun row =>
        .pending row.phone
  | .setLastMessage conversationId _ =>
      (db.conversations.get conversationId).toList.map fun row =>
        .conversation row.id
  | .insertOtp _ | .insertAuditLog _ | .openConversation _
  | .insertMessage _ | .insertBlock _ | .deleteBlock _ => []

/-- The backend's tables as a store with row locks. -/
def schema : ReadCommitted.Schema Database Write Lock where
  apply := Database.apply
  footprint := Write.footprint

/-! ## Configuration and libraries -/

inductive OtpProvider where
  | console
  | akedly
  deriving DecidableEq, Repr

structure AppConfig where
  jwtAccessSecret : String
  jwtRefreshSecret : String
  jwtAccessTtl : String
  jwtRefreshTtl : String
  otpSigningSecret : String
  otpProvider : OtpProvider
  otpTtlMinutes : ℕ
  otpDevMode : Bool
  redisUrl : Option String
  deriving DecidableEq, Repr

/-- What the packages the backend calls compute: HMAC-SHA256 in hex, bcryptjs
with the salt it draws, and the lifetime in seconds that jsonwebtoken reads
from an `expiresIn` text. -/
structure Libraries where
  createHmac : (secret message : String) → String
  bcryptHash : (password : String) → (rounds : ℕ) → (salt : String) → String
  bcryptCompare : (password hash : String) → Bool
  jwtLifetime : String → ℕ

structure Deployment where
  config : AppConfig
  libraries : Libraries

def bcryptRounds : ℕ := 12
def otpRangeMin : ℕ := 100000
def otpRangeMax : ℕ := 1000000
def otpMaxAttempts : ℕ := 5
def otpAttemptsTtlSeconds : ℕ := 600
def refreshTtlFallbackSeconds : ℕ := 2592000

inductive ErrorKind where
  | badRequest
  | unauthorized
  | forbidden
  | notFound
  | conflict
  | serviceUnavailable
  | internal
  deriving DecidableEq, Repr

structure HttpError where
  kind : ErrorKind
  message : String
  deriving DecidableEq, Repr

end MarketPlace
