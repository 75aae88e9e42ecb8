import MarketPlace.InterleavedPrograms
import MarketPlace.DataModel

/-!
# The shared world of the requests

Everything that outlives one action of one request: the database with its open
transactions, Redis, the verification transactions that Akedly keeps, the
connected chat sockets, the clock, and the history of what has been done, the
newest event first.  The history is what the results speak about; the code
never reads it, except that a JSON web token verifies exactly when it has been
signed before.
-/

namespace MarketPlace

open Interleaving

/-- The claims of a JSON web token and the secret it was signed with; `exp` is
in seconds, and only refresh tokens carry a `jti`. -/
structure Token where
  secret : String
  sub : ℕ
  phone : String
  isAdmin : Bool
  tokenVersion : ℕ
  jti : Option String
  exp : ℕ
  deriving DecidableEq, Repr

inductive Event where
  | wrote (actor at_ : ℕ) (write : Write)
  | elsewhere (write : Write)
  | queued (actor : ℕ) (write : Write)
  | userRead (actor : ℕ) (row : UserRow)
  | pendingRead (actor : ℕ) (row : PendingRegistrationRow)
  | otpRead (actor at_ : ℕ) (row : OtpRow)
  | attemptCounted (actor : ℕ) (phone : String) (purpose : OtpPurpose)
      (attempts : ℕ)
  | minted (actor : ℕ) (token : Token)
  | verified (actor at_ : ℕ) (token : Token)
  | akedlySent (actor : ℕ) (phone : String) (purpose : OtpPurpose)
      (transactionReqID : String)
  | akedlyVerified (actor : ℕ) (transactionReqID code : String)
  | socketOpened (actor : ℕ) (socket userId : ℕ)
  | socketUsed (actor : ℕ) (socket userId : ℕ)
  | socketClosed (socket : ℕ)
  deriving DecidableEq, Repr

structure RedisEntry where
  key : String
  value : String
  expiresAt : ℕ
  deriving DecidableEq, Repr

/-- A verification that Akedly keeps: the phone it sent the code to. -/
structure AkedlyTransaction where
  transactionReqID : String
  phone : String
  code : String
  deriving DecidableEq, Repr

/-- A connected socket whose `client.data.user.sub` is `userId`. -/
structure ChatSocket where
  id : ℕ
  userId : ℕ
  deriving DecidableEq, Repr

/-- The next values of the identity columns. -/
structure Sequences where
  users : ℕ
  authOtps : ℕ
  pendingRegistrations : ℕ
  adminAuditLogs : ℕ
  conversations : ℕ
  messages : ℕ
  sockets : ℕ
  deriving DecidableEq, Repr

structure World where
  store : ReadCommitted.Store Database Write Lock
  redis : List RedisEntry
  akedly : List AkedlyTransaction
  sockets : List ChatSocket
  ids : Sequences
  now : ℕ
  history : List Event

/-- How Akedly answers a call that it does not accept. -/
structure AkedlyRejection where
  statusCode : ℕ
  code : Option String
  message : Option String
  deriving DecidableEq, Repr

inductive AkedlyOutcome where
  | answers
  | rejects
  | unreachable
  deriving DecidableEq, Repr

/-- What the surroundings choose for one action: random values, and which of
the services fail. -/
structure Draw where
  otp : ℕ
  salt : String
  jti : String
  passwordSalt : String
  transactionReqID : String
  akedlyCode : String
  akedly : AkedlyOutcome
  rejection : AkedlyRejection
  redisFails : Bool
  databaseFails : Bool
  deriving DecidableEq, Repr

abbrev Handler (α : Type) := Program Draw World HttpError α

namespace World

/-- A deployment whose migrations have run, at the given time. -/
def initial (now : ℕ) : World where
  store := .fresh .empty
  redis := []
  akedly := []
  sockets := []
  ids := ⟨1, 1, 1, 1, 1, 1, 1⟩
  now := now
  history := []

def db (w : World) : Database := w.store.committed

/-- The clock in whole seconds, as JSON web tokens count. -/
def seconds (w : World) : ℕ := w.now / 1000000

def record (event : Event) (w : World) : World :=
  { w with history := event :: w.history }

/-! ## Statements -/

/-- An identity column never gives out a value twice. -/
def nextIds (write : Write) (ids : Sequences) : Sequences :=
  match write with
  | .insertUser _ => { ids with users := ids.users + 1 }
  | .insertOtp _ => { ids with authOtps := ids.authOtps + 1 }
  | .upsertPending _ =>
      { ids with pendingRegistrations := ids.pendingRegistrations + 1 }
  | .insertAuditLog _ => { ids with adminAuditLogs := ids.adminAuditLogs + 1 }
  | .openConversation _ => { ids with conversations := ids.conversations + 1 }
  | .insertMessage _ => { ids with messages := ids.messages + 1 }
  | _ => ids

/-- A statement outside of a transaction, which takes at least the
microsecond that timestamps resolve. -/
def autocommit (i : ℕ) (write : Write) (w : World) : World :=
  { w with
    store := w.store.autocommit schema write
    ids := nextIds write w.ids
    now := w.now + 1
    history := .wrote i w.now write :: w.history }

def enqueue (i : ℕ) (write : Write) (w : World) : World :=
  { w with
    store := w.store.enqueue schema i write
    ids := nextIds write w.ids
    history := .queued i write :: w.history }

def lock (i : ℕ) (locks : List Lock) (w : World) : World :=
  { w with store := w.store.lock i locks }

def rollback (i : ℕ) (w : World) : World :=
  { w with store := w.store.rollback i }

/-- The events of a commit, one for each write of the queue. -/
def flush (i now : ℕ) (writes : List Write) (history : List Event) :
    List Event :=
  writes.foldl (fun history write => .wrote i now write :: history) history

def commit (i : ℕ) (w : World) : World :=
  { w with
    store := w.store.commit schema i
    history := flush i w.now (w.store.queue i) w.history }

/-! ## Redis, Akedly and tokens -/

def redisGet (key : String) (w : World) : Option String :=
  (w.redis.find? fun entry => entry.key = key && w.now < entry.expiresAt).map
    RedisEntry.value

def redisSet (key value : String) (ttlSeconds : ℕ) (w : World) : World :=
  { w with
    redis := ⟨key, value, w.now + microseconds ttlSeconds⟩ ::
      w.redis.filter fun entry => entry.key ≠ key }

def redisDel (key : String) (w : World) : World :=
  { w with redis := w.redis.filter fun entry => entry.key ≠ key }

def startTransaction (transaction : AkedlyTransaction) (w : World) : World :=
  { w with akedly := transaction :: w.akedly }

/-- Akedly answers verified exactly when the code matches the transaction. -/
def akedlyVerifies (transactionReqID code : String) (w : World) : Bool :=
  w.akedly.any fun transaction =>
    transaction.transactionReqID = transactionReqID && transaction.code = code

def openSocket (socket : ChatSocket) (w : World) : World :=
  { w with
    sockets := socket :: w.sockets
    ids := { w.ids with sockets := w.ids.sockets + 1 } }

def signed (token : Token) (w : World) : Bool :=
  w.history.any fun event =>
    match event with
    | .minted _ other => other = token
    | _ => false

/-- `verifyAsync`: signed with this secret before, and not expired. -/
def tokenVerifies (token : Token) (secret : String) (w : World) : Bool :=
  token.secret = secret && w.signed token && decide (w.seconds < token.exp)

end World

/-! ## What happens outside of the requests -/

inductive Surroundings where
  | timePasses (amount : ℕ)
  | socketCloses (socket : ℕ)
  | conversationOpens (userAId userBId : ℕ)
  | blocks (blockerId blockedId : ℕ)
  | unblocks (blockerId blockedId : ℕ)
  deriving DecidableEq, Repr

namespace World

/-- A write by an endpoint that is not part of this model. -/
def writeElsewhere (write : Write) (w : World) : World :=
  { w with
    store := w.store.autocommit schema write
    ids := nextIds write w.ids
    history := .elsewhere write :: w.history }

def surroundings (event : Surroundings) (w : World) : World :=
  match event with
  | .timePasses amount => { w with now := w.now + amount }
  | .socketCloses socket =>
      { w with
        sockets := w.sockets.filter fun other => other.id ≠ socket
        history := .socketClosed socket :: w.history }
  | .conversationOpens userAId userBId =>
      w.writeElsewhere
        (.openConversation ⟨w.ids.conversations, userAId, userBId, none⟩)
  | .blocks blockerId blockedId =>
      w.writeElsewhere (.insertBlock ⟨blockerId, blockedId⟩)
  | .unblocks blockerId blockedId =>
      w.writeElsewhere (.deleteBlock ⟨blockerId, blockedId⟩)

end World

end MarketPlace
