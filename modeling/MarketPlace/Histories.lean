import MarketPlace.EventLogs
import MarketPlace.Backend

/-!
# Lawful histories

The abstract side of the backend: a history alone determines the committed
data and the open sockets, and every event of a lawful history was justified
by what had happened before it.  The results on runs are proved from these
laws; that the backend's runs obey them is a theorem about its handlers.
-/

namespace MarketPlace

open EventLog

/-! ## What a history determines -/

def Event.effect (event : Event) (db : Database) : Database :=
  match event with
  | .wrote _ _ write => db.apply write
  | .elsewhere write => db.apply write
  | _ => db

/-- The committed data after a history. -/
def stored (history : List Event) : Database :=
  replay Event.effect Database.empty history

@[simp] theorem stored_nil : stored [] = .empty := rfl

@[simp] theorem stored_cons (event : Event) (history : List Event) :
    stored (event :: history) = event.effect (stored history) := rfl

def Event.socketEffect (event : Event) (sockets : List ChatSocket) :
    List ChatSocket :=
  match event with
  | .socketOpened _ socket userId => ⟨socket, userId⟩ :: sockets
  | .socketClosed socket => sockets.filter fun other => other.id ≠ socket
  | _ => sockets

/-- The sockets that are open after a history. -/
def openSockets (history : List Event) : List ChatSocket :=
  replay Event.socketEffect [] history

@[simp] theorem openSockets_cons (event : Event) (history : List Event) :
    openSockets (event :: history) =
      event.socketEffect (openSockets history) := rfl

/-! ## Writes by where they are made -/

/-- Writes that only run inside of a transaction. -/
def Write.onlyInTransaction : Write → Bool
  | .insertUser _ | .seedAdmin _ _ _ | .useOtp _ _
  | .deletePendingByPhone _ => true
  | _ => false

/-- Writes that run inside of a transaction. -/
def Write.transactional : Write → Bool
  | .insertUser _ | .seedAdmin _ _ _ | .useOtp _ _
  | .deletePendingByPhone _ | .updatePassword _ _ _ _
  | .saveRefreshToken _ _ _ => true
  | _ => false

/-- Writes of the endpoints outside of the model. -/
def Write.outside : Write → Bool
  | .openConversation _ | .insertBlock _ | .deleteBlock _ => true
  | _ => false

/-! ## The laws -/

/-- How a request came to know the user a token is for. -/
inductive Origin (i : ℕ) (token : Token) (history : List Event) : Prop where
  | read (row : UserRow) (past : List Event)
      (hread : Happened (.userRead i row) past history)
      (hsub : token.sub = row.id)
      (hversion : token.tokenVersion = row.tokenVersion)
      (hadmin : token.isAdmin = row.isAdmin)
      (hlive : row.deletedAt = none)
      (hactive : row.status = .active)
  | created (row : UserRow) (past : List Event)
      (hqueued : Happened (.queued i (.insertUser row)) past history)
      (hsub : token.sub = row.id)
      (hversion : token.tokenVersion = 0)
      (hadmin : token.isAdmin = false)

/-- The row that request `i` read and may still use at time `t`. -/
def UsableOtpRead (i : ℕ) (row : OtpRow) (t : ℕ) (history : List Event) :
    Prop :=
  ∃ readAt past, Happened (.otpRead i readAt row) past history ∧
    row.usedAt = none ∧ readAt ≤ t ∧ row.expired t = false

/-- What a statement must have seen before it, whether it commits on its own
or is queued. -/
def Write.Grounded
    (app : Deployment) (i now : ℕ) (write : Write) (history : List Event) :
    Prop :=
  match write with
  | .insertUser row =>
      row.tokenVersion = 0 ∧ row.deletedAt = none ∧ row.status = .active ∧
        ∀ j other, .queued j (.insertUser other) ∈ history → other.id < row.id
  | .insertOtp row =>
      row.createdAt = now ∧ row.usedAt = none ∧
        row.expiresAt =
          now + microseconds (app.config.otpTtlMinutes * 60) ∧
        ∀ j at_ other, .wrote j at_ (.insertOtp other) ∈ history →
          other.id < row.id ∧ other.createdAt < row.createdAt
  | .updatePassword userId _ _ _ =>
      ∃ row, .userRead i row ∈ history ∧ row.id = userId
  | .useOtp id _ => ∃ row t, row.id = id ∧ UsableOtpRead i row t history
  | .countAttempt phone purpose ttlSeconds at_ =>
      at_ = now ∧ ttlSeconds = otpAttemptsTtlSeconds ∧
        ∃ row t, row.phone = phone ∧ row.purpose = purpose ∧
          UsableOtpRead i row t history
  | .purgeOtps at_ => at_ = now
  | .insertMessage row =>
      ∃ socket, .socketUsed i socket row.senderId ∈ history
  | _ => True

def Event.time : Event → Option ℕ
  | .wrote _ at_ _ | .otpRead _ at_ _ | .verified _ at_ _ => some at_
  | _ => none

/-- The law of one event, given its past. -/
def Event.Justified
    (app : Deployment) (event : Event) (past : List Event) : Prop :=
  match event with
  | .wrote i now write =>
      (write.onlyInTransaction = true → .queued i write ∈ past) ∧
        (.queued i write ∉ past → write.Grounded app i now past)
  | .elsewhere write => write.outside = true
  | .queued i write =>
      write.transactional = true ∧ ∃ now, write.Grounded app i now past
  | .userRead _ row => (stored past).users.get row.id = some row
  | .pendingRead _ row =>
      (stored past).pendingRegistrations.get row.phone = some row
  | .otpRead _ _ row => (stored past).newestOtp row.phone row.purpose = some row
  | .attemptCounted i phone purpose attempts =>
      ((stored past).authOtpAttempts.get (phone, purpose)).map
          OtpAttemptRow.attempts = some attempts ∧
        ∃ at_ ttlSeconds before,
          past = .wrote i at_ (.countAttempt phone purpose ttlSeconds at_) ::
            before
  | .minted i token => Origin i token past
  | .verified _ at_ token =>
      at_ / 1000000 < token.exp ∧ ∃ j, .minted j token ∈ past
  | .akedlySent _ _ _ transactionReqID =>
      ∀ j phone purpose, .akedlySent j phone purpose transactionReqID ∉ past
  | .akedlyVerified _ transactionReqID _ =>
      ∃ j phone purpose, .akedlySent j phone purpose transactionReqID ∈ past
  | .socketOpened i _ userId =>
      ∃ at_ token, .verified i at_ token ∈ past ∧ token.sub = userId ∧
        token.secret = app.config.jwtAccessSecret
  | .socketUsed _ socket userId => ⟨socket, userId⟩ ∈ openSockets past
  | .socketClosed _ => True

/-- Time never runs back. -/
def Event.Timely (event : Event) (past : List Event) : Prop :=
  ∀ t, event.time = some t → ∀ other ∈ past, ∀ u, other.time = some u → u ≤ t

def Event.Lawful
    (app : Deployment) (event : Event) (past : List Event) : Prop :=
  event.Justified app past ∧ event.Timely past

abbrev LawfulHistory (app : Deployment) (history : List Event) : Prop :=
  Lawful (Event.Lawful app) history

theorem LawfulHistory.justified
    {app : Deployment} {event : Event} {past history : List Event}
    (hlawful : LawfulHistory app history)
    (hevent : Happened event past history) : event.Justified app past :=
  (hlawful event past hevent).1

theorem LawfulHistory.timely
    {app : Deployment} {event : Event} {past history : List Event}
    (hlawful : LawfulHistory app history)
    (hevent : Happened event past history) : event.Timely past :=
  (hlawful event past hevent).2

end MarketPlace
