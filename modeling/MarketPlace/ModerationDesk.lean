import Mathlib.Data.List.Sort
import MarketPlace.DataModel
import MarketPlace.EventLogs
import MarketPlace.InterleavedPrograms
import MarketPlace.KeyedTables

/-!
# Reports, warnings and the audit log

Users report each other, and admins review the reports and warn users.  An
admin's write is followed by an audit entry in a statement of its own, whose
failure is only logged.  Every statement may fail, or take effect without the
client learning of it.
-/

namespace MarketPlace.Moderation

open EventLog Interleaving Relational

inductive ReportStatus where
  | open_
  | reviewing
  | resolved
  | rejected
  deriving DecidableEq, Repr

def ReportStatus.text : ReportStatus → String
  | .open_ => "open"
  | .reviewing => "reviewing"
  | .resolved => "resolved"
  | .rejected => "rejected"

structure UserRow where
  id : ℕ
  deletedAt : Option ℕ
  deriving DecidableEq, Repr

structure ReportRow where
  id : ℕ
  reporterId : ℕ
  reportedUserId : ℕ
  reason : String
  status : ReportStatus
  reviewedBy : Option ℕ
  reviewedAt : Option ℕ
  createdAt : ℕ
  updatedAt : ℕ
  deriving DecidableEq, Repr

structure WarningRow where
  id : ℕ
  adminId : ℕ
  targetUserId : ℕ
  message : String
  createdAt : ℕ
  deriving DecidableEq, Repr

/-- An entry of `admin_audit_logs`; the payload is a JSON object of texts. -/
structure AuditRow where
  actorId : ℕ
  action : String
  targetType : String
  targetId : Option ℕ
  payload : List (String × String)
  createdAt : ℕ
  deriving DecidableEq, Repr

structure Tables where
  reports : Table ReportRow.id
  warnings : Table WarningRow.id
  auditLogs : List AuditRow

def Tables.empty : Tables := ⟨.empty, .empty, []⟩

/-! ## Writes -/

/-- `SET status, reviewed_by, reviewed_at, updated_at`. -/
def ReportRow.reviewed (status : ReportStatus) (admin now : ℕ)
    (row : ReportRow) : ReportRow :=
  { row with
    status := status
    reviewedBy := some admin
    reviewedAt := some now
    updatedAt := now }

@[simp] theorem ReportRow.id_reviewed (status : ReportStatus) (admin now : ℕ)
    (row : ReportRow) : (row.reviewed status admin now).id = row.id := rfl

inductive Change where
  | insertReport (row : ReportRow)
  | updateReport (reportId : ℕ) (status : ReportStatus) (admin now : ℕ)
  | insertWarning (row : WarningRow)
  deriving DecidableEq, Repr

def Tables.apply (tables : Tables) : Change → Tables
  | .insertReport row =>
      { tables with reports := tables.reports.insert row }
  | .updateReport reportId status admin now =>
      { tables with
        reports := tables.reports.modify (fun row => row.id = reportId)
          (ReportRow.reviewed status admin now)
          (ReportRow.id_reviewed status admin now) }
  | .insertWarning row =>
      { tables with warnings := tables.warnings.insert row }

/-- What happens at the desk: a write, an audit entry, and the line that
`logAdminAction` logs where it catches an error. -/
inductive Event where
  | wrote (actor : ℕ) (change : Change)
  | audited (actor : ℕ) (row : AuditRow)
  | auditFailed (actor : ℕ) (action : String)
  deriving DecidableEq, Repr

def Event.actor : Event → ℕ
  | .wrote actor _ | .audited actor _ | .auditFailed actor _ => actor

def Event.effect (event : Event) (tables : Tables) : Tables :=
  match event with
  | .wrote _ change => tables.apply change
  | .audited _ row => { tables with auditLogs := tables.auditLogs ++ [row] }
  | .auditFailed _ _ => tables

structure Desk where
  users : Table UserRow.id
  tables : Tables
  userIds : ℕ
  reportIds : ℕ
  warningIds : ℕ
  now : ℕ
  history : List Event

def Desk.initial (now : ℕ) : Desk := ⟨.empty, .empty, 1, 1, 1, now, []⟩

def Desk.record (event : Event) (desk : Desk) : Desk :=
  { desk with
    tables := event.effect desk.tables
    history := event :: desk.history }

/-- A user row that is there, deleted or not. -/
def Desk.referenced (userId : ℕ) (desk : Desk) : Bool :=
  (desk.users.get userId).isSome

/-- `id = $1 AND deleted_at IS NULL`. -/
def Desk.liveUser (userId : ℕ) (desk : Desk) : Bool :=
  (desk.users.get userId).any fun row => row.deletedAt = none

/-! ## Statements -/

inductive Fault where
  | exception (kind : ErrorKind) (message : String)
  | foreignKeyViolation
  | database
  | connectionLost
  deriving DecidableEq, Repr

/-- What becomes of a statement: `cut` loses the connection after it took
effect. -/
inductive Fate where
  | works
  | fails
  | cut
  deriving DecidableEq, Repr

/-- The fate of a statement, and how rows that ORDER BY leaves tied are
arranged. -/
structure Draw where
  fate : Fate
  tieRank : ℕ → ℕ

abbrev Operation (α : Type) := Program Draw Desk Fault α

variable {β : Type}

/-- One statement of request `i`. -/
def query (execute : ℕ → Draw → Desk → Except Fault β × Desk) :
    Operation β :=
  .atomic
    (fun i draw desk =>
      match draw.fate with
      | .works => some (execute i draw desk)
      | .fails => some (.error .database, desk)
      | .cut => some (.error .connectionLost, (execute i draw desk).2))
    fun outcome =>
      match outcome with
      | .ok result => .done result
      | .error fault => .failed fault

def select (read : Draw → Desk → β) : Operation β :=
  query fun _ draw desk => (.ok (read draw desk), desk)

/-- `INSERT INTO user_reports … RETURNING …`.  The identity column gives a
value out even if a constraint rejects the row. -/
def insertReport (user reportedUserId : ℕ) (reason : String) :
    Operation ReportRow :=
  query fun i _ desk =>
    let row : ReportRow :=
      ⟨desk.reportIds, user, reportedUserId, reason, .open_, none, none,
        desk.now, desk.now⟩
    let taken := { desk with reportIds := desk.reportIds + 1 }
    if user = reportedUserId then (.error .database, taken)
    else if !(desk.referenced user && desk.referenced reportedUserId) then
      (.error .foreignKeyViolation, taken)
    else (.ok row, taken.record (.wrote i (.insertReport row)))

/-- `UPDATE user_reports … WHERE id = $3 RETURNING …`. -/
def updateReport (admin reportId : ℕ) (status : ReportStatus) :
    Operation (Option ReportRow) :=
  query fun i _ desk =>
    match desk.tables.reports.get reportId with
    | none => (.ok none, desk)
    | some row =>
        if !desk.referenced admin then (.error .foreignKeyViolation, desk)
        else
          (.ok (some (row.reviewed status admin desk.now)),
            desk.record
              (.wrote i (.updateReport reportId status admin desk.now)))

/-- `INSERT INTO admin_warnings … RETURNING …`. -/
def insertWarning (admin targetUserId : ℕ) (message : String) :
    Operation WarningRow :=
  query fun i _ desk =>
    let row : WarningRow :=
      ⟨desk.warningIds, admin, targetUserId, message, desk.now⟩
    let taken := { desk with warningIds := desk.warningIds + 1 }
    if !(desk.referenced admin && desk.referenced targetUserId) then
      (.error .foreignKeyViolation, taken)
    else (.ok row, taken.record (.wrote i (.insertWarning row)))

/-- `INSERT INTO admin_audit_logs …`. -/
def insertAuditLog (actorId : ℕ) (action targetType : String)
    (targetId : Option ℕ) (payload : List (String × String)) :
    Operation Unit :=
  query fun i _ desk =>
    if !desk.referenced actorId then (.error .foreignKeyViolation, desk)
    else
      (.ok (), desk.record (.audited i
        ⟨actorId, action, targetType, targetId, payload, desk.now⟩))

/-- `this.logger.error(…)`. -/
def logError (action : String) : Operation Unit :=
  .act fun i _ desk => some ((), desk.record (.auditFailed i action))

def logAdminAction (actorId : ℕ) (action targetType : String)
    (targetId : Option ℕ) (payload : List (String × String)) :
    Operation Unit :=
  tryCatch (insertAuditLog actorId action targetType targetId payload)
    fun _ => logError action

/-! ## Handlers -/

def assertUserExists (userId : ℕ) (label : String) : Operation Unit := do
  let found ← select fun _ desk => desk.liveUser userId
  if !found then throw (.exception .notFound (label ++ " not found"))
  else pure ()

/-- `if (isForeignKeyViolation(error)) throw new NotFoundException(message)`. -/
def notFoundOnForeignKey (message : String) (fault : Fault) : Operation β :=
  if fault = .foreignKeyViolation then throw (.exception .notFound message)
  else throw fault

/-- What `createReport` returns of a row. -/
structure CreatedReport where
  id : ℕ
  reporterId : ℕ
  reportedUserId : ℕ
  reason : String
  status : ReportStatus
  createdAt : ℕ
  updatedAt : ℕ
  deriving DecidableEq, Repr

def ReportRow.created (row : ReportRow) : CreatedReport :=
  ⟨row.id, row.reporterId, row.reportedUserId, row.reason, row.status,
    row.createdAt, row.updatedAt⟩

def createReport (user reportedUserId : ℕ) (reason : String) :
    Operation CreatedReport :=
  if user = reportedUserId then
    throw (.exception .badRequest "You cannot report yourself")
  else do
    assertUserExists reportedUserId "Reported user"
    let row ← tryCatch (insertReport user reportedUserId reason)
      (notFoundOnForeignKey "Reported user not found")
    pure row.created

def createWarning (admin targetUserId : ℕ) (message : String) :
    Operation WarningRow := do
  assertUserExists targetUserId "Target user"
  let row ← tryCatch (insertWarning admin targetUserId message)
    (notFoundOnForeignKey "Target user not found")
  logAdminAction admin "create_warning" "user" (some targetUserId)
    [("message", message)]
  pure row

def updateReportStatus (admin reportId : ℕ) (status : ReportStatus) :
    Operation ReportRow := do
  let updated ← updateReport admin reportId status
  match updated with
  | none => throw (.exception .notFound "Report not found")
  | some row => do
      logAdminAction admin "update_report_status" "report" (some reportId)
        [("status", status.text)]
      pure row

/-- What admins see of a report; `reason` is returned as `description`. -/
structure ReportSummary where
  id : ℕ
  reporterId : ℕ
  reportedUserId : ℕ
  description : String
  createdAt : ℕ
  deriving DecidableEq, Repr

def ReportRow.summary (row : ReportRow) : ReportSummary :=
  ⟨row.id, row.reporterId, row.reportedUserId, row.reason, row.createdAt⟩

/-- `ORDER BY created_at DESC`.  The name stands for the selected text of the
time, which has the order of the times where the database writes them in UTC
and compares texts by their characters. -/
def newestFirst (tieRank : ℕ → ℕ) (row other : ReportRow) : Prop :=
  other.createdAt < row.createdAt ∨
    other.createdAt = row.createdAt ∧ tieRank row.id ≤ tieRank other.id

instance (tieRank : ℕ → ℕ) : DecidableRel (newestFirst tieRank) :=
  fun _ _ => inferInstanceAs (Decidable (_ ∨ _))

/-- The reports that satisfy `p`, in the order of the listings. -/
def Desk.listed (desk : Desk) (p : ReportRow → Bool) (tieRank : ℕ → ℕ) :
    List ReportRow :=
  (desk.tables.reports.rows.filter p).insertionSort (newestFirst tieRank)

/-- `LIMIT limit OFFSET offset`. -/
def page (limit offset : ℕ) (rows : List ReportRow) : List ReportRow :=
  (rows.drop offset).take limit

def getMyReports (user limit offset : ℕ) : Operation (List ReportRow) :=
  select fun draw desk => page limit offset
    (desk.listed (fun row => row.reporterId = user) draw.tieRank)

def listReports (limit offset : ℕ) : Operation (List ReportSummary) :=
  select fun draw desk => (page limit offset
    (desk.listed (fun _ => true) draw.tieRank)).map ReportRow.summary

def listUserReports (userId limit offset : ℕ) :
    Operation (List ReportSummary) := do
  assertUserExists userId "User"
  select fun draw desk => (page limit offset
    (desk.listed (fun row => row.reportedUserId = userId)
      draw.tieRank)).map ReportRow.summary

/-! ## The desk and its requests -/

inductive Request where
  | createReport (user reportedUserId : ℕ) (reason : String)
  | getMyReports (user limit offset : ℕ)
  | createWarning (admin targetUserId : ℕ) (message : String)
  | listReports (limit offset : ℕ)
  | listUserReports (userId limit offset : ℕ)
  | updateReportStatus (admin reportId : ℕ) (status : ReportStatus)
  deriving DecidableEq, Repr

inductive Response where
  | created (report : CreatedReport)
  | reports (rows : List ReportRow)
  | warning (row : WarningRow)
  | summaries (rows : List ReportSummary)
  | report (row : ReportRow)
  deriving DecidableEq, Repr

def Request.handler : Request → Operation Response
  | .createReport user reportedUserId reason =>
      Moderation.createReport user reportedUserId reason >>= fun report =>
        pure (.created report)
  | .getMyReports user limit offset =>
      Moderation.getMyReports user limit offset >>= fun rows =>
        pure (.reports rows)
  | .createWarning admin targetUserId message =>
      Moderation.createWarning admin targetUserId message >>= fun row =>
        pure (.warning row)
  | .listReports limit offset =>
      Moderation.listReports limit offset >>= fun rows => pure (.summaries rows)
  | .listUserReports userId limit offset =>
      Moderation.listUserReports userId limit offset >>= fun rows =>
        pure (.summaries rows)
  | .updateReportStatus admin reportId status =>
      Moderation.updateReportStatus admin reportId status >>= fun row =>
        pure (.report row)

/-- What happens outside of these requests: time passes, users register and
are soft-deleted. -/
inductive Surroundings where
  | timePasses (amount : ℕ)
  | userRegisters
  | userDeleted (userId : ℕ)
  deriving DecidableEq, Repr

def Desk.surroundings (event : Surroundings) (desk : Desk) : Desk :=
  match event with
  | .timePasses amount => { desk with now := desk.now + amount }
  | .userRegisters =>
      { desk with
        users := desk.users.insert ⟨desk.userIds, none⟩
        userIds := desk.userIds + 1 }
  | .userDeleted userId =>
      { desk with
        users := desk.users.modify (fun row => row.id = userId)
          (fun row => { row with deletedAt := some desk.now }) fun _ => rfl }

def desk : System Request Draw Surroundings Desk Fault Response :=
  ⟨Request.handler, Desk.surroundings⟩

def Pool.opening (now : ℕ) : Pool Request Draw Desk Fault Response :=
  ⟨.initial now, []⟩

end MarketPlace.Moderation
