import MarketPlace.ReportHistories

/-!
# What the audit log says

The audit entry of an admin's write is a statement of its own, after the
write.  So the log may lag behind and may miss an entry, but it has no entry
that is not of a write, and no write twice.
-/

namespace MarketPlace.Moderation

open EventLog Interleaving Relational

/-- The row of an event that is an audit entry. -/
def Event.auditRow : Event → Option AuditRow
  | .audited _ row => some row
  | _ => none

/-- The request that an event is an audit entry of. -/
def Event.auditor : Event → Option ℕ
  | .audited i _ => some i
  | _ => none

theorem auditLogs_stored (history : List Event) :
    (stored history).auditLogs = history.reverse.filterMap Event.auditRow := by
  induction history with
  | nil => rfl
  | cons event past ih =>
      rw [List.reverse_cons, List.filterMap_append, ← ih]
      cases event with
      | audited | auditFailed => simp [stored, Event.effect, Event.auditRow]
      | wrote i change =>
          cases change <;>
            simp [stored, Event.effect, Tables.apply, Event.auditRow]

theorem nodup_auditors {history : List Event}
    (hlaw : Lawful Event.Law history) :
    (history.filterMap Event.auditor).Nodup := by
  refine nodup_of_own Event.auditor (fun event i h => ?_)
    fun event past hhappened i h earlier hearlier => ?_
  · cases event with
    | audited => exact Option.some.inj h
    | wrote | auditFailed => contradiction
  · have hevent := hlaw event past hhappened
    cases event with
    | wrote | auditFailed => contradiction
    | audited j row =>
        obtain rfl := Option.some.inj h
        obtain ⟨change, hown, -⟩ := hevent
        rw [hown, List.mem_singleton] at hearlier
        rw [hearlier]
        rfl

/-- An audit entry follows the write that it is about. -/
def Follows (i : ℕ) (row : AuditRow) (change : Change) (history : List Event) :
    Prop :=
  ∃ past earlier, Happened (.audited i row) past history ∧
    Happened (.wrote i change) earlier past ∧
      change.entry row.createdAt = some row

theorem follows_of_lawful {history : List Event} {i : ℕ} {row : AuditRow}
    (hlaw : Lawful Event.Law history) (hin : .audited i row ∈ history) :
    ∃ change, Follows i row change history := by
  obtain ⟨past, hhappened⟩ := exists_happened hin
  obtain ⟨change, hown, hentry⟩ := hlaw _ _ hhappened
  have hwrote : .wrote i change ∈ own i past := by
    rw [hown]
    exact List.mem_singleton_self _
  obtain ⟨earlier, hearlier⟩ := exists_happened (mem_own.mp hwrote).1
  exact ⟨change, past, earlier, hhappened, hearlier, hentry⟩

/-- The audit log lists the audit entries in their order; each is of a request
whose write it describes, and a request has one at most.  A write that should
be in the log and is not is of a request that has not ended with a response,
or the failure was logged. -/
structure AuditTrail (pool : Pool Request Draw Desk Fault Response) : Prop where
  entries : pool.state.tables.auditLogs =
    pool.state.history.reverse.filterMap Event.auditRow
  truthful : ∀ i row, .audited i row ∈ pool.state.history →
    ∃ thread change, pool.threads[i]? = some thread ∧
      thread.request.Writes change ∧ Follows i row change pool.state.history
  single : (pool.state.history.filterMap Event.auditor).Nodup
  complete : ∀ i change row now, .wrote i change ∈ pool.state.history →
    change.entry now = some row →
      Closed i pool.state ∨ ∀ answer, pool.answer i ≠ some answer

/-- However requests interleave and fail, the audit log is about writes that
were made before, and it only grows. -/
theorem audit_trail {now : ℕ} {pool : Pool Request Draw Desk Fault Response}
    (hreach : desk.Reaches (fun _ _ => True) (Pool.opening now) pool) :
    AuditTrail pool ∧
      ∀ later, desk.Reaches (fun _ _ => True) pool later →
        pool.state.tables.auditLogs <+: later.state.tables.auditLogs := by
  have hcourse := onCourse_of_reaches hreach
  have hsound : pool.state.Sound := hcourse.invariant
  refine ⟨⟨?_, fun i row hin => ?_, nodup_auditors hsound.lawful,
    fun i change row now hwrote hentry => ?_⟩, fun later hlater => ?_⟩
  · rw [hsound.tables, auditLogs_stored]
  · obtain ⟨change, hfollows⟩ := follows_of_lawful hsound.lawful hin
    have ⟨past, earlier, hhappened, hearlier, _⟩ := hfollows
    obtain ⟨thread, hthread, hwrites⟩ := writes_of_reaches hreach
      (hhappened.older.subset hearlier.mem)
    exact ⟨thread, change, hthread, hwrites, hfollows⟩
  · by_cases hdone : ∃ answer, pool.answer i = some answer
    · obtain ⟨⟨request, response⟩, hanswer⟩ := hdone
      have hthread := Pool.thread_of_answer hanswer
      have hpost := hcourse.outcome hthread
      obtain ⟨thread, hthread', hwrites⟩ := writes_of_reaches hreach hwrote
      obtain rfl := Option.some.inj (hthread.symm.trans hthread')
      cases request with
      | createWarning | updateReportStatus => exact .inl hpost.2
      | createReport =>
          cases change with
          | insertReport => contradiction
          | insertWarning | updateReport => exact hwrites.elim
      | getMyReports | listReports | listUserReports => exact hwrites.elim
    · exact .inr fun answer h => hdone ⟨answer, h⟩
  · have hsound' : later.state.Sound :=
      (onCourse_of_reaches (hreach.trans hlater)).invariant
    rw [hsound.tables, hsound'.tables, auditLogs_stored, auditLogs_stored]
    exact (List.reverse_prefix.mpr (suffix_of_reaches hreach hlater)).filterMap _

/-- Users 3 and 4 review a report; the entry of the second is missing, since
its statement failed. -/
def reviewsUnaudited : List (Move Request Draw Surroundings) :=
  [.environment .userRegisters, .environment .userRegisters,
    .environment .userRegisters, .environment .userRegisters,
    .submit (.createReport 1 2 "no delivery"), .advance 0 calmDraw,
    .advance 0 calmDraw, .submit (.updateReportStatus 3 1 .reviewing),
    .submit (.updateReportStatus 4 1 .resolved), .advance 1 calmDraw,
    .advance 2 calmDraw, .advance 2 ⟨.fails, id⟩, .advance 2 calmDraw,
    .advance 1 calmDraw]

/-- The log ends with a review that was replaced. -/
theorem audit_trail_unaudited :
    ∃ pool, desk.Reaches (fun _ _ => True) (Pool.opening 0) pool ∧
      pool.state.tables.auditLogs =
        [⟨3, "update_report_status", "report", some 1,
          [("status", "reviewing")], 0⟩] ∧
      (told 1 pool.state.history).map ReportRow.status = some .resolved ∧
      AuditTrail pool ∧
      ∀ later, desk.Reaches (fun _ _ => True) pool later →
        pool.state.tables.auditLogs <+: later.state.tables.auditLogs := by
  obtain ⟨pool, hreach, hcheck⟩ := System.exists_reaches_of_run
    (show (desk.run reviewsUnaudited (Pool.opening 0)).any (fun pool =>
      pool.state.tables.auditLogs = [⟨3, "update_report_status", "report",
        some 1, [("status", "reviewing")], 0⟩] &&
      (told 1 pool.state.history).map ReportRow.status = some .resolved) =
        true by decide +kernel)
  simp only [Bool.and_eq_true, decide_eq_true_eq] at hcheck
  exact ⟨pool, hreach, hcheck.1, hcheck.2, audit_trail hreach⟩

end MarketPlace.Moderation
