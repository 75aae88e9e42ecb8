import MarketPlace.GivenRuns
import MarketPlace.OtpHistories

/-!
# Superseded OTPs

A check reads only the newest row of its pair, so an older row is dead for as
long as a newer one is stored.  The hourly cleanup deletes used rows at once
and unused ones a day after they expired; a used row that it deletes too early
uncovers the rows it had superseded.
-/

namespace MarketPlace

open EventLog Interleaving

variable {app : Deployment} {history past before : List Event}
  {event : Event} {i : ℕ} {row issue newer : OtpRow}
  {pool : Pool Request Draw World HttpError Response}

/-! ## The claim and its condition -/

/-- The event issues an OTP of the pair, or marks one as used. -/
def Event.Supersedes (phone : String) (purpose : OtpPurpose)
    (past : List Event) : Event → Prop
  | .wrote _ _ (.insertOtp row) => row.phone = phone ∧ row.purpose = purpose
  | .wrote _ _ (.useOtp id _) => ∃ issue, OtpIssued issue past ∧
      issue.id = id ∧ issue.phone = phone ∧ issue.purpose = purpose
  | _ => False

/-- Whatever superseded the row's pair had happened before it was issued. -/
def NotSuperseded (row : OtpRow) (past : List Event) : Prop :=
  ∀ event before, Happened event before past →
    event.Supersedes row.phone row.purpose before →
    ∀ issue, OtpIssued issue before → issue.id ≠ row.id

/-- Request `i` read a row of its pair that had not been superseded and that
carries its code. -/
def AcceptedCurrent (app : Deployment) (i : ℕ) (check : OtpCheck)
    (history : List Event) : Prop :=
  ∃ row readAt past, Happened (.otpRead i readAt row) past history ∧
    row.phone = check.phone ∧ row.purpose = check.purpose ∧
    hashOtp app check.otp row.salt = row.codeHash ∧ NotSuperseded row past

/-- No cleanup deletes a used row while an older one of its pair is unused
and has not expired. -/
def PurgesKeepSuperseders (history : List Event) : Prop :=
  ∀ i now at_ past, Happened (.wrote i now (.purgeOtps at_)) past history →
    ∀ row older, (stored past).authOtps.get row.id = some row →
      (stored past).authOtps.get older.id = some older →
      row.phone = older.phone → row.purpose = older.purpose →
      older.id < row.id → row.usedAt.isSome → older.usedAt = none →
      older.expired at_ = true

/-- No row is marked used after a newer one of its pair was issued. -/
def UsesAreNewest (history : List Event) : Prop :=
  ∀ i now id at_ past, Happened (.wrote i now (.useOtp id at_)) past history →
    ∀ used newer, OtpIssued used past → used.id = id → OtpIssued newer past →
      used.phone = newer.phone → used.purpose = newer.purpose →
      newer.id ≤ used.id

/-! ## A newer row, or nothing -/

theorem LawfulHistory.issued_earlier {now : ℕ}
    (hlawful : LawfulHistory app history)
    (hnewer : Happened (.wrote i now (.insertOtp newer)) before history)
    (hissued : OtpIssued issue history) (hlt : issue.id < newer.id) :
    OtpIssued issue before := by
  obtain ⟨j, at_, past, hhappened⟩ := hissued.happened
  rcases hnewer.compare hhappened with hold | hnew | ⟨heq, -⟩
  · exact ⟨j, at_, hold.mem⟩
  · have hgt := (hlawful.issue_lt hhappened ⟨i, now, hnew.mem⟩).1
    omega
  · simp only [Event.wrote.injEq, Write.insertOtp.injEq] at heq
    rw [heq.2.2] at hlt
    exact absurd hlt (lt_irrefl _)

/-- The other row is a newer one of the issue's pair. -/
structure Covers (other issue : OtpRow) : Prop where
  phone : other.phone = issue.phone
  purpose : other.purpose = issue.purpose
  id : issue.id < other.id
  expires : issue.expiresAt < other.expiresAt
  created : issue.createdAt < other.createdAt

/-- A newer row of the pair is stored, or the row itself is spent, or its time
was over by some event. -/
def OutOfReach (issue : OtpRow) (history : List Event) : Prop :=
  (∃ other, (stored history).authOtps.get other.id = some other ∧
    Covers other issue) ∨
  OtpSpent issue.id history ∨
  ∃ event ∈ history, ∃ t, event.time = some t ∧ issue.expired t = true

theorem OtpRow.expired_of_purgeable {other : OtpRow} {now : ℕ}
    (hpurgeable : other.purgeable now = true) (hunused : other.usedAt = none)
    (hcovers : Covers other issue) : issue.expired now = true := by
  unfold OtpRow.purgeable at hpurgeable
  rw [hunused] at hpurgeable
  simp only [Option.isSome_none, Bool.false_or, decide_eq_true_eq] at hpurgeable
  have hexpires := hcovers.expires
  unfold OtpRow.expired
  rw [decide_eq_true_eq]
  unfold oneDay microseconds at hpurgeable
  omega

theorem OutOfReach.step (hlawful : LawfulHistory app (event :: past))
    (hkept : PurgesKeepSuperseders (event :: past))
    (hissued : OtpIssued issue past) (hout : OutOfReach issue past) :
    OutOfReach issue (event :: past) := by
  have hpast := hlawful.before (List.suffix_cons event past)
  rcases hout with ⟨other, hget, hcovers⟩ | hspent | ⟨old, hmem, t, htime, hended⟩
  · by_cases htouches : event.TouchesOtps
    · cases htouches with
      | issue i now row =>
          exact .inl ⟨other, Relational.Table.get_insert_of_get hget, hcovers⟩
      | use i now id at_ =>
          by_cases hid : other.id = id
          · subst hid
            refine .inl ⟨{ other with usedAt := some at_ }, ?_, hcovers.phone,
              hcovers.purpose, hcovers.id, hcovers.expires, hcovers.created⟩
            simp only [stored_cons, Event.effect, Database.apply,
              Relational.Table.get_modify, hget, Option.map_some,
              decide_true, if_true]
          · refine .inl ⟨other, ?_, hcovers⟩
            simp only [stored_cons, Event.effect, Database.apply,
              Relational.Table.get_modify, hget, Option.map_some, hid,
              decide_false, Bool.false_eq_true, if_false]
      | purge i now at_ =>
          by_cases hpurged : other.purgeable at_ = true
          · have hnow : at_ = now := hlawful.grounded happened_self rfl
            by_cases hunused : other.usedAt = none
            · refine .inr (.inr ⟨_, List.mem_cons_self, now, rfl, ?_⟩)
              rw [← hnow]
              exact OtpRow.expired_of_purgeable hpurged hunused hcovers
            · cases hissue : (stored past).authOtps.get issue.id with
              | none =>
                  refine .inr (.inl (hlawful.spent_since
                    (List.suffix_cons _ _) hissued fun row hrow => ?_))
                  rw [hissue] at hrow
                  contradiction
              | some row =>
                  by_cases hrow : row.usedAt = none
                  · obtain rfl := hpast.stored_unused hissue hissued hrow
                    refine .inr (.inr ⟨_, List.mem_cons_self, now, rfl, ?_⟩)
                    rw [← hnow]
                    exact hkept i now at_ past happened_self other row hget
                      hissue hcovers.phone hcovers.purpose hcovers.id
                      (Option.isSome_iff_ne_none.mpr hunused) hrow
                  · refine .inr (.inl (hlawful.spent_since
                      (List.suffix_cons _ _) hissued fun row' hrow' => ?_))
                    rw [hissue, Option.some.injEq] at hrow'
                    rw [← hrow']
                    exact Option.isSome_iff_ne_none.mpr hrow
          · refine .inl ⟨other, ?_, hcovers⟩
            simp only [stored_cons, Event.effect, Database.apply,
              Relational.Table.get_filter, hget]
            simp [Option.filter, hpurged]
    · refine .inl ⟨other, ?_, hcovers⟩
      rw [stored_cons, Event.authOtps_of_not_touches
        (hlawful.justified happened_self) htouches]
      exact hget
  · exact .inr (.inl (hlawful.spent_since (List.suffix_cons _ _) hissued hspent))
  · exact .inr (.inr ⟨old, List.mem_cons_of_mem _ hmem, t, htime, hended⟩)

/-- A row that is out of reach is not read as usable. -/
theorem OutOfReach.not_read {readAt : ℕ}
    (hlawful : LawfulHistory app history)
    (hread : Happened (.otpRead i readAt row) past history)
    (hunused : row.usedAt = none) (hfresh : row.expired readAt = false) :
    ¬ OutOfReach row past := by
  obtain ⟨hget, hmax⟩ := hlawful.newest hread
  rintro (⟨other, hother, hcovers⟩ | hspent | ⟨old, hmem, t, htime, hended⟩)
  · have hle := hmax other other.id hother hcovers.phone hcovers.purpose
    have hlt := hcovers.created
    omega
  · have hused := hspent row hget
    rw [hunused] at hused
    contradiction
  · have hle := hlawful.timely hread readAt rfl old hmem t htime
    rw [OtpRow.expired_mono hle hended] at hfresh
    contradiction

/-- An issued row is out of reach ever since a newer one of its pair was
issued. -/
theorem LawfulHistory.outOfReach_of_newer
    (hlawful : LawfulHistory app history)
    (hkept : PurgesKeepSuperseders history)
    (hissued : OtpIssued issue history) (hnewer : OtpIssued newer history)
    (hlt : issue.id < newer.id) (hphone : newer.phone = issue.phone)
    (hpurpose : newer.purpose = issue.purpose) :
    OutOfReach issue history := by
  obtain ⟨i, now, past, hhappened⟩ := hnewer.happened
  have hearlier := hlawful.issued_earlier hhappened hissued hlt
  have hcreated := (hlawful.issue_lt hhappened hearlier).2
  have hexpires : issue.expiresAt < newer.expiresAt := by
    rw [(hlawful.issue_fresh hissued).2, (hlawful.issue_fresh hnewer).2]
    exact Nat.add_lt_add_right hcreated _
  refine since (OutOfReach issue) hhappened
    (.inl ⟨newer, (hlawful.before hhappened).stored_of_issue, hphone,
      hpurpose, hlt, hexpires, hcreated⟩) ?_
  intro event before hevent hsuffix hout
  refine OutOfReach.step (hlawful.before hevent) ?_
    (hearlier.later ((List.suffix_cons _ _).trans hsuffix)) hout
  exact fun i now at_ b hpurge => hkept i now at_ b (hpurge.later hevent)

/-! ## What is read has not been superseded -/

theorem LawfulHistory.read_notSuperseded {readAt : ℕ}
    (hlawful : LawfulHistory app history)
    (hkept : PurgesKeepSuperseders history) (huses : UsesAreNewest history)
    (hread : Happened (.otpRead i readAt row) past history)
    (hunused : row.usedAt = none) (hfresh : row.expired readAt = false) :
    NotSuperseded row past := by
  have hpast := hlawful.before hread.older
  have hreach := OutOfReach.not_read hlawful hread hunused hfresh
  have hgone : ∀ {newer}, OtpIssued row past → OtpIssued newer past →
      row.id < newer.id → newer.phone = row.phone →
      newer.purpose = row.purpose → False :=
    fun hissued hnewer hlt hphone hpurpose => hreach
      (hpast.outOfReach_of_newer
        (fun i now at_ b hpurge => hkept i now at_ b (hpurge.later hread.older))
        hissued hnewer hlt hphone hpurpose)
  intro event before hevent hsupersedes issue hissued hid
  have hlater : OtpIssued issue past := hissued.later hevent.older
  -- The row that was read is the issue itself, being unused.
  obtain rfl :=
    hpast.stored_unused (hid ▸ (hlawful.newest hread).1) hlater hunused
  unfold Event.Supersedes at hsupersedes
  split at hsupersedes
  · next j now newer =>
      exact hgone hlater ⟨j, now, hevent.mem⟩
        (hpast.issue_lt hevent hissued).1 hsupersedes.1 hsupersedes.2
  · next j now id at_ =>
      obtain ⟨used, hused, rfl, hphone, hpurpose⟩ := hsupersedes
      have hle := huses j now used.id at_ before (hevent.later hread.older) used
        row hused rfl hissued hphone hpurpose
      rcases Nat.lt_or_eq_of_le hle with hlt | heq
      · exact hgone hlater (hused.later hevent.older) hlt hphone hpurpose
      · refine hreach (.inr (.inl (hpast.spent_since hevent
          (hissued.later (List.suffix_cons _ _)) ?_)))
        rw [heq]
        exact spent_of_use _ _ _ _ _
  · exact hsupersedes

theorem superseded_stay_dead (hreach : Reachable app pool)
    (hconsole : app.config.otpProvider = .console)
    (hkept : PurgesKeepSuperseders pool.state.history)
    (huses : UsesAreNewest pool.state.history)
    {request : Request} {check : OtpCheck} {response : Response}
    (hcheck : request.otpCheck = some check)
    (hdone : pool.threads[i]? = some ⟨request, .done response⟩) :
    AcceptedCurrent app i check pool.state.history := by
  obtain ⟨result, transactionReqID, -, hchecked⟩ :=
    hreach.verified hcheck hdone
  cases hchecked with
  | akedly transaction hprovider =>
      rw [hconsole] at hprovider
      contradiction
  | console row hprovider haccepted =>
      obtain ⟨t, husable⟩ := haccepted.usable
      obtain ⟨readAt, past, hread, hunused, hfresh⟩ := husable.readable
      exact ⟨row, readAt, past, hread, haccepted.phone, haccepted.purpose,
        haccepted.code, hreach.traced.lawful.read_notSuperseded hkept huses
          hread hunused hfresh⟩

def resetWith (otp : String) : Request :=
  .resetPassword ⟨"+201", otp, none, "renewed", "renewed"⟩

/-! ## Histories that are checked -/

def Event.issuedOtp : Event → Option OtpRow
  | .wrote _ _ (.insertOtp row) => some row
  | _ => none

theorem OtpIssued.mem_filterMap (h : OtpIssued row history) :
    row ∈ history.filterMap Event.issuedOtp := by
  obtain ⟨i, now, hmem⟩ := h
  exact List.mem_filterMap.mpr ⟨_, hmem, rfl⟩

/-- A cleanup keeps what superseded an unused row. -/
def Event.purgeKeeps : Event → List Event → Bool
  | .wrote _ _ (.purgeOtps at_), past =>
      (stored past).authOtps.rows.all fun row =>
        (stored past).authOtps.rows.all fun older =>
          decide (row.phone = older.phone → row.purpose = older.purpose →
            older.id < row.id → row.usedAt.isSome → older.usedAt = none →
            older.expired at_ = true)
  | _, _ => true

/-- The row that is marked used is the newest of its pair. -/
def Event.usesNewest : Event → List Event → Bool
  | .wrote _ _ (.useOtp id _), past =>
      (past.filterMap Event.issuedOtp).all fun used =>
        (past.filterMap Event.issuedOtp).all fun newer =>
          decide (used.id = id → used.phone = newer.phone →
            used.purpose = newer.purpose → newer.id ≤ used.id)
  | _, _ => true

theorem purgesKeepSuperseders_of_lawful
    (h : Lawful (fun event past => event.purgeKeeps past = true) history) :
    PurgesKeepSuperseders history := by
  intro i now at_ past hpurge row older hrow holder
  have hlaw := h _ _ hpurge
  beta_reduce at hlaw
  rw [Event.purgeKeeps, List.all_eq_true] at hlaw
  have hkept := List.all_eq_true.mp
    (hlaw row (Relational.Table.mem_of_get hrow)) older
    (Relational.Table.mem_of_get holder)
  exact of_decide_eq_true hkept

theorem usesAreNewest_of_lawful
    (h : Lawful (fun event past => event.usesNewest past = true) history) :
    UsesAreNewest history := by
  intro i now id at_ past huse used newer hused hid hnewer
  have hlaw := h _ _ huse
  beta_reduce at hlaw
  rw [Event.usesNewest, List.all_eq_true] at hlaw
  have hnewest := List.all_eq_true.mp (hlaw used hused.mem_filterMap) newer
    hnewer.mem_filterMap
  exact of_decide_eq_true hnewest hid

/-- The first OTP is used by a reset.  Of two more the cleanup, which deletes
the first, keeps both, and only the code of the newer one is accepted. -/
def supersededMoves : List (Move Request Draw Surroundings) :=
  alone 0 (Request.seedAdmin "+201" "old") 6 ++
    alone 1 (Request.requestPasswordResetOtp "+201") 4 ++
    alone 2 (resetWith "100000") 12 ++
    aloneUnder { sampleDraw with otp := 1 } 3
      (Request.requestPasswordResetOtp "+201") 4 ++
    aloneUnder { sampleDraw with otp := 2 } 4
      (Request.requestPasswordResetOtp "+201") 4 ++
    alone 5 Request.purgeExpiredOtps 2 ++ alone 6 (resetWith "100001") 3 ++
    aloneUnder { sampleDraw with jti := "again" } 7 (resetWith "100002") 12

theorem acceptedCurrent_of_supersededMoves :
    ∃ pool, Reachable (sampleDeployment .console) pool ∧
      pool.state.db.authOtps.get 1 = none ∧
      pool.refusal 6 = some (resetWith "100001", ⟨.badRequest, "Invalid OTP"⟩) ∧
      AcceptedCurrent (sampleDeployment .console) 7
        ⟨"+201", "100002", .passwordReset, none⟩ pool.state.history := by
  obtain ⟨pool, hreach, hcheck⟩ := exists_reachable_of_run
    (show ((backend (sampleDeployment .console)).run supersededMoves
      (Pool.start 0)).any (fun pool =>
        pool.answers 7 (resetWith "100002") &&
        decide (Lawful (fun event past => event.purgeKeeps past = true)
          pool.state.history) &&
        decide (Lawful (fun event past => event.usesNewest past = true)
          pool.state.history) &&
        pool.state.db.authOtps.get 1 = none &&
        pool.refusal 6 = some (resetWith "100001",
          ⟨.badRequest, "Invalid OTP"⟩)) = true by decide +kernel)
  simp only [Bool.and_eq_true, decide_eq_true_eq] at hcheck
  obtain ⟨⟨⟨⟨hanswers, hkept⟩, huses⟩, hpurged⟩, hrefusal⟩ := hcheck
  obtain ⟨response, hdone⟩ := Pool.done_of_answers hanswers
  exact ⟨pool, hreach, hpurged, hrefusal,
    superseded_stay_dead hreach rfl (purgesKeepSuperseders_of_lawful hkept)
      (usesAreNewest_of_lawful huses) rfl hdone⟩

/-! ## A row that comes back -/

/-- Two OTPs are issued, the newer one is used, the cleanup runs, and the
older one is used within its ten minutes. -/
def uncoveredMoves : List (Move Request Draw Surroundings) :=
  alone 0 (Request.seedAdmin "+201" "old") 6 ++
    alone 1 (Request.requestPasswordResetOtp "+201") 4 ++
    aloneUnder { sampleDraw with otp := 1 } 2
      (Request.requestPasswordResetOtp "+201") 4 ++
    alone 3 (resetWith "100001") 12 ++ alone 4 Request.purgeExpiredOtps 2 ++
    alone 5 (resetWith "100000") 12

/-- Request 5 reads nothing but an OTP that was issued before the second. -/
def uncoveredHistory (history : List Event) : Bool :=
  (match history.drop 24 with
    | .wrote _ _ (.insertOtp row) :: before =>
        row.phone = "+201" && row.purpose = .passwordReset &&
        before.all (fun event =>
          match event with
          | .otpRead i _ _ => i ≠ 5
          | _ => true) &&
        history.all fun event =>
          match event with
          | .otpRead 5 _ read => read.phone = "+201" &&
              read.purpose = .passwordReset &&
              before.any fun event =>
                match event with
                | .wrote _ _ (.insertOtp issue) => issue.id = read.id
                | _ => false
          | _ => true
    | _ => false)

theorem not_acceptedCurrent_of_uncoveredHistory
    (hhistory : uncoveredHistory history = true) :
    ¬ AcceptedCurrent app 5 ⟨"+201", "100000", .passwordReset, none⟩
      history := by
  rintro ⟨row, readAt, past, hread, -, -, -, hcurrent⟩
  unfold uncoveredHistory at hhistory
  split at hhistory
  · next j now newer before hdrop =>
      simp only [Bool.and_eq_true, decide_eq_true_eq, List.all_eq_true] at hhistory
      obtain ⟨⟨⟨hphone, hpurpose⟩, hunread⟩, hreads⟩ := hhistory
      have hnewer := happened_of_drop hdrop
      have hrow := hreads _ hread.mem
      simp only [Bool.and_eq_true, decide_eq_true_eq, List.any_eq_true] at hrow
      obtain ⟨⟨hrowPhone, hrowPurpose⟩, event, hmem, hissue⟩ := hrow
      split at hissue
      · next k at_ issue =>
          rw [decide_eq_true_eq] at hissue
          rcases hread.compare hnewer with hbefore | hafter | ⟨heq, -⟩
          · exact hcurrent _ before hbefore
              ⟨hphone.trans hrowPhone.symm, hpurpose.trans hrowPurpose.symm⟩
              issue ⟨k, at_, hmem⟩ hissue
          · have hnot := hunread _ hafter.mem
            simp at hnot
          · contradiction
      · contradiction
  · contradiction

theorem not_always_stay_dead :
    ¬ ∀ (app : Deployment) (pool : Pool Request Draw World HttpError Response)
        (i : ℕ) (request : Request) (check : OtpCheck) (response : Response),
      Reachable app pool → app.config.otpProvider = .console →
      request.otpCheck = some check →
      pool.threads[i]? = some ⟨request, .done response⟩ →
      AcceptedCurrent app i check pool.state.history := by
  intro hdead
  obtain ⟨pool, hreach, hcheck⟩ := exists_reachable_of_run
    (show ((backend (sampleDeployment .console)).run uncoveredMoves
      (Pool.start 0)).any (fun pool =>
        pool.answers 5 (resetWith "100000") &&
        uncoveredHistory pool.state.history) = true by decide +kernel)
  rw [Bool.and_eq_true] at hcheck
  obtain ⟨response, hdone⟩ := Pool.done_of_answers hcheck.1
  exact not_acceptedCurrent_of_uncoveredHistory hcheck.2
    (hdead _ pool 5 _ _ response hreach rfl rfl hdone)

end MarketPlace
