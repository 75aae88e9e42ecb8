import MarketPlace.BackendOutlines

/-!
# OTP rows along a lawful history

What the laws say about auth_otps: which events change the table, that every
stored row was issued by one insertion, that later insertions have larger ids
and later creation times, and that a row that is gone or used stays so.
-/

namespace MarketPlace

open EventLog Interleaving

variable {app : Deployment} {history past past' : List Event}
  {event : Event} {i j : ℕ}

/-! ## What a write was grounded in -/

theorem LawfulHistory.before (hlawful : LawfulHistory app history)
    (hsuffix : past <:+ history) : LawfulHistory app past :=
  Lawful.older hlawful hsuffix

theorem LawfulHistory.transactional {write : Write}
    (hlawful : LawfulHistory app history)
    (hqueued : .queued i write ∈ history) : write.transactional = true := by
  obtain ⟨before, hhappened⟩ := exists_happened hqueued
  exact (hlawful.justified hhappened).1

theorem LawfulHistory.grounded {now : ℕ} {write : Write}
    (hlawful : LawfulHistory app history)
    (hwrote : Happened (.wrote i now write) past history)
    (halone : write.transactional = false) :
    write.Grounded app i now past := by
  refine (hlawful.justified hwrote).2 fun hqueued => ?_
  have htransactional :=
    (hlawful.before hwrote.older).transactional hqueued
  rw [halone] at htransactional
  contradiction

/-! ## The tables that other endpoints leave alone -/

/-- Apart from the modelled writes, no event changes the tables of accounts
and verification. -/
theorem Event.Justified.frame (hjustified : event.Justified app past)
    (hnot : ∀ i now write, event ≠ .wrote i now write) (db : Database) :
    (event.effect db).users = db.users ∧
      (event.effect db).authOtps = db.authOtps ∧
      (event.effect db).authOtpAttempts = db.authOtpAttempts ∧
      (event.effect db).authRefreshTokens = db.authRefreshTokens ∧
      (event.effect db).pendingRegistrations = db.pendingRegistrations := by
  cases event with
  | wrote i now write => exact absurd rfl (hnot i now write)
  | elsewhere write =>
      cases write with
      | openConversation row => exact ⟨rfl, rfl, rfl, rfl, rfl⟩
      | insertBlock row => exact ⟨rfl, rfl, rfl, rfl, rfl⟩
      | deleteBlock row => exact ⟨rfl, rfl, rfl, rfl, rfl⟩
      | _ => exact absurd hjustified (by simp [Justified, Write.outside])
  | _ => exact ⟨rfl, rfl, rfl, rfl, rfl⟩

/-- The events that touch auth_otps. -/
inductive Event.TouchesOtps : Event → Prop where
  | issue (i now : ℕ) (row : OtpRow) :
      Event.TouchesOtps (.wrote i now (.insertOtp row))
  | use (i now id at_ : ℕ) : Event.TouchesOtps (.wrote i now (.useOtp id at_))
  | purge (i now at_ : ℕ) : Event.TouchesOtps (.wrote i now (.purgeOtps at_))

theorem Event.authOtps_of_not_touches (hjustified : event.Justified app past)
    (hnot : ¬ event.TouchesOtps) (db : Database) :
    (event.effect db).authOtps = db.authOtps := by
  by_cases hwrote : ∃ i now write, event = .wrote i now write
  · obtain ⟨i, now, write, rfl⟩ := hwrote
    cases write with
    | insertOtp row => exact absurd (.issue i now row) hnot
    | useOtp id at_ => exact absurd (.use i now id at_) hnot
    | purgeOtps at_ => exact absurd (.purge i now at_) hnot
    | insertUser row =>
        simp only [Event.effect, Database.apply]
        split <;> rfl
    | _ => rfl
  · refine (hjustified.frame ?_ db).2.1
    intro i now write heq
    exact hwrote ⟨i, now, write, heq⟩

/-! ## Issued rows -/

/-- The row was inserted. -/
def OtpIssued (row : OtpRow) (history : List Event) : Prop :=
  ∃ i now, .wrote i now (.insertOtp row) ∈ history

/-- A stored row is the row that was issued, apart from its mark of use. -/
def OtpRow.SameIssue (row issue : OtpRow) : Prop :=
  row = { issue with usedAt := row.usedAt }

theorem OtpRow.SameIssue.refl (row : OtpRow) : row.SameIssue row := rfl

theorem OtpIssued.later {row : OtpRow} (h : OtpIssued row past)
    (hsuffix : past <:+ history) : OtpIssued row history := by
  obtain ⟨i, now, hissued⟩ := h
  exact ⟨i, now, hsuffix.subset hissued⟩

theorem OtpIssued.happened {row : OtpRow} (h : OtpIssued row history) :
    ∃ i now past, Happened (.wrote i now (.insertOtp row)) past history := by
  obtain ⟨i, now, hissued⟩ := h
  obtain ⟨past, hhappened⟩ := exists_happened hissued
  exact ⟨i, now, past, hhappened⟩

/-- Issues follow one another in ids and in creation times. -/
theorem LawfulHistory.issue_lt {now : ℕ} {row issue : OtpRow}
    (hlawful : LawfulHistory app history)
    (hissue : Happened (.wrote i now (.insertOtp row)) past history)
    (hearlier : OtpIssued issue past) :
    issue.id < row.id ∧ issue.createdAt < row.createdAt := by
  obtain ⟨-, -, -, hfresh⟩ := hlawful.grounded hissue rfl
  obtain ⟨j, at_, hwrote⟩ := hearlier
  exact hfresh j at_ issue hwrote

/-- Two issued rows are ordered the same way by time and by id. -/
theorem LawfulHistory.issue_cases {row issue : OtpRow}
    (hlawful : LawfulHistory app history)
    (hrow : OtpIssued row history) (hissue : OtpIssued issue history) :
    row = issue ∨
      (row.id < issue.id ∧ row.createdAt < issue.createdAt) ∨
      (issue.id < row.id ∧ issue.createdAt < row.createdAt) := by
  obtain ⟨i, now, before, hhappened⟩ := hrow.happened
  obtain ⟨j, now', before', hhappened'⟩ := hissue.happened
  rcases hhappened.compare hhappened' with hlt | hlt | ⟨heq, -⟩
  · exact .inr (.inr (hlawful.issue_lt hhappened ⟨j, now', hlt.mem⟩))
  · exact .inr (.inl (hlawful.issue_lt hhappened' ⟨i, now, hlt.mem⟩))
  · simp only [Event.wrote.injEq, Write.insertOtp.injEq] at heq
    exact .inl heq.2.2

theorem LawfulHistory.issue_unique {row issue : OtpRow}
    (hlawful : LawfulHistory app history)
    (hrow : OtpIssued row history) (hissue : OtpIssued issue history)
    (hid : row.id = issue.id) : row = issue := by
  rcases hlawful.issue_cases hrow hissue with heq | ⟨hlt, -⟩ | ⟨hlt, -⟩
  · exact heq
  · omega
  · omega

/-- Every stored row was issued. -/
theorem LawfulHistory.stored_issued {id : ℕ} {row : OtpRow}
    (hlawful : LawfulHistory app history)
    (hget : (stored history).authOtps.get id = some row) :
    ∃ issue, OtpIssued issue history ∧ row.SameIssue issue := by
  induction history generalizing row with
  | nil => cases hget
  | cons event past ih =>
      obtain ⟨hevent, hpast⟩ := lawful_cons.mp hlawful
      have holder : ∀ {other : OtpRow},
          (stored past).authOtps.get id = some other →
          ∃ issue, OtpIssued issue (event :: past) ∧
            other.SameIssue issue := by
        intro other hother
        obtain ⟨issue, hissued, hsame⟩ := ih hpast hother
        exact ⟨issue, hissued.later (List.suffix_cons _ _), hsame⟩
      by_cases htouches : event.TouchesOtps
      · cases htouches with
        | issue i now issue =>
            change ((stored past).authOtps.insert issue).get id = _ at hget
            rw [Relational.Table.get_insert] at hget
            rcases Option.or_eq_some_iff.mp hget with hother | ⟨-, hnew⟩
            · exact holder hother
            · obtain ⟨-, hnew⟩ := Option.ite_none_right_eq_some.mp hnew
              cases hnew
              exact ⟨row, ⟨i, now, List.mem_cons_self⟩, rfl⟩
        | use i now used at_ =>
            simp only [stored_cons, Event.effect, Database.apply,
              Relational.Table.get_modify, Option.map_eq_some_iff] at hget
            obtain ⟨other, hother, rfl⟩ := hget
            obtain ⟨issue, hissued, hsame⟩ := holder hother
            refine ⟨issue, hissued, ?_⟩
            split
            · rw [hsame]
              rfl
            · exact hsame
        | purge i now at_ =>
            simp only [stored_cons, Event.effect, Database.apply,
              Relational.Table.get_filter, Option.filter_eq_some_iff] at hget
            exact holder hget.1
      · rw [stored_cons,
          Event.authOtps_of_not_touches hevent.1 htouches] at hget
        exact holder hget

theorem LawfulHistory.issued_of_stored {row : OtpRow}
    (hlawful : LawfulHistory app history) {issue : OtpRow}
    (hget : (stored history).authOtps.get issue.id = some row)
    (hissued : OtpIssued issue history) : row.SameIssue issue := by
  obtain ⟨other, hother, hsame⟩ := hlawful.stored_issued hget
  have hid : other.id = issue.id := by
    have hkey := Relational.Table.key_of_get hget
    rw [hsame] at hkey
    exact hkey
  rw [← hlawful.issue_unique hother hissued hid]
  exact hsame

theorem LawfulHistory.issue_fresh {issue : OtpRow}
    (hlawful : LawfulHistory app history)
    (hissued : OtpIssued issue history) :
    issue.usedAt = none ∧
      issue.expiresAt =
        issue.createdAt + microseconds (app.config.otpTtlMinutes * 60) := by
  obtain ⟨i, now, past, hhappened⟩ := hissued.happened
  obtain ⟨hcreated, hunused, hexpires, -⟩ := hlawful.grounded hhappened rfl
  exact ⟨hunused, by rw [hexpires, hcreated]⟩

theorem LawfulHistory.stored_unused {row issue : OtpRow}
    (hlawful : LawfulHistory app history)
    (hget : (stored history).authOtps.get issue.id = some row)
    (hissued : OtpIssued issue history) (hunused : row.usedAt = none) :
    row = issue := by
  have hsame := hlawful.issued_of_stored hget hissued
  unfold OtpRow.SameIssue at hsame
  rw [hunused, ← (hlawful.issue_fresh hissued).1] at hsame
  exact hsame

/-- An inserted row is stored, as its id was free. -/
theorem LawfulHistory.stored_of_issue {now : ℕ} {row : OtpRow}
    (hlawful :
      LawfulHistory app (.wrote i now (.insertOtp row) :: past)) :
    (stored (.wrote i now (.insertOtp row) :: past)).authOtps.get row.id =
      some row := by
  refine Relational.Table.get_insert_self ?_
  by_contra htaken
  obtain ⟨other, hget⟩ := Option.ne_none_iff_exists'.mp htaken
  obtain ⟨issue, hissued, hsame⟩ :=
    (hlawful.before (List.suffix_cons _ _)).stored_issued hget
  have hlt := (hlawful.issue_lt happened_self hissued).1
  have hid := Relational.Table.key_of_get hget
  rw [hsame] at hid
  change issue.id = row.id at hid
  omega

/-! ## Spent rows -/

/-- No unused row has this id. -/
def OtpSpent (id : ℕ) (history : List Event) : Prop :=
  ∀ row, (stored history).authOtps.get id = some row → row.usedAt.isSome

/-- An issued row that is used or deleted never comes back. -/
theorem LawfulHistory.spent_since {issue : OtpRow}
    (hlawful : LawfulHistory app history) (hsuffix : past <:+ history)
    (hissued : OtpIssued issue past) (hspent : OtpSpent issue.id past) :
    OtpSpent issue.id history := by
  refine since (OtpSpent issue.id) hsuffix hspent ?_
  intro event before hevent holder hbefore row hget
  by_cases htouches : event.TouchesOtps
  · cases htouches with
    | issue i now row' =>
        have hlt := (hlawful.issue_lt hevent (hissued.later holder)).1
        change ((stored before).authOtps.insert row').get issue.id = _ at hget
        rw [Relational.Table.get_insert_of_ne (by omega)] at hget
        exact hbefore row hget
    | use i now used at_ =>
        simp only [stored_cons, Event.effect, Database.apply,
          Relational.Table.get_modify, Option.map_eq_some_iff] at hget
        obtain ⟨other, hother, rfl⟩ := hget
        have hused := hbefore other hother
        split
        · rfl
        · exact hused
    | purge i now at_ =>
        simp only [stored_cons, Event.effect, Database.apply,
          Relational.Table.get_filter, Option.filter_eq_some_iff] at hget
        exact hbefore row hget.1
  · rw [stored_cons, Event.authOtps_of_not_touches
      (hlawful.justified hevent) htouches] at hget
    exact hbefore row hget

theorem spent_of_use (i now id at_ : ℕ) (past : List Event) :
    OtpSpent id (.wrote i now (.useOtp id at_) :: past) := by
  intro row hget
  simp only [stored_cons, Event.effect, Database.apply,
    Relational.Table.get_modify, Option.map_eq_some_iff] at hget
  obtain ⟨other, hother, rfl⟩ := hget
  have hid := Relational.Table.key_of_get hother
  simp [hid]

/-! ## Reads -/

/-- What a check reads is stored, and no stored row of the pair is newer. -/
theorem LawfulHistory.newest {readAt : ℕ} {row : OtpRow}
    (hlawful : LawfulHistory app history)
    (hread : Happened (.otpRead i readAt row) past history) :
    (stored past).authOtps.get row.id = some row ∧
      ∀ other id, (stored past).authOtps.get id = some other →
        other.phone = row.phone → other.purpose = row.purpose →
        other.createdAt ≤ row.createdAt := by
  have hnewest : (stored past).newestOtp row.phone row.purpose = some row :=
    hlawful.justified hread
  constructor
  · exact Relational.Table.get_of_mem (Database.of_newestOtp hnewest).1
  · intro other id hget hphone hpurpose
    refine List.le_of_mem_argmax (List.mem_filter.mpr ⟨?_, ?_⟩) hnewest
    · exact Relational.Table.mem_of_get hget
    · simp [hphone, hpurpose]

/-- A row that is read has been issued before. -/
theorem LawfulHistory.issued_of_read {readAt : ℕ} {row : OtpRow}
    (hlawful : LawfulHistory app history)
    (hread : Happened (.otpRead i readAt row) past history) :
    ∃ issue, OtpIssued issue past ∧ row.SameIssue issue :=
  (hlawful.before hread.older).stored_issued (hlawful.newest hread).1

/-- A row that is read unused is as it was issued. -/
theorem LawfulHistory.issued_of_unused_read {readAt : ℕ}
    (hlawful : LawfulHistory app history)
    (hread : Happened (.otpRead i readAt row) past history)
    (hunused : row.usedAt = none) : OtpIssued row past := by
  obtain ⟨issue, hissued, hsame⟩ := hlawful.issued_of_read hread
  have hid : row.id = issue.id := by
    rw [hsame]
  have heq := (hlawful.before hread.older).stored_unused
    (hid ▸ (hlawful.newest hread).1) hissued hunused
  exact heq ▸ hissued

theorem OtpRow.expired_mono {row : OtpRow} {t u : ℕ} (hle : t ≤ u)
    (hexpired : row.expired t = true) : row.expired u = true := by
  unfold OtpRow.expired at *
  rw [decide_eq_true_eq] at *
  have hdiv := Nat.div_le_div_right hle (c := 1000)
  omega

theorem UsableOtpRead.readable {row : OtpRow} {t : ℕ}
    (h : UsableOtpRead i row t history) :
    ∃ readAt past, Happened (.otpRead i readAt row) past history ∧
      row.usedAt = none ∧ row.expired readAt = false := by
  obtain ⟨readAt, before, hread, hunused, hle, hfresh⟩ := h
  refine ⟨readAt, before, hread, hunused, ?_⟩
  by_contra hexpired
  rw [OtpRow.expired_mono hle (by simpa using hexpired)] at hfresh
  contradiction

theorem AcceptedOtp.read {payload : CheckVerificationPayload}
    (haccepted : AcceptedOtp app i payload row history) :
    ∃ readAt past, Happened (.otpRead i readAt row) past history ∧
      row.usedAt = none := by
  obtain ⟨t, husable⟩ := haccepted.usable
  obtain ⟨readAt, past, hread, hunused, -⟩ := husable.readable
  exact ⟨readAt, past, hread, hunused⟩

/-! ## Requests that check a code -/

structure OtpCheck where
  phone : String
  otp : String
  purpose : OtpPurpose
  transactionReqID : Option String

/-- What the requests that call `checkVerification` pass to it. -/
def Request.otpCheck : Request → Option OtpCheck
  | .provider (.checkVerification payload) =>
      some ⟨payload.phone, payload.code, payload.purpose,
        payload.transactionReqID⟩
  | .verifyRegistrationOtp dto =>
      some ⟨dto.phone, dto.otp, .registration, dto.transactionReqID⟩
  | .resetPassword dto =>
      some ⟨dto.phone, dto.otp, .passwordReset, dto.transactionReqID⟩
  | _ => none

variable {pool : Pool Request Draw World HttpError Response}

theorem Reachable.verified (hreach : Reachable app pool)
    {request : Request} {check : OtpCheck} {response : Response}
    (hcheck : request.otpCheck = some check)
    (hdone : pool.threads[i]? = some ⟨request, .done response⟩) :
    ∃ result, VerifiedBy app i check.phone check.otp check.purpose
      check.transactionReqID result pool.state.history := by
  have hensures := (hreach.ensures hdone).1
  unfold Request.otpCheck at hcheck
  split at hcheck
  · next payload =>
      cases hcheck
      obtain ⟨result, -, hchecked⟩ := hensures
      exact ⟨result, payload.transactionReqID,
        ⟨fun _ h => h, fun hnone id hid => absurd (hnone.symm.trans hid) nofun⟩,
        hchecked⟩
  · cases hcheck
    obtain ⟨result, -, -, -, -, hverified, -⟩ := hensures.outcome
    exact ⟨result, hverified⟩
  · cases hcheck
    obtain ⟨result, -, hverified, -⟩ := hensures.outcome
    exact ⟨result, hverified⟩
  · contradiction

end MarketPlace
