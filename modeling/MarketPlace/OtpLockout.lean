import MarketPlace.GivenRuns
import MarketPlace.OtpHistories

/-!
# The lock after too many wrong codes

A check that counts the fifth wrong code clears the pair's counter and reports
that the OTP is invalidated, but leaves the row of auth_otps as it is.  The row
stays dead, and the wrong codes against it stay within the maximum, in the runs
in which no check comes back to a locked row and the counter outlives the row.
-/

namespace MarketPlace

open EventLog Interleaving

variable {app : Deployment} {history past before : List Event}
  {event : Event} {i j : ℕ} {phone : String} {purpose : OtpPurpose}
  {row : OtpRow}
  {pool : Pool ProviderCall Draw World HttpError Response}

/-! ## Runs of the provider alone -/

/-- Pools that the provider's own calls reach. -/
def ProviderReachable (app : Deployment)
    (pool : Pool ProviderCall Draw World HttpError Response) : Prop :=
  ∃ now, (otpProviderSystem app).Reaches (fun _ _ => True) (Pool.start now) pool

theorem ProviderReachable.onCourse (hreach : ProviderReachable app pool) :
    System.OnCourse (discipline app fun write => write.byProvider = true)
      (fun call i response w => call.Ensures app i response w)
      (fun call i error w => call.FailsWith app i error w) pool := by
  obtain ⟨now, hreach⟩ := hreach
  exact hreach.sound (otpProviderSystem_sound app _)
    (System.onCourse_of_empty rfl (World.traced_initial app now))

/-- No transaction is open and only the provider has written. -/
structure World.ProviderOnly (w : World) : Prop where
  queues : ∀ i, w.store.queue i = []
  writes : ∀ i now write, .wrote i now write ∈ w.history →
    write.byProvider = true

theorem Effect.providerOnly {w w' : World}
    (heffect : Effect app (fun write => write.byProvider = true) i w w')
    (honly : w.ProviderOnly) : w'.ProviderOnly := by
  have hrecord : ∀ event : Event, (∀ j now write, event ≠ .wrote j now write) →
      ∀ j now write, .wrote j now write ∈ event :: w.history →
        write.byProvider = true := by
    intro event hnot j now write hmem
    rcases List.mem_cons.mp hmem with heq | hmem
    · exact absurd heq.symm (hnot j now write)
    · exact honly.writes j now write hmem
  cases heffect with
  | recorded event hobserved =>
      refine ⟨honly.queues, hrecord event ?_⟩
      rintro j now write rfl
      exact hobserved
  | autocommitted write hpermitted halone hunlocked hoffered =>
      refine ⟨honly.queues, fun j now other hmem => ?_⟩
      rcases List.mem_cons.mp hmem with heq | hmem
      · cases heq
        exact hpermitted
      · exact honly.writes j now other hmem
  | enqueued write hpermitted htransactional havailable hoffered =>
      cases write <;> contradiction
  | locked locks havailable => exact ⟨honly.queues, honly.writes⟩
  | rolledBack =>
      refine ⟨fun j => ?_, honly.writes⟩
      by_cases hij : j = i
      · subst hij
        exact ReadCommitted.Store.queue_rollback _ _
      · exact (ReadCommitted.Store.queue_rollback_of_ne _ hij).trans
          (honly.queues j)
  | committed =>
      refine ⟨fun j => ?_, fun j now write hmem => ?_⟩
      · by_cases hij : j = i
        · subst hij
          exact ReadCommitted.Store.queue_commit _ _ _
        · exact (ReadCommitted.Store.queue_commit_of_ne _ _ hij).trans
            (honly.queues j)
      · refine honly.writes j now write ?_
        simpa [World.commit, honly.queues i, World.flush] using hmem
  | redisSet key value ttlSeconds hkey => exact ⟨honly.queues, honly.writes⟩
  | redisDel key => exact ⟨honly.queues, honly.writes⟩
  | transactionStarted transaction phone purpose hnew =>
      exact ⟨honly.queues, hrecord _ (by simp)⟩
  | socketOpened userId hverified =>
      exact ⟨honly.queues, hrecord _ (by simp)⟩

theorem World.ProviderOnly.surroundings {w : World} (event : Surroundings)
    (honly : w.ProviderOnly) : (w.surroundings event).ProviderOnly := by
  cases event <;> exact ⟨honly.queues, by
    simpa [World.surroundings, World.writeElsewhere] using honly.writes⟩

theorem ProviderReachable.providerOnly (hreach : ProviderReachable app pool) :
    pool.state.ProviderOnly := by
  obtain ⟨now, hreach⟩ := hreach
  refine hreach.further (otpProviderSystem_sound app _)
    (System.onCourse_of_empty rfl (World.traced_initial app now))
    World.ProviderOnly ⟨fun _ => rfl, by simp [Pool.start, World.initial]⟩
    ?_ fun event _ _ honly => honly.surroundings event
  intro i s t haction _ honly
  induction haction with
  | refl => exact honly
  | tail _ heffect ih => exact heffect.providerOnly ih

/-! ## Reads of a row -/

/-- Request `i` read the row, unused and not expired. -/
def ReadUsable (i : ℕ) (row : OtpRow) (past history : List Event) : Prop :=
  ∃ readAt, Happened (.otpRead i readAt row) past history ∧
    row.usedAt = none ∧ row.expired readAt = false

theorem ReadUsable.later (h : ReadUsable i row before past)
    (hsuffix : past <:+ history) : ReadUsable i row before history := by
  obtain ⟨readAt, hread, hrest⟩ := h
  exact ⟨readAt, hread.later hsuffix, hrest⟩

/-- Where only the provider writes, an issued row stays stored. -/
theorem LawfulHistory.stored_of_issued {issue : OtpRow}
    (hlawful : LawfulHistory app history)
    (honly : ∀ i now write, .wrote i now write ∈ history →
      write.byProvider = true)
    (hissued : OtpIssued issue history) :
    (stored history).authOtps.get issue.id = some issue := by
  obtain ⟨i, now, past, hhappened⟩ := hissued.happened
  refine since
    (fun log => (stored log).authOtps.get issue.id = some issue) hhappened
    (hlawful.before hhappened).stored_of_issue ?_
  intro event before hevent hsuffix hget
  by_cases htouches : event.TouchesOtps
  · cases htouches with
    | issue j now' other => exact Relational.Table.get_insert_of_get hget
    | use j now' id at_ => exact absurd (honly _ _ _ hevent.mem) nofun
    | purge j now' at_ => exact absurd (honly _ _ _ hevent.mem) nofun
  · rw [stored_cons, Event.authOtps_of_not_touches
      (hlawful.justified hevent) htouches]
    exact hget

/-- A new OTP of the row's pair was issued after `before`. -/
def ReissuedSince (row : OtpRow) (before past : List Event) : Prop :=
  ∃ i now issue between,
    Happened (.wrote i now (.insertOtp issue)) between past ∧
      issue.phone = row.phone ∧ issue.purpose = row.purpose ∧
      before <:+ between

/-- After a new issue no check reads a row that had been issued before it. -/
theorem LawfulHistory.not_read_of_reissued {readAt : ℕ} {issue : OtpRow}
    (hlawful : LawfulHistory app history)
    (honly : ∀ i now write, .wrote i now write ∈ history →
      write.byProvider = true)
    (hread : Happened (.otpRead i readAt row) past history)
    (hissued : OtpIssued issue before) (hid : issue.id = row.id) :
    ¬ ReissuedSince row before past := by
  rintro ⟨j, now, newer, between, hnewer, hphone, hpurpose, hsuffix⟩
  have hpast := hlawful.before hread.older
  have hstored := hpast.stored_of_issued
    (fun i now write hmem => honly i now write (hread.older.subset hmem))
    ⟨j, now, hnewer.mem⟩
  obtain ⟨hget, hmax⟩ := hlawful.newest hread
  have hle := hmax newer newer.id hstored hphone hpurpose
  have hold : OtpIssued issue past := hissued.later (hsuffix.trans hnewer.older)
  have hsame := hpast.issued_of_stored (hid ▸ hget) hold
  have hlt := (hpast.issue_lt hnewer (hissued.later hsuffix)).2
  rw [hsame] at hle
  change newer.createdAt ≤ issue.createdAt at hle
  omega

/-! ## The attempt counter -/

/-- The pair's counter is deleted, or counts from one again. -/
def Event.RestartsCounter (phone : String) (purpose : OtpPurpose)
    (past : List Event) : Event → Prop
  | .wrote _ _ (.clearAttempts phone' purpose') =>
      phone' = phone ∧ purpose' = purpose
  | .wrote _ _ (.countAttempt phone' purpose' _ now) =>
      phone' = phone ∧ purpose' = purpose ∧
        ∃ counter, (stored past).authOtpAttempts.get (phone, purpose) =
          some counter ∧ counter.expiresAt ≤ now
  | _ => False

theorem Database.get_countAttempt (db : Database) (phone : String)
    (purpose : OtpPurpose) (ttlSeconds now : ℕ) :
    (db.apply (.countAttempt phone purpose ttlSeconds now)).authOtpAttempts.get
        (phone, purpose) =
      some ((db.authOtpAttempts.get (phone, purpose)).elim
        ⟨phone, purpose, 1, now + microseconds ttlSeconds, now⟩
        (OtpAttemptRow.counted ttlSeconds now)) :=
  Relational.Table.get_upsert_self db.authOtpAttempts
    ⟨phone, purpose, 1, now + microseconds ttlSeconds, now⟩ _ _

theorem Database.get_countAttempt_of_ne {db : Database} {phone' : String}
    {purpose' : OtpPurpose} {ttlSeconds now : ℕ}
    (hne : (phone', purpose') ≠ (phone, purpose)) :
    (db.apply (.countAttempt phone' purpose' ttlSeconds now)).authOtpAttempts.get
        (phone, purpose) =
      db.authOtpAttempts.get (phone, purpose) := by
  simp only [Database.apply]
  exact Relational.Table.get_upsert_of_ne hne

theorem Database.get_clearAttempts (db : Database) (phone' : String)
    (purpose' : OtpPurpose) :
    (db.apply (.clearAttempts phone' purpose')).authOtpAttempts.get
        (phone, purpose) =
      if (phone', purpose') = (phone, purpose) then none
      else db.authOtpAttempts.get (phone, purpose) := by
  simp only [Database.apply, Relational.Table.get_filter]
  cases hget : db.authOtpAttempts.get (phone, purpose) with
  | none => simp
  | some row =>
      have hkey := Relational.Table.key_of_get hget
      simp only [OtpAttemptRow.key, Prod.mk.injEq] at hkey
      obtain ⟨rfl, rfl⟩ := hkey
      rw [Option.filter_some]
      by_cases hpair : (phone', purpose') = (row.phone, row.purpose)
      · cases hpair
        simp
      · rw [if_neg hpair, if_pos]
        simp only [Prod.mk.injEq, not_and] at hpair
        simp only [Bool.not_eq_true', Bool.and_eq_false_iff,
          decide_eq_false_iff_not]
        by_cases hphone : row.phone = phone'
        · exact .inr fun hpurpose => hpair hphone.symm hpurpose.symm
        · exact .inl hphone

theorem Event.attempts_step (hjustified : event.Justified app past)
    (hnot : ¬ event.RestartsCounter phone purpose past)
    {counter : OtpAttemptRow}
    (hget : (stored past).authOtpAttempts.get (phone, purpose) =
      some counter) :
    ∃ counter', (stored (event :: past)).authOtpAttempts.get (phone, purpose) =
        some counter' ∧
      counter.attempts ≤ counter'.attempts := by
  by_cases hwrote : ∃ i now write, event = .wrote i now write
  · obtain ⟨i, now, write, rfl⟩ := hwrote
    cases write with
    | countAttempt phone' purpose' ttlSeconds at_ =>
        by_cases hpair : (phone', purpose') = (phone, purpose)
        · cases hpair
          have hopen : ¬ counter.expiresAt ≤ at_ := fun hle =>
            hnot ⟨rfl, rfl, counter, hget, hle⟩
          refine ⟨counter.counted ttlSeconds at_, ?_, ?_⟩
          · rw [stored_cons, Event.effect, Database.get_countAttempt, hget]
            rfl
          · unfold OtpAttemptRow.counted
            rw [if_neg hopen]
            exact Nat.le_succ _
        · refine ⟨counter, ?_, le_rfl⟩
          rw [stored_cons, Event.effect, Database.get_countAttempt_of_ne hpair]
          exact hget
    | clearAttempts phone' purpose' =>
        have hpair : (phone', purpose') ≠ (phone, purpose) := fun heq =>
          hnot (Prod.mk.inj heq)
        refine ⟨counter, ?_, le_rfl⟩
        rw [stored_cons, Event.effect, Database.get_clearAttempts,
          if_neg hpair]
        exact hget
    | insertUser row =>
        refine ⟨counter, ?_, le_rfl⟩
        simp only [stored_cons, Event.effect, Database.apply]
        split <;> exact hget
    | _ => exact ⟨counter, hget, le_rfl⟩
  · refine ⟨counter, ?_, le_rfl⟩
    rw [stored_cons, (hjustified.frame
      (fun i now write heq => hwrote ⟨i, now, write, heq⟩) _).2.2.1]
    exact hget

/-- A counter that is not restarted never falls. -/
theorem LawfulHistory.counter_kept {attempts : ℕ}
    (hlawful : LawfulHistory app history)
    (hcounted : Happened (.attemptCounted i phone purpose attempts) past
      history)
    (hkept : ∀ event before, Happened event before history →
      .attemptCounted i phone purpose attempts ∈ before →
      ¬ event.RestartsCounter phone purpose before) :
    ∃ counter, (stored history).authOtpAttempts.get (phone, purpose) =
        some counter ∧
      attempts ≤ counter.attempts := by
  obtain ⟨hcount, -⟩ := hlawful.justified hcounted
  refine since
    (fun log => ∃ counter, (stored log).authOtpAttempts.get (phone, purpose) =
      some counter ∧ attempts ≤ counter.attempts) hcounted ?_ ?_
  · obtain ⟨counter, hget, hattempts⟩ := Option.map_eq_some_iff.mp hcount
    exact ⟨counter, hget, hattempts.ge⟩
  · rintro event before hevent hsuffix ⟨counter, hget, hle⟩
    obtain ⟨counter', hget', hle'⟩ :=
      Event.attempts_step (hlawful.justified hevent)
        (hkept event before hevent (hsuffix.subset List.mem_cons_self)) hget
    exact ⟨counter', hget', hle.trans hle'⟩

theorem LawfulHistory.one_le_counted {attempts : ℕ}
    (hlawful : LawfulHistory app history)
    (hcounted : Happened (.attemptCounted i phone purpose attempts) past
      history) : 1 ≤ attempts := by
  obtain ⟨hcount, now, ttlSeconds, before, rfl⟩ := hlawful.justified hcounted
  rw [stored_cons, Event.effect, Database.get_countAttempt, Option.map_some,
    Option.some.injEq] at hcount
  rw [← hcount]
  cases (stored before).authOtpAttempts.get (phone, purpose) with
  | none => exact le_rfl
  | some counter =>
      simp only [Option.elim, OtpAttemptRow.counted]
      split
      · exact le_rfl
      · exact Nat.le_add_left 1 _

/-- Counting in a counter that is not restarted raises it by one. -/
theorem LawfulHistory.counted_succ {attempts attempts' : ℕ}
    (hlawful : LawfulHistory app history)
    (hcounted : Happened (.attemptCounted j phone purpose attempts') past
      history)
    (hearlier : Happened (.attemptCounted i phone purpose attempts) before past)
    (hkept : ∀ event before, Happened event before past →
      .attemptCounted i phone purpose attempts ∈ before →
      ¬ event.RestartsCounter phone purpose before) :
    attempts + 1 ≤ attempts' := by
  obtain ⟨hcount, now, ttlSeconds, rest, rfl⟩ := hlawful.justified hcounted
  have hearlier : Happened (.attemptCounted i phone purpose attempts) before
      rest := by
    rcases happened_cons.mp hearlier with ⟨heq, -⟩ | hearlier
    · contradiction
    · exact hearlier
  have hrest := hlawful.before
    ((List.suffix_cons _ _).trans hcounted.older)
  obtain ⟨counter, hget, hle⟩ := hrest.counter_kept hearlier
    fun event b hevent hmem => hkept event b hevent.cons hmem
  have hopen : ¬ counter.expiresAt ≤ now := fun hexpired =>
    hkept _ rest happened_self hearlier.mem
      ⟨rfl, rfl, counter, hget, hexpired⟩
  rw [stored_cons, Event.effect, Database.get_countAttempt, hget,
    Option.map_some, Option.some.injEq, Option.elim, OtpAttemptRow.counted,
    if_neg hopen] at hcount
  change counter.attempts + 1 = attempts' at hcount
  omega

/-! ## Wrong codes -/

/-- Request `i` is a check of the row's pair with a code that is not the
row's. -/
def WrongCheck (app : Deployment)
    (pool : Pool ProviderCall Draw World HttpError Response) (i : ℕ)
    (row : OtpRow) : Prop :=
  ∃ payload body, pool.threads[i]? = some ⟨.checkVerification payload, body⟩ ∧
    payload.phone = row.phone ∧ payload.purpose = row.purpose ∧
    hashOtp app payload.code row.salt ≠ row.codeHash

/-- Request `i` read the row and then counted an attempt for its pair. -/
structure Attempt (i : ℕ) (row : OtpRow) (attempts : ℕ)
    (past history : List Event) : Prop where
  counted : Happened (.attemptCounted i row.phone row.purpose attempts) past
    history
  read : ∃ before, ReadUsable i row before past

theorem Attempt.later {attempts : ℕ} (h : Attempt i row attempts before past)
    (hsuffix : past <:+ history) : Attempt i row attempts before history :=
  ⟨h.counted.later hsuffix, h.read⟩

/-- The attempt is over: at the maximum, the lock has been reported after
it. -/
def Settled (i : ℕ) (row : OtpRow) (attempts : ℕ) (history : List Event) :
    Prop :=
  ∃ past, Attempt i row attempts past history ∧
    (otpMaxAttempts ≤ attempts →
      ∃ before, LockReport i row.phone row.purpose before history ∧
        past <:+ before)

/-- The runs in which the lock is one. -/
structure CarefulChecks (app : Deployment)
    (pool : Pool ProviderCall Draw World HttpError Response) : Prop where
  reissued : ∀ i readAt row past,
    Happened (.otpRead i readAt row) past pool.state.history →
    ∀ j before, LockReport j row.phone row.purpose before past →
      row.expired readAt = true ∨ ReissuedSince row before past
  settled : ∀ i j row past, i ≠ j → WrongCheck app pool i row →
    WrongCheck app pool j row →
    ReadUsable j row past pool.state.history →
    (∃ before, ReadUsable i row before past) →
    ∃ attempts, Settled i row attempts past
  kept : ∀ i j row attempts attempts' before past, i ≠ j →
    WrongCheck app pool i row → WrongCheck app pool j row →
    Attempt i row attempts before past →
    Attempt j row attempts' past pool.state.history →
    ∀ event rest, Happened event rest past →
      .attemptCounted i row.phone row.purpose attempts ∈ rest →
      ¬ event.RestartsCounter row.phone row.purpose rest

/-! ## The lock holds -/

/-- Once a check has reported the lock, no check that looks the OTP up later
accepts the row that was current then. -/
def LockHolds
    (pool : Pool ProviderCall Draw World HttpError Response) : Prop :=
  ∀ j payload before current,
    pool.threads[j]? = some ⟨.checkVerification payload, .failed tooManyAttempts⟩ →
    LockReport j payload.phone payload.purpose before pool.state.history →
    (stored before).newestOtp payload.phone payload.purpose = some current →
    ∀ k payload' otpId,
      pool.threads[k]? = some ⟨.checkVerification payload',
        .done (.checked ⟨some otpId⟩)⟩ →
      (∀ readAt row past,
        Happened (.otpRead k readAt row) past pool.state.history →
        LockReport j payload.phone payload.purpose before past) →
      otpId ≠ current.id

/-- Request `i` tried a wrong code against the row. -/
def Tried (app : Deployment)
    (pool : Pool ProviderCall Draw World HttpError Response) (i : ℕ)
    (row : OtpRow) : Prop :=
  WrongCheck app pool i row ∧ ∃ past, ReadUsable i row past pool.state.history

/-- At most the maximum of wrong codes is tried against one OTP. -/
def AttemptsBounded (app : Deployment)
    (pool : Pool ProviderCall Draw World HttpError Response) : Prop :=
  ∀ row, ∀ tried : Finset ℕ, (∀ i ∈ tried, Tried app pool i row) →
    tried.card ≤ otpMaxAttempts

theorem ProviderReachable.lock_reported (hreach : ProviderReachable app pool)
    (hconsole : app.config.otpProvider = .console)
    {payload : CheckVerificationPayload}
    (hfailed : pool.threads[j]? =
      some ⟨.checkVerification payload, .failed tooManyAttempts⟩) :
    ∃ before,
      LockReport j payload.phone payload.purpose before pool.state.history :=
  hreach.onCourse.failure hfailed hconsole rfl

theorem CarefulChecks.not_read_after_lock
    (hreach : ProviderReachable app pool)
    (hcareful : CarefulChecks app pool)
    (hread : ReadUsable i row past pool.state.history)
    (hlock : LockReport j row.phone row.purpose before past)
    {issue : OtpRow} (hissued : OtpIssued issue before) :
    issue.id ≠ row.id := by
  obtain ⟨readAt, hread, -, hfresh⟩ := hread
  intro hid
  rcases hcareful.reissued i readAt row past hread j before hlock with
    hexpired | hreissued
  · rw [hfresh] at hexpired
    contradiction
  · exact hreach.onCourse.invariant.lawful.not_read_of_reissued
      hreach.providerOnly.writes hread hissued hid hreissued

theorem CarefulChecks.lockHolds (hreach : ProviderReachable app pool)
    (hconsole : app.config.otpProvider = .console)
    (hcareful : CarefulChecks app pool) : LockHolds pool := by
  have hlawful := hreach.onCourse.invariant.lawful
  intro j payload before current hfailed hreport hcurrent k payload' otpId
    hdone hlater heq
  obtain ⟨result, hresult, hchecked⟩ := hreach.onCourse.outcome hdone
  cases hchecked with
  | akedly transaction hprovider =>
      rw [hconsole] at hprovider
      contradiction
  | console row hprovider haccepted =>
      cases hresult
      obtain ⟨t, husable⟩ := haccepted.usable
      obtain ⟨readAt, past, hread, hunused, hfresh⟩ := husable.readable
      have hlock := hlater readAt row past hread
      obtain ⟨hmem, hphone, hpurpose⟩ := Database.of_newestOtp hcurrent
      obtain ⟨now, hcleared⟩ := hlock.cleared
      have hpast := hlawful.before hread.older
      obtain ⟨issue, hissued, hsame⟩ :=
        (hpast.before hcleared.older).stored_issued
          (Relational.Table.get_of_mem hmem)
      have hid : issue.id = row.id := by
        rw [heq, hsame]
      -- The accepted row was issued before the lock, so it is of its pair.
      have hrow : row.SameIssue issue :=
        hpast.issued_of_stored (hid ▸ (hlawful.newest hread).1)
          (hissued.later hcleared.older)
      have hlocked : LockReport j row.phone row.purpose before past := by
        rw [hsame] at hphone hpurpose
        change issue.phone = payload.phone at hphone
        change issue.purpose = payload.purpose at hpurpose
        rw [hrow]
        change LockReport j issue.phone issue.purpose before past
        rw [hphone, hpurpose]
        exact hlock
      exact hcareful.not_read_after_lock hreach
        ⟨readAt, hread, hunused, hfresh⟩ hlocked hissued hid

/-! ## The wrong codes are bounded -/

/-- The last of the settled attempts against a row has counted them all. -/
theorem CarefulChecks.card_le_counted (hreach : ProviderReachable app pool)
    (hcareful : CarefulChecks app pool)
    {tried : Finset ℕ} (hne : tried.Nonempty)
    (hpast : past <:+ pool.state.history)
    (hsettled : ∀ i ∈ tried, WrongCheck app pool i row ∧
      ∃ attempts, Settled i row attempts past) :
    ∃ i ∈ tried, ∃ attempts, Settled i row attempts past ∧
      tried.card ≤ attempts := by
  induction hcard : tried.card generalizing tried past with
  | zero => exact absurd (Finset.card_eq_zero.mp hcard) hne.ne_empty
  | succ count ih =>
      have hlawful := hreach.onCourse.invariant.lawful
      -- The last to read the row before a settled attempt of its own.
      obtain ⟨i, hi, event, readPast, ⟨readAt, attempts, counted, rfl, hended,
          hcounted, hunused, hfresh, hearlier⟩, hread, hothers⟩ :=
        exists_latest hne
          (fun i event before => ∃ readAt attempts counted,
            event = .otpRead i readAt row ∧ Settled i row attempts past ∧
            Attempt i row attempts counted past ∧ row.usedAt = none ∧
            row.expired readAt = false ∧ Happened event before counted)
          (by
            rintro i j event before ⟨t, _, _, rfl, -⟩ ⟨u, _, _, heq, -⟩
            cases heq
            rfl)
          (by
            intro i hi
            obtain ⟨-, attempts, counted, hattempt, hlock⟩ := hsettled i hi
            obtain ⟨before, readAt, hread, hunused, hfresh⟩ := hattempt.read
            exact ⟨_, before, ⟨readAt, attempts, counted, rfl,
              ⟨counted, hattempt, hlock⟩, hattempt, hunused, hfresh, hread⟩,
              hread.later hattempt.counted.older⟩)
      have hreads : ∀ j ∈ tried, j ≠ i →
          ∃ before, ReadUsable j row before readPast := by
        intro j hj hji
        obtain ⟨event, before, ⟨t, _, _, rfl, _, _, hunused, hfresh, _⟩,
          hread⟩ := hothers j hj hji
        exact ⟨before, t, hread, hunused, hfresh⟩
      have hsettled' : ∀ j ∈ tried.erase i, WrongCheck app pool j row ∧
          ∃ attempts, Settled j row attempts readPast := by
        intro j hj
        obtain ⟨hji, hj⟩ := Finset.mem_erase.mp hj
        refine ⟨(hsettled j hj).1, ?_⟩
        exact hcareful.settled j i row readPast hji (hsettled j hj).1
          (hsettled i hi).1
          ⟨readAt, hread.later hpast, hunused, hfresh⟩ (hreads j hj hji)
      have hcard' : (tried.erase i).card = count := by
        rw [Finset.card_erase_of_mem hi, hcard]
        rfl
      refine ⟨i, hi, attempts, hended, ?_⟩
      by_cases hrest : (tried.erase i).Nonempty
      · obtain ⟨j, hj, attempts', ⟨before, hattempt, -⟩, hle⟩ :=
          ih hrest (hread.older.trans hpast) hsettled' hcard'
        have hji := (Finset.mem_erase.mp hj).1
        have hbefore := hattempt.later hearlier.older
        have hsucc := (hlawful.before hpast).counted_succ hcounted.counted
          hbefore.counted
          (hcareful.kept j i row attempts' attempts before counted hji
            (hsettled' j hj).1 (hsettled i hi).1 hbefore
            (hcounted.later hpast))
        omega
      · rw [Finset.not_nonempty_iff_eq_empty] at hrest
        rw [hrest, Finset.card_empty] at hcard'
        have hone := (hlawful.before hpast).one_le_counted hcounted.counted
        omega

theorem CarefulChecks.attemptsBounded (hreach : ProviderReachable app pool)
    (hcareful : CarefulChecks app pool) : AttemptsBounded app pool := by
  intro row tried htried
  by_contra hmany
  have hne : tried.Nonempty := by
    rw [Finset.nonempty_iff_ne_empty]
    rintro rfl
    simp at hmany
  obtain ⟨i, hi, event, past, ⟨readAt, rfl, hunused, hfresh⟩, hread,
      hothers⟩ :=
    exists_latest hne
      (fun i event _ => ∃ readAt, event = Event.otpRead i readAt row ∧
        row.usedAt = none ∧ row.expired readAt = false)
      (by
        rintro i j event before ⟨t, rfl, -⟩ ⟨u, heq, -⟩
        cases heq
        rfl)
      (by
        intro i hi
        obtain ⟨-, before, readAt, hread, hrest⟩ := htried i hi
        exact ⟨_, before, ⟨readAt, rfl, hrest⟩, hread⟩)
  have husable : ReadUsable i row past pool.state.history :=
    ⟨readAt, hread, hunused, hfresh⟩
  have hsettled : ∀ j ∈ tried.erase i, WrongCheck app pool j row ∧
      ∃ attempts, Settled j row attempts past := by
    intro j hj
    obtain ⟨hji, hj⟩ := Finset.mem_erase.mp hj
    obtain ⟨event, before, ⟨t, rfl, hrest⟩, hread'⟩ := hothers j hj hji
    exact ⟨(htried j hj).1, hcareful.settled j i row past hji (htried j hj).1
      (htried i hi).1 husable ⟨before, t, hread', hrest⟩⟩
  have hcard : otpMaxAttempts ≤ (tried.erase i).card := by
    rw [Finset.card_erase_of_mem hi]
    omega
  have hothersNe : (tried.erase i).Nonempty :=
    Finset.card_pos.mp (Nat.lt_of_lt_of_le (by decide) hcard)
  obtain ⟨j, hj, attempts, ⟨counted, hattempt, hlocked⟩, hle⟩ :=
    hcareful.card_le_counted hreach hothersNe hread.older hsettled
  -- The fifth attempt was reported as a lock, and yet a check came back.
  obtain ⟨before, hreport, hsuffix⟩ := hlocked (hcard.trans hle)
  obtain ⟨readPast, t, hread', -⟩ := hattempt.read
  have hlawful := hreach.onCourse.invariant.lawful
  obtain ⟨issue, hissued, hsame⟩ := LawfulHistory.issued_of_read
    (hlawful.before (hattempt.counted.older.trans hread.older)) hread'
  refine hcareful.not_read_after_lock hreach husable hreport
    (hissued.later (hread'.older.trans hsuffix)) ?_
  rw [hsame]

theorem lockout_of_carefulChecks (hreach : ProviderReachable app pool)
    (hconsole : app.config.otpProvider = .console)
    (hcareful : CarefulChecks app pool) :
    LockHolds pool ∧ AttemptsBounded app pool :=
  ⟨hcareful.lockHolds hreach hconsole, hcareful.attemptsBounded hreach⟩

def resetVerification : StartVerificationPayload :=
  ⟨"+201", .passwordReset, none, none⟩

def resetCheck (code : String) : CheckVerificationPayload :=
  ⟨"+201", code, .passwordReset, none⟩

/-- The row that is issued first. -/
def firstReset : OtpRow :=
  newOtpRow (sampleDeployment .console) resetVerification "100000" "salt" 1 0

/-! ## Histories that are checked -/

/-- Who read the row here, unused and not expired. -/
def Event.readerOf (row : OtpRow) : Event → Option ℕ
  | .otpRead i readAt row' =>
      if row' = row ∧ row.usedAt = none ∧ row.expired readAt = false then
        some i
      else none
  | _ => none

/-- Whose attempt was counted for the pair here. -/
def Event.counterOf (phone : String) (purpose : OtpPurpose) :
    Event → Option ℕ
  | .attemptCounted i phone' purpose' _ =>
      if phone' = phone ∧ purpose' = purpose then some i else none
  | _ => none

/-- Who deleted the pair's counter here. -/
def Event.clearerOf (phone : String) (purpose : OtpPurpose) :
    Event → Option ℕ
  | .wrote i _ (.clearAttempts phone' purpose') =>
      if phone' = phone ∧ purpose' = purpose then some i else none
  | _ => none

def Event.rowRead : Event → Option OtpRow
  | .otpRead _ _ row => some row
  | _ => none

def Event.restarts (phone : String) (purpose : OtpPurpose) :
    Event → List Event → Bool
  | .wrote _ _ (.clearAttempts phone' purpose'), _ =>
      phone' = phone && purpose' = purpose
  | .wrote _ _ (.countAttempt _ _ _ now), past =>
      ((stored past).authOtpAttempts.get (phone, purpose)).any
        fun counter => counter.expiresAt ≤ now
  | _, _ => false

def Event.reissues (row : OtpRow) : Event → Bool
  | .wrote _ _ (.insertOtp issue) =>
      issue.phone = row.phone && issue.purpose = row.purpose
  | _ => false

def Event.countsLast (i : ℕ) (phone : String) (purpose : OtpPurpose) :
    Event → Bool
  | .attemptCounted i' phone' purpose' attempts =>
      i' = i && phone' = phone && purpose' = purpose &&
        otpMaxAttempts ≤ attempts
  | _ => false

def hasRead (i : ℕ) (row : OtpRow) (past : List Event) : Bool :=
  past.any fun event => event.readerOf row = some i

def reportsLock (i : ℕ) (row : OtpRow) (event : Event) (past : List Event) :
    Bool :=
  event.clearerOf row.phone row.purpose = some i &&
    past.any (Event.countsLast i row.phone row.purpose)

/-- After every lock of the row's pair a new OTP of it was issued. -/
def locksReissued (row : OtpRow) (past : List Event) : Bool :=
  decide (Lawful (fun event before =>
    ((event.clearerOf row.phone row.purpose).all fun j =>
      !reportsLock j row event before ||
        sometime (fun event between => event.reissues row &&
          before.isSuffixOf between) past) = true) past)

def Event.settles (i : ℕ) (row : OtpRow) (past : List Event) :
    Event → List Event → Bool
  | .attemptCounted i' phone purpose attempts, counted =>
      i' = i && phone = row.phone && purpose = row.purpose &&
        hasRead i row counted &&
        (attempts < otpMaxAttempts ||
          sometime (fun event before => reportsLock i row event before &&
            counted.isSuffixOf before) past)
  | _, _ => false

/-- Whoever else has read the row has settled an attempt. -/
def othersSettled (j : ℕ) (row : OtpRow) (past : List Event) : Bool :=
  past.all fun event => (event.readerOf row).all fun i =>
    i = j || sometime (Event.settles i row past) past

def sharesRow (i j : ℕ) (past : List Event) : Bool :=
  past.any fun event => event.rowRead.any fun row =>
    hasRead i row past && hasRead j row past

/-- Since the attempts of those who share a row with `j` the counter has not
been restarted. -/
def counterKept (j : ℕ) (phone : String) (purpose : OtpPurpose)
    (past : List Event) : Bool :=
  decide (Lawful (fun event rest =>
    (!event.restarts phone purpose rest ||
      rest.all fun counted => (counted.counterOf phone purpose).all fun i =>
        i = j || !sharesRow i j past) = true) past)

def Event.careful : Event → List Event → Bool
  | .otpRead j readAt row, past =>
      (row.expired readAt || locksReissued row past) &&
        othersSettled j row past
  | .attemptCounted j phone purpose _, past => counterKept j phone purpose past
  | _, _ => true

theorem hasRead_iff :
    hasRead i row past = true ↔ ∃ before, ReadUsable i row before past := by
  rw [hasRead, List.any_eq_true]
  constructor
  · rintro ⟨event, hmem, hreader⟩
    rw [decide_eq_true_eq] at hreader
    unfold Event.readerOf at hreader
    split at hreader
    · next i' readAt row' =>
        split_ifs at hreader with hrow
        obtain ⟨rfl, hunused, hfresh⟩ := hrow
        cases hreader
        obtain ⟨before, hhappened⟩ := exists_happened hmem
        exact ⟨before, readAt, hhappened, hunused, hfresh⟩
    · contradiction
  · rintro ⟨before, readAt, hread, hunused, hfresh⟩
    refine ⟨_, hread.mem, ?_⟩
    simp [Event.readerOf, hunused, hfresh]

theorem reportsLock_of_lockReport
    (h : LockReport i row.phone row.purpose before past) :
    ∃ event, Happened event before past ∧
      event.clearerOf row.phone row.purpose = some i ∧
      reportsLock i row event before = true := by
  obtain ⟨⟨now, hcleared⟩, attempts, hcounted, hmax⟩ := h
  have hclearer : (Event.wrote i now (.clearAttempts row.phone row.purpose)).clearerOf
      row.phone row.purpose = some i := if_pos ⟨rfl, rfl⟩
  refine ⟨_, hcleared, hclearer, ?_⟩
  rw [reportsLock, hclearer, decide_eq_true rfl, Bool.true_and,
    List.any_eq_true]
  exact ⟨_, hcounted, by simp [Event.countsLast, hmax]⟩

theorem lockReport_of_reportsLock (hhappened : Happened event before past)
    (h : reportsLock i row event before = true) :
    LockReport i row.phone row.purpose before past := by
  simp only [reportsLock, Bool.and_eq_true, decide_eq_true_eq,
    List.any_eq_true] at h
  obtain ⟨hclearer, counted, hmem, hlast⟩ := h
  constructor
  · unfold Event.clearerOf at hclearer
    split at hclearer
    · next i' now phone' purpose' =>
        split_ifs at hclearer with hpair
        obtain ⟨rfl, rfl⟩ := hpair
        cases hclearer
        exact ⟨now, hhappened⟩
    · contradiction
  · unfold Event.countsLast at hlast
    split at hlast
    · simp only [Bool.and_eq_true, decide_eq_true_eq] at hlast
      obtain ⟨⟨⟨rfl, rfl⟩, rfl⟩, hmax⟩ := hlast
      exact ⟨_, hmem, hmax⟩
    · contradiction

theorem Event.restarts_of_restartsCounter
    (h : event.RestartsCounter phone purpose past) :
    event.restarts phone purpose past = true := by
  unfold Event.RestartsCounter at h
  split at h
  · obtain ⟨rfl, rfl⟩ := h
    simp [Event.restarts]
  · obtain ⟨rfl, rfl, counter, hget, hopen⟩ := h
    simp [Event.restarts, hget, hopen]
  · contradiction

theorem reissuedSince_of_sometime
    (h : sometime (fun event between => event.reissues row &&
      before.isSuffixOf between) past = true) :
    ReissuedSince row before past := by
  obtain ⟨event, between, hhappened, hcheck⟩ := sometime_iff.mp h
  rw [Bool.and_eq_true, List.isSuffixOf_iff_suffix] at hcheck
  obtain ⟨hissues, hsuffix⟩ := hcheck
  unfold Event.reissues at hissues
  split at hissues
  · rw [Bool.and_eq_true, decide_eq_true_eq, decide_eq_true_eq] at hissues
    exact ⟨_, _, _, between, hhappened, hissues.1, hissues.2, hsuffix⟩
  · contradiction

theorem settled_of_settles
    (h : sometime (Event.settles i row past) past = true) :
    ∃ attempts, Settled i row attempts past := by
  obtain ⟨event, counted, hhappened, hcheck⟩ := sometime_iff.mp h
  unfold Event.settles at hcheck
  split at hcheck
  · next i' phone purpose attempts =>
      simp only [Bool.and_eq_true, Bool.or_eq_true, decide_eq_true_eq] at hcheck
      obtain ⟨⟨⟨⟨rfl, rfl⟩, rfl⟩, hread⟩, hlock⟩ := hcheck
      refine ⟨attempts, counted, ⟨hhappened, hasRead_iff.mp hread⟩, ?_⟩
      intro hmax
      rcases hlock with hlt | hlock
      · omega
      · obtain ⟨event, before, hlocked, hcheck⟩ := sometime_iff.mp hlock
        rw [Bool.and_eq_true, List.isSuffixOf_iff_suffix] at hcheck
        exact ⟨before, lockReport_of_reportsLock hlocked hcheck.1, hcheck.2⟩
  · contradiction

theorem carefulChecks_of_lawful
    (hcareful : Lawful (fun event past => event.careful past = true)
      pool.state.history) :
    CarefulChecks app pool := by
  constructor
  · intro i readAt row past hread j before hlock
    have hlaw := hcareful _ _ hread
    simp only [Event.careful, Bool.and_eq_true, Bool.or_eq_true] at hlaw
    refine hlaw.1.imp_right fun hreissued => ?_
    obtain ⟨event, hhappened, hclearer, hreports⟩ :=
      reportsLock_of_lockReport hlock
    have hevent := of_decide_eq_true hreissued _ _ hhappened
    beta_reduce at hevent
    rw [hclearer, Option.all_some, hreports, Bool.not_true,
      Bool.false_or] at hevent
    exact reissuedSince_of_sometime hevent
  · rintro i j row past hne - - ⟨readAt, hread, -⟩ husable
    have hlaw := hcareful _ _ hread
    simp only [Event.careful, Bool.and_eq_true, othersSettled] at hlaw
    obtain ⟨event, hmem, hreader⟩ :=
      List.any_eq_true.mp (hasRead_iff.mpr husable)
    have hsettled := List.all_eq_true.mp hlaw.2 event hmem
    rw [of_decide_eq_true hreader, Option.all_some, Bool.or_eq_true,
      decide_eq_true_eq] at hsettled
    exact settled_of_settles (hsettled.resolve_left hne)
  · rintro i j row attempts attempts' before past hne - - hi hj event rest
      hhappened hcounted hrestarts
    have hkept := of_decide_eq_true (hcareful _ _ hj.counted) _ _ hhappened
    beta_reduce at hkept
    rw [Event.restarts_of_restartsCounter hrestarts, Bool.not_true,
      Bool.false_or, List.all_eq_true] at hkept
    have hshared := hkept _ hcounted
    rw [show (Event.attemptCounted i row.phone row.purpose attempts).counterOf
      row.phone row.purpose = some i from if_pos ⟨rfl, rfl⟩, Option.all_some,
      Bool.or_eq_true, decide_eq_true_eq] at hshared
    have hapart := hshared.resolve_left hne
    obtain ⟨readBefore, husable⟩ := hi.read
    have hearlier := husable.later hi.counted.older
    obtain ⟨readAt, hread, -⟩ := hearlier
    have hshares : sharesRow i j past = true := by
      rw [sharesRow, List.any_eq_true]
      refine ⟨_, hread.mem, ?_⟩
      rw [Event.rowRead, Option.any_some, Bool.and_eq_true]
      exact ⟨hasRead_iff.mpr ⟨_, husable.later hi.counted.older⟩,
        hasRead_iff.mpr hj.read⟩
    rw [hshares] at hapart
    contradiction

/-- Five wrong codes lock the first OTP; a second one is issued, and a wrong
code and the right one are tried against it. -/
def relockedMoves : List (Move ProviderCall Draw Surroundings) :=
  alone 0 (ProviderCall.startVerification resetVerification) 3 ++
    ([1, 2, 3, 4].flatMap fun i =>
      alone i (ProviderCall.checkVerification (resetCheck "123456")) 3) ++
    alone 5 (ProviderCall.checkVerification (resetCheck "123456")) 4 ++
    aloneUnder { sampleDraw with otp := 1 } 6
      (ProviderCall.startVerification resetVerification) 3 ++
    alone 7 (ProviderCall.checkVerification (resetCheck "123456")) 3 ++
    alone 8 (ProviderCall.checkVerification (resetCheck "100001")) 3

theorem lockout_of_relockedMoves :
    ∃ pool, ProviderReachable (sampleDeployment .console) pool ∧
      pool.refusal 5 = some (.checkVerification (resetCheck "123456"),
        tooManyAttempts) ∧
      pool.answer 8 = some (.checkVerification (resetCheck "100001"),
        .checked ⟨some 2⟩) ∧
      LockHolds pool ∧ AttemptsBounded (sampleDeployment .console) pool := by
  obtain ⟨pool, hreach, hcheck⟩ := System.exists_reaches_of_run
    (show ((otpProviderSystem (sampleDeployment .console)).run relockedMoves
      (Pool.start 0)).any (fun pool =>
        decide (Lawful (fun event past => event.careful past = true)
          pool.state.history) &&
        pool.refusal 5 = some (.checkVerification (resetCheck "123456"),
          tooManyAttempts) &&
        pool.answer 8 = some (.checkVerification (resetCheck "100001"),
          .checked ⟨some 2⟩)) = true by decide +kernel)
  simp only [Bool.and_eq_true, decide_eq_true_eq] at hcheck
  obtain ⟨⟨hcareful, hrefusal⟩, hanswer⟩ := hcheck
  exact ⟨pool, ⟨0, hreach⟩, hrefusal, hanswer,
    lockout_of_carefulChecks ⟨0, hreach⟩ rfl
      (carefulChecks_of_lawful hcareful)⟩

/-! ## A locked row is accepted -/

/-- The fifth wrong code is reported as a lock, and the right one follows. -/
def lockedMoves : List (Move ProviderCall Draw Surroundings) :=
  alone 0 (ProviderCall.startVerification resetVerification) 3 ++
    ([1, 2, 3, 4].flatMap fun i =>
      alone i (ProviderCall.checkVerification (resetCheck "123456")) 3) ++
    alone 5 (ProviderCall.checkVerification (resetCheck "123456")) 4 ++
    alone 6 (ProviderCall.checkVerification (resetCheck "100000")) 3

/-- Request 5 reported the lock while the first row was current, and request 6
read after that. -/
def lockedHistory : List Event → Bool
  | .wrote 6 _ _ :: .otpRead 6 _ _ ::
      .wrote 5 _ (.clearAttempts "+201" .passwordReset) :: before =>
      before.any (fun event =>
        event = .attemptCounted 5 "+201" .passwordReset 5) &&
      before.all (fun event =>
        match event with
        | .otpRead i _ _ => i ≠ 6
        | _ => true) &&
      (stored before).newestOtp "+201" .passwordReset = some firstReset
  | _ => false

theorem not_always_lockout :
    ¬ ∀ (app : Deployment)
        (pool : Pool ProviderCall Draw World HttpError Response),
      ProviderReachable app pool → app.config.otpProvider = .console →
      LockHolds pool ∧ AttemptsBounded app pool := by
  intro hlockout
  obtain ⟨pool, hreach, hcheck⟩ := System.exists_reaches_of_run
    (show ((otpProviderSystem (sampleDeployment .console)).run lockedMoves
      (Pool.start 0)).any (fun pool =>
        pool.refusal 5 = some (.checkVerification (resetCheck "123456"),
          tooManyAttempts) &&
        pool.answer 6 = some (.checkVerification (resetCheck "100000"),
          .checked ⟨some 1⟩) &&
        lockedHistory pool.state.history) = true by decide +kernel)
  simp only [Bool.and_eq_true, decide_eq_true_eq] at hcheck
  obtain ⟨⟨hrefusal, hanswer⟩, hlocked⟩ := hcheck
  obtain ⟨hholds, -⟩ := hlockout _ pool ⟨0, hreach⟩ rfl
  unfold lockedHistory at hlocked
  split at hlocked
  · next now write readAt row at_ before hhistory =>
      simp only [Bool.and_eq_true, List.any_eq_true, List.all_eq_true,
        decide_eq_true_eq] at hlocked
      obtain ⟨⟨⟨event, hcounted, rfl⟩, hunread⟩, hcurrent⟩ := hlocked
      have hreport : ∀ history,
          (.wrote 5 at_ (.clearAttempts "+201" .passwordReset) :: before) <:+
            history →
          LockReport 5 "+201" .passwordReset before history :=
        fun history hsuffix => ⟨⟨at_, hsuffix⟩, 5, hcounted, le_rfl⟩
      refine hholds 5 _ before firstReset (Pool.thread_of_refusal hrefusal)
        (hreport _ ?_) hcurrent 6 _ 1 (Pool.thread_of_answer hanswer) ?_ rfl
      · rw [hhistory]
        exact (List.suffix_cons _ _).trans (List.suffix_cons _ _)
      · intro readAt' row' past hread
        rw [hhistory] at hread
        simp only [happened_cons, reduceCtorEq, false_and, false_or] at hread
        rcases hread with ⟨-, rfl⟩ | hread
        · exact hreport _ (List.suffix_refl _)
        · have hnot := hunread _ hread.mem
          simp at hnot
  · contradiction

end MarketPlace
