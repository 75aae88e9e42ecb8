import MarketPlace.PhoneOwnership
import MarketPlace.SupersededOtps

/-!
# One OTP, one use

A check reads `used_at` before the transaction that sets it begins.  Two
requests that read the same unused row are not told apart by it.  For a
registration the unique phone stops the second one; nothing stops a second
reset, so that a row is used once exactly as long as no reset reads it between
the read and the commit of another.
-/

namespace MarketPlace

open EventLog Interleaving

variable {app : Deployment} {history past before : List Event} {i j id : ℕ}
  {row row' : OtpRow} {pool : Pool Request Draw World HttpError Response}

/-! ## Consumed rows -/

/-- Request `i` has completed successfully, and this is the row that it
accepted and marked as used. -/
inductive ConsumedBy (app : Deployment)
    (pool : Pool Request Draw World HttpError Response) (i : ℕ)
    (row : OtpRow) : Prop where
  | registration (dto : VerifyRegistrationOtpDto) (response : Response)
      (transactionReqID : Option String) (at_ now : ℕ)
      (hdone : pool.threads[i]? =
        some ⟨.verifyRegistrationOtp dto, .done response⟩)
      (haccepted : AcceptedOtp app i
        ⟨dto.phone, dto.otp, .registration, transactionReqID⟩ row
        pool.state.history)
      (hmarked : .wrote i at_ (.useOtp row.id now) ∈ pool.state.history)
  | reset (dto : ResetPasswordDto) (response : Response)
      (transactionReqID : Option String) (at_ now : ℕ)
      (hdone : pool.threads[i]? = some ⟨.resetPassword dto, .done response⟩)
      (haccepted : AcceptedOtp app i
        ⟨dto.phone, dto.otp, .passwordReset, transactionReqID⟩ row
        pool.state.history)
      (hmarked : .wrote i at_ (.useOtp row.id now) ∈ pool.state.history)

/-- Every request that completes successfully consumes an OTP, and no two
consume the same. -/
structure OneUse (app : Deployment)
    (pool : Pool Request Draw World HttpError Response) : Prop where
  registration : ∀ i dto response,
    pool.threads[i]? = some ⟨.verifyRegistrationOtp dto, .done response⟩ →
      ∃ row, ConsumedBy app pool i row
  reset : ∀ i dto response,
    pool.threads[i]? = some ⟨.resetPassword dto, .done response⟩ →
      ∃ row, ConsumedBy app pool i row
  once : ∀ i j row row', ConsumedBy app pool i row →
    ConsumedBy app pool j row' → row.id = row'.id → i = j

/-- When a reset commits its mark of an OTP, no other reset that brings the
code of the OTP has read it since the first one read it. -/
def ResetsApart (app : Deployment)
    (pool : Pool Request Draw World HttpError Response) : Prop :=
  ∀ i j dto body row at_ now before readAt readAt' past, i ≠ j →
    Happened (.wrote i at_ (.useOtp row.id now)) before pool.state.history →
    Happened (.otpRead j readAt row) past before →
    pool.threads[j]? = some ⟨.resetPassword dto, body⟩ →
    hashOtp app dto.otp row.salt = row.codeHash →
    .otpRead i readAt' row ∉ past

/-- With the console provider a check accepts a row of auth_otps. -/
theorem VerifiedBy.accepted {phone otp : String} {purpose : OtpPurpose}
    {fromBody : Option String} {result : CheckVerificationResult}
    (hconsole : app.config.otpProvider = .console)
    (h : VerifiedBy app i phone otp purpose fromBody result history) :
    ∃ transactionReqID row, result.localOtpId = some row.id ∧
      AcceptedOtp app i ⟨phone, otp, purpose, transactionReqID⟩ row
        history := by
  obtain ⟨transactionReqID, -, hchecked⟩ := h
  cases hchecked with
  | akedly transaction hprovider =>
      rw [hconsole] at hprovider
      contradiction
  | console row hprovider haccepted =>
      exact ⟨transactionReqID, row, rfl, haccepted⟩

theorem Reachable.registration_consumes (hreach : Reachable app pool)
    (hconsole : app.config.otpProvider = .console)
    {dto : VerifyRegistrationOtpDto} {response : Response}
    (hdone : pool.threads[i]? =
      some ⟨.verifyRegistrationOtp dto, .done response⟩) :
    ∃ row, ConsumedBy app pool i row := by
  obtain ⟨result, -, -, -, -, hverified, -, -, -, -, -, -, -, hmarked⟩ :=
    (hreach.ensures hdone).1.outcome
  obtain ⟨transactionReqID, row, hid, haccepted⟩ := hverified.accepted hconsole
  obtain ⟨at_, now, hmarked⟩ := hmarked row.id hid
  exact ⟨row, .registration dto response transactionReqID at_ now hdone
    haccepted hmarked⟩

theorem Reachable.reset_consumes (hreach : Reachable app pool)
    (hconsole : app.config.otpProvider = .console)
    {dto : ResetPasswordDto} {response : Response}
    (hdone : pool.threads[i]? = some ⟨.resetPassword dto, .done response⟩) :
    ∃ row, ConsumedBy app pool i row := by
  obtain ⟨result, -, hverified, -, -, -, hmarked⟩ :=
    (hreach.ensures hdone).1.outcome
  obtain ⟨transactionReqID, row, hid, haccepted⟩ := hverified.accepted hconsole
  obtain ⟨at_, now, hmarked⟩ := hmarked row.id hid
  exact ⟨row, .reset dto response transactionReqID at_ now hdone haccepted
    hmarked⟩

/-! ## Reads and marks along a lawful history -/

/-- A mark is made on a row that was issued before. -/
theorem LawfulHistory.issued_of_use {at_ now : ℕ}
    (hlawful : LawfulHistory app history)
    (huse : Happened (.wrote i at_ (.useOtp id now)) past history) :
    ∃ issue, OtpIssued issue past ∧ issue.id = id := by
  have hqueued := (hlawful.justified huse).1 rfl
  obtain ⟨before, hqueued⟩ := exists_happened hqueued
  have hpast := hlawful.before huse.older
  obtain ⟨-, _, row, t, hid, husable⟩ := hpast.justified hqueued
  obtain ⟨readAt, earlier, hread, hunused, -⟩ := husable.readable
  have hissued := (hpast.before hqueued.older).issued_of_unused_read hread
    hunused
  exact ⟨row, hissued.later (hread.older.trans hqueued.older), hid⟩

/-- Nobody has marked a row that is read unused. -/
theorem LawfulHistory.unmarked_of_unused_read {readAt at_ now : ℕ}
    (hlawful : LawfulHistory app history)
    (hread : Happened (.otpRead j readAt row) past history)
    (hunused : row.usedAt = none) :
    .wrote i at_ (.useOtp row.id now) ∉ past := by
  intro hmarked
  obtain ⟨before, huse⟩ := exists_happened hmarked
  have hpast := hlawful.before hread.older
  obtain ⟨issue, hissued, hid⟩ := hpast.issued_of_use huse
  have hspent := hpast.spent_since huse
    (hissued.later (List.suffix_cons _ _))
    (hid ▸ spent_of_use i at_ row.id now before)
  have hused := hspent row (hid ▸ (hlawful.newest hread).1)
  rw [hunused] at hused
  contradiction

/-- Requests that accept rows with one id accept the same row. -/
theorem AcceptedOtp.row_eq {payload payload' : CheckVerificationPayload}
    (hlawful : LawfulHistory app history)
    (h : AcceptedOtp app i payload row history)
    (h' : AcceptedOtp app j payload' row' history) (hid : row.id = row'.id) :
    row = row' := by
  obtain ⟨readAt, past, hread, hunused⟩ := h.read
  obtain ⟨readAt', past', hread', hunused'⟩ := h'.read
  have hissued := hlawful.issued_of_unused_read hread hunused
  have hissued' := hlawful.issued_of_unused_read hread' hunused'
  exact hlawful.issue_unique (hissued.later hread.older)
    (hissued'.later hread'.older) hid

/-! ## Two registrations, two resets -/

theorem Reachable.one_registration (hreach : Reachable app pool)
    {dto dto' : VerifyRegistrationOtpDto} {response response' : Response}
    (hdone : pool.threads[i]? =
      some ⟨.verifyRegistrationOtp dto, .done response⟩)
    (hdone' : pool.threads[j]? =
      some ⟨.verifyRegistrationOtp dto', .done response'⟩)
    (hphone : dto.phone = dto'.phone) : i = j := by
  obtain ⟨-, -, user, -, -, -, -, -, -, huser, -, -, ⟨at_, hwrote⟩, -⟩ :=
    (hreach.ensures hdone).1.outcome
  obtain ⟨-, -, user', -, -, -, -, -, -, huser', -, -, ⟨at_', hwrote'⟩, -⟩ :=
    (hreach.ensures hdone').1.outcome
  refine hreach.phonesOnce.once i j at_ at_' user user' hwrote hwrote' ?_
  rw [huser, huser', hphone]

/-- A reset that marks a row has not read it before another reset that
accepted it. -/
theorem ResetsApart.not_read_first (hapart : ResetsApart app pool)
    (hlawful : LawfulHistory app pool.state.history) (hne : i ≠ j)
    {dto : ResetPasswordDto} {body : Handler Response} {at_ now readAt : ℕ}
    {transactionReqID : Option String}
    (hthread : pool.threads[j]? = some ⟨.resetPassword dto, body⟩)
    (haccepted : AcceptedOtp app j
      ⟨dto.phone, dto.otp, .passwordReset, transactionReqID⟩ row
      pool.state.history)
    (hread : Happened (.otpRead j readAt row) past pool.state.history)
    (hunused : row.usedAt = none)
    (hmarked : .wrote i at_ (.useOtp row.id now) ∈ pool.state.history)
    (readAt' : ℕ) : .otpRead i readAt' row ∉ past := by
  obtain ⟨before, hmark⟩ := exists_happened hmarked
  rcases hmark.compare hread with hwithin | hafter | ⟨heq, -⟩
  · exact hapart i j dto body row at_ now before readAt readAt' past hne hmark
      hwithin hthread haccepted.code
  · exact absurd hafter.mem (hlawful.unmarked_of_unused_read hread hunused)
  · contradiction

theorem ResetsApart.one_reset (hapart : ResetsApart app pool)
    (hlawful : LawfulHistory app pool.state.history)
    {dto dto' : ResetPasswordDto} {body body' : Handler Response}
    {transactionReqID transactionReqID' : Option String} {at_ at_' now now' : ℕ}
    (hthread : pool.threads[i]? = some ⟨.resetPassword dto, body⟩)
    (hthread' : pool.threads[j]? = some ⟨.resetPassword dto', body'⟩)
    (haccepted : AcceptedOtp app i
      ⟨dto.phone, dto.otp, .passwordReset, transactionReqID⟩ row
      pool.state.history)
    (haccepted' : AcceptedOtp app j
      ⟨dto'.phone, dto'.otp, .passwordReset, transactionReqID'⟩ row
      pool.state.history)
    (hmarked : .wrote i at_ (.useOtp row.id now) ∈ pool.state.history)
    (hmarked' : .wrote j at_' (.useOtp row.id now') ∈ pool.state.history) :
    i = j := by
  by_contra hne
  obtain ⟨readAt, past, hread, hunused⟩ := haccepted.read
  obtain ⟨readAt', past', hread', -⟩ := haccepted'.read
  rcases hread.compare hread' with hfirst | hfirst | ⟨heq, -⟩
  · exact hapart.not_read_first hlawful (Ne.symm hne) hthread haccepted hread
      hunused hmarked' readAt' hfirst.mem
  · exact hapart.not_read_first hlawful hne hthread' haccepted' hread' hunused
      hmarked readAt hfirst.mem
  · exact hne (Event.otpRead.inj heq).1

theorem ResetsApart.once (hapart : ResetsApart app pool)
    (hreach : Reachable app pool) (h : ConsumedBy app pool i row)
    (h' : ConsumedBy app pool j row') (hid : row.id = row'.id) : i = j := by
  have hlawful := hreach.traced.lawful
  cases h with
  | registration dto response transactionReqID at_ now hdone haccepted
      hmarked =>
      cases h' with
      | registration dto' response' transactionReqID' at_' now' hdone'
          haccepted' hmarked' =>
          obtain rfl := haccepted.row_eq hlawful haccepted' hid
          exact hreach.one_registration hdone hdone'
            (haccepted.phone.symm.trans haccepted'.phone)
      | reset dto' response' transactionReqID' at_' now' hdone' haccepted'
          hmarked' =>
          obtain rfl := haccepted.row_eq hlawful haccepted' hid
          have hpurpose := haccepted.purpose.symm.trans haccepted'.purpose
          contradiction
  | reset dto response transactionReqID at_ now hdone haccepted hmarked =>
      cases h' with
      | registration dto' response' transactionReqID' at_' now' hdone'
          haccepted' hmarked' =>
          obtain rfl := haccepted.row_eq hlawful haccepted' hid
          have hpurpose := haccepted.purpose.symm.trans haccepted'.purpose
          contradiction
      | reset dto' response' transactionReqID' at_' now' hdone' haccepted'
          hmarked' =>
          obtain rfl := haccepted.row_eq hlawful haccepted' hid
          exact hapart.one_reset hlawful hdone hdone' haccepted haccepted'
            hmarked hmarked'

/-- An OTP is used once in every run whose resets keep apart. -/
theorem one_otp_one_use (hreach : Reachable app pool)
    (hconsole : app.config.otpProvider = .console)
    (hapart : ResetsApart app pool) : OneUse app pool where
  registration _ _ _ hdone := hreach.registration_consumes hconsole hdone
  reset _ _ _ hdone := hreach.reset_consumes hconsole hdone
  once _ _ _ _ h h' hid := hapart.once hreach h h' hid

def Event.readsOtp (i : ℕ) (row : OtpRow) : Event → Bool
  | .otpRead j _ row' => j = i && row' = row
  | _ => false

/-- A read of the OTP comes before the one that request `i` made. -/
def Event.readsBefore (i id : ℕ) : Event → List Event → Bool
  | .otpRead j _ row, past =>
      row.id ≠ id || j = i || !past.any (Event.readsOtp i row)
  | _, _ => true

/-- At the mark of an OTP all others have read it before. -/
def Event.marksApart : Event → List Event → Bool
  | .wrote i _ (.useOtp id _), before =>
      decide (EventLog.Lawful
        (fun event past => readsBefore i id event past = true) before)
  | _, _ => true

theorem resetsApart_of_lawful
    (h : Lawful (fun event past => event.marksApart past = true)
      pool.state.history) :
    ResetsApart app pool := by
  intro i j dto body row at_ now before readAt readAt' past hne hmark
    hread _ _ hmem
  have hlaw := h _ _ hmark
  beta_reduce at hlaw
  rw [Event.marksApart, decide_eq_true_eq] at hlaw
  have hearlier := hlaw _ _ hread
  simp only [Event.readsBefore, Bool.or_eq_true, decide_eq_true_eq,
    Bool.not_eq_true', List.any_eq_false, ne_eq, not_true, false_or]
    at hearlier
  rcases hearlier with hsame | hunread
  · exact hne hsame.symm
  · have hnot := hunread _ hmem
    simp [Event.readsOtp] at hnot

/-- Reset 2 reads the OTP and its transaction fails, reset 3 uses it, and
reset 4, with the same code, comes too late.  A new OTP is used by reset 6. -/
def repeatedResetMoves : List (Move Request Draw Surroundings) :=
  alone 0 (Request.seedAdmin "+201" "old") 6 ++
    alone 1 (Request.requestPasswordResetOtp "+201") 4 ++
    alone 2 (resetWith "100000") 7 ++
    [Move.advance 2 { sampleDraw with databaseFails := true },
      Move.advance 2 sampleDraw] ++
    alone 3 (resetWith "100000") 12 ++ alone 4 (resetWith "100000") 1 ++
    aloneUnder { sampleDraw with otp := 1 } 5
      (Request.requestPasswordResetOtp "+201") 4 ++
    aloneUnder { sampleDraw with jti := "again" } 6 (resetWith "100001") 12

theorem one_otp_one_use_repeated :
    ∃ pool, Reachable (sampleDeployment .console) pool ∧
      (∃ response, pool.threads[3]? =
        some ⟨resetWith "100000", .done response⟩) ∧
      pool.refusal 4 =
        some (resetWith "100000", ⟨.badRequest, "OTP already used"⟩) ∧
      (∃ response, pool.threads[6]? =
        some ⟨resetWith "100001", .done response⟩) ∧
      OneUse (sampleDeployment .console) pool := by
  obtain ⟨pool, hreach, hcheck⟩ := exists_reachable_of_run
    (show ((backend (sampleDeployment .console)).run repeatedResetMoves
      (Pool.start 0)).any (fun pool =>
        pool.answers 3 (resetWith "100000") &&
        pool.answers 6 (resetWith "100001") &&
        decide (Lawful (fun event past => event.marksApart past = true)
          pool.state.history) &&
        pool.refusal 4 = some (resetWith "100000",
          ⟨.badRequest, "OTP already used"⟩)) = true by decide +kernel)
  simp only [Bool.and_eq_true, decide_eq_true_eq] at hcheck
  obtain ⟨⟨⟨hused, hrenewed⟩, hapart⟩, hrefusal⟩ := hcheck
  exact ⟨pool, hreach, Pool.done_of_answers hused, hrefusal,
    Pool.done_of_answers hrenewed,
    one_otp_one_use hreach rfl (resetsApart_of_lawful hapart)⟩

/-! ## Two resets with one OTP -/

def secondResetDraw : Draw := { sampleDraw with jti := "again" }

def issuesFirst : Event → Bool
  | .wrote _ _ (.insertOtp row) => row.id = 1
  | _ => true

/-- Two resets read the same OTP before either of them commits. -/
def racingResetMoves : List (Move Request Draw Surroundings) :=
  alone 0 (Request.seedAdmin "+201" "old") 6 ++
    alone 1 (Request.requestPasswordResetOtp "+201") 4 ++
    alone 2 (resetWith "100000") 1 ++
    aloneUnder secondResetDraw 3 (resetWith "100000") 1 ++
    List.replicate 11 (Move.advance 2 sampleDraw) ++
    List.replicate 11 (Move.advance 3 secondResetDraw)

theorem ConsumedBy.accepted (h : ConsumedBy app pool i row) :
    ∃ payload, AcceptedOtp app i payload row pool.state.history := by
  cases h with
  | registration dto response transactionReqID at_ now hdone haccepted
      hmarked => exact ⟨_, haccepted⟩
  | reset dto response transactionReqID at_ now hdone haccepted hmarked =>
      exact ⟨_, haccepted⟩

theorem ConsumedBy.issued (h : ConsumedBy app pool i row)
    (hlawful : LawfulHistory app pool.state.history) :
    OtpIssued row pool.state.history := by
  obtain ⟨payload, haccepted⟩ := h.accepted
  obtain ⟨readAt, past, hread, hunused⟩ := haccepted.read
  exact (hlawful.issued_of_unused_read hread hunused).later hread.older

theorem not_one_otp_one_use :
    ¬ ∀ pool, Reachable (sampleDeployment .console) pool →
      OneUse (sampleDeployment .console) pool := by
  intro hclaim
  obtain ⟨pool, hreach, hcheck⟩ := exists_reachable_of_run
    (show ((backend (sampleDeployment .console)).run racingResetMoves
      (Pool.start 0)).any (fun pool =>
        pool.answers 2 (resetWith "100000") &&
        pool.answers 3 (resetWith "100000") &&
        pool.state.history.all issuesFirst) = true by decide +kernel)
  simp only [Bool.and_eq_true] at hcheck
  obtain ⟨⟨hfirst, hsecond⟩, hissues⟩ := hcheck
  have hlawful := hreach.traced.lawful
  have hone : ∀ {i row}, ConsumedBy (sampleDeployment .console) pool i row →
      row.id = 1 := by
    intro i row h
    obtain ⟨j, now, hissued⟩ := h.issued hlawful
    simpa [issuesFirst] using List.all_eq_true.mp hissues _ hissued
  obtain ⟨response, hdone⟩ := Pool.done_of_answers hfirst
  obtain ⟨response', hdone'⟩ := Pool.done_of_answers hsecond
  obtain ⟨row, h⟩ := (hclaim pool hreach).reset 2 _ response hdone
  obtain ⟨row', h'⟩ := (hclaim pool hreach).reset 3 _ response' hdone'
  have heq := (hclaim pool hreach).once 2 3 row row' h h'
    ((hone h).trans (hone h').symm)
  contradiction

end MarketPlace
