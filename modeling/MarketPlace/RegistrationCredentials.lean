import MarketPlace.GivenRuns
import MarketPlace.OtpHistories

/-!
# Whose credentials a verified registration gets

A register request overwrites the pending row of its phone, and the row is
joined with a checked code by the phone alone.  The account gets what the row
holds when it is read: what it held when the code was sent, or else what the
last register request since then has written.
-/

namespace MarketPlace

open EventLog Interleaving

variable {app : Deployment} {history past before : List Event}
  {event : Event} {i : ℕ} {phone : String} {pending : PendingRegistrationRow}
  {dto : VerifyRegistrationOtpDto} {response : Response}
  {pool : Pool Request Draw World HttpError Response}

/-! ## The claim -/

/-- The code that request `i` verified was sent, and `past` is what had
happened until then. -/
inductive CodeSent (app : Deployment) (i : ℕ) (dto : VerifyRegistrationOtpDto)
    (past history : List Event) : Prop where
  | console (row : OtpRow) (transactionReqID : Option String) (k at_ : ℕ)
      (haccepted : AcceptedOtp app i
        ⟨dto.phone, dto.otp, .registration, transactionReqID⟩ row history)
      (hsent : Happened (.wrote k at_ (.insertOtp row)) past history)
  | akedly (transactionReqID phone : String) (purpose : OtpPurpose) (k : ℕ)
      (hverified : .akedlyVerified i transactionReqID dto.otp ∈ history)
      (hsent : Happened (.akedlySent k phone purpose transactionReqID) past
        history)

/-- Request `i` answered with an account that has the name and the password
hash of the row. -/
def AccountFrom (i : ℕ) (pending : PendingRegistrationRow)
    (response : Response) (history : List Event) : Prop :=
  ∃ at_ user tokens, .wrote i at_ (.insertUser user) ∈ history ∧
    user.phone = pending.phone ∧ user.name = pending.name ∧
    user.passwordHash = pending.passwordHash ∧
    response = .session (mapToAppUser user) tokens

/-- The account has the credentials that were pending for the phone when the
verified code was sent. -/
def CredentialsOfSentCode (app : Deployment) (i : ℕ)
    (dto : VerifyRegistrationOtpDto) (response : Response)
    (history : List Event) : Prop :=
  ∀ past, CodeSent app i dto past history → ∃ pending,
    (stored past).pendingRegistrations.get dto.phone = some pending ∧
      AccountFrom i pending response history

/-! ## The pending row of a phone -/

/-- The event is a register request's write of the phone's pending row. -/
def Event.Registers (phone : String) (event : Event) : Prop :=
  ∃ k at_ row, event = .wrote k at_ (.upsertPending row) ∧ row.phone = phone

/-- No register request has written the phone's pending row since `past`. -/
def NoneRegistered (phone : String) (past history : List Event) : Prop :=
  ∀ event before, Happened event before history → past <:+ before →
    ¬ event.Registers phone

/-- Where the pending row that the phone has now comes from: it was there in
`past`, or the last register request since then has written it. -/
inductive PendingSince (phone : String) (pending : PendingRegistrationRow)
    (past history : List Event) : Prop where
  | kept (hnone : NoneRegistered phone past history)
      (hrow : (stored past).pendingRegistrations.get phone = some pending)
  | overwritten (k at_ : ℕ) (row : PendingRegistrationRow)
      (before : List Event)
      (hwrote : Happened (.wrote k at_ (.upsertPending row)) before history)
      (hafter : past <:+ before) (hphone : row.phone = phone)
      (hname : pending.name = row.name)
      (hhash : pending.passwordHash = row.passwordHash)
      (hlast : NoneRegistered phone
        (.wrote k at_ (.upsertPending row) :: before) history)

theorem noneRegistered_refl : NoneRegistered phone past past := by
  intro event before hevent hsuffix
  have hlength := List.IsSuffix.length_le (hsuffix.trans hevent.older)
  have hlt := List.IsSuffix.length_le hevent
  have hle := List.IsSuffix.length_le hsuffix
  rw [List.length_cons] at hlt
  omega

theorem NoneRegistered.cons (h : NoneRegistered phone past history)
    (hevent : ¬ event.Registers phone) :
    NoneRegistered phone past (event :: history) := by
  intro other before hother hsuffix
  rcases happened_cons.mp hother with ⟨rfl, -⟩ | hother
  · exact hevent
  · exact h other before hother hsuffix

/-- Apart from register requests nothing changes what a phone's row holds,
though it may be deleted. -/
theorem Event.Justified.pending_step (hjustified : event.Justified app past)
    (hevent : ¬ event.Registers phone)
    (hget : (stored (event :: past)).pendingRegistrations.get phone =
      some pending) :
    (stored past).pendingRegistrations.get phone = some pending := by
  by_cases hwrote : ∃ i now write, event = .wrote i now write
  · obtain ⟨i, now, write, rfl⟩ := hwrote
    cases write with
    | upsertPending row =>
        have hne : row.phone ≠ phone :=
          fun hphone => hevent ⟨i, now, row, rfl, hphone⟩
        simp only [stored_cons, Event.effect, Database.apply] at hget
        rwa [Relational.Table.get_upsert_of_ne hne] at hget
    | deletePendingById id =>
        simp only [stored_cons, Event.effect, Database.apply,
          Relational.Table.get_filter, Option.filter_eq_some_iff] at hget
        exact hget.1
    | deletePendingByPhone other =>
        simp only [stored_cons, Event.effect, Database.apply,
          Relational.Table.get_filter, Option.filter_eq_some_iff] at hget
        exact hget.1
    | purgePending at_ =>
        simp only [stored_cons, Event.effect, Database.apply,
          Relational.Table.get_filter, Option.filter_eq_some_iff] at hget
        exact hget.1
    | insertUser row =>
        simp only [stored_cons, Event.effect, Database.apply] at hget
        split at hget
        · exact hget
        · exact hget
    | _ => exact hget
  · have hnot : ∀ i now write, event ≠ .wrote i now write :=
      fun i now write heq => hwrote ⟨i, now, write, heq⟩
    have hframe := (hjustified.frame hnot (stored past)).2.2.2.2
    rw [stored_cons, hframe] at hget
    exact hget

theorem pending_of_registers {k at_ : ℕ} {row : PendingRegistrationRow}
    (hget : (stored (.wrote k at_ (.upsertPending row) :: past)
      ).pendingRegistrations.get row.phone = some pending) :
    pending.name = row.name ∧ pending.passwordHash = row.passwordHash := by
  simp only [stored_cons, Event.effect, Database.apply] at hget
  rw [Relational.Table.get_upsert_self, Option.some.injEq] at hget
  rw [← hget]
  cases (stored past).pendingRegistrations.get row.phone with
  | none => exact ⟨rfl, rfl⟩
  | some old => exact ⟨rfl, rfl⟩

theorem PendingSince.cons (h : PendingSince phone pending past history)
    (hevent : ¬ event.Registers phone) :
    PendingSince phone pending past (event :: history) := by
  cases h with
  | kept hnone hrow => exact .kept (hnone.cons hevent) hrow
  | overwritten k at_ row before hwrote hafter hphone hname hhash hlast =>
      exact .overwritten k at_ row before hwrote.cons hafter hphone hname hhash
        (hlast.cons hevent)

theorem LawfulHistory.pendingSince (hlawful : LawfulHistory app history)
    (hsuffix : past <:+ history)
    (hget : (stored history).pendingRegistrations.get phone = some pending) :
    PendingSince phone pending past history := by
  refine since (fun log => ∀ pending,
    (stored log).pendingRegistrations.get phone = some pending →
      PendingSince phone pending past log) hsuffix ?_ ?_ pending hget
  · exact fun pending hget => .kept noneRegistered_refl hget
  · intro event before hevent hafter ih pending hget
    by_cases hregisters : event.Registers phone
    · obtain ⟨k, at_, row, rfl, rfl⟩ := hregisters
      obtain ⟨hname, hhash⟩ := pending_of_registers hget
      exact .overwritten k at_ row before happened_self hafter rfl hname hhash
        noneRegistered_refl
    · have hold := (hlawful.justified hevent).pending_step hregisters hget
      exact (ih pending hold).cons hregisters

/-! ## Verified registrations -/

theorem CodeSent.older (h : CodeSent app i dto past history) :
    past <:+ history := by
  cases h with
  | console row transactionReqID k at_ haccepted hsent => exact hsent.older
  | akedly transactionReqID phone purpose k hverified hsent =>
      exact hsent.older

/-- A code that lets a registration go on was sent before. -/
theorem VerifiedBy.codeSent {fromBody : Option String}
    {result : CheckVerificationResult} (hlawful : LawfulHistory app history)
    (h : VerifiedBy app i dto.phone dto.otp .registration fromBody result
      history) : ∃ past, CodeSent app i dto past history := by
  obtain ⟨transactionReqID, -, hchecked⟩ := h
  cases hchecked with
  | console row hprovider haccepted =>
      obtain ⟨readAt, before, hread, hunused⟩ := haccepted.read
      have hissued := hlawful.issued_of_unused_read hread hunused
      obtain ⟨k, at_, past, hsent⟩ := (hissued.later hread.older).happened
      exact ⟨past, .console row transactionReqID k at_ haccepted hsent⟩
  | akedly transaction hprovider htransaction hverified =>
      obtain ⟨before, hhappened⟩ := exists_happened hverified
      obtain ⟨k, phone, purpose, hsent⟩ := hlawful.justified hhappened
      obtain ⟨past, hsent⟩ := exists_happened hsent
      exact ⟨past, .akedly transaction phone purpose k hverified
        (hhappened.trans hsent)⟩

/-- What a completed request has left behind, if it is a verified
registration. -/
def Request.RegistersFrom (app : Deployment) (i : ℕ) (response : Response)
    (w : World) : Request → Prop
  | .verifyRegistrationOtp dto => RegisteredFrom app i dto response w.history
  | _ => True

theorem Request.registersFrom_of_not {request : Request} {w : World}
    (hnot : ∀ dto, request ≠ .verifyRegistrationOtp dto) :
    request.RegistersFrom app i response w := by
  unfold Request.RegistersFrom
  split
  · next dto => exact absurd rfl (hnot dto)
  · trivial

theorem backend_registers (app : Deployment)
    (admits : Request → World → Prop) :
    (backend app).Sound (discipline app anyWrite) admits
      (fun request i response w => request.RegistersFrom app i response w)
      (fun _ _ _ _ => True) where
  handler_meets request _ _ _ := by
    by_cases hverify : ∃ dto, request = .verifyRegistrationOtp dto
    · obtain ⟨dto, rfl⟩ := hverify
      exact verifyRegistrationOtp_registers.mono (fun _ _ h => h.1)
        fun _ _ h => h
    · refine request.handler_meets.mono (fun _ _ _ => ?_) fun _ _ _ => trivial
      exact Request.registersFrom_of_not fun dto heq => hverify ⟨dto, heq⟩
  environment_rely event i w := World.surroundings_rely event i w
  environment_invariant event _ htraced := htraced.surroundings event

theorem Reachable.registeredFrom (hreach : Reachable app pool)
    (hdone : pool.threads[i]? =
      some ⟨.verifyRegistrationOtp dto, .done response⟩) :
    RegisteredFrom app i dto response pool.state.history := by
  obtain ⟨now, hreach⟩ := hreach
  have hcourse := hreach.sound (backend_registers app fun _ _ => True)
    (System.onCourse_of_empty rfl (World.traced_initial app now))
  exact hcourse.outcome hdone

/-- The account of a verified registration has the credentials that were
pending when the verified code was sent, unless a register request of the phone
wrote the row between then and the read; then it has those of the last one. -/
theorem registration_credentials (hreach : Reachable app pool)
    (hdone : pool.threads[i]? =
      some ⟨.verifyRegistrationOtp dto, .done response⟩) :
    ∃ pending readPast,
      Happened (.pendingRead i pending) readPast pool.state.history ∧
      AccountFrom i pending response pool.state.history ∧
      (∃ past, CodeSent app i dto past readPast) ∧
      ∀ past, CodeSent app i dto past readPast →
        PendingSince dto.phone pending past readPast := by
  obtain ⟨result, pending, user, tokens, readPast, hverified, hread, hphone,
    hname, huser, hhash, hresponse, ⟨at_, hwrote⟩, -⟩ :=
    (hreach.registeredFrom hdone).outcome
  have hlawful := hreach.traced.lawful
  have hpast := hlawful.before hread.older
  have hget : (stored readPast).pendingRegistrations.get pending.phone =
      some pending := hlawful.justified hread
  refine ⟨pending, readPast, hread, ?_, hverified.codeSent hpast, ?_⟩
  · exact ⟨at_, user, tokens, hwrote, huser.trans hphone.symm, hname, hhash,
      hresponse⟩
  · intro past hsent
    rw [hphone] at hget
    exact hpast.pendingSince hsent.older hget

/-- The code that Akedly sends for the first registration of the phone. -/
def sentCode : VerifyRegistrationOtpDto :=
  ⟨"+201", "111111", some "transaction"⟩

def registersFirst : List (Move Request Draw Surroundings) :=
  alone 0 (Request.requestRegistrationOtp ⟨"Amina", "+201", "secret"⟩) 3 ++
    alone 1 (Request.sendAkedlyOtp ⟨"+201", .registration, ⟨"", ""⟩⟩) 2

def verifiesFirst : List (Move Request Draw Surroundings) :=
  registersFirst ++ alone 2 (Request.verifyRegistrationOtp sentCode) 9

theorem registration_credentials_first :
    ∃ pool response pending readPast, Reachable (sampleDeployment .akedly) pool ∧
      AccountFrom 2 pending response pool.state.history ∧
      ∃ past, CodeSent (sampleDeployment .akedly) 2 sentCode past readPast ∧
        PendingSince "+201" pending past readPast := by
  obtain ⟨pool, hreach, hcheck⟩ := exists_reachable_of_run
    (show ((backend (sampleDeployment .akedly)).run verifiesFirst
      (Pool.start 0)).any (fun pool =>
        pool.answers 2 (.verifyRegistrationOtp sentCode)) = true by
      decide +kernel)
  obtain ⟨response, hdone⟩ := Pool.done_of_answers hcheck
  obtain ⟨pending, readPast, -, haccount, ⟨past, hsent⟩, hsince⟩ :=
    registration_credentials hreach hdone
  exact ⟨pool, response, pending, readPast, hreach, haccount, past, hsent,
    hsince past hsent⟩

/-! ## A registration that overwrites another -/

/-- Mallory registers with the phone after the code was sent to it. -/
def overwritesFirst : List (Move Request Draw Surroundings) :=
  registersFirst ++
    alone 2 (Request.requestRegistrationOtp ⟨"Mallory", "+201", "own"⟩) 3 ++
    alone 3 (Request.verifyRegistrationOtp sentCode) 9

/-- Amina's registration was pending when the code was sent that request 3
verified, and request 3 inserts no account of that name. -/
def overwrittenHistory (history : List Event) : Bool :=
  (match history.drop 11 with
    | .akedlySent _ _ _ transactionReqID :: before =>
        decide (.akedlyVerified 3 transactionReqID "111111" ∈ history) &&
          ((stored before).pendingRegistrations.get "+201").all fun pending =>
            pending.name = "Amina"
    | _ => false) &&
  history.all fun event =>
    match event with
    | .wrote 3 _ (.insertUser user) => user.name ≠ "Amina"
    | _ => true

theorem not_credentials_of_overwrittenHistory
    (hhistory : overwrittenHistory history = true) :
    ¬ CredentialsOfSentCode app 3 sentCode response history := by
  intro hcredentials
  rw [overwrittenHistory, Bool.and_eq_true, List.all_eq_true] at hhistory
  obtain ⟨hsent, hinserted⟩ := hhistory
  split at hsent
  · next k phone purpose transactionReqID before hdrop =>
      rw [Bool.and_eq_true, decide_eq_true_eq] at hsent
      obtain ⟨hverified, hpending⟩ := hsent
      obtain ⟨pending, hget, at_, user, tokens, hwrote, -, hname, -⟩ :=
        hcredentials before (.akedly transactionReqID phone purpose k hverified
          (happened_of_drop hdrop))
      change (stored before).pendingRegistrations.get "+201" = _ at hget
      have hother := hinserted _ hwrote
      rw [hget] at hpending
      simp only [Option.all_some, decide_eq_true_eq] at hpending hother
      exact hother (hname.trans hpending)
  · contradiction

theorem not_always_credentials_of_sentCode :
    ¬ ∀ (app : Deployment) (pool : Pool Request Draw World HttpError Response)
        (i : ℕ) (dto : VerifyRegistrationOtpDto) (response : Response),
      Reachable app pool →
      pool.threads[i]? = some ⟨.verifyRegistrationOtp dto, .done response⟩ →
      CredentialsOfSentCode app i dto response pool.state.history := by
  intro hclaim
  obtain ⟨pool, hreach, hcheck⟩ := exists_reachable_of_run
    (show ((backend (sampleDeployment .akedly)).run overwritesFirst
      (Pool.start 0)).any (fun pool =>
        pool.answers 3 (.verifyRegistrationOtp sentCode) &&
        overwrittenHistory pool.state.history) = true by decide +kernel)
  rw [Bool.and_eq_true] at hcheck
  obtain ⟨response, hdone⟩ := Pool.done_of_answers hcheck.1
  exact not_credentials_of_overwrittenHistory hcheck.2
    (hclaim _ pool 3 sentCode response hreach hdone)

end MarketPlace
