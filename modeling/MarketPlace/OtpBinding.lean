import MarketPlace.GivenRuns
import MarketPlace.OtpHistories

/-!
# What a checked code is bound to

A code that lets a request go on should belong to a verification started here
for the same phone and purpose.  The console provider looks its row up by both.
The Akedly provider takes the transaction id from the body when there is one,
and nothing compares it with those that were sent for the pair: the binding
holds for exactly the bodies that name no foreign transaction.
-/

namespace MarketPlace

open EventLog Interleaving

variable {app : Deployment} {history past : List Event} {i : ℕ}
  {pool : Pool Request Draw World HttpError Response}

/-- The code that request `i` checked belongs to a verification that was
started before for its own phone and purpose. -/
inductive StartedHere (app : Deployment) (i : ℕ) (check : OtpCheck)
    (history : List Event) : Prop where
  | console (row issue : OtpRow) (readAt : ℕ) (past : List Event)
      (hprovider : app.config.otpProvider = .console)
      (hread : Happened (.otpRead i readAt row) past history)
      (hissued : OtpIssued issue past) (hsame : row.SameIssue issue)
      (hphone : issue.phone = check.phone)
      (hpurpose : issue.purpose = check.purpose)
      (hcode : hashOtp app check.otp issue.salt = issue.codeHash)
  | akedly (transactionReqID : String) (past : List Event)
      (hprovider : app.config.otpProvider = .akedly)
      (hresolved : ResolvedTransaction check.transactionReqID
        (some transactionReqID) check.phone check.purpose history)
      (hverified : Happened (.akedlyVerified i transactionReqID check.otp)
        past history)
      (hsent : ∃ j,
        .akedlySent j check.phone check.purpose transactionReqID ∈ past)

/-- A transaction id in the body is one that was sent for the pair. -/
def OtpCheck.NamesOwnTransaction (app : Deployment) (check : OtpCheck)
    (history : List Event) : Prop :=
  app.config.otpProvider = .akedly →
    ∀ transactionReqID, check.transactionReqID = some transactionReqID →
      ∃ j, .akedlySent j check.phone check.purpose transactionReqID ∈ history

/-- A transaction is sent once, so a verification comes after all of its
sendings. -/
theorem LawfulHistory.sent_before {j : ℕ} {phone code transactionReqID : String}
    {purpose : OtpPurpose} (hlawful : LawfulHistory app history)
    (hverified : Happened (.akedlyVerified i transactionReqID code) past history)
    (hsent : .akedlySent j phone purpose transactionReqID ∈ history) :
    .akedlySent j phone purpose transactionReqID ∈ past := by
  obtain ⟨before, hhappened⟩ := exists_happened hsent
  obtain ⟨k, phone', purpose', hfirst⟩ := hlawful.justified hverified
  rcases hverified.compare hhappened with hlt | hlt | ⟨heq, -⟩
  · exact hlt.mem
  · have honce := hlawful.justified hhappened k phone' purpose'
    exact absurd (hlt.older.subset hfirst) honce
  · contradiction

theorem AcceptedOtp.startedHere {check : OtpCheck} {transactionReqID : Option String}
    {row : OtpRow} (hlawful : LawfulHistory app history)
    (hprovider : app.config.otpProvider = .console)
    (haccepted : AcceptedOtp app i
      ⟨check.phone, check.otp, check.purpose, transactionReqID⟩ row history) :
    StartedHere app i check history := by
  obtain ⟨t, husable⟩ := haccepted.usable
  obtain ⟨readAt, past, hread, -, -⟩ := husable.readable
  obtain ⟨issue, hissued, hsame⟩ :=
    (hlawful.before hread.older).stored_issued (hlawful.newest hread).1
  have hphone := haccepted.phone
  have hpurpose := haccepted.purpose
  have hcode := haccepted.code
  rw [hsame] at hphone hpurpose hcode
  exact .console row issue readAt past hprovider hread hissued hsame hphone
    hpurpose hcode

/-- A request that passed its check is bound to its phone and purpose exactly
when its body names no foreign transaction. -/
theorem startedHere_iff (hreach : Reachable app pool)
    {request : Request} {check : OtpCheck} {response : Response}
    (hcheck : request.otpCheck = some check)
    (hdone : pool.threads[i]? = some ⟨request, .done response⟩) :
    StartedHere app i check pool.state.history ↔
      check.NamesOwnTransaction app pool.state.history := by
  have hlawful := hreach.traced.lawful
  constructor
  · intro hstarted hakedly named hbody
    cases hstarted with
    | console row issue readAt past hprovider =>
        rw [hakedly] at hprovider
        contradiction
    | akedly transactionReqID past hprovider hresolved hverified hsent =>
        have heq := hresolved.body named hbody
        rw [Option.some.injEq] at heq
        obtain ⟨j, hsent⟩ := hsent
        exact ⟨j, heq ▸ hverified.older.subset hsent⟩
  · intro hnames
    obtain ⟨result, transactionReqID, hresolved, hchecked⟩ :=
      hreach.verified hcheck hdone
    cases hchecked with
    | console row hprovider haccepted =>
        exact haccepted.startedHere hlawful hprovider
    | akedly transaction hprovider htransaction hverified =>
        change transactionReqID = some transaction at htransaction
        subst htransaction
        obtain ⟨past, hverified⟩ := exists_happened hverified
        have hsent : ∃ j, .akedlySent j check.phone check.purpose
            transaction ∈ pool.state.history := by
          cases hbody : check.transactionReqID with
          | none => exact hresolved.stored hbody transaction rfl
          | some named =>
              have heq := hresolved.body named hbody
              rw [Option.some.injEq] at heq
              exact hnames hprovider transaction (heq ▸ hbody)
        obtain ⟨j, hsent⟩ := hsent
        exact .akedly transaction past hprovider hresolved hverified
          ⟨j, hlawful.sent_before hverified hsent⟩

def ownReset : ResetPasswordDto :=
  ⟨"+201", "100000", none, "renewed", "renewed"⟩

def ownResetMoves : List (Move Request Draw Surroundings) :=
  alone 0 (Request.seedAdmin "+201" "old") 6 ++
    alone 1 (Request.requestPasswordResetOtp "+201") 4 ++
    alone 2 (Request.resetPassword ownReset) 12

theorem startedHere_ownReset :
    ∃ pool, Reachable (sampleDeployment .console) pool ∧
      StartedHere (sampleDeployment .console) 2
        ⟨"+201", "100000", .passwordReset, none⟩ pool.state.history := by
  obtain ⟨pool, hreach, hcheck⟩ := exists_reachable_of_run
    (show ((backend (sampleDeployment .console)).run ownResetMoves
      (Pool.start 0)).any (fun pool =>
        pool.answers 2 (.resetPassword ownReset)) = true by decide +kernel)
  obtain ⟨response, hdone⟩ := Pool.done_of_answers hcheck
  exact ⟨pool, hreach, (startedHere_iff hreach rfl hdone).mpr
    fun hakedly => by contradiction⟩

/-! ## A foreign transaction -/

/-- The reset of somebody else's password with a transaction of one's own
registration. -/
def foreignReset : ResetPasswordDto :=
  ⟨"+201", "111111", some "transaction", "chosen", "chosen"⟩

/-- "+201" has an account; the owner of "+202" registers, has a code sent to
"+202", and resets the password of "+201" with it. -/
def foreignResetMoves : List (Move Request Draw Surroundings) :=
  alone 0 (Request.seedAdmin "+201" "victim") 6 ++
    alone 1 (Request.requestRegistrationOtp ⟨"Mallory", "+202", "own"⟩) 3 ++
    alone 2 (Request.sendAkedlyOtp ⟨"+202", .registration, ⟨"", ""⟩⟩) 2 ++
    alone 3 (Request.resetPassword foreignReset) 9

/-- Nothing was ever sent to the phone. -/
def nothingSentTo (phone : String) (history : List Event) : Bool :=
  history.all fun event =>
    match event with
    | .akedlySent _ other _ _ => other ≠ phone
    | _ => true

theorem not_sent_of_nothingSentTo {phone transactionReqID : String}
    {purpose : OtpPurpose} (hnothing : nothingSentTo phone history = true) :
    .akedlySent i phone purpose transactionReqID ∉ history := by
  intro hsent
  have hother := List.all_eq_true.mp hnothing _ hsent
  simp at hother

theorem foreignReset_succeeds :
    ∃ pool, Reachable (sampleDeployment .akedly) pool ∧
      (∃ response, pool.threads[3]? =
        some ⟨.resetPassword foreignReset, .done response⟩) ∧
      nothingSentTo "+201" pool.state.history = true := by
  obtain ⟨pool, hreach, hcheck⟩ := exists_reachable_of_run
    (show ((backend (sampleDeployment .akedly)).run foreignResetMoves
      (Pool.start 0)).any (fun pool =>
        pool.answers 3 (.resetPassword foreignReset) &&
        nothingSentTo "+201" pool.state.history) = true by decide +kernel)
  rw [Bool.and_eq_true] at hcheck
  exact ⟨pool, hreach, Pool.done_of_answers hcheck.1, hcheck.2⟩

theorem not_always_startedHere :
    ¬ ∀ (app : Deployment) (pool : Pool Request Draw World HttpError Response)
        (i : ℕ) (request : Request) (check : OtpCheck) (response : Response),
      Reachable app pool → request.otpCheck = some check →
      pool.threads[i]? = some ⟨request, .done response⟩ →
      StartedHere app i check pool.state.history := by
  intro hbound
  obtain ⟨pool, hreach, ⟨response, hdone⟩, hnothing⟩ := foreignReset_succeeds
  cases hbound _ pool 3 _ _ response hreach rfl hdone with
  | console row issue readAt past hprovider => contradiction
  | akedly transactionReqID past hprovider hresolved hverified hsent =>
      obtain ⟨j, hsent⟩ := hsent
      exact not_sent_of_nothingSentTo hnothing
        (hverified.older.subset hsent)

end MarketPlace
