import MarketPlace.GivenRuns
import MarketPlace.HandlersAlone
import Mathlib.Data.Fintype.EquivFin
import Mathlib.Data.Finset.Image

/-!
# What asking for a password reset discloses

Two runs of the same request, one where the phone belongs to a live account
and one where it does not, end with different bodies, whichever provider is
configured: the message for an unknown phone is none of the messages for a
known one.
-/

namespace MarketPlace

open Interleaving

variable {app : Deployment} {phone : String} {w w' v v' : World}
  {i i' : ℕ} {d d' : Draw} {response response' : Response}

/-- The fields of a body that has a message. -/
def Response.messageBody : Response → List (String × String)
  | .message text => [("message", text)]
  | .otpSent otp =>
      ("message", "OTP sent") :: (otp.map fun otp => ("otp", otp)).toList
  | _ => []

/-- The same world but for the phone's account, which is live in the first. -/
structure DifferInAccount (phone : String) (w w' : World) : Prop where
  live : (w.db.liveUserByPhone phone).isSome = true
  absent : w'.db.liveUserByPhone phone = none
  others : ∀ row : UserRow, row.phone ≠ phone →
    (row ∈ w.db.users.rows ↔ row ∈ w'.db.users.rows)
  otherwise : ∃ users, w' = { w with
    store := { w.store with committed := { w.db with users := users } } }

/-- The program can return in both worlds, and wherever it does the bodies
differ. -/
def Discloses (program : Handler Response) (w w' : World) : Prop :=
  (∃ i d response v response' v', program.Returns i d w response v ∧
    program.Returns i d w' response' v') ∧
  ∀ i d response v i' d' response' v',
    program.Returns i d w response v → program.Returns i' d' w' response' v' →
      response.messageBody ≠ response'.messageBody

/-! ## The bodies -/

def unknownPhone : Response :=
  .message "If this number is registered, an OTP has been sent"

theorem messageBody_otpSent_ne (result : StartVerificationResult) :
    (buildOtpSentResponse result).messageBody ≠ unknownPhone.messageBody := by
  simp [buildOtpSentResponse, unknownPhone, Response.messageBody]

theorem requestPasswordResetOtp_of_absent
    (habsent : w.db.liveUserByPhone phone = none)
    (hreturns : (requestPasswordResetOtp app phone).Returns i d w response v) :
    response = unknownPhone := by
  obtain ⟨found, t, hselect, hrest⟩ := Program.returns_bind.mp hreturns
  obtain ⟨rfl, rfl⟩ :=
    (returns_select (databaseAnswers_of_returns hselect)).mp hselect
  rw [habsent] at hrest
  exact (Program.returns_done.mp hrest).1.symm

theorem requestPasswordResetOtp_of_live
    (hlive : (w.db.liveUserByPhone phone).isSome = true)
    (hreturns : (requestPasswordResetOtp app phone).Returns i d w response v) :
    response.messageBody ≠ unknownPhone.messageBody := by
  obtain ⟨row, hrow⟩ := Option.isSome_iff_exists.mp hlive
  obtain ⟨found, t, hselect, hrest⟩ := Program.returns_bind.mp hreturns
  obtain ⟨rfl, rfl⟩ :=
    (returns_select (databaseAnswers_of_returns hselect)).mp hselect
  rw [hrow] at hrest
  dsimp only [Option.map_some] at hrest
  split at hrest
  · obtain ⟨rfl, -⟩ := Program.returns_done.mp hrest
    simp [unknownPhone, Response.messageBody]
  · obtain ⟨result, u, -, hrest⟩ := Program.returns_bind.mp hrest
    obtain ⟨rfl, -⟩ := Program.returns_done.mp hrest
    exact messageBody_otpSent_ne result

section Akedly

variable {dto : AkedlySendOtpDto}

theorem sendAkedlyOtp_of_absent (hpurpose : dto.purpose = .passwordReset)
    (habsent : w.db.liveUserByPhone dto.phoneNumber = none)
    (hreturns : (sendAkedlyOtp app dto).Returns i d w response v) :
    response = unknownPhone := by
  unfold sendAkedlyOtp at hreturns
  split at hreturns
  · exact absurd hreturns Program.not_returns_failed
  rw [hpurpose] at hreturns
  obtain ⟨found, t, hselect, hrest⟩ := Program.returns_bind.mp hreturns
  obtain ⟨rfl, rfl⟩ :=
    (returns_select (databaseAnswers_of_returns hselect)).mp hselect
  rw [habsent] at hrest
  exact (Program.returns_done.mp hrest).1.symm

theorem sendAkedlyOtp_of_live (hpurpose : dto.purpose = .passwordReset)
    (hlive : (w.db.liveUserByPhone dto.phoneNumber).isSome = true)
    (hreturns : (sendAkedlyOtp app dto).Returns i d w response v) :
    response.messageBody ≠ unknownPhone.messageBody := by
  unfold sendAkedlyOtp at hreturns
  split at hreturns
  · exact absurd hreturns Program.not_returns_failed
  rw [hpurpose] at hreturns
  obtain ⟨found, t, hselect, hrest⟩ := Program.returns_bind.mp hreturns
  obtain ⟨rfl, rfl⟩ :=
    (returns_select (databaseAnswers_of_returns hselect)).mp hselect
  rw [hlive] at hrest
  obtain ⟨result, u, -, hrest⟩ := Program.returns_bind.mp hrest
  obtain ⟨-, u', -, hrest⟩ := Program.returns_bind.mp hrest
  obtain ⟨rfl, -⟩ := Program.returns_done.mp hrest
  exact messageBody_otpSent_ne result

end Akedly

/-! ## Both runs can return -/

theorem exists_returns_consoleStart (app : Deployment) (w : World) (i : ℕ)
    (hd : d.databaseFails = false) (payload : StartVerificationPayload) :
    ∃ result t, (consoleStartVerification app payload).Returns i d w result
      t := by
  refine ⟨_, _, Program.returns_bind.mpr ⟨_, w, returns_draw.mpr ⟨rfl, rfl⟩,
    Program.returns_bind.mpr ⟨_, w, returns_draw.mpr ⟨rfl, rfl⟩,
      Program.returns_bind.mpr ⟨(), _, (returns_execute hd).mpr ⟨rfl, rfl, rfl⟩,
        Program.returns_done.mpr ⟨rfl, rfl⟩⟩⟩⟩⟩

theorem exists_returns_requestPasswordResetOtp (app : Deployment)
    (phone : String) (w : World) (i : ℕ) (hd : d.databaseFails = false) :
    ∃ response t, (requestPasswordResetOtp app phone).Returns i d w response
      t := by
  have hselect : (select none fun db =>
      (db.liveUserByPhone phone).map UserRow.id).Returns i d w
        ((w.db.liveUserByPhone phone).map UserRow.id) w :=
    (returns_select hd).mpr ⟨rfl, rfl⟩
  cases hrow : w.db.liveUserByPhone phone with
  | none =>
      refine ⟨unknownPhone, w, Program.returns_bind.mpr ⟨_, w, hselect, ?_⟩⟩
      rw [hrow]
      exact Program.returns_done.mpr ⟨rfl, rfl⟩
  | some row =>
      by_cases hprovider : app.config.otpProvider = .akedly
      · refine ⟨.message
          "If this number is registered, complete Shield flow then call /auth/akedly/send",
          w, Program.returns_bind.mpr ⟨_, w, hselect, ?_⟩⟩
        rw [hrow]
        simp [hprovider]
      · obtain ⟨result, t, hstart⟩ := exists_returns_consoleStart app w i hd
          ⟨phone, .passwordReset, some row.id, none⟩
        refine ⟨buildOtpSentResponse result, t,
          Program.returns_bind.mpr ⟨_, w, hselect, ?_⟩⟩
        rw [hrow]
        simp only [Option.map_some, hprovider, if_false]
        refine Program.returns_bind.mpr ⟨result, t, ?_,
          Program.returns_done.mpr ⟨rfl, rfl⟩⟩
        unfold startVerification
        split
        · next hakedly => exact absurd hakedly hprovider
        · exact hstart

theorem request_discloses (h : DifferInAccount phone w w') :
    Discloses (requestPasswordResetOtp app phone) w w' := by
  have hd : sampleDraw.databaseFails = false := rfl
  constructor
  · obtain ⟨response, v, hreturns⟩ :=
      exists_returns_requestPasswordResetOtp app phone w 0 hd
    obtain ⟨response', v', hreturns'⟩ :=
      exists_returns_requestPasswordResetOtp app phone w' 0 hd
    exact ⟨0, sampleDraw, response, v, response', v', hreturns, hreturns'⟩
  · intro i d response v i' d' response' v' hreturns hreturns'
    rw [requestPasswordResetOtp_of_absent h.absent hreturns']
    exact requestPasswordResetOtp_of_live h.live hreturns

/-- Akedly can give out an id that it has not given out yet. -/
theorem exists_fresh_transaction (w : World) :
    ∃ transactionReqID : String, transactionReqID ≠ "" ∧
      ∀ other ∈ w.akedly, other.transactionReqID ≠ transactionReqID := by
  obtain ⟨id, hid⟩ := Infinite.exists_notMem_finset
    (insert "" (w.akedly.map AkedlyTransaction.transactionReqID).toFinset)
  simp only [Finset.mem_insert, List.mem_toFinset, List.mem_map, not_or,
    not_exists, not_and] at hid
  exact ⟨id, hid.1, hid.2⟩

theorem returns_akedlySend (payload : StartVerificationPayload)
    (hanswers : d.akedly = .answers) (hid : d.transactionReqID ≠ "")
    (hfresh : ∀ other ∈ w.akedly,
      other.transactionReqID ≠ d.transactionReqID) :
    ∃ t, (akedlySend payload).Returns i d w ⟨none, some d.transactionReqID⟩
      t := by
  have hnew : (w.akedly.any fun other =>
      other.transactionReqID = d.transactionReqID) = false := by
    simpa using hfresh
  simp only [akedlySend, returns_attempt, hanswers, hid, hnew, if_false,
    Bool.false_eq_true]
  exact ⟨_, rfl⟩

theorem exists_returns_rememberTransaction (app : Deployment) (i : ℕ)
    (d : Draw) (w : World) (dto : AkedlySendOtpDto)
    (result : StartVerificationResult) :
    ∃ t, (rememberTransaction app dto result).Returns i d w () t := by
  unfold rememberTransaction
  split
  · exact ⟨w, Program.returns_done.mpr ⟨rfl, rfl⟩⟩
  next transactionReqID _ =>
  split
  · exact ⟨w, Program.returns_done.mpr ⟨rfl, rfl⟩⟩
  · obtain ⟨t, -, hredis⟩ := exists_returns_tryRedis app i d
      (fun w => ((), w.redisSet (otpTransactionKey dto.phoneNumber dto.purpose)
        transactionReqID (app.config.otpTtlMinutes * 60)))
      (show SameButRedis w _ from ⟨rfl, rfl, rfl, rfl⟩)
    exact ⟨t, (hredis () t).mpr rfl⟩

theorem exists_returns_sendAkedlyOtp {dto : AkedlySendOtpDto}
    (hprovider : app.config.otpProvider = .akedly)
    (hpurpose : dto.purpose = .passwordReset) (w : World)
    (hd : d.databaseFails = false)
    (hanswers : d.akedly = .answers) (hid : d.transactionReqID ≠ "")
    (hfresh : ∀ other ∈ w.akedly,
      other.transactionReqID ≠ d.transactionReqID) :
    ∃ response t, (sendAkedlyOtp app dto).Returns i d w response t := by
  have hselect : (select none fun db =>
      (db.liveUserByPhone dto.phoneNumber).isSome).Returns i d w
        (w.db.liveUserByPhone dto.phoneNumber).isSome w :=
    (returns_select hd).mpr ⟨rfl, rfl⟩
  unfold sendAkedlyOtp
  simp only [hprovider, ne_eq, not_true_eq_false, if_false, hpurpose]
  cases hlive : (w.db.liveUserByPhone dto.phoneNumber).isSome with
  | false =>
      refine ⟨unknownPhone, w, Program.returns_bind.mpr ⟨_, w, hselect, ?_⟩⟩
      rw [hlive]
      exact Program.returns_done.mpr ⟨rfl, rfl⟩
  | true =>
      let payload : StartVerificationPayload :=
        ⟨dto.phoneNumber, dto.purpose, none, some dto.powSolution⟩
      let result : StartVerificationResult := ⟨none, some d.transactionReqID⟩
      obtain ⟨t, hsend⟩ := returns_akedlySend (i := i) payload hanswers hid
        hfresh
      have hstart : (startVerification app payload).Returns i d w result t := by
        unfold startVerification
        rw [hprovider]
        exact hsend
      obtain ⟨t', hremember⟩ :=
        exists_returns_rememberTransaction app i d t dto result
      refine ⟨buildOtpSentResponse result, t',
        Program.returns_bind.mpr ⟨_, w, hselect, ?_⟩⟩
      rw [hlive]
      exact Program.returns_bind.mpr ⟨result, t, hstart,
        Program.returns_bind.mpr ⟨(), t', hremember,
          Program.returns_done.mpr ⟨rfl, rfl⟩⟩⟩

theorem send_discloses {dto : AkedlySendOtpDto}
    (hprovider : app.config.otpProvider = .akedly)
    (hpurpose : dto.purpose = .passwordReset)
    (h : DifferInAccount dto.phoneNumber w w') :
    Discloses (sendAkedlyOtp app dto) w w' := by
  constructor
  · obtain ⟨users, hother⟩ := h.otherwise
    obtain ⟨id, hid, hfresh⟩ := exists_fresh_transaction w
    let d : Draw := { sampleDraw with transactionReqID := id }
    have hfresh' : ∀ other ∈ w'.akedly, other.transactionReqID ≠ id := by
      rw [hother]
      exact hfresh
    obtain ⟨response, v, hreturns⟩ := exists_returns_sendAkedlyOtp (i := 0)
      (d := d) hprovider hpurpose w rfl rfl hid hfresh
    obtain ⟨response', v', hreturns'⟩ := exists_returns_sendAkedlyOtp (i := 0)
      (d := d) hprovider hpurpose w' rfl rfl hid hfresh'
    exact ⟨0, d, response, v, response', v', hreturns, hreturns'⟩
  · intro i d response v i' d' response' v' hreturns hreturns'
    rw [sendAkedlyOtp_of_absent hpurpose h.absent hreturns']
    exact sendAkedlyOtp_of_live hpurpose h.live hreturns

/-- Both requests disclose whether the phone has an account, with every
provider that answers them. -/
theorem reset_discloses_account (app : Deployment)
    (h : DifferInAccount phone w w') :
    Discloses (requestPasswordResetOtp app phone) w w' ∧
    ∀ dto : AkedlySendOtpDto, app.config.otpProvider = .akedly →
      dto.phoneNumber = phone → dto.purpose = .passwordReset →
        Discloses (sendAkedlyOtp app dto) w w' := by
  refine ⟨request_discloses h, fun dto hprovider hphone hpurpose => ?_⟩
  exact send_discloses hprovider hpurpose (hphone.symm ▸ h)

/-! ## A world with an account and one without -/

def emptyWorld : World := .initial 0

/-- The empty world in which Amina has registered. -/
def aminaWorld : World :=
  { emptyWorld with
    store := .fresh (Database.empty.apply (.insertUser
      ⟨1, "Amina", "+201", "hash", .active, false, 0, none, 0, 0⟩)) }

theorem differInAccount_amina :
    DifferInAccount "+201" aminaWorld emptyWorld where
  live := by decide
  absent := by decide
  others row hphone := by
    constructor
    · intro hrow
      rw [List.mem_singleton.mp hrow] at hphone
      exact absurd rfl hphone
    · exact fun hrow => absurd hrow List.not_mem_nil
  otherwise := ⟨.empty, rfl⟩

theorem reset_discloses_amina :
    Discloses (requestPasswordResetOtp (sampleDeployment .akedly) "+201")
        aminaWorld emptyWorld ∧
      Discloses (sendAkedlyOtp (sampleDeployment .akedly)
        ⟨"+201", .passwordReset, ⟨"token", "nonce"⟩⟩) aminaWorld emptyWorld := by
  have hdiscloses := reset_discloses_account (sampleDeployment .akedly)
    differInAccount_amina
  exact ⟨hdiscloses.1, hdiscloses.2 _ rfl rfl rfl⟩

/-- With the console provider Amina's phone is answered "OTP sent", and
without her account it is not. -/
theorem not_always_hidden :
    ¬ ∀ (app : Deployment) (phone : String) (w w' : World),
      app.config.otpDevMode = false → DifferInAccount phone w w' →
        ∀ i d response v response' v',
          (requestPasswordResetOtp app phone).Returns i d w response v →
          (requestPasswordResetOtp app phone).Returns i d w' response' v' →
            response.messageBody = response'.messageBody := by
  intro halways
  have hsame := halways (sampleDeployment .console) "+201" aminaWorld emptyWorld
    rfl differInAccount_amina 0 sampleDraw (.otpSent none) _ unknownPhone
    emptyWorld rfl rfl
  revert hsame
  decide

end MarketPlace
