import MarketPlace.StatementRules

/-!
# Outlines of the verification providers

What a started, an accepted and a locked verification leave in the history,
proved along the code of the two providers.
-/

namespace MarketPlace

open EventLog Interleaving

variable {app : Deployment} {permitted : Write → Prop} {i : ℕ} {w : World}
variable {fail : HttpError → World → Prop}

/-! ## Attempt counters -/

/-- The writes that the provider's calls make. -/
def Write.byProvider : Write → Bool
  | .insertOtp _ | .countAttempt _ _ _ _ | .clearAttempts _ _ => true
  | _ => false

theorem clearOtpAttempts_meets
    {phone : String} {purpose : OtpPurpose} {post : Unit → World → Prop}
    (hpermitted : ∀ write, write.byProvider = true → permitted write)
    (hfail : ∀ t, fail databaseError t)
    (hpost : ∀ past now t, Later app i w t →
      Happened (.wrote i now (.clearAttempts phone purpose)) past t.history →
      w.history <:+ past → post () t) :
    (clearOtpAttempts app phone purpose).Meets (discipline app permitted) i
      post fail w := by
  refine Program.Meets.bind (tryRedisDel_meets fun u hu => ?_)
  exact perform_meets (fun _ => hpermitted _ rfl) (fun _ => rfl)
    (fun _ _ => trivial) hfail fun past now t ht hcleared hpast =>
      hpost past now t (Later.trans hu.toRely ht) hcleared
        (hu.history.trans hpast)

/-- Request `i` counted a wrong code for the pair, the count had reached the
maximum, and the counter was cleared before the lock was reported; `past` is
what had happened until then. -/
structure LockReport (i : ℕ) (phone : String) (purpose : OtpPurpose)
    (past history : List Event) : Prop where
  cleared : ∃ now,
    Happened (.wrote i now (.clearAttempts phone purpose)) past history
  counted : ∃ attempts,
    .attemptCounted i phone purpose attempts ∈ past ∧
      otpMaxAttempts ≤ attempts

theorem LockReport.later {phone : String} {purpose : OtpPurpose}
    {past history history' : List Event}
    (h : LockReport i phone purpose past history)
    (hsuffix : history <:+ history') :
    LockReport i phone purpose past history' :=
  ⟨h.cleared.imp fun _ hcleared => hcleared.later hsuffix, h.counted⟩

theorem incrementOtpAttempts_meets
    {phone : String} {purpose : OtpPurpose}
    {post : IncrementOtpResult → World → Prop}
    (hpermitted : ∀ write, write.byProvider = true → permitted write)
    (husable : ∃ row t, row.phone = phone ∧ row.purpose = purpose ∧
      UsableOtpRead i row t w.history)
    (hfail : ∀ t, fail databaseError t)
    (hpost : ∀ result t, Later app i w t →
      (result.locked = true →
        ∃ past, LockReport i phone purpose past t.history) →
      post result t) :
    (incrementOtpAttempts app phone purpose otpMaxAttempts
      otpAttemptsTtlSeconds).Meets (discipline app permitted) i post fail
      w := by
  have hbump : (tryRedisSet app (do
      let raw ← redisGet app (otpAttemptsKey phone purpose)
      redisSet app (otpAttemptsKey phone purpose) (nextAttemptsText raw)
        otpAttemptsTtlSeconds)).Meets (discipline app permitted) i
      (fun _ t => Later app i w t) fail w := by
    refine tryRedisSet_meets (Program.Meets.bind (redisGet_meets
      (fun _ h => h) fun raw u hu _ => ?_)) fun _ h => h
    exact redisSet_meets (fun _ _ hkey => absurd hkey otpAttemptsKey_ne)
      (fun _ h => Later.trans hu.toRely h) fun _ h => Later.trans hu.toRely h
  refine Program.Meets.bind (hbump.mono (fun _ u hu => ?_) fun _ _ h => h)
  obtain ⟨row, t, hphone, hpurpose, readAt, past, hread, hrest⟩ := husable
  refine Program.Meets.bind (countAttempt_meets (fun _ => hpermitted _ rfl)
    ⟨row, t, hphone, hpurpose, readAt, past, hread.later hu.history, hrest⟩
    hfail fun attempts counted v hv hcounted hpast => ?_)
  split
  · next hmax =>
      refine Program.Meets.bind (clearOtpAttempts_meets hpermitted hfail
        fun past now x hx hcleared hbefore =>
          Program.Meets.done fun y hy htraced => ?_)
      refine hpost _ y
        (Later.trans (hu.toRely.trans (hv.toRely.trans hx.toRely))
          ⟨hy, htraced⟩) fun _ => ⟨past, ?_⟩
      exact ⟨⟨now, hcleared.later hy.history⟩,
        attempts, hbefore.subset hcounted.mem, hmax⟩
  · refine Program.Meets.done fun y hy htraced => ?_
    exact hpost _ y (Later.trans (hu.toRely.trans hv.toRely) ⟨hy, htraced⟩)
      nofun

/-! ## The console provider -/

/-- Request `i` read this row as the newest of its pair, unused and not
expired, and the code it was given matches. -/
structure AcceptedOtp (app : Deployment) (i : ℕ)
    (payload : CheckVerificationPayload) (row : OtpRow)
    (history : List Event) : Prop where
  phone : row.phone = payload.phone
  purpose : row.purpose = payload.purpose
  code : hashOtp app payload.code row.salt = row.codeHash
  usable : ∃ t, UsableOtpRead i row t history

theorem UsableOtpRead.later {row : OtpRow} {t : ℕ} {past history : List Event}
    (h : UsableOtpRead i row t past) (hsuffix : past <:+ history) :
    UsableOtpRead i row t history := by
  obtain ⟨readAt, before, hread, hrest⟩ := h
  exact ⟨readAt, before, hread.later hsuffix, hrest⟩

theorem AcceptedOtp.later {payload : CheckVerificationPayload} {row : OtpRow}
    {past history : List Event} (h : AcceptedOtp app i payload row past)
    (hsuffix : past <:+ history) : AcceptedOtp app i payload row history :=
  ⟨h.phone, h.purpose, h.code,
    h.usable.imp fun _ husable => husable.later hsuffix⟩

theorem consoleStartVerification_meets
    {payload : StartVerificationPayload}
    {post : StartVerificationResult → World → Prop}
    (hpermitted : ∀ write, write.byProvider = true → permitted write)
    (hfail : ∀ t, fail databaseError t)
    (hpost : ∀ otp t, Later app i w t → post ⟨otp, none⟩ t) :
    (consoleStartVerification app payload).Meets (discipline app permitted) i
      post fail w := by
  refine Program.Meets.bind (draw_meets fun d u hu => ?_)
  refine Program.Meets.bind (draw_meets fun d' v hv => ?_)
  refine Program.Meets.bind (execute_meets (fun _ _ => hpermitted _ rfl)
    (fun _ _ => rfl) (fun _ _ => ⟨rfl, rfl, rfl, rfl, rfl⟩) hfail
    fun _ _ _ _ x hx _ _ => Program.Meets.done fun y hy htraced => ?_)
  exact hpost _ y (Later.trans (hu.toRely.trans (hv.toRely.trans hx.toRely))
    ⟨hy, htraced⟩)

theorem consoleCheckVerification_meets
    {payload : CheckVerificationPayload}
    {post : CheckVerificationResult → World → Prop}
    (hpermitted : ∀ write, write.byProvider = true → permitted write)
    (hfail : ∀ error t, (error = tooManyAttempts →
      ∃ past, LockReport i payload.phone payload.purpose past t.history) → fail error t)
    (hpost : ∀ row t, Later app i w t →
      AcceptedOtp app i payload row t.history → post ⟨some row.id⟩ t) :
    (consoleCheckVerification app payload).Meets (discipline app permitted) i
      post fail w := by
  have hother : ∀ error, error ≠ tooManyAttempts → ∀ t, fail error t :=
    fun error hne t => hfail error t fun heq => absurd heq hne
  have hdatabase := hother databaseError (by decide)
  refine Program.Meets.bind (selectNewestOtp_meets hdatabase
    (fun u _ => Program.Meets.failed fun t _ _ => hother _ (by decide) t)
    fun row readAt past u hu hread hpast hnow hphone hpurpose => ?_)
  dsimp only
  split
  · exact Program.Meets.failed fun t _ _ => hother _ (by decide) t
  · next hused =>
      refine Program.Meets.bind (currentTime_meets
        fun now v hv hle _ => ?_)
      split
      · exact Program.Meets.failed fun t _ _ => hother _ (by decide) t
      · next hexpired =>
          have husable : UsableOtpRead i row now v.history :=
            ⟨readAt, past, hread.later hv.history, by simpa using hused,
              hnow.trans hle, by simpa using hexpired⟩
          split
          · refine Program.Meets.bind (incrementOtpAttempts_meets hpermitted
              ⟨row, now, hphone, hpurpose, husable⟩ hdatabase
              fun result x hx hlocked => ?_)
            split
            · next hresult =>
                refine Program.Meets.failed fun y hy _ => hfail _ y fun _ => ?_
                exact (hlocked hresult).imp fun _ h => h.later hy.history
            · exact Program.Meets.failed fun t _ _ =>
                hother _ (by decide) t
          · next hcode =>
              refine Program.Meets.bind (clearOtpAttempts_meets hpermitted
                hdatabase fun _ _ x hx _ _ =>
                  Program.Meets.done fun y hy htraced => ?_)
              exact hpost row y
                (Later.trans (hu.toRely.trans (hv.toRely.trans hx.toRely))
                  ⟨hy, htraced⟩)
                ⟨hphone, hpurpose, by simpa using hcode, now,
                  husable.later (hx.history.trans hy.history)⟩

/-! ## The Akedly provider -/

theorem akedlySend_meets
    {payload : StartVerificationPayload}
    {post : StartVerificationResult → World → Prop}
    (hfail : ∀ error t, fail error t)
    (hpost : ∀ transactionReqID t, Later app i w t →
      .akedlySent i payload.phone payload.purpose transactionReqID ∈
        t.history →
      post ⟨none, some transactionReqID⟩ t) :
    (akedlySend payload).Meets (discipline app permitted) i post fail w := by
  refine attempt_meets fun u hu d outcome v hrun => ?_
  cases hanswer : d.akedly with
  | unreachable =>
      simp only [hanswer, Option.some.injEq, Prod.mk.injEq] at hrun
      obtain ⟨rfl, rfl⟩ := hrun
      exact ⟨.refl, fun t _ => hfail _ t⟩
  | rejects =>
      simp only [hanswer, Option.some.injEq, Prod.mk.injEq] at hrun
      obtain ⟨rfl, rfl⟩ := hrun
      exact ⟨.refl, fun t _ => hfail _ t⟩
  | answers =>
      simp only [hanswer] at hrun
      split at hrun
      · simp only [Option.some.injEq, Prod.mk.injEq] at hrun
        obtain ⟨rfl, rfl⟩ := hrun
        exact ⟨.refl, fun t _ => hfail _ t⟩
      · obtain ⟨hnew, hrun⟩ := Option.ite_none_left_eq_some.mp hrun
        simp only [Option.some.injEq, Prod.mk.injEq] at hrun
        obtain ⟨rfl, rfl⟩ := hrun
        have hfresh : ∀ other ∈ u.akedly,
            other.transactionReqID ≠ d.transactionReqID := by
          simpa using hnew
        refine ⟨.single (.transactionStarted
          ⟨d.transactionReqID, normalizePhone payload.phone, d.akedlyCode⟩
          payload.phone payload.purpose hfresh), fun t ht => ?_⟩
        have hstart : Rely i u ((u.startTransaction
            ⟨d.transactionReqID, normalizePhone payload.phone,
              d.akedlyCode⟩).record
            (.akedlySent i payload.phone payload.purpose
              d.transactionReqID)) :=
          ⟨List.suffix_cons _ _, rfl, le_rfl⟩
        exact hpost _ t (Later.trans (hu.toRely.trans hstart) ht)
          (ht.history.subset List.mem_cons_self)

theorem akedlyVerify_meets {transactionReqID code : String}
    {post : CheckVerificationResult → World → Prop}
    (hfail : ∀ error t, fail error t)
    (hpost : ∀ past t, Later app i w t →
      Happened (.akedlyVerified i transactionReqID code) past t.history →
      w.history <:+ past → post ⟨none⟩ t) :
    (akedlyVerify transactionReqID code).Meets (discipline app permitted) i
      post fail w := by
  refine attempt_meets fun u hu d outcome v hrun => ?_
  cases hanswer : d.akedly with
  | unreachable =>
      simp only [hanswer, Option.some.injEq, Prod.mk.injEq] at hrun
      obtain ⟨rfl, rfl⟩ := hrun
      exact ⟨.refl, fun t _ => hfail _ t⟩
  | rejects =>
      simp only [hanswer, Option.some.injEq, Prod.mk.injEq] at hrun
      obtain ⟨rfl, rfl⟩ := hrun
      exact ⟨.refl, fun t _ => hfail _ t⟩
  | answers =>
      simp only [hanswer] at hrun
      split at hrun
      · next hverifies =>
          simp only [Option.some.injEq, Prod.mk.injEq] at hrun
          obtain ⟨rfl, rfl⟩ := hrun
          refine ⟨recorded_action ⟨rfl, hverifies⟩, fun t ht => ?_⟩
          obtain ⟨hlater, past, hverified, hpast⟩ :=
            happened_of_record hu.toRely ht
          exact hpost past t hlater hverified hpast
      · simp only [Option.some.injEq, Prod.mk.injEq] at hrun
        obtain ⟨rfl, rfl⟩ := hrun
        exact ⟨.refl, fun t _ => hfail _ t⟩

/-! ## The configured provider -/

/-- What a successful check has seen, for either provider. -/
inductive Checked (app : Deployment) (i : ℕ)
    (payload : CheckVerificationPayload) (history : List Event) :
    CheckVerificationResult → Prop where
  | console (row : OtpRow) (hprovider : app.config.otpProvider = .console)
      (haccepted : AcceptedOtp app i payload row history) :
      Checked app i payload history ⟨some row.id⟩
  | akedly (transactionReqID : String)
      (hprovider : app.config.otpProvider = .akedly)
      (htransaction : payload.transactionReqID = some transactionReqID)
      (hverified : .akedlyVerified i transactionReqID payload.code ∈ history) :
      Checked app i payload history ⟨none⟩

theorem Checked.later {payload : CheckVerificationPayload}
    {result : CheckVerificationResult} {past history : List Event}
    (h : Checked app i payload past result) (hsuffix : past <:+ history) :
    Checked app i payload history result := by
  cases h with
  | console row hprovider haccepted =>
      exact .console row hprovider (haccepted.later hsuffix)
  | akedly transactionReqID hprovider htransaction hverified =>
      exact .akedly transactionReqID hprovider htransaction
        (hsuffix.subset hverified)

theorem startVerification_meets
    {payload : StartVerificationPayload}
    {post : StartVerificationResult → World → Prop}
    (hpermitted : ∀ write, write.byProvider = true → permitted write)
    (hfail : ∀ error t, fail error t)
    (hpost : ∀ result t, Later app i w t →
      (∀ transactionReqID, result.transactionReqID = some transactionReqID →
        .akedlySent i payload.phone payload.purpose transactionReqID ∈
          t.history) →
      post result t) :
    (startVerification app payload).Meets (discipline app permitted) i post
      fail w := by
  unfold startVerification
  cases app.config.otpProvider with
  | console =>
      exact consoleStartVerification_meets hpermitted (hfail _)
        fun otp t ht => hpost _ t ht nofun
  | akedly =>
      dsimp only [akedlyStartVerification]
      split
      · exact Program.Meets.failed fun t _ _ => hfail _ t
      · refine akedlySend_meets hfail fun transactionReqID t ht hsent => ?_
        refine hpost _ t ht fun other hother => ?_
        exact (Option.some.inj hother) ▸ hsent

theorem checkVerification_meets
    {payload : CheckVerificationPayload}
    {post : CheckVerificationResult → World → Prop}
    (hpermitted : ∀ write, write.byProvider = true → permitted write)
    (hfail : ∀ error t,
      (app.config.otpProvider = .console → error = tooManyAttempts →
        ∃ past, LockReport i payload.phone payload.purpose past t.history) → fail error t)
    (hpost : ∀ result t, Later app i w t →
      Checked app i payload t.history result → post result t) :
    (checkVerification app payload).Meets (discipline app permitted) i post
      fail w := by
  unfold checkVerification
  cases hprovider : app.config.otpProvider with
  | console =>
      exact consoleCheckVerification_meets hpermitted
        (fun error t hlocked => hfail error t fun _ => hlocked)
        fun row t ht haccepted =>
          hpost _ t ht (.console row hprovider haccepted)
  | akedly =>
      have hany : ∀ error t, fail error t := fun error t =>
        hfail error t fun hconsole => by simp [hprovider] at hconsole
      dsimp only [akedlyCheckVerification]
      split
      · exact Program.Meets.failed fun t _ _ => hany _ t
      · next transactionReqID htransaction =>
          split
          · exact Program.Meets.failed fun t _ _ => hany _ t
          · exact akedlyVerify_meets hany fun past t ht hverified _ =>
              hpost _ t ht (.akedly transactionReqID hprovider htransaction
                hverified.mem)

theorem getOtpTransactionReqId_meets
    {phone : String} {purpose : OtpPurpose}
    {post : Option String → World → Prop}
    (hpost : ∀ value t, Later app i w t →
      (∀ transactionReqID, value = some transactionReqID →
        ∃ j, .akedlySent j phone purpose transactionReqID ∈ t.history) →
      post value t) :
    (getOtpTransactionReqId app phone purpose).Meets (discipline app permitted)
      i post fail w := by
  unfold getOtpTransactionReqId
  split
  · refine Program.Meets.recover (redisGet_meets (fun t ht => ?_)
      fun value t ht hsent => hpost value t ht fun transactionReqID hvalue =>
        hsent transactionReqID phone purpose hvalue rfl)
    exact fun v hv htraced =>
      hpost none v (Later.trans ht.toRely ⟨hv, htraced⟩) nofun
  · exact fun t ht htraced => hpost none t ⟨ht, htraced⟩ nofun

end MarketPlace
