import MarketPlace.VerificationOutlines

/-!
# Outlines of the request handlers

For every request: each of its actions is one that the laws of histories
allow, and a successful outcome has left certain events.
-/

namespace MarketPlace

open EventLog Interleaving

variable {app : Deployment} {i : ℕ} {w : World}

/-- Any write is permitted. -/
abbrev anyWrite : Write → Prop := fun _ => True

/-- No claim is made about a failure. -/
abbrev anyFailure : HttpError → World → Prop := fun _ _ => True

section Registration

variable {post : Response → World → Prop}

theorem hashPassword_meets {password : String} {post : String → World → Prop}
    (hpost : ∀ hash t, Later app i w t → post hash t) :
    (hashPassword app password).Meets (discipline app anyWrite) i post
      anyFailure w :=
  draw_meets fun _ t ht => hpost _ t ht

theorem deletePendingById_meets {pendingId : Option ℕ}
    {post : Unit → World → Prop}
    (hpost : ∀ t, Later app i w t → post () t) :
    (deletePendingById pendingId).Meets (discipline app anyWrite) i post
      anyFailure w := by
  unfold deletePendingById
  split
  · exact Program.Meets.failed fun _ _ _ => trivial
  · exact perform_meets (fun _ => trivial) (fun _ => rfl)
      (fun _ _ => trivial) (fun _ => trivial) fun _ _ t ht _ _ => hpost t ht

theorem requestRegistrationOtp_meets {dto : RequestRegistrationOtpDto} :
    (requestRegistrationOtp app dto).Meets (discipline app anyWrite) i
      (fun _ _ => True) anyFailure w := by
  refine Program.Meets.bind (select_meets (fun _ => trivial)
    fun existing t ht => ?_)
  split
  · exact Program.Meets.failed fun _ _ _ => trivial
  · refine Program.Meets.bind (hashPassword_meets fun hash u hu => ?_)
    refine Program.Meets.bind (execute_meets (fun _ _ => trivial)
      (fun _ _ => rfl) (fun _ _ => trivial) (fun _ => trivial)
      fun pendingId _ _ _ v hv _ _ => ?_)
    split
    · exact Program.Meets.done fun _ _ _ => trivial
    · refine Program.Meets.caught anyFailure ?_ fun error x _ => ?_
      · exact Program.Meets.bind (startVerification_meets
          (fun _ _ => trivial) (fun _ _ => trivial)
          fun _ _ _ _ => Program.Meets.done fun _ _ _ => trivial)
      · refine Program.Meets.bind (Program.Meets.recover
          ((deletePendingById_meets fun _ _ =>
            Program.Meets.failed fun _ _ _ => trivial).mono
            (fun _ _ h => h) fun _ _ _ => ?_))
        exact Program.Meets.done fun y hy htraced =>
          Program.Meets.failed fun _ _ _ => trivial

theorem hasPendingRegistration_meets {phone : String}
    {post : Bool → World → Prop}
    (hpost : ∀ value t, Later app i w t → post value t) :
    (hasPendingRegistration phone).Meets (discipline app anyWrite) i post
      anyFailure w := by
  refine statement_meets (fun _ => trivial) fun u hu d outcome v hrun => ?_
  simp only [Option.some.injEq, Prod.mk.injEq] at hrun
  obtain ⟨rfl, rfl⟩ := hrun
  exact ⟨.refl, fun t ht => hpost _ t (Later.trans hu.toRely ht)⟩

theorem sentResponse_meets {payload : StartVerificationPayload} :
    (do
      let result ← startVerification app payload
      pure (buildOtpSentResponse result) : Handler Response).Meets
      (discipline app anyWrite) i (fun _ _ => True) anyFailure w :=
  Program.Meets.bind (startVerification_meets (fun _ _ => trivial)
    (fun _ _ => trivial) fun _ _ _ _ =>
      Program.Meets.done fun _ _ _ => trivial)

theorem resendRegistrationOtp_meets {phone : String} :
    (resendRegistrationOtp app phone).Meets (discipline app anyWrite) i
      (fun _ _ => True) anyFailure w := by
  refine Program.Meets.bind (hasPendingRegistration_meets fun pending t ht => ?_)
  split
  · exact Program.Meets.failed fun _ _ _ => trivial
  · split
    · exact Program.Meets.done fun _ _ _ => trivial
    · exact sentResponse_meets

theorem requestPasswordResetOtp_meets {phone : String} :
    (requestPasswordResetOtp app phone).Meets (discipline app anyWrite) i
      (fun _ _ => True) anyFailure w := by
  refine Program.Meets.bind (select_meets (fun _ => trivial)
    fun user t ht => ?_)
  split
  · exact Program.Meets.done fun _ _ _ => trivial
  · split
    · exact Program.Meets.done fun _ _ _ => trivial
    · exact sentResponse_meets

/-! ## Verified registration -/

/-- The transaction id that a check uses: the body's, or else one that this
backend had for the pair. -/
structure ResolvedTransaction
    (fromBody transactionReqID : Option String) (phone : String)
    (purpose : OtpPurpose) (history : List Event) : Prop where
  body : ∀ id, fromBody = some id → transactionReqID = some id
  stored : fromBody = none → ∀ id, transactionReqID = some id →
    ∃ j, .akedlySent j phone purpose id ∈ history

theorem resolveTransactionReqID_meets
    {fromBody : Option String} {phone : String} {purpose : OtpPurpose}
    {post : Option String → World → Prop}
    (hpost : ∀ value t, Later app i w t →
      ResolvedTransaction fromBody value phone purpose t.history →
      post value t) :
    (resolveTransactionReqID app fromBody phone purpose).Meets
      (discipline app anyWrite) i post anyFailure w := by
  cases fromBody with
  | some id =>
      exact fun t ht htraced => hpost _ t ⟨ht, htraced⟩ ⟨fun _ h => h, nofun⟩
  | none =>
      exact getOtpTransactionReqId_meets fun value t ht hsent =>
        hpost value t ht ⟨nofun, fun _ => hsent⟩

/-- What a check that lets request `i` go on has established. -/
structure VerifiedBy (app : Deployment) (i : ℕ) (phone otp : String)
    (purpose : OtpPurpose) (fromBody : Option String)
    (result : CheckVerificationResult) (history : List Event) : Prop where
  checked : ∃ transactionReqID,
    ResolvedTransaction fromBody transactionReqID phone purpose history ∧
      Checked app i ⟨phone, otp, purpose, transactionReqID⟩ history result

theorem VerifiedBy.later {phone otp : String} {purpose : OtpPurpose}
    {fromBody : Option String} {result : CheckVerificationResult}
    {past history : List Event}
    (h : VerifiedBy app i phone otp purpose fromBody result past)
    (hsuffix : past <:+ history) :
    VerifiedBy app i phone otp purpose fromBody result history := by
  obtain ⟨transactionReqID, hresolved, hchecked⟩ := h
  refine ⟨transactionReqID, ⟨hresolved.body, fun hnone id hid => ?_⟩,
    hchecked.later hsuffix⟩
  exact (hresolved.stored hnone id hid).imp fun _ hsent =>
    hsuffix.subset hsent

theorem verification_meets {phone otp : String} {purpose : OtpPurpose}
    {fromBody : Option String}
    {next : CheckVerificationResult → Handler Response}
    (hnext : ∀ result t, Later app i w t →
      VerifiedBy app i phone otp purpose fromBody result t.history →
      (next result).Meets (discipline app anyWrite) i post anyFailure t) :
    (do
      let transactionReqID ←
        resolveTransactionReqID app fromBody phone purpose
      let result ← checkVerification app
        ⟨phone, otp, purpose, transactionReqID⟩
      next result : Handler Response).Meets (discipline app anyWrite) i post
      anyFailure w := by
  refine Program.Meets.bind (resolveTransactionReqID_meets
    fun transactionReqID u hu hresolved => ?_)
  refine Program.Meets.bind (checkVerification_meets (fun _ _ => trivial)
    (fun _ _ _ => trivial) fun result v hv hchecked => ?_)
  refine hnext result v (Later.trans hu.toRely hv)
    ⟨transactionReqID, ⟨hresolved.body, fun hnone id hid => ?_⟩, hchecked⟩
  exact (hresolved.stored hnone id hid).imp fun _ hsent => hv.mem hsent

/-- The OTP row a transaction marks is one that its request may still use. -/
def Markable (i : ℕ) (result : CheckVerificationResult)
    (history : List Event) : Prop :=
  ∀ id, result.localOtpId = some id →
    ∃ row t, row.id = id ∧ UsableOtpRead i row t history

theorem VerifiedBy.markable {phone otp : String} {purpose : OtpPurpose}
    {fromBody : Option String} {result : CheckVerificationResult}
    {history : List Event}
    (h : VerifiedBy app i phone otp purpose fromBody result history) :
    Markable i result history := by
  obtain ⟨transactionReqID, -, hchecked⟩ := h
  intro id hid
  cases hchecked with
  | console row hprovider haccepted =>
      obtain ⟨t, husable⟩ := haccepted.usable
      exact ⟨row, t, Option.some.inj hid, husable⟩
  | akedly transaction hprovider htransaction hverified => contradiction

def CheckVerificationResult.marks (client : Client)
    (result : CheckVerificationResult) : List Write :=
  result.localOtpId.toList.map fun id => .useOtp id client.startedAt

theorem markOtpUsed_meets {client : Client} {result : CheckVerificationResult}
    {post : Unit → World → Prop} (hmarkable : Markable i result w.history)
    (hpost : ∀ t, InTransaction app i w t
      (w.store.queue i ++ result.marks client) → post () t) :
    (markOtpUsed client result).Meets (discipline app anyWrite) i post
      anyFailure w := by
  unfold markOtpUsed
  split
  · next hnone =>
      intro t ht htraced
      refine hpost t ⟨ht.history, ?_, htraced⟩
      simpa [CheckVerificationResult.marks, hnone] using ht.queue
  · next id hid =>
      refine performIn_meets (fun _ => trivial) (fun _ => rfl)
        (fun u hu => ?_) (fun _ => trivial) fun t ht => hpost t ?_
      · obtain ⟨row, t, hrow, husable⟩ := hmarkable id hid
        exact ⟨row, t, hrow, husable.later hu.history⟩
      · simpa [CheckVerificationResult.marks, hid] using ht

/-- The refresh token that a response gives out. -/
def Response.refreshToken : Response → Option Token
  | .session _ tokens | .passwordReset tokens | .refreshed tokens =>
      some tokens.refreshToken
  | _ => none

def Response.TokenIssued (response : Response) (history : List Event) : Prop :=
  ∀ token, response.refreshToken = some token → Issued token history

/-- What a completed registration has left behind. -/
structure Registered (app : Deployment) (i : ℕ)
    (dto : VerifyRegistrationOtpDto) (response : Response)
    (history : List Event) : Prop where
  outcome : ∃ result pending user tokens past,
    VerifiedBy app i dto.phone dto.otp .registration dto.transactionReqID
      result history ∧
    Happened (.pendingRead i pending) past history ∧
    pending.phone = dto.phone ∧
    user.name = pending.name ∧ user.phone = dto.phone ∧
    user.passwordHash = pending.passwordHash ∧
    response = .session (mapToAppUser user) tokens ∧
    (∃ at_, .wrote i at_ (.insertUser user) ∈ history) ∧
    ∀ id, result.localOtpId = some id →
      ∃ at_ now, .wrote i at_ (.useOtp id now) ∈ history

/-- A completed registration, whose code had been checked when the pending
row was read. -/
structure RegisteredFrom (app : Deployment) (i : ℕ)
    (dto : VerifyRegistrationOtpDto) (response : Response)
    (history : List Event) : Prop where
  outcome : ∃ result pending user tokens past,
    VerifiedBy app i dto.phone dto.otp .registration dto.transactionReqID
      result past ∧
    Happened (.pendingRead i pending) past history ∧
    pending.phone = dto.phone ∧
    user.name = pending.name ∧ user.phone = dto.phone ∧
    user.passwordHash = pending.passwordHash ∧
    response = .session (mapToAppUser user) tokens ∧
    (∃ at_, .wrote i at_ (.insertUser user) ∈ history) ∧
    ∀ id, result.localOtpId = some id →
      ∃ at_ now, .wrote i at_ (.useOtp id now) ∈ history

theorem RegisteredFrom.registered {dto : VerifyRegistrationOtpDto}
    {response : Response} {history : List Event}
    (h : RegisteredFrom app i dto response history) :
    Registered app i dto response history := by
  obtain ⟨result, pending, user, tokens, past, hverified, hread, hrest⟩ :=
    h.outcome
  exact ⟨result, pending, user, tokens, past, hverified.later hread.older,
    hread, hrest⟩

theorem completeRegistration_registers {dto : VerifyRegistrationOtpDto}
    {result : CheckVerificationResult} {client : Client}
    (hqueue : w.store.queue i = [])
    (hverified : VerifiedBy app i dto.phone dto.otp .registration
      dto.transactionReqID result w.history) :
    (completeRegistration app dto.phone result client).Meets
      (discipline app anyWrite) i
      (fun response t => ∀ v, Committed app i t v →
        RegisteredFrom app i dto response v.history ∧
          response.TokenIssued v.history)
      anyFailure w := by
  refine Program.Meets.bind (selectPendingForUpdate_meets hqueue
    (fun _ => trivial) (fun t _ => Program.Meets.failed fun _ _ _ => trivial)
    fun pending past t ht hread hpast hphone => ?_)
  have hempty : t.store.queue i = [] := ht.queue.trans hqueue
  refine Program.Meets.seq
    (fun user u => ∃ id before,
      user = newUserRow pending.name dto.phone pending.passwordHash false id
        client.startedAt ∧
      InTransaction app i t u [.insertUser user] ∧
      Happened (.queued i (.insertUser user)) before u.history)
    (Program.Meets.caught anyFailure
      (insertUser_meets (fun _ => trivial) (fun _ => trivial)
        (fun _ => trivial) fun id before u hu hqueued _ => ?_)
      fun _ u _ => Program.Meets.failed fun _ _ _ => trivial)
    fun user u hu => ?_
  · rw [hempty] at hu
    exact ⟨id, before, rfl, hu, hqueued⟩
  obtain ⟨id, before, huser, hu, hqueued⟩ := hu
  have hmarkable := (hverified.later (ht.history.trans hu.history)).markable
  refine Program.Meets.bind (markOtpUsed_meets hmarkable fun v hv => ?_)
  rw [hu.queue] at hv
  refine Program.Meets.bind (tryRedisDel_meets fun x hx => ?_)
  have hxv := Later.inTransaction hv hx
  refine Program.Meets.bind (performIn_meets (fun _ => trivial)
    (fun _ => rfl) (fun _ _ => trivial) (fun _ => trivial) fun y hy => ?_)
  rw [hxv.queue] at hy
  have hqueued_y := hqueued.later (hxv.history.trans hy.history)
  refine Program.Meets.bind (generateTokensIn_meets (fun _ _ _ => trivial)
    (fun token hsub hversion hadmin =>
      .created user before hqueued_y hsub hversion hadmin)
    (fun _ => trivial) fun tokens jti expiresAt z hz hsigned =>
      Program.Meets.done fun a ha _ v hcommitted => ?_)
  rw [hy.queue] at hz
  have hfinal : t.history <:+ v.history :=
    hu.history.trans (hxv.history.trans (hy.history.trans
      (hz.history.trans (ha.history.trans hcommitted.history))))
  have hwrote : ∀ write ∈ [.insertUser user] ++ result.marks client,
      ∃ at_, .wrote i at_ write ∈ v.history := by
    intro write hwrite
    refine hcommitted.wrote write ?_
    rw [ha.queue, hz.queue, List.append_assoc, List.append_assoc]
    exact List.mem_append.mpr ((List.mem_append.mp hwrite).imp_right
      fun h => List.mem_append_left _ h)
  refine ⟨⟨result, pending, user, tokens, past, hverified.later hpast,
    hread.later hfinal, hphone,
    by rw [huser]; rfl, by rw [huser]; rfl, by rw [huser]; rfl, rfl,
    hwrote _ (by simp), fun marked hmarked => ?_⟩, ?_⟩
  · obtain ⟨at_, hmark⟩ := hwrote (.useOtp marked client.startedAt) (by
      simp [CheckVerificationResult.marks, hmarked])
    exact ⟨at_, _, hmark⟩
  · rintro token ⟨⟩
    obtain ⟨at_, hsaved⟩ := hcommitted.wrote
      (.saveRefreshToken jti user.id expiresAt) (by
        rw [ha.queue, hz.queue]
        exact List.mem_append_right _ List.mem_cons_self)
    exact (hsigned.later (ha.history.trans hcommitted.history)).issued
      ⟨i, at_, expiresAt, hsaved⟩

theorem verifyRegistrationOtp_registers {dto : VerifyRegistrationOtpDto} :
    (verifyRegistrationOtp app dto).Meets (discipline app anyWrite) i
      (fun response t => RegisteredFrom app i dto response t.history ∧
        response.TokenIssued t.history)
      anyFailure w :=
  verification_meets fun _ _ _ hverified =>
    withTransaction_meets fun _ _ hu =>
      completeRegistration_registers hu.queue (hverified.later hu.history)

theorem verifyRegistrationOtp_meets {dto : VerifyRegistrationOtpDto} :
    (verifyRegistrationOtp app dto).Meets (discipline app anyWrite) i
      (fun response t => Registered app i dto response t.history ∧
        response.TokenIssued t.history)
      anyFailure w :=
  verifyRegistrationOtp_registers.mono (fun _ _ h => ⟨h.1.registered, h.2⟩)
    fun _ _ h => h

/-! ## Login, reset, refresh -/

theorem login_meets {dto : LoginDto} :
    (login app dto).Meets (discipline app anyWrite) i
      (fun response t => response.TokenIssued t.history) anyFailure w := by
  refine Program.Meets.bind (selectUser_meets (.inl rfl)
    (fun db row => Database.get_of_liveUserByPhone) (fun _ => trivial)
    (fun t _ => Program.Meets.failed fun _ _ _ => trivial)
    fun user past t ht hread _ hknown => ?_)
  dsimp only
  split
  · exact Program.Meets.failed fun _ _ _ => trivial
  · next hactive =>
      split
      · exact Program.Meets.failed fun _ _ _ => trivial
      · refine Program.Meets.bind (generateTokens_meets (fun _ _ _ => trivial)
          (fun token hsub hversion hadmin =>
            .read user past hread hsub hversion hadmin hknown.2
              (not_not.mp hactive))
          (fun _ => trivial) fun _ _ _ _ _ hissued =>
            Program.Meets.done fun u hu _ => ?_)
        rintro token ⟨⟩
        exact hissued.later hu.history

/-- What a completed reset has left behind. -/
structure WasReset (app : Deployment) (i : ℕ) (dto : ResetPasswordDto)
    (history : List Event) : Prop where
  outcome : ∃ result user,
    VerifiedBy app i dto.phone dto.otp .passwordReset dto.transactionReqID
      result history ∧
    .userRead i user ∈ history ∧ user.phone = dto.phone ∧
    (∃ at_ hash now,
      .wrote i at_ (.updatePassword user.id hash false now) ∈ history) ∧
    ∀ id, result.localOtpId = some id →
      ∃ at_ now, .wrote i at_ (.useOtp id now) ∈ history

theorem completeReset_meets {dto : ResetPasswordDto}
    {result : CheckVerificationResult} {client : Client}
    (hqueue : w.store.queue i = [])
    (hverified : VerifiedBy app i dto.phone dto.otp .passwordReset
      dto.transactionReqID result w.history) :
    (completeReset app dto result client).Meets (discipline app anyWrite) i
      (fun response t => ∀ v, Committed app i t v →
        WasReset app i dto v.history ∧ response.TokenIssued v.history)
      anyFailure w := by
  refine Program.Meets.bind (selectUser_meets (.inr hqueue)
    (fun db row => Database.get_of_liveUserByPhone) (fun _ => trivial)
    (fun t _ => Program.Meets.failed fun _ _ _ => trivial)
    fun user past t ht hread _ hknown => ?_)
  dsimp only
  split
  · exact Program.Meets.failed fun _ _ _ => trivial
  next hactive =>
  have hempty : t.store.queue i = [] := ht.queue.trans hqueue
  refine Program.Meets.bind (hashPassword_meets fun hash u hu => ?_)
  refine Program.Meets.bind (executeIn_meets
    (fun updated => ∀ row, updated = some row → row.id = user.id)
    (fun _ _ => trivial) (fun _ _ => rfl)
    (fun v hv => ⟨user, (hread.later (hu.history.trans hv.history)).mem, rfl⟩)
    (fun _ after row hrow => Relational.Table.key_of_get hrow)
    (fun _ => trivial) fun updatedUser _ v hupdated hv => ?_)
  rw [hu.queue, hempty] at hv
  cases updatedUser with
  | none => exact Program.Meets.failed fun _ _ _ => trivial
  | some updated =>
      have hmarkable := (hverified.later
        (ht.history.trans (hu.history.trans hv.history))).markable
      refine Program.Meets.bind (markOtpUsed_meets hmarkable fun x hx => ?_)
      rw [hv.queue] at hx
      refine Program.Meets.bind (tryRedisDel_meets fun y hy => ?_)
      have hyx := Later.inTransaction hx hy
      have hread_y := hread.later
        (hu.history.trans (hv.history.trans hyx.history))
      refine Program.Meets.bind (generateTokensIn_meets
        (fun _ _ _ => trivial)
        (fun token hsub hversion hadmin => .read user past hread_y
          (hsub.trans (hupdated updated rfl)) hversion hadmin hknown.2
          (not_not.mp hactive))
        (fun _ => trivial) fun tokens jti expiresAt z hz hsigned =>
          Program.Meets.done fun a ha _ final hcommitted => ?_)
      rw [hyx.queue] at hz
      have hfinal : y.history <:+ final.history :=
        hz.history.trans (ha.history.trans hcommitted.history)
      have hwrote : ∀ write ∈
          [.updatePassword user.id hash false client.startedAt] ++
            result.marks client,
          ∃ at_, .wrote i at_ write ∈ final.history := by
        intro write hwrite
        refine hcommitted.wrote write ?_
        rw [ha.queue, hz.queue]
        exact List.mem_append_left _ hwrite
      refine ⟨⟨result, user, hverified.later (ht.history.trans
        (hu.history.trans (hv.history.trans (hyx.history.trans hfinal)))),
        (hread_y.later hfinal).mem, hknown.1, ?_, fun marked hmarked => ?_⟩,
        ?_⟩
      · obtain ⟨at_, hpassword⟩ :=
          hwrote (.updatePassword user.id hash false client.startedAt)
            (by simp)
        exact ⟨at_, hash, _, hpassword⟩
      · obtain ⟨at_, hmark⟩ := hwrote (.useOtp marked client.startedAt) (by
          simp [CheckVerificationResult.marks, hmarked])
        exact ⟨at_, _, hmark⟩
      · rintro token ⟨⟩
        obtain ⟨at_, hsaved⟩ := hcommitted.wrote
          (.saveRefreshToken jti updated.id expiresAt) (by
            rw [ha.queue, hz.queue]
            exact List.mem_append_right _ List.mem_cons_self)
        exact (hsigned.later (ha.history.trans hcommitted.history)).issued
          ⟨i, at_, expiresAt, hsaved⟩

theorem resetPassword_meets {dto : ResetPasswordDto} :
    (resetPassword app dto).Meets (discipline app anyWrite) i
      (fun response t => WasReset app i dto t.history ∧
        response.TokenIssued t.history) anyFailure w := by
  unfold resetPassword
  split
  · exact Program.Meets.failed fun _ _ _ => trivial
  · exact verification_meets fun _ _ _ hverified =>
      withTransaction_meets fun _ _ hu =>
        completeReset_meets hu.queue (hverified.later hu.history)

end Registration

/-! ## Accepted tokens -/

/-- Request `i` verified the token and then found its user live and at the
token's version. -/
structure LookedUp (i : ℕ) (secret : String) (token : Token)
    (row : UserRow) (past history : List Event) : Prop where
  read : Happened (.userRead i row) past history
  verified : ∃ at_ before, Happened (.verified i at_ token) before past
  signed : token.secret = secret
  user : row.id = token.sub
  live : row.deletedAt = none
  version : row.tokenVersion = token.tokenVersion

theorem LookedUp.later {secret : String} {token : Token} {row : UserRow}
    {past history history' : List Event}
    (h : LookedUp i secret token row past history)
    (hsuffix : history <:+ history') :
    LookedUp i secret token row past history' :=
  { h with read := h.read.later hsuffix }

theorem jwtAuthGuard_meets {permitted : Write → Prop} {token : Token}
    {post : AuthUser → World → Prop}
    (hpost : ∀ user row past t, Later app i w t → user.sub = token.sub →
      LookedUp i app.config.jwtAccessSecret token row past t.history →
      post user t) :
    (jwtAuthGuard app token).Meets (discipline app permitted) i post anyFailure
      w := by
  refine Program.Meets.bind (verifyAsync_meets (fun _ _ _ _ _ => trivial)
    fun at_ before u hu hsigned hverified _ => ?_)
  unfold validate
  split
  · exact Program.Meets.failed fun _ _ _ => trivial
  · refine Program.Meets.bind (selectUser_meets (.inl rfl)
      (fun db row => Database.get_of_liveUserById) (fun _ => trivial)
      (fun t _ => Program.Meets.failed fun _ _ _ => trivial)
      fun row past t ht hread hpast hknown => ?_)
    dsimp only
    split
    · exact Program.Meets.failed fun _ _ _ => trivial
    · next hversion =>
        refine Program.Meets.done fun v hv htraced => ?_
        exact hpost _ row past v
          (Later.trans (hu.toRely.trans ht.toRely) ⟨hv, htraced⟩) rfl
          { read := hread.later hv.history
            verified := ⟨at_, before, hverified.later hpast⟩
            signed := hsigned
            user := hknown.1
            live := hknown.2
            version := not_not.mp hversion }

theorem adminGuard_meets {permitted : Write → Prop} {token : Token}
    {post : AuthUser → World → Prop}
    (hpost : ∀ user row past t, user.sub = token.sub →
      LookedUp i app.config.jwtAccessSecret token row past t.history →
      post user t) :
    (adminGuard app token).Meets (discipline app permitted) i post anyFailure
      w := by
  refine Program.Meets.bind (jwtAuthGuard_meets
    fun user row past t _ huser hlooked => ?_)
  refine Program.Meets.bind (select_meets (fun _ => trivial)
    fun isAdmin u hu => ?_)
  split
  · exact Program.Meets.done fun v hv _ =>
      hpost _ row past v huser (hlooked.later (hu.history.trans hv.history))
  · exact Program.Meets.failed fun _ _ _ => trivial

/-- The row of a refresh token that `consumeRefreshTokenJti` would take. -/
def ConsumableRow (db : Database) (jti : String) (userId now : ℕ) : Prop :=
  ∃ row, db.authRefreshTokens.get jti = some row ∧
    row.consumable now = true ∧ row.userId = userId

theorem consumedUserId_eq_some_iff {db : Database} {jti : String}
    {userId now : ℕ} :
    consumedUserId jti db (db.apply (.consumeRefreshToken jti now)) =
        some userId ↔
      ConsumableRow db jti userId now := by
  simp only [consumedUserId, ConsumableRow, Database.apply,
    Relational.Table.get_filter]
  cases hget : db.authRefreshTokens.get jti with
  | none => simp
  | some row =>
      have hjti : row.jti = jti := Relational.Table.key_of_get hget
      cases hconsumable : row.consumable now <;>
        simp [hjti, hconsumable, Option.filter]

/-- What a successful refresh has left behind. -/
def Refreshed (app : Deployment) (i : ℕ) (token : Token)
    (history : List Event) : Prop :=
  ∃ row past, row.status = .active ∧
    LookedUp i app.config.jwtRefreshSecret token row past history

/-- A successful refresh has verified its token and then taken the row of the
jti, and answers with tokens of the same user. -/
structure Rotated (app : Deployment) (i : ℕ) (token : Token)
    (response : Response) (history : List Event) : Prop where
  signed : token.secret = app.config.jwtRefreshSecret
  consumed : ∃ jti at_ past, token.jti = some jti ∧ jti ≠ "" ∧
    Happened (.wrote i at_ (.consumeRefreshToken jti at_)) past history ∧
    ConsumableRow (stored past) jti token.sub at_ ∧
    ∃ verifiedAt before, Happened (.verified i verifiedAt token) before past
  answer : ∃ tokens, response = .refreshed tokens ∧
    tokens.accessToken.sub = token.sub ∧ tokens.refreshToken.sub = token.sub

theorem consumeRefreshTokenJti_meets {jti : String}
    {post : Option ℕ → World → Prop}
    (hpost : ∀ at_ past t, Later app i w t →
      Happened (.wrote i at_ (.consumeRefreshToken jti at_)) past t.history →
      w.history <:+ past →
      post (consumedUserId jti (stored past)
        ((stored past).apply (.consumeRefreshToken jti at_))) t) :
    (consumeRefreshTokenJti app jti).Meets (discipline app anyWrite) i post
      anyFailure w := by
  refine Program.Meets.bind (tryRedisDel_meets fun u hu => ?_)
  refine statement_meets (fun _ => trivial) fun v hv d outcome t hrun => ?_
  obtain ⟨hlockable, hrun⟩ := Option.ite_none_right_eq_some.mp hrun
  simp only [Option.some.injEq, Prod.mk.injEq] at hrun
  obtain ⟨rfl, rfl⟩ := hrun
  refine ⟨.single (.autocommitted _ trivial rfl hlockable trivial),
    fun s hs => ?_⟩
  have hdb : v.viewFor none i = stored v.history := hv.traced.stores
  have hafter : (v.write none i (.consumeRefreshToken jti v.now)).viewFor none
      i = (stored v.history).apply (.consumeRefreshToken jti v.now) :=
    congrArg (fun db : Database => db.apply (.consumeRefreshToken jti v.now)) hdb
  have happened : Happened (.wrote i v.now (.consumeRefreshToken jti v.now))
      v.history s.history :=
    Happened.later happened_self hs.history
  have hlater : Later app i w s :=
    Later.trans (hu.toRely.trans (hv.toRely.trans (Rely.autocommit _))) hs
  have hsuffix : w.history <:+ v.history := hu.history.trans hv.history
  show post (consumedUserId jti (v.viewFor none i)
    ((v.write none i (.consumeRefreshToken jti v.now)).viewFor none i)) s
  rw [hdb, hafter]
  exact hpost v.now v.history s hlater happened hsuffix

theorem refresh_meets {token : Token} :
    (refresh app token).Meets (discipline app anyWrite) i
      (fun response t => Refreshed app i token t.history ∧
        Rotated app i token response t.history ∧
        response.TokenIssued t.history) anyFailure w := by
  refine Program.Meets.seq
    (fun _ t => token.secret = app.config.jwtRefreshSecret ∧
      ∃ at_ before, Happened (.verified i at_ token) before t.history)
    (Program.Meets.caught anyFailure
      (verifyAsync_meets (fun _ _ _ _ _ => trivial)
        fun at_ before u _ hsigned hverified _ =>
          ⟨hsigned, at_, before, hverified⟩)
      fun _ _ _ => Program.Meets.failed fun _ _ _ => trivial)
    fun _ u hu => ?_
  obtain ⟨hsigned, verifiedAt, before, hverified⟩ := hu
  split
  · exact Program.Meets.failed fun _ _ _ => trivial
  next jti hjti =>
  split
  · exact Program.Meets.failed fun _ _ _ => trivial
  next hnonempty =>
  refine Program.Meets.bind (consumeRefreshTokenJti_meets
    fun at_ taken v hv hconsumed htaken => ?_)
  split
  · exact Program.Meets.failed fun _ _ _ => trivial
  next hstored =>
  have hrow : ConsumableRow (stored taken) jti token.sub at_ :=
    consumedUserId_eq_some_iff.mp (not_not.mp hstored)
  refine Program.Meets.bind (selectUser_meets (.inl rfl)
    (fun db row => Database.get_of_liveUserById) (fun _ => trivial)
    (fun t _ => Program.Meets.failed fun _ _ _ => trivial)
    fun user past t ht hread hpast hknown => ?_)
  dsimp only
  split
  · exact Program.Meets.failed fun _ _ _ => trivial
  next hactive =>
  split
  · exact Program.Meets.failed fun _ _ _ => trivial
  next hversion =>
  refine Program.Meets.bind (generateTokens_meets (fun _ _ _ => trivial)
    (fun other hsub hother hadmin => .read user past hread hsub hother hadmin
      hknown.2 (not_not.mp hactive))
    (fun _ => trivial) fun tokens _ x hx htokens hissued =>
      Program.Meets.done fun y hy _ => ?_)
  have hxy : t.history <:+ y.history := hx.history.trans hy.history
  have hlooked : LookedUp i app.config.jwtRefreshSecret token user past
      y.history :=
    { read := hread.later hxy
      verified := ⟨verifiedAt, before,
        hverified.later (hv.history.trans hpast)⟩
      signed := hsigned
      user := hknown.1
      live := hknown.2
      version := not_not.mp hversion }
  have hrotated : Rotated app i token (.refreshed tokens) y.history :=
    { signed := hsigned
      consumed := ⟨jti, at_, taken, hjti, hnonempty,
        hconsumed.later (ht.history.trans hxy), hrow,
        verifiedAt, before, hverified.later htaken⟩
      answer := ⟨tokens, rfl, htokens.access.trans hknown.1,
        htokens.refresh.trans hknown.1⟩ }
  refine ⟨⟨user, past, not_not.mp hactive, hlooked⟩, hrotated,
    fun other hother => ?_⟩
  rw [Response.refreshToken, Option.some.injEq] at hother
  exact hother ▸ hissued.later hy.history

theorem revokeRefreshTokenJti_meets {jti : String}
    {post : Unit → World → Prop} (hpost : ∀ t, post () t) :
    (revokeRefreshTokenJti app jti).Meets (discipline app anyWrite) i post
      anyFailure w := by
  refine Program.Meets.bind (tryRedisDel_meets fun u hu => ?_)
  exact perform_meets (fun _ => trivial) (fun _ => rfl) (fun _ _ => trivial)
    (fun _ => trivial) fun _ _ t _ _ _ => hpost t

theorem logout_meets {token : Token} :
    (logout app token).Meets (discipline app anyWrite) i (fun _ _ => True)
      anyFailure w := by
  refine Program.Meets.seq (fun _ _ => True)
    (Program.Meets.caught anyFailure ?_
      fun _ _ _ => Program.Meets.done fun _ _ _ => trivial)
    fun _ _ _ => Program.Meets.done fun _ _ _ => trivial
  refine Program.Meets.bind (verifyAsync_meets (fun _ _ _ _ _ => trivial)
    fun _ _ u _ _ _ _ => ?_)
  split
  · exact Program.Meets.done fun _ _ _ => trivial
  split
  · exact Program.Meets.done fun _ _ _ => trivial
  · exact revokeRefreshTokenJti_meets fun _ => trivial

/-! ## Akedly -/

theorem startAkedlyVerification_meets {dto : AkedlySendOtpDto} :
    (startAkedlyVerification app dto).Meets (discipline app anyWrite) i
      (fun _ _ => True) anyFailure w := by
  refine Program.Meets.bind (startVerification_meets (fun _ _ => trivial)
    (fun _ _ => trivial) fun result t ht hsent => ?_)
  refine Program.Meets.seq (fun _ _ => True) ?_
    fun _ _ _ => Program.Meets.done fun _ _ _ => trivial
  unfold rememberTransaction
  split
  · exact Program.Meets.done fun _ _ _ => trivial
  next transactionReqID hid =>
  split
  · exact Program.Meets.done fun _ _ _ => trivial
  · refine tryRedisSet_meets (redisSet_meets (fun phone purpose hkey => ?_)
      (fun _ h => h) fun _ h => h) fun _ _ => trivial
    obtain ⟨rfl, rfl⟩ := otpTransactionKey_injective hkey
    exact ⟨i, hsent transactionReqID hid⟩

theorem sendAkedlyOtp_meets {dto : AkedlySendOtpDto} :
    (sendAkedlyOtp app dto).Meets (discipline app anyWrite) i
      (fun _ _ => True) anyFailure w := by
  unfold sendAkedlyOtp
  split
  · exact Program.Meets.failed fun _ _ _ => trivial
  cases dto.purpose with
  | registration =>
      refine Program.Meets.bind (hasPendingRegistration_meets
        fun pending t ht => ?_)
      split
      · exact Program.Meets.failed fun _ _ _ => trivial
      · exact startAkedlyVerification_meets
  | passwordReset =>
      refine Program.Meets.bind (select_meets (fun _ => trivial)
        fun user t ht => ?_)
      split
      · exact Program.Meets.done fun _ _ _ => trivial
      · exact startAkedlyVerification_meets

end MarketPlace
