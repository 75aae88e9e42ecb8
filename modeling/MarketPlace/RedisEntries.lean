import MarketPlace.BackendOutlines
import MarketPlace.KeptInvariants

/-!
# Which requests touch a Redis entry

The transaction ids of Akedly are kept under a key of their phone and purpose.
Only requests for that phone and purpose set or delete it: what Redis holds
under the key is kept by every action of every other request.
-/

namespace MarketPlace

open Interleaving

variable {app : Deployment} {β : Type} {key other : String}
  {entry : Option RedisEntry} {phone : String} {purpose : OtpPurpose}

/-! ## Entries -/

/-- What Redis holds under a key, expired or not. -/
def World.held (key : String) (w : World) : Option RedisEntry :=
  w.redis.find? fun entry => entry.key = key

theorem World.held_redisSet_self {w : World} {value : String} {ttlSeconds : ℕ} :
    (w.redisSet key value ttlSeconds).held key =
      some ⟨key, value, w.now + microseconds ttlSeconds⟩ := by
  simp [World.held, World.redisSet]

theorem World.held_redisSet_ne {w : World} {value : String} {ttlSeconds : ℕ}
    (hne : other ≠ key) :
    (w.redisSet other value ttlSeconds).held key = w.held key := by
  rw [World.held, World.redisSet, List.find?_cons_of_neg (by simpa using hne),
    List.find?_filter, World.held]
  congr 1
  funext entry
  grind

theorem World.held_redisDel_ne {w : World} (hne : other ≠ key) :
    (w.redisDel other).held key = w.held key := by
  rw [World.held, World.redisDel, List.find?_filter, World.held]
  congr 1
  funext entry
  grind

/-- An entry that has not expired is what a GET answers. -/
theorem World.redisGet_of_held {w : World} {found : RedisEntry}
    (hheld : w.held key = some found) (hlive : w.now < found.expiresAt) :
    w.redisGet key = some found.value := by
  obtain ⟨hkey, front, back, hredis, hfront⟩ :=
    List.find?_eq_some_iff_append.mp hheld
  have hfound : w.redis.find? (fun entry =>
      entry.key = key && w.now < entry.expiresAt) = some found := by
    refine List.find?_eq_some_iff_append.mpr
      ⟨?_, front, back, hredis, fun entry hentry => ?_⟩
    · rw [hkey, Bool.true_and, decide_eq_true_eq]
      exact hlive
    · rw [Bool.not_eq_true', Bool.and_eq_false_iff]
      exact .inl (by simpa using hfront entry hentry)
  rw [World.redisGet, hfound, Option.map_some]

/-! ## Actions that keep an entry -/

/-- Every action of the program leaves the entry under the key as it is. -/
def KeepsEntry (key : String) (entry : Option RedisEntry) (program : Handler β) :
    Prop :=
  program.Keeps fun w => w.held key = entry

theorem keepsEntry_pure (value : β) :
    KeepsEntry key entry (pure value : Handler β) := trivial

theorem keepsEntry_throw (error : HttpError) :
    KeepsEntry key entry (throw error : Handler β) := trivial

theorem KeepsEntry.bind {γ : Type} {program : Handler β}
    {next : β → Handler γ} (h : KeepsEntry key entry program)
    (hnext : ∀ value, KeepsEntry key entry (next value)) :
    KeepsEntry key entry (program >>= next) :=
  Program.Keeps.bind h hnext

theorem KeepsEntry.tryCatch {program : Handler β}
    {handler : HttpError → Handler β} (h : KeepsEntry key entry program)
    (hhandler : ∀ error, KeepsEntry key entry (handler error)) :
    KeepsEntry key entry (tryCatch program handler) :=
  Program.Keeps.recover h hhandler

/-- An action that leaves the world as it is. -/
theorem held_of_same {w t : World} {outcome outcome' : β}
    (haction : some (outcome, w) = some (outcome', t)) :
    t.held key = w.held key := by
  obtain ⟨-, rfl⟩ := Prod.mk.inj (Option.some.inj haction)
  rfl

theorem keepsEntry_attempt
    {action : ℕ → Draw → World → Option (Except HttpError β × World)}
    (h : ∀ i d w outcome t, action i d w = some (outcome, t) →
      t.held key = w.held key) :
    KeepsEntry key entry (attempt action) := by
  refine ⟨fun i d w outcome t hheld haction => ?_, fun outcome => ?_⟩
  · exact (h i d w outcome t haction).trans hheld
  · cases outcome with
    | ok value => exact Program.keeps_done value
    | error error => exact Program.keeps_failed error

theorem keepsEntry_statement
    {action : ℕ → Draw → World → Option (Except HttpError β × World)}
    (h : ∀ i d w outcome t, action i d w = some (outcome, t) →
      t.redis = w.redis) :
    KeepsEntry key entry (statement action) := by
  refine keepsEntry_attempt fun i d w outcome t haction => ?_
  split at haction
  · obtain ⟨-, rfl⟩ := Prod.mk.inj (Option.some.inj haction)
    rfl
  · rw [World.held, h i d w outcome t haction]
    rfl

theorem keepsEntry_select {client : Option Client} {query : Database → β} :
    KeepsEntry key entry (select client query) := by
  refine keepsEntry_statement fun i d w outcome t haction => ?_
  obtain ⟨-, rfl⟩ := Prod.mk.inj (Option.some.inj haction)
  rfl

theorem keepsEntry_selectUser {client : Option Client}
    {query : Database → Option UserRow} :
    KeepsEntry key entry (selectUser client query) := by
  refine keepsEntry_statement fun i d w outcome t haction => ?_
  split at haction
  · obtain ⟨-, rfl⟩ := Prod.mk.inj (Option.some.inj haction)
    rfl
  · obtain ⟨-, rfl⟩ := Prod.mk.inj (Option.some.inj haction)
    rfl

theorem keepsEntry_execute {client : Option Client}
    {write : ℕ → Sequences → Write} {returning : Database → Database → β} :
    KeepsEntry key entry (execute client write returning) := by
  refine keepsEntry_statement fun i d w outcome t haction => ?_
  obtain ⟨-, haction⟩ := Option.ite_none_right_eq_some.mp haction
  obtain ⟨-, rfl⟩ := Prod.mk.inj (Option.some.inj haction)
  cases client <;> rfl

theorem keepsEntry_perform {client : Option Client} {write : ℕ → Write} :
    KeepsEntry key entry (perform client write) :=
  keepsEntry_execute

theorem keepsEntry_draw {choose : Draw → β} :
    KeepsEntry key entry (draw choose) := by
  refine ⟨fun i d w value t hheld haction => ?_, fun _ => trivial⟩
  obtain ⟨-, rfl⟩ := Prod.mk.inj (Option.some.inj haction)
  exact hheld

theorem keepsEntry_begin : KeepsEntry key entry begin := by
  refine keepsEntry_statement fun i d w outcome t haction => ?_
  obtain ⟨-, rfl⟩ := Prod.mk.inj (Option.some.inj haction)
  rfl

theorem keepsEntry_commit : KeepsEntry key entry commit := by
  refine keepsEntry_statement fun i d w outcome t haction => ?_
  obtain ⟨-, rfl⟩ := Prod.mk.inj (Option.some.inj haction)
  rfl

theorem keepsEntry_rollback : KeepsEntry key entry rollback := by
  refine keepsEntry_attempt fun i d w outcome t haction => ?_
  obtain ⟨-, rfl⟩ := Prod.mk.inj (Option.some.inj haction)
  rfl

theorem keepsEntry_withTransaction {callback : Client → Handler β}
    (h : ∀ client, KeepsEntry key entry (callback client)) :
    KeepsEntry key entry (withTransaction callback) := by
  refine KeepsEntry.tryCatch ?_ fun error =>
    keepsEntry_rollback.bind fun _ => keepsEntry_throw error
  exact keepsEntry_begin.bind fun client => (h client).bind fun result =>
    keepsEntry_commit.bind fun _ => keepsEntry_pure result

theorem keepsEntry_redisCommand {absent : β} {command : World → β × World}
    (h : ∀ w, (command w).2.held key = w.held key) :
    KeepsEntry key entry (redisCommand app absent command) := by
  unfold redisCommand
  split
  · refine keepsEntry_attempt fun i d w outcome t haction => ?_
    split at haction
    · obtain ⟨-, rfl⟩ := Prod.mk.inj (Option.some.inj haction)
      rfl
    · obtain ⟨-, rfl⟩ := Prod.mk.inj (Option.some.inj haction)
      exact h w
  · exact keepsEntry_pure absent

theorem keepsEntry_redisGet : KeepsEntry key entry (redisGet app other) :=
  keepsEntry_redisCommand fun _ => rfl

theorem keepsEntry_redisSet {value : String} {ttlSeconds : ℕ}
    (hne : other ≠ key) :
    KeepsEntry key entry (redisSet app other value ttlSeconds) :=
  keepsEntry_redisCommand fun _ => World.held_redisSet_ne hne

theorem keepsEntry_redisDel (hne : other ≠ key) :
    KeepsEntry key entry (redisDel app other) :=
  keepsEntry_redisCommand fun _ => World.held_redisDel_ne hne

theorem keepsEntry_tryRedisSet {op : Handler Unit}
    (h : KeepsEntry key entry op) : KeepsEntry key entry (tryRedisSet app op) := by
  unfold tryRedisSet
  split
  · exact h.tryCatch fun _ => keepsEntry_pure ()
  · exact keepsEntry_pure ()

/-! ## The state store and the providers -/

/-- Every action of the program leaves the pair's transaction as it is. -/
abbrev KeepsPair (phone : String) (purpose : OtpPurpose)
    (entry : Option RedisEntry) (program : Handler β) : Prop :=
  KeepsEntry (otpTransactionKey phone purpose) entry program

variable {phone' : String} {purpose' : OtpPurpose}

theorem keepsPair_clearOtpAttempts :
    KeepsPair phone purpose entry (clearOtpAttempts app phone' purpose') :=
  (keepsEntry_tryRedisSet (keepsEntry_redisDel otpAttemptsKey_ne)).bind
    fun _ => keepsEntry_perform

theorem keepsEntry_countAttempt {ttlSeconds : ℕ} :
    KeepsEntry key entry (countAttempt phone' purpose' ttlSeconds) := by
  refine keepsEntry_statement fun i d w outcome t haction => ?_
  obtain ⟨-, haction⟩ := Option.ite_none_right_eq_some.mp haction
  obtain ⟨-, rfl⟩ := Prod.mk.inj (Option.some.inj haction)
  rfl

theorem keepsPair_incrementOtpAttempts {maxAttempts ttlSeconds : ℕ} :
    KeepsPair phone purpose entry
      (incrementOtpAttempts app phone' purpose' maxAttempts ttlSeconds) := by
  refine (keepsEntry_tryRedisSet (keepsEntry_redisGet.bind fun _ =>
    keepsEntry_redisSet otpAttemptsKey_ne)).bind fun _ => ?_
  refine keepsEntry_countAttempt.bind fun attempts => ?_
  split
  · exact keepsPair_clearOtpAttempts.bind fun _ => keepsEntry_pure _
  · exact keepsEntry_pure _

theorem keepsPair_saveRefreshTokenJti {jti : String} {userId ttlSeconds : ℕ}
    {queryRunner : Option Client} :
    KeepsPair phone purpose entry
      (saveRefreshTokenJti app jti userId ttlSeconds queryRunner) :=
  (keepsEntry_tryRedisSet (keepsEntry_redisSet refreshJtiKey_ne)).bind
    fun _ => keepsEntry_perform

theorem keepsPair_consumeRefreshTokenJti {jti : String} :
    KeepsPair phone purpose entry (consumeRefreshTokenJti app jti) :=
  (keepsEntry_tryRedisSet (keepsEntry_redisDel refreshJtiKey_ne)).bind
    fun _ => keepsEntry_execute

theorem keepsPair_revokeRefreshTokenJti {jti : String} :
    KeepsPair phone purpose entry (revokeRefreshTokenJti app jti) :=
  (keepsEntry_tryRedisSet (keepsEntry_redisDel refreshJtiKey_ne)).bind
    fun _ => keepsEntry_perform

theorem keepsEntry_getOtpTransactionReqId :
    KeepsEntry key entry (getOtpTransactionReqId app phone' purpose') := by
  unfold getOtpTransactionReqId
  split
  · exact keepsEntry_redisGet.tryCatch fun _ => keepsEntry_pure none
  · exact keepsEntry_pure none

theorem keepsPair_clearOtpTransactionReqId
    (hne : ¬ (phone' = phone ∧ purpose' = purpose)) :
    KeepsPair phone purpose entry
      (clearOtpTransactionReqId app phone' purpose') :=
  keepsEntry_tryRedisSet (keepsEntry_redisDel fun hkeys =>
    hne (otpTransactionKey_injective hkeys))

theorem keepsPair_saveOtpTransactionReqId {transactionReqID : String}
    {ttlSeconds : ℕ} (hne : ¬ (phone' = phone ∧ purpose' = purpose)) :
    KeepsPair phone purpose entry (saveOtpTransactionReqId app phone' purpose'
      transactionReqID ttlSeconds) :=
  keepsEntry_tryRedisSet (keepsEntry_redisSet fun hkeys =>
    hne (otpTransactionKey_injective hkeys))

theorem keepsEntry_selectNewestOtp :
    KeepsEntry key entry (selectNewestOtp phone' purpose') := by
  refine keepsEntry_statement fun i d w outcome t haction => ?_
  split at haction
  · obtain ⟨-, rfl⟩ := Prod.mk.inj (Option.some.inj haction)
    rfl
  · obtain ⟨-, rfl⟩ := Prod.mk.inj (Option.some.inj haction)
    rfl

theorem keepsEntry_currentTime : KeepsEntry key entry currentTime := by
  refine ⟨fun i d w value t hheld haction => ?_, fun _ => trivial⟩
  obtain ⟨-, rfl⟩ := Prod.mk.inj (Option.some.inj haction)
  exact hheld

theorem keepsEntry_akedlySend {payload : StartVerificationPayload} :
    KeepsEntry key entry (akedlySend payload) := by
  refine keepsEntry_attempt fun i d w outcome t haction => ?_
  split at haction
  · exact held_of_same haction
  · exact held_of_same haction
  split at haction
  · exact held_of_same haction
  split at haction
  · contradiction
  · obtain ⟨-, rfl⟩ := Prod.mk.inj (Option.some.inj haction)
    rfl

theorem keepsEntry_akedlyVerify {transactionReqID code : String} :
    KeepsEntry key entry (akedlyVerify transactionReqID code) := by
  refine keepsEntry_attempt fun i d w outcome t haction => ?_
  split at haction
  · exact held_of_same haction
  · exact held_of_same haction
  split at haction
  · obtain ⟨-, rfl⟩ := Prod.mk.inj (Option.some.inj haction)
    rfl
  · exact held_of_same haction

theorem keepsEntry_startVerification {payload : StartVerificationPayload} :
    KeepsEntry key entry (startVerification app payload) := by
  unfold startVerification
  split
  · unfold akedlyStartVerification
    split
    · exact keepsEntry_throw _
    · exact keepsEntry_akedlySend
  · exact keepsEntry_draw.bind fun _ => keepsEntry_draw.bind fun _ =>
      keepsEntry_execute.bind fun _ => keepsEntry_pure _

theorem keepsPair_checkVerification {payload : CheckVerificationPayload} :
    KeepsPair phone purpose entry (checkVerification app payload) := by
  unfold checkVerification
  split
  · unfold akedlyCheckVerification
    split
    · exact keepsEntry_throw _
    split
    · exact keepsEntry_throw _
    · exact keepsEntry_akedlyVerify
  · refine keepsEntry_selectNewestOtp.bind fun otpQuery => ?_
    split
    · exact keepsEntry_throw _
    split
    · exact keepsEntry_throw _
    refine keepsEntry_currentTime.bind fun now => ?_
    split
    · exact keepsEntry_throw _
    split
    · refine keepsPair_incrementOtpAttempts.bind fun result => ?_
      split
      · exact keepsEntry_throw _
      · exact keepsEntry_throw _
    · exact keepsPair_clearOtpAttempts.bind fun _ => keepsEntry_pure _

/-! ## Tokens and accounts -/

theorem keepsEntry_verifyAsync {token : Token} {secret : String} :
    KeepsEntry key entry (verifyAsync token secret) := by
  refine keepsEntry_attempt fun i d w outcome t haction => ?_
  split at haction
  · obtain ⟨-, rfl⟩ := Prod.mk.inj (Option.some.inj haction)
    rfl
  · exact held_of_same haction

theorem keepsPair_generateTokens {userId tokenVersion : ℕ} {phone' : String}
    {isAdmin : Bool} {queryRunner : Option Client} :
    KeepsPair phone purpose entry
      (generateTokens app userId phone' isAdmin tokenVersion queryRunner) := by
  refine keepsEntry_draw.bind fun jti => ?_
  refine KeepsEntry.bind ⟨fun i d w tokens t hheld haction => ?_,
    fun _ => trivial⟩ fun tokens => ?_
  · obtain ⟨-, rfl⟩ := Prod.mk.inj (Option.some.inj haction)
    exact hheld
  · exact keepsPair_saveRefreshTokenJti.bind fun _ => keepsEntry_pure _

theorem keepsEntry_insertUser {client : Client} {name passwordHash : String}
    {isAdmin : Bool} :
    KeepsEntry key entry
      (insertUser client name phone' passwordHash isAdmin) := by
  refine keepsEntry_statement fun i d w outcome t haction => ?_
  split at haction
  · obtain ⟨-, rfl⟩ := Prod.mk.inj (Option.some.inj haction)
    rfl
  · obtain ⟨-, haction⟩ := Option.ite_none_right_eq_some.mp haction
    obtain ⟨-, rfl⟩ := Prod.mk.inj (Option.some.inj haction)
    rfl

theorem keepsEntry_hasPendingRegistration :
    KeepsEntry key entry (hasPendingRegistration phone') := by
  refine keepsEntry_statement fun i d w outcome t haction => ?_
  obtain ⟨-, rfl⟩ := Prod.mk.inj (Option.some.inj haction)
  rfl

theorem keepsEntry_selectPendingForUpdate {client : Client} :
    KeepsEntry key entry (selectPendingForUpdate client phone') := by
  refine keepsEntry_statement fun i d w outcome t haction => ?_
  split at haction
  · obtain ⟨-, rfl⟩ := Prod.mk.inj (Option.some.inj haction)
    rfl
  · obtain ⟨-, haction⟩ := Option.ite_none_right_eq_some.mp haction
    obtain ⟨-, rfl⟩ := Prod.mk.inj (Option.some.inj haction)
    rfl

theorem keepsEntry_markOtpUsed {client : Client}
    {result : CheckVerificationResult} :
    KeepsEntry key entry (markOtpUsed client result) := by
  unfold markOtpUsed
  split
  · exact keepsEntry_pure ()
  · exact keepsEntry_perform

theorem keepsEntry_resolveTransactionReqID {fromBody : Option String} :
    KeepsEntry key entry
      (resolveTransactionReqID app fromBody phone' purpose') := by
  unfold resolveTransactionReqID
  split
  · exact keepsEntry_pure _
  · exact keepsEntry_getOtpTransactionReqId

theorem keepsEntry_requestRegistrationOtp {dto : RequestRegistrationOtpDto} :
    KeepsEntry key entry (requestRegistrationOtp app dto) := by
  refine keepsEntry_select.bind fun existingUser => ?_
  split
  · exact keepsEntry_throw _
  refine keepsEntry_draw.bind fun passwordHash =>
    keepsEntry_execute.bind fun pendingId => ?_
  split
  · exact keepsEntry_pure _
  refine (keepsEntry_startVerification.bind fun _ => keepsEntry_pure _).tryCatch
    fun error => KeepsEntry.bind (KeepsEntry.tryCatch ?_ fun _ =>
      keepsEntry_pure ()) fun _ => keepsEntry_throw error
  unfold deletePendingById
  split
  · exact keepsEntry_throw _
  · exact keepsEntry_perform

theorem keepsEntry_resendRegistrationOtp :
    KeepsEntry key entry (resendRegistrationOtp app phone') := by
  refine keepsEntry_hasPendingRegistration.bind fun pending => ?_
  split
  · exact keepsEntry_throw _
  split
  · exact keepsEntry_pure _
  · exact keepsEntry_startVerification.bind fun _ => keepsEntry_pure _

theorem keepsPair_verifyRegistrationOtp {dto : VerifyRegistrationOtpDto}
    (hother : ¬ (dto.phone = phone ∧ .registration = purpose)) :
    KeepsPair phone purpose entry (verifyRegistrationOtp app dto) := by
  refine keepsEntry_resolveTransactionReqID.bind fun transactionReqID =>
    keepsPair_checkVerification.bind fun result =>
      keepsEntry_withTransaction fun client => ?_
  refine keepsEntry_selectPendingForUpdate.bind fun pendingQuery => ?_
  split
  · exact keepsEntry_throw _
  · refine KeepsEntry.bind (keepsEntry_insertUser.tryCatch fun _ =>
      keepsEntry_throw _) fun createdUser => ?_
    exact keepsEntry_markOtpUsed.bind fun _ =>
      (keepsPair_clearOtpTransactionReqId hother).bind fun _ =>
        keepsEntry_perform.bind fun _ =>
          keepsPair_generateTokens.bind fun _ => keepsEntry_pure _

theorem keepsPair_login {dto : LoginDto} :
    KeepsPair phone purpose entry (login app dto) := by
  refine keepsEntry_selectUser.bind fun query => ?_
  split
  · exact keepsEntry_throw _
  split
  · exact keepsEntry_throw _
  split
  · exact keepsEntry_throw _
  · exact keepsPair_generateTokens.bind fun _ => keepsEntry_pure _

theorem keepsEntry_requestPasswordResetOtp :
    KeepsEntry key entry (requestPasswordResetOtp app phone') := by
  refine keepsEntry_select.bind fun userQuery => ?_
  split
  · exact keepsEntry_pure _
  split
  · exact keepsEntry_pure _
  · exact keepsEntry_startVerification.bind fun _ => keepsEntry_pure _

theorem keepsPair_resetPassword {dto : ResetPasswordDto}
    (hother : ¬ (dto.phone = phone ∧ .passwordReset = purpose)) :
    KeepsPair phone purpose entry (resetPassword app dto) := by
  unfold resetPassword
  split
  · exact keepsEntry_throw _
  refine keepsEntry_resolveTransactionReqID.bind fun transactionReqID =>
    keepsPair_checkVerification.bind fun result =>
      keepsEntry_withTransaction fun client => ?_
  refine keepsEntry_selectUser.bind fun account => ?_
  split
  · exact keepsEntry_throw _
  split
  · exact keepsEntry_throw _
  refine keepsEntry_draw.bind fun passwordHash =>
    keepsEntry_execute.bind fun updatedUser => ?_
  split
  · exact keepsEntry_throw _
  · exact keepsEntry_markOtpUsed.bind fun _ =>
      (keepsPair_clearOtpTransactionReqId hother).bind fun _ =>
        keepsPair_generateTokens.bind fun _ => keepsEntry_pure _

theorem keepsPair_refresh {token : Token} :
    KeepsPair phone purpose entry (refresh app token) := by
  refine KeepsEntry.bind (keepsEntry_verifyAsync.tryCatch fun _ =>
    keepsEntry_throw _) fun _ => ?_
  split
  · exact keepsEntry_throw _
  split
  · exact keepsEntry_throw _
  refine keepsPair_consumeRefreshTokenJti.bind fun storedUserId => ?_
  split
  · exact keepsEntry_throw _
  refine keepsEntry_selectUser.bind fun query => ?_
  split
  · exact keepsEntry_throw _
  split
  · exact keepsEntry_throw _
  split
  · exact keepsEntry_throw _
  · exact keepsPair_generateTokens.bind fun _ => keepsEntry_pure _

theorem keepsPair_logout {token : Token} :
    KeepsPair phone purpose entry (logout app token) := by
  refine KeepsEntry.bind (KeepsEntry.tryCatch (keepsEntry_verifyAsync.bind
    fun _ => ?_) fun _ => keepsEntry_pure ()) fun _ => keepsEntry_pure _
  split
  · exact keepsEntry_pure ()
  split
  · exact keepsEntry_pure ()
  · exact keepsPair_revokeRefreshTokenJti

theorem keepsPair_sendAkedlyOtp {dto : AkedlySendOtpDto}
    (hother : ¬ (dto.phoneNumber = phone ∧ dto.purpose = purpose)) :
    KeepsPair phone purpose entry (sendAkedlyOtp app dto) := by
  have hstart : KeepsPair phone purpose entry
      (startAkedlyVerification app dto) := by
    refine keepsEntry_startVerification.bind fun result => ?_
    refine KeepsEntry.bind ?_ fun _ => keepsEntry_pure _
    unfold rememberTransaction
    split
    · exact keepsEntry_pure ()
    split
    · exact keepsEntry_pure ()
    · exact keepsPair_saveOtpTransactionReqId hother
  unfold sendAkedlyOtp
  split
  · exact keepsEntry_throw _
  split
  · refine keepsEntry_hasPendingRegistration.bind fun pending => ?_
    split
    · exact keepsEntry_throw _
    · exact hstart
  · refine keepsEntry_select.bind fun userQuery => ?_
    split
    · exact keepsEntry_pure _
    · exact hstart

/-! ## Guards, moderation and chat -/

theorem keepsEntry_jwtAuthGuard {token : Token} :
    KeepsEntry key entry (jwtAuthGuard app token) := by
  refine keepsEntry_verifyAsync.bind fun _ => ?_
  unfold validate
  split
  · exact keepsEntry_throw _
  refine keepsEntry_selectUser.bind fun user => ?_
  split
  · exact keepsEntry_throw _
  split
  · exact keepsEntry_throw _
  · exact keepsEntry_pure _

theorem keepsEntry_adminGuard {token : Token} :
    KeepsEntry key entry (adminGuard app token) := by
  refine keepsEntry_jwtAuthGuard.bind fun user =>
    keepsEntry_select.bind fun isAdmin => ?_
  split
  · exact keepsEntry_pure _
  · exact keepsEntry_throw _

theorem keepsEntry_changePassword {user : AuthUser} {dto : ChangePasswordDto} :
    KeepsEntry key entry (changePassword app user dto) := by
  refine keepsEntry_select.bind fun query => ?_
  split
  · exact keepsEntry_throw _
  split
  · exact keepsEntry_throw _
  · exact keepsEntry_draw.bind fun _ => keepsEntry_perform.bind fun _ =>
      keepsEntry_pure _

theorem keepsEntry_deleteMe {user : AuthUser} :
    KeepsEntry key entry (deleteMe user) := by
  refine KeepsEntry.bind keepsEntry_execute fun deleted => ?_
  split
  · exact keepsEntry_throw _
  · exact keepsEntry_pure _

theorem keepsEntry_logAdminAction {actorId : ℕ} {action targetType : String}
    {targetId : Option ℕ} {payload : AuditPayload} :
    KeepsEntry key entry
      (logAdminAction actorId action targetType targetId payload) :=
  KeepsEntry.tryCatch keepsEntry_execute fun _ => keepsEntry_pure ()

theorem keepsEntry_promotionResponse {row : Option UserRow} :
    KeepsEntry key entry (promotionResponse row) := by
  unfold promotionResponse
  split
  · exact keepsEntry_throw _
  · exact keepsEntry_pure _

theorem keepsEntry_promoteAdmin {admin : AuthUser} {userId : ℕ} :
    KeepsEntry key entry (promoteAdmin admin userId) := by
  refine keepsEntry_select.bind fun before => ?_
  split
  · exact keepsEntry_throw _
  split
  · exact keepsEntry_throw _
  · exact KeepsEntry.bind keepsEntry_execute fun _ =>
      keepsEntry_logAdminAction.bind fun _ => keepsEntry_promotionResponse

theorem keepsEntry_demoteAdmin {admin : AuthUser} {userId : ℕ} :
    KeepsEntry key entry (demoteAdmin admin userId) := by
  unfold demoteAdmin
  split
  · exact keepsEntry_throw _
  refine keepsEntry_select.bind fun before => ?_
  split
  · exact keepsEntry_throw _
  split
  · exact keepsEntry_throw _
  · exact KeepsEntry.bind keepsEntry_execute fun _ =>
      keepsEntry_logAdminAction.bind fun _ => keepsEntry_promotionResponse

theorem userStatusKey_ne {userId : ℕ} :
    userStatusKey userId ≠ otpTransactionKey phone purpose := by
  intro hkeys
  have hlists := congrArg String.toList hkeys
  cases purpose <;>
    simp [otpTransactionKey, userStatusKey, OtpPurpose.text] at hlists

theorem keepsPair_updateUserStatus {admin : AuthUser} {userId : ℕ}
    {status : UserStatus} :
    KeepsPair phone purpose entry (updateUserStatus app admin userId status) := by
  refine KeepsEntry.bind keepsEntry_execute fun query => ?_
  split
  · exact keepsEntry_throw _
  · exact keepsEntry_logAdminAction.bind fun _ =>
      (keepsEntry_redisDel userStatusKey_ne).bind fun _ => keepsEntry_pure _

theorem keepsPair_deleteUser {admin : AuthUser} {userId : ℕ} :
    KeepsPair phone purpose entry (deleteUser app admin userId) := by
  refine KeepsEntry.bind keepsEntry_execute fun deleted => ?_
  split
  · exact keepsEntry_throw _
  · exact keepsEntry_logAdminAction.bind fun _ =>
      (keepsEntry_redisDel userStatusKey_ne).bind fun _ => keepsEntry_pure _

theorem keepsEntry_seedAdmin {password : String} :
    KeepsEntry key entry (seedAdmin app phone' password) := by
  refine keepsEntry_draw.bind fun passwordHash =>
    keepsEntry_withTransaction fun client => ?_
  refine keepsEntry_select.bind fun existing => ?_
  split
  on_goal 2 => refine keepsEntry_insertUser.bind fun _ => ?_
  all_goals
    refine keepsEntry_execute.bind fun updated => ?_
    split
    · exact keepsEntry_throw _
    · exact keepsEntry_pure _

theorem keepsEntry_handleConnection {token : Token} :
    KeepsEntry key entry (handleConnection app token) := by
  refine keepsEntry_verifyAsync.bind fun _ => ?_
  split
  · exact keepsEntry_throw _
  · refine ⟨fun i d w value t hheld haction => ?_, fun _ => trivial⟩
    obtain ⟨-, rfl⟩ := Prod.mk.inj (Option.some.inj haction)
    exact hheld

theorem keepsEntry_sendMessage {socket conversationId : ℕ} {text : String} :
    KeepsEntry key entry (sendMessage socket conversationId text) := by
  refine KeepsEntry.bind (keepsEntry_attempt fun i d w outcome t haction => ?_)
    fun userId => KeepsEntry.bind ?_ fun _ => KeepsEntry.bind
      (keepsEntry_statement fun i d w outcome t haction => ?_) fun row =>
        keepsEntry_perform.bind fun _ => keepsEntry_pure _
  · split at haction
    · exact held_of_same haction
    · obtain ⟨-, rfl⟩ := Prod.mk.inj (Option.some.inj haction)
      rfl
  · refine keepsEntry_select.bind fun query => ?_
    split
    · exact keepsEntry_throw _
    split
    · exact keepsEntry_throw _
    split
    · exact keepsEntry_throw _
    refine keepsEntry_select.bind fun blocked => ?_
    split
    · exact keepsEntry_throw _
    · exact keepsEntry_pure _
  · split at haction
    · obtain ⟨-, rfl⟩ := Prod.mk.inj (Option.some.inj haction)
      rfl
    split at haction
    · obtain ⟨-, rfl⟩ := Prod.mk.inj (Option.some.inj haction)
      rfl
    · obtain ⟨-, rfl⟩ := Prod.mk.inj (Option.some.inj haction)
      rfl

/-! ## Requests -/

/-- The request is for this phone and purpose. -/
def Request.concerns (phone : String) (purpose : OtpPurpose) : Request → Bool
  | .sendAkedlyOtp dto => dto.phoneNumber = phone && dto.purpose = purpose
  | .verifyRegistrationOtp dto => dto.phone = phone && .registration = purpose
  | .resetPassword dto => dto.phone = phone && .passwordReset = purpose
  | _ => false

/-- A request for another phone or purpose leaves the pair's transaction as it
is. -/
theorem Request.keepsPair {request : Request}
    (hother : request.concerns phone purpose = false) :
    KeepsPair phone purpose entry (request.handler app) := by
  cases request with
  | provider call =>
      cases call with
      | startVerification payload =>
          exact keepsEntry_startVerification.bind fun _ => keepsEntry_pure _
      | checkVerification payload =>
          exact keepsPair_checkVerification.bind fun _ => keepsEntry_pure _
      | clearOtpAttempts phone' purpose' =>
          exact keepsPair_clearOtpAttempts.bind fun _ => keepsEntry_pure _
  | requestRegistrationOtp dto => exact keepsEntry_requestRegistrationOtp
  | resendRegistrationOtp phone' => exact keepsEntry_resendRegistrationOtp
  | verifyRegistrationOtp dto =>
      exact keepsPair_verifyRegistrationOtp (by simpa [concerns] using hother)
  | login dto => exact keepsPair_login
  | requestPasswordResetOtp phone' => exact keepsEntry_requestPasswordResetOtp
  | resetPassword dto =>
      exact keepsPair_resetPassword (by simpa [concerns] using hother)
  | refresh token => exact keepsPair_refresh
  | logout accessToken token =>
      exact keepsEntry_jwtAuthGuard.bind fun _ => keepsPair_logout
  | sendAkedlyOtp dto =>
      exact keepsPair_sendAkedlyOtp (by simpa [concerns] using hother)
  | authenticate token =>
      exact keepsEntry_jwtAuthGuard.bind fun _ => keepsEntry_pure _
  | changePassword token dto =>
      exact keepsEntry_jwtAuthGuard.bind fun _ => keepsEntry_changePassword
  | deleteMe token =>
      exact keepsEntry_jwtAuthGuard.bind fun _ => keepsEntry_deleteMe
  | promoteAdmin token userId =>
      exact keepsEntry_adminGuard.bind fun _ => keepsEntry_promoteAdmin
  | demoteAdmin token userId =>
      exact keepsEntry_adminGuard.bind fun _ => keepsEntry_demoteAdmin
  | updateUserStatus token userId status =>
      exact keepsEntry_adminGuard.bind fun _ => keepsPair_updateUserStatus
  | deleteUser token userId =>
      exact keepsEntry_adminGuard.bind fun _ => keepsPair_deleteUser
  | seedAdmin phone' password => exact keepsEntry_seedAdmin
  | purgeExpiredOtps =>
      exact keepsEntry_perform.bind fun _ => keepsEntry_perform.bind fun _ =>
        keepsEntry_pure _
  | handleConnection token => exact keepsEntry_handleConnection
  | sendMessage socket conversationId text => exact keepsEntry_sendMessage

theorem World.held_surroundings {w : World} {event : Surroundings} :
    (w.surroundings event).held key = w.held key := by
  cases event <;> rfl

end MarketPlace
