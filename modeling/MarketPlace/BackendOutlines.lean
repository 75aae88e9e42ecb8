import MarketPlace.HandlerOutlines

/-!
# Outlines of the account, admin and chat handlers, and of all requests

The last outlines, and from them the theorem about the whole backend: in every
reachable pool the world is traced and every finished request has left what
its outcome stands for.
-/

namespace MarketPlace

open EventLog Interleaving

variable {app : Deployment} {i : ℕ} {w : World}

/-! ## Accounts -/

/-- What a successful change of the password has left behind. -/
def PasswordChanged (i userId : ℕ) (history : List Event) : Prop :=
  ∃ at_ hash now,
    .wrote i at_ (.updatePassword userId hash true now) ∈ history

theorem changePassword_meets {user : AuthUser} {dto : ChangePasswordDto}
    (hread : ∃ row, .userRead i row ∈ w.history ∧ row.id = user.sub) :
    (changePassword app user dto).Meets (discipline app anyWrite) i
      (fun _ t => PasswordChanged i user.sub t.history) anyFailure w := by
  refine Program.Meets.bind (select_meets (fun _ => trivial)
    fun passwordHash t ht => ?_)
  split
  · exact Program.Meets.failed fun _ _ _ => trivial
  split
  · exact Program.Meets.failed fun _ _ _ => trivial
  · refine Program.Meets.bind (hashPassword_meets fun hash u hu => ?_)
    obtain ⟨row, hread, hid⟩ := hread
    refine Program.Meets.bind (perform_meets (fun _ => trivial)
      (fun _ => rfl)
      (fun v hv => ⟨row, hv.mem (hu.mem (ht.mem hread)), hid⟩)
      (fun _ => trivial)
      fun past at_ v hv hwrote _ => Program.Meets.done fun x hx _ => ?_)
    exact ⟨at_, hash, at_, (hwrote.later hx.history).mem⟩

theorem softDelete_meets {userId : ℕ} {post : Bool → World → Prop}
    (hpost : ∀ value t, post value t) :
    (softDelete userId).Meets (discipline app anyWrite) i post anyFailure w :=
  execute_meets (fun _ _ => trivial) (fun _ _ => rfl) (fun _ _ => trivial)
    (fun _ => trivial) fun value _ _ _ t _ _ _ => hpost value t

theorem deleteMe_meets {user : AuthUser} :
    (deleteMe user).Meets (discipline app anyWrite) i (fun _ _ => True)
      anyFailure w := by
  refine Program.Meets.bind (softDelete_meets fun deleted t => ?_)
  split
  · exact Program.Meets.failed fun _ _ _ => trivial
  · exact Program.Meets.done fun _ _ _ => trivial

theorem logAdminAction_meets
    {actorId : ℕ} {action targetType : String} {targetId : Option ℕ}
    {payload : AuditPayload} {post : Unit → World → Prop}
    (hpost : ∀ t, post () t) :
    (logAdminAction actorId action targetType targetId payload).Meets
      (discipline app anyWrite) i post anyFailure w :=
  Program.Meets.recover (execute_meets (fun _ _ => trivial) (fun _ _ => rfl)
    (fun _ _ => trivial)
    (fun _ => Program.Meets.done fun t _ _ => hpost t)
    fun _ _ _ _ t _ _ _ => hpost t)

theorem updateLiveUser_meets {userId : ℕ} {write : ℕ → Write}
    {post : Option UserRow → World → Prop}
    (halone : ∀ now, (write now).onlyInTransaction = false)
    (hoffered : ∀ now u, (write now).Offered app i now u)
    (hpost : ∀ value t, post value t) :
    (updateLiveUser userId write).Meets (discipline app anyWrite) i post
      anyFailure w :=
  execute_meets (fun _ _ => trivial) (fun now _ => halone now)
    (fun u _ => hoffered u.now u) (fun _ => trivial)
    fun value _ _ _ t _ _ _ => hpost value t

theorem promotionResponse_meets {row : Option UserRow} :
    (promotionResponse row).Meets (discipline app anyWrite) i
      (fun _ _ => True) anyFailure w := by
  cases row with
  | none => exact Program.Meets.failed fun _ _ _ => trivial
  | some row => exact Program.Meets.done fun _ _ _ => trivial

theorem promoteAdmin_meets {admin : AuthUser} {userId : ℕ} :
    (promoteAdmin admin userId).Meets (discipline app anyWrite) i
      (fun _ _ => True) anyFailure w := by
  refine Program.Meets.bind (select_meets (fun _ => trivial)
    fun before t ht => ?_)
  split
  · exact Program.Meets.failed fun _ _ _ => trivial
  split
  · exact Program.Meets.failed fun _ _ _ => trivial
  · refine Program.Meets.bind (updateLiveUser_meets (fun _ => rfl)
      (fun _ _ => trivial) fun row u => ?_)
    exact Program.Meets.bind (logAdminAction_meets
      fun _ => promotionResponse_meets)

theorem demoteAdmin_meets {admin : AuthUser} {userId : ℕ} :
    (demoteAdmin admin userId).Meets (discipline app anyWrite) i
      (fun _ _ => True) anyFailure w := by
  unfold demoteAdmin
  split
  · exact Program.Meets.failed fun _ _ _ => trivial
  refine Program.Meets.bind (select_meets (fun _ => trivial)
    fun before t ht => ?_)
  split
  · exact Program.Meets.failed fun _ _ _ => trivial
  split
  · exact Program.Meets.failed fun _ _ _ => trivial
  · refine Program.Meets.bind (updateLiveUser_meets (fun _ => rfl)
      (fun _ _ => trivial) fun row u => ?_)
    exact Program.Meets.bind (logAdminAction_meets
      fun _ => promotionResponse_meets)

theorem updateUserStatus_meets
    {admin : AuthUser} {userId : ℕ} {status : UserStatus} :
    (updateUserStatus app admin userId status).Meets
      (discipline app anyWrite) i (fun _ _ => True) anyFailure w := by
  refine Program.Meets.bind (updateLiveUser_meets (fun _ => rfl)
    (fun _ _ => trivial) fun row u => ?_)
  split
  · exact Program.Meets.failed fun _ _ _ => trivial
  · refine Program.Meets.bind (logAdminAction_meets fun v => ?_)
    exact Program.Meets.bind (redisDel_meets (fun _ _ => trivial)
      fun _ _ => Program.Meets.done fun _ _ _ => trivial)

theorem deleteUser_meets {admin : AuthUser} {userId : ℕ} :
    (deleteUser app admin userId).Meets (discipline app anyWrite) i
      (fun _ _ => True) anyFailure w := by
  refine Program.Meets.bind (softDelete_meets fun deleted t => ?_)
  split
  · exact Program.Meets.failed fun _ _ _ => trivial
  · refine Program.Meets.bind (logAdminAction_meets fun v => ?_)
    exact Program.Meets.bind (redisDel_meets (fun _ _ => trivial)
      fun _ _ => Program.Meets.done fun _ _ _ => trivial)

/-! ## The seed script and the cleanup task -/

theorem seedAdminUpdate_meets {phone passwordHash : String} {client : Client}
    {next : Option (ℕ × String) → Handler Response}
    (hnext : ∀ updated t, (next updated).Meets (discipline app anyWrite) i
      (fun _ _ => True) anyFailure t) :
    (execute (some client) (fun now _ => .seedAdmin phone passwordHash now)
        (fun _ after =>
          (after.userByPhone phone).map fun row => (row.id, row.phone)) >>=
      next).Meets (discipline app anyWrite) i (fun _ _ => True) anyFailure w :=
  Program.Meets.bind (executeIn_meets (fun _ => True) (fun _ _ => trivial)
    (fun _ _ => rfl) (fun _ _ => trivial) (fun _ _ => trivial)
    (fun _ => trivial) fun updated _ t _ _ => hnext updated t)

theorem seedAdminUser_meets {phone passwordHash : String} {client : Client} :
    (seedAdminUser phone passwordHash client).Meets (discipline app anyWrite)
      i (fun _ _ => True) anyFailure w := by
  refine Program.Meets.bind (select_meets (fun _ => trivial)
    fun existing t ht => ?_)
  split
  · refine seedAdminUpdate_meets fun updated u => ?_
    split
    · exact Program.Meets.failed fun _ _ _ => trivial
    · exact Program.Meets.done fun _ _ _ => trivial
  · refine Program.Meets.bind (insertUser_meets (fun _ => trivial)
      (fun _ => trivial) (fun _ => trivial)
      fun _ _ u _ _ _ => seedAdminUpdate_meets fun updated v => ?_)
    split
    · exact Program.Meets.failed fun _ _ _ => trivial
    · exact Program.Meets.done fun _ _ _ => trivial

theorem seedAdmin_meets {phone password : String} :
    (seedAdmin app phone password).Meets (discipline app anyWrite) i
      (fun _ _ => True) anyFailure w :=
  Program.Meets.bind (hashPassword_meets fun _ _ _ =>
    withTransaction_meets fun _ _ _ =>
      seedAdminUser_meets.mono (fun _ _ _ _ _ => trivial) fun _ _ h => h)

theorem purgeExpiredOtps_meets :
    purgeExpiredOtps.Meets (discipline app anyWrite) i (fun _ _ => True)
      anyFailure w := by
  refine Program.Meets.bind (perform_meets (fun _ => trivial) (fun _ => rfl)
    (fun _ _ => rfl) (fun _ => trivial) fun _ _ t _ _ _ => ?_)
  exact Program.Meets.bind (perform_meets (fun _ => trivial) (fun _ => rfl)
    (fun _ _ => trivial) (fun _ => trivial)
    fun _ _ _ _ _ _ => Program.Meets.done fun _ _ _ => trivial)

/-! ## The chat gateway -/

theorem handleConnection_meets {token : Token} :
    (handleConnection app token).Meets (discipline app anyWrite) i
      (fun _ _ => True) anyFailure w := by
  refine Program.Meets.bind (verifyAsync_meets (fun _ _ _ _ _ => trivial)
    fun at_ past t ht hsigned hverified _ => ?_)
  split
  · exact Program.Meets.failed fun _ _ _ => trivial
  · intro u hu htraced d response v hrun
    simp only [Option.some.injEq, Prod.mk.injEq] at hrun
    obtain ⟨rfl, rfl⟩ := hrun
    exact ⟨.single (.socketOpened token.sub
      ⟨at_, token, (hverified.later hu.history).mem, rfl, hsigned⟩),
      Program.Meets.done fun _ _ _ => trivial⟩

theorem socketUser_meets {socket : ℕ} {post : ℕ → World → Prop}
    (hpost : ∀ userId t, Later app i w t →
      .socketUsed i socket userId ∈ t.history → post userId t) :
    (socketUser socket).Meets (discipline app anyWrite) i post anyFailure
      w := by
  refine attempt_meets fun u hu d outcome v hrun => ?_
  cases hfound : u.sockets.find? fun other => other.id = socket with
  | none =>
      simp only [hfound, Option.some.injEq, Prod.mk.injEq] at hrun
      obtain ⟨rfl, rfl⟩ := hrun
      exact ⟨.refl, fun _ _ => trivial⟩
  | some other =>
      simp only [hfound, Option.some.injEq, Prod.mk.injEq] at hrun
      obtain ⟨rfl, rfl⟩ := hrun
      have hid : other.id = socket := by simpa using List.find?_some hfound
      have hopen : ⟨socket, other.userId⟩ ∈ u.sockets :=
        hid ▸ List.mem_of_find?_eq_some hfound
      refine ⟨recorded_action ⟨rfl, hopen⟩, fun t ht => ?_⟩
      obtain ⟨hlater, past, hused, -⟩ := happened_of_record hu.toRely ht
      exact hpost _ t hlater hused.mem

theorem assertConversationParticipant_meets {conversationId userId : ℕ}
    {post : Unit → World → Prop}
    (hpost : ∀ t, Later app i w t → post () t) :
    (assertConversationParticipant conversationId userId).Meets
      (discipline app anyWrite) i post anyFailure w := by
  refine Program.Meets.bind (select_meets (fun _ => trivial)
    fun conversation t ht => ?_)
  split
  · exact Program.Meets.failed fun _ _ _ => trivial
  split
  · exact Program.Meets.failed fun _ _ _ => trivial
  split
  · exact Program.Meets.failed fun _ _ _ => trivial
  · refine Program.Meets.bind (select_meets (fun _ => trivial)
      fun blocked u hu => ?_)
    split
    · exact Program.Meets.failed fun _ _ _ => trivial
    · exact Program.Meets.done fun v hv htraced =>
        hpost v (Later.trans (ht.toRely.trans hu.toRely) ⟨hv, htraced⟩)

theorem insertMessage_meets {conversationId senderId socket : ℕ}
    {text : String} {post : MessageRow → World → Prop}
    (hused : .socketUsed i socket senderId ∈ w.history)
    (hpost : ∀ row t, post row t) :
    (insertMessage conversationId senderId text).Meets
      (discipline app anyWrite) i post anyFailure w := by
  refine statement_meets (fun _ => trivial) fun u hu d outcome v hrun => ?_
  split at hrun
  · simp only [Option.some.injEq, Prod.mk.injEq] at hrun
    obtain ⟨rfl, rfl⟩ := hrun
    exact ⟨.refl, fun _ _ => trivial⟩
  split at hrun
  · simp only [Option.some.injEq, Prod.mk.injEq] at hrun
    obtain ⟨rfl, rfl⟩ := hrun
    exact ⟨.refl, fun _ _ => trivial⟩
  · simp only [Option.some.injEq, Prod.mk.injEq] at hrun
    obtain ⟨rfl, rfl⟩ := hrun
    exact ⟨.single (.autocommitted _ trivial rfl rfl
      ⟨socket, hu.mem hused⟩), fun t _ => hpost _ t⟩

theorem sendMessage_meets {socket conversationId : ℕ} {text : String} :
    (sendMessage socket conversationId text).Meets (discipline app anyWrite) i
      (fun _ _ => True) anyFailure w := by
  refine Program.Meets.bind (socketUser_meets fun userId t _ hused => ?_)
  refine Program.Meets.bind (assertConversationParticipant_meets
    fun u hu => ?_)
  refine Program.Meets.bind (insertMessage_meets (hu.mem hused)
    fun row v => ?_)
  exact Program.Meets.bind (perform_meets (fun _ => trivial) (fun _ => rfl)
    (fun _ _ => trivial) (fun _ => trivial)
    fun _ _ _ _ _ _ => Program.Meets.done fun _ _ _ => trivial)

/-! ## The provider's own calls -/

def ProviderCall.Ensures (app : Deployment) (i : ℕ) (response : Response)
    (w : World) : ProviderCall → Prop
  | .checkVerification payload => ∃ result, response = .checked result ∧
      Checked app i payload w.history result
  | _ => True

def ProviderCall.FailsWith (app : Deployment) (i : ℕ) (error : HttpError)
    (w : World) : ProviderCall → Prop
  | .checkVerification payload =>
      app.config.otpProvider = .console → error = tooManyAttempts →
        ∃ past, LockReport i payload.phone payload.purpose past w.history
  | _ => True

theorem ProviderCall.handler_meets {permitted : Write → Prop}
    (hpermitted : ∀ write, write.byProvider = true → permitted write)
    (call : ProviderCall) :
    (call.handler app).Meets (discipline app permitted) i
      (fun response t => call.Ensures app i response t)
      (fun error t => call.FailsWith app i error t) w := by
  cases call with
  | startVerification payload =>
      exact Program.Meets.bind (startVerification_meets hpermitted
        (fun _ _ => trivial) fun _ _ _ _ =>
          Program.Meets.done fun _ _ _ => trivial)
  | checkVerification payload =>
      refine Program.Meets.bind (checkVerification_meets hpermitted
        (fun error t hlocked => hlocked) fun result t _ hchecked =>
          Program.Meets.done fun u hu _ => ?_)
      exact ⟨result, rfl, hchecked.later hu.history⟩
  | clearOtpAttempts phone purpose =>
      exact Program.Meets.bind (clearOtpAttempts_meets hpermitted
        (fun _ => trivial) fun _ _ _ _ _ _ =>
          Program.Meets.done fun _ _ _ => trivial)

/-! ## All requests -/

/-- The bearer token of a request that `JwtStrategy` guards. -/
def Request.accessToken : Request → Option Token
  | .authenticate accessToken | .logout accessToken _
  | .changePassword accessToken _ | .deleteMe accessToken
  | .promoteAdmin accessToken _ | .demoteAdmin accessToken _
  | .updateUserStatus accessToken _ _ | .deleteUser accessToken _ =>
      some accessToken
  | _ => none

/-- What the successful outcome of a request stands for, apart from its
guard. -/
def Request.Achieves (app : Deployment) (i : ℕ) (response : Response)
    (w : World) : Request → Prop
  | .provider call => call.Ensures app i response w
  | .verifyRegistrationOtp dto => Registered app i dto response w.history
  | .resetPassword dto => WasReset app i dto w.history
  | .refresh refreshToken => Refreshed app i refreshToken w.history
  | .changePassword accessToken _ =>
      PasswordChanged i accessToken.sub w.history
  | _ => True

/-- What the successful outcome of a request stands for. -/
def Request.Ensures (app : Deployment) (i : ℕ) (response : Response)
    (w : World) (request : Request) : Prop :=
  request.Achieves app i response w ∧
    ∀ accessToken, request.accessToken = some accessToken → ∃ row past,
      LookedUp i app.config.jwtAccessSecret accessToken row past w.history

def Request.FailsWith (app : Deployment) (i : ℕ) (error : HttpError)
    (w : World) : Request → Prop
  | .provider call => call.FailsWith app i error w
  | _ => True

/-- A lookup stays in the history while the guarded handler runs. -/
theorem afterLookup_meets {token : Token} {row : UserRow} {past : List Event}
    {handler : Handler Response} {post : Response → World → Prop}
    (hhandler : handler.Meets (discipline app anyWrite) i post anyFailure w)
    (hlooked :
      LookedUp i app.config.jwtAccessSecret token row past w.history) :
    handler.Meets (discipline app anyWrite) i
      (fun response t => post response t ∧ ∃ row past,
        LookedUp i app.config.jwtAccessSecret token row past t.history)
      anyFailure w := by
  refine (Program.Meets.frame
    (fun t => ∃ row past,
      LookedUp i app.config.jwtAccessSecret token row past t.history)
    ?_ ?_ hhandler ⟨row, past, hlooked⟩).mono (fun _ _ h => h) fun _ _ h => h.1
  · rintro s t hrely ⟨row, past, hlooked⟩
    exact ⟨row, past, hlooked.later hrely.history⟩
  · rintro s t haction ⟨row, past, hlooked⟩
    exact ⟨row, past, hlooked.later haction.history⟩

theorem guarded_meets {token : Token} {next : AuthUser → Handler Response}
    {post : Response → World → Prop}
    (hnext : ∀ user t, user.sub = token.sub →
      (∃ row, .userRead i row ∈ t.history ∧ row.id = user.sub) →
      (next user).Meets (discipline app anyWrite) i post anyFailure t) :
    (do
      let user ← jwtAuthGuard app token
      next user : Handler Response).Meets (discipline app anyWrite) i
      (fun response t => post response t ∧ ∃ row past,
        LookedUp i app.config.jwtAccessSecret token row past t.history)
      anyFailure w :=
  Program.Meets.bind (jwtAuthGuard_meets
    fun user row _ t _ hsub hlooked =>
      afterLookup_meets (hnext user t hsub
        ⟨row, hlooked.read.mem, hlooked.user.trans hsub.symm⟩) hlooked)

theorem adminOnly_meets {token : Token} {next : AuthUser → Handler Response}
    (hnext : ∀ user t, (next user).Meets (discipline app anyWrite) i
      (fun _ _ => True) anyFailure t) :
    (do
      let admin ← adminGuard app token
      next admin : Handler Response).Meets (discipline app anyWrite) i
      (fun _ t => True ∧ ∃ row past,
        LookedUp i app.config.jwtAccessSecret token row past t.history)
      anyFailure w :=
  Program.Meets.bind (adminGuard_meets fun user _ _ t _ hlooked =>
    afterLookup_meets (hnext user t) hlooked)

/-- A request without a guard ensures what it achieves. -/
theorem ensures_of_achieves {request : Request} {response : Response}
    (hopen : request.accessToken = none)
    (hachieves : request.Achieves app i response w) :
    request.Ensures app i response w :=
  ⟨hachieves, fun _ htoken => absurd (hopen.symm.trans htoken) nofun⟩

theorem ensures_of_lookup {request : Request} {response : Response}
    {token : Token} (hguarded : request.accessToken = some token)
    (h : request.Achieves app i response w ∧ ∃ row past,
      LookedUp i app.config.jwtAccessSecret token row past w.history) :
    request.Ensures app i response w := by
  refine ⟨h.1, fun other hother => ?_⟩
  rw [hguarded, Option.some.injEq] at hother
  exact hother ▸ h.2

theorem Request.open_meets {request : Request} {handler : Handler Response}
    (hopen : request.accessToken = none)
    (hmeets : handler.Meets (discipline app anyWrite) i
      (fun response t => request.Achieves app i response t)
      (fun error t => request.FailsWith app i error t) w) :
    handler.Meets (discipline app anyWrite) i
      (fun response t => request.Ensures app i response t)
      (fun error t => request.FailsWith app i error t) w :=
  hmeets.mono (fun _ _ h => ensures_of_achieves hopen h) fun _ _ h => h

theorem Request.closed_meets {request : Request} {token : Token}
    {handler : Handler Response}
    (hguarded : request.accessToken = some token)
    (hfails : ∀ error t, request.FailsWith app i error t)
    (hmeets : handler.Meets (discipline app anyWrite) i
      (fun response t => request.Achieves app i response t ∧ ∃ row past,
        LookedUp i app.config.jwtAccessSecret token row past t.history)
      anyFailure w) :
    handler.Meets (discipline app anyWrite) i
      (fun response t => request.Ensures app i response t)
      (fun error t => request.FailsWith app i error t) w :=
  hmeets.mono (fun _ _ h => ensures_of_lookup hguarded h)
    fun error t _ => hfails error t

theorem Request.handler_meets (request : Request) :
    (request.handler app).Meets (discipline app anyWrite) i
      (fun response t => request.Ensures app i response t)
      (fun error t => request.FailsWith app i error t) w := by
  cases request with
  | provider call => exact open_meets rfl (call.handler_meets fun _ _ => trivial)
  | requestRegistrationOtp dto =>
      exact open_meets rfl requestRegistrationOtp_meets
  | resendRegistrationOtp phone =>
      exact open_meets rfl resendRegistrationOtp_meets
  | verifyRegistrationOtp dto =>
      exact open_meets rfl (verifyRegistrationOtp_meets.mono
        (fun _ _ h => h.1) fun _ _ h => h)
  | login dto =>
      exact open_meets rfl (login_meets.mono (fun _ _ _ => trivial)
        fun _ _ h => h)
  | requestPasswordResetOtp phone =>
      exact open_meets rfl requestPasswordResetOtp_meets
  | resetPassword dto =>
      exact open_meets rfl (resetPassword_meets.mono (fun _ _ h => h.1)
        fun _ _ h => h)
  | refresh refreshToken =>
      exact open_meets rfl (refresh_meets.mono (fun _ _ h => h.1)
        fun _ _ h => h)
  | logout accessToken refreshToken =>
      exact closed_meets rfl (fun _ _ => trivial)
        (guarded_meets fun _ _ _ _ => logout_meets)
  | sendAkedlyOtp dto => exact open_meets rfl sendAkedlyOtp_meets
  | authenticate accessToken =>
      exact closed_meets rfl (fun _ _ => trivial)
        (guarded_meets fun _ _ _ _ =>
          Program.Meets.done fun _ _ _ => trivial)
  | changePassword accessToken dto =>
      refine closed_meets rfl (fun _ _ => trivial)
        (guarded_meets fun user t hsub hread =>
          (changePassword_meets hread).mono (fun _ _ h => ?_) fun _ _ h => h)
      simpa only [Request.Achieves, ← hsub] using h
  | deleteMe accessToken =>
      exact closed_meets rfl (fun _ _ => trivial)
        (guarded_meets fun _ _ _ _ => deleteMe_meets)
  | promoteAdmin accessToken userId =>
      exact closed_meets rfl (fun _ _ => trivial)
        (adminOnly_meets fun _ _ => promoteAdmin_meets)
  | demoteAdmin accessToken userId =>
      exact closed_meets rfl (fun _ _ => trivial)
        (adminOnly_meets fun _ _ => demoteAdmin_meets)
  | updateUserStatus accessToken userId status =>
      exact closed_meets rfl (fun _ _ => trivial)
        (adminOnly_meets fun _ _ => updateUserStatus_meets)
  | deleteUser accessToken userId =>
      exact closed_meets rfl (fun _ _ => trivial)
        (adminOnly_meets fun _ _ => deleteUser_meets)
  | seedAdmin phone password => exact open_meets rfl seedAdmin_meets
  | purgeExpiredOtps => exact open_meets rfl purgeExpiredOtps_meets
  | handleConnection token => exact open_meets rfl handleConnection_meets
  | sendMessage socket conversationId text =>
      exact open_meets rfl sendMessage_meets

/-! ## The backend -/

theorem backend_sound (app : Deployment)
    (admits : Request → World → Prop) :
    (backend app).Sound (discipline app anyWrite) admits
      (fun request i response w => request.Ensures app i response w)
      (fun request i error w => request.FailsWith app i error w) where
  handler_meets request _ _ _ := request.handler_meets
  environment_rely event i w := World.surroundings_rely event i w
  environment_invariant event _ htraced := htraced.surroundings event

theorem otpProviderSystem_sound (app : Deployment)
    (admits : ProviderCall → World → Prop) :
    (otpProviderSystem app).Sound
      (discipline app fun write => write.byProvider = true) admits
      (fun call i response w => call.Ensures app i response w)
      (fun call i error w => call.FailsWith app i error w) where
  handler_meets call _ _ _ := call.handler_meets fun _ h => h
  environment_rely event i w := World.surroundings_rely event i w
  environment_invariant event _ htraced := htraced.surroundings event

/-- Pools that the backend reaches from a fresh deployment by any moves. -/
def Reachable (app : Deployment)
    (pool : Pool Request Draw World HttpError Response) : Prop :=
  ∃ now, (backend app).Reaches (fun _ _ => True) (Pool.start now) pool

variable {pool : Pool Request Draw World HttpError Response}

theorem Reachable.sound (hreach : Reachable app pool) :
    System.OnCourse (discipline app anyWrite)
      (fun request i response w => request.Ensures app i response w)
      (fun request i error w => request.FailsWith app i error w) pool := by
  obtain ⟨now, hreach⟩ := hreach
  exact hreach.sound (backend_sound app _)
    (System.onCourse_of_empty rfl (World.traced_initial app now))

theorem Reachable.traced (hreach : Reachable app pool) :
    pool.state.Traced app :=
  hreach.sound.invariant

theorem Reachable.ensures (hreach : Reachable app pool)
    {request : Request} {response : Response}
    (hdone : pool.threads[i]? = some ⟨request, .done response⟩) :
    request.Ensures app i response pool.state :=
  hreach.sound.outcome hdone

end MarketPlace
