import MarketPlace.RefreshTokenRows
import MarketPlace.RestrictedOutcomes
import MarketPlace.TokenEpochs

/-!
# Rotation of refresh tokens

Each refresh deletes the row of its jti, each logout revokes it, and a row is
only taken while it is there and not revoked.  With fresh jtis a refresh token
is therefore good for one refresh.  A logout does not wait for a refresh that
has already taken the row, which goes on to answer with new tokens; whatever
begins after the logout fails.
-/

namespace MarketPlace

open EventLog Interleaving

variable {app : Deployment} {i : ℕ} {w : World} {token : Token}

/-! ## Runs without database failures -/

def Draw.databaseAnswers (d : Draw) : Bool := !d.databaseFails

/-- The backend whose database answers every statement. -/
abbrev reliableBackend (app : Deployment) :
    System Request Draw Surroundings World HttpError Response :=
  (backend app).under Draw.databaseAnswers

theorem perform_answers_meets {write : ℕ → Write} {post : Unit → World → Prop}
    {fail : HttpError → World → Prop}
    (halone : ∀ now, (write now).onlyInTransaction = false)
    (hoffered : ∀ u, Later app i w u → (write u.now).Offered app i u.now u)
    (hpost : ∀ past at_ t, Later app i w t →
      Happened (.wrote i at_ (write at_)) past t.history →
      w.history <:+ past → post () t) :
    ((perform none write).under Draw.databaseAnswers).Meets
      (discipline app anyWrite) i post fail w := by
  intro u hu htraced d outcome v hrun
  obtain ⟨hanswers, hrun⟩ := Option.ite_none_right_eq_some.mp hrun
  have hd : d.databaseFails = false := by
    simpa [Draw.databaseAnswers] using hanswers
  simp only [hd, Bool.false_eq_true, if_false] at hrun
  obtain ⟨hlockable, hrun⟩ := Option.ite_none_right_eq_some.mp hrun
  simp only [Option.some.injEq, Prod.mk.injEq] at hrun
  obtain ⟨rfl, rfl⟩ := hrun
  have hwrite : (write u.now).Offered app i u.now u := hoffered u ⟨hu, htraced⟩
  refine ⟨.single (.autocommitted _ trivial (halone _) hlockable hwrite),
    fun t ht ht' => ?_⟩
  exact hpost u.history u.now t
    (Later.trans (hu.trans (Rely.autocommit _)) ⟨ht, ht'⟩)
    (Happened.later happened_self ht.history) hu.history

/-! ## What a logout leaves behind -/

/-- After a completed logout the token's jti has been revoked, or the token
was of no use already. -/
inductive LoggedOut (app : Deployment) (token : Token) (w : World) : Prop where
  | revoked (jti : String) (i at_ : ℕ) (past : List Event)
      (hjti : token.jti = some jti)
      (hrevoked :
        Happened (.wrote i at_ (.revokeRefreshToken jti at_)) past w.history)
      (hissued : Issued token past)
  | foreign (hsecret : token.secret ≠ app.config.jwtRefreshSecret)
  | nameless (hjti : token.jti = none ∨ token.jti = some "")
  | expired (hexpired : token.exp ≤ w.seconds)

theorem LoggedOut.later {t : World} (h : LoggedOut app token w)
    (hrely : Rely i w t) : LoggedOut app token t := by
  cases h with
  | revoked jti j at_ past hjti hrevoked hissued =>
      exact .revoked jti j at_ past hjti (hrevoked.later hrely.history) hissued
  | foreign hsecret => exact .foreign hsecret
  | nameless hjti => exact .nameless hjti
  | expired hexpired =>
      exact .expired (hexpired.trans (Nat.div_le_div_right hrely.clock))

theorem loggedOut_of_invalid
    (hissued : token.secret = app.config.jwtRefreshSecret →
      Issued token w.history)
    (hinvalid :
      w.tokenVerifies token app.config.jwtRefreshSecret = false) :
    LoggedOut app token w := by
  by_cases hsecret : token.secret = app.config.jwtRefreshSecret
  · refine .expired (not_lt.mp fun hlive => ?_)
    have hverifies := World.tokenVerifies_iff.mpr
      ⟨hsecret, (hissued hsecret).minted, hlive⟩
    exact Bool.false_ne_true (hinvalid.symm.trans hverifies)
  · exact .foreign hsecret

/-- A logout whose UPDATE does not fail ends with an invalid token, with one
without a jti, or with its jti revoked. -/
theorem logout_answers_rule {post : World → Prop}
    (hstable : ∀ {t u}, Rely i t u → post t → post u)
    (hinvalid : ∀ u, w.history <:+ u.history →
      u.tokenVerifies token app.config.jwtRefreshSecret = false → post u)
    (hnameless : token.jti = none ∨ token.jti = some "" → ∀ t, post t)
    (hrevoked : ∀ jti at_ past t, token.jti = some jti →
      Happened (.wrote i at_ (.revokeRefreshToken jti at_)) past t.history →
      w.history <:+ past → token.secret = app.config.jwtRefreshSecret →
      post t) :
    ((logout app token).under Draw.databaseAnswers).Meets
      (discipline app anyWrite) i (fun _ t => post t) anyFailure w := by
  simp only [logout, Program.tryCatch_eq_recover, Program.under_bind,
    Program.under_recover]
  refine Program.Meets.seq (fun _ t => post t)
    (Program.Meets.caught (fun _ t => post t) ?_
      fun _ t ht => Program.Meets.done fun u hu _ => hstable hu ht)
    fun _ t ht => Program.Meets.done fun u hu _ => hstable hu ht
  refine Program.Meets.bind (Program.Meets.under (verifyAsync_meets
    (fun u t hu hfails ht => hstable ht.toRely (hinvalid u hu.history hfails))
    fun at_ past u hu hsecret _ _ => ?_))
  cases hjti : token.jti with
  | none => exact Program.Meets.done fun t _ _ => hnameless (.inl hjti) t
  | some jti =>
      dsimp only
      by_cases hempty : jti = ""
      · rw [if_pos hempty]
        exact Program.Meets.done fun t _ _ =>
          hnameless (.inr (hempty ▸ hjti)) t
      · rw [if_neg hempty, revokeRefreshTokenJti, Program.under_bind]
        refine Program.Meets.bind (Program.Meets.under
          (tryRedisDel_meets fun v hv => ?_))
        refine perform_answers_meets (fun _ => rfl) (fun _ _ => trivial)
          fun past at_ t _ hwrote hpast => ?_
        exact hrevoked jti at_ past t hjti hwrote
          (hu.history.trans (hv.history.trans hpast)) hsecret

theorem logout_answers_meets
    (hissued : token.secret = app.config.jwtRefreshSecret →
      Issued token w.history) :
    ((logout app token).under Draw.databaseAnswers).Meets
      (discipline app anyWrite) i (fun _ t => LoggedOut app token t)
      anyFailure w := by
  refine logout_answers_rule (fun hrely h => h.later hrely)
    (fun u hu hfails => ?_) (fun hjti _ => .nameless hjti)
    fun jti at_ past t hjti hwrote hpast hsecret => ?_
  · exact loggedOut_of_invalid (fun hsecret => (hissued hsecret).later hu)
      hfails
  · exact .revoked jti i at_ past hjti hwrote ((hissued hsecret).later hpast)

/-! ## Requests of the reliable backend -/

/-- A refresh token is only handed in for a logout after it was given out. -/
def Request.LogsOutIssued (app : Deployment) : Request → World → Prop
  | .logout _ token, w =>
      token.secret = app.config.jwtRefreshSecret → Issued token w.history
  | _, _ => True

/-- What a successful request leaves behind for the refresh tokens. -/
def Request.Leaves (app : Deployment) (i : ℕ) (response : Response)
    (w : World) : Request → Prop
  | .login _ | .verifyRegistrationOtp _ | .resetPassword _ =>
      response.TokenIssued w.history
  | .refresh token =>
      Rotated app i token response w.history ∧ response.TokenIssued w.history
  | .logout _ token => LoggedOut app token w
  | _ => True

theorem Request.handler_leaves (request : Request)
    (hother : ∀ accessToken token, request ≠ .logout accessToken token) :
    (request.handler app).Meets (discipline app anyWrite) i
      (fun response t => request.Leaves app i response t) anyFailure w := by
  cases request with
  | login dto => exact login_meets
  | verifyRegistrationOtp dto =>
      exact verifyRegistrationOtp_meets.mono (fun _ _ h => h.2) fun _ _ h => h
  | resetPassword dto =>
      exact resetPassword_meets.mono (fun _ _ h => h.2) fun _ _ h => h
  | refresh token =>
      exact refresh_meets.mono (fun _ _ h => h.2) fun _ _ h => h
  | logout accessToken token => exact absurd rfl (hother accessToken token)
  | _ =>
      exact (Request.handler_meets _).mono (fun _ _ _ => trivial)
        fun _ _ _ => trivial

theorem Request.leaves_meets (request : Request)
    (hadmits : request.LogsOutIssued app w) :
    ((request.handler app).under Draw.databaseAnswers).Meets
      (discipline app anyWrite) i
      (fun response t => request.Leaves app i response t) anyFailure w := by
  by_cases hlogout : ∃ accessToken token, request = .logout accessToken token
  · obtain ⟨accessToken, token, rfl⟩ := hlogout
    rw [Request.handler, Program.under_bind]
    exact Program.Meets.bind (Program.Meets.under (jwtAuthGuard_meets
      fun _ _ _ t ht _ _ => logout_answers_meets
        fun hsecret => (hadmits hsecret).later ht.history))
  · exact Program.Meets.under (request.handler_leaves
      fun accessToken token h => hlogout ⟨accessToken, token, h⟩)

theorem reliableBackend_sound (app : Deployment) :
    (reliableBackend app).Sound (discipline app anyWrite)
      (Request.LogsOutIssued app)
      (fun request i response w => request.Leaves app i response w)
      fun _ _ => anyFailure where
  handler_meets request _ _ hadmits := request.leaves_meets hadmits
  environment_rely event i w := World.surroundings_rely event i w
  environment_invariant event _ htraced := htraced.surroundings event

/-- Pools that the reliable backend reaches from a fresh deployment. -/
def ReliablyReachable (app : Deployment)
    (pool : Pool Request Draw World HttpError Response) : Prop :=
  ∃ now, (reliableBackend app).Reaches (Request.LogsOutIssued app)
    (Pool.start now) pool

variable {pool later : Pool Request Draw World HttpError Response}

theorem ReliablyReachable.sound (hreach : ReliablyReachable app pool) :
    System.OnCourse (discipline app anyWrite)
      (fun request i response w => request.Leaves app i response w)
      (fun _ _ => anyFailure) pool := by
  obtain ⟨now, hreach⟩ := hreach
  exact hreach.sound (reliableBackend_sound app)
    (System.onCourse_of_empty rfl (World.traced_initial app now))

theorem ReliablyReachable.rotated (hreach : ReliablyReachable app pool)
    {response : Response}
    (hdone : pool.threads[i]? = some ⟨.refresh token, .done response⟩) :
    Rotated app i token response pool.state.history :=
  (hreach.sound.outcome hdone).1

/-- Every refresh token that a client has been given is issued. -/
theorem ReliablyReachable.issued (hreach : ReliablyReachable app pool)
    {request : Request} {response : Response}
    (hdone : pool.threads[i]? = some ⟨request, .done response⟩)
    (hgives : (∃ dto, request = .login dto) ∨
      (∃ dto, request = .verifyRegistrationOtp dto) ∨
      (∃ dto, request = .resetPassword dto) ∨
      ∃ token, request = .refresh token) :
    response.TokenIssued pool.state.history := by
  have hleaves := hreach.sound.outcome hdone
  rcases hgives with ⟨dto, rfl⟩ | ⟨dto, rfl⟩ | ⟨dto, rfl⟩ | ⟨token, rfl⟩
  · exact hleaves
  · exact hleaves
  · exact hleaves
  · exact hleaves.2

/-! ## Events after a state -/

/-- What is in the history of `t` and not of `w` is not older than `w`. -/
structure World.Onward (w t : World) : Prop where
  history : w.history <:+ t.history
  clock : w.now ≤ t.now
  timed : ∀ event ∈ t.history, event ∈ w.history ∨
    ∀ at_, event.time = some at_ → w.now ≤ at_

theorem World.Onward.refl (w : World) : w.Onward w :=
  ⟨List.suffix_refl _, le_rfl, fun _ hevent => .inl hevent⟩

theorem World.Onward.trans {u t : World} (h : w.Onward u)
    (h' : u.Onward t) : w.Onward t where
  history := h.history.trans h'.history
  clock := h.clock.trans h'.clock
  timed event hevent := by
    rcases h'.timed event hevent with hold | hnew
    · exact h.timed event hold
    · exact .inr fun at_ hat => h.clock.trans (hnew at_ hat)

/-- One new event, which is untimed or happens now. -/
theorem World.Onward.of_cons {t : World} {event : Event}
    (hhistory : t.history = event :: w.history) (hclock : w.now ≤ t.now)
    (htime : ∀ at_, event.time = some at_ → w.now ≤ at_) : w.Onward t where
  history := hhistory ▸ List.suffix_cons event w.history
  clock := hclock
  timed other hother := by
    rw [hhistory] at hother
    rcases List.mem_cons.mp hother with rfl | hother
    · exact .inr htime
    · exact .inl hother

theorem World.Onward.of_same {t : World} (hhistory : t.history = w.history)
    (hclock : w.now ≤ t.now) : w.Onward t where
  history := hhistory ▸ List.suffix_refl w.history
  clock := hclock
  timed _ hevent := .inl (hhistory ▸ hevent)

variable {permitted : Write → Prop}

theorem Effect.onward {t : World} (heffect : Effect app permitted i w t) :
    w.Onward t := by
  cases heffect with
  | recorded event hobserved =>
      exact .of_cons rfl le_rfl fun at_ hat => (hobserved.time at_ hat).ge
  | autocommitted write hpermitted halone hunlocked hoffered =>
      exact .of_cons rfl (Nat.le_succ _) fun at_ hat => (Option.some.inj hat).le
  | enqueued write hpermitted htransactional havailable hoffered =>
      exact .of_cons rfl le_rfl (by simp [Event.time])
  | locked locks havailable => exact .of_same rfl le_rfl
  | rolledBack => exact .of_same rfl le_rfl
  | committed =>
      refine ⟨suffix_flush _ _ _ _, le_rfl, fun event hevent => ?_⟩
      rw [World.commit, flush_eq, List.mem_append, List.mem_reverse,
        List.mem_map] at hevent
      rcases hevent with ⟨write, -, rfl⟩ | hevent
      · exact .inr fun at_ hat => (Option.some.inj hat).le
      · exact .inl hevent
  | redisSet key value ttlSeconds hkey => exact .of_same rfl le_rfl
  | redisDel key => exact .of_same rfl le_rfl
  | transactionStarted transaction phone purpose hnew =>
      exact .of_cons rfl le_rfl (by simp [Event.time])
  | socketOpened userId hverified => exact .of_cons rfl le_rfl (by simp [Event.time])

theorem Action.onward {t : World} (haction : Action app permitted i w t) :
    w.Onward t := by
  induction haction with
  | refl => exact .refl w
  | tail _ heffect ih => exact ih.trans heffect.onward

theorem World.surroundings_onward (event : Surroundings) (w : World) :
    w.Onward (w.surroundings event) := by
  cases event with
  | timePasses amount => exact .of_same rfl (Nat.le_add_right _ _)
  | socketCloses socket => exact .of_cons rfl le_rfl nofun
  | conversationOpens userAId userBId => exact .of_cons rfl le_rfl nofun
  | blocks blockerId blockedId => exact .of_cons rfl le_rfl nofun
  | unblocks blockerId blockedId => exact .of_cons rfl le_rfl nofun

/-- The request whose action the event is part of. -/
def Event.actor : Event → Option ℕ
  | .wrote actor _ _ | .queued actor _ | .userRead actor _
  | .pendingRead actor _ | .otpRead actor _ _ | .attemptCounted actor _ _ _
  | .minted actor _ | .verified actor _ _ | .akedlySent actor _ _ _
  | .akedlyVerified actor _ _ | .socketOpened actor _ _
  | .socketUsed actor _ _ => some actor
  | .elsewhere _ | .socketClosed _ => none

/-- An effect of request `i` adds events of request `i` only. -/
theorem Effect.actor {t : World} {event : Event}
    (heffect : Effect app permitted i w t) (hevent : event ∈ t.history) :
    event ∈ w.history ∨ event.actor = some i := by
  have hcons : ∀ {own : Event}, own.actor = some i →
      event ∈ own :: w.history → event ∈ w.history ∨ event.actor = some i := by
    intro own hown hmem
    rcases List.mem_cons.mp hmem with rfl | hmem
    · exact .inr hown
    · exact .inl hmem
  cases heffect with
  | recorded own hobserved =>
      refine hcons ?_ hevent
      cases own <;> first
        | exact congrArg some hobserved.1
        | exact False.elim hobserved
  | autocommitted write hpermitted halone hunlocked hoffered => exact hcons rfl hevent
  | enqueued write hpermitted htransactional havailable hoffered =>
      exact hcons rfl hevent
  | locked locks havailable => exact .inl hevent
  | rolledBack => exact .inl hevent
  | committed =>
      rw [World.commit, flush_eq, List.mem_append, List.mem_reverse,
        List.mem_map] at hevent
      rcases hevent with ⟨write, -, rfl⟩ | hevent
      · exact .inr rfl
      · exact .inl hevent
  | redisSet key value ttlSeconds hkey => exact .inl hevent
  | redisDel key => exact .inl hevent
  | transactionStarted transaction phone purpose hnew => exact hcons rfl hevent
  | socketOpened userId hverified => exact hcons rfl hevent

theorem Action.actor {t : World} {event : Event}
    (haction : Action app permitted i w t) (hevent : event ∈ t.history) :
    event ∈ w.history ∨ event.actor = some i := by
  induction haction with
  | refl => exact .inl hevent
  | tail _ heffect ih =>
      rcases heffect.actor hevent with hbefore | hown
      · exact ih hbefore
      · exact .inr hown

theorem World.surroundings_actor {event : Event} {outside : Surroundings}
    (hevent : event ∈ (w.surroundings outside).history) :
    event ∈ w.history ∨ event.actor = none := by
  cases outside with
  | timePasses amount => exact .inl hevent
  | _ =>
      rcases List.mem_cons.mp hevent with rfl | hevent
      · exact .inr rfl
      · exact .inl hevent

section Runs

variable {S : System Request Draw Surroundings World HttpError Response}
  {admits : Request → World → Prop}
  {post : Request → ℕ → Response → World → Prop}
  {fail : Request → ℕ → HttpError → World → Prop}
  (hsound : S.Sound (discipline app anyWrite) admits post fail)
  (henvironment : S.environment = World.surroundings)

include hsound henvironment

theorem onward_of_reaches
    (hpool : System.OnCourse (discipline app anyWrite) post fail pool)
    (hlater : S.Reaches admits pool later) :
    pool.state.Onward later.state :=
  hlater.further hsound hpool (fun t => pool.state.Onward t) (.refl _)
    (fun haction _ h => h.trans haction.onward)
    fun event _ _ h => h.trans
      (henvironment ▸ World.surroundings_onward event _)

/-- A request verifies its token after it was submitted. -/
theorem submitted_of_verified {now j at_ : ℕ}
    (hreach : S.Reaches admits (Pool.start now) pool)
    (hverified : .verified j at_ token ∈ pool.state.history) :
    j < pool.threads.length :=
  hreach.fresh hsound
    (System.onCourse_of_empty rfl (World.traced_initial app now))
    (fun j t => .verified j at_ token ∈ t.history)
    (fun j => by simp [Pool.start, World.initial])
    (fun haction hmem => by
      rcases haction.actor hmem with hbefore | hown
      · exact .inr hbefore
      · exact .inl (Option.some.inj hown))
    (fun event _ _ hmem => (World.surroundings_actor
      (henvironment ▸ hmem)).resolve_right (by simp [Event.actor]))
    hverified

end Runs

theorem ReliablyReachable.onward (hreach : ReliablyReachable app pool)
    (hlater : (reliableBackend app).Reaches (Request.LogsOutIssued app) pool
      later) : pool.state.Onward later.state :=
  onward_of_reaches (reliableBackend_sound app) rfl hreach.sound hlater

theorem ReliablyReachable.submitted (hreach : ReliablyReachable app pool)
    {j at_ : ℕ} (hverified : .verified j at_ token ∈ pool.state.history) :
    j < pool.threads.length := by
  obtain ⟨now, hreach⟩ := hreach
  exact submitted_of_verified (reliableBackend_sound app) rfl hreach hverified

/-! ## Rotation -/

section Rotation

variable {history past before : List Event} {j : ℕ} {jti : String}

/-- The jti of a token whose row was taken is not taken again. -/
theorem LawfulHistory.not_taken_again {userId userId' at_ at_' : ℕ}
    (hlawful : LawfulHistory app past) (hfresh : FreshJtis past)
    (hrow : ConsumableRow (stored past) jti userId at_)
    (htaken : Happened (.wrote j at_' (.consumeRefreshToken jti at_')) before
      past)
    (hrow' : ConsumableRow (stored before) jti userId' at_') : False := by
  have hspent : TokenSpent (stored
      (.wrote j at_' (.consumeRefreshToken jti at_') :: before)) jti :=
    tokenSpent_of_consume hrow'
  obtain ⟨row, hget, -⟩ := hrow'
  obtain ⟨k, savedAt, expiresAt, hsaved⟩ :=
    (hlawful.before htaken.older).refreshRow_saved hget
  exact (hlawful.tokenSpent_since hfresh htaken hspent
    (List.mem_cons_of_mem _ hsaved) rfl).not_consumable hrow

theorem Rotated.unique {response response' : Response}
    (hlawful : LawfulHistory app history) (hfresh : FreshJtis history)
    (h : Rotated app i token response history)
    (h' : Rotated app j token response' history) : i = j := by
  obtain ⟨jti, at_, past, hjti, -, htaken, hrow, -⟩ := h.consumed
  obtain ⟨jti', at_', past', hjti', -, htaken', hrow', -⟩ := h'.consumed
  obtain rfl : jti = jti' := Option.some.inj (hjti.symm.trans hjti')
  rcases htaken.compare htaken' with hlt | hlt | ⟨heq, -⟩
  · exact ((hlawful.before htaken.older).not_taken_again
      (hfresh.older htaken.older) hrow hlt hrow').elim
  · exact ((hlawful.before htaken'.older).not_taken_again
      (hfresh.older htaken'.older) hrow' hlt hrow).elim
  · exact (Event.wrote.inj heq).1

/-- A successful refresh belongs to the user that its jti was saved for, and
answers with tokens of that user. -/
structure BelongsTo (token : Token) (response : Response)
    (history : List Event) : Prop where
  saved : ∃ jti k at_ expiresAt, token.jti = some jti ∧
    .wrote k at_ (.saveRefreshToken jti token.sub expiresAt) ∈ history ∧
    ∀ k' at_' userId expiresAt',
      .wrote k' at_' (.saveRefreshToken jti userId expiresAt') ∈ history →
      userId = token.sub
  answer : ∃ tokens, response = .refreshed tokens ∧
    tokens.accessToken.sub = token.sub ∧ tokens.refreshToken.sub = token.sub

theorem Rotated.belongsTo {response : Response}
    (hlawful : LawfulHistory app history) (hfresh : FreshJtis history)
    (h : Rotated app i token response history) :
    BelongsTo token response history := by
  obtain ⟨jti, at_, past, hjti, -, htaken, ⟨row, hget, -, huser⟩, -⟩ :=
    h.consumed
  obtain ⟨k, savedAt, expiresAt, hsaved⟩ :=
    (hlawful.before htaken.older).refreshRow_saved hget
  have hmem := htaken.older.subset hsaved
  refine ⟨⟨jti, k, savedAt, expiresAt, hjti, huser ▸ hmem, ?_⟩, h.answer⟩
  intro k' at_' userId expiresAt' hmem'
  have heq := hfresh.unique hmem hmem' rfl rfl
  simp only [Event.wrote.injEq, Write.saveRefreshToken.injEq] at heq
  exact heq.2.2.2.1.symm.trans huser

/-- Request `j` was under way when the token was logged out in `w`: it had
verified the token, and taken its row unless the token was expired by then. -/
def UnderWay (j : ℕ) (token : Token) (w : World) : Prop :=
  (∃ at_, .verified j at_ token ∈ w.history) ∧
    (token.exp ≤ w.seconds ∨
      ∃ jti at_, token.jti = some jti ∧
        .wrote j at_ (.consumeRefreshToken jti at_) ∈ w.history)

theorem Rotated.underWay {t : World} {response : Response}
    (htraced : t.Traced app) (hfresh : FreshJtis t.history)
    (honward : w.Onward t) (hout : LoggedOut app token w)
    (h : Rotated app j token response t.history) : UnderWay j token w := by
  obtain ⟨jti, at_, past, hjti, hnonempty, htaken, hrow, verifiedAt, before,
    hverified⟩ := h.consumed
  have hlive := (htraced.lawful.justified
    (hverified.later htaken.older)).1
  cases hout with
  | foreign hsecret => exact absurd h.signed hsecret
  | nameless hnone =>
      rcases hnone with hnone | hempty
      · exact absurd (hjti.symm.trans hnone) nofun
      · exact absurd (Option.some.inj (hjti.symm.trans hempty)) hnonempty
  | expired hexpired =>
      refine ⟨⟨verifiedAt, ?_⟩, .inl hexpired⟩
      rcases honward.timed _ (hverified.later htaken.older).mem with
        hold | hnew
      · exact hold
      · have hle : w.seconds ≤ verifiedAt / 1000000 :=
          Nat.div_le_div_right (hnew verifiedAt rfl)
        omega
  | revoked jti' k revokedAt revokedPast hjti' hrevoked hissued =>
      obtain rfl : jti = jti' := Option.some.inj (hjti.symm.trans hjti')
      obtain ⟨saved, l, savedAt, expiresAt, hsaved, hwrote⟩ := hissued.saved
      obtain rfl : jti = saved := Option.some.inj (hjti.symm.trans hsaved)
      rcases htaken.before_or_after honward.history with hold | hbefore
      · exact ⟨⟨verifiedAt, (hverified.later hold.older).mem⟩,
          .inr ⟨jti, at_, hjti, hold.mem⟩⟩
      · have hspent : TokenSpent (stored
            (.wrote k revokedAt (.revokeRefreshToken jti revokedAt) ::
              revokedPast)) jti :=
          tokenSpent_of_revoke _ revokedAt
        have hkept := (htraced.lawful.before htaken.older).tokenSpent_since
          (hfresh.older htaken.older) (hrevoked.later hbefore) hspent
          (List.mem_cons_of_mem _ hwrote) rfl
        exact (hkept.not_consumable hrow).elim

end Rotation

/-- Rotation, in runs with fresh jtis whose database never fails: a refresh
token yields one successful refresh at most, for the user its jti was saved
for, and what begins after a completed logout with it does not succeed. -/
theorem refresh_tokens_rotate (app : Deployment) {now : ℕ}
    {pool : Pool Request Draw World HttpError Response}
    (hreach : (reliableBackend app).Reaches (Request.LogsOutIssued app)
      (Pool.start now) pool)
    (hfresh : FreshJtis pool.state.history) :
    (∀ (i j : ℕ) (token : Token) (response response' : Response),
      pool.threads[i]? = some ⟨.refresh token, .done response⟩ →
      pool.threads[j]? = some ⟨.refresh token, .done response'⟩ → i = j) ∧
    (∀ (earlier : Pool Request Draw World HttpError Response) (i j : ℕ)
      (accessToken token : Token) (response response' : Response),
      (reliableBackend app).Reaches (Request.LogsOutIssued app)
        (Pool.start now) earlier →
      (reliableBackend app).Reaches (Request.LogsOutIssued app) earlier pool →
      earlier.threads[i]? =
        some ⟨.logout accessToken token, .done response⟩ →
      pool.threads[j]? = some ⟨.refresh token, .done response'⟩ →
      j < earlier.threads.length ∧ UnderWay j token earlier.state) ∧
    ∀ (i : ℕ) (token : Token) (response : Response),
      pool.threads[i]? = some ⟨.refresh token, .done response⟩ →
      BelongsTo token response pool.state.history := by
  have hpool : ReliablyReachable app pool := ⟨now, hreach⟩
  have htraced : pool.state.Traced app := hpool.sound.invariant
  refine ⟨fun i j token response response' hi hj => ?_,
    fun earlier i j accessToken token response response' hearlier hlater hout
      hj => ?_, fun i token response hi => ?_⟩
  · exact (hpool.rotated hi).unique htraced.lawful hfresh (hpool.rotated hj)
  · have hbefore : ReliablyReachable app earlier := ⟨now, hearlier⟩
    have hloggedOut : LoggedOut app token earlier.state :=
      hbefore.sound.outcome hout
    have hunderWay := (hpool.rotated hj).underWay htraced hfresh
      (hbefore.onward hlater) hloggedOut
    obtain ⟨at_, hverified⟩ := hunderWay.1
    exact ⟨hbefore.submitted hverified, hunderWay⟩
  · exact (hpool.rotated hi).belongsTo htraced.lawful hfresh

/-! ## A refresh that a logout does not stop -/

/-- The refresh token of the first login of the seeded admin. -/
def adminRefreshToken : Token :=
  refreshTokenFor (sampleDeployment .console) 1 "+201" true 0 "jti" 0

def renewedDraw : Draw := { sampleDraw with jti := "renewed" }

/-- The admin logs in, and a refresh takes the row of the token. -/
def beforeLogoutMoves : List (Move Request Draw Surroundings) :=
  alone 0 (Request.seedAdmin "+201" "secret") 6 ++
    alone 1 (Request.login ⟨"+201", "secret"⟩) 4 ++
    aloneUnder renewedDraw 2 (.refresh adminRefreshToken) 2

/-- A logout with the token completes, and the refresh goes on. -/
def logoutMoves : List (Move Request Draw Surroundings) :=
  List.replicate 4 (.advance 3 sampleDraw)

def afterLogoutMoves : List (Move Request Draw Surroundings) :=
  List.replicate 4 (.advance 2 renewedDraw)

def adminLogout : Request := .logout adminToken adminRefreshToken

theorem issued_of_any {history : List Event} {j k at_ expiresAt : ℕ}
    {jti : String} (hjti : token.jti = some jti)
    (h : .minted j token ∈ history ∧
      .wrote k at_ (.saveRefreshToken jti token.sub expiresAt) ∈ history) :
    Issued token history :=
  ⟨⟨j, h.1⟩, jti, k, at_, expiresAt, hjti, h.2⟩

/-- Moves that submit no logout are always admitted. -/
theorem logsOutIssued_of_forall
    {moves : List (Move Request Draw Surroundings)}
    (hmoves : (moves.filterMap Move.submitted).all (fun request =>
      match request with
      | .logout _ _ => false
      | _ => true) = true) :
    ∀ request ∈ moves.filterMap Move.submitted, ∀ s,
      request.LogsOutIssued app s := by
  intro request hmem s
  have hnot := List.all_eq_true.mp hmoves request hmem
  cases request with
  | logout accessToken token => contradiction
  | _ => trivial

/-- The three parts of the run, each with what it is checked for. -/
theorem racing_logout_runs :
    ((reliableBackend (sampleDeployment .console)).run beforeLogoutMoves
      (Pool.start 0)).any (fun first =>
        decide (.minted 1 adminRefreshToken ∈ first.state.history ∧
          .wrote 1 0 (.saveRefreshToken "jti" 1 2592000000000) ∈
            first.state.history) &&
        ((reliableBackend (sampleDeployment .console)).run
          (.submit adminLogout :: logoutMoves) first).any fun earlier =>
            earlier.answers 3 adminLogout &&
            (earlier.answer 2).isNone &&
            ((reliableBackend (sampleDeployment .console)).run
              afterLogoutMoves earlier).any fun pool =>
                pool.answers 2 (.refresh adminRefreshToken) &&
                decide (FreshJtis pool.state.history)) = true := by
  decide +kernel

theorem exists_racing_logout :
    ∃ earlier pool response response',
      (reliableBackend (sampleDeployment .console)).Reaches
        (Request.LogsOutIssued (sampleDeployment .console)) (Pool.start 0)
        earlier ∧
      (reliableBackend (sampleDeployment .console)).Reaches
        (Request.LogsOutIssued (sampleDeployment .console)) earlier pool ∧
      FreshJtis pool.state.history ∧
      earlier.threads[3]? = some ⟨adminLogout, .done response⟩ ∧
      earlier.answer 2 = none ∧
      pool.threads[2]? = some ⟨.refresh adminRefreshToken, .done response'⟩ := by
  obtain ⟨first, hfirst, hcheck⟩ :=
    (Option.any_eq_true _ _).mp racing_logout_runs
  simp only [Bool.and_eq_true, decide_eq_true_eq] at hcheck
  obtain ⟨hissued, hcheck⟩ := hcheck
  obtain ⟨earlier, hearlier, hcheck⟩ := (Option.any_eq_true _ _).mp hcheck
  simp only [Bool.and_eq_true, Option.isNone_iff_eq_none] at hcheck
  obtain ⟨⟨hout, hpending⟩, hcheck⟩ := hcheck
  obtain ⟨pool, hpool, hcheck⟩ := (Option.any_eq_true _ _).mp hcheck
  simp only [Bool.and_eq_true, decide_eq_true_eq] at hcheck
  obtain ⟨hrefreshed, hfresh⟩ := hcheck
  obtain ⟨response, hdone⟩ := Pool.done_of_answers hout
  obtain ⟨response', hdone'⟩ := Pool.done_of_answers hrefreshed
  have hfirst' : (reliableBackend (sampleDeployment .console)).Reaches
      (Request.LogsOutIssued (sampleDeployment .console)) (Pool.start 0)
      first :=
    System.Reaches.refl.run (logsOutIssued_of_forall rfl) hfirst
  have hsubmit : (reliableBackend (sampleDeployment .console)).perform
      (.submit adminLogout) first =
        some ⟨first.state, first.threads ++ [⟨adminLogout, _⟩]⟩ := rfl
  have hsubmitted := hfirst'.step (fun request hmove => by
    cases hmove
    exact fun _ => issued_of_any rfl hissued) hsubmit
  exact ⟨earlier, pool, response, response',
    hsubmitted.run (logsOutIssued_of_forall rfl) hearlier,
    System.Reaches.refl.run (logsOutIssued_of_forall rfl) hpool,
    hfresh, hdone, hpending, hdone'⟩

theorem refresh_tokens_rotate_admin :
    ∃ earlier pool : Pool Request Draw World HttpError Response,
      UnderWay 2 adminRefreshToken earlier.state ∧
      ∃ response, BelongsTo adminRefreshToken response pool.state.history := by
  obtain ⟨earlier, pool, response, response', hearlier, hlater, hfresh, hout,
    -, hdone⟩ := exists_racing_logout
  obtain ⟨-, hunderWay, hbelongs⟩ := refresh_tokens_rotate
    (sampleDeployment .console) (hearlier.trans hlater) hfresh
  exact ⟨earlier, pool,
    (hunderWay earlier 3 2 _ _ response response' hearlier hlater hout hdone).2,
    response', hbelongs 2 _ response' hdone⟩

/-- A refresh that has taken the row of its jti answers with new tokens after
a logout with the same token has completed. -/
theorem not_refresh_fails_after_logout :
    ¬ ∀ (app : Deployment) (now : ℕ)
      (earlier pool : Pool Request Draw World HttpError Response) (i j : ℕ)
      (accessToken token : Token) (response : Response),
      (reliableBackend app).Reaches (Request.LogsOutIssued app)
        (Pool.start now) earlier →
      (reliableBackend app).Reaches (Request.LogsOutIssued app) earlier pool →
      FreshJtis pool.state.history →
      earlier.threads[i]? =
        some ⟨.logout accessToken token, .done response⟩ →
      earlier.answer j = none →
      ∀ response', pool.threads[j]? ≠ some ⟨.refresh token, .done response'⟩ := by
  intro hclaim
  obtain ⟨earlier, pool, response, response', hearlier, hlater, hfresh, hout,
    hpending, hdone⟩ := exists_racing_logout
  exact hclaim _ 0 earlier pool 3 2 adminToken adminRefreshToken response
    hearlier hlater hfresh hout hpending response' hdone

end MarketPlace
