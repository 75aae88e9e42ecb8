import MarketPlace.RefreshRotation

/-!
# Logouts that revoke

The catch block of `logout` is meant for invalid tokens and catches a failed
revocation too.  Where the UPDATE of the revocation is answered, a completed
logout has recorded it, whatever else fails; where it fails, the call returns
as if it had been recorded.
-/

namespace MarketPlace

open EventLog Interleaving

variable {app : Deployment} {i : ℕ} {w : World} {token : Token}

/-! ## The backend whose logouts can revoke -/

/-- The handlers, with the statement of `logout` always answered; everything
else may fail. -/
def Request.revokingHandler (app : Deployment) :
    Request → Handler Response
  | .logout accessToken refreshToken => do
      let _ ← jwtAuthGuard app accessToken
      (MarketPlace.logout app refreshToken).under Draw.databaseAnswers
  | request => request.handler app

def revokingBackend (app : Deployment) :
    System Request Draw Surroundings World HttpError Response where
  handler := Request.revokingHandler app
  environment := World.surroundings

/-- Request `i` has revoked the jti of a token that is not expired. -/
def RevocationRecorded (app : Deployment) (i : ℕ) (token : Token)
    (w : World) : Prop :=
  ∀ jti, token.jti = some jti → jti ≠ "" →
    token.secret = app.config.jwtRefreshSecret → w.seconds < token.exp →
      ∃ at_, .wrote i at_ (.revokeRefreshToken jti at_) ∈ w.history

theorem RevocationRecorded.later {j : ℕ} {t : World} (hrely : Rely j w t)
    (h : RevocationRecorded app i token w) :
    RevocationRecorded app i token t := by
  intro jti hjti hnonempty hsecret hlive
  have hclock : w.seconds ≤ t.seconds := Nat.div_le_div_right hrely.clock
  obtain ⟨at_, hwrote⟩ := h jti hjti hnonempty hsecret (by omega)
  exact ⟨at_, hrely.history.subset hwrote⟩

theorem logout_records
    (hissued : token.secret = app.config.jwtRefreshSecret →
      Issued token w.history) :
    ((logout app token).under Draw.databaseAnswers).Meets
      (discipline app anyWrite) i
      (fun _ t => LoggedOut app token t ∧ RevocationRecorded app i token t)
      anyFailure w := by
  refine logout_answers_rule (fun hrely h => ⟨h.1.later hrely, h.2.later hrely⟩)
    (fun u hu hfails => ?_) (fun hjti t => ?_)
    fun jti at_ past t hjti hwrote hpast hsecret => ?_
  · refine ⟨loggedOut_of_invalid (fun hsecret => (hissued hsecret).later hu)
      hfails, fun jti _ _ hsecret hlive => ?_⟩
    have hverifies := World.tokenVerifies_iff.mpr
      ⟨hsecret, ((hissued hsecret).later hu).minted, hlive⟩
    exact absurd (hfails.symm.trans hverifies) Bool.false_ne_true
  · refine ⟨.nameless hjti, fun jti hsome hnonempty _ _ => ?_⟩
    rcases hjti with hnone | hempty
    · rw [hnone] at hsome
      contradiction
    · exact absurd (Option.some.inj (hsome.symm.trans hempty)) hnonempty
  · refine ⟨.revoked jti i at_ past hjti hwrote ((hissued hsecret).later hpast),
      fun other hother _ _ _ => ⟨at_, ?_⟩⟩
    obtain rfl := Option.some.inj (hjti.symm.trans hother)
    exact hwrote.mem

/-- What a successful request leaves behind, with the revocation that a logout
has recorded. -/
def Request.Records (app : Deployment) (i : ℕ) (response : Response)
    (w : World) (request : Request) : Prop :=
  request.Leaves app i response w ∧
    ∀ accessToken token, request = .logout accessToken token →
      RevocationRecorded app i token w

theorem revokingBackend_sound (app : Deployment) :
    (revokingBackend app).Sound (discipline app anyWrite)
      (Request.LogsOutIssued app)
      (fun request i response w => request.Records app i response w)
      fun _ _ => anyFailure where
  handler_meets request i w hadmits := by
    by_cases hlogout : ∃ accessToken token, request = .logout accessToken token
    · obtain ⟨accessToken, token, rfl⟩ := hlogout
      refine Program.Meets.bind (jwtAuthGuard_meets
        fun _ _ _ t ht _ _ => (logout_records
          fun hsecret => (hadmits hsecret).later ht.history).mono ?_
            fun _ _ h => h)
      rintro response u ⟨hout, hrecorded⟩
      refine ⟨hout, fun _ _ hsame => ?_⟩
      obtain ⟨-, rfl⟩ := Request.logout.inj hsame
      exact hrecorded
    · have hother : ∀ accessToken token,
          request ≠ .logout accessToken token :=
        fun accessToken token h => hlogout ⟨accessToken, token, h⟩
      have hhandler : (revokingBackend app).handler request =
          request.handler app := by
        cases request <;> first | rfl | exact absurd rfl (hother _ _)
      rw [hhandler]
      exact (request.handler_leaves hother).mono
        (fun _ _ h => ⟨h, fun _ _ hsame => absurd hsame (hother _ _)⟩)
        fun _ _ h => h
  environment_rely event i w := World.surroundings_rely event i w
  environment_invariant event _ htraced := htraced.surroundings event

/-! ## What comes after a logout -/

/-- Where the statement of a logout is answered, a completed logout has
revoked its token: no refresh that begins later succeeds, and the revocation of
a token that still verifies is recorded. -/
theorem completed_logout_revokes (app : Deployment) {now i : ℕ}
    {earlier pool : Pool Request Draw World HttpError Response}
    {accessToken token : Token} {response : Response}
    (hearlier : (revokingBackend app).Reaches (Request.LogsOutIssued app)
      (Pool.start now) earlier)
    (hlater : (revokingBackend app).Reaches (Request.LogsOutIssued app) earlier
      pool)
    (hfresh : FreshJtis pool.state.history)
    (hout : earlier.threads[i]? =
      some ⟨.logout accessToken token, .done response⟩) :
    (∀ j response', earlier.threads.length ≤ j →
      pool.threads[j]? ≠ some ⟨.refresh token, .done response'⟩) ∧
    (earlier.state.tokenVerifies token app.config.jwtRefreshSecret = true →
      ∀ jti, token.jti = some jti → jti ≠ "" →
        ∃ at_, .wrote i at_ (.revokeRefreshToken jti at_) ∈
          earlier.state.history) := by
  have hsound := revokingBackend_sound app
  have hstart : System.OnCourse (discipline app anyWrite)
      (fun (request : Request) i response w => request.Records app i response w)
      (fun _ _ => anyFailure) (Pool.start now) :=
    System.onCourse_of_empty rfl (World.traced_initial app now)
  have hbefore := hearlier.sound hsound hstart
  have hpool := hlater.sound hsound hbefore
  obtain ⟨hloggedOut, hrecorded⟩ := hbefore.outcome hout
  refine ⟨fun j response' hj hdone => ?_, fun hverifies jti hjti hnonempty => ?_⟩
  · have honward := onward_of_reaches hsound rfl hbefore hlater
    have hrotated : Rotated app j token response' pool.state.history :=
      (hpool.outcome hdone).1.1
    obtain ⟨⟨at_, hverified⟩, -⟩ :=
      hrotated.underWay hpool.invariant hfresh honward hloggedOut
    have hlt := submitted_of_verified hsound rfl hearlier hverified
    omega
  · obtain ⟨hsecret, -, hlive⟩ := World.tokenVerifies_iff.mp hverifies
    exact hrecorded accessToken token rfl jti hjti hnonempty hsecret hlive

/-! ## A logout of the admin -/

/-- The seeded admin logs in. -/
def logsIn : List (Move Request Draw Surroundings) :=
  alone 0 (Request.seedAdmin "+201" "secret") 6 ++
    alone 1 (Request.login ⟨"+201", "secret"⟩) 4

/-- The logout of the admin, its last action under the given draw. -/
def logsOut (last : Draw) : List (Move Request Draw Surroundings) :=
  List.replicate 3 (.advance 2 sampleDraw) ++ [.advance 2 last]

/-- A refresh with the token of the login, which acts `count` times. -/
def refreshesLater (count : ℕ) : List (Move Request Draw Surroundings) :=
  aloneUnder renewedDraw 3 (.refresh adminRefreshToken) count

/-- A run of the admin's logout and of a later refresh, in a backend of the
given handlers. -/
structure LogoutRun
    (S : System Request Draw Surroundings World HttpError Response)
    (earlier pool : Pool Request Draw World HttpError Response)
    (response : Response) : Prop where
  reached : S.Reaches (Request.LogsOutIssued (sampleDeployment .console))
    (Pool.start 0) earlier
  later : S.Reaches (Request.LogsOutIssued (sampleDeployment .console))
    earlier pool
  fresh : FreshJtis pool.state.history
  out : earlier.threads[2]? = some ⟨adminLogout, .done response⟩
  count : earlier.threads.length = 3
  verifies : earlier.state.tokenVerifies adminRefreshToken
    (sampleDeployment .console).config.jwtRefreshSecret = true

theorem exists_logoutRun
    {S : System Request Draw Surroundings World HttpError Response}
    {last : Draw} {count : ℕ}
    {check : Pool Request Draw World HttpError Response → Bool}
    (hrun : (S.run logsIn (Pool.start 0)).any (fun first =>
      decide (.minted 1 adminRefreshToken ∈ first.state.history ∧
        .wrote 1 0 (.saveRefreshToken "jti" 1 2592000000000) ∈
          first.state.history) &&
      (S.run (.submit adminLogout :: logsOut last) first).any fun earlier =>
        earlier.answers 2 adminLogout &&
        decide (earlier.threads.length = 3) &&
        earlier.state.tokenVerifies adminRefreshToken
          (sampleDeployment .console).config.jwtRefreshSecret &&
        (S.run (refreshesLater count) earlier).any fun pool =>
          decide (FreshJtis pool.state.history) && check pool) = true) :
    ∃ earlier pool response, LogoutRun S earlier pool response ∧
      check pool = true := by
  obtain ⟨first, hfirst, hcheck⟩ := (Option.any_eq_true _ _).mp hrun
  simp only [Bool.and_eq_true, decide_eq_true_eq] at hcheck
  obtain ⟨hissued, hcheck⟩ := hcheck
  obtain ⟨earlier, hearlier, hcheck⟩ := (Option.any_eq_true _ _).mp hcheck
  simp only [Bool.and_eq_true, decide_eq_true_eq] at hcheck
  obtain ⟨⟨⟨hout, hcount⟩, hverifies⟩, hcheck⟩ := hcheck
  obtain ⟨pool, hpool, hcheck⟩ := (Option.any_eq_true _ _).mp hcheck
  simp only [Bool.and_eq_true, decide_eq_true_eq] at hcheck
  obtain ⟨hfresh, hcheck⟩ := hcheck
  obtain ⟨response, hdone⟩ := Pool.done_of_answers hout
  have hfirst' : S.Reaches
      (Request.LogsOutIssued (sampleDeployment .console)) (Pool.start 0)
      first :=
    System.Reaches.refl.run (logsOutIssued_of_forall rfl) hfirst
  have hsubmit : S.perform (.submit adminLogout) first =
      some ⟨first.state, first.threads ++ [⟨adminLogout, _⟩]⟩ := rfl
  have hsubmitted := hfirst'.step (fun request hmove => by
    cases hmove
    exact fun _ => issued_of_any rfl hissued) hsubmit
  exact ⟨earlier, pool, response,
    { reached := hsubmitted.run (logsOutIssued_of_forall rfl) hearlier
      later := System.Reaches.refl.run (logsOutIssued_of_forall (by
        simp [refreshesLater, aloneUnder, Move.submitted])) hpool
      fresh := hfresh
      out := hdone
      count := hcount
      verifies := hverifies }, hcheck⟩

/-- Nothing fails, and the revocation is recorded. -/
theorem completed_logout_revokes_admin :
    ∃ earlier pool response,
      LogoutRun (revokingBackend (sampleDeployment .console)) earlier pool
        response ∧
      (∀ response', pool.threads[3]? ≠
        some ⟨.refresh adminRefreshToken, .done response'⟩) ∧
      ∃ at_, .wrote 2 at_ (.revokeRefreshToken "jti" at_) ∈
        earlier.state.history := by
  obtain ⟨earlier, pool, response, hrun, -⟩ :=
    @exists_logoutRun (revokingBackend (sampleDeployment .console)) sampleDraw
      2 (fun pool => (pool.refusal 3).isSome) (by decide +kernel)
  have hrevokes := completed_logout_revokes (sampleDeployment .console)
    hrun.reached hrun.later hrun.fresh hrun.out
  exact ⟨earlier, pool, response, hrun,
    fun response' => hrevokes.1 3 response' hrun.count.le,
    hrevokes.2 hrun.verifies "jti" rfl (by decide)⟩

/-- The UPDATE of a logout fails, the call returns, and a later refresh with
its token succeeds. -/
theorem not_always_revokes :
    ¬ ∀ (app : Deployment) (now i j : ℕ)
      (earlier pool : Pool Request Draw World HttpError Response)
      (accessToken token : Token) (response response' : Response),
      (backend app).Reaches (Request.LogsOutIssued app) (Pool.start now)
        earlier →
      (backend app).Reaches (Request.LogsOutIssued app) earlier pool →
      FreshJtis pool.state.history →
      earlier.threads[i]? =
        some ⟨.logout accessToken token, .done response⟩ →
      earlier.state.tokenVerifies token app.config.jwtRefreshSecret = true →
      earlier.threads.length ≤ j →
      pool.threads[j]? ≠ some ⟨.refresh token, .done response'⟩ := by
  intro hclaim
  obtain ⟨earlier, pool, response, hrun, hcheck⟩ :=
    @exists_logoutRun (backend (sampleDeployment .console))
      { sampleDraw with databaseFails := true } 6
      (fun pool => pool.answers 3 (.refresh adminRefreshToken))
      (by decide +kernel)
  obtain ⟨response', hdone⟩ := Pool.done_of_answers hcheck
  exact hclaim (sampleDeployment .console) 0 2 3 earlier pool adminToken
    adminRefreshToken response response' hrun.reached hrun.later hrun.fresh
    hrun.out hrun.verifies hrun.count.le hdone

end MarketPlace
