import MarketPlace.AccountHistories
import MarketPlace.GivenRuns

/-!
# Token epochs

A token carries the token version of the row it was minted from, and every
promotion, demotion and deletion that hits a row raises its version.  A lookup
that finds the token's version therefore finds a live user, none of whose
epochs has ended since the token's row was read.
-/

namespace MarketPlace

open EventLog Interleaving

variable {app : Deployment} {history past : List Event} {event : Event}
  {i j id : ℕ} {row row' : UserRow} {token : Token}
  {pool : Pool Request Draw World HttpError Response}

/-! ## Versions along a history -/

/-- No promotion, demotion or deletion has hit the user after `past`. -/
def NoMoveSince (id : ℕ) (past history : List Event) : Prop :=
  ∀ event before, Happened event before history → past <:+ before →
    ¬ event.MovesEpoch id before

theorem noMoveSince_self (id : ℕ) (past : List Event) :
    NoMoveSince id past past := by
  intro event before hevent hsuffix
  have hlength := List.IsSuffix.length_le hevent
  have hle := hsuffix.length_le
  rw [List.length_cons] at hlength
  omega

theorem NoMoveSince.cons (h : NoMoveSince id past history)
    (hnot : ¬ event.MovesEpoch id history) :
    NoMoveSince id past (event :: history) := by
  intro other before hother hsuffix
  rcases happened_cons.mp hother with ⟨rfl, rfl⟩ | hother
  · exact hnot
  · exact h other before hother hsuffix

/-- The version of a row never falls, and while it stays the row keeps its
admin flag and its mark of deletion. -/
theorem LawfulHistory.version_since (hlawful : LawfulHistory app history)
    (hsuffix : past <:+ history)
    (hbefore : (stored past).users.get id = some row) :
    ∃ row', (stored history).users.get id = some row' ∧
      row.tokenVersion ≤ row'.tokenVersion ∧
      (row'.tokenVersion = row.tokenVersion →
        NoMoveSince id past history ∧
        (row.isAdmin = true → row'.isAdmin = true) ∧
        row'.deletedAt = row.deletedAt) := by
  refine since (fun log => ∃ row', (stored log).users.get id = some row' ∧
    row.tokenVersion ≤ row'.tokenVersion ∧
    (row'.tokenVersion = row.tokenVersion →
      NoMoveSince id past log ∧
      (row.isAdmin = true → row'.isAdmin = true) ∧
      row'.deletedAt = row.deletedAt)) hsuffix
    ⟨row, hbefore, le_rfl, fun _ => ⟨noMoveSince_self id past, fun h => h, rfl⟩⟩
    ?_
  rintro event before hevent - ⟨row', hget, hle, hkept⟩
  refine ⟨event.onUser row', (hlawful.justified hevent).user_step hget, ?_⟩
  by_cases hmoves : event.MovesEpoch id before
  · have hversion := Event.onUser_of_moves hget hmoves
    constructor
    · omega
    · intro heq
      omega
  · obtain ⟨hversion, hadmin, hdeleted⟩ :=
      Event.onUser_of_not_moves hget hmoves
    constructor
    · omega
    · intro heq
      obtain ⟨hnone, hadmin', hdeleted'⟩ := hkept (hversion.symm.trans heq)
      exact ⟨hnone.cons hmoves, fun h => hadmin (hadmin' h),
        hdeleted.trans hdeleted'⟩

/-- Before a row is there, nothing hits it. -/
theorem not_moves_of_absent (habsent : (stored past).users.get id = none) :
    ¬ event.MovesEpoch id past := by
  rintro ⟨i, now, write, row, -, hget, -⟩
  rw [habsent] at hget
  contradiction

theorem LawfulHistory.absent_before (hlawful : LawfulHistory app history)
    (hsuffix : past <:+ history)
    (habsent : (stored history).users.get id = none) :
    (stored past).users.get id = none := by
  by_contra hpresent
  obtain ⟨row, hrow⟩ := Option.ne_none_iff_exists'.mp hpresent
  obtain ⟨row', hrow', -⟩ := hlawful.user_since hsuffix hrow
  rw [habsent] at hrow'
  contradiction

/-! ## What an accepted token is worth -/

/-- The token was minted from a read of its user's row, or for an account that
was being created; `past` is what had happened before that. -/
inductive MintedSince (i : ℕ) (token : Token) (past history : List Event) :
    Prop where
  | read (row : UserRow) (hread : Happened (.userRead i row) past history)
      (hsub : row.id = token.sub)
  | created (row : UserRow)
      (hqueued : Happened (.queued i (.insertUser row)) past history)
      (hsub : row.id = token.sub)

/-- What the epoch law says of a token that is accepted after `past`, where
the lookup finds `row`. -/
structure OfCurrentEpoch (token : Token) (row : UserRow) (past : List Event) :
    Prop where
  stored : (stored past).users.get token.sub = some row
  live : row.deletedAt = none
  minted : ∃ j, .minted j token ∈ past
  unmoved : ∀ j before, Happened (.minted j token) before past →
    ∃ origin, MintedSince j token origin before ∧
      NoMoveSince token.sub origin past
  admin : token.isAdmin = true → row.isAdmin = true
  neverDeleted : ∀ j now at_ before,
    Happened (.wrote j now (.deleteUser token.sub at_)) before past →
    (MarketPlace.stored before).liveUserById token.sub = none

theorem LawfulHistory.noMove_of_read {before : List Event}
    (hlawful : LawfulHistory app history)
    (hread : Happened (.userRead j row) before history)
    (hget : (stored history).users.get row.id = some row')
    (hversion : row'.tokenVersion = row.tokenVersion) :
    NoMoveSince row.id before history ∧
      (row.isAdmin = true → row'.isAdmin = true) := by
  have hbefore : (stored before).users.get row.id = some row :=
    hlawful.justified hread
  obtain ⟨other, hother, -, hkept⟩ :=
    hlawful.version_since hread.older hbefore
  rw [hget, Option.some.injEq] at hother
  subst hother
  obtain ⟨hnone, hadmin, -⟩ := hkept hversion
  exact ⟨hnone, hadmin⟩

theorem LawfulHistory.noMove_of_created {before : List Event} {first : UserRow}
    (hlawful : LawfulHistory app history)
    (hqueued : Happened (.queued j (.insertUser first)) before history)
    (hget : (stored history).users.get first.id = some row)
    (hversion : row.tokenVersion = 0) :
    NoMoveSince first.id before history := by
  obtain ⟨other, past, hinserted, hid, -⟩ := hlawful.user_inserted hget
  obtain ⟨i, now, hwrote⟩ := hinserted.happened
  have hqueued' := hlawful.queued_of_wrote_user hwrote
  have hsame : other = first :=
    hlawful.queued_user_unique (hwrote.older.subset hqueued') hqueued.mem hid
  subst hsame
  obtain ⟨row', hrow', -, hkept⟩ :=
    hlawful.version_since hwrote (hinserted.stored i now)
  rw [hget, Option.some.injEq] at hrow'
  subst hrow'
  obtain ⟨-, -, hfresh, -⟩ := hlawful.justified hqueued
  obtain ⟨hnone, -⟩ := hkept (hversion.trans hfresh.symm)
  intro event rest hevent hsuffix
  rcases hwrote.compare hevent with hlt | hlt | ⟨rfl, rfl⟩
  · exact not_moves_of_absent ((hlawful.before hwrote.older).absent_before
      hlt.older hinserted.absent)
  · exact hnone event rest hevent hlt
  · exact not_moves_of_absent hinserted.absent

theorem LookedUp.ofCurrentEpoch {secret : String}
    (hlawful : LawfulHistory app history)
    (hlooked : LookedUp i secret token row past history) :
    OfCurrentEpoch token row past := by
  have hpast := hlawful.before hlooked.read.older
  have hget : (stored past).users.get token.sub = some row := by
    rw [← hlooked.user]
    exact hlawful.justified hlooked.read
  have horigin : ∀ j before, Happened (.minted j token) before past →
      Origin j token before :=
    fun j before hminted => hpast.justified hminted
  obtain ⟨at_, before, hverified⟩ := hlooked.verified
  obtain ⟨-, k, hsigned⟩ := hpast.justified hverified
  have hminted : .minted k token ∈ past := hverified.older.subset hsigned
  refine ⟨hget, hlooked.live, ⟨k, hminted⟩, ?_, ?_, ?_⟩
  · intro j before hminted
    cases horigin j before hminted with
    | read first origin hread hsub hversion hadmin hlive hactive =>
        refine ⟨origin, .read first hread hsub.symm, ?_⟩
        rw [hsub] at hget
        have hkept := hpast.noMove_of_read (hread.later hminted.older) hget
          (hlooked.version.trans hversion)
        rw [hsub]
        exact hkept.1
    | created first origin hqueued hsub hversion hadmin =>
        refine ⟨origin, .created first hqueued hsub.symm, ?_⟩
        rw [hsub] at hget
        rw [hsub]
        exact hpast.noMove_of_created (hqueued.later hminted.older) hget
          (hlooked.version.trans hversion)
  · intro hclaim
    obtain ⟨before, hminted⟩ := exists_happened hminted
    cases horigin k before hminted with
    | read first origin hread hsub hversion hadmin hlive hactive =>
        rw [hsub] at hget
        have hkept := hpast.noMove_of_read (hread.later hminted.older) hget
          (hlooked.version.trans hversion)
        exact hkept.2 (hadmin.symm.trans hclaim)
    | created first origin hqueued hsub hversion hadmin =>
        rw [hadmin] at hclaim
        contradiction
  · intro j now at_ before hdelete
    by_contra hhit
    obtain ⟨hit, hhit⟩ := Option.ne_none_iff_exists'.mp hhit
    obtain ⟨hfound, hid, hlive⟩ := Database.get_of_liveUserById hhit
    rw [hid] at hfound
    have hdeleted := (hpast.justified hdelete).user_step hfound
    obtain ⟨row', hrow', -, hstays⟩ := hpast.user_since hdelete hdeleted
    rw [hget, Option.some.injEq] at hrow'
    subst hrow'
    have hgone := hstays (by
      simp [Event.onUser, Write.onUser, hid, hlive])
    rw [hlooked.live] at hgone
    contradiction

/-- The secret and the token of a request that `JwtStrategy` or
`AuthService.refresh` lets in. -/
def Request.presents (app : Deployment) : Request → Option (String × Token)
  | .refresh refreshToken =>
      some (app.config.jwtRefreshSecret, refreshToken)
  | request =>
      request.accessToken.map fun token => (app.config.jwtAccessSecret, token)

theorem Reachable.lookedUp (hreach : Reachable app pool)
    {request : Request} {secret : String} {response : Response}
    (hpresents : request.presents app = some (secret, token))
    (hdone : pool.threads[i]? = some ⟨request, .done response⟩) :
    ∃ row past, LookedUp i secret token row past pool.state.history := by
  obtain ⟨hachieves, hguard⟩ := hreach.ensures hdone
  unfold Request.presents at hpresents
  split at hpresents
  · cases hpresents
    obtain ⟨row, past, -, hlooked⟩ := hachieves
    exact ⟨row, past, hlooked⟩
  · obtain ⟨accessToken, haccess, heq⟩ := Option.map_eq_some_iff.mp hpresents
    cases heq
    exact hguard token haccess

/-- Whenever a token is accepted, its user is live at the lookup, has not been
promoted, demoted or deleted since the token's row was read, and is an admin
if the token says so. -/
theorem accepted_ofCurrentEpoch (hreach : Reachable app pool)
    {request : Request} {secret : String} {response : Response}
    (hpresents : request.presents app = some (secret, token))
    (hdone : pool.threads[i]? = some ⟨request, .done response⟩) :
    ∃ row past, LookedUp i secret token row past pool.state.history ∧
      OfCurrentEpoch token row past := by
  obtain ⟨row, past, hlooked⟩ := hreach.lookedUp hpresents hdone
  exact ⟨row, past, hlooked, hlooked.ofCurrentEpoch hreach.traced.lawful⟩

/-- The access token of the first login of the seeded admin. -/
def adminToken : Token :=
  accessTokenFor (sampleDeployment .console) 1 "+201" true 0 0

theorem accepted_ofCurrentEpoch_admin :
    ∃ pool row past, Reachable (sampleDeployment .console) pool ∧
      LookedUp 2 "access-secret" adminToken row past pool.state.history ∧
      OfCurrentEpoch adminToken row past := by
  obtain ⟨pool, hreach, hcheck⟩ := exists_reachable_of_run
    (show ((backend (sampleDeployment .console)).run
      (alone 0 (.seedAdmin "+201" "secret") 6 ++
        alone 1 (.login ⟨"+201", "secret"⟩) 4 ++
        alone 2 (.authenticate adminToken) 2) (Pool.start 0)).any (fun pool =>
          pool.answers 2 (.authenticate adminToken)) = true by decide +kernel)
  obtain ⟨response, hdone⟩ := Pool.done_of_answers hcheck
  obtain ⟨row, past, hlooked, hcurrent⟩ :=
    accepted_ofCurrentEpoch hreach rfl hdone
  exact ⟨pool, row, past, hreach, hlooked, hcurrent⟩

end MarketPlace
