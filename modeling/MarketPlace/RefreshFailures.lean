import MarketPlace.LoneHandlers
import MarketPlace.PasswordSessions
import MarketPlace.RefreshRotation

/-!
# A refresh that fails

`refresh` deletes the row of the presented token before it reads the user, signs
the new tokens and stores their jti, each in a statement of its own.  Where one
of these fails, the presented token is usable again only if it was the deletion
itself that failed.

Signing can fail here, under draws that are given.
-/

namespace MarketPlace

open Interleaving Relational

variable {β γ : Type} {app : Deployment} {i : ℕ} {ws : List Draw}
  {w t : World} {token : Token} {jti : String}

/-! ## Signing that can fail -/

def signingError : HttpError := ⟨.internal, "Internal server error"⟩

variable (signingFails : Draw → Bool)

/-- `generateTokens`, whose signing step fails under these draws. -/
def generateTokensOr (app : Deployment) (user : UserRow) : Handler Tokens := do
  let jti ← draw Draw.jti
  let fails ← draw signingFails
  if fails then throw signingError
  else
    signAndSave app user.id user.phone user.isAdmin user.tokenVersion none jti

/-- What `refresh` does for a token whose row it has taken. -/
def refreshStored (generate : UserRow → Handler Tokens) (refreshToken : Token) :
    Handler Response := do
  let query ← selectUser none fun db => db.liveUserById refreshToken.sub
  match query with
  | none => throw invalidRefreshToken
  | some user =>
      if user.status ≠ .active then throw invalidRefreshToken
      else if user.tokenVersion ≠ refreshToken.tokenVersion then
        throw invalidRefreshToken
      else do
        let tokens ← generate user
        pure (.refreshed tokens)

/-- `refresh` over what it generates the new tokens with. -/
def refreshWith (app : Deployment) (generate : UserRow → Handler Tokens)
    (refreshToken : Token) : Handler Response := do
  tryCatch (verifyAsync refreshToken app.config.jwtRefreshSecret) fun _ =>
    throw invalidRefreshToken
  match refreshToken.jti with
  | none => throw invalidRefreshToken
  | some jti =>
      if jti = "" then throw invalidRefreshToken
      else do
        let storedUserId ← consumeRefreshTokenJti app jti
        if storedUserId ≠ some refreshToken.sub then throw invalidRefreshToken
        else refreshStored generate refreshToken

theorem refresh_eq :
    refresh app token =
      refreshWith app (fun user => generateTokens app user.id user.phone
        user.isAdmin user.tokenVersion none) token := rfl

def refreshOr (app : Deployment) (refreshToken : Token) : Handler Response :=
  refreshWith app (generateTokensOr signingFails app) refreshToken

/-! ## Positions of a run -/

@[simp] theorem failsAt_zero {d : Draw} {rest : List Draw} :
    FailsAt (d :: rest) 0 ↔ d.databaseFails = true := by
  simp [FailsAt]

@[simp] theorem failsAt_succ {d : Draw} {rest : List Draw} {position : ℕ} :
    FailsAt (d :: rest) (position + 1) ↔ FailsAt rest position := by
  simp [FailsAt]

@[simp] theorem failsAt_append {front rest : List Draw} {position : ℕ} :
    FailsAt (front ++ rest) (position + front.length) ↔ FailsAt rest position := by
  simp [FailsAt, List.getElem?_append_right]

/-! ## Usable tokens -/

/-- A refresh token that a retry is answered for. -/
structure UsableToken (app : Deployment) (w : World) (token : Token) :
    Prop where
  verifies : w.tokenVerifies token app.config.jwtRefreshSecret = true
  stored : ∃ jti, token.jti = some jti ∧ jti ≠ "" ∧
    ConsumableRow w.db jti token.sub w.now
  current : ∃ row, CurrentIn w.db token row ∧ row.status = .active

/-- Where no transaction holds the rows of tokens, `refresh` answers exactly
for the usable ones. -/
theorem usableToken_iff {d : Draw} (hd : d.databaseFails = false)
    (hfree : RefreshRowsFree w) :
    UsableToken app w token ↔
      ∃ response t, (refresh app token).Returns i d w response t := by
  rw [refresh_accepts_iff hd hfree]
  exact ⟨fun h => ⟨h.verifies, h.stored, h.current⟩,
    fun h => ⟨h.1, h.2.1, h.2.2⟩⟩

/-! ## The steps of a refresh -/

/-- A token that verifies is verified. -/
theorem ends_verified_bind {secret : String} {error : HttpError}
    {next : Unit → Handler γ} {result : Except HttpError γ}
    (hverifies : w.tokenVerifies token secret = true)
    (h : (tryCatch (verifyAsync token secret) (fun _ => throw error) >>=
      next).Ends i ws w result t) :
    ∃ d rest, ws = d :: rest ∧
      (next ()).Ends i rest (w.record (.verified i w.now token)) result t := by
  obtain ⟨d, rest, outcome, u, rfl, haction, hnext⟩ := h
  simp only [hverifies, if_true, Option.some.injEq, Prod.mk.injEq] at haction
  obtain ⟨rfl, rfl⟩ := haction
  exact ⟨d, rest, rfl, hnext⟩

/-- The world after the row of the jti is deleted, with what Redis then
holds. -/
def World.consumed (i : ℕ) (jti : String) (redis : List RedisEntry) (w : World) :
    World :=
  { w with redis := redis }.autocommit i (.consumeRefreshToken jti w.now)

/-- The DELETE fails, or it is made and the row that was there returned. -/
theorem ends_consumeRefreshTokenJti {result : Except HttpError (Option ℕ)}
    (h : (consumeRefreshTokenJti app jti).Ends i ws w result t) :
    ∃ front d redis, ws = front ++ [d] ∧ front.length = redisActions app ∧
      ((d.databaseFails = true ∧ result = .error databaseError ∧
        t = { w with redis := redis }) ∨
      (d.databaseFails = false ∧
        result = .ok (consumedUserId jti w.db
          (w.db.apply (.consumeRefreshToken jti w.now))) ∧
        t = w.consumed i jti redis)) := by
  obtain ⟨front, rest, redis, rfl, hlength, hexecute⟩ := ends_tryRedisDel_bind h
  obtain ⟨d, rest', rfl, ⟨hfails, rfl, rfl, rfl⟩ | ⟨hanswers, hdone⟩⟩ :=
    ends_execute_bind (Program.ends_bind_pure.mpr hexecute)
  · exact ⟨front, d, redis, rfl, hlength, .inl ⟨hfails, rfl, rfl⟩⟩
  · obtain ⟨rfl, rfl, rfl⟩ := hdone
    exact ⟨front, d, redis, rfl, hlength, .inr ⟨hanswers, rfl, rfl⟩⟩

theorem ends_consumeRefreshTokenJti_bind {next : Option ℕ → Handler γ}
    {result : Except HttpError γ}
    (h : (consumeRefreshTokenJti app jti >>= next).Ends i ws w result t) :
    ∃ front d rest redis, ws = front ++ d :: rest ∧
      front.length = redisActions app ∧
      ((d.databaseFails = true ∧ rest = [] ∧ t = { w with redis := redis } ∧
        result = .error databaseError) ∨
      (d.databaseFails = false ∧
        (next (consumedUserId jti w.db
          (w.db.apply (.consumeRefreshToken jti w.now)))).Ends i rest
            (w.consumed i jti redis) result t)) := by
  rcases Program.ends_bind.mp h with
    ⟨error, rfl, hends⟩ | ⟨first, rest, value, u, rfl, hends, hnext⟩
  · obtain ⟨front, d, redis, rfl, hlength, ⟨hfails, herror, rfl⟩ | ⟨_, hok, _⟩⟩ :=
      ends_consumeRefreshTokenJti hends
    · exact ⟨front, d, [], redis, rfl, hlength,
        .inl ⟨hfails, rfl, rfl, congrArg _ (Except.error.inj herror)⟩⟩
    · cases hok
  · obtain ⟨front, d, redis, rfl, hlength, ⟨_, herror, _⟩ | ⟨hanswers, hok, rfl⟩⟩ :=
      ends_consumeRefreshTokenJti hends
    · cases herror
    · obtain rfl := Except.ok.inj hok
      exact ⟨front, d, rest, redis, by simp, hlength, .inr ⟨hanswers, hnext⟩⟩

theorem ends_generateTokensOr {user : UserRow} {result : Except HttpError Tokens}
    (h : (generateTokensOr signingFails app user).Ends i ws w result t) :
    ∃ d d' rest, ws = d :: d' :: rest ∧
      ((signingFails d' = true ∧ rest = [] ∧ t = w ∧
        result = .error signingError) ∨
      (signingFails d' = false ∧
        (signAndSave app user.id user.phone user.isAdmin user.tokenVersion none
          d.jti).Ends i rest w result t)) := by
  obtain ⟨d, rest, rfl, hsigning⟩ := ends_draw_bind h
  obtain ⟨d', rest', rfl, hrest⟩ := ends_draw_bind hsigning
  refine ⟨d, d', rest', rfl, ?_⟩
  cases hfails : signingFails d' with
  | true =>
      rw [hfails, if_pos rfl] at hrest
      obtain ⟨rfl, rfl, rfl⟩ := hrest
      exact .inl ⟨rfl, rfl, rfl, rfl⟩
  | false =>
      rw [hfails, if_neg Bool.false_ne_true] at hrest
      exact .inr ⟨rfl, hrest⟩

/-! ## Where it fails -/

/-- A statement of Postgres or the signing step fails after the token was
verified: the DELETE, the SELECT of the user, signing, or the INSERT. -/
def FailsInside (app : Deployment) (ws : List Draw) : Prop :=
  FailsAt ws (1 + redisActions app) ∨ FailsAt ws (2 + redisActions app) ∨
    (∃ d, ws[4 + redisActions app]? = some d ∧ signingFails d = true) ∨
      FailsAt ws (6 + 2 * redisActions app)

/-- What `refresh` has to leave. -/
def AllOrNothing (app : Deployment) (token : Token)
    (result : Except HttpError Response) (t : World) : Prop :=
  (∃ tokens, result = .ok (.refreshed tokens) ∧
    UsableToken app t tokens.refreshToken) ∨
  UsableToken app t token

theorem UsableToken.of_same {u : World} (h : UsableToken app w token)
    (hstore : u.store = w.store) (hnow : u.now = w.now)
    (hhistory : w.history ⊆ u.history) : UsableToken app u token := by
  have hdb : u.db = w.db := congrArg ReadCommitted.Store.committed hstore
  obtain ⟨hsecret, ⟨j, hsigned⟩, hfresh⟩ := World.tokenVerifies_iff.mp h.verifies
  have hseconds : u.seconds = w.seconds := congrArg (· / 1000000) hnow
  refine ⟨World.tokenVerifies_iff.mpr ⟨hsecret, ⟨j, hhistory hsigned⟩, ?_⟩, ?_, ?_⟩
  · rwa [hseconds]
  · rw [hdb, hnow]
    exact h.stored
  · rw [hdb]
    exact h.current

theorem not_usableToken_of_spent (hjti : token.jti = some jti)
    (hspent : TokenSpent t.db jti) : ¬ UsableToken app t token := by
  rintro ⟨-, ⟨other, hother, -, hrow⟩, -⟩
  obtain rfl := Option.some.inj (hjti.symm.trans hother)
  exact hspent.not_consumable hrow

/-- How a refresh of a usable token ends: the DELETE fails and leaves what was
there, or it is made; and then some later step fails, or none of them does. -/
inductive RefreshEnd (app : Deployment) (jti : String) (i : ℕ) (ws : List Draw)
    (w : World) (result : Except HttpError Response) (t : World) : Prop where
  | refused (hdelete : FailsAt ws (1 + redisActions app))
      (herror : result = .error databaseError)
      (hstore : t.store = w.store) (hnow : t.now = w.now)
      (hhistory : w.history ⊆ t.history)
  | lost (hdelete : ¬ FailsAt ws (1 + redisActions app))
      (herror : ∃ error, result = .error error)
      (hdb : t.db = w.db.apply (.consumeRefreshToken jti w.now))
  | refreshed (hnone : ¬ FailsInside signingFails app ws)

/-- Once the row is taken, a later step fails and nothing more is stored, or
none of them does. -/
theorem ends_refreshStored {user : UserRow}
    (hlive : w.db.liveUserById token.sub = some user)
    (hactive : user.status = .active)
    (hversion : user.tokenVersion = token.tokenVersion)
    {result : Except HttpError Response}
    (h : (refreshStored (generateTokensOr signingFails app) token).Ends i ws w
      result t) :
    (t.db = w.db ∧ ∃ error, result = .error error) ∨
      (¬ FailsAt ws 0 ∧ (¬ ∃ d, ws[2]? = some d ∧ signingFails d = true) ∧
        ¬ FailsAt ws (4 + redisActions app)) := by
  obtain ⟨d, rest, rfl, ⟨_, _, rfl, rfl⟩ | ⟨hanswers, hread⟩⟩ :=
    ends_selectUser_bind h
  · exact .inl ⟨rfl, _, rfl⟩
  have hquery : (w.viewFor none i).liveUserById token.sub = some user := hlive
  simp only [hquery, Option.elim_some, hactive, hversion, ne_eq,
    not_true_eq_false, if_false] at hread
  rcases Program.ends_bind.mp hread with
    ⟨error, rfl, hgenerate⟩ | ⟨first, rest, tokens, v, rfl, hgenerate, rfl, rfl, rfl⟩
  · obtain ⟨dj, ds, rest, rfl, ⟨_, _, rfl, _⟩ | ⟨_, hsave⟩⟩ :=
      ends_generateTokensOr signingFails hgenerate
    · exact .inl ⟨rfl, error, rfl⟩
    · obtain ⟨_, _, _, _, _, _, ⟨_, _, rfl⟩ | ⟨_, hok, _⟩⟩ := ends_signAndSave hsave
      · exact .inl ⟨rfl, error, rfl⟩
      · cases hok
  · obtain ⟨dj, ds, rest, rfl, ⟨_, _, _, herror⟩ | ⟨hsigns, hsave⟩⟩ :=
      ends_generateTokensOr signingFails hgenerate
    · cases herror
    · obtain ⟨dm, front, di, redis, rfl, hlength, ⟨_, herror, _⟩ | ⟨hinserts, _, _⟩⟩ :=
        ends_signAndSave hsave
      · cases herror
      · have hinsert : ¬ FailsAt (front ++ [di]) (0 + front.length) := by
          rw [failsAt_append, failsAt_zero, hinserts]
          exact Bool.false_ne_true
        rw [zero_add, hlength] at hinsert
        refine .inr ⟨by simp [hanswers], by simp [hsigns], ?_⟩
        simpa [Nat.add_comm 4] using hinsert

theorem refreshEnd_of_ends (husable : UsableToken app w token)
    (hjti : token.jti = some jti) {result : Except HttpError Response}
    (hends : (refreshOr signingFails app token).Ends i ws w result t) :
    RefreshEnd signingFails app jti i ws w result t := by
  obtain ⟨other, hother, hnonempty, hrow⟩ := husable.stored
  obtain rfl := Option.some.inj (hjti.symm.trans hother)
  obtain ⟨user, ⟨hlive, hversion⟩, hactive⟩ := husable.current
  obtain ⟨dv, rest, rfl, hdelete⟩ :=
    ends_verified_bind husable.verifies (h := hends)
  simp only [hjti, if_neg hnonempty] at hdelete
  obtain ⟨front, dd, rest, redis, rfl, hlength, hcase⟩ :=
    ends_consumeRefreshTokenJti_bind hdelete
  have hposition : ∀ k, (dv :: (front ++ dd :: rest))[k + 1 + redisActions app]? =
      (dd :: rest)[k]? := by
    intro k
    rw [Nat.add_right_comm, List.getElem?_cons_succ, ← hlength,
      List.getElem?_append_right (Nat.le_add_left _ _), Nat.add_sub_cancel]
  have hfirst : FailsAt (dv :: (front ++ dd :: rest)) (1 + redisActions app) ↔
      dd.databaseFails = true := by
    rw [← Nat.zero_add 1, FailsAt, hposition 0]
    exact failsAt_zero
  obtain ⟨hfails, rfl, rfl, rfl⟩ | ⟨hanswers, hstored⟩ := hcase
  · exact .refused (hfirst.mpr hfails) rfl rfl rfl (List.subset_cons_self _ _)
  have hdeleted : ¬ FailsAt (dv :: (front ++ dd :: rest)) (1 + redisActions app) :=
    fun h => Bool.false_ne_true (hanswers.symm.trans (hfirst.mp h))
  have hrecorded : ConsumableRow (w.record (.verified i w.now token)).db jti
      token.sub (w.record (.verified i w.now token)).now := hrow
  rw [consumedUserId_eq_some_iff.mpr hrecorded, if_neg (not_not.mpr rfl)] at hstored
  have huser : (World.consumed i jti redis
      (w.record (.verified i w.now token))).db.liveUserById token.sub = some user :=
    hlive
  rcases ends_refreshStored signingFails huser hactive hversion hstored with
    ⟨hdb, herror⟩ | ⟨hselects, hsigns, hinserts⟩
  · exact .lost hdeleted herror hdb
  · refine .refreshed ?_
    rintro (hfails | hfails | ⟨d, hd, hfails⟩ | hfails)
    · exact hdeleted hfails
    · rw [FailsAt, hposition 1] at hfails
      exact hselects hfails
    · rw [hposition 3] at hd
      exact hsigns ⟨d, hd, hfails⟩
    · rw [show 6 + 2 * redisActions app =
        4 + redisActions app + 1 + 1 + redisActions app by omega, FailsAt,
        hposition] at hfails
      exact hinserts hfails

/-- A failure behind the DELETE leaves neither tokens nor the old one. -/
theorem not_allOrNothing_of_deleted (husable : UsableToken app w token)
    {result : Except HttpError Response}
    (hends : (refreshOr signingFails app token).Ends i ws w result t)
    (hfails : FailsInside signingFails app ws)
    (hdeleted : ¬ FailsAt ws (1 + redisActions app)) :
    ¬ AllOrNothing app token result t := by
  obtain ⟨jti, hjti, -, hrow⟩ := husable.stored
  cases refreshEnd_of_ends signingFails husable hjti hends with
  | refused hdelete herror hstore hnow hhistory => exact absurd hdelete hdeleted
  | lost hdelete herror hdb =>
      have hspent : TokenSpent t.db jti := by
        rw [hdb]
        exact tokenSpent_of_consume hrow
      rintro (⟨tokens, hok, -⟩ | hstill)
      · obtain ⟨error, herror⟩ := herror
        cases herror.symm.trans hok
      · exact not_usableToken_of_spent hjti hspent hstill
  | refreshed hnone => exact absurd hfails hnone

/-- A refresh of a usable token in which a statement or the signing step fails
is all or nothing exactly if it is the DELETE of its row that fails. -/
theorem refresh_all_or_nothing_iff (husable : UsableToken app w token)
    {result : Except HttpError Response}
    (hends : (refreshOr signingFails app token).Ends i ws w result t)
    (hfails : FailsInside signingFails app ws) :
    AllOrNothing app token result t ↔ FailsAt ws (1 + redisActions app) := by
  constructor
  · intro hleaves
    by_contra hdeleted
    exact not_allOrNothing_of_deleted signingFails husable hends hfails hdeleted
      hleaves
  · intro hdelete
    obtain ⟨jti, hjti, -, -⟩ := husable.stored
    cases refreshEnd_of_ends signingFails husable hjti hends with
    | refused _ herror hstore hnow hhistory =>
        exact .inr (husable.of_same hstore hnow hhistory)
    | lost hdeleted herror hdb => exact absurd hdelete hdeleted
    | refreshed hnone => exact absurd hfails hnone

/-! ## A refresh whose read fails -/

def adminLogsIn : List (Move Request Draw Surroundings) :=
  alone 0 (Request.seedAdmin "+201" "secret") 6 ++
    alone 1 (Request.login ⟨"+201", "secret"⟩) 4

/-- The SELECT of the user fails, the third action of the refresh. -/
def readFails : List Draw :=
  [sampleDraw, sampleDraw, { sampleDraw with databaseFails := true }]

def deleteFails : List Draw :=
  [sampleDraw, { sampleDraw with databaseFails := true }]

/-- The token of the admin's first login is usable, and a refresh with it ends
within these draws. -/
def refreshesWithin (ws : List Draw) (w : World) : Bool :=
  w.tokenVerifies adminRefreshToken "refresh-secret" &&
    (w.db.authRefreshTokens.get "jti").any (fun row =>
      row.consumable w.now && decide (row.userId = 1)) &&
    (w.db.liveUserById 1).any (fun row =>
      decide (row.tokenVersion = 0 ∧ row.status = .active)) &&
    ((refreshOr (fun _ => false) (sampleDeployment .console)
      adminRefreshToken).runUnder 2 ws w).isSome

theorem exists_refresh_within {ws : List Draw}
    (hrun : ((backend (sampleDeployment .console)).run adminLogsIn
      (Pool.start 0)).any
      (fun pool => refreshesWithin ws pool.state) = true) :
    ∃ pool result t, Reachable (sampleDeployment .console) pool ∧
      UsableToken (sampleDeployment .console) pool.state adminRefreshToken ∧
      (refreshOr (fun _ => false) (sampleDeployment .console)
        adminRefreshToken).Ends 2 ws pool.state result t := by
  obtain ⟨pool, hreach, hcheck⟩ := exists_reachable_of_run hrun
  simp only [refreshesWithin, Bool.and_eq_true] at hcheck
  obtain ⟨⟨⟨hverifies, hrow⟩, huser⟩, hends⟩ := hcheck
  obtain ⟨⟨result, t⟩, hends⟩ := Option.isSome_iff_exists.mp hends
  obtain ⟨row, hget, hrow⟩ := (Option.any_eq_true _ _).mp hrow
  rw [Bool.and_eq_true, decide_eq_true_eq] at hrow
  obtain ⟨user, hlive, huser⟩ := (Option.any_eq_true _ _).mp huser
  rw [decide_eq_true_eq] at huser
  exact ⟨pool, result, t, hreach,
    ⟨hverifies, ⟨"jti", rfl, by decide, row, hget, hrow.1, hrow.2⟩,
      user, ⟨hlive, huser.1⟩, huser.2⟩,
    Program.ends_of_runUnder hends⟩

theorem refresh_all_or_nothing_iff_refused :
    ∃ pool result t, Reachable (sampleDeployment .console) pool ∧
      (refreshOr (fun _ => false) (sampleDeployment .console)
        adminRefreshToken).Ends 2 deleteFails pool.state result t ∧
      (AllOrNothing (sampleDeployment .console) adminRefreshToken result t ↔
        FailsAt deleteFails (1 + redisActions (sampleDeployment .console))) := by
  obtain ⟨pool, result, t, hreach, husable, hends⟩ := exists_refresh_within
    (show ((backend (sampleDeployment .console)).run adminLogsIn
      (Pool.start 0)).any (fun pool => refreshesWithin deleteFails pool.state) =
        true by decide +kernel)
  exact ⟨pool, result, t, hreach, hends,
    refresh_all_or_nothing_iff _ husable hends (.inl ⟨_, rfl, rfl⟩)⟩

theorem not_refresh_all_or_nothing :
    ¬ ∀ (signingFails : Draw → Bool) (app : Deployment)
      (pool : Pool Request Draw World HttpError Response) (i : ℕ)
      (ws : List Draw) (token : Token) (result : Except HttpError Response)
      (t : World), Reachable app pool → UsableToken app pool.state token →
        (refreshOr signingFails app token).Ends i ws pool.state result t →
        FailsInside signingFails app ws → AllOrNothing app token result t := by
  intro hclaim
  obtain ⟨pool, result, t, hreach, husable, hends⟩ :=
    exists_refresh_within (show ((backend (sampleDeployment .console)).run
      adminLogsIn (Pool.start 0)).any
      (fun pool => refreshesWithin readFails pool.state) = true
      by decide +kernel)
  have hfails : FailsInside (fun _ => false) (sampleDeployment .console)
      readFails := .inr (.inl ⟨_, rfl, rfl⟩)
  refine not_allOrNothing_of_deleted _ husable hends hfails ?_
    (hclaim _ _ pool 2 _ _ result t hreach husable hends hfails)
  rintro ⟨d, hd, hdelete⟩
  obtain rfl := Option.some.inj hd
  contradiction

end MarketPlace
