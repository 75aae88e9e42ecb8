import MarketPlace.TokenEpochs
import MarketPlace.RefreshTokenRows
import MarketPlace.HandlersAlone

/-!
# Sessions and changes of the password

`resetPassword` and `changePassword` write the password's hash and leave the
token version and the rows of auth_refresh_tokens alone.  The tokens of a user
therefore outlive a change of the password: what ends them is their expiry, a
promotion, demotion or deletion, and for a refresh token also its own use or
revocation and the suspension of the user.
-/

namespace MarketPlace

open EventLog Interleaving

variable {app : Deployment} {history past before origin : List Event}
  {event : Event} {i j u : ℕ} {row row' : UserRow} {token : Token}
  {pool : Pool Request Draw World HttpError Response} {w t : World} {d : Draw}

/-! ## Handlers run alone -/

section RunAlone

variable {β : Type} {value : β}

/-- What `JwtStrategy` asks of the row it finds. -/
def CurrentIn (db : Database) (token : Token) (row : UserRow) : Prop :=
  db.liveUserById token.sub = some row ∧ row.tokenVersion = token.tokenVersion

theorem validate_accepts_iff (hd : d.databaseFails = false) :
    (∃ user t, (validate token).Returns i d w user t) ↔
      token.sub ≠ 0 ∧ ∃ row, CurrentIn w.db token row := by
  constructor
  · rintro ⟨user, t, hvalidate⟩
    unfold validate at hvalidate
    split at hvalidate
    · exact absurd hvalidate Program.not_returns_failed
    next hsub =>
    obtain ⟨found, s, hselect, hfound⟩ := Program.returns_bind.mp hvalidate
    obtain ⟨rfl, -⟩ := (returns_selectUser hd).mp hselect
    split at hfound
    · exact absurd hfound Program.not_returns_failed
    next row hrow =>
    split at hfound
    · exact absurd hfound Program.not_returns_failed
    next hversion => exact ⟨hsub, row, hrow, not_not.mp hversion⟩
  · rintro ⟨hsub, row, hrow, hversion⟩
    have hselect : (selectUser none fun db => db.liveUserById token.sub).Returns
        i d w (some row) (w.record (.userRead i row)) := by
      rw [returns_selectUser hd, hrow]
      exact ⟨rfl, rfl⟩
    have hreturns : (validate token).Returns i d w
        ⟨token.sub, row.phone, token.isAdmin, row.tokenVersion⟩
        (w.record (.userRead i row)) := by
      rw [validate, if_neg hsub, Program.returns_bind]
      refine ⟨some row, _, hselect, ?_⟩
      simp [hversion]
    exact ⟨_, _, hreturns⟩

theorem jwtAuthGuard_accepts_iff (hd : d.databaseFails = false) :
    (∃ user t, (jwtAuthGuard app token).Returns i d w user t) ↔
      w.tokenVerifies token app.config.jwtAccessSecret = true ∧
        token.sub ≠ 0 ∧ ∃ row, CurrentIn w.db token row := by
  constructor
  · rintro ⟨user, t, hguard⟩
    obtain ⟨middle, s, hverify, hvalidate⟩ := Program.returns_bind.mp hguard
    obtain ⟨hverifies, rfl⟩ := returns_verifyAsync.mp hverify
    have hcurrent := (validate_accepts_iff hd).mp ⟨user, t, hvalidate⟩
    exact ⟨hverifies, hcurrent⟩
  · rintro ⟨hverifies, hcurrent⟩
    obtain ⟨user, t, hvalidate⟩ := (validate_accepts_iff (i := i)
      (w := w.record (.verified i w.now token)) hd).mpr hcurrent
    exact ⟨user, t, Program.returns_bind.mpr
      ⟨(), _, returns_verifyAsync.mpr ⟨hverifies, rfl⟩, hvalidate⟩⟩

/-- No open transaction holds a row of auth_refresh_tokens. -/
def RefreshRowsFree (w : World) : Prop :=
  ∀ jti, w.store.holder (.refreshToken jti) = none

theorem lockable_of_refreshRowsFree {write : Write}
    (hfree : RefreshRowsFree w)
    (hfootprint : ∀ lock ∈ write.footprint w.db,
      ∃ jti, lock = .refreshToken jti) :
    w.lockable none i write = true := by
  refine List.all_eq_true.mpr fun lock hlock => ?_
  obtain ⟨jti, rfl⟩ := hfootprint lock hlock
  simp [hfree jti]

theorem exists_returns_consume (app : Deployment) (i : ℕ)
    (hd : d.databaseFails = false) (hfree : RefreshRowsFree w)
    (jti : String) :
    ∃ t, RefreshRowsFree t ∧
      t.db = w.db.apply (.consumeRefreshToken jti w.now) ∧
      ∀ value s,
        (consumeRefreshTokenJti app jti).Returns i d w value s ↔
          value = consumedUserId jti w.db t.db ∧ t = s := by
  obtain ⟨r, ⟨hstore, hnow, hids, -⟩, hredis⟩ :=
    exists_returns_tryRedis app i d
      (fun w => ((), w.redisDel (refreshJtiKey jti)))
      (show SameButRedis w _ from ⟨rfl, rfl, rfl, rfl⟩)
  have hfree_r : RefreshRowsFree r := by
    intro jti
    rw [hstore]
    exact hfree jti
  have hdb : r.db = w.db := by
    rw [World.db, hstore]
    rfl
  have hlockable : r.lockable none i (.consumeRefreshToken jti r.now) = true := by
    refine lockable_of_refreshRowsFree hfree_r fun lock hlock => ?_
    obtain ⟨row, -, rfl⟩ := List.mem_map.mp hlock
    exact ⟨row.jti, rfl⟩
  refine ⟨r.autocommit i (.consumeRefreshToken jti r.now), hfree_r, ?_,
    fun value s => ?_⟩
  · rw [← hdb, ← hnow]
    rfl
  · rw [consumeRefreshTokenJti, Program.returns_bind]
    constructor
    · rintro ⟨middle, s', hdel, hexecute⟩
      obtain rfl := (hredis middle s').mp hdel
      obtain ⟨-, rfl, rfl⟩ := (returns_execute hd).mp hexecute
      rw [hdb]
      exact ⟨rfl, rfl⟩
    · rintro ⟨rfl, rfl⟩
      refine ⟨(), r, (hredis () r).mpr rfl, (returns_execute hd).mpr ?_⟩
      rw [hdb]
      exact ⟨hlockable, rfl, rfl⟩

theorem exists_returns_generateTokens (app : Deployment) (i : ℕ)
    (hd : d.databaseFails = false) (hfree : RefreshRowsFree w) (userId : ℕ) (phone : String)
    (isAdmin : Bool) (tokenVersion : ℕ) :
    ∃ tokens t,
      (generateTokens app userId phone isAdmin tokenVersion none).Returns i d
        w tokens t := by
  have hsigned : ∃ tokens s,
      (signTokens app userId phone isAdmin tokenVersion d.jti).Returns i d w
        tokens s ∧ s.store = w.store :=
    ⟨_, _, rfl, rfl⟩
  obtain ⟨tokens, s, hsign, hstore⟩ := hsigned
  obtain ⟨r, ⟨hredis_store, -⟩, hredis⟩ :=
    exists_returns_tryRedis app i d
      (fun w => ((), w.redisSet (refreshJtiKey d.jti)
        (toString userId) (parseTtlSeconds app.config.jwtRefreshTtl)))
      (show SameButRedis s _ from ⟨rfl, rfl, rfl, rfl⟩)
  have hlockable : ∀ expiresAt, r.lockable none i
      (.saveRefreshToken d.jti userId expiresAt) = true := by
    intro expiresAt
    refine lockable_of_refreshRowsFree (fun jti => ?_) fun lock hlock =>
      ⟨d.jti, List.mem_singleton.mp hlock⟩
    rw [hredis_store, hstore]
    exact hfree jti
  have hsave : ∃ t, (saveRefreshTokenJti app d.jti userId
      (parseTtlSeconds app.config.jwtRefreshTtl) none).Returns i d s () t := by
    refine ⟨_, Program.returns_bind.mpr ⟨(), r, (hredis () r).mpr rfl,
      (returns_execute hd).mpr ⟨hlockable _, rfl, rfl⟩⟩⟩
  obtain ⟨t, hsave⟩ := hsave
  refine ⟨tokens, t, Program.returns_bind.mpr
    ⟨d.jti, w, rfl, ?_⟩⟩
  refine Program.returns_bind.mpr ⟨tokens, s, hsign, ?_⟩
  exact Program.returns_bind.mpr
    ⟨(), t, hsave, Program.returns_done.mpr ⟨rfl, rfl⟩⟩

/-- `AuthService.refresh`, once it gets the rows it locks, accepts exactly the
tokens that verify, whose row is there, and whose user is live, active and at
the token's version. -/
theorem refresh_accepts_iff (hd : d.databaseFails = false)
    (hfree : RefreshRowsFree w) :
    (∃ response t, (refresh app token).Returns i d w response t) ↔
      w.tokenVerifies token app.config.jwtRefreshSecret = true ∧
        (∃ jti, token.jti = some jti ∧ jti ≠ "" ∧
          ConsumableRow w.db jti token.sub w.now) ∧
        ∃ row, CurrentIn w.db token row ∧ row.status = .active := by
  constructor
  · rintro ⟨response, t, hrefresh⟩
    obtain ⟨middle, s, hverify, hrest⟩ := Program.returns_bind.mp hrefresh
    obtain ⟨hverifies, rfl⟩ := returns_verifyAsync.mp
      (Program.returns_recover_failed.mp hverify)
    refine ⟨hverifies, ?_⟩
    split at hrest
    · exact absurd hrest Program.not_returns_failed
    next jti hjti =>
    split at hrest
    · exact absurd hrest Program.not_returns_failed
    next hempty =>
    obtain ⟨stored, v, hconsume, hrest⟩ := Program.returns_bind.mp hrest
    obtain ⟨v', -, hdb, hreturns⟩ := exists_returns_consume app i hd
      (show RefreshRowsFree (w.record (.verified i w.now token)) from hfree) jti
    obtain ⟨rfl, rfl⟩ := (hreturns stored v).mp hconsume
    split at hrest
    · exact absurd hrest Program.not_returns_failed
    next hstored =>
    rw [hdb] at hstored
    have hrow := consumedUserId_eq_some_iff.mp (not_not.mp hstored)
    obtain ⟨found, x, hselect, hrest⟩ := Program.returns_bind.mp hrest
    obtain ⟨rfl, -⟩ := (returns_selectUser hd).mp hselect
    split at hrest
    · exact absurd hrest Program.not_returns_failed
    next row hfound =>
    rw [hdb] at hfound
    split at hrest
    · exact absurd hrest Program.not_returns_failed
    next hactive =>
    split at hrest
    · exact absurd hrest Program.not_returns_failed
    next hversion =>
    exact ⟨⟨jti, hjti, hempty, hrow⟩, row, ⟨hfound, not_not.mp hversion⟩,
      not_not.mp hactive⟩
  · rintro ⟨hverifies, ⟨jti, hjti, hempty, hrow⟩, row, ⟨hfound, hversion⟩,
        hactive⟩
    obtain ⟨v, hfree_v, hdb, hreturns⟩ := exists_returns_consume app i hd
      (show RefreshRowsFree (w.record (.verified i w.now token)) from hfree) jti
    have hconsume := (hreturns (some token.sub) v).mpr
      ⟨by rw [hdb]; exact (consumedUserId_eq_some_iff.mpr hrow).symm, rfl⟩
    have hselect : (selectUser none fun db => db.liveUserById token.sub).Returns
        i d v (some row) (v.record (.userRead i row)) := by
      have hlive : v.db.liveUserById token.sub = some row := by
        rw [hdb]
        exact hfound
      rw [returns_selectUser hd, hlive]
      exact ⟨rfl, rfl⟩
    obtain ⟨tokens, t, hgenerate⟩ := exists_returns_generateTokens app i hd
      (show RefreshRowsFree (v.record (.userRead i row)) from hfree_v)
      row.id row.phone row.isAdmin row.tokenVersion
    refine ⟨.refreshed tokens, t, Program.returns_bind.mpr
      ⟨(), _, Program.returns_recover_failed.mpr
        (returns_verifyAsync.mpr ⟨hverifies, rfl⟩), ?_⟩⟩
    rw [hjti]
    dsimp only
    rw [if_neg hempty]
    refine Program.returns_bind.mpr ⟨some token.sub, v, hconsume, ?_⟩
    rw [if_neg (not_not.mpr rfl)]
    refine Program.returns_bind.mpr ⟨some row, _, hselect, ?_⟩
    dsimp only
    rw [if_neg (not_not.mpr hactive), if_neg (not_not.mpr hversion)]
    exact Program.returns_bind.mpr
      ⟨tokens, t, hgenerate, Program.returns_done.mpr ⟨rfl, rfl⟩⟩

end RunAlone

/-! ## The epoch a token was minted in -/

theorem NoMoveSince.weaken (h : NoMoveSince u past history)
    (hsuffix : past <:+ before) : NoMoveSince u before history :=
  fun event rest hevent hrest => h event rest hevent (hsuffix.trans hrest)

theorem LawfulHistory.row_of_noMove (hlawful : LawfulHistory app history)
    (hsuffix : past <:+ history)
    (hget : (stored past).users.get u = some row)
    (hnone : NoMoveSince u past history) :
    ∃ row', (stored history).users.get u = some row' ∧
      row'.tokenVersion = row.tokenVersion ∧
      row'.deletedAt = row.deletedAt := by
  refine since (fun log => ∃ row', (stored log).users.get u = some row' ∧
    row'.tokenVersion = row.tokenVersion ∧ row'.deletedAt = row.deletedAt)
    hsuffix ⟨row, hget, rfl, rfl⟩ ?_
  rintro event before hevent hbefore ⟨row', hget', hversion, hdeleted⟩
  obtain ⟨hversion', -, hdeleted'⟩ :=
    Event.onUser_of_not_moves hget' (hnone event before hevent hbefore)
  exact ⟨event.onUser row', (hlawful.justified hevent).user_step hget',
    hversion'.trans hversion, hdeleted'.trans hdeleted⟩

/-- The row that a token was minted from, and when it was read or queued. -/
inductive MintedFrom (j : ℕ) (token : Token) (origin history : List Event) :
    Prop where
  | read (row : UserRow) (hread : Happened (.userRead j row) origin history)
      (hsub : row.id = token.sub) (hversion : row.tokenVersion = token.tokenVersion)
      (hlive : row.deletedAt = none)
  | created (row : UserRow)
      (hqueued : Happened (.queued j (.insertUser row)) origin history)
      (hsub : row.id = token.sub) (hversion : token.tokenVersion = 0)

theorem Origin.mintedFrom (h : Origin j token history) :
    ∃ origin, MintedFrom j token origin history := by
  cases h with
  | read row past hread hsub hversion hadmin hlive hactive =>
      exact ⟨past, .read row hread hsub.symm hversion.symm hlive⟩
  | created row past hqueued hsub hversion hadmin =>
      exact ⟨past, .created row hqueued hsub.symm hversion⟩

theorem MintedFrom.later (h : MintedFrom j token origin past)
    (hsuffix : past <:+ history) : MintedFrom j token origin history := by
  cases h with
  | read row hread hsub hversion hlive =>
      exact .read row (hread.later hsuffix) hsub hversion hlive
  | created row hqueued hsub hversion =>
      exact .created row (hqueued.later hsuffix) hsub hversion

/-- The insertion of a row comes after the event that queued it. -/
theorem LawfulHistory.origin_of_inserted {now : ℕ}
    (hlawful : LawfulHistory app history)
    (hqueued : Happened (.queued j (.insertUser row)) origin history)
    (hwrote : Happened (.wrote i now (.insertUser row)) past history) :
    origin <:+ past := by
  rcases hqueued.compare hwrote with hbefore | hafter | ⟨heq, -⟩
  · obtain ⟨-, at_, -, -, -, hgrows⟩ := hlawful.justified hqueued
    have hearlier := hlawful.queued_of_wrote_user hwrote
    have hlt := hgrows i row (hbefore.older.subset hearlier)
    exact absurd hlt (lt_irrefl _)
  · exact hafter.older
  · contradiction

theorem LawfulHistory.current_iff (hlawful : LawfulHistory app history)
    (hminted : MintedFrom j token origin history)
    (hthere : (stored history).users.get token.sub = some row') :
    (∃ row, CurrentIn (stored history) token row) ↔
      NoMoveSince token.sub origin history := by
  have hcurrent : ∀ {row}, CurrentIn (stored history) token row →
      row = row' ∧ row.tokenVersion = token.tokenVersion := by
    rintro row ⟨hlive, hversion⟩
    obtain ⟨hget, hid, -⟩ := Database.get_of_liveUserById hlive
    rw [hid, hthere, Option.some.injEq] at hget
    exact ⟨hget.symm, hversion⟩
  have hcurrent' : row'.tokenVersion = token.tokenVersion →
      row'.deletedAt = none → ∃ row, CurrentIn (stored history) token row := by
    intro hversion hlive
    exact ⟨row', by simp [Database.liveUserById, hthere, hlive], hversion⟩
  cases hminted with
  | read row hread hsub hversion hlive =>
      have hbefore : (stored origin).users.get token.sub = some row := by
        rw [← hsub]
        exact hlawful.justified hread
      constructor
      · rintro ⟨found, hfound⟩
        obtain ⟨rfl, hnow⟩ := hcurrent hfound
        rw [← hsub] at hthere ⊢
        exact (hlawful.noMove_of_read hread hthere
          (hnow.trans hversion.symm)).1
      · intro hnone
        obtain ⟨found, hget, hsame, hdeleted⟩ :=
          hlawful.row_of_noMove hread.older hbefore hnone
        rw [hthere, Option.some.injEq] at hget
        subst hget
        exact hcurrent' (hsame.trans hversion) (hdeleted.trans hlive)
  | created row hqueued hsub hversion =>
      rw [← hsub] at hthere
      constructor
      · rintro ⟨found, hfound⟩
        obtain ⟨rfl, hnow⟩ := hcurrent hfound
        rw [← hsub]
        exact hlawful.noMove_of_created hqueued hthere (hnow.trans hversion)
      · intro hnone
        obtain ⟨first, past, hinserted, hid, -⟩ := hlawful.user_inserted hthere
        obtain ⟨i, now, hwrote⟩ := hinserted.happened
        have hearlier := hlawful.queued_of_wrote_user hwrote
        have hsame : first = row := hlawful.queued_user_unique
          (hwrote.older.subset hearlier) hqueued.mem hid
        subst hsame
        have horigin := hlawful.origin_of_inserted hqueued hwrote
        obtain ⟨hfresh, hlive, -⟩ := (hlawful.justified hqueued).2.choose_spec
        rw [← hsub] at hnone
        obtain ⟨found, hget, hversion', hdeleted⟩ :=
          hlawful.row_of_noMove hwrote (hinserted.stored i now)
            (hnone.weaken (horigin.trans (List.suffix_cons _ _)))
        rw [hthere, Option.some.injEq] at hget
        subst hget
        exact hcurrent' (hversion'.trans (hfresh.trans hversion.symm))
          (hdeleted.trans hlive)

/-! ## Sessions after a change of the password -/

/-- The session goes on as if the password had not been changed after
`past`. -/
structure SessionGoesOn (app : Deployment) (w : World) (token : Token)
    (origin past : List Event) : Prop where
  overHttp : ∀ i d, d.databaseFails = false →
    ((∃ user t, (jwtAuthGuard app token).Returns i d w user t) ↔
      token.secret = app.config.jwtAccessSecret ∧ w.seconds < token.exp ∧
        token.sub ≠ 0 ∧ NoMoveSince token.sub origin w.history)
  byRefresh : ∀ i d, d.databaseFails = false → RefreshRowsFree w →
    ((∃ response t, (refresh app token).Returns i d w response t) ↔
      token.secret = app.config.jwtRefreshSecret ∧ w.seconds < token.exp ∧
        (∃ jti, token.jti = some jti ∧ jti ≠ "" ∧
          ConsumableRow w.db jti token.sub w.now) ∧
        (∃ row, w.db.users.get token.sub = some row ∧ row.status = .active) ∧
        NoMoveSince token.sub origin w.history)
  refreshRow : ∀ jti, RefreshRowUntouched jti past w.history →
    w.db.authRefreshTokens.get jti = (stored past).authRefreshTokens.get jti

theorem World.Traced.sessionGoesOn (htraced : w.Traced app)
    (hsuffix : past <:+ w.history)
    (hminted : .minted j token ∈ w.history)
    (horigin : MintedFrom j token origin w.history)
    (hthere : (stored w.history).users.get token.sub = some row) :
    SessionGoesOn app w token origin past := by
  have hcurrent := htraced.lawful.current_iff horigin hthere
  have hverifies : ∀ {secret}, w.tokenVerifies token secret = true ↔
      token.secret = secret ∧ w.seconds < token.exp := by
    intro secret
    rw [World.tokenVerifies_iff]
    exact ⟨fun h => ⟨h.1, h.2.2⟩, fun h => ⟨h.1, ⟨j, hminted⟩, h.2⟩⟩
  refine ⟨fun i d hd => ?_, fun i d hd hfree => ?_, fun jti huntouched => ?_⟩
  · rw [jwtAuthGuard_accepts_iff hd, hverifies, htraced.stores, hcurrent,
      and_assoc]
  · rw [refresh_accepts_iff hd hfree, hverifies, and_assoc, ← hcurrent,
      htraced.stores]
    constructor
    · rintro ⟨hsecret, hfresh, hrow, found, hfound, hactive⟩
      obtain ⟨hget, hid, -⟩ := Database.get_of_liveUserById hfound.1
      rw [hid] at hget
      exact ⟨hsecret, hfresh, hrow, ⟨found, hget, hactive⟩, found, hfound⟩
    · rintro ⟨hsecret, hfresh, hrow, ⟨other, hother, hactive⟩, found, hfound⟩
      obtain ⟨hget, hid, -⟩ := Database.get_of_liveUserById hfound.1
      rw [hid, hother, Option.some.injEq] at hget
      subst hget
      exact ⟨hsecret, hfresh, hrow, other, hfound, hactive⟩
  · rw [htraced.stores]
    exact htraced.lawful.refreshRow_kept hsuffix huntouched

/-- The user whose password a successful request has set. -/
def Request.SetPasswordOf (i u : ℕ) (history : List Event) : Request → Prop
  | .resetPassword dto => ∃ user, .userRead i user ∈ history ∧
      user.phone = dto.phone ∧ user.id = u
  | .changePassword accessToken _ => accessToken.sub = u
  | _ => False

def Request.setsPassword : Request → Bool
  | .resetPassword _ | .changePassword _ _ => true
  | _ => false

theorem Reachable.passwordSet (hreach : Reachable app pool)
    {request : Request} {response : Response}
    (hsets : request.setsPassword = true)
    (hdone : pool.threads[i]? = some ⟨request, .done response⟩) :
    ∃ u at_ hash live now past, request.SetPasswordOf i u pool.state.history ∧
      Happened (.wrote i at_ (.updatePassword u hash live now)) past
        pool.state.history := by
  obtain ⟨hachieves, -⟩ := hreach.ensures hdone
  cases request with
  | resetPassword dto =>
      obtain ⟨result, user, -, hread, hphone, ⟨at_, hash, now, hwrote⟩, -⟩ :=
        hachieves.outcome
      obtain ⟨past, hwrote⟩ := exists_happened hwrote
      exact ⟨user.id, at_, hash, false, now, past, ⟨user, hread, hphone, rfl⟩,
        hwrote⟩
  | changePassword accessToken dto =>
      obtain ⟨at_, hash, now, hwrote⟩ := hachieves
      obtain ⟨past, hwrote⟩ := exists_happened hwrote
      exact ⟨accessToken.sub, at_, hash, true, now, past, rfl, hwrote⟩
  | _ => contradiction

/-- A password is only set on a row that the request has read. -/
theorem LawfulHistory.passwordSet_there {at_ now : ℕ} {hash : String}
    {live : Bool} (hlawful : LawfulHistory app history)
    (hwrote : Happened (.wrote i at_ (.updatePassword u hash live now)) past
      history) :
    ∃ row, (stored history).users.get u = some row := by
  have hread : ∃ row, .userRead i row ∈ past ∧ row.id = u := by
    obtain ⟨-, halone⟩ := hlawful.justified hwrote
    by_cases hqueued : .queued i (.updatePassword u hash live now) ∈ past
    · obtain ⟨before, hqueued⟩ := exists_happened hqueued
      obtain ⟨-, -, row, hread, hid⟩ :=
        (hlawful.before hwrote.older).justified hqueued
      exact ⟨row, hqueued.older.subset hread, hid⟩
    · exact halone hqueued
  obtain ⟨row, hread, rfl⟩ := hread
  obtain ⟨before, hread⟩ := exists_happened hread
  have hget : (stored before).users.get row.id = some row :=
    (hlawful.before hwrote.older).justified hread
  obtain ⟨row', hget', -⟩ :=
    hlawful.user_since (hread.older.trans hwrote.older) hget
  exact ⟨row', hget'⟩

/-- After a successful reset or change of the password, every token that was
minted for the user before it is accepted exactly as it would be without the
change. -/
theorem sessions_outlive_passwordChange (hreach : Reachable app pool)
    {request : Request} {response : Response}
    (hsets : request.setsPassword = true)
    (hdone : pool.threads[i]? = some ⟨request, .done response⟩) :
    ∃ u at_ hash live now past, request.SetPasswordOf i u pool.state.history ∧
      Happened (.wrote i at_ (.updatePassword u hash live now)) past
        pool.state.history ∧
      ∀ j token before, Happened (.minted j token) before past →
        token.sub = u →
        ∃ origin, MintedFrom j token origin before ∧
          SessionGoesOn app pool.state token origin past := by
  obtain ⟨u, at_, hash, live, now, past, huser, hwrote⟩ :=
    hreach.passwordSet hsets hdone
  refine ⟨u, at_, hash, live, now, past, huser, hwrote, ?_⟩
  rintro j token before hminted rfl
  have hlawful := hreach.traced.lawful
  have hbefore := hminted.later hwrote.older
  obtain ⟨row, hthere⟩ := hlawful.passwordSet_there hwrote
  obtain ⟨origin, horigin⟩ :=
    Origin.mintedFrom (hlawful.justified hbefore)
  exact ⟨origin, horigin, hreach.traced.sessionGoesOn hwrote.older hbefore.mem
    (horigin.later hbefore.older) hthere⟩

/-- The seeded admin logs in and changes its password. -/
def changePasswordMoves : List (Move Request Draw Surroundings) :=
  alone 0 (Request.seedAdmin "+201" "secret") 6 ++
    alone 1 (Request.login ⟨"+201", "secret"⟩) 4 ++
    alone 2 (Request.changePassword adminToken ⟨"secret", "renewed"⟩) 5

theorem sessions_outlive_passwordChange_admin :
    ∃ pool u at_ hash live now past, Reachable (sampleDeployment .console) pool ∧
      Happened (.wrote 2 at_ (.updatePassword u hash live now)) past
        pool.state.history ∧
      ∀ j token before, Happened (.minted j token) before past →
        token.sub = u →
        ∃ origin, MintedFrom j token origin before ∧
          SessionGoesOn (sampleDeployment .console) pool.state token origin
            past := by
  obtain ⟨pool, hreach, hcheck⟩ := exists_reachable_of_run
    (show ((backend (sampleDeployment .console)).run changePasswordMoves
      (Pool.start 0)).any (fun pool => pool.answers 2
        (.changePassword adminToken ⟨"secret", "renewed"⟩)) = true
      by decide +kernel)
  obtain ⟨response, hdone⟩ := Pool.done_of_answers hcheck
  obtain ⟨u, at_, hash, live, now, past, -, hwrote, hgoesOn⟩ :=
    sessions_outlive_passwordChange hreach rfl hdone
  exact ⟨pool, u, at_, hash, live, now, past, hreach, hwrote, hgoesOn⟩

/-! ## A session that outlives the change -/

/-- A successful reset or change ends the sessions: no token minted before it
is let in at a lookup after it. -/
def EndsSessions (app : Deployment)
    (pool : Pool Request Draw World HttpError Response) : Prop :=
  ∀ i request response u at_ hash live now past, request.setsPassword = true →
    pool.threads[i]? = some ⟨request, .done response⟩ →
    Happened (.wrote i at_ (.updatePassword u hash live now)) past
      pool.state.history →
    ∀ j token, .minted j token ∈ past → token.sub = u →
    ∀ k request' secret response' row rest,
      request'.presents app = some (secret, token) →
      pool.threads[k]? = some ⟨request', .done response'⟩ →
      LookedUp k secret token row rest pool.state.history →
      .wrote i at_ (.updatePassword u hash live now) ∉ rest

def changeThenUseMoves : List (Move Request Draw Surroundings) :=
  changePasswordMoves ++ alone 3 (Request.authenticate adminToken) 2

/-- The newest events are a change of the password by request 2, and a lookup
for request 3 that lets in a token minted before it. -/
def letsOldSessionIn : List Event → Bool
  | .userRead 3 row :: .verified 3 _ token ::
      .wrote 2 _ (.updatePassword u _ _ _) :: past =>
      token = adminToken && row.id = token.sub && row.deletedAt = none &&
        row.tokenVersion = token.tokenVersion && u = token.sub &&
        past.any fun event =>
          match event with
          | .minted _ other => other = token
          | _ => false
  | _ => false

theorem not_endsSessions_of_letsOldSessionIn
    (hchanged : pool.answers 2
      (.changePassword adminToken ⟨"secret", "renewed"⟩) = true)
    (hused : pool.answers 3 (.authenticate adminToken) = true)
    (hlets : letsOldSessionIn pool.state.history = true) :
    ¬ EndsSessions (sampleDeployment .console) pool := by
  intro hends
  obtain ⟨response, hdone⟩ := Pool.done_of_answers hchanged
  obtain ⟨response', hdone'⟩ := Pool.done_of_answers hused
  unfold letsOldSessionIn at hlets
  split at hlets
  · next row at_ token at_' u hash live now past hhistory =>
      simp only [Bool.and_eq_true, decide_eq_true_eq, List.any_eq_true]
        at hlets
      obtain ⟨⟨⟨⟨⟨rfl, hid⟩, hlive⟩, hversion⟩, rfl⟩, event, hmem, hminted⟩ :=
        hlets
      split at hminted
      · next j other =>
          rw [decide_eq_true_eq] at hminted
          subst hminted
          have hwrote : Happened
              (.wrote 2 at_' (.updatePassword adminToken.sub hash live now))
              past pool.state.history := by
            rw [hhistory]
            exact happened_self.cons.cons
          have hlooked : LookedUp 3 "access-secret" adminToken row _
              pool.state.history :=
            { read := by rw [hhistory]; exact happened_self
              verified := ⟨at_, _, happened_self⟩
              signed := rfl
              user := hid
              live := hlive
              version := hversion }
          exact hends 2 _ response _ at_' hash live now past rfl hdone hwrote
            j adminToken hmem rfl 3 _ _ response' row _ rfl hdone' hlooked
            (List.mem_cons_of_mem _ List.mem_cons_self)
      · contradiction
  · contradiction

theorem not_always_endsSessions :
    ¬ ∀ (app : Deployment) (pool : Pool Request Draw World HttpError Response),
      Reachable app pool → EndsSessions app pool := by
  intro hends
  obtain ⟨pool, hreach, hcheck⟩ := exists_reachable_of_run
    (show ((backend (sampleDeployment .console)).run changeThenUseMoves
      (Pool.start 0)).any (fun pool =>
        pool.answers 2 (.changePassword adminToken ⟨"secret", "renewed"⟩) &&
        pool.answers 3 (.authenticate adminToken) &&
        letsOldSessionIn pool.state.history) = true by decide +kernel)
  simp only [Bool.and_eq_true] at hcheck
  exact not_endsSessions_of_letsOldSessionIn hcheck.1.1 hcheck.1.2 hcheck.2
    (hends _ pool hreach)

end MarketPlace
