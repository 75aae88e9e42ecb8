import MarketPlace.AuthService
import MarketPlace.LoneRuns

/-!
# Handlers run alone under a list of draws

What one statement, one Redis command or one draw at the head of a handler does
in a lone run, with every outcome that its draw can bring.
-/

namespace MarketPlace

open Interleaving Relational

variable {β γ : Type} {app : Deployment} {i : ℕ} {ws : List Draw}
  {w t : World}

/-! ## Statements -/

/-- The statement at this position of the run fails. -/
def FailsAt (ws : List Draw) (position : ℕ) : Prop :=
  ∃ d, ws[position]? = some d ∧ d.databaseFails = true

theorem ends_attempt_bind
    {action : ℕ → Draw → World → Option (Except HttpError β × World)}
    {next : β → Handler γ} {result : Except HttpError γ}
    (h : (attempt action >>= next).Ends i ws w result t) :
    ∃ d rest, ws = d :: rest ∧
      ((∃ value u, action i d w = some (.ok value, u) ∧
        (next value).Ends i rest u result t) ∨
      ∃ error, action i d w = some (.error error, t) ∧ rest = [] ∧
        result = .error error) := by
  obtain ⟨d, rest, outcome, u, rfl, haction, hnext⟩ := h
  cases outcome with
  | ok value => exact ⟨d, rest, rfl, .inl ⟨value, u, haction, hnext⟩⟩
  | error error =>
      obtain ⟨rfl, rfl, rfl⟩ := hnext
      exact ⟨d, [], rfl, .inr ⟨error, haction, rfl, rfl⟩⟩

theorem ends_statement_bind
    {action : ℕ → Draw → World → Option (Except HttpError β × World)}
    {next : β → Handler γ} {result : Except HttpError γ}
    (h : (statement action >>= next).Ends i ws w result t) :
    ∃ d rest, ws = d :: rest ∧
      ((d.databaseFails = true ∧ rest = [] ∧ t = w ∧
        result = .error databaseError) ∨
      (d.databaseFails = false ∧
        ((∃ value u, action i d w = some (.ok value, u) ∧
          (next value).Ends i rest u result t) ∨
        ∃ error, action i d w = some (.error error, t)))) := by
  obtain ⟨d, rest, rfl, hstep⟩ := ends_attempt_bind h
  refine ⟨d, rest, rfl, ?_⟩
  cases hfails : d.databaseFails with
  | true =>
      simp only [hfails, if_true, Option.some.injEq, Prod.mk.injEq] at hstep
      rcases hstep with ⟨value, u, ⟨hvalue, -⟩, -⟩ |
        ⟨error, ⟨herror, rfl⟩, rfl, rfl⟩
      · contradiction
      · exact .inl ⟨rfl, rfl, rfl, congrArg _ (Except.error.inj herror).symm⟩
  | false =>
      simp only [hfails, Bool.false_eq_true, if_false] at hstep
      refine .inr ⟨rfl, ?_⟩
      exact hstep.imp_right fun ⟨error, haction, _, _⟩ => ⟨error, haction⟩

/-- A SELECT fails, or what comes after it gets the answer. -/
theorem ends_select_bind {query : Database → β} {next : β → Handler γ}
    {result : Except HttpError γ}
    (h : (select none query >>= next).Ends i ws w result t) :
    ∃ d rest, ws = d :: rest ∧
      ((d.databaseFails = true ∧ rest = [] ∧ t = w ∧
        result = .error databaseError) ∨
      (d.databaseFails = false ∧
        (next (query w.db)).Ends i rest w result t)) := by
  obtain ⟨d, rest, rfl, hfails | ⟨hanswers, hstep⟩⟩ := ends_statement_bind h
  · exact ⟨d, rest, rfl, .inl hfails⟩
  · refine ⟨d, rest, rfl, .inr ⟨hanswers, ?_⟩⟩
    rcases hstep with ⟨value, u, haction, hnext⟩ | ⟨error, haction⟩
    · obtain ⟨hvalue, rfl⟩ := Prod.mk.inj (Option.some.inj haction)
      obtain rfl := Except.ok.inj hvalue
      exact hnext
    · exact absurd (Prod.mk.inj (Option.some.inj haction)).1 (by simp)

theorem ends_draw_bind {choose : Draw → β} {next : β → Handler γ}
    {result : Except HttpError γ}
    (h : (draw choose >>= next).Ends i ws w result t) :
    ∃ d rest, ws = d :: rest ∧ (next (choose d)).Ends i rest w result t := by
  obtain ⟨d, rest, outcome, u, rfl, haction, hnext⟩ := h
  obtain ⟨rfl, rfl⟩ := Prod.mk.inj (Option.some.inj haction)
  exact ⟨d, rest, rfl, hnext⟩

/-- A write fails, or it is made. -/
theorem ends_execute_bind {client : Option Client}
    {write : ℕ → Sequences → Write}
    {returning : Database → Database → β} {next : β → Handler γ}
    {result : Except HttpError γ}
    (h : (execute client write returning >>= next).Ends i ws w result t) :
    ∃ d rest, ws = d :: rest ∧
      ((d.databaseFails = true ∧ rest = [] ∧ t = w ∧
        result = .error databaseError) ∨
      (d.databaseFails = false ∧
        (next (returning (w.viewFor client i)
          ((w.write client i (write (w.nowFor client) w.ids)).viewFor client
            i))).Ends i rest
            (w.write client i (write (w.nowFor client) w.ids)) result t)) := by
  obtain ⟨d, rest, rfl, hfails | ⟨hanswers, hstep⟩⟩ := ends_statement_bind h
  · exact ⟨d, rest, rfl, .inl hfails⟩
  · refine ⟨d, rest, rfl, .inr ⟨hanswers, ?_⟩⟩
    rcases hstep with ⟨value, u, haction, hnext⟩ | ⟨error, haction⟩
    · obtain ⟨-, haction⟩ := Option.ite_none_right_eq_some.mp haction
      obtain ⟨hvalue, rfl⟩ := Prod.mk.inj (Option.some.inj haction)
      obtain rfl := Except.ok.inj hvalue
      exact hnext
    · obtain ⟨-, haction⟩ := Option.ite_none_right_eq_some.mp haction
      exact absurd (Prod.mk.inj (Option.some.inj haction)).1 (by simp)

/-- A SELECT of a user fails, or what comes after it gets the row. -/
theorem ends_selectUser_bind {client : Option Client}
    {query : Database → Option UserRow} {next : Option UserRow → Handler γ}
    {result : Except HttpError γ}
    (h : (selectUser client query >>= next).Ends i ws w result t) :
    ∃ d rest, ws = d :: rest ∧
      ((d.databaseFails = true ∧ rest = [] ∧ t = w ∧
        result = .error databaseError) ∨
      (d.databaseFails = false ∧
        (next (query (w.viewFor client i))).Ends i rest
          ((query (w.viewFor client i)).elim w fun row =>
            w.record (.userRead i row)) result t)) := by
  obtain ⟨d, rest, rfl, hfails | ⟨hanswers, hstep⟩⟩ := ends_statement_bind h
  · exact ⟨d, rest, rfl, .inl hfails⟩
  · refine ⟨d, rest, rfl, .inr ⟨hanswers, ?_⟩⟩
    cases hquery : query (w.viewFor client i) with
    | none =>
        simp only [hquery, Option.some.injEq, Prod.mk.injEq] at hstep
        rcases hstep with ⟨value, u, ⟨hvalue, rfl⟩, hnext⟩ | ⟨error, herror, -⟩
        · obtain rfl := Except.ok.inj hvalue
          exact hnext
        · contradiction
    | some row =>
        simp only [hquery, Option.some.injEq, Prod.mk.injEq] at hstep
        rcases hstep with ⟨value, u, ⟨hvalue, rfl⟩, hnext⟩ | ⟨error, herror, -⟩
        · obtain rfl := Except.ok.inj hvalue
          exact hnext
        · contradiction

/-! ## Redis -/

/-- The number of actions that a command beside Postgres takes. -/
def redisActions (app : Deployment) : ℕ := if app.redisEnabled then 1 else 0

/-- A command beside Postgres fails or not, and only Redis can change. -/
theorem ends_tryRedisSet_bind {edit : World → List RedisEntry}
    {next : Unit → Handler γ} {result : Except HttpError γ}
    (h : (tryRedisSet app (redisCommand app () fun w =>
      ((), { w with redis := edit w })) >>= next).Ends i ws w result t) :
    ∃ front rest redis, ws = front ++ rest ∧
      front.length = redisActions app ∧
      (next ()).Ends i rest { w with redis := redis } result t := by
  cases henabled : app.redisEnabled with
  | false =>
      simp only [tryRedisSet, henabled, Bool.false_eq_true, if_false] at h
      exact ⟨[], ws, w.redis, rfl, by simp [redisActions, henabled], h⟩
  | true =>
      simp only [tryRedisSet, redisCommand, henabled, if_true] at h
      obtain ⟨d, rest, outcome, u, rfl, haction, hnext⟩ := h
      have hlength : [d].length = redisActions app := by
        simp [redisActions, henabled]
      cases hfails : d.redisFails with
      | true =>
          simp only [hfails, if_true, Option.some.injEq,
            Prod.mk.injEq] at haction
          obtain ⟨rfl, rfl⟩ := haction
          exact ⟨[d], rest, w.redis, rfl, hlength, hnext⟩
      | false =>
          simp only [hfails, Bool.false_eq_true, if_false, Option.some.injEq,
            Prod.mk.injEq] at haction
          obtain ⟨rfl, rfl⟩ := haction
          exact ⟨[d], rest, edit w, rfl, hlength, hnext⟩

theorem ends_tryRedisDel_bind {key : String} {next : Unit → Handler γ}
    {result : Except HttpError γ}
    (h : (tryRedisSet app (redisDel app key) >>= next).Ends i ws w result t) :
    ∃ front rest redis, ws = front ++ rest ∧
      front.length = redisActions app ∧
      (next ()).Ends i rest { w with redis := redis } result t :=
  @ends_tryRedisSet_bind _ _ _ _ _ _
    (fun w => w.redis.filter fun entry => entry.key ≠ key) _ _ h

/-! ## Tokens -/

section Tokens

variable {userId : ℕ} {phone : String} {isAdmin : Bool} {tokenVersion : ℕ}
  {queryRunner : Option Client} {jti : String}

/-- The history after the two tokens are signed. -/
def World.signedBy (i : ℕ) (tokens : Tokens) (w : World) : World :=
  (w.record (.minted i tokens.accessToken)).record
    (.minted i tokens.refreshToken)

def tokensFor (app : Deployment) (userId : ℕ) (phone : String) (isAdmin : Bool)
    (tokenVersion : ℕ) (jti : String) (seconds : ℕ) : Tokens where
  accessToken := accessTokenFor app userId phone isAdmin tokenVersion seconds
  refreshToken :=
    refreshTokenFor app userId phone isAdmin tokenVersion jti seconds

/-- What `generateTokens` does with its jti. -/
def signAndSave (app : Deployment) (userId : ℕ) (phone : String)
    (isAdmin : Bool) (tokenVersion : ℕ) (queryRunner : Option Client)
    (jti : String) : Handler Tokens := do
  let tokens ← signTokens app userId phone isAdmin tokenVersion jti
  saveRefreshTokenJti app jti userId
    (parseTtlSeconds app.config.jwtRefreshTtl) queryRunner
  pure tokens

theorem generateTokens_eq :
    generateTokens app userId phone isAdmin tokenVersion queryRunner =
      draw Draw.jti >>=
        signAndSave app userId phone isAdmin tokenVersion queryRunner := rfl

theorem ends_saveRefreshTokenJti {ttlSeconds : ℕ}
    {result : Except HttpError Unit}
    (h : (saveRefreshTokenJti app jti userId ttlSeconds queryRunner).Ends i ws w
      result t) :
    ∃ front d redis, ws = front ++ [d] ∧ front.length = redisActions app ∧
      ((d.databaseFails = true ∧ result = .error databaseError ∧
        t = { w with redis := redis }) ∨
      (d.databaseFails = false ∧ result = .ok () ∧
        t = { w with redis := redis }.write queryRunner i
          (.saveRefreshToken jti userId
            (w.nowFor queryRunner + microseconds ttlSeconds)))) := by
  obtain ⟨front, rest, redis, rfl, hlength, hperform⟩ :=
    @ends_tryRedisSet_bind _ _ _ _ _ _
      (fun w => ⟨refreshJtiKey jti, toString userId,
        w.now + microseconds ttlSeconds⟩ ::
          w.redis.filter fun entry => entry.key ≠ refreshJtiKey jti) _ _ h
  obtain ⟨d, rest', rfl, ⟨hfails, rfl, rfl, rfl⟩ | ⟨hanswers, hdone⟩⟩ :=
    ends_execute_bind (Program.ends_bind_pure.mpr hperform)
  · exact ⟨front, d, redis, rfl, hlength, .inl ⟨hfails, rfl, rfl⟩⟩
  · obtain ⟨rfl, rfl, rfl⟩ := hdone
    refine ⟨front, d, redis, rfl, hlength, .inr ⟨hanswers, rfl, ?_⟩⟩
    cases queryRunner <;> rfl

/-- The tokens are signed, and the INSERT of the jti fails or is made. -/
theorem ends_signAndSave {result : Except HttpError Tokens}
    (h : (signAndSave app userId phone isAdmin tokenVersion queryRunner
      jti).Ends i ws w result t) :
    ∃ d front d' redis, ws = d :: (front ++ [d']) ∧
      front.length = redisActions app ∧
      ((d'.databaseFails = true ∧ result = .error databaseError ∧
        t = { w.signedBy i (tokensFor app userId phone isAdmin tokenVersion jti
          w.seconds) with redis := redis }) ∨
      (d'.databaseFails = false ∧
        result = .ok (tokensFor app userId phone isAdmin tokenVersion jti
          w.seconds) ∧
        t = { w.signedBy i (tokensFor app userId phone isAdmin tokenVersion jti
          w.seconds) with redis := redis }.write queryRunner i
            (.saveRefreshToken jti userId (w.nowFor queryRunner +
              microseconds (parseTtlSeconds app.config.jwtRefreshTtl))))) := by
  obtain ⟨d, rest, tokens, u, rfl, haction, hsave⟩ := h
  obtain ⟨rfl, rfl⟩ := Prod.mk.inj (Option.some.inj haction)
  change (saveRefreshTokenJti app jti userId _ queryRunner >>= fun _ =>
    pure _).Ends i rest _ result t at hsave
  rcases Program.ends_bind.mp hsave with
    ⟨error, rfl, hends⟩ | ⟨first, rest', value, u, rfl, hends, rfl, rfl, rfl⟩
  · obtain ⟨front, d', redis, rfl, hlength, ⟨hfails, herror, rfl⟩ | ⟨_, hok, _⟩⟩ :=
      ends_saveRefreshTokenJti hends
    · exact ⟨d, front, d', redis, rfl, hlength,
        .inl ⟨hfails, congrArg _ (Except.error.inj herror), rfl⟩⟩
    · contradiction
  · obtain ⟨front, d', redis, rfl, hlength, ⟨_, herror, _⟩ | ⟨hanswers, _, rfl⟩⟩ :=
      ends_saveRefreshTokenJti hends
    · contradiction
    · refine ⟨d, front, d', redis, by simp, hlength, .inr ⟨hanswers, rfl, ?_⟩⟩
      cases queryRunner <;> rfl

end Tokens

end MarketPlace
