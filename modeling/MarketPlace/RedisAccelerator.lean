import MarketPlace.HandlersAlone
import MarketPlace.SilentActions
import MarketPlace.GivenRuns

/-!
# Redis as an accelerator

The operations of `AuthStateStore` that keep the OTP attempts and the refresh
tokens write to Redis and decide by Postgres alone.  Redis commands are
therefore silent: whatever Redis holds, loses or refuses, the calls return
what they return without it, and leave the same tables.
-/

namespace MarketPlace

open Interleaving

variable {app : Deployment} {i : ℕ} {β : Type}

/-! ## Calls of the store -/

inductive StoreCall where
  | incrementOtpAttempts (phone : String) (purpose : OtpPurpose)
      (maxAttempts ttlSeconds : ℕ)
  | clearOtpAttempts (phone : String) (purpose : OtpPurpose)
  | saveRefreshTokenJti (jti : String) (userId ttlSeconds : ℕ)
      (queryRunner : Option Client)
  | consumeRefreshTokenJti (jti : String)
  | revokeRefreshTokenJti (jti : String)

inductive StoreResult where
  | incremented (result : IncrementOtpResult)
  | consumed (userId : Option ℕ)
  | void
  deriving DecidableEq, Repr

def StoreCall.handler (app : Deployment) : StoreCall → Handler StoreResult
  | .incrementOtpAttempts phone purpose maxAttempts ttlSeconds => do
      let result ←
        MarketPlace.incrementOtpAttempts app phone purpose maxAttempts ttlSeconds
      pure (.incremented result)
  | .clearOtpAttempts phone purpose => do
      MarketPlace.clearOtpAttempts app phone purpose
      pure .void
  | .saveRefreshTokenJti jti userId ttlSeconds queryRunner => do
      MarketPlace.saveRefreshTokenJti app jti userId ttlSeconds queryRunner
      pure .void
  | .consumeRefreshTokenJti jti => do
      let userId ← MarketPlace.consumeRefreshTokenJti app jti
      pure (.consumed userId)
  | .revokeRefreshTokenJti jti => do
      MarketPlace.revokeRefreshTokenJti app jti
      pure .void

/-- What happens around the calls: time passes, the transaction of a query
runner ends, and Redis comes to hold anything whatever. -/
inductive StoreSurroundings where
  | timePasses (amount : ℕ)
  | commits (i : ℕ)
  | rollsBack (i : ℕ)
  | redisHolds (entries : List RedisEntry)
  deriving DecidableEq, Repr

def StoreSurroundings.byRedis : StoreSurroundings → Bool
  | .redisHolds _ => true
  | _ => false

def World.storeSurroundings (event : StoreSurroundings) (w : World) : World :=
  match event with
  | .timePasses amount => { w with now := w.now + amount }
  | .commits i => w.commit i
  | .rollsBack i => w.rollback i
  | .redisHolds entries => { w with redis := entries }

def authStateStore (app : Deployment) :
    System StoreCall Draw StoreSurroundings World HttpError StoreResult where
  handler := StoreCall.handler app
  environment := World.storeSurroundings

/-- The deployment without a Redis URL. -/
def Deployment.withoutRedis (app : Deployment) : Deployment :=
  { app with config := { app.config with redisUrl := none } }

theorem redisEnabled_withoutRedis (app : Deployment) :
    app.withoutRedis.redisEnabled = false := rfl

/-! ## Redis commands are silent -/

theorem SameButRedis.refl (w : World) : SameButRedis w w :=
  ⟨rfl, rfl, rfl, rfl⟩

theorem SameButRedis.of_changed {w w' t : World} (h : SameButRedis w t)
    (hchanged : SameButRedis w w') : SameButRedis w' t :=
  ⟨h.1.trans hchanged.1.symm, h.2.1.trans hchanged.2.1.symm,
    h.2.2.1.trans hchanged.2.2.1.symm, h.2.2.2.trans hchanged.2.2.2.symm⟩

theorem silent_redisCommand (absent : β) (command : World → β × World)
    (hcommand : ∀ w, SameButRedis w (command w).2) :
    (redisCommand app absent command).Silent SameButRedis := by
  unfold redisCommand
  split
  · refine .action (fun i d w t result w' hsame hrun => ?_) fun result => ?_
    · dsimp only at hrun
      split at hrun
      · simp only [Option.some.injEq, Prod.mk.injEq] at hrun
        exact hrun.2 ▸ hsame
      · simp only [Option.some.injEq, Prod.mk.injEq] at hrun
        exact hrun.2 ▸ hsame.of_changed (hcommand w)
    · cases result with
      | ok value => exact .done value
      | error error => exact .failed error
  · exact .done absent

theorem tryRedisSet_matches (op op' : Handler Unit)
    (hsilent : op.Silent SameButRedis) :
    (tryRedisSet app op).Matches SameButRedis
      (tryRedisSet app.withoutRedis op') := by
  have hoff : tryRedisSet app.withoutRedis op' = .done () := by
    rw [tryRedisSet, redisEnabled_withoutRedis]
    rfl
  rw [hoff]
  unfold tryRedisSet
  split
  · exact hsilent.recover_matches
  · exact .done ()

theorem silent_redisGet (key : String) :
    (redisGet app key).Silent SameButRedis :=
  silent_redisCommand none _ fun w => .refl w

theorem silent_redisSet (key value : String) (ttlSeconds : ℕ) :
    (redisSet app key value ttlSeconds).Silent SameButRedis :=
  silent_redisCommand () _ fun _ => ⟨rfl, rfl, rfl, rfl⟩

theorem silent_redisDel (key : String) :
    (redisDel app key).Silent SameButRedis :=
  silent_redisCommand () _ fun _ => ⟨rfl, rfl, rfl, rfl⟩

/-! ## Statements do not look at Redis -/

theorem statement_matches
    {action : ℕ → Draw → World → Option (Except HttpError β × World)}
    (haction : ∀ i d w t outcome w', SameButRedis w t →
      action i d w = some (outcome, w') →
      ∃ t', action i d t = some (outcome, t') ∧ SameButRedis w' t') :
    (statement action).Matches SameButRedis (statement action) := by
  refine .both (fun i d w t outcome w' hsame hrun => ?_) fun outcome => ?_
  · split at hrun
    · next hfails =>
        simp only [Option.some.injEq, Prod.mk.injEq] at hrun
        obtain ⟨rfl, rfl⟩ := hrun
        exact ⟨t, by rw [if_pos hfails], hsame⟩
    · next hfails =>
        obtain ⟨t', ht', hsame'⟩ := haction i d w t outcome w' hsame hrun
        exact ⟨t', by rw [if_neg hfails, ht'], hsame'⟩
  · cases outcome with
    | ok value => exact .done value
    | error error => exact .failed error

theorem SameButRedis.viewFor {w t : World} (h : SameButRedis w t)
    (client : Option Client) (i : ℕ) :
    t.viewFor client i = w.viewFor client i := by
  cases client <;> simp [World.viewFor, World.db, h.1]

theorem SameButRedis.lockable {w t : World} (h : SameButRedis w t)
    (client : Option Client) (i : ℕ) (write : Write) :
    t.lockable client i write = w.lockable client i write := by
  cases client <;> simp [World.lockable, h.viewFor, h.1]

theorem SameButRedis.nowFor {w t : World} (h : SameButRedis w t)
    (client : Option Client) : t.nowFor client = w.nowFor client := by
  cases client <;> simp [World.nowFor, h.2.1]

theorem SameButRedis.record {w t : World} (h : SameButRedis w t)
    (event : Event) : SameButRedis (w.record event) (t.record event) := by
  obtain ⟨hstore, hnow, hids, hhistory⟩ := h
  simp [SameButRedis, World.record, hstore, hnow, hids, hhistory]

theorem SameButRedis.write {w t : World} (h : SameButRedis w t)
    (client : Option Client) (i : ℕ) (change : Write) :
    SameButRedis (w.write client i change) (t.write client i change) := by
  obtain ⟨hstore, hnow, hids, hhistory⟩ := h
  cases client <;>
    simp [SameButRedis, World.write, World.autocommit, World.enqueue, hstore,
      hnow, hids, hhistory]

theorem execute_matches (client : Option Client)
    (write : ℕ → Sequences → Write) (returning : Database → Database → β) :
    (execute client write returning).Matches SameButRedis
      (execute client write returning) := by
  refine statement_matches fun i d w t outcome w' hsame hrun => ?_
  obtain ⟨hlockable, hrun⟩ := Option.ite_none_right_eq_some.mp hrun
  simp only [Option.some.injEq, Prod.mk.injEq] at hrun
  obtain ⟨rfl, rfl⟩ := hrun
  have hids : t.ids = w.ids := hsame.2.2.1
  have hafter := hsame.write client i (write (w.nowFor client) w.ids)
  refine ⟨t.write client i (write (w.nowFor client) w.ids), ?_, hafter⟩
  dsimp only
  rw [hsame.nowFor, hids, hsame.lockable, if_pos hlockable, hsame.viewFor,
    hafter.viewFor]

theorem countAttempt_matches (phone : String) (purpose : OtpPurpose)
    (ttlSeconds : ℕ) :
    (countAttempt phone purpose ttlSeconds).Matches SameButRedis
      (countAttempt phone purpose ttlSeconds) := by
  refine statement_matches fun i d w t outcome w' hsame hrun => ?_
  obtain ⟨hlockable, hrun⟩ := Option.ite_none_right_eq_some.mp hrun
  simp only [Option.some.injEq, Prod.mk.injEq] at hrun
  obtain ⟨rfl, rfl⟩ := hrun
  have hnow : t.now = w.now := hsame.2.1
  have hafter := hsame.write none i
    (.countAttempt phone purpose ttlSeconds w.now)
  have hdb : (t.autocommit i (.countAttempt phone purpose ttlSeconds w.now)).db =
      (w.autocommit i (.countAttempt phone purpose ttlSeconds w.now)).db :=
    hafter.viewFor none i
  have hlockable' : t.lockable none i
      (.countAttempt phone purpose ttlSeconds w.now) = true := by
    rw [hsame.lockable]
    exact hlockable
  refine ⟨(t.autocommit i (.countAttempt phone purpose ttlSeconds w.now)).record
    (.attemptCounted i phone purpose
      (((w.autocommit i
        (.countAttempt phone purpose ttlSeconds w.now)).db.authOtpAttempts.get
          (phone, purpose)).map OtpAttemptRow.attempts |>.getD 0)),
    ?_, hafter.record _⟩
  dsimp only
  rw [hnow, if_pos hlockable', hdb]

/-! ## The calls -/

theorem perform_matches (client : Option Client) (write : ℕ → Write) :
    (perform client write).Matches SameButRedis (perform client write) :=
  execute_matches client _ _

theorem clearOtpAttempts_matches (phone : String) (purpose : OtpPurpose) :
    (clearOtpAttempts app phone purpose).Matches SameButRedis
      (clearOtpAttempts app.withoutRedis phone purpose) :=
  (tryRedisSet_matches _ _ (silent_redisDel _)).bind fun _ =>
    perform_matches none _

theorem incrementOtpAttempts_matches (phone : String) (purpose : OtpPurpose)
    (maxAttempts ttlSeconds : ℕ) :
    (incrementOtpAttempts app phone purpose maxAttempts ttlSeconds).Matches
      SameButRedis
      (incrementOtpAttempts app.withoutRedis phone purpose maxAttempts
        ttlSeconds) := by
  have hredis : Program.Silent SameButRedis (do
      let raw ← redisGet app (otpAttemptsKey phone purpose)
      redisSet app (otpAttemptsKey phone purpose) (nextAttemptsText raw)
        ttlSeconds) :=
    (silent_redisGet _).bind fun raw => silent_redisSet _ _ _
  refine (tryRedisSet_matches _ _ hredis).bind fun _ => ?_
  refine (countAttempt_matches phone purpose ttlSeconds).bind fun attempts => ?_
  split
  · exact (clearOtpAttempts_matches phone purpose).bind fun _ => .done _
  · exact .done _

theorem saveRefreshTokenJti_matches (jti : String) (userId ttlSeconds : ℕ)
    (queryRunner : Option Client) :
    (saveRefreshTokenJti app jti userId ttlSeconds queryRunner).Matches
      SameButRedis
      (saveRefreshTokenJti app.withoutRedis jti userId ttlSeconds
        queryRunner) :=
  (tryRedisSet_matches _ _ (silent_redisSet _ _ _)).bind fun _ =>
    perform_matches queryRunner _

theorem consumeRefreshTokenJti_matches (jti : String) :
    (consumeRefreshTokenJti app jti).Matches SameButRedis
      (consumeRefreshTokenJti app.withoutRedis jti) :=
  (tryRedisSet_matches _ _ (silent_redisDel _)).bind fun _ =>
    execute_matches none _ _

theorem revokeRefreshTokenJti_matches (jti : String) :
    (revokeRefreshTokenJti app jti).Matches SameButRedis
      (revokeRefreshTokenJti app.withoutRedis jti) :=
  (tryRedisSet_matches _ _ (silent_redisDel _)).bind fun _ =>
    perform_matches none _

theorem StoreCall.handler_matches (call : StoreCall) :
    (call.handler app).Matches SameButRedis
      (call.handler app.withoutRedis) := by
  cases call with
  | incrementOtpAttempts phone purpose maxAttempts ttlSeconds =>
      exact (incrementOtpAttempts_matches phone purpose maxAttempts
        ttlSeconds).bind fun _ => .done _
  | clearOtpAttempts phone purpose =>
      exact (clearOtpAttempts_matches phone purpose).bind fun _ => .done _
  | saveRefreshTokenJti jti userId ttlSeconds queryRunner =>
      exact (saveRefreshTokenJti_matches jti userId ttlSeconds
        queryRunner).bind fun _ => .done _
  | consumeRefreshTokenJti jti =>
      exact (consumeRefreshTokenJti_matches jti).bind fun _ => .done _
  | revokeRefreshTokenJti jti =>
      exact (revokeRefreshTokenJti_matches jti).bind fun _ => .done _

/-! ## Whole runs -/

theorem SameButRedis.commit {w t : World} (h : SameButRedis w t) (i : ℕ) :
    SameButRedis (w.commit i) (t.commit i) := by
  obtain ⟨hstore, hnow, hids, hhistory⟩ := h
  simp [SameButRedis, World.commit, hstore, hnow, hids, hhistory]

theorem SameButRedis.rollback {w t : World} (h : SameButRedis w t) (i : ℕ) :
    SameButRedis (w.rollback i) (t.rollback i) := by
  obtain ⟨hstore, hnow, hids, hhistory⟩ := h
  simp [SameButRedis, World.rollback, hstore, hnow, hids, hhistory]

theorem authStateStore_matches (app : Deployment) :
    System.Matches SameButRedis StoreSurroundings.byRedis
      (authStateStore app) (authStateStore app.withoutRedis) where
  handler call := call.handler_matches
  ignored event w t hredis hsame := by
    cases event with
    | redisHolds entries => exact hsame
    | timePasses amount => contradiction
    | commits i => contradiction
    | rollsBack i => contradiction
  shared event w t hredis hsame := by
    cases event with
    | redisHolds entries => contradiction
    | timePasses amount =>
        obtain ⟨hstore, hnow, hids, hhistory⟩ := hsame
        simp [SameButRedis, authStateStore, World.storeSurroundings, hstore,
          hnow, hids, hhistory]
    | commits i => exact hsame.commit i
    | rollsBack i => exact hsame.rollback i

def sampleRedisDeployment : Deployment :=
  ⟨{ sampleConfig .console with redisUrl := some "redis://cache" },
    transparentLibraries⟩

def staleCountMoves : List (Move StoreCall Draw StoreSurroundings) :=
  let call := .incrementOtpAttempts "+1" .registration 5 900
  [.environment (.redisHolds [⟨"otp_attempts:+1:registration", "99", 1000000⟩]),
    .submit call, .advance 0 sampleDraw,
    .advance 0 { sampleDraw with redisFails := true }, .advance 0 sampleDraw]

/-- Whatever Redis does during a run of the calls, the run without Redis in
which everything else happens in the same order leaves the same tables, and
its calls return the same. -/
theorem redis_never_decides (app : Deployment) (w : World)
    (moves : List (Move StoreCall Draw StoreSurroundings))
    (pool : Pool StoreCall Draw World HttpError StoreResult)
    (hrun : (authStateStore app).run moves ⟨w, []⟩ = some pool) :
    ∃ moves' pool', moves'.Sublist moves ∧
      moves'.filter (Move.kept StoreSurroundings.byRedis) =
        moves.filter (Move.kept StoreSurroundings.byRedis) ∧
      (authStateStore app.withoutRedis).run moves' ⟨w, []⟩ = some pool' ∧
      pool'.state.store = pool.state.store ∧
      ∀ i result, pool.outcome i = some result →
        pool'.outcome i = some result := by
  have hstart : Pool.Matches SameButRedis
      (⟨w, []⟩ : Pool StoreCall Draw World HttpError StoreResult) ⟨w, []⟩ :=
    ⟨.refl w, rfl, fun i thread hthread => by simp at hthread⟩
  obtain ⟨moves', pool', hsub, hkept, hrun', hmatches⟩ :=
    (authStateStore_matches app).run hstart hrun
  exact ⟨moves', pool', hsub, hkept, hrun', hmatches.state.1,
    fun i result hend => hmatches.outcome hend⟩

/-- Redis holds a count of 99 attempts and then fails. -/
theorem redis_never_decides_stale_count :
    ∃ (pool pool' : Pool StoreCall Draw World HttpError StoreResult)
      (moves' : List (Move StoreCall Draw StoreSurroundings)),
      (pool.outcome 0).bind (fun ended => ended.2.toOption) =
        some (StoreResult.incremented ⟨1, false⟩) ∧
      (authStateStore sampleRedisDeployment.withoutRedis).run moves'
        ⟨.initial 0, []⟩ = some pool' ∧
      pool'.state.store = pool.state.store ∧
      ∀ i result, pool.outcome i = some result →
        pool'.outcome i = some result := by
  have hcount : ((authStateStore sampleRedisDeployment).run staleCountMoves
      ⟨.initial 0, []⟩).any (fun pool =>
        (pool.outcome 0).bind (fun ended => ended.2.toOption) =
          some (.incremented ⟨1, false⟩)) = true := by
    decide
  obtain ⟨pool, hrun, houtcome⟩ := (Option.any_eq_true _ _).mp hcount
  obtain ⟨moves', pool', -, -, hrun', hstore, hends⟩ :=
    redis_never_decides sampleRedisDeployment (.initial 0) staleCountMoves
      pool hrun
  exact ⟨pool, pool', moves', of_decide_eq_true houtcome, hrun', hstore, hends⟩

end MarketPlace
