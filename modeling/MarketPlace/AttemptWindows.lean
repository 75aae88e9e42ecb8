import MarketPlace.FixedWindows
import MarketPlace.OtpLockout
import MarketPlace.OwnStatements
import MarketPlace.RedisAccelerator

/-!
# Windows of OTP attempts

A row of auth_otp_attempts keeps a number and the end of a window.  Over every
run of the store's calls that is the counter of a fixed window, read from the
statements that have counted and cleared: the number that an increment returns
is that of the increments in the current window.
-/

namespace MarketPlace

open EventLog FixedWindows Interleaving Relational

variable {app : Deployment} {phone : String} {purpose : OtpPurpose} {i : ℕ}

/-! ## Counters of the database -/

/-- What a write does to the counter of a pair. -/
def Write.mark (phone : String) (purpose : OtpPurpose) : Write → Option Mark
  | .countAttempt phone' purpose' ttlSeconds now =>
      if (phone', purpose') = (phone, purpose) then
        some (.counted ⟨now, microseconds ttlSeconds⟩)
      else none
  | .clearAttempts phone' purpose' =>
      if (phone', purpose') = (phone, purpose) then some .cleared else none
  | _ => none

def Event.mark (phone : String) (purpose : OtpPurpose) : Event → Option Mark
  | .wrote _ _ write => write.mark phone purpose
  | _ => none

/-- The increments and clears of a pair, latest first. -/
def attemptMarks (phone : String) (purpose : OtpPurpose) (history : List Event) :
    List Mark :=
  history.filterMap (Event.mark phone purpose)

def OtpAttemptRow.counter (row : OtpAttemptRow) : Counter :=
  ⟨row.attempts, row.expiresAt⟩

def Database.counter (db : Database) (phone : String) (purpose : OtpPurpose) :
    Option Counter :=
  (db.authOtpAttempts.get (phone, purpose)).map OtpAttemptRow.counter

theorem attemptMarks_wrote (now : ℕ) (write : Write) (history : List Event) :
    attemptMarks phone purpose (.wrote i now write :: history) =
      (write.mark phone purpose).toList ++ attemptMarks phone purpose history := by
  unfold attemptMarks
  rw [List.filterMap_cons]
  simp only [Event.mark]
  cases write.mark phone purpose <;> rfl

/-- The CASE expressions of the upsert are those of a fixed window. -/
theorem counter_counted (ttlSeconds now : ℕ) (row : OtpAttemptRow) :
    some (row.counted ttlSeconds now).counter =
      (Mark.counted ⟨now, microseconds ttlSeconds⟩).apply
        (some row.counter) := by
  unfold OtpAttemptRow.counted OtpAttemptRow.counter
  simp only [Mark.apply]
  split <;> rfl

theorem Database.counter_apply (db : Database) (write : Write) :
    (db.apply write).counter phone purpose =
      (write.mark phone purpose).elim (db.counter phone purpose) fun mark =>
        mark.apply (db.counter phone purpose) := by
  unfold Database.counter
  cases write with
  | countAttempt phone' purpose' ttlSeconds now =>
      simp only [Write.mark]
      by_cases hpair : (phone', purpose') = (phone, purpose)
      · cases hpair
        rw [if_pos rfl, Database.get_countAttempt]
        cases db.authOtpAttempts.get (phone, purpose) with
        | none => rfl
        | some row => exact counter_counted ttlSeconds now row
      · rw [if_neg hpair, Database.get_countAttempt_of_ne hpair]
        rfl
  | clearAttempts phone' purpose' =>
      simp only [Write.mark]
      rw [Database.get_clearAttempts]
      split <;> rfl
  | insertUser row =>
      simp only [Database.apply]
      split <;> rfl
  | _ => rfl

/-! ## Worlds that count windows -/

/-- Every counter is that of the writes so far, and nobody holds its row. -/
structure World.CountsWindows (w : World) : Prop where
  counter : ∀ phone purpose,
    w.db.counter phone purpose =
      reading (attemptMarks phone purpose w.history)
  free : ∀ phone purpose, w.store.holder (.attempts phone purpose) = none

/-- What every action of the store's calls does: counters that are right stay
so, and no event is taken back. -/
structure World.CountsOn (w t : World) : Prop where
  counts : w.CountsWindows → t.CountsWindows
  history : w.history <:+ t.history

theorem World.CountsOn.refl (w : World) : w.CountsOn w :=
  ⟨id, List.suffix_refl _⟩

theorem World.CountsOn.trans {w t u : World} (h : w.CountsOn t)
    (h' : t.CountsOn u) : w.CountsOn u :=
  ⟨h'.counts ∘ h.counts, h.history.trans h'.history⟩

theorem countsWindows_initial (now : ℕ) : (World.initial now).CountsWindows :=
  ⟨fun _ _ => rfl, fun _ _ => rfl⟩

/-- Only the store and the history matter. -/
theorem countsOn_of_same {w t : World} (hstore : t.store = w.store)
    (hhistory : t.history = w.history) : w.CountsOn t := by
  refine ⟨fun h => ⟨fun phone purpose => ?_, ?_⟩, hhistory ▸ List.suffix_refl _⟩
  · rw [World.db, hstore, hhistory]
    exact h.counter phone purpose
  · rw [hstore]
    exact h.free

theorem countsOn_autocommit (w : World) (write : Write) :
    w.CountsOn (w.autocommit i write) := by
  refine ⟨fun h => ⟨fun phone purpose => ?_, h.free⟩, List.suffix_cons _ _⟩
  change (w.db.apply write).counter phone purpose =
    reading (attemptMarks phone purpose (.wrote i w.now write :: w.history))
  rw [Database.counter_apply, h.counter, attemptMarks_wrote]
  cases write.mark phone purpose <;> rfl

theorem countsOn_record (w : World) {event : Event}
    (hevent : ∀ phone purpose, event.mark phone purpose = none) :
    w.CountsOn (w.record event) := by
  refine ⟨fun h => ⟨fun phone purpose => ?_, h.free⟩, List.suffix_cons _ _⟩
  have hmarks : attemptMarks phone purpose (event :: w.history) =
      attemptMarks phone purpose w.history :=
    List.filterMap_cons_none (hevent phone purpose)
  change w.db.counter phone purpose =
    reading (attemptMarks phone purpose (event :: w.history))
  rw [hmarks, h.counter]

/-- A transaction that does not come near the counters. -/
theorem countsOn_enqueue (w : World) {write : Write}
    (hfootprint : ∀ phone purpose,
      .attempts phone purpose ∉ write.footprint (w.store.view schema i)) :
    w.CountsOn (w.enqueue i write) := by
  refine ⟨fun h => ⟨h.counter, fun phone purpose => ?_⟩, List.suffix_cons _ _⟩
  have hholder : (w.enqueue i write).store.holder (.attempts phone purpose) =
      w.store.holder (.attempts phone purpose) :=
    if_neg (hfootprint phone purpose)
  rw [hholder, h.free]

theorem holder_release (store : ReadCommitted.Store Database Write Lock)
    {lock : Lock} (hfree : store.holder lock = none) :
    (store.release i).holder lock = none := by
  simp [ReadCommitted.Store.release, hfree]

theorem countsOn_rollback (w : World) : w.CountsOn (w.rollback i) :=
  ⟨fun h => ⟨h.counter, fun _ _ => holder_release _ (h.free _ _)⟩,
    List.suffix_refl _⟩

theorem flush_reading (now : ℕ) (writes : List Write) {db : Database}
    {history : List Event}
    (h : db.counter phone purpose =
      reading (attemptMarks phone purpose history)) :
    (schema.settle writes db).counter phone purpose =
      reading (attemptMarks phone purpose
        (World.flush i now writes history)) := by
  induction writes generalizing db history with
  | nil => exact h
  | cons write rest ih =>
      have hwrite : (db.apply write).counter phone purpose =
          reading (attemptMarks phone purpose
            (.wrote i now write :: history)) := by
        rw [Database.counter_apply, h, attemptMarks_wrote]
        cases write.mark phone purpose <;> rfl
      exact ih hwrite

theorem countsOn_commit (w : World) : w.CountsOn (w.commit i) :=
  ⟨fun h => ⟨fun _ _ => flush_reading w.now _ (h.counter _ _),
      fun _ _ => holder_release _ (h.free _ _)⟩,
    suffix_flush i w.now _ _⟩

/-! ## The calls of the store -/

variable {β : Type} {s : World}

theorem keepsOn_attempt
    {action : ℕ → Draw → World → Option (Except HttpError β × World)}
    (haction : ∀ i d w outcome t, action i d w = some (outcome, t) →
      w.CountsOn t) :
    (attempt action).Keeps s.CountsOn := by
  refine ⟨fun i d w outcome t hs hrun => hs.trans (haction i d w outcome t hrun),
    fun outcome => ?_⟩
  cases outcome with
  | ok value => exact Program.keeps_done value
  | error error => exact Program.keeps_failed error

theorem keepsOn_statement
    {action : ℕ → Draw → World → Option (Except HttpError β × World)}
    (haction : ∀ i d w outcome t, action i d w = some (outcome, t) →
      w.CountsOn t) :
    (statement action).Keeps s.CountsOn := by
  refine keepsOn_attempt fun i d w outcome t hrun => ?_
  split at hrun
  · obtain ⟨-, rfl⟩ := Prod.mk.inj (Option.some.inj hrun)
    exact .refl w
  · exact haction i d w outcome t hrun

theorem keepsOn_redisCommand (absent : β) (command : World → β × World)
    (hcommand : ∀ w, (command w).2.store = w.store ∧
      (command w).2.history = w.history) :
    (redisCommand app absent command).Keeps s.CountsOn := by
  unfold redisCommand
  split
  · refine keepsOn_attempt fun i d w outcome t hrun => ?_
    split at hrun
    · obtain ⟨-, rfl⟩ := Prod.mk.inj (Option.some.inj hrun)
      exact .refl w
    · obtain ⟨-, rfl⟩ := Prod.mk.inj (Option.some.inj hrun)
      exact countsOn_of_same (hcommand w).1 (hcommand w).2
  · exact Program.keeps_done absent

theorem keepsOn_tryRedisSet {op : Handler Unit} (h : op.Keeps s.CountsOn) :
    (tryRedisSet app op).Keeps s.CountsOn := by
  unfold tryRedisSet
  split
  · exact h.recover fun _ => Program.keeps_done ()
  · exact Program.keeps_done ()

theorem keepsOn_redisSet (key value : String) (ttlSeconds : ℕ) :
    (redisSet app key value ttlSeconds).Keeps s.CountsOn :=
  keepsOn_redisCommand () _ fun _ => ⟨rfl, rfl⟩

theorem keepsOn_redisDel (key : String) :
    (redisDel app key).Keeps s.CountsOn :=
  keepsOn_redisCommand () _ fun _ => ⟨rfl, rfl⟩

theorem keepsOn_execute (client : Option Client)
    {write : ℕ → Sequences → Write} (returning : Database → Database → β)
    (hfootprint : ∀ now ids db phone purpose, client.isSome →
      .attempts phone purpose ∉ (write now ids).footprint db) :
    (execute client write returning).Keeps s.CountsOn := by
  refine keepsOn_statement fun i d w outcome t hrun => ?_
  obtain ⟨-, hrun⟩ := Option.ite_none_right_eq_some.mp hrun
  obtain ⟨-, rfl⟩ := Prod.mk.inj (Option.some.inj hrun)
  cases client with
  | none => exact countsOn_autocommit w _
  | some client =>
      exact countsOn_enqueue w fun phone purpose =>
        hfootprint _ _ _ phone purpose rfl

theorem keepsOn_perform (write : ℕ → Write) :
    (perform none write).Keeps s.CountsOn :=
  keepsOn_execute none _ fun _ _ _ _ _ hsome => by contradiction

theorem keepsOn_countAttempt (ttlSeconds : ℕ) :
    (countAttempt phone purpose ttlSeconds).Keeps s.CountsOn := by
  refine keepsOn_statement fun i d w outcome t hrun => ?_
  obtain ⟨-, hrun⟩ := Option.ite_none_right_eq_some.mp hrun
  obtain ⟨-, rfl⟩ := Prod.mk.inj (Option.some.inj hrun)
  exact (countsOn_autocommit w _).trans (countsOn_record _ fun _ _ => rfl)

theorem keepsOn_clearOtpAttempts (phone : String) (purpose : OtpPurpose) :
    (clearOtpAttempts app phone purpose).Keeps s.CountsOn :=
  (keepsOn_tryRedisSet (keepsOn_redisDel _)).bind fun _ => keepsOn_perform _

theorem keepsOn_incrementOtpAttempts (maxAttempts ttlSeconds : ℕ) :
    (incrementOtpAttempts app phone purpose maxAttempts ttlSeconds).Keeps
      s.CountsOn := by
  have hredis : Program.Keeps s.CountsOn (do
      let raw ← redisGet app (otpAttemptsKey phone purpose)
      redisSet app (otpAttemptsKey phone purpose) (nextAttemptsText raw)
        ttlSeconds) :=
    (keepsOn_redisCommand none _ fun _ => ⟨rfl, rfl⟩).bind fun _ =>
      keepsOn_redisSet _ _ _
  refine (keepsOn_tryRedisSet hredis).bind fun _ => ?_
  refine (keepsOn_countAttempt ttlSeconds).bind fun attempts => ?_
  split
  · exact (keepsOn_clearOtpAttempts phone purpose).bind fun _ =>
      Program.keeps_done _
  · exact Program.keeps_done _

/-- Refresh tokens are saved in transactions too, which lock their own rows. -/
theorem keepsOn_saveRefreshTokenJti (jti : String) (userId ttlSeconds : ℕ)
    (queryRunner : Option Client) :
    (saveRefreshTokenJti app jti userId ttlSeconds queryRunner).Keeps
      s.CountsOn := by
  refine (keepsOn_tryRedisSet (keepsOn_redisSet _ _ _)).bind fun _ => ?_
  apply keepsOn_execute queryRunner
  intro now ids db phone purpose _
  simp [Write.footprint]

theorem keepsOn_consumeRefreshTokenJti (jti : String) :
    (consumeRefreshTokenJti app jti).Keeps s.CountsOn :=
  (keepsOn_tryRedisSet (keepsOn_redisDel _)).bind fun _ =>
    keepsOn_execute none _ fun _ _ _ _ _ hsome => by contradiction

theorem keepsOn_revokeRefreshTokenJti (jti : String) :
    (revokeRefreshTokenJti app jti).Keeps s.CountsOn :=
  (keepsOn_tryRedisSet (keepsOn_redisDel _)).bind fun _ => keepsOn_perform _

theorem StoreCall.handler_keepsOn (call : StoreCall) :
    (call.handler app).Keeps s.CountsOn := by
  cases call with
  | incrementOtpAttempts phone purpose maxAttempts ttlSeconds =>
      exact (keepsOn_incrementOtpAttempts maxAttempts ttlSeconds).bind fun _ =>
        Program.keeps_done _
  | clearOtpAttempts phone purpose =>
      exact (keepsOn_clearOtpAttempts phone purpose).bind fun _ =>
        Program.keeps_done _
  | saveRefreshTokenJti jti userId ttlSeconds queryRunner =>
      exact (keepsOn_saveRefreshTokenJti jti userId ttlSeconds
        queryRunner).bind fun _ => Program.keeps_done _
  | consumeRefreshTokenJti jti =>
      exact (keepsOn_consumeRefreshTokenJti jti).bind fun _ =>
        Program.keeps_done _
  | revokeRefreshTokenJti jti =>
      exact (keepsOn_revokeRefreshTokenJti jti).bind fun _ =>
        Program.keeps_done _

theorem countsOn_storeSurroundings (event : StoreSurroundings) (w : World) :
    w.CountsOn (w.storeSurroundings event) := by
  cases event with
  | timePasses amount => exact countsOn_of_same rfl rfl
  | commits i => exact countsOn_commit w
  | rollsBack i => exact countsOn_rollback w
  | redisHolds entries => exact countsOn_of_same rfl rfl

/-- No move of the store's calls leaves a counter wrong. -/
theorem authStateStore_leadsOn (app : Deployment) :
    (authStateStore app).LeadsOn
      (fun pool => ∀ (s : World) (i : ℕ)
        (thread : Thread StoreCall Draw World HttpError StoreResult),
        pool.threads[i]? = some thread → thread.body.Keeps s.CountsOn)
      World.CountsOn :=
  .of_keeps World.CountsOn.refl World.CountsOn.trans
    (fun _ call => call.handler_keepsOn) countsOn_storeSurroundings

/-! ## Calls that return -/

variable {w : World} {d : Draw}

theorem World.CountsWindows.unlocked (hw : w.CountsWindows)
    {locks : List Lock}
    (hlocks : ∀ lock ∈ locks, ∃ phone purpose, lock = .attempts phone purpose) :
    w.store.unlocked locks = true := by
  apply List.all_eq_true.mpr
  intro lock hmem
  obtain ⟨phone, purpose, rfl⟩ := hlocks lock hmem
  exact decide_eq_true (hw.free phone purpose)

theorem World.CountsWindows.of_same {t : World} (hw : w.CountsWindows)
    (hsame : SameButRedis w t) : t.CountsWindows :=
  (countsOn_of_same hsame.1 hsame.2.2.2).counts hw

theorem exists_returns_countInRedis (app : Deployment) (i : ℕ) (d : Draw)
    (w : World) (key : String) (ttlSeconds : ℕ) :
    ∃ t, SameButRedis w t ∧
      (tryRedisSet app do
        let raw ← redisGet app key
        redisSet app key (nextAttemptsText raw) ttlSeconds).Returns i d w () t := by
  by_cases henabled : app.redisEnabled
  · cases hfails : d.redisFails with
    | true =>
        refine ⟨w, .refl w, ?_⟩
        simp [tryRedisSet, redisGet, redisCommand, henabled, Program.Returns,
          Program.runAlone_recover, attempt, Program.runAlone, hfails]
    | false =>
        refine ⟨w.redisSet key (nextAttemptsText (w.redisGet key)) ttlSeconds,
          ⟨rfl, rfl, rfl, rfl⟩, ?_⟩
        simp [tryRedisSet, redisGet, redisSet, redisCommand, henabled,
          Program.Returns, Program.runAlone_recover, attempt,
          Program.runAlone, hfails]
  · refine ⟨w, .refl w, ?_⟩
    simp [tryRedisSet, henabled]

theorem exists_returns_countAttempt (phone : String) (purpose : OtpPurpose)
    (i ttlSeconds : ℕ) (hw : w.CountsWindows) (hd : d.databaseFails = false) :
    ∃ attempts t,
      (countAttempt phone purpose ttlSeconds).Returns i d w attempts t ∧
        t.CountsWindows := by
  have hunlocked : w.lockable none i
      (.countAttempt phone purpose ttlSeconds w.now) = true := by
    apply hw.unlocked
    intro lock hmem
    exact ⟨phone, purpose, List.mem_singleton.mp hmem⟩
  have hon : ∀ attempts, w.CountsOn
      ((w.autocommit i (.countAttempt phone purpose ttlSeconds w.now)).record
        (.attemptCounted i phone purpose attempts)) := fun attempts =>
    (countsOn_autocommit w _).trans (countsOn_record _ fun _ _ => rfl)
  have hreturns : ∃ attempts,
      (countAttempt phone purpose ttlSeconds).Returns i d w attempts
        ((w.autocommit i
          (.countAttempt phone purpose ttlSeconds w.now)).record
            (.attemptCounted i phone purpose attempts)) := by
    simp only [countAttempt, returns_statement hd]
    exact ⟨_, if_pos hunlocked⟩
  obtain ⟨attempts, hreturns⟩ := hreturns
  exact ⟨attempts, _, hreturns, (hon attempts).counts hw⟩

theorem exists_returns_clearOtpAttempts (app : Deployment) (phone : String)
    (purpose : OtpPurpose) (i : ℕ) (hw : w.CountsWindows)
    (hd : d.databaseFails = false) :
    ∃ t, (clearOtpAttempts app phone purpose).Returns i d w () t := by
  obtain ⟨t, hsame, hredis⟩ := exists_returns_tryRedis app i d
    (fun w => ((), w.redisDel (otpAttemptsKey phone purpose)))
    (⟨rfl, rfl, rfl, rfl⟩ : SameButRedis w
      (w.redisDel (otpAttemptsKey phone purpose)))
  have hunlocked : t.lockable none i (.clearAttempts phone purpose) = true := by
    apply (hw.of_same hsame).unlocked
    intro lock hmem
    obtain ⟨row, -, rfl⟩ := List.mem_map.mp hmem
    exact ⟨row.phone, row.purpose, rfl⟩
  refine ⟨t.autocommit i (.clearAttempts phone purpose), ?_⟩
  rw [clearOtpAttempts, Program.returns_bind]
  refine ⟨(), t, (hredis () t).mpr rfl, ?_⟩
  rw [perform, returns_execute hd]
  exact ⟨hunlocked, rfl, rfl⟩

/-- Nothing makes an increment wait, whatever Redis does. -/
theorem exists_returns_incrementOtpAttempts (maxAttempts ttlSeconds : ℕ)
    (hw : w.CountsWindows) (hd : d.databaseFails = false) :
    ∃ result t, (incrementOtpAttempts app phone purpose maxAttempts
      ttlSeconds).Returns i d w result t := by
  obtain ⟨t, hsame, hredis⟩ := exists_returns_countInRedis app i d w
    (otpAttemptsKey phone purpose) ttlSeconds
  obtain ⟨attempts, u, hcount, hu⟩ := exists_returns_countAttempt phone purpose
    i ttlSeconds (hw.of_same hsame) hd
  have hincrement : ∀ result s,
      (if maxAttempts ≤ attempts then do
          clearOtpAttempts app phone purpose
          pure ⟨attempts, true⟩
        else pure ⟨attempts, false⟩ : Handler IncrementOtpResult).Returns i d u
          result s →
        (incrementOtpAttempts app phone purpose maxAttempts
          ttlSeconds).Returns i d w result s := by
    intro result s hrest
    rw [incrementOtpAttempts, Program.returns_bind]
    refine ⟨(), t, hredis, ?_⟩
    rw [Program.returns_bind]
    exact ⟨attempts, u, hcount, hrest⟩
  by_cases hlocks : maxAttempts ≤ attempts
  · obtain ⟨s, hclear⟩ :=
      exists_returns_clearOtpAttempts app phone purpose i hu hd
    refine ⟨⟨attempts, true⟩, s, hincrement _ _ ?_⟩
    rw [if_pos hlocks, Program.returns_bind]
    exact ⟨(), s, hclear, rfl⟩
  · refine ⟨⟨attempts, false⟩, u, hincrement _ _ ?_⟩
    rw [if_neg hlocks]
    rfl

/-! ## Increments in a run -/

variable {acts : List (Acted Draw World)}

/-- The upsert returns the counter that it leaves. -/
theorem takes_countAttempt {ttlSeconds attempts : ℕ}
    (h : (countAttempt phone purpose ttlSeconds).Takes i acts
      (.done attempts)) :
    ∃ a, acts = [a] ∧
      a.after.history = .attemptCounted i phone purpose attempts ::
        .wrote i a.before.now
          (.countAttempt phone purpose ttlSeconds a.before.now) ::
            a.before.history ∧
      attempts = ((a.after.db.counter phone purpose).map Counter.count).getD 0 := by
  obtain ⟨a, rfl, haction⟩ := takes_statement h
  obtain ⟨-, haction⟩ := Option.ite_none_right_eq_some.mp haction
  obtain ⟨hattempts, hafter⟩ := Prod.mk.inj (Option.some.inj haction)
  obtain rfl := Except.ok.inj hattempts
  refine ⟨a, rfl, ?_, ?_⟩
  · rw [← hafter]
    rfl
  · rw [← hafter, Database.counter, Option.map_map]
    rfl

theorem counted_of_countsWindows {w : World} {ttlSeconds attempts now : ℕ}
    {past : List Event} (hw : w.CountsWindows)
    (hhistory : w.history = .attemptCounted i phone purpose attempts ::
      .wrote i now (.countAttempt phone purpose ttlSeconds now) :: past)
    (hattempts : attempts =
      ((w.db.counter phone purpose).map Counter.count).getD 0) :
    attempts = numberInWindow (.counted ⟨now, microseconds ttlSeconds⟩ ::
      attemptMarks phone purpose past) := by
  have hmarks : attemptMarks phone purpose w.history =
      .counted ⟨now, microseconds ttlSeconds⟩ ::
        attemptMarks phone purpose past := by
    rw [hhistory, attemptMarks, List.filterMap_cons_none rfl]
    change attemptMarks phone purpose (.wrote i now _ :: past) = _
    rw [attemptMarks_wrote, Write.mark, if_pos rfl]
    rfl
  obtain ⟨counter, hcounter⟩ := exists_reading_counted
    ⟨now, microseconds ttlSeconds⟩ (attemptMarks phone purpose past)
  rw [hw.counter, hmarks, hcounter] at hattempts
  rw [hattempts]
  exact count_of_reading hcounter

theorem takes_clearOtpAttempts
    (h : (clearOtpAttempts app phone purpose).Takes i acts (.done ())) :
    ∃ first a, acts = first ++ [a] ∧
      a.after = a.before.autocommit i (.clearAttempts phone purpose) := by
  obtain ⟨first, rest, _, rfl, -, hrest⟩ := Program.takes_bind h
  obtain ⟨a, rfl, ha⟩ := takes_perform hrest
  exact ⟨first, a, rfl, ha⟩

theorem takes_incrementOtpAttempts {maxAttempts ttlSeconds : ℕ}
    {result : IncrementOtpResult}
    (h : (incrementOtpAttempts app phone purpose maxAttempts
      ttlSeconds).Takes i acts (.done result)) :
    ∃ redis count rest, acts = redis ++ (count ++ rest) ∧
      (countAttempt phone purpose ttlSeconds).Takes i count
        (.done result.attempts) ∧
      (result.locked = true ↔ maxAttempts ≤ result.attempts) ∧
      (result.locked = true →
        (clearOtpAttempts app phone purpose).Takes i rest (.done ())) := by
  obtain ⟨redis, more, _, rfl, -, hmore⟩ := Program.takes_bind h
  obtain ⟨count, rest, attempts, rfl, hcount, hrest⟩ :=
    Program.takes_bind hmore
  by_cases hlocks : maxAttempts ≤ attempts
  · rw [if_pos hlocks] at hrest
    obtain ⟨clear, last, _, rfl, hclear, hlast⟩ := Program.takes_bind hrest
    obtain ⟨rfl, hresult⟩ := Program.takes_done.mp hlast
    obtain rfl := Program.done.inj hresult
    exact ⟨redis, count, clear ++ [], rfl, hcount, by simp [hlocks],
      fun _ => (List.append_nil clear).symm ▸ hclear⟩
  · rw [if_neg hlocks] at hrest
    obtain ⟨rfl, hresult⟩ := Program.takes_done.mp hrest
    obtain rfl := Program.done.inj hresult
    exact ⟨redis, count, [], rfl, hcount, by simp [hlocks], by simp⟩

variable {start pool : Pool StoreCall Draw World HttpError StoreResult}
  {moves : List (Move StoreCall Draw StoreSurroundings)}

/-- An action of a run acts in a world whose counters are right, and what has
happened before it stays. -/
theorem acted_countsWindows {a : Acted Draw World} (hthreads : start.threads = [])
    (hstart : start.state.CountsWindows)
    (hrun : (authStateStore app).run moves start = some pool)
    (hmem : a ∈ (authStateStore app).actionsOf i moves start) :
    a.after.CountsWindows ∧ a.after.history <:+ pool.state.history := by
  have hleads := authStateStore_leadsOn app
  have hempty : ∀ (s : World) (i : ℕ)
      (thread : Thread StoreCall Draw World HttpError StoreResult),
      start.threads[i]? = some thread → thread.body.Keeps s.CountsOn := by
    simp [hthreads]
  obtain ⟨front, back, before, after, -, hfront, -, hperform, hafter, hback⟩ :=
    System.exists_move_of_acted hrun hmem
  obtain ⟨hbefore, hon⟩ := hleads.run hempty hfront
  have hstep := hleads.moves hbefore hperform
  have hlater := (hleads.run (hleads.keeps hbefore hperform) hback).2
  rw [← hafter]
  exact ⟨hstep.counts (hon.counts hstart), hlater.history⟩

/-- In every run of the store's calls, whatever Redis does, an increment
returns the number of increments in the window that is current with it, and
reports the lock when that number has reached the maximum, after clearing.  No
increment ever waits. -/
theorem increments_count_window (app : Deployment) (now : ℕ)
    (moves : List (Move StoreCall Draw StoreSurroundings))
    (pool : Pool StoreCall Draw World HttpError StoreResult)
    (hrun : (authStateStore app).run moves ⟨.initial now, []⟩ = some pool) :
    (∀ i phone purpose maxAttempts ttlSeconds result,
      pool.answer i = some
        (.incrementOtpAttempts phone purpose maxAttempts ttlSeconds,
          .incremented result) →
      ∃ countedAt past,
        Happened (.wrote i countedAt
          (.countAttempt phone purpose ttlSeconds countedAt)) past
            pool.state.history ∧
        result.attempts =
          numberInWindow (.counted ⟨countedAt, microseconds ttlSeconds⟩ ::
            attemptMarks phone purpose past) ∧
        (result.locked = true ↔ maxAttempts ≤ result.attempts) ∧
        (result.locked = true → ∃ clearedAt between,
          Happened (.wrote i clearedAt (.clearAttempts phone purpose)) between
            pool.state.history ∧
          Happened (.wrote i countedAt
            (.countAttempt phone purpose ttlSeconds countedAt)) past
              between)) ∧
    ∀ i d phone purpose maxAttempts ttlSeconds, d.databaseFails = false →
      ∃ result t, (incrementOtpAttempts app phone purpose maxAttempts
        ttlSeconds).Returns i d pool.state result t := by
  have hinitial := countsWindows_initial now
  constructor
  · intro i phone purpose maxAttempts ttlSeconds result hanswer
    have htakes := System.takes_of_submitted hrun (Nat.zero_le i)
      (Pool.thread_of_answer hanswer)
    obtain ⟨own, last, middle, hacts, hown, hlast⟩ := Program.takes_bind htakes
    obtain ⟨rfl, hdone⟩ := Program.takes_done.mp hlast
    obtain rfl := StoreResult.incremented.inj (Program.done.inj hdone)
    obtain ⟨redis, count, rest, rfl, hcount, hlocked, hclear⟩ :=
      takes_incrementOtpAttempts hown
    obtain ⟨a, rfl, hhistory, hattempts⟩ := takes_countAttempt hcount
    have hmem : a ∈ (authStateStore app).actionsOf i moves
        ⟨.initial now, []⟩ := by
      simp [hacts]
    obtain ⟨hcounts, hpast⟩ := acted_countsWindows rfl hinitial hrun hmem
    have hcounted := counted_of_countsWindows hcounts hhistory hattempts
    have hwrote : Happened (.wrote i a.before.now
        (.countAttempt phone purpose ttlSeconds a.before.now))
          a.before.history a.after.history := by
      rw [hhistory]
      exact happened_self.cons
    refine ⟨a.before.now, a.before.history, hwrote.later hpast, hcounted,
      hlocked, fun hlock => ?_⟩
    obtain ⟨first, clear, rfl, hcleared⟩ :=
      takes_clearOtpAttempts (hclear hlock)
    have hclears : clear ∈ (authStateStore app).actionsOf i moves
        ⟨.initial now, []⟩ := by
      simp [hacts]
    have hafter := (acted_countsWindows rfl hinitial hrun hclears).2
    have hsublist : [a, clear].Sublist
        ((authStateStore app).actionsOf i moves ⟨.initial now, []⟩) := by
      rw [hacts, List.append_nil]
      exact ((List.sublist_append_right first [clear]).cons_cons a).trans
        (List.sublist_append_right redis _)
    have hfollows : a.after.CountsOn clear.before := by
      have hpairs := (authStateStore_leadsOn app).pairwise (i := i)
        (by simp) hrun
      simpa using hpairs.sublist hsublist
    have hwroteClear : Happened (.wrote i clear.before.now
        (.clearAttempts phone purpose)) clear.before.history
          clear.after.history := by
      rw [hcleared]
      exact happened_self
    exact ⟨clear.before.now, clear.before.history, hwroteClear.later hafter,
      hwrote.later hfollows.history⟩
  · intro i d phone purpose maxAttempts ttlSeconds hd
    have hcounts := (authStateStore_leadsOn app).run (by simp) hrun
    exact exists_returns_incrementOtpAttempts maxAttempts ttlSeconds
      (hcounts.2.counts hinitial) hd

/-- Two attempts are allowed in a minute.  The first runs out, the third locks,
and the fourth counts from one again. -/
def lockingMoves : List (Move StoreCall Draw StoreSurroundings) :=
  let call := .incrementOtpAttempts "+1" .registration 2 60
  alone 0 call 1 ++
    [Move.environment (StoreSurroundings.timePasses (microseconds 60))] ++
    alone 1 call 1 ++ alone 2 call 2 ++ alone 3 call 1

theorem increments_count_window_lock :
    ∃ pool countedAt past,
      (authStateStore (sampleDeployment .console)).run lockingMoves
        ⟨.initial 0, []⟩ = some pool ∧
      (pool.answer 0).map Prod.snd = some (.incremented ⟨1, false⟩) ∧
      (pool.answer 1).map Prod.snd = some (.incremented ⟨1, false⟩) ∧
      (pool.answer 3).map Prod.snd = some (.incremented ⟨1, false⟩) ∧
      Happened (.wrote 2 countedAt
        (.countAttempt "+1" .registration 60 countedAt)) past
          pool.state.history ∧
      2 = numberInWindow (.counted ⟨countedAt, microseconds 60⟩ ::
        attemptMarks "+1" .registration past) := by
  obtain ⟨pool, hrun, hothers, hanswer⟩ : ∃ pool,
      (authStateStore (sampleDeployment .console)).run lockingMoves
        ⟨.initial 0, []⟩ = some pool ∧
      ((pool.answer 0).map Prod.snd = some (.incremented ⟨1, false⟩) ∧
        (pool.answer 1).map Prod.snd = some (.incremented ⟨1, false⟩) ∧
        (pool.answer 3).map Prod.snd = some (.incremented ⟨1, false⟩)) ∧
      pool.answer 2 = some (.incrementOtpAttempts "+1" .registration 2 60,
        .incremented ⟨2, true⟩) :=
    ⟨_, rfl, ⟨rfl, rfl, rfl⟩, rfl⟩
  obtain ⟨countedAt, past, hcounted, hnumber, -⟩ :=
    (increments_count_window (sampleDeployment .console) 0 lockingMoves pool
      hrun).1 2 "+1" .registration 2 60 ⟨2, true⟩ hanswer
  exact ⟨pool, countedAt, past, hrun, hothers.1, hothers.2.1, hothers.2.2,
    hcounted, hnumber⟩

end MarketPlace
