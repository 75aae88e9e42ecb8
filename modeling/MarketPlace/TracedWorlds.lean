import MarketPlace.Effects

/-!
# The world follows its history

Every effect, and everything that happens outside of the requests, keeps the
world traced: its tables are those its history stores, its sockets those its
history opens, and its history is lawful.
-/

namespace MarketPlace

open EventLog Interleaving

structure World.Traced (app : Deployment) (w : World) : Prop where
  stores : w.db = stored w.history
  lawful : LawfulHistory app w.history
  clock : ∀ event ∈ w.history, ∀ t, event.time = some t → t ≤ w.now
  users : ∀ j row, .queued j (.insertUser row) ∈ w.history →
    row.id < w.ids.users
  otps : ∀ j at_ row, .wrote j at_ (.insertOtp row) ∈ w.history →
    row.id < w.ids.authOtps ∧ row.createdAt < w.now
  queues : ∀ i, ∀ write ∈ w.store.queue i,
    write.transactional = true ∧ .queued i write ∈ w.history
  redis : ∀ entry ∈ w.redis, ∀ phone purpose,
    entry.key = otpTransactionKey phone purpose →
      ∃ j, .akedlySent j phone purpose entry.value ∈ w.history
  akedly : ∀ transactionReqID,
    (∃ j phone purpose,
      .akedlySent j phone purpose transactionReqID ∈ w.history) ↔
      ∃ transaction ∈ w.akedly,
        transaction.transactionReqID = transactionReqID
  sockets : w.sockets = openSockets w.history

theorem World.traced_initial (app : Deployment) (now : ℕ) :
    (World.initial now).Traced app where
  stores := rfl
  lawful := lawful_nil
  clock := by simp [World.initial]
  users := by simp [World.initial]
  otps := by simp [World.initial]
  queues := by simp [World.initial, ReadCommitted.Store.fresh]
  redis := by simp [World.initial]
  akedly := by simp [World.initial]
  sockets := rfl

variable {app : Deployment} {permitted : Write → Prop}

/-! ## From the world to the law -/

theorem World.Traced.grounded {w : World} {i now : ℕ} {write : Write}
    (htraced : w.Traced app) (hoffered : write.Offered app i now w) :
    write.Grounded app i now w.history := by
  cases write with
  | insertUser row =>
      obtain ⟨hid, hversion, hlive, hactive, -⟩ := hoffered
      exact ⟨hversion, hlive, hactive,
        fun j other hother => hid ▸ htraced.users j other hother⟩
  | insertOtp row =>
      obtain ⟨hid, hcreated, hnow, hused, hexpires⟩ := hoffered
      refine ⟨hcreated, hused, hexpires, fun j at_ other hother => ?_⟩
      obtain ⟨hother_id, hother_created⟩ := htraced.otps j at_ other hother
      rw [hid, hcreated, hnow]
      exact ⟨hother_id, hother_created⟩
  | _ => exact hoffered

theorem World.signed_iff {w : World} {token : Token} :
    w.signed token = true ↔ ∃ j, .minted j token ∈ w.history := by
  constructor
  · intro h
    obtain ⟨event, hmem, hmatch⟩ := List.any_eq_true.mp h
    cases event with
    | minted j other =>
        rw [decide_eq_true_eq] at hmatch
        exact ⟨j, hmatch ▸ hmem⟩
    | _ => simp at hmatch
  · rintro ⟨j, hmem⟩
    exact List.any_eq_true.mpr ⟨_, hmem, by simp⟩

theorem World.tokenVerifies_iff {w : World} {token : Token} {secret : String} :
    w.tokenVerifies token secret = true ↔
      token.secret = secret ∧ (∃ j, .minted j token ∈ w.history) ∧
        w.seconds < token.exp := by
  simp [World.tokenVerifies, World.signed_iff, and_assoc]

/-- Recorded events change neither what is stored nor the open sockets. -/
theorem Event.Observed.effect {i : ℕ} {event : Event} {w : World}
    (hobserved : event.Observed i w) (db : Database) :
    event.effect db = db := by
  cases event <;> first | rfl | exact False.elim hobserved

theorem Event.Observed.socketEffect {i : ℕ} {event : Event} {w : World}
    (hobserved : event.Observed i w) (sockets : List ChatSocket) :
    event.socketEffect sockets = sockets := by
  cases event <;> first | rfl | exact False.elim hobserved

theorem World.Traced.justified {w : World} {i : ℕ} {event : Event}
    (htraced : w.Traced app) (hobserved : event.Observed i w) :
    event.Justified app w.history := by
  cases event with
  | userRead j row =>
      simp only [Event.Justified, ← htraced.stores]
      exact hobserved.2
  | pendingRead j row =>
      simp only [Event.Justified, ← htraced.stores]
      exact hobserved.2
  | otpRead j at_ row =>
      simp only [Event.Justified, ← htraced.stores]
      exact hobserved.2.2
  | attemptCounted j phone purpose attempts =>
      obtain ⟨rfl, hattempts, hcounted⟩ := hobserved
      simp only [Event.Justified, ← htraced.stores]
      exact ⟨hattempts, hcounted⟩
  | minted j token =>
      obtain ⟨rfl, horigin⟩ := hobserved
      exact horigin
  | verified j at_ token =>
      obtain ⟨rfl, rfl, hverifies⟩ := hobserved
      obtain ⟨-, hsigned, hfresh⟩ := World.tokenVerifies_iff.mp hverifies
      exact ⟨hfresh, hsigned⟩
  | akedlyVerified j transactionReqID code =>
      obtain ⟨transaction, hmem, hmatch⟩ :=
        List.any_eq_true.mp hobserved.2
      simp only [Bool.and_eq_true, decide_eq_true_eq] at hmatch
      exact (htraced.akedly transactionReqID).mpr
        ⟨transaction, hmem, hmatch.1⟩
  | socketUsed j socket userId =>
      simp only [Event.Justified, ← htraced.sockets]
      exact hobserved.2
  | _ => exact False.elim hobserved

/-- An event at the present time is timely. -/
theorem World.Traced.timely {w : World} {event : Event}
    (htraced : w.Traced app)
    (hnow : ∀ t, event.time = some t → t = w.now) :
    event.Timely w.history :=
  fun t ht other hother u hu =>
    hnow t ht ▸ htraced.clock other hother u hu

theorem Event.Observed.time {i : ℕ} {event : Event} {w : World}
    (hobserved : event.Observed i w) (t : ℕ) (ht : event.time = some t) :
    t = w.now := by
  cases event with
  | otpRead j at_ row =>
      exact (Option.some.inj ht) ▸ hobserved.2.1
  | verified j at_ token =>
      exact (Option.some.inj ht) ▸ hobserved.2.1
  | wrote j at_ write => exact False.elim hobserved
  | _ => exact nomatch ht

/-! ## Every effect keeps the world traced -/

namespace World.Traced

variable {w : World} {i : ℕ}

theorem recorded {event : Event} (htraced : w.Traced app)
    (hobserved : event.Observed i w) : (w.record event).Traced app where
  stores := by
    simp only [World.db, World.record, stored_cons, hobserved.effect]
    exact htraced.stores
  lawful := lawful_cons.mpr
    ⟨⟨htraced.justified hobserved, htraced.timely hobserved.time⟩,
      htraced.lawful⟩
  clock := by
    intro other hother t ht
    rcases List.mem_cons.mp hother with rfl | hother
    · exact (hobserved.time t ht).le
    · exact htraced.clock other hother t ht
  users := by
    intro j row hqueued
    rcases List.mem_cons.mp hqueued with rfl | hqueued
    · exact False.elim hobserved
    · exact htraced.users j row hqueued
  otps := by
    intro j at_ row hwrote
    rcases List.mem_cons.mp hwrote with rfl | hwrote
    · exact False.elim hobserved
    · exact htraced.otps j at_ row hwrote
  queues j write hwrite :=
    ⟨(htraced.queues j write hwrite).1,
      List.mem_cons_of_mem _ (htraced.queues j write hwrite).2⟩
  redis entry hentry phone purpose hkey := by
    obtain ⟨j, hsent⟩ := htraced.redis entry hentry phone purpose hkey
    exact ⟨j, List.mem_cons_of_mem _ hsent⟩
  akedly transactionReqID := by
    have hother : ∀ j phone purpose,
        Event.akedlySent j phone purpose transactionReqID ≠ event := by
      rintro j phone purpose rfl
      exact hobserved
    simpa [World.record, hother] using htraced.akedly transactionReqID
  sockets := by
    simp only [World.record, openSockets_cons, hobserved.socketEffect]
    exact htraced.sockets

theorem nextIds_users_le (write : Write) (ids : Sequences) :
    ids.users ≤ (World.nextIds write ids).users := by
  cases write <;> simp [World.nextIds]

theorem nextIds_authOtps_le (write : Write) (ids : Sequences) :
    ids.authOtps ≤ (World.nextIds write ids).authOtps := by
  cases write <;> simp [World.nextIds]

theorem autocommitted {write : Write} (htraced : w.Traced app)
    (halone : write.onlyInTransaction = false)
    (hoffered : write.Offered app i w.now w) :
    (w.autocommit i write).Traced app where
  stores := by
    simp only [World.db, World.autocommit, stored_cons, Event.effect]
    exact congrArg (Database.apply write) htraced.stores
  lawful := lawful_cons.mpr
    ⟨⟨⟨fun honly => absurd honly (by simp [halone]),
        fun _ => htraced.grounded hoffered⟩,
      htraced.timely fun t ht => (Option.some.inj ht).symm⟩,
      htraced.lawful⟩
  clock := by
    intro other hother t ht
    rcases List.mem_cons.mp hother with rfl | hother
    · exact (Option.some.inj ht) ▸ Nat.le_succ _
    · exact (htraced.clock other hother t ht).trans (Nat.le_succ _)
  users := by
    intro j row hqueued
    rcases List.mem_cons.mp hqueued with heq | hqueued
    · contradiction
    · exact (htraced.users j row hqueued).trans_le (nextIds_users_le _ _)
  otps := by
    intro j at_ row hwrote
    rcases List.mem_cons.mp hwrote with heq | hwrote
    · injection heq with _ _ hwrite
      subst hwrite
      obtain ⟨hid, hcreated, -, -, -⟩ := hoffered
      simp [World.autocommit, World.nextIds, hid, hcreated]
    · have hold := htraced.otps j at_ row hwrote
      exact ⟨hold.1.trans_le (nextIds_authOtps_le _ _),
        hold.2.trans (Nat.lt_succ_self _)⟩
  queues j other hother :=
    ⟨(htraced.queues j other hother).1,
      List.mem_cons_of_mem _ (htraced.queues j other hother).2⟩
  redis entry hentry phone purpose hkey := by
    obtain ⟨j, hsent⟩ := htraced.redis entry hentry phone purpose hkey
    exact ⟨j, List.mem_cons_of_mem _ hsent⟩
  akedly transactionReqID := by
    simpa [World.autocommit] using htraced.akedly transactionReqID
  sockets := htraced.sockets

theorem enqueued {write : Write} (htraced : w.Traced app)
    (htransactional : write.transactional = true)
    (hoffered : ∃ now, write.Offered app i now w) :
    (w.enqueue i write).Traced app where
  stores := htraced.stores
  lawful := by
    obtain ⟨now, hoffered⟩ := hoffered
    exact lawful_cons.mpr
      ⟨⟨⟨htransactional, now, htraced.grounded hoffered⟩,
        htraced.timely fun t ht => nomatch ht⟩, htraced.lawful⟩
  clock := by
    intro other hother t ht
    rcases List.mem_cons.mp hother with rfl | hother
    · exact nomatch ht
    · exact htraced.clock other hother t ht
  users := by
    intro j row hqueued
    rcases List.mem_cons.mp hqueued with heq | hqueued
    · injection heq with _ hwrite
      subst hwrite
      obtain ⟨now, hid, -⟩ := hoffered
      simp [World.enqueue, World.nextIds, hid]
    · exact (htraced.users j row hqueued).trans_le (nextIds_users_le _ _)
  otps := by
    intro j at_ row hwrote
    rcases List.mem_cons.mp hwrote with heq | hwrote
    · contradiction
    · have hold := htraced.otps j at_ row hwrote
      exact ⟨hold.1.trans_le (nextIds_authOtps_le _ _), hold.2⟩
  queues j other hother := by
    by_cases hj : j = i
    · subst hj
      simp only [World.enqueue, ReadCommitted.Store.queue_enqueue,
        List.mem_append, List.mem_singleton] at hother
      rcases hother with hother | rfl
      · exact ⟨(htraced.queues j other hother).1,
          List.mem_cons_of_mem _ (htraced.queues j other hother).2⟩
      · exact ⟨htransactional, List.mem_cons_self⟩
    · rw [World.enqueue, ReadCommitted.Store.queue_enqueue_of_ne _ _ _ hj]
        at hother
      exact ⟨(htraced.queues j other hother).1,
        List.mem_cons_of_mem _ (htraced.queues j other hother).2⟩
  redis entry hentry phone purpose hkey := by
    obtain ⟨j, hsent⟩ := htraced.redis entry hentry phone purpose hkey
    exact ⟨j, List.mem_cons_of_mem _ hsent⟩
  akedly transactionReqID := by
    simpa [World.enqueue] using htraced.akedly transactionReqID
  sockets := htraced.sockets

theorem withStore
    {store : ReadCommitted.Store Database Write Lock}
    (htraced : w.Traced app)
    (hcommitted : store.committed = w.store.committed)
    (hqueue : ∀ j, ∀ write ∈ store.queue j, write ∈ w.store.queue j) :
    World.Traced app { w with store := store } where
  stores := hcommitted.trans htraced.stores
  lawful := htraced.lawful
  clock := htraced.clock
  users := htraced.users
  otps := htraced.otps
  queues j write hwrite := htraced.queues j write (hqueue j write hwrite)
  redis := htraced.redis
  akedly := htraced.akedly
  sockets := htraced.sockets

theorem locked (locks : List Lock) (htraced : w.Traced app) :
    (w.lock i locks).Traced app :=
  htraced.withStore rfl fun _ _ hwrite => hwrite

theorem rolledBack (htraced : w.Traced app) : (w.rollback i).Traced app := by
  refine htraced.withStore rfl fun j write hwrite => ?_
  by_cases hj : j = i
  · subst hj
    rw [ReadCommitted.Store.queue_rollback] at hwrite
    exact absurd hwrite List.not_mem_nil
  · rwa [ReadCommitted.Store.queue_rollback_of_ne _ hj] at hwrite

end World.Traced

/-! ## Commits -/

theorem mem_flush {i now : ℕ} {writes : List Write} {history : List Event}
    {event : Event} :
    event ∈ World.flush i now writes history ↔
      (∃ write ∈ writes, event = .wrote i now write) ∨ event ∈ history := by
  simp [flush_eq, eq_comm]

theorem stored_flush (i now : ℕ) (writes : List Write) (history : List Event) :
    stored (World.flush i now writes history) =
      schema.settle writes (stored history) := by
  induction writes generalizing history with
  | nil => rfl
  | cons write rest ih => exact ih _

theorem openSockets_flush
    (i now : ℕ) (writes : List Write) (history : List Event) :
    openSockets (World.flush i now writes history) = openSockets history := by
  induction writes generalizing history with
  | nil => rfl
  | cons write rest ih => exact ih _

theorem lawful_flush {i now : ℕ} {writes : List Write} {history : List Event}
    (hlawful : LawfulHistory app history)
    (hwrites : ∀ write ∈ writes, .queued i write ∈ history)
    (hclock : ∀ event ∈ history, ∀ t, event.time = some t → t ≤ now) :
    LawfulHistory app (World.flush i now writes history) := by
  induction writes generalizing history with
  | nil => exact hlawful
  | cons write rest ih =>
      have hqueued := hwrites write List.mem_cons_self
      refine ih (lawful_cons.mpr ⟨⟨⟨fun _ => hqueued,
          fun hnot => absurd hqueued hnot⟩, ?_⟩, hlawful⟩)
        (fun other hother => List.mem_cons_of_mem _
          (hwrites other (List.mem_cons_of_mem _ hother))) ?_
      · intro t ht other hother u hu
        exact (Option.some.inj ht) ▸ hclock other hother u hu
      · intro event hevent t ht
        rcases List.mem_cons.mp hevent with rfl | hevent
        · exact (Option.some.inj ht).ge
        · exact hclock event hevent t ht

namespace World.Traced

variable {w : World} {i : ℕ}

theorem committed (htraced : w.Traced app) : (w.commit i).Traced app where
  stores := by
    simp only [World.db, World.commit, ReadCommitted.Store.committed_commit,
      stored_flush, ← htraced.stores]
    rfl
  lawful := lawful_flush htraced.lawful
    (fun write hwrite => (htraced.queues i write hwrite).2) htraced.clock
  clock := by
    intro event hevent t ht
    rcases mem_flush.mp hevent with ⟨write, -, rfl⟩ | hevent
    · exact (Option.some.inj ht).ge
    · exact htraced.clock event hevent t ht
  users := by
    intro j row hqueued
    rcases mem_flush.mp hqueued with ⟨write, -, heq⟩ | hqueued
    · contradiction
    · exact htraced.users j row hqueued
  otps := by
    intro j at_ row hwrote
    rcases mem_flush.mp hwrote with ⟨write, hwrite, heq⟩ | hwrote
    · injection heq with _ _ heq
      subst heq
      exact absurd (htraced.queues i _ hwrite).1 (by simp [Write.transactional])
    · exact htraced.otps j at_ row hwrote
  queues j write hwrite := by
    by_cases hj : j = i
    · subst hj
      rw [World.commit, ReadCommitted.Store.queue_commit] at hwrite
      exact absurd hwrite List.not_mem_nil
    · rw [World.commit, ReadCommitted.Store.queue_commit_of_ne _ _ hj]
        at hwrite
      exact ⟨(htraced.queues j write hwrite).1,
        mem_flush.mpr (.inr (htraced.queues j write hwrite).2)⟩
  redis entry hentry phone purpose hkey := by
    obtain ⟨j, hsent⟩ := htraced.redis entry hentry phone purpose hkey
    exact ⟨j, mem_flush.mpr (.inr hsent)⟩
  akedly transactionReqID := by
    simpa [World.commit, mem_flush] using htraced.akedly transactionReqID
  sockets := by
    simp only [World.commit, openSockets_flush]
    exact htraced.sockets

/-! ## Redis, Akedly, sockets -/

theorem withRedis {redis : List RedisEntry} (htraced : w.Traced app)
    (hredis : ∀ entry ∈ redis, ∀ phone purpose,
      entry.key = otpTransactionKey phone purpose →
        ∃ j, .akedlySent j phone purpose entry.value ∈ w.history) :
    World.Traced app { w with redis := redis } where
  stores := htraced.stores
  lawful := htraced.lawful
  clock := htraced.clock
  users := htraced.users
  otps := htraced.otps
  queues := htraced.queues
  redis := hredis
  akedly := htraced.akedly
  sockets := htraced.sockets

theorem redisSet {key value : String} {ttlSeconds : ℕ}
    (htraced : w.Traced app)
    (hkey : ∀ phone purpose, key = otpTransactionKey phone purpose →
      ∃ j, .akedlySent j phone purpose value ∈ w.history) :
    (w.redisSet key value ttlSeconds).Traced app := by
  refine htraced.withRedis fun entry hentry phone purpose hentry_key => ?_
  rcases List.mem_cons.mp hentry with rfl | hentry
  · exact hkey phone purpose hentry_key
  · exact htraced.redis entry (List.mem_of_mem_filter hentry) phone purpose
      hentry_key

theorem redisDel (key : String) (htraced : w.Traced app) :
    (w.redisDel key).Traced app :=
  htraced.withRedis fun entry hentry =>
    htraced.redis entry (List.mem_of_mem_filter hentry)

theorem transactionStarted {transaction : AkedlyTransaction}
    {phone : String} {purpose : OtpPurpose} (htraced : w.Traced app)
    (hnew : ∀ other ∈ w.akedly,
      other.transactionReqID ≠ transaction.transactionReqID) :
    ((w.startTransaction transaction).record
      (.akedlySent i phone purpose transaction.transactionReqID)).Traced
        app where
  stores := htraced.stores
  lawful := by
    refine lawful_cons.mpr ⟨⟨fun j phone purpose hsent => ?_,
      htraced.timely fun t ht => nomatch ht⟩, htraced.lawful⟩
    obtain ⟨other, hother, hsame⟩ :=
      (htraced.akedly transaction.transactionReqID).mp ⟨j, phone, purpose, hsent⟩
    exact hnew other hother hsame
  clock := by
    intro event hevent t ht
    rcases List.mem_cons.mp hevent with rfl | hevent
    · exact nomatch ht
    · exact htraced.clock event hevent t ht
  users := by simpa [World.record, World.startTransaction] using htraced.users
  otps := by simpa [World.record, World.startTransaction] using htraced.otps
  queues j write hwrite :=
    ⟨(htraced.queues j write hwrite).1,
      List.mem_cons_of_mem _ (htraced.queues j write hwrite).2⟩
  redis entry hentry phone purpose hkey := by
    obtain ⟨j, hsent⟩ := htraced.redis entry hentry phone purpose hkey
    exact ⟨j, List.mem_cons_of_mem _ hsent⟩
  akedly transactionReqID := by
    have hold := htraced.akedly transactionReqID
    constructor
    · rintro ⟨j, phone', purpose', hsent⟩
      rcases List.mem_cons.mp hsent with heq | hsent
      · injection heq with _ _ _ hid
        exact ⟨transaction, List.mem_cons_self, hid.symm⟩
      · obtain ⟨other, hother, hid⟩ := hold.mp ⟨j, phone', purpose', hsent⟩
        exact ⟨other, List.mem_cons_of_mem _ hother, hid⟩
    · rintro ⟨other, hother, hid⟩
      rcases List.mem_cons.mp hother with rfl | hother
      · exact ⟨i, phone, purpose, hid ▸ List.mem_cons_self⟩
      · obtain ⟨j, phone', purpose', hsent⟩ := hold.mpr ⟨other, hother, hid⟩
        exact ⟨j, phone', purpose', List.mem_cons_of_mem _ hsent⟩
  sockets := htraced.sockets

theorem socketOpened {userId : ℕ} (htraced : w.Traced app)
    (hverified : ∃ at_ token, .verified i at_ token ∈ w.history ∧
      token.sub = userId ∧ token.secret = app.config.jwtAccessSecret) :
    ((w.openSocket ⟨w.ids.sockets, userId⟩).record
      (.socketOpened i w.ids.sockets userId)).Traced app where
  stores := htraced.stores
  lawful := lawful_cons.mpr
    ⟨⟨hverified, htraced.timely fun t ht => nomatch ht⟩, htraced.lawful⟩
  clock := by
    intro event hevent t ht
    rcases List.mem_cons.mp hevent with rfl | hevent
    · exact nomatch ht
    · exact htraced.clock event hevent t ht
  users := by simpa [World.record, World.openSocket] using htraced.users
  otps := by simpa [World.record, World.openSocket] using htraced.otps
  queues j write hwrite :=
    ⟨(htraced.queues j write hwrite).1,
      List.mem_cons_of_mem _ (htraced.queues j write hwrite).2⟩
  redis entry hentry phone purpose hkey := by
    obtain ⟨j, hsent⟩ := htraced.redis entry hentry phone purpose hkey
    exact ⟨j, List.mem_cons_of_mem _ hsent⟩
  akedly transactionReqID := by
    simpa [World.record, World.openSocket] using
      htraced.akedly transactionReqID
  sockets := congrArg (_ :: ·) htraced.sockets

/-! ## The surroundings -/

theorem timePasses (amount : ℕ) (htraced : w.Traced app) :
    World.Traced app { w with now := w.now + amount } where
  stores := htraced.stores
  lawful := htraced.lawful
  clock event hevent t ht :=
    (htraced.clock event hevent t ht).trans (Nat.le_add_right _ _)
  users := htraced.users
  otps j at_ row hwrote :=
    ⟨(htraced.otps j at_ row hwrote).1,
      (htraced.otps j at_ row hwrote).2.trans_le (Nat.le_add_right _ _)⟩
  queues := htraced.queues
  redis := htraced.redis
  akedly := htraced.akedly
  sockets := htraced.sockets

theorem socketCloses (socket : ℕ) (htraced : w.Traced app) :
    (w.surroundings (.socketCloses socket)).Traced app where
  stores := htraced.stores
  lawful := lawful_cons.mpr
    ⟨⟨trivial, htraced.timely fun t ht => nomatch ht⟩, htraced.lawful⟩
  clock := by simpa [World.surroundings, Event.time] using htraced.clock
  users := by simpa [World.surroundings] using htraced.users
  otps := by simpa [World.surroundings] using htraced.otps
  queues j write hwrite :=
    ⟨(htraced.queues j write hwrite).1,
      List.mem_cons_of_mem _ (htraced.queues j write hwrite).2⟩
  redis entry hentry phone purpose hkey := by
    obtain ⟨j, hsent⟩ := htraced.redis entry hentry phone purpose hkey
    exact ⟨j, List.mem_cons_of_mem _ hsent⟩
  akedly := by simpa [World.surroundings] using htraced.akedly
  sockets := by
    simp only [World.surroundings, openSockets_cons, Event.socketEffect,
      htraced.sockets]

theorem writtenElsewhere {write : Write} (houtside : write.outside = true)
    (htraced : w.Traced app) : (w.writeElsewhere write).Traced app where
  stores := by
    simp only [World.db, World.writeElsewhere, stored_cons, Event.effect]
    exact congrArg (Database.apply write) htraced.stores
  lawful := lawful_cons.mpr
    ⟨⟨houtside, htraced.timely fun t ht => nomatch ht⟩, htraced.lawful⟩
  clock := by simpa [World.writeElsewhere, Event.time] using htraced.clock
  users j row hqueued := by
    rcases List.mem_cons.mp hqueued with heq | hqueued
    · contradiction
    · exact (htraced.users j row hqueued).trans_le (nextIds_users_le _ _)
  otps j at_ row hwrote := by
    rcases List.mem_cons.mp hwrote with heq | hwrote
    · contradiction
    · have hold := htraced.otps j at_ row hwrote
      exact ⟨hold.1.trans_le (nextIds_authOtps_le _ _), hold.2⟩
  queues j other hother :=
    ⟨(htraced.queues j other hother).1,
      List.mem_cons_of_mem _ (htraced.queues j other hother).2⟩
  redis entry hentry phone purpose hkey := by
    obtain ⟨j, hsent⟩ := htraced.redis entry hentry phone purpose hkey
    exact ⟨j, List.mem_cons_of_mem _ hsent⟩
  akedly := by simpa [World.writeElsewhere] using htraced.akedly
  sockets := htraced.sockets

theorem surroundings (event : Surroundings) (htraced : w.Traced app) :
    (w.surroundings event).Traced app := by
  cases event with
  | timePasses amount => exact htraced.timePasses amount
  | socketCloses socket => exact htraced.socketCloses socket
  | conversationOpens userAId userBId => exact htraced.writtenElsewhere rfl
  | blocks blockerId blockedId => exact htraced.writtenElsewhere rfl
  | unblocks blockerId blockedId => exact htraced.writtenElsewhere rfl

end World.Traced

theorem Effect.traced {i : ℕ} {w w' : World}
    (heffect : Effect app permitted i w w') (htraced : w.Traced app) :
    w'.Traced app := by
  cases heffect with
  | recorded event hobserved => exact htraced.recorded hobserved
  | autocommitted write hpermitted halone hunlocked hoffered =>
      exact htraced.autocommitted halone hoffered
  | enqueued write hpermitted htransactional havailable hoffered =>
      exact htraced.enqueued htransactional hoffered
  | locked locks havailable => exact htraced.locked locks
  | rolledBack => exact htraced.rolledBack
  | committed => exact htraced.committed
  | redisSet key value ttlSeconds hkey => exact htraced.redisSet hkey
  | redisDel key => exact htraced.redisDel key
  | transactionStarted transaction phone purpose hnew =>
      exact htraced.transactionStarted hnew
  | socketOpened userId hverified => exact htraced.socketOpened hverified

theorem Action.traced {i : ℕ} {w w' : World}
    (haction : Action app permitted i w w') (htraced : w.Traced app) :
    w'.Traced app := by
  induction haction with
  | refl => exact htraced
  | tail _ heffect ih => exact heffect.traced ih

/-- The discipline under which the handlers are checked. -/
def discipline (app : Deployment) (permitted : Write → Prop) :
    Discipline World where
  invariant := World.Traced app
  rely := Rely
  guarantee := Action app permitted
  rely_refl := Rely.refl
  rely_trans := Rely.trans
  guarantee_rely := Action.rely
  guarantee_invariant := Action.traced

end MarketPlace
