import MarketPlace.TracedWorlds

/-!
# Rules for statements and commands

One rule for each kind of action: what it leaves in the history, and what it
needs.  A rule's conclusion is that the action meets a postcondition from a
world; the postcondition is shown at every later traced world, so that it can
be the check of the program that follows.
-/

namespace MarketPlace

open EventLog Interleaving

/-- A traced world in which the others, or actions of `i` that leave its
transaction alone, have gone on. -/
structure Later (app : Deployment) (i : ℕ) (w t : World) : Prop
    extends Rely i w t where
  traced : t.Traced app

theorem Later.trans {app : Deployment} {i : ℕ} {w u t : World}
    (h : Rely i w u) (h' : Later app i u t) : Later app i w t :=
  ⟨h.trans h'.toRely, h'.traced⟩

theorem Later.mem {app : Deployment} {i : ℕ} {w t : World} {event : Event}
    (h : Later app i w t) (hmem : event ∈ w.history) : event ∈ t.history :=
  h.history.subset hmem

variable {app : Deployment} {permitted : Write → Prop} {i : ℕ} {w : World}
variable {β : Type} {post : β → World → Prop} {fail : HttpError → World → Prop}

theorem attempt_meets
    {action : ℕ → Draw → World → Option (Except HttpError β × World)}
    (haction : ∀ u, Later app i w u → ∀ d outcome v,
      action i d u = some (outcome, v) →
        Action app permitted i u v ∧
          ∀ t, Later app i v t →
            match outcome with
            | .ok value => post value t
            | .error error => fail error t) :
    (attempt action).Meets (discipline app permitted) i post fail w := by
  intro u hu htraced d outcome v hrun
  obtain ⟨hguarantee, hafter⟩ := haction u ⟨hu, htraced⟩ d outcome v hrun
  refine ⟨hguarantee, ?_⟩
  cases outcome with
  | ok value => exact fun t ht ht' => hafter t ⟨ht, ht'⟩
  | error error => exact fun t ht ht' => hafter t ⟨ht, ht'⟩

theorem statement_meets
    {action : ℕ → Draw → World → Option (Except HttpError β × World)}
    (hfail : ∀ t, fail databaseError t)
    (haction : ∀ u, Later app i w u → ∀ d outcome v,
      action i d u = some (outcome, v) →
        Action app permitted i u v ∧
          ∀ t, Later app i v t →
            match outcome with
            | .ok value => post value t
            | .error error => fail error t) :
    (statement action).Meets (discipline app permitted) i post fail w := by
  refine attempt_meets fun u hu d outcome v hrun => ?_
  split at hrun
  · simp only [Option.some.injEq, Prod.mk.injEq] at hrun
    obtain ⟨rfl, rfl⟩ := hrun
    exact ⟨.refl, fun t _ => hfail t⟩
  · exact haction u hu d outcome v hrun

/-! ## Reads -/

theorem select_meets {client : Option Client} {query : Database → β}
    (hfail : ∀ t, fail databaseError t)
    (hpost : ∀ value t, Later app i w t → post value t) :
    (select client query).Meets (discipline app permitted) i post fail w := by
  refine statement_meets hfail fun u hu d outcome v hrun => ?_
  simp only [Option.some.injEq, Prod.mk.injEq] at hrun
  obtain ⟨rfl, rfl⟩ := hrun
  exact ⟨.refl, fun t ht => hpost _ t (Later.trans hu.toRely ht)⟩

theorem draw_meets {choose : Draw → β}
    (hpost : ∀ d t, Later app i w t → post (choose d) t) :
    (draw choose).Meets (discipline app permitted) i post fail w := by
  intro u hu htraced d value v hrun
  simp only [Option.some.injEq, Prod.mk.injEq] at hrun
  obtain ⟨rfl, rfl⟩ := hrun
  exact ⟨.refl, fun t ht ht' => hpost d t ⟨hu.trans ht, ht'⟩⟩

theorem currentTime_meets {post : ℕ → World → Prop}
    (hpost : ∀ now t, Later app i w t → w.now ≤ now → now ≤ t.now →
      post now t) :
    currentTime.Meets (discipline app permitted) i post fail w := by
  intro u hu htraced d value v hrun
  simp only [Option.some.injEq, Prod.mk.injEq] at hrun
  obtain ⟨rfl, rfl⟩ := hrun
  exact ⟨.refl, fun t ht ht' =>
    hpost _ t ⟨hu.trans ht, ht'⟩ hu.clock ht.clock⟩

theorem Rely.record (event : Event) : Rely i w (w.record event) :=
  ⟨List.suffix_cons _ _, rfl, le_rfl⟩

theorem recorded_action {event : Event} (hobserved : event.Observed i w) :
    Action app permitted i w (w.record event) :=
  .single (.recorded event hobserved)

/-- What a read of one row leaves behind: the event, after all that was known
before. -/
theorem happened_of_record {u t : World} {event : Event}
    (hu : Rely i w u) (ht : Later app i (u.record event) t) :
    Later app i w t ∧ ∃ past, Happened event past t.history ∧
      w.history <:+ past :=
  ⟨Later.trans (hu.trans (Rely.record event)) ht,
    u.history, Happened.later happened_self ht.history, hu.history⟩

theorem selectUser_meets {client : Option Client}
    {query : Database → Option UserRow} {known : UserRow → Prop}
    {post : Option UserRow → World → Prop}
    (hclient : client = none ∨ w.store.queue i = [])
    (hquery : ∀ db row, query db = some row →
      db.users.get row.id = some row ∧ known row)
    (hfail : ∀ t, fail databaseError t)
    (hnone : ∀ t, Later app i w t → post none t)
    (hsome : ∀ row past t, Later app i w t →
      Happened (.userRead i row) past t.history → w.history <:+ past →
      known row → post (some row) t) :
    (selectUser client query).Meets (discipline app permitted) i post fail
      w := by
  refine statement_meets hfail fun u hu d outcome v hrun => ?_
  have hview : u.viewFor client i = u.db := by
    rcases hclient with rfl | hqueue
    · rfl
    · cases client with
      | none => rfl
      | some client =>
          exact ReadCommitted.Store.view_of_queue_eq_nil _
            (hu.queue.trans hqueue)
  rw [hview] at hrun
  cases hrow : query u.db with
  | none =>
      simp only [hrow, Option.some.injEq, Prod.mk.injEq] at hrun
      obtain ⟨rfl, rfl⟩ := hrun
      exact ⟨.refl, fun t ht => hnone t (Later.trans hu.toRely ht)⟩
  | some row =>
      simp only [hrow, Option.some.injEq, Prod.mk.injEq] at hrun
      obtain ⟨rfl, rfl⟩ := hrun
      obtain ⟨hget, hknown⟩ := hquery u.db row hrow
      refine ⟨recorded_action ⟨rfl, hget⟩, fun t ht => ?_⟩
      obtain ⟨hlater, past, hread, hpast⟩ := happened_of_record hu.toRely ht
      exact hsome row past t hlater hread hpast hknown

theorem Database.get_of_liveUserById {db : Database} {id : ℕ} {row : UserRow}
    (hrow : db.liveUserById id = some row) :
    db.users.get row.id = some row ∧ (row.id = id ∧ row.deletedAt = none) := by
  obtain ⟨hget, hlive⟩ := Option.filter_eq_some_iff.mp hrow
  have hid := Relational.Table.key_of_get hget
  exact ⟨hid ▸ hget, hid, Option.isNone_iff_eq_none.mp hlive⟩

theorem Database.get_of_liveUserByPhone
    {db : Database} {phone : String} {row : UserRow}
    (hrow : db.liveUserByPhone phone = some row) :
    db.users.get row.id = some row ∧
      (row.phone = phone ∧ row.deletedAt = none) := by
  have hmem := List.mem_of_find?_eq_some hrow
  have hmatch := List.find?_some hrow
  simp only [Bool.and_eq_true, decide_eq_true_eq,
    Option.isNone_iff_eq_none] at hmatch
  exact ⟨Relational.Table.get_of_mem hmem, hmatch⟩

theorem Database.of_newestOtp
    {db : Database} {phone : String} {purpose : OtpPurpose} {row : OtpRow}
    (hrow : db.newestOtp phone purpose = some row) :
    row ∈ db.authOtps.rows ∧ row.phone = phone ∧ row.purpose = purpose := by
  have hmem := List.mem_filter.mp (List.argmax_mem hrow)
  simp only [Bool.and_eq_true, decide_eq_true_eq] at hmem
  exact hmem

theorem selectNewestOtp_meets {phone : String} {purpose : OtpPurpose}
    {post : Option OtpRow → World → Prop}
    (hfail : ∀ t, fail databaseError t)
    (hnone : ∀ t, Later app i w t → post none t)
    (hsome : ∀ row readAt past t, Later app i w t →
      Happened (.otpRead i readAt row) past t.history → w.history <:+ past →
      readAt ≤ t.now → row.phone = phone → row.purpose = purpose →
      post (some row) t) :
    (selectNewestOtp phone purpose).Meets (discipline app permitted) i post
      fail w := by
  refine statement_meets hfail fun u hu d outcome v hrun => ?_
  cases hrow : u.db.newestOtp phone purpose with
  | none =>
      simp only [hrow, Option.some.injEq, Prod.mk.injEq] at hrun
      obtain ⟨rfl, rfl⟩ := hrun
      exact ⟨.refl, fun t ht => hnone t (Later.trans hu.toRely ht)⟩
  | some row =>
      simp only [hrow, Option.some.injEq, Prod.mk.injEq] at hrun
      obtain ⟨rfl, rfl⟩ := hrun
      obtain ⟨-, rfl, rfl⟩ := Database.of_newestOtp hrow
      refine ⟨recorded_action ⟨rfl, rfl, hrow⟩, fun t ht => ?_⟩
      obtain ⟨hlater, past, hread, hpast⟩ := happened_of_record hu.toRely ht
      exact hsome row u.now past t hlater hread hpast ht.clock rfl rfl

theorem selectPendingForUpdate_meets {client : Client} {phone : String}
    {post : Option PendingRegistrationRow → World → Prop}
    (hqueue : w.store.queue i = [])
    (hfail : ∀ t, fail databaseError t)
    (hnone : ∀ t, Later app i w t → post none t)
    (hsome : ∀ row past t, Later app i w t →
      Happened (.pendingRead i row) past t.history → w.history <:+ past →
      row.phone = phone → post (some row) t) :
    (selectPendingForUpdate client phone).Meets (discipline app permitted) i
      post fail w := by
  refine statement_meets hfail fun u hu d outcome v hrun => ?_
  have hview : u.viewFor (some client) i = u.db :=
    ReadCommitted.Store.view_of_queue_eq_nil _ (hu.queue.trans hqueue)
  rw [hview] at hrun
  cases hrow : u.db.openPending phone client.startedAt with
  | none =>
      simp only [hrow, Option.some.injEq, Prod.mk.injEq] at hrun
      obtain ⟨rfl, rfl⟩ := hrun
      exact ⟨.refl, fun t ht => hnone t (Later.trans hu.toRely ht)⟩
  | some row =>
      simp only [hrow] at hrun
      split at hrun
      · next havailable =>
          simp only [Option.some.injEq, Prod.mk.injEq] at hrun
          obtain ⟨rfl, rfl⟩ := hrun
          have hget := (Option.filter_eq_some_iff.mp hrow).1
          have hphone := Relational.Table.key_of_get hget
          have hlock : Rely i u (u.lock i [.pending row.phone]) :=
            ⟨List.suffix_refl _, rfl, le_rfl⟩
          refine ⟨.tail (.single (.locked _ havailable))
            (.recorded _ ⟨rfl, hphone ▸ hget⟩), fun t ht => ?_⟩
          obtain ⟨hlater, past, hread, hpast⟩ :=
            happened_of_record (hu.toRely.trans hlock) ht
          exact hsome row past t hlater hread hpast hphone
      · contradiction

/-! ## Writes outside of a transaction -/

theorem Rely.autocommit (write : Write) : Rely i w (w.autocommit i write) :=
  ⟨List.suffix_cons _ _, rfl, Nat.le_succ _⟩

theorem execute_meets {write : ℕ → Sequences → Write}
    {returning : Database → Database → β}
    (hpermitted : ∀ now ids, permitted (write now ids))
    (halone : ∀ now ids, (write now ids).onlyInTransaction = false)
    (hoffered : ∀ u, Later app i w u →
      (write u.now u.ids).Offered app i u.now u)
    (hfail : ∀ t, fail databaseError t)
    (hpost : ∀ value past at_ ids t, Later app i w t →
      Happened (.wrote i at_ (write at_ ids)) past t.history →
      w.history <:+ past → post value t) :
    (execute none write returning).Meets (discipline app permitted) i post fail
      w := by
  refine statement_meets hfail fun u hu d outcome v hrun => ?_
  obtain ⟨hlockable, hrun⟩ := Option.ite_none_right_eq_some.mp hrun
  simp only [Option.some.injEq, Prod.mk.injEq] at hrun
  obtain ⟨rfl, rfl⟩ := hrun
  refine ⟨.single (.autocommitted _ (hpermitted _ _) (halone _ _)
    hlockable (hoffered u hu)), fun t ht => ?_⟩
  exact hpost _ u.history u.now u.ids t
    (Later.trans (hu.toRely.trans (Rely.autocommit _)) ht)
    (Happened.later happened_self ht.history) hu.history

theorem perform_meets {write : ℕ → Write} {post : Unit → World → Prop}
    (hpermitted : ∀ now, permitted (write now))
    (halone : ∀ now, (write now).onlyInTransaction = false)
    (hoffered : ∀ u, Later app i w u → (write u.now).Offered app i u.now u)
    (hfail : ∀ t, fail databaseError t)
    (hpost : ∀ past at_ t, Later app i w t →
      Happened (.wrote i at_ (write at_)) past t.history →
      w.history <:+ past → post () t) :
    (perform none write).Meets (discipline app permitted) i post fail w :=
  execute_meets (fun now _ => hpermitted now) (fun now _ => halone now)
    hoffered hfail fun _ past at_ _ t ht hwrote hpast =>
      hpost past at_ t ht hwrote hpast

theorem countAttempt_meets
    {phone : String} {purpose : OtpPurpose} {post : ℕ → World → Prop}
    (hpermitted : ∀ now,
      permitted (.countAttempt phone purpose otpAttemptsTtlSeconds now))
    (husable : ∃ row t, row.phone = phone ∧ row.purpose = purpose ∧
      UsableOtpRead i row t w.history)
    (hfail : ∀ t, fail databaseError t)
    (hpost : ∀ attempts past t, Later app i w t →
      Happened (.attemptCounted i phone purpose attempts) past t.history →
      w.history <:+ past → post attempts t) :
    (countAttempt phone purpose otpAttemptsTtlSeconds).Meets
      (discipline app permitted) i post fail w := by
  refine statement_meets hfail fun u hu d outcome v hrun => ?_
  obtain ⟨hlockable, hrun⟩ := Option.ite_none_right_eq_some.mp hrun
  simp only [Option.some.injEq, Prod.mk.injEq] at hrun
  obtain ⟨rfl, rfl⟩ := hrun
  obtain ⟨row, t, hphone, hpurpose, readAt, past, hread, hused, hle, hexpired⟩ :=
    husable
  refine ⟨.tail (.single (.autocommitted _ (hpermitted _) rfl hlockable
      ⟨rfl, rfl, row, t, hphone, hpurpose, readAt, past,
        hread.later hu.history, hused, hle, hexpired⟩))
    (.recorded _ ⟨rfl, ?_, u.now, otpAttemptsTtlSeconds, u.history, rfl⟩),
    fun t ht => ?_⟩
  · obtain ⟨counted, hcounted⟩ :
        ∃ counted, (u.autocommit i (.countAttempt phone purpose
          otpAttemptsTtlSeconds u.now)).db.authOtpAttempts.get
            (phone, purpose) = some counted := by
      simp only [World.db, World.autocommit,
        ReadCommitted.Store.committed_autocommit, schema, Database.apply]
      exact ⟨_, Relational.Table.get_upsert_self
        u.store.committed.authOtpAttempts
        ⟨phone, purpose, 1, u.now + microseconds otpAttemptsTtlSeconds,
          u.now⟩ _ _⟩
    rw [hcounted]
    rfl
  · obtain ⟨hlater, past, hcounted, hpast⟩ :=
      happened_of_record (hu.toRely.trans (Rely.autocommit _)) ht
    exact hpost _ past t hlater hcounted hpast

/-! ## Transactions -/

/-- What a later world of the same transaction shows. -/
structure InTransaction (app : Deployment) (i : ℕ) (w t : World)
    (queue : List Write) : Prop where
  history : w.history <:+ t.history
  queue : t.store.queue i = queue
  traced : t.Traced app

theorem Later.inTransaction {u t : World} {queue : List Write}
    (h : InTransaction app i w u queue) (ht : Later app i u t) :
    InTransaction app i w t queue :=
  ⟨h.history.trans ht.history, ht.queue.trans h.queue, ht.traced⟩

theorem executeIn_meets {client : Client} {write : ℕ → Sequences → Write}
    {returning : Database → Database → β} (known : β → Prop)
    (hpermitted : ∀ now ids, permitted (write now ids))
    (htransactional : ∀ now ids, (write now ids).transactional = true)
    (hoffered : ∀ u, Later app i w u →
      (write client.startedAt u.ids).Offered app i client.startedAt u)
    (hreturning : ∀ before after, known (returning before after))
    (hfail : ∀ t, fail databaseError t)
    (hpost : ∀ value ids t, known value →
      InTransaction app i w t
        (w.store.queue i ++ [write client.startedAt ids]) →
      post value t) :
    (execute (some client) write returning).Meets (discipline app permitted) i
      post fail w := by
  refine statement_meets hfail fun u hu d outcome v hrun => ?_
  obtain ⟨hlockable, hrun⟩ := Option.ite_none_right_eq_some.mp hrun
  simp only [Option.some.injEq, Prod.mk.injEq] at hrun
  obtain ⟨rfl, rfl⟩ := hrun
  refine ⟨.single (.enqueued _ (hpermitted _ _) (htransactional _ _)
    hlockable ⟨_, hoffered u hu⟩), fun t ht => ?_⟩
  refine hpost _ u.ids t (hreturning _ _) ⟨?_, ?_, ht.traced⟩
  · exact hu.history.trans ((List.suffix_cons _ _).trans ht.history)
  · rw [ht.queue, ← hu.queue]
    exact ReadCommitted.Store.queue_enqueue _ _ _ _

theorem performIn_meets {client : Client} {write : ℕ → Write}
    {post : Unit → World → Prop}
    (hpermitted : ∀ now, permitted (write now))
    (htransactional : ∀ now, (write now).transactional = true)
    (hoffered : ∀ u, Later app i w u →
      (write client.startedAt).Offered app i client.startedAt u)
    (hfail : ∀ t, fail databaseError t)
    (hpost : ∀ t,
      InTransaction app i w t
        (w.store.queue i ++ [write client.startedAt]) → post () t) :
    (perform (some client) write).Meets (discipline app permitted) i post fail
      w :=
  executeIn_meets (fun _ => True)
    (fun now _ => hpermitted now) (fun now _ => htransactional now)
    hoffered (fun _ _ => trivial) hfail fun _ _ t _ ht => hpost t ht

theorem insertUser_meets {client : Client}
    {name phone passwordHash : String} {isAdmin : Bool}
    {post : UserRow → World → Prop}
    (hpermitted : ∀ row, permitted (.insertUser row))
    (hfail : ∀ t, fail databaseError t)
    (hunique : ∀ t, fail uniqueViolation t)
    (hpost : ∀ id past t,
      let row := newUserRow name phone passwordHash isAdmin id client.startedAt
      InTransaction app i w t (w.store.queue i ++ [.insertUser row]) →
      Happened (.queued i (.insertUser row)) past t.history →
      w.history <:+ past → post row t) :
    (insertUser client name phone passwordHash isAdmin).Meets
      (discipline app permitted) i post fail w := by
  refine statement_meets hfail fun u hu d outcome v hrun => ?_
  split at hrun
  · simp only [Option.some.injEq, Prod.mk.injEq] at hrun
    obtain ⟨rfl, rfl⟩ := hrun
    exact ⟨.refl, fun t _ => hunique t⟩
  · next hfree =>
    obtain ⟨hlockable, hrun⟩ := Option.ite_none_right_eq_some.mp hrun
    simp only [Option.some.injEq, Prod.mk.injEq] at hrun
    obtain ⟨rfl, rfl⟩ := hrun
    refine ⟨.single (.enqueued _ (hpermitted _) rfl hlockable
      ⟨client.startedAt, rfl, rfl, rfl, rfl, Option.not_isSome_iff_eq_none.mp hfree⟩),
      fun t ht => ?_⟩
    refine hpost u.ids.users u.history t ⟨?_, ?_, ht.traced⟩
      (Happened.later happened_self ht.history) hu.history
    · exact hu.history.trans ((List.suffix_cons _ _).trans ht.history)
    · rw [ht.queue, ← hu.queue]
      exact ReadCommitted.Store.queue_enqueue _ _ _ _

/-- What a committed transaction leaves behind. -/
structure Committed (app : Deployment) (i : ℕ) (w t : World) : Prop where
  history : w.history <:+ t.history
  wrote : ∀ write ∈ w.store.queue i,
    ∃ at_, .wrote i at_ write ∈ t.history
  traced : t.Traced app

/-- The callback is checked from an empty transaction, and its result at the
commit. -/
theorem withTransaction_meets {callback : Client → Handler β}
    (hcallback : ∀ client u, InTransaction app i w u [] →
      (callback client).Meets (discipline app permitted) i
        (fun value t => ∀ v, Committed app i t v → post value v)
        (fun _ _ => True) u) :
    (withTransaction callback).Meets (discipline app permitted) i post
      (fun _ _ => True) w := by
  refine Program.Meets.caught (fun _ _ => True) ?_ fun error t _ => ?_
  · refine Program.Meets.bind (statement_meets (fun _ => trivial)
      fun u hu d outcome v hrun => ?_)
    simp only [Option.some.injEq, Prod.mk.injEq] at hrun
    obtain ⟨rfl, rfl⟩ := hrun
    refine ⟨.single .rolledBack, fun t ht => ?_⟩
    refine Program.Meets.bind ((hcallback _ t ⟨hu.history.trans ht.history,
      ht.queue.trans (ReadCommitted.Store.queue_rollback _ _), ht.traced⟩).mono
        (fun value v hvalue => ?_) fun _ _ _ => trivial)
    refine Program.Meets.bind (statement_meets (fun _ => trivial)
      fun a ha d outcome b hrun => ?_)
    simp only [Option.some.injEq, Prod.mk.injEq] at hrun
    obtain ⟨rfl, rfl⟩ := hrun
    refine ⟨.single .committed, fun c hc => Program.Meets.done ?_⟩
    intro final hfinal htraced
    refine hvalue final ⟨?_, ?_, htraced⟩
    · exact ha.history.trans ((suffix_flush _ _ _ _).trans
        (hc.history.trans hfinal.history))
    · intro write hwrite
      refine ⟨a.now, hfinal.history.subset (hc.history.subset ?_)⟩
      exact mem_flush.mpr (.inl ⟨write, ha.queue ▸ hwrite, rfl⟩)
  · refine Program.Meets.bind (attempt_meets fun u hu d outcome v hrun => ?_)
    simp only [Option.some.injEq, Prod.mk.injEq] at hrun
    obtain ⟨rfl, rfl⟩ := hrun
    exact ⟨.single .rolledBack, fun _ _ =>
      Program.Meets.failed fun _ _ _ => trivial⟩

/-! ## Redis -/

theorem redisCommand_meets {absent : β} {command : World → β × World}
    (hcommand : ∀ u, Later app i w u →
      Action app permitted i u (command u).2 ∧ Rely i u (command u).2)
    (hfail : ∀ t, Later app i w t → fail redisError t)
    (habsent : ∀ t, Later app i w t → post absent t)
    (hpost : ∀ u t, Later app i w u → Later app i w t → Rely i u t →
      post (command u).1 t) :
    (redisCommand app absent command).Meets (discipline app permitted) i post
      fail w := by
  unfold redisCommand
  split
  · refine attempt_meets fun u hu d outcome v hrun => ?_
    split at hrun
    · simp only [Option.some.injEq, Prod.mk.injEq] at hrun
      obtain ⟨rfl, rfl⟩ := hrun
      exact ⟨.refl, fun t ht => hfail t (Later.trans hu.toRely ht)⟩
    · simp only [Option.some.injEq, Prod.mk.injEq] at hrun
      obtain ⟨rfl, rfl⟩ := hrun
      obtain ⟨haction, hrely⟩ := hcommand u hu
      exact ⟨haction, fun t ht => hpost u t hu
        (Later.trans (hu.toRely.trans hrely) ht) (hrely.trans ht.toRely)⟩
  · exact fun t ht htraced => habsent t ⟨ht, htraced⟩

theorem redisGet_meets {key : String} {post : Option String → World → Prop}
    (hfail : ∀ t, Later app i w t → fail redisError t)
    (hpost : ∀ value t, Later app i w t →
      (∀ text phone purpose, value = some text →
        key = otpTransactionKey phone purpose →
          ∃ j, .akedlySent j phone purpose text ∈ t.history) →
      post value t) :
    (redisGet app key).Meets (discipline app permitted) i post fail w := by
  refine redisCommand_meets (fun u _ => ⟨.refl, Rely.refl i u⟩) hfail
    (fun t ht => hpost none t ht fun _ _ _ h => nomatch h)
    fun u t hu ht hut => hpost _ t ht ?_
  intro text phone purpose hvalue hkey
  obtain ⟨entry, hentry, rfl⟩ := Option.map_eq_some_iff.mp hvalue
  have hmatch := List.find?_some hentry
  simp only [Bool.and_eq_true, decide_eq_true_eq] at hmatch
  obtain ⟨j, hsent⟩ := hu.traced.redis entry
    (List.mem_of_find?_eq_some hentry) phone purpose (hmatch.1.trans hkey)
  exact ⟨j, hut.history.subset hsent⟩

theorem redisSet_meets {key value : String} {ttlSeconds : ℕ}
    {post : Unit → World → Prop}
    (hkey : ∀ phone purpose, key = otpTransactionKey phone purpose →
      ∃ j, .akedlySent j phone purpose value ∈ w.history)
    (hfail : ∀ t, Later app i w t → fail redisError t)
    (hpost : ∀ t, Later app i w t → post () t) :
    (redisSet app key value ttlSeconds).Meets (discipline app permitted) i
      post fail w :=
  redisCommand_meets
    (fun _ hu => ⟨.single (.redisSet key value ttlSeconds
        fun phone purpose hname =>
          (hkey phone purpose hname).imp fun _ hsent => hu.mem hsent),
      List.suffix_refl _, rfl, le_rfl⟩)
    hfail hpost fun _ t _ ht _ => hpost t ht

theorem redisDel_meets {key : String} {post : Unit → World → Prop}
    (hfail : ∀ t, Later app i w t → fail redisError t)
    (hpost : ∀ t, Later app i w t → post () t) :
    (redisDel app key).Meets (discipline app permitted) i post fail w :=
  redisCommand_meets
    (fun _ _ => ⟨.single (.redisDel key), List.suffix_refl _, rfl, le_rfl⟩)
    hfail hpost fun _ t _ ht _ => hpost t ht

theorem tryRedisSet_meets {op : Handler Unit} {post : Unit → World → Prop}
    (hop : op.Meets (discipline app permitted) i
      (fun _ t => Later app i w t) (fun _ t => Later app i w t) w)
    (hpost : ∀ t, Later app i w t → post () t) :
    (tryRedisSet app op).Meets (discipline app permitted) i post fail w := by
  unfold tryRedisSet
  split
  · refine Program.Meets.recover (hop.mono (fun _ t ht => hpost t ht)
      fun _ t ht => ?_)
    exact fun v hv htraced => hpost v (Later.trans ht.toRely ⟨hv, htraced⟩)
  · exact fun t ht htraced => hpost t ⟨ht, htraced⟩

theorem tryRedisDel_meets {key : String} {post : Unit → World → Prop}
    (hpost : ∀ t, Later app i w t → post () t) :
    (tryRedisSet app (redisDel app key)).Meets (discipline app permitted) i
      post fail w :=
  tryRedisSet_meets (redisDel_meets (fun _ ht => ht) fun _ ht => ht) hpost

/-! ## Keys -/

theorem otpTransactionKey_injective {phone phone' : String}
    {purpose purpose' : OtpPurpose}
    (hkeys : otpTransactionKey phone purpose = otpTransactionKey phone' purpose') :
    phone = phone' ∧ purpose = purpose' := by
  have hlists := congrArg String.toList hkeys
  cases purpose <;> cases purpose' <;>
    simp [otpTransactionKey, OtpPurpose.text] at hlists ⊢
  · exact String.toList_inj.mp hlists
  · exact String.toList_inj.mp hlists

theorem otpAttemptsKey_ne {phone phone' : String}
    {purpose purpose' : OtpPurpose} :
    otpAttemptsKey phone purpose ≠ otpTransactionKey phone' purpose' := by
  intro hkeys
  have hlists := congrArg String.toList hkeys
  cases purpose' <;>
    simp [otpTransactionKey, otpAttemptsKey, OtpPurpose.text] at hlists

theorem refreshJtiKey_ne {jti phone : String} {purpose : OtpPurpose} :
    refreshJtiKey jti ≠ otpTransactionKey phone purpose := by
  intro hkeys
  have hlists := congrArg String.toList hkeys
  cases purpose <;>
    simp [otpTransactionKey, refreshJtiKey, OtpPurpose.text] at hlists

/-! ## Tokens -/

theorem Origin.later {token : Token} {past history : List Event}
    (horigin : Origin i token past) (hsuffix : past <:+ history) :
    Origin i token history := by
  cases horigin with
  | read row before hread hsub hversion hadmin hlive hactive =>
      exact .read row before (hread.later hsuffix) hsub hversion hadmin hlive
        hactive
  | created row before hqueued hsub hversion hadmin =>
      exact .created row before (hqueued.later hsuffix) hsub hversion hadmin

/-- The tokens are the user's, and the refresh token is signed with this
jti. -/
structure TokensSigned (userId : ℕ) (jti : String) (tokens : Tokens)
    (history : List Event) : Prop where
  access : tokens.accessToken.sub = userId
  refresh : tokens.refreshToken.sub = userId
  jti : tokens.refreshToken.jti = some jti
  minted : ∃ j, .minted j tokens.refreshToken ∈ history

theorem TokensSigned.later {userId : ℕ} {jti : String} {tokens : Tokens}
    {past history : List Event} (h : TokensSigned userId jti tokens past)
    (hsuffix : past <:+ history) : TokensSigned userId jti tokens history := by
  obtain ⟨j, hminted⟩ := h.minted
  exact { h with minted := ⟨j, hsuffix.subset hminted⟩ }

/-- The refresh token is signed and its jti is saved. -/
structure Issued (token : Token) (history : List Event) : Prop where
  minted : ∃ j, .minted j token ∈ history
  saved : ∃ jti j at_ expiresAt, token.jti = some jti ∧
    .wrote j at_ (.saveRefreshToken jti token.sub expiresAt) ∈ history

theorem Issued.later {token : Token} {past history : List Event}
    (h : Issued token past) (hsuffix : past <:+ history) :
    Issued token history := by
  obtain ⟨j, hminted⟩ := h.minted
  obtain ⟨jti, k, at_, expiresAt, hjti, hsaved⟩ := h.saved
  exact ⟨⟨j, hsuffix.subset hminted⟩,
    jti, k, at_, expiresAt, hjti, hsuffix.subset hsaved⟩

theorem TokensSigned.issued {userId : ℕ} {jti : String} {tokens : Tokens}
    {history : List Event} (h : TokensSigned userId jti tokens history)
    (hsaved : ∃ j at_ expiresAt,
      .wrote j at_ (.saveRefreshToken jti userId expiresAt) ∈ history) :
    Issued tokens.refreshToken history := by
  obtain ⟨j, at_, expiresAt, hwrote⟩ := hsaved
  exact ⟨h.minted, jti, j, at_, expiresAt, h.jti, h.refresh ▸ hwrote⟩

theorem signTokens_meets
    {userId : ℕ} {phone : String} {isAdmin : Bool} {tokenVersion : ℕ}
    {jti : String} {post : Tokens → World → Prop}
    (horigin : ∀ token : Token, token.sub = userId →
      token.tokenVersion = tokenVersion → token.isAdmin = isAdmin →
      Origin i token w.history)
    (hpost : ∀ tokens t, Later app i w t →
      TokensSigned userId jti tokens t.history → post tokens t) :
    (signTokens app userId phone isAdmin tokenVersion jti).Meets
      (discipline app permitted) i post fail w := by
  intro u hu htraced d tokens v hrun
  simp only [Option.some.injEq, Prod.mk.injEq] at hrun
  obtain ⟨rfl, rfl⟩ := hrun
  have haccess : (Event.minted i (accessTokenFor app userId phone isAdmin
      tokenVersion u.seconds)).Observed i u :=
    ⟨rfl, (horigin _ rfl rfl rfl).later hu.history⟩
  have hrefresh : (Event.minted i (refreshTokenFor app userId phone isAdmin
      tokenVersion jti u.seconds)).Observed i (u.record (.minted i
        (accessTokenFor app userId phone isAdmin tokenVersion u.seconds))) :=
    ⟨rfl, (horigin _ rfl rfl rfl).later
      (hu.history.trans (List.suffix_cons _ _))⟩
  refine ⟨.tail (.single (.recorded _ haccess)) (.recorded _ hrefresh),
    fun t ht ht' => ?_⟩
  refine hpost _ t ⟨(hu.trans (Rely.record _)).trans ((Rely.record _).trans ht),
    ht'⟩ ⟨rfl, rfl, rfl, i, ?_⟩
  exact ht.history.subset List.mem_cons_self

theorem generateTokens_meets
    {userId : ℕ} {phone : String} {isAdmin : Bool} {tokenVersion : ℕ}
    {post : Tokens → World → Prop}
    (hpermitted : ∀ jti userId expiresAt,
      permitted (.saveRefreshToken jti userId expiresAt))
    (horigin : ∀ token : Token, token.sub = userId →
      token.tokenVersion = tokenVersion → token.isAdmin = isAdmin →
      Origin i token w.history)
    (hfail : ∀ t, fail databaseError t)
    (hpost : ∀ tokens jti t, Later app i w t →
      TokensSigned userId jti tokens t.history →
      Issued tokens.refreshToken t.history → post tokens t) :
    (generateTokens app userId phone isAdmin tokenVersion none).Meets
      (discipline app permitted) i post fail w := by
  refine Program.Meets.bind (draw_meets fun d t ht => ?_)
  refine Program.Meets.bind (signTokens_meets
    (fun token hsub hversion hadmin =>
      (horigin token hsub hversion hadmin).later ht.history)
    fun tokens u hu hsigned => ?_)
  refine Program.Meets.bind (Program.Meets.bind (tryRedisSet_meets
    (redisSet_meets (fun phone purpose hkey => absurd hkey refreshJtiKey_ne)
      (fun _ h => h) fun _ h => h) fun v hv => ?_))
  refine perform_meets (fun _ => hpermitted _ _ _) (fun _ => rfl)
    (fun _ _ => trivial) hfail fun _ _ a ha hwrote _ => Program.Meets.done ?_
  intro b hb htraced
  have hsigned_b := hsigned.later
    (hv.history.trans (ha.history.trans hb.history))
  exact hpost tokens _ b (Later.trans
    (ht.toRely.trans (hu.toRely.trans (hv.toRely.trans ha.toRely)))
    ⟨hb, htraced⟩) hsigned_b
      (hsigned_b.issued ⟨i, _, _, (hwrote.later hb.history).mem⟩)

theorem generateTokensIn_meets
    {userId : ℕ} {phone : String} {isAdmin : Bool} {tokenVersion : ℕ}
    {client : Client} {post : Tokens → World → Prop}
    (hpermitted : ∀ jti userId expiresAt,
      permitted (.saveRefreshToken jti userId expiresAt))
    (horigin : ∀ token : Token, token.sub = userId →
      token.tokenVersion = tokenVersion → token.isAdmin = isAdmin →
      Origin i token w.history)
    (hfail : ∀ t, fail databaseError t)
    (hpost : ∀ tokens jti expiresAt t,
      InTransaction app i w t
        (w.store.queue i ++ [.saveRefreshToken jti userId expiresAt]) →
      TokensSigned userId jti tokens t.history → post tokens t) :
    (generateTokens app userId phone isAdmin tokenVersion (some client)).Meets
      (discipline app permitted) i post fail w := by
  refine Program.Meets.bind (draw_meets fun d t ht => ?_)
  refine Program.Meets.bind (signTokens_meets
    (fun token hsub hversion hadmin =>
      (horigin token hsub hversion hadmin).later ht.history)
    fun tokens u hu hsigned => ?_)
  refine Program.Meets.bind (Program.Meets.bind (tryRedisSet_meets
    (redisSet_meets (fun phone purpose hkey => absurd hkey refreshJtiKey_ne)
      (fun _ h => h) fun _ h => h) fun v hv => ?_))
  have hwv : Rely i w v := ht.toRely.trans (hu.toRely.trans hv.toRely)
  refine performIn_meets (fun _ => hpermitted _ _ _) (fun _ => rfl)
    (fun _ _ => trivial) hfail fun a ha => Program.Meets.done ?_
  intro b hb htraced
  have hqueue := hb.queue.trans ha.queue
  rw [hwv.queue] at hqueue
  exact hpost tokens _ _ b
    ⟨hwv.history.trans (ha.history.trans hb.history), hqueue, htraced⟩
    (hsigned.later (hv.history.trans (ha.history.trans hb.history)))

theorem verifyAsync_meets {token : Token} {secret : String}
    {post : Unit → World → Prop}
    (hinvalid : ∀ u t, Later app i w u → u.tokenVerifies token secret = false →
      Later app i u t → fail invalidSignature t)
    (hpost : ∀ at_ past t, Later app i w t → token.secret = secret →
      Happened (.verified i at_ token) past t.history → w.history <:+ past →
      post () t) :
    (verifyAsync token secret).Meets (discipline app permitted) i post fail
      w := by
  refine attempt_meets fun u hu d outcome v hrun => ?_
  split at hrun
  · next hverifies =>
      simp only [Option.some.injEq, Prod.mk.injEq] at hrun
      obtain ⟨rfl, rfl⟩ := hrun
      have hsecret := (World.tokenVerifies_iff.mp hverifies).1
      refine ⟨recorded_action ⟨rfl, rfl, hsecret ▸ hverifies⟩,
        fun t ht => ?_⟩
      obtain ⟨hlater, past, hverified, hpast⟩ :=
        happened_of_record hu.toRely ht
      exact hpost u.now past t hlater hsecret hverified hpast
  · next hinvalid' =>
      simp only [Option.some.injEq, Prod.mk.injEq] at hrun
      obtain ⟨rfl, rfl⟩ := hrun
      exact ⟨.refl, fun t ht =>
        hinvalid u t hu (Bool.eq_false_iff.mpr hinvalid') ht⟩

end MarketPlace
