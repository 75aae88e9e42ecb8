import MarketPlace.AccountHistories

/-!
# One account for a phone

An insertion into users holds the unique key of its phone until its
transaction ends, and sees no account with the phone when it is made.  So a
phone is free for as long as an insertion of it is queued, and no two requests
ever commit an insertion of the same phone.
-/

namespace MarketPlace

open EventLog Interleaving ReadCommitted

variable {app : Deployment} {permitted : Write → Prop} {w w' : World}
  {i : ℕ}

/-- The unique key that an insertion into users holds. -/
def Write.NeedsPhone (write : Write) (lock : Lock) : Prop :=
  ∃ user, write = .insertUser user ∧ lock = .userPhone user.phone

structure World.PhonesOnce (w : World) : Prop where
  holds : w.store.Holds Write.NeedsPhone
  free : ∀ i user, .insertUser user ∈ w.store.queue i →
    w.db.userByPhone user.phone = none
  once : ∀ i j at_ at_' a b, .wrote i at_ (.insertUser a) ∈ w.history →
    .wrote j at_' (.insertUser b) ∈ w.history → a.phone = b.phone → i = j

theorem World.phonesOnce_initial (now : ℕ) : (World.initial now).PhonesOnce where
  holds := Store.holds_fresh
  free := by simp [World.initial, Store.fresh]
  once := by simp [World.initial]

/-! ## Phones that stay free -/

theorem Database.userByPhone_settle_free {writes : List Write} {db : Database}
    {phone : String} (hfree : db.userByPhone phone = none)
    (hother : ∀ row, .insertUser row ∈ writes → row.phone ≠ phone) :
    (schema.settle writes db).userByPhone phone = none := by
  have hwrites : ∀ write ∈ writes, ∀ data : Database,
      data.userByPhone phone = none →
        (schema.apply write data).userByPhone phone = none := by
    intro write hwrite data hdata
    refine Database.userByPhone_free hdata fun row heq => ?_
    exact hother row (heq ▸ hwrite)
  exact Store.settle_preserves schema hwrites hfree

theorem Database.userByPhone_of_settle_free {writes : List Write} {db : Database}
    {phone : String} (hfree : (schema.settle writes db).userByPhone phone = none) :
    db.userByPhone phone = none := by
  by_contra htaken
  have hwrites : ∀ write ∈ writes, ∀ data : Database,
      (data.userByPhone phone).isSome →
        ((schema.apply write data).userByPhone phone).isSome :=
    fun write _ data hdata => Database.userByPhone_kept hdata
  have hkept := Store.settle_preserves schema hwrites
    (Option.isSome_iff_ne_none.mpr htaken)
  rw [hfree] at hkept
  contradiction

theorem Database.userByPhone_free_of_not_insert {db : Database} {write : Write}
    {phone : String} (halone : write.onlyInTransaction = false)
    (hfree : db.userByPhone phone = none) :
    (db.apply write).userByPhone phone = none := by
  refine Database.userByPhone_free hfree fun row heq => ?_
  rw [heq] at halone
  contradiction

/-! ## One effect -/

namespace World.PhonesOnce

/-- What adds no insertion, frees no key that is needed and takes no phone
keeps the invariant. -/
theorem of_kept (h : w.PhonesOnce) (hholds : w'.store.Holds Write.NeedsPhone)
    (hqueue : ∀ i, ∀ write ∈ w'.store.queue i, write ∈ w.store.queue i)
    (hfree : ∀ phone, w.db.userByPhone phone = none →
      w'.db.userByPhone phone = none)
    (hhistory : ∀ i at_ user, .wrote i at_ (.insertUser user) ∈ w'.history →
      .wrote i at_ (.insertUser user) ∈ w.history) :
    w'.PhonesOnce where
  holds := hholds
  free i user hqueued := hfree _ (h.free i user (hqueue i _ hqueued))
  once i j at_ at_' a b ha hb :=
    h.once i j at_ at_' a b (hhistory i at_ a ha) (hhistory j at_' b hb)

/-- An event that inserts no user changes nothing. -/
theorem of_event {event : Event} (h : w.PhonesOnce)
    (hstore : w'.store = w.store) (hhistory : w'.history = event :: w.history)
    (hevent : ∀ i at_ user, event ≠ .wrote i at_ (.insertUser user)) :
    w'.PhonesOnce := by
  refine h.of_kept (hstore ▸ h.holds) (fun _ _ hwrite => hstore ▸ hwrite) ?_ ?_
  · intro phone hfree
    rw [World.db, hstore]
    exact hfree
  · intro i at_ user hmem
    rw [hhistory] at hmem
    rcases List.mem_cons.mp hmem with heq | hmem
    · exact absurd heq.symm (hevent i at_ user)
    · exact hmem

theorem of_same (h : w.PhonesOnce) (hstore : w'.store = w.store)
    (hhistory : w'.history = w.history) : w'.PhonesOnce := by
  refine h.of_kept (hstore ▸ h.holds) (fun _ _ hwrite => hstore ▸ hwrite) ?_
    fun i at_ user hmem => hhistory ▸ hmem
  intro phone hfree
  rw [World.db, hstore]
  exact hfree

/-- A statement outside of a transaction inserts no user. -/
theorem of_applied {write : Write} {event : Event} (h : w.PhonesOnce)
    (hstore : w'.store = w.store.autocommit schema write)
    (hhistory : w'.history = event :: w.history)
    (hevent : ∀ i at_ user, event ≠ .wrote i at_ (.insertUser user))
    (halone : write.onlyInTransaction = false) : w'.PhonesOnce := by
  refine h.of_kept ?_ ?_ ?_ ?_
  · intro j other hother lock hneeds
    rw [hstore, Store.queue_autocommit] at hother
    rw [hstore, Store.holder_autocommit]
    exact h.holds j other hother lock hneeds
  · intro j other hother
    rw [hstore, Store.queue_autocommit] at hother
    exact hother
  · intro phone hfree
    rw [World.db, hstore, Store.committed_autocommit]
    exact Database.userByPhone_free_of_not_insert halone hfree
  · intro j at_ user hmem
    rw [hhistory] at hmem
    rcases List.mem_cons.mp hmem with heq | hmem
    · exact absurd heq.symm (hevent j at_ user)
    · exact hmem

theorem locked {locks : List Lock} (h : w.PhonesOnce)
    (havailable : w.store.available i locks = true) :
    (w.lock i locks).PhonesOnce :=
  h.of_kept (h.holds.lock havailable) (fun _ _ hwrite => hwrite)
    (fun _ hfree => hfree) fun _ _ _ hmem => hmem

theorem rolledBack (h : w.PhonesOnce) : (w.rollback i).PhonesOnce := by
  refine h.of_kept h.holds.rollback ?_ (fun _ hfree => hfree)
    fun _ _ _ hmem => hmem
  intro j write hwrite
  by_cases hj : j = i
  · subst hj
    rw [World.rollback, Store.queue_rollback] at hwrite
    exact absurd hwrite List.not_mem_nil
  · rwa [World.rollback, Store.queue_rollback_of_ne _ hj] at hwrite

/-- An insertion takes the key of a phone that its transaction sees free. -/
theorem enqueued {write : Write} {now : ℕ} (h : w.PhonesOnce)
    (havailable :
      w.store.available i (write.footprint (w.store.view schema i)) = true)
    (hoffered : write.Offered app i now w) : (w.enqueue i write).PhonesOnce where
  holds := by
    refine h.holds.enqueue havailable fun lock hneeds => .inl ?_
    obtain ⟨user, rfl, rfl⟩ := hneeds
    exact List.mem_singleton_self _
  free j user hqueued := by
    by_cases hj : j = i
    · subst hj
      simp only [World.enqueue, Store.queue_enqueue, List.mem_append,
        List.mem_singleton] at hqueued
      rcases hqueued with hqueued | rfl
      · exact h.free j user hqueued
      · obtain ⟨-, -, -, -, hfree⟩ := hoffered
        exact Database.userByPhone_of_settle_free hfree
    · rw [World.enqueue, Store.queue_enqueue_of_ne _ _ _ hj] at hqueued
      exact h.free j user hqueued
  once j k at_ at_' a b ha hb := by
    rcases List.mem_cons.mp ha with heq | ha
    · contradiction
    rcases List.mem_cons.mp hb with heq | hb
    · contradiction
    exact h.once j k at_ at_' a b ha hb

/-- The phone of an insertion that a commit makes was free until then. -/
theorem not_inserted {user other : UserRow} {j at_ : ℕ} (h : w.PhonesOnce)
    (htraced : w.Traced app) (hqueued : .insertUser user ∈ w.store.queue i)
    (hwrote : .wrote j at_ (.insertUser other) ∈ w.history) :
    user.phone ≠ other.phone := by
  intro hphone
  have htaken := htraced.lawful.phone_taken hwrote
  rw [← htraced.stores, ← hphone, h.free i user hqueued] at htaken
  contradiction

theorem committed (h : w.PhonesOnce) (htraced : w.Traced app) :
    (w.commit i).PhonesOnce where
  holds := h.holds.commit
  free j user hqueued := by
    by_cases hj : j = i
    · subst hj
      rw [World.commit, Store.queue_commit] at hqueued
      exact absurd hqueued List.not_mem_nil
    · rw [World.commit, Store.queue_commit_of_ne _ _ hj] at hqueued
      refine Database.userByPhone_settle_free (h.free j user hqueued) ?_
      -- Two queued insertions of one phone would hold the same key.
      intro row hrow hphone
      exact hj (h.holds.unique hqueued ⟨user, rfl, rfl⟩ hrow
        ⟨row, rfl, congrArg Lock.userPhone hphone.symm⟩)
  once j k at_ at_' a b ha hb hphone := by
    rcases mem_flush.mp ha with ⟨_, hnew, heq⟩ | hold
    · obtain ⟨rfl, -, rfl⟩ := Event.wrote.inj heq
      rcases mem_flush.mp hb with ⟨_, -, heq⟩ | hold
      · exact (Event.wrote.inj heq).1.symm
      · exact absurd hphone (h.not_inserted htraced hnew hold)
    · rcases mem_flush.mp hb with ⟨_, hnew, heq⟩ | hold'
      · obtain ⟨rfl, -, rfl⟩ := Event.wrote.inj heq
        exact absurd hphone.symm (h.not_inserted htraced hnew hold)
      · exact h.once j k at_ at_' a b hold hold' hphone

end World.PhonesOnce

/-! ## Runs -/

theorem Effect.phonesOnce (heffect : Effect app permitted i w w')
    (htraced : w.Traced app) (h : w.PhonesOnce) : w'.PhonesOnce := by
  cases heffect with
  | recorded event hobserved =>
      refine h.of_event rfl rfl ?_
      rintro j at_ user rfl
      exact hobserved
  | autocommitted write hpermitted halone hunlocked hoffered =>
      refine h.of_applied rfl rfl ?_ halone
      intro j at_ user heq
      obtain ⟨-, -, rfl⟩ := Event.wrote.inj heq
      contradiction
  | enqueued write hpermitted htransactional havailable hoffered =>
      obtain ⟨now, hoffered⟩ := hoffered
      exact h.enqueued havailable hoffered
  | locked locks havailable => exact h.locked havailable
  | rolledBack => exact h.rolledBack
  | committed => exact h.committed htraced
  | redisSet key value ttlSeconds hkey => exact h.of_same rfl rfl
  | redisDel key => exact h.of_same rfl rfl
  | transactionStarted transaction phone purpose hnew =>
      exact h.of_event rfl rfl (by simp)
  | socketOpened userId hverified => exact h.of_event rfl rfl (by simp)

theorem Action.phonesOnce (haction : Action app permitted i w w')
    (htraced : w.Traced app) (h : w.PhonesOnce) : w'.PhonesOnce := by
  induction haction with
  | refl => exact h
  | tail hactions heffect ih =>
      exact heffect.phonesOnce (Action.traced hactions htraced) ih

theorem World.PhonesOnce.surroundings (event : Surroundings)
    (h : w.PhonesOnce) : (w.surroundings event).PhonesOnce := by
  cases event with
  | timePasses amount => exact h.of_same rfl rfl
  | socketCloses socket => exact h.of_event rfl rfl (by simp)
  | conversationOpens userAId userBId => exact h.of_applied rfl rfl (by simp) rfl
  | blocks blockerId blockedId => exact h.of_applied rfl rfl (by simp) rfl
  | unblocks blockerId blockedId => exact h.of_applied rfl rfl (by simp) rfl

theorem Reachable.phonesOnce
    {pool : Pool Request Draw World HttpError Response}
    (hreach : Reachable app pool) : pool.state.PhonesOnce := by
  obtain ⟨now, hreach⟩ := hreach
  exact hreach.further (backend_sound app fun _ _ => True)
    (System.onCourse_of_empty rfl (World.traced_initial app now))
    World.PhonesOnce (World.phonesOnce_initial now)
    (fun haction htraced h => haction.phonesOnce htraced h)
    fun event _ _ h => h.surroundings event

end MarketPlace
