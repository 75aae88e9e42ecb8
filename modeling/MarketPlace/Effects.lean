import MarketPlace.Histories

/-!
# What one action can do

Every action of every handler is a sequence of the effects listed here, each
with what the acting request must know for it.  A traced world is one whose
database, sockets, queues and Redis keys agree with its history, and whose
history is lawful; every effect keeps a world traced, and no effect disturbs
what another request relies on.
-/

namespace MarketPlace

open EventLog Interleaving

variable (app : Deployment) (permitted : Write → Prop)

/-! ## Effects -/

/-- What the world must show for request `i` to make a write. -/
def Write.Offered (i now : ℕ) (write : Write) (w : World) : Prop :=
  match write with
  | .insertUser row =>
      row.id = w.ids.users ∧ row.tokenVersion = 0 ∧ row.deletedAt = none ∧
        row.status = .active ∧
        (w.store.view schema i).userByPhone row.phone = none
  | .insertOtp row =>
      row.id = w.ids.authOtps ∧ row.createdAt = now ∧ now = w.now ∧
        row.usedAt = none ∧
        row.expiresAt = now + microseconds (app.config.otpTtlMinutes * 60)
  | other => other.Grounded app i now w.history

/-- What the world must show for request `i` to record an event. -/
def Event.Observed (i : ℕ) (event : Event) (w : World) : Prop :=
  match event with
  | .userRead j row => j = i ∧ w.db.users.get row.id = some row
  | .pendingRead j row =>
      j = i ∧ w.db.pendingRegistrations.get row.phone = some row
  | .otpRead j at_ row =>
      j = i ∧ at_ = w.now ∧ w.db.newestOtp row.phone row.purpose = some row
  | .attemptCounted j phone purpose attempts =>
      j = i ∧
        (w.db.authOtpAttempts.get (phone, purpose)).map
            OtpAttemptRow.attempts = some attempts ∧
        ∃ at_ ttlSeconds before,
          w.history =
            .wrote i at_ (.countAttempt phone purpose ttlSeconds at_) :: before
  | .minted j token => j = i ∧ Origin i token w.history
  | .verified j at_ token =>
      j = i ∧ at_ = w.now ∧ w.tokenVerifies token token.secret = true
  | .akedlyVerified j transactionReqID code =>
      j = i ∧ w.akedlyVerifies transactionReqID code = true
  | .socketUsed j socket userId => j = i ∧ ⟨socket, userId⟩ ∈ w.sockets
  | _ => False

/-- One effect of request `i`. -/
inductive Effect (i : ℕ) (w : World) : World → Prop where
  | recorded (event : Event) (hobserved : event.Observed i w) :
      Effect i w (w.record event)
  | autocommitted (write : Write)
      (hpermitted : permitted write)
      (halone : write.onlyInTransaction = false)
      (hunlocked : w.store.unlocked (write.footprint w.db) = true)
      (hoffered : write.Offered app i w.now w) :
      Effect i w (w.autocommit i write)
  | enqueued (write : Write)
      (hpermitted : permitted write)
      (htransactional : write.transactional = true)
      (havailable :
        w.store.available i (write.footprint (w.store.view schema i)) = true)
      (hoffered : ∃ now, write.Offered app i now w) :
      Effect i w (w.enqueue i write)
  | locked (locks : List Lock)
      (havailable : w.store.available i locks = true) :
      Effect i w (w.lock i locks)
  | rolledBack : Effect i w (w.rollback i)
  | committed : Effect i w (w.commit i)
  | redisSet (key value : String) (ttlSeconds : ℕ)
      (hkey : ∀ phone purpose, key = otpTransactionKey phone purpose →
        ∃ j, .akedlySent j phone purpose value ∈ w.history) :
      Effect i w (w.redisSet key value ttlSeconds)
  | redisDel (key : String) : Effect i w (w.redisDel key)
  | transactionStarted (transaction : AkedlyTransaction)
      (phone : String) (purpose : OtpPurpose)
      (hnew : ∀ other ∈ w.akedly,
        other.transactionReqID ≠ transaction.transactionReqID) :
      Effect i w ((w.startTransaction transaction).record
        (.akedlySent i phone purpose transaction.transactionReqID))
  | socketOpened (userId : ℕ)
      (hverified : ∃ at_ token, .verified i at_ token ∈ w.history ∧
        token.sub = userId ∧ token.secret = app.config.jwtAccessSecret) :
      Effect i w ((w.openSocket ⟨w.ids.sockets, userId⟩).record
        (.socketOpened i w.ids.sockets userId))

/-- What request `i` relies on the others to leave alone. -/
structure Rely (i : ℕ) (w w' : World) : Prop where
  history : w.history <:+ w'.history
  queue : w'.store.queue i = w.store.queue i
  clock : w.now ≤ w'.now

theorem Rely.refl (i : ℕ) (w : World) : Rely i w w :=
  ⟨List.suffix_refl _, rfl, le_rfl⟩

theorem Rely.trans {i : ℕ} {w w' w'' : World}
    (h : Rely i w w') (h' : Rely i w' w'') : Rely i w w'' :=
  ⟨h.history.trans h'.history, h'.queue.trans h.queue,
    h.clock.trans h'.clock⟩

theorem flush_eq (i now : ℕ) (writes : List Write) (history : List Event) :
    World.flush i now writes history =
      (writes.map fun write => Event.wrote i now write).reverse ++ history := by
  induction writes generalizing history with
  | nil => rfl
  | cons write rest ih =>
      simp only [World.flush, List.foldl_cons, List.map_cons,
        List.reverse_cons, List.append_assoc]
      exact ih _

theorem suffix_flush (i now : ℕ) (writes : List Write) (history : List Event) :
    history <:+ World.flush i now writes history :=
  flush_eq i now writes history ▸ List.suffix_append _ _

variable {app permitted}

theorem Effect.rely {i j : ℕ} {w w' : World} (hne : i ≠ j)
    (heffect : Effect app permitted i w w') : Rely j w w' := by
  cases heffect with
  | recorded event hobserved =>
      exact ⟨List.suffix_cons _ _, rfl, le_rfl⟩
  | autocommitted write hpermitted halone hunlocked hoffered =>
      exact ⟨List.suffix_cons _ _, rfl, Nat.le_succ _⟩
  | enqueued write hpermitted htransactional havailable hoffered =>
      exact ⟨List.suffix_cons _ _,
        ReadCommitted.Store.queue_enqueue_of_ne _ _ _ hne.symm, le_rfl⟩
  | locked locks havailable => exact ⟨List.suffix_refl _, rfl, le_rfl⟩
  | rolledBack =>
      exact ⟨List.suffix_refl _,
        ReadCommitted.Store.queue_rollback_of_ne _ hne.symm, le_rfl⟩
  | committed =>
      exact ⟨suffix_flush _ _ _ _,
        ReadCommitted.Store.queue_commit_of_ne _ _ hne.symm, le_rfl⟩
  | redisSet key value ttlSeconds hkey =>
      exact ⟨List.suffix_refl _, rfl, le_rfl⟩
  | redisDel key => exact ⟨List.suffix_refl _, rfl, le_rfl⟩
  | transactionStarted transaction phone purpose hnew =>
      exact ⟨List.suffix_cons _ _, rfl, le_rfl⟩
  | socketOpened userId hverified =>
      exact ⟨List.suffix_cons _ _, rfl, le_rfl⟩

theorem Effect.history {i : ℕ} {w w' : World}
    (heffect : Effect app permitted i w w') : w.history <:+ w'.history :=
  (heffect.rely (Nat.succ_ne_self i).symm).history

theorem World.surroundings_rely (event : Surroundings) (i : ℕ) (w : World) :
    Rely i w (w.surroundings event) := by
  cases event with
  | timePasses amount =>
      exact ⟨List.suffix_refl _, rfl, Nat.le_add_right _ _⟩
  | socketCloses socket => exact ⟨List.suffix_cons _ _, rfl, le_rfl⟩
  | conversationOpens userAId userBId =>
      exact ⟨List.suffix_cons _ _, rfl, le_rfl⟩
  | blocks blockerId blockedId => exact ⟨List.suffix_cons _ _, rfl, le_rfl⟩
  | unblocks blockerId blockedId => exact ⟨List.suffix_cons _ _, rfl, le_rfl⟩

/-- An action is a sequence of effects. -/
abbrev Action (app : Deployment) (permitted : Write → Prop) (i : ℕ) :
    World → World → Prop :=
  Relation.ReflTransGen (Effect app permitted i)

theorem Action.rely {i j : ℕ} {w w' : World} (hne : i ≠ j)
    (haction : Action app permitted i w w') : Rely j w w' := by
  induction haction with
  | refl => exact Rely.refl j w
  | tail _ heffect ih => exact ih.trans (heffect.rely hne)

theorem Action.history {i : ℕ} {w w' : World}
    (haction : Action app permitted i w w') : w.history <:+ w'.history :=
  (haction.rely (Nat.succ_ne_self i).symm).history

end MarketPlace
