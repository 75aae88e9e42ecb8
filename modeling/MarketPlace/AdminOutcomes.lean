import MarketPlace.AdminContinuity
import MarketPlace.RedisAccelerator
import MarketPlace.RefreshRotation

/-!
# What admin calls report and record

A call of the admin service reads, updates a user row, inserts an audit entry
and at times deletes a cache key, in statements of their own.  Where every
promotion and demotion hits a live row and the cache key can be deleted, a
call succeeds exactly if its change was committed, and leaves an audit entry
exactly then.
-/

namespace MarketPlace

open EventLog Interleaving

variable {app : Deployment} {i : ℕ} {w t : World} {history past : List Event}

/-! ## The writes of one request -/

/-- The writes that request `i` made, the newest first, each with what had
happened before it. -/
def ownWrites (i : ℕ) : List Event → List (List Event × Write)
  | [] => []
  | .wrote j _ write :: past =>
      if j = i then (past, write) :: ownWrites i past else ownWrites i past
  | _ :: past => ownWrites i past

@[simp] theorem ownWrites_nil (i : ℕ) : ownWrites i [] = [] := rfl

@[simp] theorem ownWrites_wrote (i at_ : ℕ) (write : Write)
    (past : List Event) :
    ownWrites i (.wrote i at_ write :: past) =
      (past, write) :: ownWrites i past :=
  if_pos rfl

theorem ownWrites_cons_of_ne {event : Event}
    (hother : ∀ at_ write, event ≠ .wrote i at_ write) :
    ownWrites i (event :: past) = ownWrites i past := by
  cases event with
  | wrote j at_ write =>
      have hne : j ≠ i := by
        rintro rfl
        exact hother at_ write rfl
      exact if_neg hne
  | _ => rfl

theorem ownWrites_flush_of_ne {j now : ℕ} (hne : j ≠ i) (writes : List Write)
    (history : List Event) :
    ownWrites i (World.flush j now writes history) = ownWrites i history := by
  induction writes generalizing history with
  | nil => rfl
  | cons write rest ih =>
      refine (ih (.wrote j now write :: history)).trans ?_
      exact ownWrites_cons_of_ne fun at_ other h => hne (Event.wrote.inj h).1

/-- A write of the request happened with that past. -/
theorem happened_of_mem_ownWrites {write : Write}
    (h : (past, write) ∈ ownWrites i history) :
    ∃ at_, Happened (.wrote i at_ write) past history := by
  induction history with
  | nil => contradiction
  | cons event rest ih =>
      by_cases hown : ∃ at_ other, event = .wrote i at_ other
      · obtain ⟨at_, other, rfl⟩ := hown
        rw [ownWrites_wrote, List.mem_cons, Prod.mk.injEq] at h
        rcases h with ⟨rfl, rfl⟩ | h
        · exact ⟨at_, happened_self⟩
        · obtain ⟨at_', hhappened⟩ := ih h
          exact ⟨at_', hhappened.cons⟩
      · rw [ownWrites_cons_of_ne fun at_ other heq => hown ⟨at_, other, heq⟩] at h
        obtain ⟨at_, hhappened⟩ := ih h
        exact ⟨at_, hhappened.cons⟩

/-! ## The discipline that tracks them -/

theorem Effect.permit {permitted : Write → Prop}
    (heffect : Effect app permitted i w t) : Effect app anyWrite i w t := by
  cases heffect with
  | autocommitted write hpermitted halone hunlocked hoffered =>
      exact .autocommitted write trivial halone hunlocked hoffered
  | enqueued write hpermitted htransactional havailable hoffered =>
      exact .enqueued write trivial htransactional havailable hoffered
  | recorded event hobserved => exact .recorded event hobserved
  | locked locks havailable => exact .locked locks havailable
  | rolledBack => exact .rolledBack
  | committed => exact .committed
  | redisSet key value ttlSeconds hkey => exact .redisSet key value ttlSeconds hkey
  | redisDel key => exact .redisDel key
  | transactionStarted transaction phone purpose hnew =>
      exact .transactionStarted transaction phone purpose hnew
  | socketOpened userId hverified => exact .socketOpened userId hverified

theorem Action.permit {permitted : Write → Prop}
    (haction : Action app permitted i w t) : Action app anyWrite i w t := by
  induction haction with
  | refl => exact .refl
  | tail _ heffect ih => exact ih.tail heffect.permit

/-- No effect of another request is among the request's own writes. -/
theorem Effect.ownWrites_of_ne {permitted : Write → Prop} {j : ℕ}
    (hne : i ≠ j) (heffect : Effect app permitted i w t) :
    ownWrites j t.history = ownWrites j w.history := by
  cases heffect with
  | recorded event hobserved =>
      refine ownWrites_cons_of_ne fun at_ write h => ?_
      subst h
      exact hobserved
  | autocommitted write hpermitted halone hunlocked hoffered =>
      exact ownWrites_cons_of_ne fun at_ other h =>
        hne (Event.wrote.inj h).1
  | enqueued write hpermitted htransactional havailable hoffered => rfl
  | committed => exact ownWrites_flush_of_ne hne _ _
  | _ => rfl

theorem Action.ownWrites_of_ne {permitted : Write → Prop} {j : ℕ}
    (hne : i ≠ j) (haction : Action app permitted i w t) :
    ownWrites j t.history = ownWrites j w.history := by
  induction haction with
  | refl => rfl
  | tail _ heffect ih => exact (heffect.ownWrites_of_ne hne).trans ih

theorem ownWrites_surroundings (event : Surroundings) (i : ℕ) (w : World) :
    ownWrites i (w.surroundings event).history = ownWrites i w.history := by
  cases event <;> rfl

/-- The discipline in which a request relies on being the only one to make its
writes. -/
def tracking (app : Deployment) : Discipline World where
  invariant w := w.Traced app
  rely i w t := Rely i w t ∧
    ownWrites i t.history = ownWrites i w.history
  guarantee i w t := Action app anyWrite i w t
  rely_refl i w := ⟨Rely.refl i w, rfl⟩
  rely_trans h h' := ⟨h.1.trans h'.1, h'.2.trans h.2⟩
  guarantee_rely hne haction :=
    ⟨haction.rely hne, haction.ownWrites_of_ne hne⟩
  guarantee_invariant haction htraced :=
    (discipline app anyWrite).guarantee_invariant haction htraced

/-- The request has made these writes, and is in no transaction. -/
structure HasWritten (i : ℕ) (writes : List (List Event × Write)) (w : World) :
    Prop where
  queue : w.store.queue i = []
  writes : ownWrites i w.history = writes

theorem HasWritten.later {writes : List (List Event × Write)}
    (h : HasWritten i writes w) (hrely : (tracking app).rely i w t) :
    HasWritten i writes t :=
  ⟨hrely.1.queue.trans h.queue, hrely.2.trans h.writes⟩

/-- Whoever may not write anything makes no writes. -/
theorem Action.hasWritten {writes : List (List Event × Write)}
    (h : HasWritten i writes w)
    (haction : Action app (fun _ => False) i w t) : HasWritten i writes t := by
  induction haction with
  | refl => exact h
  | tail _ heffect ih =>
      cases heffect with
      | recorded event hobserved =>
          refine ⟨ih.queue, (ownWrites_cons_of_ne ?_).trans ih.writes⟩
          rintro at_ write rfl
          exact hobserved
      | autocommitted write hpermitted => exact hpermitted.elim
      | enqueued write hpermitted => exact hpermitted.elim
      | rolledBack =>
          exact ⟨ReadCommitted.Store.queue_rollback _ _, ih.writes⟩
      | committed =>
          refine ⟨ReadCommitted.Store.queue_commit _ _ _, ?_⟩
          rw [World.commit, ih.queue]
          exact ih.writes
      | _ => exact ⟨ih.queue, ih.writes⟩

section Rules

variable {β : Type} {post : β → World → Prop} {fail : HttpError → World → Prop}
  {writes : List (List Event × Write)} {allowed : Draw → Bool}

/-- What a program without writes meets, with the writes that were there. -/
theorem meets_silently {program : Handler β} (h : HasWritten i writes w)
    (hmeets : program.Meets (discipline app fun _ => False) i post fail w) :
    program.Meets (tracking app) i
      (fun value t => post value t ∧ HasWritten i writes t)
      (fun error t => fail error t ∧ HasWritten i writes t) w := by
  refine Program.Meets.transfer (HasWritten i writes) ?_ ?_ ?_ ?_ ?_ hmeets h
  · exact fun htraced => htraced
  · exact fun hrely => hrely.1
  · exact fun haction => Action.permit haction
  · exact fun hrely h => h.later hrely
  · exact fun haction h => Action.hasWritten h haction

/-- A write whose statement is answered. -/
theorem execute_tracked {write : ℕ → Sequences → Write}
    {returning : Database → Database → β}
    (hallowed : ∀ d, allowed d = true → d.databaseFails = false)
    (halone : ∀ now ids, (write now ids).onlyInTransaction = false)
    (hoffered : ∀ u, (write u.now u.ids).Offered app i u.now u)
    (h : HasWritten i writes w)
    (hpost : ∀ past now ids t,
      HasWritten i ((past, write now ids) :: writes) t →
      post (returning (stored past) ((stored past).apply (write now ids))) t) :
    ((execute none write returning).under allowed).Meets (tracking app) i post
      fail w := by
  intro u hu htraced d outcome v hrun
  obtain ⟨hanswers, hrun⟩ := Option.ite_none_right_eq_some.mp hrun
  simp only [hallowed d hanswers, Bool.false_eq_true, if_false] at hrun
  obtain ⟨hlockable, hrun⟩ := Option.ite_none_right_eq_some.mp hrun
  simp only [Option.some.injEq, Prod.mk.injEq] at hrun
  obtain ⟨rfl, rfl⟩ := hrun
  refine ⟨.single (.autocommitted _ trivial (halone _ _) hlockable
    (hoffered u)), fun t ht _ => ?_⟩
  have hwritten : HasWritten i ((u.history, write u.now u.ids) :: writes)
      (u.autocommit i (write u.now u.ids)) := by
    refine ⟨(h.later hu).queue, ?_⟩
    rw [World.autocommit, ownWrites_wrote, (h.later hu).writes]
  have hafter := hpost u.history u.now u.ids t (hwritten.later ht)
  rw [← htraced.stores] at hafter
  exact hafter

theorem logAdminAction_tracked
    {actorId : ℕ} {action targetType : String} {targetId : Option ℕ}
    {payload : AuditPayload} {post : Unit → World → Prop}
    (hallowed : ∀ d, allowed d = true → d.databaseFails = false)
    (h : HasWritten i writes w)
    (hpost : ∀ past id createdAt t,
      HasWritten i ((past, .insertAuditLog ⟨id, actorId, action, targetType,
        targetId, payload, createdAt⟩) :: writes) t → post () t) :
    ((logAdminAction actorId action targetType targetId payload).under
      allowed).Meets (tracking app) i post fail w := by
  rw [logAdminAction, Program.tryCatch_eq_recover, Program.under_recover]
  refine Program.Meets.recover (execute_tracked hallowed (fun _ _ => rfl)
    (fun _ => trivial) h fun past now ids t ht => ?_)
  exact hpost past _ now t ht

theorem redisDel_tracked {key : String} {post : Unit → World → Prop}
    (hallowed : ∀ d, allowed d = true → d.redisFails = false)
    (h : HasWritten i writes w)
    (hpost : ∀ t, HasWritten i writes t → post () t) :
    ((redisDel app key).under allowed).Meets (tracking app) i post fail w := by
  unfold redisDel redisCommand
  split
  · intro u hu htraced d outcome v hrun
    obtain ⟨hanswers, hrun⟩ := Option.ite_none_right_eq_some.mp hrun
    simp only [hallowed d hanswers, Bool.false_eq_true, if_false,
      Option.some.injEq, Prod.mk.injEq] at hrun
    obtain ⟨rfl, rfl⟩ := hrun
    have hwritten : HasWritten i writes u := h.later hu
    have hwritten : HasWritten i writes (u.redisDel key) :=
      ⟨hwritten.queue, hwritten.writes⟩
    exact ⟨.single (.redisDel key), fun t ht _ => hpost t (hwritten.later ht)⟩
  · exact fun t ht _ => hpost t (h.later ht)

end Rules

/-! ## The calls of the admin service -/

/-- What a call of the admin service is about: the change of the user row and
the audit entry. -/
structure Moderation where
  actorId : ℕ
  userId : ℕ
  change : ℕ → Write
  action : String
  payload : AuditPayload

def Request.moderation : Request → Option Moderation
  | .promoteAdmin accessToken userId =>
      some ⟨accessToken.sub, userId, .promoteAdmin userId, "promote_admin",
        .isAdmin true⟩
  | .demoteAdmin accessToken userId =>
      some ⟨accessToken.sub, userId, .demoteAdmin userId, "demote_admin",
        .isAdmin false⟩
  | .updateUserStatus accessToken userId status =>
      some ⟨accessToken.sub, userId, .updateStatus userId status,
        "update_user_status", .status status⟩
  | .deleteUser accessToken userId =>
      some ⟨accessToken.sub, userId, .deleteUser userId, "delete_user",
        .empty⟩
  | _ => none

/-- The change of the call has been committed: its UPDATE ran while the user
was live. -/
def ChangeCommitted (i : ℕ) (call : Moderation) (history : List Event) : Prop :=
  ∃ past now, (past, call.change now) ∈ ownWrites i history ∧
    ((stored past).liveUserById call.userId).isSome = true

/-- The call's entry is in admin_audit_logs. -/
def EntryLogged (i : ℕ) (call : Moderation) (history : List Event) : Prop :=
  ∃ past id createdAt, (past, .insertAuditLog
    ⟨id, call.actorId, call.action, "user", some call.userId, call.payload,
      createdAt⟩) ∈ ownWrites i history

/-- A promotion or a demotion of a user who is not live. -/
def Event.missesUser (db : Database) : Event → Bool
  | .wrote _ _ (.promoteAdmin userId _) | .wrote _ _ (.demoteAdmin userId _) =>
      (db.liveUserById userId).isNone
  | _ => false

/-- Every promotion and every demotion found its user live. -/
def PromotionsHit (history : List Event) : Prop :=
  Lawful (fun event past => event.missesUser (stored past) = false) history

instance : Decidable (PromotionsHit history) :=
  inferInstanceAs (Decidable (Lawful _ _))

/-- What a successful call leaves. -/
structure CallSucceeds (i : ℕ) (call : Moderation) (w : World) : Prop where
  committed : ChangeCommitted i call w.history
  audited : EntryLogged i call w.history

/-- What a failed call leaves. -/
structure CallFails (i : ℕ) (call : Moderation) (w : World) : Prop where
  uncommitted : ¬ ChangeCommitted i call w.history
  unaudited : ¬ EntryLogged i call w.history

section Calls

variable {call : Moderation} {now : ℕ}

theorem HasWritten.leaves (h : HasWritten i [] w) : CallFails i call w := by
  constructor
  · rintro ⟨past, now, hmem, -⟩
    rw [h.writes] at hmem
    contradiction
  · rintro ⟨past, id, createdAt, hmem⟩
    rw [h.writes] at hmem
    contradiction

/-- An UPDATE that did not find the user live commits no change. -/
theorem HasWritten.leaves_of_missed
    (h : HasWritten i [(past, call.change now)] w)
    (hmissed : (stored past).liveUserById call.userId = none)
    (hother : ∀ now row, call.change now ≠ .insertAuditLog row) :
    CallFails i call w := by
  constructor
  · rintro ⟨past', now', hmem, hlive⟩
    rw [h.writes, List.mem_singleton, Prod.mk.injEq] at hmem
    rw [hmem.1, hmissed] at hlive
    contradiction
  · rintro ⟨past', id, createdAt, hmem⟩
    rw [h.writes, List.mem_singleton, Prod.mk.injEq] at hmem
    exact hother now _ hmem.2.symm

theorem HasWritten.succeeds {audited : List Event} {id createdAt : ℕ}
    (h : HasWritten i [(audited, .insertAuditLog
      ⟨id, call.actorId, call.action, "user", some call.userId, call.payload,
        createdAt⟩), (past, call.change now)] w)
    (hlive : ((stored past).liveUserById call.userId).isSome = true) :
    CallSucceeds i call w := by
  constructor
  · refine ⟨past, now, ?_, hlive⟩
    rw [h.writes]
    exact List.mem_cons_of_mem _ List.mem_cons_self
  · refine ⟨audited, id, createdAt, ?_⟩
    rw [h.writes]
    exact List.mem_cons_self

end Calls

/-- Where an UPDATE keeps deleted_at, its RETURNING finds no live user exactly
if there was none. -/
theorem liveUserById_updateUser_eq_none {db : Database} {p : UserRow → Bool}
    {f : UserRow → UserRow} (hkey : ∀ row, (f row).id = row.id)
    (hkept : ∀ row, (f row).deletedAt = row.deletedAt) (userId : ℕ) :
    (db.updateUser p f hkey).liveUserById userId = none ↔
      db.liveUserById userId = none := by
  rw [Database.liveUserById, Database.updateUser, Relational.Table.get_modify,
    Database.liveUserById]
  cases db.users.get userId with
  | none => rfl
  | some row =>
      by_cases hp : p row = true
      · simp [hp, hkept]
      · simp [hp]

/-! ## Outlines of the calls -/

section Outlines

variable {call : Moderation} {allowed : Draw → Bool}

/-- The statements after the checks of a promotion or demotion. -/
theorem promotion_tracked
    (hallowed : ∀ d, allowed d = true → d.databaseFails = false)
    (h : HasWritten i [] w)
    (halone : ∀ now, (call.change now).onlyInTransaction = false)
    (hoffered : ∀ (u : World) now, (call.change now).Offered app i now u)
    (hkept : ∀ (db : Database) now,
      (db.apply (call.change now)).liveUserById call.userId = none ↔
        db.liveUserById call.userId = none)
    (hmisses : ∀ (db : Database) at_ now, Event.missesUser db
      (.wrote i at_ (call.change now)) =
        (db.liveUserById call.userId).isNone) :
    ((do
      let row ← updateLiveUser call.userId call.change
      logAdminAction call.actorId call.action "user" (some call.userId)
        call.payload
      promotionResponse row : Handler Response).under allowed).Meets
      (tracking app) i (fun _ t => CallSucceeds i call t)
      (fun _ t => PromotionsHit t.history → CallFails i call t) w := by
  simp only [Program.under_bind]
  refine Program.Meets.bind (execute_tracked hallowed
    (fun now _ => halone now) (fun u => hoffered u u.now) h
    fun past now ids t ht => ?_)
  refine Program.Meets.bind (logAdminAction_tracked hallowed ht
    fun audited id createdAt u hu => ?_)
  cases hrow : ((stored past).apply (call.change now)).liveUserById
      call.userId with
  | none =>
      intro v hv _ hhit
      have hmiss := (hkept (stored past) now).mp hrow
      have hmem : (past, call.change now) ∈ ownWrites i v.history := by
        rw [(hu.later hv).writes]
        exact List.mem_cons_of_mem _ List.mem_cons_self
      obtain ⟨at_, hhappened⟩ := happened_of_mem_ownWrites hmem
      have hrule : Event.missesUser (stored past) _ = false :=
        hhit _ past hhappened
      rw [hmisses, hmiss] at hrule
      contradiction
  | some row =>
      intro v hv _
      refine (hu.later hv).succeeds (Option.isSome_iff_ne_none.mpr fun hnone => ?_)
      rw [(hkept (stored past) now).mpr hnone] at hrow
      contradiction

/-- The checks of a promotion or demotion make no writes. -/
theorem check_tracked {next : Option Bool → Handler Response}
    {query : Database → Option Bool} {post : Response → World → Prop}
    {fail : HttpError → World → Prop}
    (h : HasWritten i [] w) (hfail : ∀ error t, HasWritten i [] t → fail error t)
    (hnext : ∀ value t, HasWritten i [] t →
      ((next value).under allowed).Meets (tracking app) i post fail t) :
    ((select none query >>= next).under allowed).Meets (tracking app) i post
      fail w := by
  rw [Program.under_bind]
  refine Program.Meets.seq (fun _ t => HasWritten i [] t) ?_
    fun value t ht => hnext value t ht
  have hselect : (select none query).Meets (discipline app fun _ => False) i
      (fun _ _ => True) (fun _ _ => True) w :=
    select_meets (fun _ => trivial) fun _ _ _ => trivial
  exact (Program.Meets.under (meets_silently h hselect)).mono
    (fun _ _ hpost => hpost.2) fun error t hfailed => hfail error t hfailed.2

theorem promoteAdmin_tracked {admin : AuthUser} {userId : ℕ}
    (hallowed : ∀ d, allowed d = true → d.databaseFails = false)
    (h : HasWritten i [] w) :
    ((promoteAdmin admin userId).under allowed).Meets (tracking app) i
      (fun _ t => CallSucceeds i ⟨admin.sub, userId, .promoteAdmin userId,
        "promote_admin", .isAdmin true⟩ t)
      (fun _ t => PromotionsHit t.history → CallFails i ⟨admin.sub, userId,
        .promoteAdmin userId, "promote_admin", .isAdmin true⟩ t) w := by
  refine check_tracked h (fun _ _ hwritten _ => hwritten.leaves)
    fun before t ht => ?_
  cases before with
  | none => exact fun u hu _ _ => (ht.later hu).leaves
  | some isAdmin =>
      dsimp only
      split
      · exact fun u hu _ _ => (ht.later hu).leaves
      · refine promotion_tracked hallowed ht (fun _ => rfl) (fun _ _ => trivial)
          (fun db now => ?_) fun _ _ _ => rfl
        exact liveUserById_updateUser_eq_none _ (by intro; rfl) _

theorem demoteAdmin_tracked {admin : AuthUser} {userId : ℕ}
    (hallowed : ∀ d, allowed d = true → d.databaseFails = false)
    (h : HasWritten i [] w) :
    ((demoteAdmin admin userId).under allowed).Meets (tracking app) i
      (fun _ t => CallSucceeds i ⟨admin.sub, userId, .demoteAdmin userId,
        "demote_admin", .isAdmin false⟩ t)
      (fun _ t => PromotionsHit t.history → CallFails i ⟨admin.sub, userId,
        .demoteAdmin userId, "demote_admin", .isAdmin false⟩ t) w := by
  unfold demoteAdmin
  split
  · exact fun u hu _ _ => (h.later hu).leaves
  refine check_tracked h (fun _ _ hwritten _ => hwritten.leaves)
    fun before t ht => ?_
  cases before with
  | none => exact fun u hu _ _ => (ht.later hu).leaves
  | some isAdmin =>
      dsimp only
      split
      · exact fun u hu _ _ => (ht.later hu).leaves
      · refine promotion_tracked hallowed ht (fun _ => rfl) (fun _ _ => trivial)
          (fun db now => ?_) fun _ _ _ => rfl
        exact liveUserById_updateUser_eq_none _ (by intro; rfl) _

theorem updateUserStatus_tracked {admin : AuthUser} {userId : ℕ}
    {status : UserStatus}
    (hallowed : ∀ d, allowed d = true → d.databaseFails = false)
    (hredis : ∀ d, allowed d = true → d.redisFails = false)
    (h : HasWritten i [] w) :
    ((updateUserStatus app admin userId status).under allowed).Meets
      (tracking app) i
      (fun _ t => CallSucceeds i ⟨admin.sub, userId, .updateStatus userId status,
        "update_user_status", .status status⟩ t)
      (fun _ t => CallFails i ⟨admin.sub, userId, .updateStatus userId status,
        "update_user_status", .status status⟩ t) w := by
  unfold updateUserStatus
  rw [Program.under_bind]
  refine Program.Meets.bind (execute_tracked hallowed (fun _ _ => rfl)
    (fun _ => trivial) h fun past now ids t ht => ?_)
  have hkept : ((stored past).apply (.updateStatus userId status now)).liveUserById
      userId = none ↔ (stored past).liveUserById userId = none :=
    liveUserById_updateUser_eq_none _ (by intro; rfl) _
  cases hrow : ((stored past).apply
      (.updateStatus userId status now)).liveUserById userId with
  | none =>
      intro u hu _
      exact (ht.later hu).leaves_of_missed (hkept.mp hrow) (by simp)
  | some row =>
      have hlive : ((stored past).liveUserById userId).isSome = true := by
        rw [Option.isSome_iff_ne_none]
        intro hnone
        rw [hkept.mpr hnone] at hrow
        contradiction
      simp only [Program.under_bind]
      refine Program.Meets.bind (logAdminAction_tracked hallowed ht
        fun audited id createdAt u hu => ?_)
      refine Program.Meets.bind (redisDel_tracked hredis hu fun v hv => ?_)
      exact fun x hx _ => (hv.later hx).succeeds hlive

theorem deleteUser_tracked {admin : AuthUser} {userId : ℕ}
    (hallowed : ∀ d, allowed d = true → d.databaseFails = false)
    (hredis : ∀ d, allowed d = true → d.redisFails = false)
    (h : HasWritten i [] w) :
    ((deleteUser app admin userId).under allowed).Meets (tracking app) i
      (fun _ t => CallSucceeds i ⟨admin.sub, userId, .deleteUser userId,
        "delete_user", .empty⟩ t)
      (fun _ t => CallFails i ⟨admin.sub, userId, .deleteUser userId,
        "delete_user", .empty⟩ t) w := by
  unfold deleteUser
  rw [Program.under_bind]
  refine Program.Meets.bind (execute_tracked hallowed (fun _ _ => rfl)
    (fun _ => trivial) h fun past now ids t ht => ?_)
  cases hrow : (stored past).liveUserById userId with
  | none =>
      intro u hu _
      exact (ht.later hu).leaves_of_missed hrow (by simp)
  | some row =>
      simp only [Option.isSome_some, Bool.not_true, Bool.false_eq_true, if_false,
        Program.under_bind]
      refine Program.Meets.bind (logAdminAction_tracked hallowed ht
        fun audited id createdAt u hu => ?_)
      refine Program.Meets.bind (redisDel_tracked hredis hu fun v hv => ?_)
      exact fun x hx _ => (hv.later hx).succeeds (hrow ▸ rfl)

end Outlines

/-! ## Runs -/

/-- The outcomes in which neither the database nor Redis fails. -/
def Draw.storesAnswer (d : Draw) : Bool := !d.databaseFails && !d.redisFails

/-- The handlers, where the database answers and where Redis answers when the
admin service deletes the cached status of a user. -/
def Request.moderatingHandler (app : Deployment) : Request → Handler Response
  | .updateUserStatus accessToken userId status => do
      let admin ← (adminGuard app accessToken).under Draw.databaseAnswers
      (MarketPlace.updateUserStatus app admin userId status).under
        Draw.storesAnswer
  | .deleteUser accessToken userId => do
      let admin ← (adminGuard app accessToken).under Draw.databaseAnswers
      (MarketPlace.deleteUser app admin userId).under Draw.storesAnswer
  | request => (request.handler app).under Draw.databaseAnswers

def moderatingBackend (app : Deployment) :
    System Request Draw Surroundings World HttpError Response where
  handler := Request.moderatingHandler app
  environment := World.surroundings

/-- A guarded call meets what its service meets. -/
theorem adminOnly_tracked {token : Token} {next : AuthUser → Handler Response}
    {guarded allowed : Draw → Bool} {post : Response → World → Prop}
    {fail : HttpError → World → Prop} (h : HasWritten i [] w)
    (hfail : ∀ error t, HasWritten i [] t → fail error t)
    (hnext : ∀ admin t, admin.sub = token.sub → HasWritten i [] t →
      ((next admin).under allowed).Meets (tracking app) i post fail t) :
    (do
      let admin ← (adminGuard app token).under guarded
      (next admin).under allowed : Handler Response).Meets (tracking app) i
      post fail w := by
  have hguard : (adminGuard app token).Meets (discipline app fun _ => False) i
      (fun admin _ => admin.sub = token.sub) anyFailure w :=
    adminGuard_meets fun _ _ _ _ hsub _ => hsub
  refine Program.Meets.seq
    (fun admin t => admin.sub = token.sub ∧ HasWritten i [] t)
    ((Program.Meets.under (meets_silently h hguard)).mono (fun _ _ hpost => hpost)
      fun error t hfailed => hfail error t hfailed.2)
    fun admin t ht => hnext admin t ht.1 ht.2

/-- A call of the admin service succeeds or fails as it should. -/
theorem Request.moderation_tracked {request : Request} {call : Moderation}
    (hcall : request.moderation = some call) (h : HasWritten i [] w) :
    (request.moderatingHandler app).Meets (tracking app) i
      (fun _ t => CallSucceeds i call t)
      (fun _ t => PromotionsHit t.history → CallFails i call t) w := by
  have hdatabase : ∀ d, Draw.databaseAnswers d = true →
      d.databaseFails = false := by
    simp [Draw.databaseAnswers]
  have hstore : ∀ d, Draw.storesAnswer d = true → d.databaseFails = false := by
    simp +contextual [Draw.storesAnswer]
  have hcache : ∀ d, Draw.storesAnswer d = true → d.redisFails = false := by
    simp [Draw.storesAnswer]
  cases request with
  | promoteAdmin accessToken userId =>
      obtain rfl := Option.some.inj hcall
      simp only [moderatingHandler, handler, Program.under_bind]
      refine adminOnly_tracked h (fun _ _ ht _ => ht.leaves)
        fun admin t hsub ht => ?_
      rw [← hsub]
      exact promoteAdmin_tracked hdatabase ht
  | demoteAdmin accessToken userId =>
      obtain rfl := Option.some.inj hcall
      simp only [moderatingHandler, handler, Program.under_bind]
      refine adminOnly_tracked h (fun _ _ ht _ => ht.leaves)
        fun admin t hsub ht => ?_
      rw [← hsub]
      exact demoteAdmin_tracked hdatabase ht
  | updateUserStatus accessToken userId status =>
      obtain rfl := Option.some.inj hcall
      refine adminOnly_tracked h (fun _ _ ht _ => ht.leaves)
        fun admin t hsub ht => ?_
      rw [← hsub]
      exact (updateUserStatus_tracked hstore hcache ht).mono
        (fun _ _ hpost => hpost) fun _ _ hfails _ => hfails
  | deleteUser accessToken userId =>
      obtain rfl := Option.some.inj hcall
      refine adminOnly_tracked h (fun _ _ ht _ => ht.leaves)
        fun admin t hsub ht => ?_
      rw [← hsub]
      exact (deleteUser_tracked hstore hcache ht).mono
        (fun _ _ hpost => hpost) fun _ _ hfails _ => hfails
  | _ => contradiction

/-- Everything else keeps to the discipline. -/
theorem Request.handler_tracked (request : Request) (allowed : Draw → Bool) :
    ((request.handler app).under allowed).Meets (tracking app) i
      (fun _ _ => True) (fun _ _ => True) w := by
  have hmeets : (request.handler app).Meets (tracking app) i
      (fun response t => request.Ensures app i response t ∧ True)
      (fun error t => request.FailsWith app i error t ∧ True) w := by
    refine Program.Meets.transfer (fun _ => True) ?_ ?_ ?_ ?_ ?_
      request.handler_meets trivial
    · exact fun htraced => htraced
    · exact fun hrely => hrely.1
    · exact fun haction => haction
    · exact fun _ _ => trivial
    · exact fun _ _ => trivial
  exact (Program.Meets.under hmeets).mono (fun _ _ _ => trivial)
    fun _ _ _ => trivial

theorem Request.moderatingHandler_of_moderation {request : Request}
    (h : request.moderation = none) :
    request.moderatingHandler app =
      (request.handler app).under Draw.databaseAnswers := by
  cases request with
  | updateUserStatus accessToken userId status => simp [moderation] at h
  | deleteUser accessToken userId => simp [moderation] at h
  | _ => rfl

theorem moderatingBackend_sound (app : Deployment) :
    (moderatingBackend app).SoundWithin (tracking app) (fun _ _ _ _ => True)
      (fun i w => HasWritten i [] w) (fun _ _ => True)
      (fun request i _ t => ∀ call, request.moderation = some call →
        CallSucceeds i call t)
      fun request i _ t => ∀ call, request.moderation = some call →
        PromotionsHit t.history → CallFails i call t where
  handler_meets request i w _ hfresh := by
    refine Program.Meets.within (fun _ _ => trivial) ?_
    cases hcall : request.moderation with
    | none =>
        change (request.moderatingHandler app).Meets _ _ _ _ _
        rw [request.moderatingHandler_of_moderation hcall]
        exact (request.handler_tracked _).mono (fun _ _ _ _ h => by simp at h)
          fun _ _ _ _ h => by simp at h
    | some call =>
        refine (Request.moderation_tracked hcall hfresh).mono ?_ ?_
        · rintro _ t hsucceeds _ hsame
          obtain rfl := Option.some.inj hsame
          exact hsucceeds
        · rintro _ t hfails _ hsame
          obtain rfl := Option.some.inj hsame
          exact hfails
  guarantee_fresh hne haction hfresh :=
    hfresh.later ((tracking app).guarantee_rely hne haction)
  environment_fresh event i w hfresh :=
    ⟨(World.surroundings_rely event i w).queue.trans hfresh.queue,
      (ownWrites_surroundings event i w).trans hfresh.writes⟩
  environment_rely event i w _ :=
    ⟨World.surroundings_rely event i w, ownWrites_surroundings event i w⟩
  environment_invariant event _ htraced := htraced.surroundings event

/-- In runs in which every promotion and demotion finds its user live and Redis
answers the moderation calls, a finished call of the admin service has
succeeded exactly if its change is committed, and its audit entry is there
exactly then. -/
theorem admin_outcomes_honest (app : Deployment) {now : ℕ}
    {pool : Pool Request Draw World HttpError Response}
    (hreach : (moderatingBackend app).Reaches (fun _ _ => True)
      (Pool.start now) pool)
    (hhit : PromotionsHit pool.state.history)
    {i : ℕ} {request : Request} {body : Handler Response} {call : Moderation}
    (hthread : pool.threads[i]? = some ⟨request, body⟩)
    (hcall : request.moderation = some call) (hended : body.ended = true) :
    ((∃ response, body = .done response) ↔
      ChangeCommitted i call pool.state.history) ∧
    (EntryLogged i call pool.state.history ↔
      ChangeCommitted i call pool.state.history) := by
  have hstart : System.OnCourseWithin (tracking app) (fun _ _ _ _ => True)
      (fun i w => HasWritten i [] w)
      (fun (request : Request) i (_ : Response) t =>
        ∀ call, request.moderation = some call → CallSucceeds i call t)
      (fun request i (_ : HttpError) t =>
        ∀ call, request.moderation = some call →
          PromotionsHit t.history → CallFails i call t)
      (Pool.start now : Pool Request Draw World HttpError Response) :=
    System.OnCourseWithin.of_empty rfl (World.traced_initial app now)
      fun _ => ⟨rfl, rfl⟩
  have hpool := hreach.soundWithin (moderatingBackend_sound app) hstart
  rcases Program.eq_of_ended hended with ⟨response, rfl⟩ | ⟨error, rfl⟩
  · obtain ⟨hcommitted, hlogged⟩ := hpool.outcome hthread call hcall
    exact ⟨iff_of_true ⟨response, rfl⟩ hcommitted,
      iff_of_true hlogged hcommitted⟩
  · obtain ⟨huncommitted, hunlogged⟩ := hpool.failure hthread call hcall hhit
    refine ⟨iff_of_false ?_ huncommitted, iff_of_false hunlogged huncommitted⟩
    rintro ⟨response, hdone⟩
    contradiction

/-! ## Given runs -/

/-- The second admin signs in as well. -/
def bothAdmins : List (Move Request Draw Surroundings) :=
  twoAdmins ++ alone 3 (Request.login ⟨"+202", "secret"⟩) 4

def secondAdminToken : Token :=
  accessTokenFor (sampleDeployment .console) 2 "+202" true 0 0

/-- The first admin demotes the second, who is deleted between the check and
the UPDATE. -/
def demotesDeleted : List (Move Request Draw Surroundings) :=
  bothAdmins ++ alone 4 (Request.demoteAdmin adminToken 2) 4 ++
    alone 5 (Request.deleteMe secondAdminToken) 3 ++
    List.replicate 2 (Move.advance 4 sampleDraw)

/-- The first admin deletes the second, and Redis fails at the last action. -/
def deletesUncached : List (Move Request Draw Surroundings) :=
  twoAdmins ++ [Move.advance 2 sampleDraw] ++
    alone 3 (Request.deleteUser adminToken 2) 5 ++
    [Move.advance 3 { sampleDraw with redisFails := true }]

theorem Pool.failed_of_refuses
    {pool : Pool Request Draw World HttpError Response} {i : ℕ}
    {request : Request}
    (hrefuses : (pool.refusal i).any (fun refused => refused.1 = request) =
      true) :
    ∃ error, pool.threads[i]? = some ⟨request, .failed error⟩ := by
  obtain ⟨⟨request', error⟩, hrefusal, hrequest⟩ :=
    (Option.any_eq_true _ _).mp hrefuses
  obtain rfl : request' = request := of_decide_eq_true hrequest
  exact ⟨error, Pool.thread_of_refusal hrefusal⟩

/-- The second admin is demoted, and the entry is there. -/
theorem admin_outcomes_honest_demotion :
    ∃ pool body, (moderatingBackend (sampleDeployment .console)).Reaches
        (fun _ _ => True) (Pool.start 0) pool ∧
      pool.threads[3]? = some ⟨.demoteAdmin adminToken 2, body⟩ ∧
      (∃ response, body = .done response) ∧
      ChangeCommitted 3 ⟨1, 2, .demoteAdmin 2, "demote_admin", .isAdmin false⟩
        pool.state.history ∧
      EntryLogged 3 ⟨1, 2, .demoteAdmin 2, "demote_admin", .isAdmin false⟩
        pool.state.history := by
  obtain ⟨pool, hreach, hcheck⟩ := System.exists_reaches_of_run
    (show ((moderatingBackend (sampleDeployment .console)).run
      (twoAdmins ++ alone 3 (.demoteAdmin adminToken 2) 6) (Pool.start 0)).any
        (fun pool => decide (PromotionsHit pool.state.history) &&
          pool.answers 3 (.demoteAdmin adminToken 2)) = true by
      decide +kernel)
  simp only [Bool.and_eq_true, decide_eq_true_eq] at hcheck
  obtain ⟨response, hdone⟩ := Pool.done_of_answers hcheck.2
  obtain ⟨hsuccess, hentry⟩ := admin_outcomes_honest
    (sampleDeployment .console) hreach hcheck.1 hdone rfl rfl
  have hcommitted := hsuccess.mp ⟨response, rfl⟩
  exact ⟨pool, .done response, hreach, hdone, ⟨response, rfl⟩, hcommitted,
    hentry.mpr hcommitted⟩

/-- A demotion that changed nothing leaves an entry, and a deletion that was
committed and recorded is reported as an error. -/
theorem not_always_honest :
    (¬ ∀ (app : Deployment) (now i : ℕ)
      (pool : Pool Request Draw World HttpError Response) (request : Request)
      (body : Handler Response) (call : Moderation),
      (reliableBackend app).Reaches (fun _ _ => True) (Pool.start now) pool →
      pool.threads[i]? = some ⟨request, body⟩ →
      request.moderation = some call → body.ended = true →
      (EntryLogged i call pool.state.history ↔
        ChangeCommitted i call pool.state.history)) ∧
    ¬ ∀ (app : Deployment) (now i : ℕ)
      (pool : Pool Request Draw World HttpError Response) (request : Request)
      (body : Handler Response) (call : Moderation),
      (reliableBackend app).Reaches (fun _ _ => True) (Pool.start now) pool →
      pool.threads[i]? = some ⟨request, body⟩ →
      request.moderation = some call → body.ended = true →
      ((∃ response, body = .done response) ↔
        ChangeCommitted i call pool.state.history) := by
  constructor
  · intro hclaim
    obtain ⟨pool, hreach, hcheck⟩ := System.exists_reaches_of_run
      (show ((reliableBackend (sampleDeployment .console)).run demotesDeleted
        (Pool.start 0)).any (fun pool =>
          (pool.refusal 4).any
            (fun refused => refused.1 = .demoteAdmin adminToken 2) &&
          (ownWrites 4 pool.state.history).any (fun own => own.2 =
            .insertAuditLog ⟨1, 1, "demote_admin", "user", some 2,
              .isAdmin false, 4⟩) &&
          (ownWrites 4 pool.state.history).all fun own =>
            ((stored own.1).liveUserById 2).isNone) = true by decide +kernel)
    simp only [Bool.and_eq_true] at hcheck
    obtain ⟨⟨hrefuses, hentry⟩, hmissed⟩ := hcheck
    obtain ⟨error, hfailed⟩ := Pool.failed_of_refuses hrefuses
    obtain ⟨⟨audited, write⟩, hmem, hwrite⟩ := List.any_eq_true.mp hentry
    obtain rfl := of_decide_eq_true hwrite
    have hiff := hclaim (sampleDeployment .console) 0 4 pool _ _ _ hreach
      hfailed rfl rfl
    obtain ⟨past, now, hchange, hlive⟩ := hiff.mp ⟨audited, 1, 4, hmem⟩
    have hnone := List.all_eq_true.mp hmissed _ hchange
    rw [Option.isNone_iff_eq_none] at hnone
    rw [hnone] at hlive
    contradiction
  · intro hclaim
    obtain ⟨pool, hreach, hcheck⟩ := System.exists_reaches_of_run
      (show ((reliableBackend sampleRedisDeployment).run deletesUncached
        (Pool.start 0)).any (fun pool =>
          (pool.refusal 3).any
            (fun refused => refused.1 = .deleteUser adminToken 2) &&
          (ownWrites 3 pool.state.history).any fun own =>
            own.2 = .deleteUser 2 1 &&
              ((stored own.1).liveUserById 2).isSome) = true by decide +kernel)
    simp only [Bool.and_eq_true] at hcheck
    obtain ⟨hrefuses, hchange⟩ := hcheck
    obtain ⟨error, hfailed⟩ := Pool.failed_of_refuses hrefuses
    obtain ⟨⟨past, write⟩, hmem, hown⟩ := List.any_eq_true.mp hchange
    obtain ⟨hwrite, hlive⟩ := (Bool.and_eq_true _ _).mp hown
    obtain rfl := of_decide_eq_true hwrite
    have hiff := hclaim sampleRedisDeployment 0 3 pool _ _ _ hreach hfailed rfl
      rfl
    obtain ⟨response, hdone⟩ := hiff.mpr ⟨past, 1, hmem, hlive⟩
    contradiction

end MarketPlace
