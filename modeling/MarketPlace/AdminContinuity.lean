import MarketPlace.AccountHistories
import MarketPlace.GivenRuns
import MarketPlace.TokenEpochs

/-!
# An administrator remains

Nobody demotes themselves, but the deletion of one's own account, a deletion
or suspension by an admin, and two admins that demote each other after both
passed the guard may take the last active admin.  An admin remains exactly
as long as each of these statements runs while there is another one.
-/

namespace MarketPlace

open EventLog Interleaving Relational

variable {app : Deployment} {history past : List Event} {event : Event}
  {row : UserRow} {write : Write} {db : Database}

/-! ## Active admins -/

structure UserRow.ActiveAdmin (row : UserRow) : Prop where
  isAdmin : row.isAdmin = true
  active : row.status = .active
  live : row.deletedAt = none

instance (row : UserRow) : Decidable row.ActiveAdmin :=
  decidable_of_iff
    (row.isAdmin = true ∧ row.status = .active ∧ row.deletedAt = none)
    ⟨fun h => ⟨h.1, h.2.1, h.2.2⟩, fun h => ⟨h.isAdmin, h.active, h.live⟩⟩

def Database.HasActiveAdmin (db : Database) : Prop :=
  ∃ row ∈ db.users.rows, row.ActiveAdmin

instance (db : Database) : Decidable db.HasActiveAdmin :=
  inferInstanceAs (Decidable (∃ row ∈ db.users.rows, _))

theorem Database.hasActiveAdmin_iff :
    db.HasActiveAdmin ↔
      ∃ id row, db.users.get id = some row ∧ row.ActiveAdmin := by
  constructor
  · rintro ⟨row, hrow, hadmin⟩
    exact ⟨row.id, row, Table.get_of_mem hrow, hadmin⟩
  · rintro ⟨id, row, hget, hadmin⟩
    exact ⟨row, Table.mem_of_get hget, hadmin⟩

/-! ## Statements that remove an admin -/

/-- The user whom a statement demotes, deletes or suspends. -/
def Write.removes : Write → Option ℕ
  | .demoteAdmin userId _ | .deleteUser userId _ => some userId
  | .updateStatus userId status _ =>
      if status = .active then none else some userId
  | _ => none

def Event.removes : Event → Option ℕ
  | .wrote _ _ write => write.removes
  | _ => none

/-- If the event removes an active admin, there is another one. -/
def Event.LeavesAdmin (event : Event) (past : List Event) : Prop :=
  ∀ userId ∈ event.removes,
    (∃ row ∈ (stored past).users.rows, row.id = userId ∧ row.ActiveAdmin) →
      ∃ other ∈ (stored past).users.rows,
        other.id ≠ userId ∧ other.ActiveAdmin

instance (event : Event) (past : List Event) :
    Decidable (event.LeavesAdmin past) :=
  inferInstanceAs (Decidable (∀ userId ∈ event.removes, _ → _))

theorem Event.wrote_of_removes {userId : ℕ}
    (h : event.removes = some userId) :
    ∃ i now write, event = .wrote i now write ∧
      write.removes = some userId := by
  cases event with
  | wrote i now write => exact ⟨i, now, write, rfl, h⟩
  | _ => contradiction

theorem Write.activeAdmin_onUser (hadmin : row.ActiveAdmin)
    (hother : write.removes ≠ some row.id) :
    (write.onUser row).ActiveAdmin := by
  obtain ⟨hisAdmin, hactive, hlive⟩ := hadmin
  cases write with
  | updateStatus userId status now =>
      simp only [onUser]
      split
      · next hhit =>
          rw [Bool.and_eq_true, decide_eq_true_eq] at hhit
          by_cases hstatus : status = .active
          · exact ⟨hisAdmin, hstatus, hlive⟩
          · simp [removes, hstatus, hhit.1] at hother
      · exact ⟨hisAdmin, hactive, hlive⟩
  | demoteAdmin userId now | deleteUser userId now =>
      have hne : row.id ≠ userId := fun h => hother (congrArg some h.symm)
      simp only [onUser, hne, decide_false, Bool.false_and]
      exact ⟨hisAdmin, hactive, hlive⟩
  | updatePassword =>
      simp only [onUser]
      split <;> exact ⟨hisAdmin, hactive, hlive⟩
  | promoteAdmin =>
      simp only [onUser]
      split
      · exact ⟨rfl, hactive, hlive⟩
      · exact ⟨hisAdmin, hactive, hlive⟩
  | seedAdmin =>
      simp only [onUser]
      split
      · exact ⟨rfl, rfl, hlive⟩
      · exact ⟨hisAdmin, hactive, hlive⟩
  | _ => exact ⟨hisAdmin, hactive, hlive⟩

/-- The user whom a statement removes is no active admin after it, and no other
user changes with it. -/
theorem Write.onUser_of_removes {userId : ℕ}
    (hremoves : write.removes = some userId)
    (hadmin : (write.onUser row).ActiveAdmin) :
    row.id ≠ userId ∧ write.onUser row = row := by
  cases write with
  | demoteAdmin target now =>
      obtain rfl := Option.some.inj hremoves
      simp only [onUser] at hadmin ⊢
      split at hadmin
      · exact absurd hadmin.isAdmin Bool.false_ne_true
      · next hmiss =>
          exact ⟨fun hid => hmiss (by simp [hid, hadmin.live]), if_neg hmiss⟩
  | deleteUser target now =>
      obtain rfl := Option.some.inj hremoves
      simp only [onUser] at hadmin ⊢
      split at hadmin
      · exact absurd hadmin.live (Option.some_ne_none now)
      · next hmiss =>
          exact ⟨fun hid => hmiss (by simp [hid, hadmin.live]), if_neg hmiss⟩
  | updateStatus target status now =>
      obtain ⟨hstatus, htarget⟩ := Option.ite_none_left_eq_some.mp hremoves
      obtain rfl := Option.some.inj htarget
      simp only [onUser] at hadmin ⊢
      split at hadmin
      · exact absurd hadmin.active hstatus
      · next hmiss =>
          exact ⟨fun hid => hmiss (by simp [hid, hadmin.live]), if_neg hmiss⟩
  | _ => contradiction

/-! ## One event -/

/-- While there is an active admin, an event leaves one exactly if it does not
remove the last. -/
theorem Event.Justified.hasActiveAdmin_iff
    (hjustified : event.Justified app past)
    (hadmin : (stored past).HasActiveAdmin) :
    (stored (event :: past)).HasActiveAdmin ↔ event.LeavesAdmin past := by
  constructor
  · intro hafter userId hremoves _
    obtain ⟨i, now, write, rfl, hremoves⟩ := Event.wrote_of_removes hremoves
    obtain ⟨id, row', hget', hadmin'⟩ := Database.hasActiveAdmin_iff.mp hafter
    cases hget : (stored past).users.get id with
    | none =>
        obtain ⟨-, j, at_, hinsert⟩ := hjustified.user_appears hget hget'
        cases hinsert
        contradiction
    | some row =>
        have hstep := hjustified.user_step hget
        obtain rfl := Option.some.inj (hstep.symm.trans hget')
        obtain ⟨hne, hsame⟩ := Write.onUser_of_removes hremoves hadmin'
        rw [Event.onUser, hsame] at hadmin'
        exact ⟨row, Table.mem_of_get hget, hne, hadmin'⟩
  · intro hleaves
    obtain ⟨row, hrow, hactive⟩ := hadmin
    obtain ⟨kept, hkept, hadminKept, hnot⟩ : ∃ kept ∈ (stored past).users.rows,
        kept.ActiveAdmin ∧ event.removes ≠ some kept.id := by
      by_cases hremoves : event.removes = some row.id
      · obtain ⟨other, hother, hne, hadminOther⟩ :=
          hleaves row.id hremoves ⟨row, hrow, rfl, hactive⟩
        refine ⟨other, hother, hadminOther, fun h => hne ?_⟩
        exact Option.some.inj (h.symm.trans hremoves)
      · exact ⟨row, hrow, hactive, hremoves⟩
    have hstep := hjustified.user_step (Table.get_of_mem hkept)
    refine Database.hasActiveAdmin_iff.mpr ⟨kept.id, _, hstep, ?_⟩
    unfold Event.onUser
    split
    · exact Write.activeAdmin_onUser hadminKept hnot
    · exact hadminKept

/-! ## Runs -/

variable {start later : Pool Request Draw World HttpError Response}

/-- Every statement since `start` that removes an active admin ran while there
was another one. -/
def AdminsLeft (start history : List Event) : Prop :=
  Lawful (fun event past => start <:+ past → event.LeavesAdmin past) history

instance (start history : List Event) : Decidable (AdminsLeft start history) :=
  decidableLawful history

/-- There was an active admin at every point since `start`. -/
def AdminRemains (start history : List Event) : Prop :=
  ∀ past, start <:+ past → past <:+ history → (stored past).HasActiveAdmin

theorem LawfulHistory.adminRemains_iff {start : List Event}
    (hlawful : LawfulHistory app history)
    (hadmin : (stored start).HasActiveAdmin) :
    AdminRemains start history ↔ AdminsLeft start history := by
  constructor
  · intro hremains event past hevent hstart
    have hbefore := hremains past hstart hevent.older
    exact ((hlawful.justified hevent).hasActiveAdmin_iff hbefore).mp
      (hremains (event :: past) (hstart.trans (List.suffix_cons _ _)) hevent)
  · intro hleft past hstart hpast
    refine since (fun log => (stored log).HasActiveAdmin) hstart hadmin ?_
    intro event before hevent hsuffix hbefore
    have hhappened := hevent.later hpast
    exact ((hlawful.justified hhappened).hasActiveAdmin_iff hbefore).mpr
      (hleft event before hhappened hsuffix)

theorem Reachable.history_of_reaches (hreach : Reachable app start)
    (hlater : (backend app).Reaches (fun _ _ => True) start later) :
    start.state.history <:+ later.state.history :=
  hlater.further (backend_sound app _) hreach.sound
    (fun w => start.state.history <:+ w.history) (List.suffix_refl _)
    (fun haction _ h => h.trans haction.history)
    fun event w _ h => h.trans (World.surroundings_rely event 0 w).history

theorem Reachable.trans (hreach : Reachable app start)
    (hlater : (backend app).Reaches (fun _ _ => True) start later) :
    Reachable app later := by
  obtain ⟨now, hreach⟩ := hreach
  exact ⟨now, hreach.trans hlater⟩

/-- From a state with an active admin on, one remains in every state exactly if
every demotion, deletion and suspension of an active admin runs while there is
another. -/
theorem admin_remains_iff (hreach : Reachable app start)
    (hlater : (backend app).Reaches (fun _ _ => True) start later)
    (hadmin : start.state.db.HasActiveAdmin) :
    (AdminRemains start.state.history later.state.history ↔
      AdminsLeft start.state.history later.state.history) ∧
    (AdminsLeft start.state.history later.state.history →
      later.state.db.HasActiveAdmin) := by
  have hlawful := (hreach.trans hlater).traced.lawful
  have holder := hreach.history_of_reaches hlater
  have hstart : (stored start.state.history).HasActiveAdmin := by
    rwa [← hreach.traced.stores]
  have hiff := hlawful.adminRemains_iff hstart
  refine ⟨hiff, fun hleft => ?_⟩
  rw [(hreach.trans hlater).traced.stores]
  exact hiff.mpr hleft _ holder (List.suffix_refl _)

/-- Two admins are seeded, and the first logs in. -/
def twoAdmins : List (Move Request Draw Surroundings) :=
  alone 0 (Request.seedAdmin "+201" "secret") 6 ++
    alone 1 (Request.seedAdmin "+202" "secret") 6 ++
    alone 2 (Request.login ⟨"+201", "secret"⟩) 4

/-- The first admin demotes the second. -/
theorem admin_remains_iff_demoted :
    ∃ start later, Reachable (sampleDeployment .console) start ∧
      (backend (sampleDeployment .console)).Reaches (fun _ _ => True) start
        later ∧
      start.state.db.users.rows ≠ later.state.db.users.rows ∧
      later.state.db.HasActiveAdmin := by
  obtain ⟨start, hreach, hcheck⟩ := exists_reachable_of_run
    (show ((backend (sampleDeployment .console)).run twoAdmins
      (Pool.start 0)).any (fun start =>
        decide start.state.db.HasActiveAdmin &&
          ((backend (sampleDeployment .console)).run
            (alone 3 (.demoteAdmin adminToken 2) 6) start).any fun later =>
              decide (start.state.db.users.rows ≠ later.state.db.users.rows) &&
                decide (AdminsLeft start.state.history later.state.history)) =
        true by decide +kernel)
  simp only [Bool.and_eq_true, decide_eq_true_eq] at hcheck
  obtain ⟨hadmin, hrun⟩ := hcheck
  obtain ⟨later, hlater, hcheck⟩ := System.exists_reaches_of_run hrun
  simp only [Bool.and_eq_true, decide_eq_true_eq] at hcheck
  exact ⟨start, later, hreach, hlater, hcheck.1,
    (admin_remains_iff hreach hlater hadmin).2 hcheck.2⟩

/-- The only admin is seeded and logs in. -/
def oneAdmin : List (Move Request Draw Surroundings) :=
  alone 0 (Request.seedAdmin "+201" "secret") 6 ++
    alone 1 (Request.login ⟨"+201", "secret"⟩) 4

/-- The only admin deletes the account. -/
theorem not_always_admin_remains :
    ¬ ∀ (start later : Pool Request Draw World HttpError Response),
      Reachable (sampleDeployment .console) start →
      (backend (sampleDeployment .console)).Reaches (fun _ _ => True) start
        later →
      start.state.db.HasActiveAdmin → later.state.db.HasActiveAdmin := by
  intro halways
  obtain ⟨start, hreach, hcheck⟩ := exists_reachable_of_run
    (show ((backend (sampleDeployment .console)).run oneAdmin
      (Pool.start 0)).any (fun start =>
        decide start.state.db.HasActiveAdmin &&
          ((backend (sampleDeployment .console)).run
            (alone 2 (.deleteMe adminToken) 3) start).any fun later =>
              !decide later.state.db.HasActiveAdmin) = true by decide +kernel)
  simp only [Bool.and_eq_true, decide_eq_true_eq] at hcheck
  obtain ⟨hadmin, hrun⟩ := hcheck
  obtain ⟨later, hlater, hnone⟩ := System.exists_reaches_of_run hrun
  have hremains := halways start later hreach hlater hadmin
  rw [decide_eq_true hremains] at hnone
  contradiction

end MarketPlace
