import MarketPlace.OtpHistories

/-!
# Account rows along a lawful history

How a write changes one row of users, what every row was inserted by, and what
the writes never take back: a phone stays taken, a deletion stays, and the
token version counts the promotions, demotions and deletions.
-/

namespace MarketPlace

open EventLog Interleaving

variable {app : Deployment} {history past : List Event} {event : Event}
  {i j id : ℕ} {row row' : UserRow}

/-! ## One row under one write -/

/-- What a write makes of a row of users that is already there. -/
def Write.onUser (write : Write) (row : UserRow) : UserRow :=
  match write with
  | .updatePassword userId passwordHash whereLive now =>
      if row.id = userId && (!whereLive || row.deletedAt.isNone) then
        { row with passwordHash := passwordHash, updatedAt := now }
      else row
  | .promoteAdmin userId now =>
      if row.id = userId && row.deletedAt.isNone then
        { row with
          isAdmin := true
          tokenVersion := row.tokenVersion + 1
          updatedAt := now }
      else row
  | .demoteAdmin userId now =>
      if row.id = userId && row.deletedAt.isNone then
        { row with
          isAdmin := false
          tokenVersion := row.tokenVersion + 1
          updatedAt := now }
      else row
  | .updateStatus userId status now =>
      if row.id = userId && row.deletedAt.isNone then
        { row with status := status, updatedAt := now }
      else row
  | .deleteUser userId now =>
      if row.id = userId && row.deletedAt.isNone then
        { row with
          deletedAt := some now
          tokenVersion := row.tokenVersion + 1
          updatedAt := now }
      else row
  | .seedAdmin phone passwordHash now =>
      if row.phone = phone then
        { row with
          passwordHash := passwordHash
          status := .active
          isAdmin := true
          updatedAt := now }
      else row
  | _ => row

/-- The write raises the row's token version. -/
def Write.movesEpoch (write : Write) (row : UserRow) : Bool :=
  match write with
  | .promoteAdmin userId _ | .demoteAdmin userId _ | .deleteUser userId _ =>
      row.id = userId && row.deletedAt.isNone
  | _ => false

namespace Write

variable {write : Write}

@[simp] theorem onUser_id (write : Write) (row : UserRow) :
    (write.onUser row).id = row.id := by
  cases write <;> simp only [onUser] <;> split <;> rfl

@[simp] theorem onUser_phone (write : Write) (row : UserRow) :
    (write.onUser row).phone = row.phone := by
  cases write <;> simp only [onUser] <;> split <;> rfl

@[simp] theorem onUser_name (write : Write) (row : UserRow) :
    (write.onUser row).name = row.name := by
  cases write <;> simp only [onUser] <;> split <;> rfl

theorem onUser_tokenVersion (write : Write) (row : UserRow) :
    (write.onUser row).tokenVersion =
      row.tokenVersion + if write.movesEpoch row then 1 else 0 := by
  cases write <;> simp only [onUser, movesEpoch] <;> grind

theorem onUser_isAdmin (hkept : write.movesEpoch row = false)
    (hadmin : row.isAdmin = true) : (write.onUser row).isAdmin = true := by
  cases write <;> simp only [onUser, movesEpoch] at * <;> grind

theorem onUser_deletedAt (hkept : write.movesEpoch row = false) :
    (write.onUser row).deletedAt = row.deletedAt := by
  cases write <;> simp only [onUser, movesEpoch] at * <;> grind

theorem onUser_of_deleted (hdeleted : row.deletedAt.isSome) :
    (write.onUser row).deletedAt = row.deletedAt := by
  refine onUser_deletedAt ?_
  cases write <;> simp_all [movesEpoch]

end Write

theorem Database.get_apply_users {db : Database} {write : Write}
    (hget : db.users.get id = some row) :
    (db.apply write).users.get id = some (write.onUser row) := by
  cases write with
  | insertUser other =>
      simp only [apply, Write.onUser]
      split
      · exact hget
      · exact Relational.Table.get_insert_of_get hget
  | updatePassword userId passwordHash whereLive now =>
      simp only [apply, updateUser, Relational.Table.get_modify, hget,
        Option.map_some, Write.onUser]
  | promoteAdmin userId now =>
      simp only [apply, updateUser, Relational.Table.get_modify, hget,
        Option.map_some, Write.onUser]
  | demoteAdmin userId now =>
      simp only [apply, updateUser, Relational.Table.get_modify, hget,
        Option.map_some, Write.onUser]
  | updateStatus userId status now =>
      simp only [apply, updateUser, Relational.Table.get_modify, hget,
        Option.map_some, Write.onUser]
  | deleteUser userId now =>
      simp only [apply, updateUser, Relational.Table.get_modify, hget,
        Option.map_some, Write.onUser]
  | seedAdmin phone passwordHash now =>
      simp only [apply, updateUser, Relational.Table.get_modify, hget,
        Option.map_some, Write.onUser, decide_eq_true_eq]
  | _ => exact hget

/-! ## One row under one event -/

def Event.onUser (event : Event) (row : UserRow) : UserRow :=
  match event with
  | .wrote _ _ write => write.onUser row
  | _ => row

/-- The event is a promotion, demotion or deletion that hit the user's row. -/
def Event.MovesEpoch (id : ℕ) (past : List Event) (event : Event) : Prop :=
  ∃ i now write row, event = .wrote i now write ∧
    (stored past).users.get id = some row ∧ write.movesEpoch row = true

@[simp] theorem Event.onUser_id (event : Event) (row : UserRow) :
    (event.onUser row).id = row.id := by
  unfold Event.onUser
  split
  · exact Write.onUser_id _ _
  · rfl

@[simp] theorem Event.onUser_phone (event : Event) (row : UserRow) :
    (event.onUser row).phone = row.phone := by
  unfold Event.onUser
  split
  · exact Write.onUser_phone _ _
  · rfl

theorem Event.Justified.user_step (hjustified : event.Justified app past)
    (hget : (stored past).users.get id = some row) :
    (stored (event :: past)).users.get id = some (event.onUser row) := by
  by_cases hwrote : ∃ i now write, event = .wrote i now write
  · obtain ⟨i, now, write, rfl⟩ := hwrote
    exact Database.get_apply_users hget
  · have hnot : ∀ i now write, event ≠ .wrote i now write :=
      fun i now write heq => hwrote ⟨i, now, write, heq⟩
    rw [stored_cons, (hjustified.frame hnot _).1, hget]
    unfold Event.onUser
    split
    · next i now write => exact absurd rfl (hnot i now write)
    · rfl

theorem Event.onUser_of_not_moves
    (hget : (stored past).users.get id = some row)
    (hnot : ¬ event.MovesEpoch id past) :
    (event.onUser row).tokenVersion = row.tokenVersion ∧
      (row.isAdmin = true → (event.onUser row).isAdmin = true) ∧
      (event.onUser row).deletedAt = row.deletedAt := by
  unfold Event.onUser
  split
  · next i now write =>
      have hkept : write.movesEpoch row = false := by
        by_contra hmoves
        exact hnot ⟨i, now, write, row, rfl, hget, by simpa using hmoves⟩
      refine ⟨?_, Write.onUser_isAdmin hkept, Write.onUser_deletedAt hkept⟩
      rw [Write.onUser_tokenVersion, hkept]
      rfl
  · exact ⟨rfl, fun h => h, rfl⟩

theorem Event.onUser_of_moves
    (hget : (stored past).users.get id = some row)
    (hmoves : event.MovesEpoch id past) :
    (event.onUser row).tokenVersion = row.tokenVersion + 1 := by
  obtain ⟨i, now, write, other, rfl, hother, hmoves⟩ := hmoves
  rw [hget, Option.some.injEq] at hother
  subst hother
  rw [Event.onUser, Write.onUser_tokenVersion, hmoves]
  rfl

/-! ## Where rows come from -/

/-- Only an insertion brings a row in. -/
theorem Database.user_appears {db : Database} {write : Write}
    (hbefore : db.users.get id = none)
    (hafter : (db.apply write).users.get id = some row) :
    row.id = id ∧ write = .insertUser row := by
  cases write with
  | insertUser other =>
      simp only [apply] at hafter
      split at hafter
      · rw [hbefore] at hafter
        contradiction
      · rw [Relational.Table.get_insert, hbefore, Option.none_or] at hafter
        obtain ⟨hid, hafter⟩ := Option.ite_none_right_eq_some.mp hafter
        cases hafter
        exact ⟨hid, rfl⟩
  | updatePassword userId passwordHash whereLive now =>
      simp [apply, updateUser, hbefore] at hafter
  | promoteAdmin userId now => simp [apply, updateUser, hbefore] at hafter
  | demoteAdmin userId now => simp [apply, updateUser, hbefore] at hafter
  | updateStatus userId status now =>
      simp [apply, updateUser, hbefore] at hafter
  | deleteUser userId now => simp [apply, updateUser, hbefore] at hafter
  | seedAdmin phone passwordHash now =>
      simp [apply, updateUser, hbefore] at hafter
  | _ =>
      have hnone : none = some row := hbefore.symm.trans hafter
      contradiction

theorem Event.Justified.user_appears (hjustified : event.Justified app past)
    (hbefore : (stored past).users.get id = none)
    (hafter : (stored (event :: past)).users.get id = some row) :
    row.id = id ∧ ∃ i now, event = .wrote i now (.insertUser row) := by
  by_cases hwrote : ∃ i now write, event = .wrote i now write
  · obtain ⟨i, now, write, rfl⟩ := hwrote
    obtain ⟨hid, rfl⟩ := Database.user_appears hbefore hafter
    exact ⟨hid, i, now, rfl⟩
  · have hnot : ∀ i now write, event ≠ .wrote i now write :=
      fun i now write heq => hwrote ⟨i, now, write, heq⟩
    rw [stored_cons, (hjustified.frame hnot _).1, hbefore] at hafter
    contradiction

/-- The insertion that a stored row goes back to. -/
structure InsertedAs (first : UserRow) (past history : List Event) : Prop where
  happened : ∃ i now, Happened (.wrote i now (.insertUser first)) past history
  absent : (stored past).users.get first.id = none
  stored : ∀ i now, (stored (.wrote i now (.insertUser first) :: past)).users.get
    first.id = some first

theorem InsertedAs.later {first : UserRow} {history' : List Event}
    (h : InsertedAs first past history) (hsuffix : history <:+ history') :
    InsertedAs first past history' := by
  obtain ⟨i, now, hhappened⟩ := h.happened
  exact ⟨⟨i, now, hhappened.later hsuffix⟩, h.absent, h.stored⟩

theorem LawfulHistory.user_inserted (hlawful : LawfulHistory app history)
    (hget : (stored history).users.get id = some row) :
    ∃ first past, InsertedAs first past history ∧ first.id = id ∧
      row.phone = first.phone := by
  induction history generalizing row with
  | nil => cases hget
  | cons event past ih =>
      obtain ⟨hevent, hpast⟩ := lawful_cons.mp hlawful
      cases hbefore : (stored past).users.get id with
      | some other =>
          obtain ⟨first, before, hinserted, hid, hphone⟩ := ih hpast hbefore
          rw [hevent.1.user_step hbefore, Option.some.injEq] at hget
          refine ⟨first, before, hinserted.later (List.suffix_cons _ _), hid,
            ?_⟩
          rw [← hget, Event.onUser_phone]
          exact hphone
      | none =>
          obtain ⟨rfl, i, now, rfl⟩ := hevent.1.user_appears hbefore hget
          exact ⟨row, past, ⟨⟨i, now, happened_self⟩, hbefore, fun _ _ => hget⟩,
            rfl, rfl⟩

/-- The ids of queued insertions grow. -/
theorem LawfulHistory.queued_user_unique {first other : UserRow}
    (hlawful : LawfulHistory app history)
    (hfirst : .queued i (.insertUser first) ∈ history)
    (hother : .queued j (.insertUser other) ∈ history)
    (hid : first.id = other.id) : first = other := by
  obtain ⟨past, hfirst⟩ := exists_happened hfirst
  obtain ⟨past', hother⟩ := exists_happened hother
  obtain ⟨-, now, -, -, -, hfirstFresh⟩ := hlawful.justified hfirst
  obtain ⟨-, now', -, -, -, hotherFresh⟩ := hlawful.justified hother
  rcases hfirst.compare hother with hlt | hlt | ⟨heq, -⟩
  · have h := hfirstFresh j other hlt.mem
    omega
  · have h := hotherFresh i first hlt.mem
    omega
  · simp only [Event.queued.injEq, Write.insertUser.injEq] at heq
    exact heq.2

theorem LawfulHistory.queued_of_wrote_user {now : ℕ} {first : UserRow}
    (hlawful : LawfulHistory app history)
    (hwrote : Happened (.wrote i now (.insertUser first)) past history) :
    .queued i (.insertUser first) ∈ past :=
  (hlawful.justified hwrote).1 rfl

/-! ## What stays -/

theorem userByPhone_isSome_iff {db : Database} {phone : String} :
    (db.userByPhone phone).isSome ↔
      ∃ id row, db.users.get id = some row ∧ row.phone = phone := by
  simp only [Database.userByPhone, List.find?_isSome, decide_eq_true_eq]
  constructor
  · rintro ⟨row, hmem, hphone⟩
    exact ⟨row.id, row, Relational.Table.get_of_mem hmem, hphone⟩
  · rintro ⟨id, row, hget, hphone⟩
    exact ⟨row, Relational.Table.mem_of_get hget, hphone⟩

theorem Database.userByPhone_kept {db : Database} {write : Write}
    {phone : String} (htaken : (db.userByPhone phone).isSome) :
    ((db.apply write).userByPhone phone).isSome := by
  obtain ⟨id, row, hget, hphone⟩ := userByPhone_isSome_iff.mp htaken
  refine userByPhone_isSome_iff.mpr ⟨id, _, Database.get_apply_users hget, ?_⟩
  rw [Write.onUser_phone]
  exact hphone

/-- A phone stays free until somebody inserts it. -/
theorem Database.userByPhone_free {db : Database} {write : Write}
    {phone : String} (hfree : db.userByPhone phone = none)
    (hother : ∀ row, write = .insertUser row → row.phone ≠ phone) :
    (db.apply write).userByPhone phone = none := by
  by_contra htaken
  obtain ⟨id, row, hget, hphone⟩ := userByPhone_isSome_iff.mp
    (Option.isSome_iff_ne_none.mpr htaken)
  cases hbefore : db.users.get id with
  | none =>
      obtain ⟨-, rfl⟩ := Database.user_appears hbefore hget
      exact hother row rfl hphone
  | some before =>
      rw [Database.get_apply_users hbefore, Option.some.injEq] at hget
      subst hget
      rw [Write.onUser_phone] at hphone
      have htaken' := userByPhone_isSome_iff.mpr ⟨id, before, hbefore, hphone⟩
      rw [hfree] at htaken'
      contradiction

theorem LawfulHistory.user_since (hlawful : LawfulHistory app history)
    (hsuffix : past <:+ history)
    (hget : (stored past).users.get id = some row) :
    ∃ row', (stored history).users.get id = some row' ∧
      row'.phone = row.phone ∧
      (row.deletedAt.isSome → row'.deletedAt.isSome) := by
  refine since (fun log => ∃ row', (stored log).users.get id = some row' ∧
    row'.phone = row.phone ∧ (row.deletedAt.isSome → row'.deletedAt.isSome))
    hsuffix ⟨row, hget, rfl, fun h => h⟩ ?_
  rintro event before hevent - ⟨row', hget', hphone, hdeleted⟩
  refine ⟨_, (hlawful.justified hevent).user_step hget', ?_, fun h => ?_⟩
  · rw [Event.onUser_phone]
    exact hphone
  · unfold Event.onUser
    split
    · rw [Write.onUser_of_deleted (hdeleted h)]
      exact hdeleted h
    · exact hdeleted h

/-- A phone that an insertion brought in stays taken. -/
theorem LawfulHistory.phone_taken {now : ℕ} {first : UserRow}
    (hlawful : LawfulHistory app history)
    (hwrote : .wrote i now (.insertUser first) ∈ history) :
    ((stored history).userByPhone first.phone).isSome := by
  obtain ⟨past, hwrote⟩ := exists_happened hwrote
  have hstart : ((stored (.wrote i now (.insertUser first) :: past)).userByPhone
      first.phone).isSome := by
    simp only [stored_cons, Event.effect, Database.apply]
    split
    · next htaken => exact htaken
    · rw [userByPhone_isSome_iff]
      cases hget : (stored past).users.get first.id with
      | none => exact ⟨first.id, first,
          Relational.Table.get_insert_self hget, rfl⟩
      | some row =>
          have hpast := hlawful.before hwrote.older
          obtain ⟨other, before, hinserted, hid, hphone⟩ :=
            hpast.user_inserted hget
          obtain ⟨j, now', hother⟩ := hinserted.happened
          have heq := hpast.queued_user_unique
            (hother.older.subset (hpast.queued_of_wrote_user hother))
            (hlawful.queued_of_wrote_user hwrote) hid
          exact ⟨first.id, row, Relational.Table.get_insert_of_get hget,
            hphone.trans (congrArg UserRow.phone heq)⟩
  obtain ⟨id, row, hget, hphone⟩ := userByPhone_isSome_iff.mp hstart
  obtain ⟨row', hget', hphone', -⟩ := hlawful.user_since hwrote hget
  exact userByPhone_isSome_iff.mpr ⟨id, row', hget', hphone'.trans hphone⟩

end MarketPlace
