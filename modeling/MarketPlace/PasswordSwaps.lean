import MarketPlace.OwnStatements
import MarketPlace.PasswordSessions

/-!
# Which hash a password change replaces

`changePassword` reads the hash, compares the old password with it and updates
the row, in actions of their own.  The UPDATE does not look at the hash again,
so it replaces what it finds: the hash that was verified, as long as nobody
else sets the password or deletes the account in between.
-/

namespace MarketPlace

open EventLog Interleaving

variable {app : Deployment} {i id : ℕ} {row : UserRow} {history past : List Event}
  {token : Token} {dto : ChangePasswordDto} {acts : List (Acted Draw World)}
  {pool : Pool Request Draw World HttpError Response}

/-! ## Hashes between two states -/

/-- The write sets the row's password or deletes the row. -/
def Write.displacesHash (write : Write) (row : UserRow) : Bool :=
  match write with
  | .updatePassword userId _ whereLive _ =>
      row.id = userId && (!whereLive || row.deletedAt.isNone)
  | .deleteUser userId _ => row.id = userId && row.deletedAt.isNone
  | .seedAdmin phone _ _ => row.phone = phone
  | _ => false

theorem Write.onUser_passwordHash {write : Write}
    (hkept : write.displacesHash row = false) :
    (write.onUser row).passwordHash = row.passwordHash ∧
      (write.onUser row).deletedAt = row.deletedAt := by
  cases write <;> simp only [onUser, displacesHash] at * <;> grind

def Event.DisplacesHash (id : ℕ) (past : List Event) (event : Event) : Prop :=
  ∃ i now write row, event = .wrote i now write ∧
    (stored past).users.get id = some row ∧ write.displacesHash row = true

/-- From `w` to `t` nobody set the password of the user or deleted it. -/
def HashUntouched (id : ℕ) (w t : World) : Prop :=
  ∀ event past, Happened event past t.history → w.history <:+ past →
    ¬ event.DisplacesHash id past

theorem hashUntouched_of_same {w t : World} (hsame : t.history = w.history) :
    HashUntouched id w t := by
  intro event past hevent hsuffix
  have hlonger := List.IsSuffix.length_le hevent
  have hshorter := List.IsSuffix.length_le hsuffix
  rw [hsame, List.length_cons] at hlonger
  omega

theorem LawfulHistory.hash_since (hlawful : LawfulHistory app history)
    (hsuffix : past <:+ history) (hget : (stored past).users.get id = some row)
    (huntouched : ∀ event before, Happened event before history →
      past <:+ before → ¬ event.DisplacesHash id before) :
    ∃ row', (stored history).users.get id = some row' ∧
      row'.passwordHash = row.passwordHash ∧ row'.deletedAt = row.deletedAt := by
  refine since (fun log => ∃ row', (stored log).users.get id = some row' ∧
    row'.passwordHash = row.passwordHash ∧ row'.deletedAt = row.deletedAt)
    hsuffix ⟨row, hget, rfl, rfl⟩ ?_
  rintro event before hevent hbefore ⟨row', hget', hhash, hdeleted⟩
  have hkept := huntouched event before hevent hbefore
  refine ⟨_, (hlawful.justified hevent).user_step hget', ?_⟩
  rw [← hhash, ← hdeleted]
  unfold Event.onUser
  split
  · next j now write =>
      refine Write.onUser_passwordHash ?_
      by_contra hdisplaces
      exact hkept ⟨j, now, write, row', rfl, hget', by simpa using hdisplaces⟩
  · exact ⟨rfl, rfl⟩

theorem liveUserById_eq_some {db : Database} :
    db.liveUserById id = some row ↔
      db.users.get id = some row ∧ row.deletedAt = none := by
  simp [Database.liveUserById, Option.filter_eq_some_iff]

/-- An untouched row shows the same hash later. -/
theorem hash_kept {w t : World} (hw : w.Traced app) (ht : t.Traced app)
    (hsuffix : w.history <:+ t.history)
    (hlive : w.db.liveUserById id = some row)
    (huntouched : HashUntouched id w t) :
    ∃ row', t.db.liveUserById id = some row' ∧
      row'.passwordHash = row.passwordHash := by
  obtain ⟨hget, hdeleted⟩ := liveUserById_eq_some.mp hlive
  rw [hw.stores] at hget
  obtain ⟨row', hget', hhash, hsame⟩ :=
    ht.lawful.hash_since hsuffix hget huntouched
  rw [← ht.stores] at hget'
  exact ⟨row', liveUserById_eq_some.mpr ⟨hget', hsame.trans hdeleted⟩, hhash⟩

/-! ## The actions of a change -/

/-- The hash that the UPDATE replaces is the one that the old password was
compared with. -/
def SwapsHash (app : Deployment) (id : ℕ) (dto : ChangePasswordDto)
    (read update : Acted Draw World) : Prop :=
  ∃ old replaced, read.before.db.liveUserById id = some old ∧
    app.libraries.bcryptCompare dto.oldPassword old.passwordHash = true ∧
    update.before.db.liveUserById id = some replaced ∧
    replaced.passwordHash = old.passwordHash

theorem takes_verifyAsync {secret : String} {value : Unit}
    (h : (verifyAsync token secret).Takes i acts (.done value)) :
    ∃ a, acts = [a] := by
  obtain ⟨a, rfl, -⟩ := takes_attempt h
  exact ⟨a, rfl⟩

theorem takes_jwtAuthGuard {user : AuthUser}
    (h : (jwtAuthGuard app token).Takes i acts (.done user)) :
    ∃ verified looked, acts = [verified, looked] ∧ user.sub = token.sub := by
  obtain ⟨_, _, _, rfl, hverify, hvalidate⟩ := Program.takes_bind h
  obtain ⟨verified, rfl⟩ := takes_verifyAsync hverify
  unfold validate at hvalidate
  split at hvalidate
  · exact absurd hvalidate Program.not_takes_failed
  · obtain ⟨_, _, found, rfl, hlook, hrest⟩ := Program.takes_bind hvalidate
    obtain ⟨looked, rfl, -⟩ := takes_statement hlook
    cases found with
    | none =>
        exact absurd hrest Program.not_takes_failed
    | some row =>
        dsimp only at hrest
        split at hrest
        · exact absurd hrest Program.not_takes_failed
        · obtain ⟨rfl, hvalue⟩ := Program.takes_done.mp hrest
          obtain rfl := Program.done.inj hvalue
          exact ⟨verified, looked, rfl, rfl⟩

theorem takes_changePassword {user : AuthUser} {response : Response}
    (h : (changePassword app user dto).Takes i acts (.done response)) :
    ∃ read hashed update row, acts = [read, hashed, update] ∧
      read.before.db.liveUserById user.sub = some row ∧
      app.libraries.bcryptCompare dto.oldPassword row.passwordHash = true ∧
      update.after = update.before.autocommit i (.updatePassword user.sub
        (app.libraries.bcryptHash dto.newPassword bcryptRounds
          hashed.draw.passwordSalt) true update.before.now) := by
  obtain ⟨_, _, query, rfl, hread, hrest⟩ := Program.takes_bind h
  obtain ⟨read, rfl, hquery, -⟩ := takes_select hread
  cases hlive : read.before.db.liveUserById user.sub with
  | none =>
      rw [hquery, hlive] at hrest
      exact absurd hrest Program.not_takes_failed
  | some row =>
      rw [hquery, hlive, Option.map_some] at hrest
      dsimp only at hrest
      split at hrest
      · exact absurd hrest Program.not_takes_failed
      · next hmatches =>
          obtain ⟨_, _, hash, rfl, hhash, hupdate⟩ := Program.takes_bind hrest
          obtain ⟨hashed, rfl, rfl, -⟩ := takes_draw hhash
          obtain ⟨_, _, _, rfl, hperform, hdone⟩ := Program.takes_bind hupdate
          obtain ⟨update, rfl, hafter⟩ := takes_perform hperform
          obtain ⟨rfl, -⟩ := Program.takes_done.mp hdone
          exact ⟨read, hashed, update, row, rfl, hlive, by simpa using hmatches,
            hafter⟩

/-! ## Changes in a run -/

section Runs

variable {now : ℕ} {moves : List (Move Request Draw Surroundings)}
  {response : Response}

/-- Of the five actions of an answered change, the UPDATE replaces the hash
that was verified at the SELECT. -/
def ChangeSwaps (app : Deployment) (token : Token) (dto : ChangePasswordDto)
    (acts : List (Acted Draw World)) : Prop :=
  ∃ verified looked read hashed update,
    acts = [verified, looked, read, hashed, update] ∧
      SwapsHash app token.sub dto read update

/-- Nobody else sets the password or deletes the account between the SELECT
and the UPDATE. -/
def ChangeUndisturbed (token : Token) (acts : List (Acted Draw World)) : Prop :=
  ∀ verified looked read hashed update,
    acts = [verified, looked, read, hashed, update] →
      HashUntouched token.sub read.before update.before

theorem acts_of_changePassword
    (hrun : (backend app).run moves (Pool.start now) = some pool)
    (hdone : pool.threads[i]? =
      some ⟨.changePassword token dto, .done response⟩) :
    ∃ verified looked read hashed update row,
      (backend app).actionsOf i moves (Pool.start now) =
        [verified, looked, read, hashed, update] ∧
      read.before.db.liveUserById token.sub = some row ∧
      app.libraries.bcryptCompare dto.oldPassword row.passwordHash = true := by
  have htakes := System.takes_of_submitted hrun (Nat.zero_le i) hdone
  obtain ⟨_, _, user, hacts, hguard, hchange⟩ := Program.takes_bind htakes
  obtain ⟨verified, looked, rfl, hsub⟩ := takes_jwtAuthGuard hguard
  obtain ⟨read, hashed, update, row, rfl, hlive, hmatches, -⟩ :=
    takes_changePassword hchange
  exact ⟨verified, looked, read, hashed, update, row, hacts, hsub ▸ hlive,
    hmatches⟩

/-- In every run, an answered change that nobody disturbs between its SELECT
and its UPDATE replaces exactly the hash that it verified. -/
theorem changePassword_swaps
    (hrun : (backend app).run moves (Pool.start now) = some pool)
    (hdone : pool.threads[i]? =
      some ⟨.changePassword token dto, .done response⟩)
    (hundisturbed : ChangeUndisturbed token
      ((backend app).actionsOf i moves (Pool.start now))) :
    ChangeSwaps app token dto
      ((backend app).actionsOf i moves (Pool.start now)) := by
  obtain ⟨verified, looked, read, hashed, update, row, hacts, hlive, hmatches⟩ :=
    acts_of_changePassword hrun hdone
  have hstart := reachable_start app now
  have hread : read.before.Traced app :=
    traced_of_acted hstart hrun (by rw [hacts]; simp)
  have hupdate : update.before.Traced app :=
    traced_of_acted hstart hrun (by rw [hacts]; simp)
  have hselects : read.before.Onward read.after :=
    (backend_leadsOn app).acted hstart hrun (by rw [hacts]; simp)
  have hbetween : read.after.Onward update.before := by
    have hpairs := (backend_leadsOn app).pairwise (i := i) hstart hrun
    rw [hacts] at hpairs
    simp only [List.pairwise_cons, List.mem_cons] at hpairs
    exact hpairs.2.2.1 update (.inr (.inl rfl))
  obtain ⟨replaced, hreplaced, hhash⟩ := hash_kept hread hupdate
    (hselects.trans hbetween).history hlive
    (hundisturbed _ _ _ _ _ hacts)
  exact ⟨verified, looked, read, hashed, update, hacts, row, replaced, hlive,
    hmatches, hreplaced, hhash⟩

end Runs

/-! ## A change that overtakes another one -/

/-- The SELECT and the UPDATE among the actions of a change. -/
def readAndUpdate (acts : List (Acted Draw World)) :
    Option (Acted Draw World × Acted Draw World) :=
  match acts with
  | [_, _, read, _, update] => some (read, update)
  | _ => none

def hashOf (id : ℕ) (w : World) : Option String :=
  (w.db.liveUserById id).map UserRow.passwordHash

/-- Change 2 has looked its user up when change 3 comes and is done, then it
reads the hash of that one, and change 4 replaces its own. -/
def threeChangesMoves : List (Move Request Draw Surroundings) :=
  alone 0 (Request.seedAdmin "+201" "secret") 6 ++
    alone 1 (Request.login ⟨"+201", "secret"⟩) 4 ++
    alone 2 (Request.changePassword adminToken ⟨"other", "renewed"⟩) 2 ++
    alone 3 (Request.changePassword adminToken ⟨"secret", "other"⟩) 5 ++
    List.replicate 3 (Move.advance 2 sampleDraw) ++
    alone 4 (Request.changePassword adminToken ⟨"renewed", "last"⟩) 5

theorem changePassword_swaps_between :
    ∃ pool, (backend (sampleDeployment .console)).run threeChangesMoves
      (Pool.start 0) = some pool ∧
      pool.answers 3 (.changePassword adminToken ⟨"secret", "other"⟩) = true ∧
      pool.answers 4 (.changePassword adminToken ⟨"renewed", "last"⟩) = true ∧
      ChangeSwaps (sampleDeployment .console) adminToken ⟨"other", "renewed"⟩
        ((backend (sampleDeployment .console)).actionsOf 2 threeChangesMoves
          (Pool.start 0)) := by
  obtain ⟨pool, hrun, hanswers⟩ := (Option.any_eq_true _ _).mp
    (show ((backend (sampleDeployment .console)).run threeChangesMoves
      (Pool.start 0)).any (fun pool =>
        pool.answers 2 (.changePassword adminToken ⟨"other", "renewed"⟩) &&
        pool.answers 3 (.changePassword adminToken ⟨"secret", "other"⟩) &&
        pool.answers 4 (.changePassword adminToken ⟨"renewed", "last"⟩)) = true
      by decide +kernel)
  simp only [Bool.and_eq_true] at hanswers
  obtain ⟨⟨hchanged, hbefore⟩, hafter⟩ := hanswers
  obtain ⟨response, hdone⟩ := Pool.done_of_answers hchanged
  refine ⟨pool, hrun, hbefore, hafter, changePassword_swaps hrun hdone ?_⟩
  intro verified looked read hashed update hacts
  have hsame : (readAndUpdate ((backend (sampleDeployment .console)).actionsOf 2
      threeChangesMoves (Pool.start 0))).all (fun pair =>
        decide (pair.2.before.history = pair.1.before.history)) = true := by
    decide +kernel
  rw [hacts] at hsame
  exact hashUntouched_of_same (of_decide_eq_true hsame)

/-- Two changes by the admin, both with the old password: each has read the
hash before either of them updates it. -/
def twoChangesMoves : List (Move Request Draw Surroundings) :=
  alone 0 (Request.seedAdmin "+201" "secret") 6 ++
    alone 1 (Request.login ⟨"+201", "secret"⟩) 4 ++
    alone 2 (Request.changePassword adminToken ⟨"secret", "renewed"⟩) 3 ++
    alone 3 (Request.changePassword adminToken ⟨"secret", "other"⟩) 3 ++
    List.replicate 2 (Move.advance 2 sampleDraw) ++
    List.replicate 2 (Move.advance 3 sampleDraw)

theorem twoChanges_run :
    ((backend (sampleDeployment .console)).run twoChangesMoves
      (Pool.start 0)).any (fun pool =>
        pool.answers 2 (.changePassword adminToken ⟨"secret", "renewed"⟩) &&
        pool.answers 3 (.changePassword adminToken ⟨"secret", "other"⟩)) = true ∧
    (readAndUpdate ((backend (sampleDeployment .console)).actionsOf 3
      twoChangesMoves (Pool.start 0))).all (fun pair =>
        decide (hashOf 1 pair.1.before ≠ hashOf 1 pair.2.before)) = true := by
  decide +kernel

theorem not_changePassword_swaps :
    ¬ ∀ (app : Deployment) (now i : ℕ)
      (moves : List (Move Request Draw Surroundings))
      (pool : Pool Request Draw World HttpError Response) (token : Token)
      (dto : ChangePasswordDto) (response : Response),
      (backend app).run moves (Pool.start now) = some pool →
      pool.threads[i]? = some ⟨.changePassword token dto, .done response⟩ →
      ChangeSwaps app token dto
        ((backend app).actionsOf i moves (Pool.start now)) := by
  intro hclaim
  obtain ⟨hruns, hdiffers⟩ := twoChanges_run
  obtain ⟨pool, hrun, hanswers⟩ := (Option.any_eq_true _ _).mp hruns
  rw [Bool.and_eq_true] at hanswers
  obtain ⟨response, hdone⟩ := Pool.done_of_answers hanswers.2
  obtain ⟨verified, looked, read, hashed, update, hacts, old, replaced, hold, -,
    hreplaced, hhash⟩ := hclaim _ 0 3 _ pool adminToken _ response hrun hdone
  rw [hacts] at hdiffers
  refine of_decide_eq_true hdiffers ?_
  change (read.before.db.liveUserById adminToken.sub).map _ =
    (update.before.db.liveUserById adminToken.sub).map _
  rw [hold, hreplaced, Option.map_some, Option.map_some, hhash]

end MarketPlace
