import MarketPlace.Backend

/-!
# Handlers run alone

What a statement returns, and what it leaves, when nobody else acts.
-/

namespace MarketPlace

open Interleaving

variable {β : Type} {value : β} {i : ℕ} {d : Draw} {w t : World} {token : Token}

theorem returns_attempt
    {action : ℕ → Draw → World → Option (Except HttpError β × World)} :
    (attempt action).Returns i d w value t ↔
      action i d w = some (.ok value, t) := by
  simp only [Program.Returns, attempt, Program.runAlone]
  split
  · next h => simp [h]
  · next result s h =>
      cases result <;> simp [h, Program.runAlone]

theorem returns_statement (hd : d.databaseFails = false)
    {action : ℕ → Draw → World → Option (Except HttpError β × World)} :
    (statement action).Returns i d w value t ↔
      action i d w = some (.ok value, t) := by
  simp [statement, returns_attempt, hd]

theorem databaseAnswers_of_returns
    {action : ℕ → Draw → World → Option (Except HttpError β × World)}
    (hreturns : (statement action).Returns i d w value t) :
    d.databaseFails = false := by
  rw [statement, returns_attempt] at hreturns
  cases hfails : d.databaseFails with
  | false => rfl
  | true => simp [hfails] at hreturns

theorem returns_select (hd : d.databaseFails = false) {query : Database → β} :
    (select none query).Returns i d w value t ↔
      value = query w.db ∧ t = w := by
  rw [select, returns_statement hd]
  simp [World.viewFor, eq_comm]

theorem returns_draw {choose : Draw → β} :
    (draw choose).Returns i d w value t ↔ value = choose d ∧ t = w := by
  simp [draw, Program.Returns, Program.runAlone, eq_comm]

theorem returns_verifyAsync {secret : String} {value : Unit} :
    (verifyAsync token secret).Returns i d w value t ↔
      w.tokenVerifies token secret = true ∧
        t = w.record (.verified i w.now token) := by
  rw [verifyAsync, returns_attempt]
  split
  · next hverifies => simp [hverifies, eq_comm]
  · next hverifies => simp [hverifies]

theorem returns_selectUser (hd : d.databaseFails = false)
    {query : Database → Option UserRow} {value : Option UserRow} :
    (selectUser none query).Returns i d w value t ↔
      value = query w.db ∧
        t = (query w.db).elim w fun row => w.record (.userRead i row) := by
  rw [selectUser, returns_statement hd]
  simp only [World.viewFor]
  cases query w.db <;> simp [eq_comm]

theorem returns_execute (hd : d.databaseFails = false)
    {write : ℕ → Sequences → Write} {returning : Database → Database → β} :
    (execute none write returning).Returns i d w value t ↔
      w.lockable none i (write w.now w.ids) = true ∧
        value = returning w.db (w.autocommit i (write w.now w.ids)).db ∧
        t = w.autocommit i (write w.now w.ids) := by
  rw [execute, returns_statement hd]
  change (if w.lockable none i (write w.now w.ids) = true then _ else _) = _ ↔ _
  split
  · next hlockable =>
      simp only [hlockable, Option.some.injEq, Prod.mk.injEq, Except.ok.injEq,
        true_and, eq_comm]
      rfl
  · next hlockable => simp [hlockable]

/-- The Redis side of a call changes nothing else. -/
def SameButRedis (w t : World) : Prop :=
  t.store = w.store ∧ t.now = w.now ∧ t.ids = w.ids ∧ t.history = w.history

theorem exists_returns_tryRedis (app : Deployment) (i : ℕ) (d : Draw)
    (command : World → Unit × World)
    (hcommand : SameButRedis w (command w).2) :
    ∃ t, SameButRedis w t ∧ ∀ value s,
      (tryRedisSet app (redisCommand app () command)).Returns i d w value s ↔
        t = s := by
  have hself : SameButRedis w w := ⟨rfl, rfl, rfl, rfl⟩
  cases henabled : app.redisEnabled with
  | false =>
      refine ⟨w, hself, fun value s => ?_⟩
      simp [tryRedisSet, henabled]
  | true =>
      cases hfails : d.redisFails with
      | false =>
          refine ⟨(command w).2, hcommand, fun value s => ?_⟩
          simp [tryRedisSet, redisCommand, henabled, Program.Returns,
            Program.runAlone_recover, attempt, Program.runAlone, hfails]
      | true =>
          refine ⟨w, hself, fun value s => ?_⟩
          simp [tryRedisSet, redisCommand, henabled, Program.Returns,
            Program.runAlone_recover, attempt, Program.runAlone, hfails]

end MarketPlace
