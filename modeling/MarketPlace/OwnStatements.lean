import MarketPlace.OwnActions
import MarketPlace.RefreshRotation

/-!
# The statements of one request in a run

What a statement or a draw of a request shows about the states before and after
it, wherever the other requests of the run act in between.
-/

namespace MarketPlace

open Interleaving Relational

variable {β : Type} {app : Deployment} {i : ℕ} {value : β}
  {acts : List (Acted Draw World)}

/-! ## Single actions -/

theorem takes_attempt
    {action : ℕ → Draw → World → Option (Except HttpError β × World)}
    (h : (attempt action).Takes i acts (.done value)) :
    ∃ a, acts = [a] ∧ action i a.draw a.before = some (.ok value, a.after) := by
  obtain ⟨a, rest, outcome, rfl, haction, hrest⟩ := Program.takes_atomic rfl h
  cases outcome with
  | ok result =>
      obtain ⟨rfl, hvalue⟩ := Program.takes_done.mp hrest
      obtain rfl := Program.done.inj hvalue
      exact ⟨a, rfl, haction⟩
  | error error =>
      exact absurd hrest Program.not_takes_failed

theorem takes_statement
    {action : ℕ → Draw → World → Option (Except HttpError β × World)}
    (h : (statement action).Takes i acts (.done value)) :
    ∃ a, acts = [a] ∧ action i a.draw a.before = some (.ok value, a.after) := by
  obtain ⟨a, rfl, haction⟩ := takes_attempt h
  refine ⟨a, rfl, ?_⟩
  cases hfails : a.draw.databaseFails with
  | true =>
      rw [hfails, if_pos rfl, Option.some.injEq, Prod.mk.injEq] at haction
      exact absurd haction.1 (by simp)
  | false => rwa [hfails, if_neg Bool.false_ne_true] at haction

theorem takes_select {query : Database → β}
    (h : (select none query).Takes i acts (.done value)) :
    ∃ a, acts = [a] ∧ value = query a.before.db ∧ a.after = a.before := by
  obtain ⟨a, rfl, haction⟩ := takes_statement h
  obtain ⟨hvalue, hafter⟩ := Prod.mk.inj (Option.some.inj haction)
  exact ⟨a, rfl, (Except.ok.inj hvalue).symm, hafter.symm⟩

theorem takes_draw {choose : Draw → β}
    (h : (draw choose).Takes i acts (.done value)) :
    ∃ a, acts = [a] ∧ value = choose a.draw ∧ a.after = a.before := by
  obtain ⟨a, rest, result, rfl, haction, hrest⟩ := Program.takes_atomic rfl h
  obtain ⟨rfl, hvalue⟩ := Program.takes_done.mp hrest
  obtain rfl := Program.done.inj hvalue
  obtain ⟨rfl, hafter⟩ := Prod.mk.inj (Option.some.inj haction)
  exact ⟨a, rfl, rfl, hafter.symm⟩

theorem takes_perform {write : ℕ → Write} {value : Unit}
    (h : (perform none write).Takes i acts (.done value)) :
    ∃ a, acts = [a] ∧
      a.after = a.before.autocommit i (write a.before.now) := by
  obtain ⟨a, rfl, haction⟩ := takes_statement h
  obtain ⟨-, haction⟩ := Option.ite_none_right_eq_some.mp haction
  exact ⟨a, rfl, (Prod.mk.inj (Option.some.inj haction)).2.symm⟩

/-! ## States along the runs of the backend -/

variable {pool later : Pool Request Draw World HttpError Response}
  {moves : List (Move Request Draw Surroundings)}

theorem Reachable.perform {move : Move Request Draw Surroundings}
    (hreach : Reachable app pool)
    (hperform : (backend app).perform move pool = some later) :
    Reachable app later := by
  obtain ⟨now, hreach⟩ := hreach
  exact ⟨now, hreach.step (fun _ _ => trivial) hperform⟩

/-- No move of the backend takes back what has happened. -/
theorem backend_leadsOn (app : Deployment) :
    (backend app).LeadsOn (Reachable app) World.Onward where
  keeps hreach hperform := hreach.perform hperform
  moves hreach hperform :=
    onward_of_reaches (backend_sound app fun _ _ => True) rfl hreach.sound
      (System.Reaches.refl.step (fun _ _ => trivial) hperform)
  refl := World.Onward.refl
  trans := World.Onward.trans

theorem reachable_start (app : Deployment) (now : ℕ) :
    Reachable app (Pool.start now) := ⟨now, .refl⟩

/-- An action of a reachable run is made in a traced world. -/
theorem traced_of_acted {a : Acted Draw World} (hreach : Reachable app pool)
    (hrun : (backend app).run moves pool = some later)
    (hmem : a ∈ (backend app).actionsOf i moves pool) : a.before.Traced app := by
  obtain ⟨front, back, before, after, -, hfront, hbefore, -⟩ :=
    System.exists_move_of_acted hrun hmem
  exact hbefore ▸ ((backend_leadsOn app).run hreach hfront).1.traced

end MarketPlace
