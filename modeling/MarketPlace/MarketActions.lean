import MarketPlace.MarketHistories
import MarketPlace.OwnActions

/-!
# The actions of one request in the market

What the statements of a request read and write in a run, wherever the other
requests act in between.
-/

namespace MarketPlace.Trade

open Interleaving Relational

variable {β : Type} {i : ℕ} {value : β} {acts : List (Acted Draw Market)}

/-! ## Single actions -/

theorem takes_attempt
    {action : ℕ → Draw → Market → Option (Except Fault β × Market)}
    (h : (attempt action).Takes i acts (.done value)) :
    ∃ a, acts = [a] ∧ action i a.draw a.before = some (.ok value, a.after) := by
  obtain ⟨a, rest, outcome, rfl, haction, hrest⟩ := Program.takes_atomic rfl h
  cases outcome with
  | ok result =>
      obtain ⟨rfl, hvalue⟩ := Program.takes_done.mp hrest
      obtain rfl := Program.done.inj hvalue
      exact ⟨a, rfl, haction⟩
  | error fault =>
      exact absurd hrest Program.not_takes_failed

theorem takes_map {γ : Type} {program : Operation β} {f : β → γ} {value : γ}
    (h : (program >>= fun result => pure (f result)).Takes i acts
      (.done value)) :
    ∃ result, program.Takes i acts (.done result) ∧ value = f result := by
  obtain ⟨first, _, result, rfl, hfirst, hdone⟩ := Program.takes_bind h
  obtain ⟨rfl, hvalue⟩ := Program.takes_done.mp hdone
  refine ⟨result, ?_, Program.done.inj hvalue⟩
  rw [List.append_nil]
  exact hfirst

/-- A SELECT returns what it finds in the data that it sees. -/
theorem takes_selectOrderedFor {client : Option Client}
    {query : (ℕ → ℕ) → Database → β}
    (h : (selectOrdered client query).Takes i acts (.done value)) :
    ∃ a, acts = [a] ∧
      value = query a.draw.tieRank (a.before.viewFor client i) := by
  obtain ⟨a, rfl, haction⟩ := takes_attempt h
  refine ⟨a, rfl, ?_⟩
  split at haction
  · simp at haction
  · obtain ⟨hvalue, -⟩ := Prod.mk.inj (Option.some.inj haction)
    exact (Except.ok.inj hvalue).symm

theorem takes_selectFor {client : Option Client} {query : Database → β}
    (h : (select client query).Takes i acts (.done value)) :
    ∃ a, acts = [a] ∧ value = query (a.before.viewFor client i) :=
  takes_selectOrderedFor h

theorem takes_selectOrdered {query : (ℕ → ℕ) → Database → β}
    (h : (selectOrdered none query).Takes i acts (.done value)) :
    ∃ a, acts = [a] ∧ value = query a.draw.tieRank a.before.db :=
  takes_selectOrderedFor h

theorem takes_select {query : Database → β}
    (h : (select none query).Takes i acts (.done value)) :
    ∃ a, acts = [a] ∧ value = query a.before.db :=
  takes_selectFor h

/-- What a transaction returns, its callback has returned. -/
theorem takes_withTransaction {callback : Client → Operation β}
    (h : (withTransaction callback).Takes i acts (.done value)) :
    ∃ client front own back, acts = front ++ (own ++ back) ∧
      (callback client).Takes i own (.done value) := by
  rw [withTransaction, Program.tryCatch_eq_recover] at h
  rcases Program.takes_recover h with hdone | ⟨_, _, fault, -, -, hfails⟩
  · obtain ⟨front, _, client, rfl, -, hrest⟩ := Program.takes_bind hdone
    obtain ⟨own, back, result, rfl, hcallback, hends⟩ := Program.takes_bind hrest
    obtain ⟨_, _, _, rfl, -, hreturns⟩ := Program.takes_bind hends
    obtain ⟨-, hvalue⟩ := Program.takes_done.mp hreturns
    obtain rfl := Program.done.inj hvalue
    exact ⟨client, front, own, _, rfl, hcallback⟩
  · obtain ⟨_, _, _, rfl, -, hthrows⟩ := Program.takes_bind hfails
    exact absurd hthrows Program.not_takes_failed

/-- A statement outside of a transaction returns what it reads before and after
its write. -/
theorem takes_run {change : ℕ → Sequences → Change}
    {result : ℕ → Sequences → Database → Database → β}
    (h : (run none change result).Takes i acts (.done value)) :
    ∃ a, acts = [a] ∧ value = result a.before.now a.before.ids a.before.db
      (a.before.db.apply (change a.before.now a.before.ids)) := by
  obtain ⟨a, rfl, haction⟩ := takes_attempt h
  refine ⟨a, rfl, ?_⟩
  dsimp only at haction
  split at haction
  · simp at haction
  obtain ⟨-, haction⟩ := Option.ite_none_right_eq_some.mp haction
  split at haction
  · simp at haction
  · exact (Except.ok.inj (Prod.mk.inj (Option.some.inj haction)).1).symm

/-! ## What the statements keep -/

section Keeps

variable {fact : Market → Prop}

theorem keeps_attempt
    {action : ℕ → Draw → Market → Option (Except Fault β × Market)}
    (haction : ∀ i w m outcome t, fact m →
      action i w m = some (outcome, t) → fact t) :
    (attempt action).Keeps fact := by
  refine ⟨haction, fun outcome => ?_⟩
  cases outcome with
  | ok value => exact Program.keeps_done value
  | error fault => exact Program.keeps_failed fault

theorem keeps_selectOrdered (client : Option Client)
    (query : (ℕ → ℕ) → Database → β) :
    (selectOrdered client query).Keeps fact := by
  refine keeps_attempt fun i w m outcome t hm haction => ?_
  split at haction <;> obtain ⟨-, rfl⟩ := Prod.mk.inj (Option.some.inj haction)
    <;> exact hm

theorem keeps_select (client : Option Client) (query : Database → β) :
    (select client query).Keeps fact :=
  keeps_selectOrdered client fun _ => query

/-- Every write that request `i` has made is of this kind. -/
def OwnWrites (i : ℕ) (ok : Change → Prop) (m : Market) : Prop :=
  ∀ event ∈ m.history, event.actor = some i → ∀ change,
    event.change = some change → ok change

variable {ok : Change → Prop}

theorem OwnWrites.record {m : Market} {event : Event} (h : OwnWrites i ok m)
    (hevent : event.change = none) : OwnWrites i ok (m.record event) := by
  intro other hother hactor change hchange
  rcases List.mem_cons.mp hother with rfl | hold
  · rw [hevent] at hchange
    contradiction
  · exact h other hold hactor change hchange

/-- A statement outside of a transaction whose write is of this kind. -/
theorem keeps_run {change : ℕ → Sequences → Change}
    {result : ℕ → Sequences → Database → Database → β}
    (hok : ∀ now ids, ok (change now ids)) :
    (run none change result).Keeps (OwnWrites i ok) := by
  refine keeps_attempt fun j w m outcome t hm haction => ?_
  dsimp only at haction
  split at haction
  · obtain ⟨-, rfl⟩ := Prod.mk.inj (Option.some.inj haction)
    exact hm.record rfl
  obtain ⟨-, haction⟩ := Option.ite_none_right_eq_some.mp haction
  split at haction
  · obtain ⟨-, rfl⟩ := Prod.mk.inj (Option.some.inj haction)
    exact OwnWrites.record (m := m.take _) hm rfl
  · obtain ⟨-, rfl⟩ := Prod.mk.inj (Option.some.inj haction)
    intro event hevent hactor written hwritten
    rcases List.mem_cons.mp hevent with rfl | hold
    · obtain rfl := Option.some.inj hwritten
      exact hok _ _
    · exact hm event hold hactor written hwritten

theorem keeps_execute {change : ℕ → Change} {returning : Database → β}
    (hok : ∀ now, ok (change now)) :
    (execute none change returning).Keeps (OwnWrites i ok) := by
  unfold execute
  exact keeps_run fun now _ => hok now

theorem keeps_notFoundOnForeignKey (message : String) (fault : Fault) :
    (notFoundOnForeignKey message fault : Operation β).Keeps fact := by
  unfold notFoundOnForeignKey
  split
  · exact Program.keeps_failed _
  · exact Program.keeps_failed _

theorem keeps_tryCatch {program : Operation β} {handler : Fault → Operation β}
    (h : program.Keeps fact) (hhandler : ∀ fault, (handler fault).Keeps fact) :
    (tryCatch program handler).Keeps fact := by
  rw [Program.tryCatch_eq_recover]
  exact h.recover hhandler

end Keeps

/-! ## Runs -/

variable {app : Deployment} {now : ℕ}
  {pool later : Pool Request Draw Market Fault Response}
  {moves : List (Move Request Draw Surroundings)} {a : Acted Draw Market}
  {request : Request} {body : Operation Response}

theorem reaches_run
    (hreach : (market app).Reaches (fun _ _ => True) (Pool.opening now) pool)
    (hrun : (market app).run moves pool = some later) :
    (market app).Reaches (fun _ _ => True) (Pool.opening now) later :=
  hreach.run (fun _ _ _ => trivial) hrun

/-- An action of a request is made in a reachable market, with the request's
rights, and what was there then is there later. -/
theorem acted_of_run
    (hreach : (market app).Reaches (fun _ _ => True) (Pool.opening now) pool)
    (hrun : (market app).run moves pool = some later)
    (hthread : pool.threads[i]? = some ⟨request, body⟩)
    (hmem : a ∈ (market app).actionsOf i moves pool) :
    (∃ middle, (market app).Reaches (fun _ _ => True) (Pool.opening now)
        middle ∧ middle.state = a.before) ∧
      Acts request.rights i a.before a.after ∧
      a.before.db.Grows later.state.db := by
  obtain ⟨front, back, before, after, -, hfront, hbefore, hperform, hafter,
    hback⟩ := System.exists_move_of_acted hrun hmem
  have hreach' := reaches_run hreach hfront
  have hnext := hreach'.step (fun _ _ => trivial) hperform
  obtain ⟨body', hthread', -⟩ := System.takes_of_run hfront hthread
  have hstep : (market app).Reaches (fun _ _ => True) before later :=
    (System.Reaches.refl.step (fun _ _ => trivial) hperform).run
      (fun _ _ _ => trivial) hback
  refine ⟨⟨before, hreach', hbefore⟩, ?_, ?_⟩
  · rcases (onCourse_of_reaches hreach').perform_cases hperform with
      hsame | ⟨j, w, thread, hmove, hj, hacts⟩ | ⟨event, hmove, -⟩
    · rw [← hbefore, ← hafter]
      exact .inl hsame
    · obtain ⟨rfl, -⟩ := Move.advance.inj hmove
      obtain rfl := Option.some.inj (hthread'.symm.trans hj)
      rw [← hbefore, ← hafter]
      exact hacts
    · contradiction
  · rw [← hbefore]
    exact grows_of_reaches hreach' hstep

/-- What all actions of request `i` keep of its writes holds later. -/
theorem ownWrites_of_run {ok : Change → Prop}
    (hreach : (market app).Reaches (fun _ _ => True) (Pool.opening now) pool)
    (hrun : (market app).run moves pool = some later)
    (hpool : OwnWrites i ok pool.state)
    (hacts : Program.ActsKeep (OwnWrites i ok)
      ((market app).actionsOf i moves pool)) :
    OwnWrites i ok later.state := by
  have hothers : ∀ {move : Move Request Draw Surroundings}
      {before after : Pool Request Draw Market Fault Response},
      (market app).Reaches (fun _ _ => True) (Pool.opening now) before →
      (market app).perform move before = some after →
      (∀ w, move ≠ .advance i w) → Rely i before.state after.state := by
    intro move before after hbefore hperform hmove
    have hcourse := onCourse_of_reaches hbefore
    rcases hcourse.perform_cases hperform with
      hsame | ⟨j, w, thread, hj, -, hacted⟩ | ⟨event, -, henvironment⟩
    · exact hsame ▸ Rely.refl i _
    · have hne : j ≠ i := fun h => hmove w (h ▸ hj)
      rcases hacted with hsame | hstep
      · exact hsame ▸ Rely.refl i _
      · exact hstep.rely hne hcourse.invariant
    · exact henvironment ▸ Market.rely_surroundings event i _
  by_contra hlater
  obtain ⟨a, hmem, hbefore, hafter⟩ := System.exists_acted_of_mark
    (I := fun pool => (market app).Reaches (fun _ _ => True)
      (Pool.opening now) pool) (fun m => ¬ OwnWrites i ok m)
    (fun h hperform => h.step (fun _ _ => trivial) hperform)
    (fun hbefore hperform hmove hafter hkept => hafter
      fun event hevent hactor => by
        rcases (hothers hbefore hperform hmove).others event hevent with
          hold | hother
        · exact hkept event hold hactor
        · exact absurd hactor hother)
    hreach hrun (not_not.mpr hpool) hlater
  exact hafter (hacts a hmem (not_not.mp hbefore))

end MarketPlace.Trade
