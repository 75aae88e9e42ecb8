import MarketPlace.ProductAuthority

/-!
# What the market's history warrants

Every write of the history ran on data that its request had checked, or that
the constraints had.  Facts about the data that such writes keep follow from
the history alone, at every point of it.
-/

namespace MarketPlace.Trade

open EventLog Interleaving Relational

/-- The write that an event made. -/
def Event.change : Event → Option Change
  | .wrote _ _ change | .elsewhere change => some change
  | .rejected _ _ | .lost _ _ => none

theorem Event.effect_of_change {event : Event} {change : Change}
    (h : event.change = some change) (db : Database) :
    event.effect db = db.apply change := by
  cases event with
  | wrote | elsewhere =>
      obtain rfl := Option.some.inj h
      rfl
  | rejected | lost => contradiction

theorem Event.effect_of_change_eq_none {event : Event}
    (h : event.change = none) (db : Database) : event.effect db = db := by
  cases event with
  | wrote | elsewhere => contradiction
  | rejected | lost => rfl

/-- What lawful writes keep is true of the data that a lawful history leads
to. -/
theorem stored_lawful (law : Event → Database → Prop)
    (fact : Database → Prop) {opened : Database} {history : List Event}
    (hlaw : Lawful (fun event past => law event (stored opened past)) history)
    (hstart : fact opened)
    (hstep : ∀ event db change, law event db → event.change = some change →
      fact db → fact (db.apply change)) :
    fact (stored opened history) := by
  refine replay_lawful law fact hlaw hstart fun event db hevent hdb => ?_
  cases hchange : event.change with
  | none => rwa [Event.effect_of_change_eq_none hchange]
  | some change =>
      rw [Event.effect_of_change hchange]
      exact hstep event db change hevent hchange hdb

/-- What is known of a write and the data that it runs on. -/
def Change.Warranted (db : Database) (change : Change) : Prop :=
  match change with
  | .insertUser row => row.deletedAt = none
  | .insertProduct row =>
      row.Classified ∧ db.products.get row.id = none
  | .updateProduct productId patch now =>
      ∀ row, db.products.get productId = some row →
        (row.patched patch now).Classified
  | _ => change.transactional = true ∨ db.violation change = none

def Event.Warranted (db : Database) (event : Event) : Prop :=
  ∀ change, event.change = some change → change.Warranted db

theorem Event.warranted_of_lost (i : ℕ) (change : Change) (db : Database) :
    (Event.lost i change).Warranted db :=
  fun _ h => nomatch h

theorem Event.warranted_of_rejected (i : ℕ) (change : Change) (db : Database) :
    (Event.rejected i change).Warranted db :=
  fun _ h => nomatch h

theorem Event.warranted_of_change {event : Event} {change : Change}
    {db : Database} (hchange : event.change = some change)
    (h : change.Warranted db) : event.Warranted db := by
  intro other hother
  obtain rfl := Option.some.inj (hchange.symm.trans hother)
  exact h

/-- Every event of the history was warranted when it happened. -/
def Warranted (m : Market) : Prop :=
  Lawful (fun event past => event.Warranted (stored m.opened past)) m.history

/-! ## One step -/

theorem Change.warranted_of_alone {db : Database} {user : ℕ}
    {change : Change} {m : Market} (halone : change.transactional = false)
    (hviolation : db.violation change = none)
    (hoffered : change.Offered user m) : change.Warranted db := by
  cases change with
  | insertUser row => exact absurd hoffered id
  | insertProduct | updateProduct => contradiction
  | _ => exact .inr hviolation

theorem ImageSync.warranted {user productId : ℕ} {db : Database}
    {sync : List Change} (h : ImageSync user productId db sync) :
    ∀ change ∈ sync, ∀ data, change.Warranted data := by
  cases h with
  | untouched => exact fun _ h => absurd h List.not_mem_nil
  | cleared => exact List.forall_mem_singleton.mpr fun _ => .inl rfl
  | replaced rows now hlinks =>
      simp only [List.forall_mem_cons]
      exact ⟨fun _ => .inl rfl, fun _ => .inl rfl, fun _ => .inl rfl,
        fun _ h => absurd h List.not_mem_nil⟩

theorem lawful_flush (law : Event → Database → Prop) {opened : Database}
    {i now : ℕ} {changes : List Change} {history : List Event}
    (hchanges : ∀ change ∈ changes, ∀ data, law (.wrote i now change) data)
    (h : Lawful (fun event past => law event (stored opened past)) history) :
    Lawful (fun event past => law event (stored opened past))
      (Market.flush i now changes history) := by
  induction changes generalizing history with
  | nil => exact h
  | cons change rest ih =>
      rw [List.forall_mem_cons] at hchanges
      exact ih hchanges.2 (lawful_cons.mpr ⟨hchanges.1 _, h⟩)

/-- The first statement of a transaction is warranted by the data on which it
commits, and what synchronises images by any. -/
theorem ProductTransaction.warranted {user : ℕ} {m : Market}
    {changes : List Change} (h : ProductTransaction user m changes) :
    ∃ first sync, changes = first :: sync ∧ first.Warranted m.db ∧
      ∀ change ∈ sync, ∀ data, change.Warranted data := by
  cases h with
  | created row sync hfree hid howner hclassified hsync =>
      exact ⟨_, sync, rfl, ⟨hclassified, hfree⟩, hsync.warranted⟩
  | updated productId now patch sync howns hclassified hsync =>
      exact ⟨_, sync, rfl, hclassified, hsync.warranted⟩
  | deleted productId now howns =>
      exact ⟨_, [], rfl, .inl rfl, fun _ h => absurd h List.not_mem_nil⟩
  | statusUpdated productId status now howns =>
      exact ⟨_, [], rfl, .inl rfl, fun _ h => absurd h List.not_mem_nil⟩

theorem Warranted.cons {m m' : Market} {event : Event} (h : Warranted m)
    (hopened : m'.opened = m.opened) (hhistory : m'.history = event :: m.history)
    (hsound : m.Sound) (hevent : event.Warranted m.db) : Warranted m' := by
  rw [Warranted, hopened, hhistory, lawful_cons, ← hsound.traced]
  exact ⟨hevent, h⟩

theorem Acts.warranted {rights : Rights} {i : ℕ} {m m' : Market}
    (hacts : Acts rights i m m') (hsound : m.Sound) (h : Warranted m) :
    Warranted m' := by
  rcases hacts with rfl | hstep
  · exact h
  cases hstep with
  | lost change hwrites =>
      exact h.cons rfl rfl hsound (Event.warranted_of_lost i change m.db)
  | rejected client change violation hwrites hviolation =>
      exact h.cons rfl rfl hsound (Event.warranted_of_rejected i change m.db)
  | wrote actor change huser hwrites halone hunlocked hviolation hoffered =>
      have hwarranted : change.Warranted m.db :=
        Change.warranted_of_alone halone hviolation hoffered
      exact h.cons rfl rfl hsound
        (Event.warranted_of_change rfl
          hwarranted)
  | queued | locked | rolledBack => exact h
  | committed actor huser htransaction =>
      obtain ⟨first, sync, hqueue, hfirst, hsync⟩ := htransaction.warranted
      have hbegun : Lawful
          (fun event past => event.Warranted (stored m.opened past))
          (.wrote i m.now first :: m.history) := by
        rw [lawful_cons, ← hsound.traced]
        exact ⟨Event.warranted_of_change rfl hfirst, h⟩
      have hrest : Lawful
          (fun event past => event.Warranted (stored m.opened past))
          (Market.flush i m.now sync (.wrote i m.now first :: m.history)) :=
        lawful_flush (fun event db => event.Warranted db)
          (fun change hchange data =>
            Event.warranted_of_change rfl (hsync change hchange data)) hbegun
      rw [Warranted, Market.commit, hqueue]
      exact hrest

theorem Market.warranted_surroundings {event : Surroundings} {m : Market}
    (hsound : m.Sound) (h : Warranted m) : Warranted (m.surroundings event) := by
  cases event with
  | timePasses amount => exact h
  | userRegisters name phone =>
      exact h.cons rfl rfl hsound (Event.warranted_of_change rfl rfl)
  | userDeleted userId =>
      exact h.cons rfl rfl hsound (Event.warranted_of_change rfl (.inr rfl))

/-! ## Runs -/

variable {app : Deployment} {now : ℕ}
  {pool later : Pool Request Draw Market Fault Response}

theorem warranted_of_reaches
    (hreach : (market app).Reaches (fun _ _ => True) (Pool.opening now) pool) :
    Warranted pool.state :=
  hreach.furtherWithin market_sound onCourse_opening Warranted lawful_nil
    (fun hacts hsound h => hacts.warranted hsound h)
    fun _ _ hsound h => Market.warranted_surroundings hsound h

theorem opened_of_reaches
    (hreach : (market app).Reaches (fun _ _ => True) (Pool.opening now) pool) :
    pool.state.opened = .empty :=
  hreach.furtherWithin market_sound onCourse_opening
    (fun m => m.opened = .empty) rfl
    (fun hacts hsound h => (hacts.rely hsound).opened.trans h)
    fun event m _ h => (Market.rely_surroundings event 0 m).opened.trans h

theorem traced_of_reaches
    (hreach : (market app).Reaches (fun _ _ => True) (Pool.opening now) pool) :
    pool.state.db = stored .empty pool.state.history := by
  rw [← opened_of_reaches hreach]
  exact (onCourse_of_reaches hreach).invariant.traced

end MarketPlace.Trade
