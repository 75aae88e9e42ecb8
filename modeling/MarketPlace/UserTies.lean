import MarketPlace.LinearizedLogs
import MarketPlace.MarketActions

/-!
# Blocks, favourites and ratings as one object

Five requests write what users say of each other and of products.  However
their statements interleave with each other and with everything else, the data
is what the completed requests leave, one after the other, and each of them
takes effect once.
-/

namespace MarketPlace.Trade

open EventLog Interleaving Relational

/-! ## The object -/

/-- What users say of each other and of products. -/
@[ext] structure Ties where
  favorites : Set (ℕ × ℕ)
  blocks : Set (ℕ × ℕ)
  ratings : ℕ × ℕ → Option ℕ

inductive TieOp where
  | favorite (user productId : ℕ)
  | unfavorite (user productId : ℕ)
  | block (user blockedUserId : ℕ)
  | unblock (user blockedUserId : ℕ)
  | rate (user ratedUserId ratingValue : ℕ)
  deriving DecidableEq, Repr

def Ties.empty : Ties := ⟨∅, ∅, fun _ => none⟩

def TieOp.after (ties : Ties) : TieOp → Ties
  | .favorite user productId =>
      { ties with favorites := insert (user, productId) ties.favorites }
  | .unfavorite user productId =>
      { ties with favorites := ties.favorites \ {(user, productId)} }
  | .block user blockedUserId =>
      { ties with blocks := insert (user, blockedUserId) ties.blocks }
  | .unblock user blockedUserId =>
      { ties with blocks := ties.blocks \ {(user, blockedUserId)} }
  | .rate user ratedUserId ratingValue =>
      { ties with
        ratings :=
          Function.update ties.ratings (user, ratedUserId) (some ratingValue) }

/-- The operation that a request asks for. -/
def Request.tieOp : Request → Option TieOp
  | .addFavorite user productId => some (.favorite user productId)
  | .removeFavorite user productId => some (.unfavorite user productId)
  | .blockUser user blockedUserId => some (.block user blockedUserId)
  | .unblockUser user blockedUserId => some (.unblock user blockedUserId)
  | .rateUser user ratedUserId ratingValue =>
      some (.rate user ratedUserId ratingValue)
  | _ => none

/-! ## The tables as the object -/

def Database.ties (db : Database) : Ties where
  favorites := fun pair => (db.userFavorites.get pair).isSome
  blocks := fun pair => (db.userBlocks.get ⟨pair.1, pair.2⟩).isSome
  ratings := fun pair => (db.userRatings.get pair).map RatingRow.ratingValue

@[simp] theorem Database.mem_favorites (db : Database) (pair : ℕ × ℕ) :
    pair ∈ db.ties.favorites ↔ (db.userFavorites.get pair).isSome = true :=
  Iff.rfl

@[simp] theorem Database.mem_blocks (db : Database) (pair : ℕ × ℕ) :
    pair ∈ db.ties.blocks ↔
      (db.userBlocks.get ⟨pair.1, pair.2⟩).isSome = true :=
  Iff.rfl

theorem Database.ties_empty : Database.empty.ties = .empty := by
  refine Ties.ext (Set.ext fun pair => ?_) (Set.ext fun pair => ?_) rfl
  · simp [empty, Ties.empty]
  · simp [empty, Ties.empty]

/-- The operation that a write is. -/
def Change.tieOp : Change → Option TieOp
  | .insertFavorite row => some (.favorite row.userId row.productId)
  | .deleteFavorite user productId => some (.unfavorite user productId)
  | .insertBlock row => some (.block row.blockerId row.blockedId)
  | .deleteBlock row => some (.unblock row.blockerId row.blockedId)
  | .upsertRating row =>
      some (.rate row.raterId row.ratedUserId row.ratingValue)
  | _ => none

section Tables

variable {ρ κ : Type} [DecidableEq κ] {key : ρ → κ}

theorem isSome_get_insert (table : Table key) (row : ρ) (k : κ) :
    ((table.insert row).get k).isSome = true ↔
      k = key row ∨ (table.get k).isSome = true := by
  rw [Table.get_insert]
  by_cases hkey : key row = k
  · simp [hkey]
  · simp [hkey, Ne.symm hkey]

theorem isSome_get_filter {table : Table key} {p : ρ → Bool} {k : κ} (taken : κ)
    (hp : ∀ row, p row = true ↔ key row ≠ taken) :
    ((table.filter p).get k).isSome = true ↔
      (table.get k).isSome = true ∧ k ≠ taken := by
  rw [Table.get_filter]
  cases hget : table.get k with
  | none => simp
  | some row =>
      have hkey := Table.key_of_get hget
      simp [Option.filter_some, hp, hkey]

end Tables

/-- A rating replaces the one there was, if there was one. -/
theorem ratings_upsert {table : Table RatingRow.key} {row : RatingRow}
    {f : RatingRow → RatingRow} {hkey : ∀ old, (f old).key = old.key}
    (hf : ∀ old, (f old).ratingValue = row.ratingValue) :
    (fun pair => ((table.upsert row f hkey).get pair).map
      RatingRow.ratingValue) =
      Function.update (fun pair => (table.get pair).map RatingRow.ratingValue)
        row.key (some row.ratingValue) := by
  funext pair
  by_cases hpair : pair = row.key
  · rw [hpair, Table.get_upsert_self, Function.update_self]
    cases table.get row.key <;> simp [hf]
  · rw [Table.get_upsert_of_ne (Ne.symm hpair), Function.update_of_ne hpair]

theorem Database.ties_apply (db : Database) (change : Change) :
    (db.apply change).ties = change.tieOp.elim db.ties (TieOp.after db.ties) := by
  cases change with
  | insertFavorite row =>
      refine Ties.ext (Set.ext fun pair => ?_) rfl rfl
      exact isSome_get_insert db.userFavorites row pair
  | deleteFavorite userId productId =>
      refine Ties.ext (Set.ext fun pair => ?_) rfl rfl
      refine isSome_get_filter (userId, productId) fun row => ?_
      simp [FavoriteRow.key, imp_iff_not_or]
  | insertBlock row =>
      refine Ties.ext rfl (Set.ext fun pair => ?_) rfl
      refine (isSome_get_insert db.userBlocks row ⟨pair.1, pair.2⟩).trans ?_
      obtain ⟨blockerId, blockedId⟩ := row
      simp [TieOp.after, Change.tieOp, Prod.ext_iff]
  | deleteBlock row =>
      refine Ties.ext rfl (Set.ext fun pair => ?_) rfl
      refine (isSome_get_filter row fun other => by simp).trans ?_
      obtain ⟨blockerId, blockedId⟩ := row
      simp [TieOp.after, Change.tieOp, Prod.ext_iff]
  | upsertRating row => exact Ties.ext rfl rfl (ratings_upsert fun _ => rfl)
  | _ => rfl

/-! ## The log of the writes -/

/-- The operation of a request's write. -/
def Event.tie : Event → Option (ℕ × TieOp)
  | .wrote actor _ change => change.tieOp.map fun op => (actor, op)
  | _ => none

/-- The requests that have written, with their operations, in the order of the
writes. -/
def tieLog (m : Market) : List (ℕ × TieOp) :=
  m.history.reverse.filterMap Event.tie

theorem tieLog_append {m m' : Market} {new : List Event}
    (hhistory : m'.history = new ++ m.history) :
    tieLog m' = tieLog m ++ new.reverse.filterMap Event.tie := by
  simp [tieLog, hhistory]

theorem tieLog_cons {m m' : Market} {event : Event}
    (hhistory : m'.history = event :: m.history) :
    tieLog m' = tieLog m ++ event.tie.toList := by
  have hlog : tieLog m' = tieLog m ++ [event].reverse.filterMap Event.tie :=
    tieLog_append hhistory
  cases htie : event.tie <;>
    simpa [List.filterMap_cons, htie] using hlog

theorem tieLog_of_tie_eq_none {m m' : Market} {event : Event}
    (hhistory : m'.history = event :: m.history) (htie : event.tie = none) :
    tieLog m' = tieLog m := by
  simp [tieLog_cons hhistory, htie]

/-- Only writes of requests touch the object. -/
def TiesOwned (history : List Event) : Prop :=
  ∀ event ∈ history, ∀ change, event = .elsewhere change → change.tieOp = none

theorem ties_stored {opened : Database} {history : List Event}
    (howned : TiesOwned history) :
    (stored opened history).ties =
      (history.reverse.filterMap Event.tie).foldl
        (fun ties entry => entry.2.after ties) opened.ties := by
  induction history with
  | nil => rfl
  | cons event rest ih =>
      have hrest := ih fun other hother => howned other (.tail _ hother)
      rw [List.reverse_cons, List.filterMap_append, List.foldl_append, ← hrest,
        stored_cons]
      cases event with
      | wrote actor now change =>
          have hties := Database.ties_apply (stored opened rest) change
          cases hop : change.tieOp <;>
            simpa [Event.effect, Event.tie, hop, List.filterMap_cons] using hties
      | elsewhere change =>
          have hop := howned _ List.mem_cons_self change rfl
          have hties := Database.ties_apply (stored opened rest) change
          simpa [Event.effect, Event.tie, hop, List.filterMap_cons] using hties
      | rejected | lost => simp [Event.effect, Event.tie, List.filterMap_cons]

/-! ## What an action appends -/

def ChangeKind.tie : ChangeKind → Bool
  | .insertFavorite | .deleteFavorite | .insertBlock | .deleteBlock
  | .upsertRating => true
  | _ => false

theorem Change.tieOp_eq_none {change : Change}
    (h : change.kind.tie = false ∨ change.transactional = true) :
    change.tieOp = none := by
  cases change <;>
    first
      | rfl
      | simp [Change.kind, ChangeKind.tie, Change.transactional] at h

/-- An action appends events of its own request, for statements that the
request has. -/
theorem Acts.appends {rights : Rights} {i : ℕ} {m m' : Market}
    (hacts : Acts rights i m m') :
    ∃ new, m'.history = new ++ m.history ∧ ∀ event ∈ new,
      event.actor = some i ∧ ∀ change, event.change = some change →
        change.kind ∈ rights.writes ∨ change.transactional = true := by
  rcases hacts with rfl | hstep
  · exact ⟨[], rfl, by simp⟩
  cases hstep with
  | lost change hwrites =>
      exact ⟨[.lost i change], rfl, by simp [Event.actor, Event.change]⟩
  | rejected client change violation hwrites hviolation =>
      exact ⟨[.rejected i change], rfl, by simp [Event.actor, Event.change]⟩
  | wrote actor change huser hwrites halone hunlocked hviolation hoffered =>
      exact ⟨[.wrote i m.now change], rfl,
        by simp [Event.actor, Event.change, hwrites]⟩
  | queued | locked | rolledBack => exact ⟨[], rfl, by simp⟩
  | committed actor huser htransaction =>
      refine ⟨_, flush_eq i m.now (m.store.queue i) m.history, ?_⟩
      intro event hevent
      simp only [List.mem_reverse, List.mem_map] at hevent
      obtain ⟨change, hchange, rfl⟩ := hevent
      refine ⟨rfl, fun other hother => .inr ?_⟩
      obtain rfl := Option.some.inj hother
      exact htransaction.transactional change hchange

theorem Event.tie_actor {event : Event} {entry : ℕ × TieOp}
    (h : event.tie = some entry) : event.actor = some entry.1 := by
  cases event with
  | wrote actor now change =>
      obtain ⟨op, -, rfl⟩ := Option.map_eq_some_iff.mp h
      rfl
  | rejected | lost | elsewhere => contradiction

theorem Event.tie_change {event : Event} {entry : ℕ × TieOp}
    (h : event.tie = some entry) :
    ∃ change, event.change = some change ∧ change.tieOp = some entry.2 := by
  cases event with
  | wrote actor now change =>
      obtain ⟨op, hop, rfl⟩ := Option.map_eq_some_iff.mp h
      exact ⟨change, rfl, hop⟩
  | rejected | lost | elsewhere => contradiction

section Actions

variable {rights : Rights} {i j : ℕ} {m m' : Market}

/-- The others leave a request's part of the log alone. -/
theorem Acts.effectsOf_eq (hacts : Acts rights i m m') (hne : i ≠ j) :
    effectsOf j (tieLog m') = effectsOf j (tieLog m) := by
  obtain ⟨new, hhistory, hnew⟩ := hacts.appends
  rw [tieLog_append hhistory, effectsOf_append, List.append_right_eq_self]
  refine effectsOf_eq_nil fun entry hentry hentry' => hne ?_
  obtain ⟨event, hevent, htie⟩ := List.mem_filterMap.mp hentry
  have hactor := (hnew event (List.mem_reverse.mp hevent)).1
  rw [Event.tie_actor htie, hentry'] at hactor
  exact (Option.some.inj hactor).symm

/-- A request without one of the five statements leaves the log alone. -/
theorem Acts.tieLog_eq (hacts : Acts rights i m m')
    (hrights : ∀ kind ∈ rights.writes, kind.tie = false) :
    tieLog m' = tieLog m := by
  obtain ⟨new, hhistory, hnew⟩ := hacts.appends
  rw [tieLog_append hhistory, List.append_right_eq_self,
    List.filterMap_eq_nil_iff]
  intro event hevent
  by_contra htie
  obtain ⟨entry, hentry⟩ := Option.ne_none_iff_exists'.mp htie
  obtain ⟨change, hchange, hop⟩ := Event.tie_change hentry
  have hkind := (hnew event (List.mem_reverse.mp hevent)).2 change hchange
  rw [Change.tieOp_eq_none (hkind.imp_left (hrights change.kind))] at hop
  contradiction

end Actions

theorem Market.tieLog_surroundings (event : Surroundings) (m : Market) :
    tieLog (m.surroundings event) = tieLog m := by
  cases event with
  | timePasses amount => rfl
  | userRegisters | userDeleted =>
      simp [tieLog, surroundings, writeElsewhere, Event.tie]

/-! ## Outlines -/

/-- The others go on, but not with what this request does. -/
structure TiesRely (i : ℕ) (m m' : Market) : Prop extends Rely i m m' where
  effects : effectsOf i (tieLog m') = effectsOf i (tieLog m)

/-- Request `i` has not written one of the five statements yet. -/
def Untied (i : ℕ) (m : Market) : Prop := effectsOf i (tieLog m) = []

/-- Request `i` has written this and no other one. -/
def Tied (i : ℕ) (op : TieOp) (m : Market) : Prop :=
  effectsOf i (tieLog m) = [op]

section Outlines

variable {app : Deployment} {i : ℕ} {m : Market} {op : TieOp} {β : Type}

/-- The outline of a request that ends with this. -/
abbrev TiesProceed (i : ℕ) (program : Operation β) (post : Market → Prop)
    (m : Market) : Prop :=
  program.Proceeds Market.Sound (TiesRely i) i (Untied i) (fun _ => post) m

theorem select_proceeds (h : Untied i m) {query : Database → β} :
    TiesProceed i (select none query) (Untied i) m :=
  Program.Proceeds.of_keeps (keeps_select none query)
    (fun hrely ht => hrely.effects.trans ht) h

/-- Only a statement that succeeds takes effect. -/
theorem run_proceeds {change : ℕ → Sequences → Change}
    {result : ℕ → Sequences → Database → Database → β}
    (hop : ∀ now ids, (change now ids).tieOp = some op) (h : Untied i m) :
    TiesProceed i (run none change result) (Tied i op) m := by
  refine ⟨h, fun t ht _ d outcome u haction => ?_⟩
  have ht' : Untied i t := ht.effects.trans h
  dsimp only at haction
  split at haction
  · obtain ⟨rfl, rfl⟩ := Prod.mk.inj (Option.some.inj haction)
    have hlog : tieLog (t.record (.lost i (change (t.nowFor none) t.ids))) =
        tieLog t := tieLog_of_tie_eq_none rfl rfl
    exact (congrArg (effectsOf i) hlog).trans ht'
  obtain ⟨-, haction⟩ := Option.ite_none_right_eq_some.mp haction
  split at haction
  · obtain ⟨rfl, rfl⟩ := Prod.mk.inj (Option.some.inj haction)
    have hlog : tieLog ((t.take (change (t.nowFor none) t.ids)).record
        (.rejected i (change (t.nowFor none) t.ids))) = tieLog t :=
      tieLog_of_tie_eq_none rfl rfl
    exact (congrArg (effectsOf i) hlog).trans ht'
  · obtain ⟨rfl, rfl⟩ := Prod.mk.inj (Option.some.inj haction)
    have hlog : tieLog (t.autocommit i (change (t.nowFor none) t.ids)) =
        tieLog t ++ [(i, op)] := by
      have hcons := tieLog_cons (show (t.autocommit i
        (change (t.nowFor none) t.ids)).history = .wrote i t.now _ :: _ from rfl)
      simpa [Event.tie, hop] using hcons
    have hempty : effectsOf i (tieLog t) = [] := ht'
    refine (congrArg (effectsOf i) hlog).trans ?_
    simp [hempty]

theorem perform_proceeds {change : ℕ → Change}
    (hop : ∀ now, (change now).tieOp = some op) (h : Untied i m) :
    TiesProceed i (perform none change) (Tied i op) m := by
  unfold perform execute
  exact run_proceeds (fun now _ => hop now) h

theorem addFavorite_proceeds {user productId : ℕ} (h : Untied i m) :
    TiesProceed i (addFavorite user productId)
      (Tied i (.favorite user productId)) m := by
  refine (select_proceeds h).bind fun product t ht => ?_
  split
  · exact ht
  refine (select_proceeds ht).bind fun blocked u hu => ?_
  split
  · exact hu
  exact (perform_proceeds (fun _ => rfl) hu).bind fun _ _ hv => hv

theorem removeFavorite_proceeds {user productId : ℕ} (h : Untied i m) :
    TiesProceed i (removeFavorite user productId)
      (Tied i (.unfavorite user productId)) m :=
  (perform_proceeds (fun _ => rfl) h).bind fun _ _ ht => ht

theorem blockUser_proceeds {user blockedUserId : ℕ} (h : Untied i m) :
    TiesProceed i (blockUser user blockedUserId)
      (Tied i (.block user blockedUserId)) m := by
  unfold blockUser
  split
  · exact h
  refine (select_proceeds h).bind fun target t ht => ?_
  split
  · exact ht
  exact (perform_proceeds (fun _ => rfl) ht).bind fun _ _ hu => hu

theorem unblockUser_proceeds {user blockedUserId : ℕ} (h : Untied i m) :
    TiesProceed i (unblockUser user blockedUserId)
      (Tied i (.unblock user blockedUserId)) m :=
  (perform_proceeds (fun _ => rfl) h).bind fun _ _ ht => ht

theorem rateUser_proceeds {user ratedUserId ratingValue : ℕ}
    (h : Untied i m) :
    TiesProceed i (rateUser user ratedUserId ratingValue)
      (Tied i (.rate user ratedUserId ratingValue)) m := by
  unfold rateUser assertUserExists
  split
  · exact h
  refine ((select_proceeds h).bind fun found t ht => ?_).bind
    fun _ t (ht : Untied i t) => ?_
  · split
    · exact ht
    · exact ht
  refine Program.Proceeds.recover (run_proceeds (fun _ _ => rfl) ht)
    fun fault u hu => ?_
  obtain ⟨other, hother⟩ :=
    notFoundOnForeignKey_eq_failed (β := RatingRow) "Rated user not found" fault
  rw [hother]
  exact hu

/-- A request without an operation has none of the five statements. -/
theorem Request.writes_tie {request : Request} (h : request.tieOp = none) :
    ∀ kind ∈ request.rights.writes, kind.tie = false := by
  cases request <;>
    first
      | contradiction
      | simp [Request.rights, Request.writes, syncWrites, ChangeKind.tie]

/-- Every request has its operation's effect by the time it has a result. -/
theorem Request.handler_ties (request : Request) (hsound : m.Sound)
    (hfresh : Fresh i m) (h : Untied i m) :
    (request.handler app).Proceeds Market.Sound (TiesRely i) i (Untied i)
      (fun _ t => effectsOf i (tieLog t) = request.tieOp.toList) m := by
  cases hop : request.tieOp with
  | none =>
      refine Program.Proceeds.of_guaranteed
        (request.handler_meets hfresh) (fun hguarantee ht => ?_)
        (fun hrely => hrely.toRely) (fun hrely ht => hrely.effects.trans ht)
        hsound h
      have hsame := hguarantee.2.tieLog_eq (Request.writes_tie hop)
      exact (congrArg (effectsOf i) hsame).trans ht
  | some op =>
      cases request with
      | addFavorite | removeFavorite | blockUser | unblockUser | rateUser =>
          obtain rfl := Option.some.inj hop
          first
            | exact (addFavorite_proceeds h).bind fun _ _ ht => ht
            | exact (removeFavorite_proceeds h).bind fun _ _ ht => ht
            | exact (blockUser_proceeds h).bind fun _ _ ht => ht
            | exact (unblockUser_proceeds h).bind fun _ _ ht => ht
            | exact (rateUser_proceeds h).bind fun _ _ ht => ht
      | _ => contradiction

end Outlines

/-! ## Runs -/

section Runs

variable {app : Deployment} {now : ℕ}
  {pool later : Pool Request Draw Market Fault Response}

theorem tiesOwned_of_reaches
    (hreach : (market app).Reaches (fun _ _ => True) (Pool.opening now) pool) :
    TiesOwned pool.state.history := by
  refine hreach.furtherWithin market_sound onCourse_opening
    (fun m => TiesOwned m.history) (fun _ h => absurd h List.not_mem_nil)
    (fun hacts _ howned => ?_) fun event m _ howned => ?_
  · obtain ⟨new, hhistory, hnew⟩ := hacts.appends
    intro event hevent change hchange
    rw [hhistory, List.mem_append] at hevent
    rcases hevent with hevent | hevent
    · have hactor := (hnew event hevent).1
      rw [hchange] at hactor
      contradiction
    · exact howned event hevent change hchange
  · cases event with
    | timePasses amount => exact howned
    | userRegisters | userDeleted =>
        intro other hother change hchange
        rcases List.mem_cons.mp hother with rfl | hother
        · obtain rfl := Event.elsewhere.inj hchange
          rfl
        · exact howned other hother change hchange

/-- What a move leaves of the log for those that it is not of. -/
theorem tiesRely_of_perform
    (hreach : (market app).Reaches (fun _ _ => True) (Pool.opening now) pool)
    {move : Move Request Draw Surroundings}
    {next : Pool Request Draw Market Fault Response}
    (hperform : (market app).perform move pool = some next) {i : ℕ}
    (hmove : ∀ w, move ≠ .advance i w) :
    TiesRely i pool.state next.state := by
  have hcourse := onCourse_of_reaches hreach
  rcases hcourse.perform_cases hperform with
    hsame | ⟨j, w, thread, hj, -, hacts⟩ | ⟨event, -, henvironment⟩
  · rw [hsame]
    exact ⟨Rely.refl i _, rfl⟩
  · have hne : j ≠ i := fun h => hmove w (h ▸ hj)
    refine ⟨?_, hacts.effectsOf_eq hne⟩
    rcases hacts with hsame | hstep
    · exact hsame ▸ Rely.refl i _
    · exact hstep.rely hne hcourse.invariant
  · rw [henvironment]
    exact ⟨Market.rely_surroundings event i _,
      congrArg (effectsOf i) (Market.tieLog_surroundings event _)⟩

theorem Fresh.untied {i : ℕ} {m : Market} (hfresh : Fresh i m) :
    Untied i m := by
  refine effectsOf_eq_nil fun entry hentry hactor => ?_
  obtain ⟨event, hevent, htie⟩ := List.mem_filterMap.mp hentry
  refine hfresh.2 event (List.mem_reverse.mp hevent) ?_
  rw [Event.tie_actor htie, hactor]

theorem market_takesEffect : (market app).TakesEffect
    (fun pool => (market app).Reaches (fun _ _ => True) (Pool.opening now) pool)
    Market.Sound TiesRely tieLog (fun request _ => request.tieOp)
    (fun _ _ _ _ => True) where
  keeps hreach hperform := hreach.step (fun _ _ => trivial) hperform
  invariant_of hreach := (onCourse_of_reaches hreach).invariant
  others hreach hperform hmove := tiesRely_of_perform hreach hperform hmove
  rely_refl i m := ⟨Rely.refl i m, rfl⟩
  rely_trans h h' := ⟨h.toRely.trans h'.toRely, h'.effects.trans h.effects⟩
  meantime_kept hrely h := hrely.effects.trans h
  post_kept hrely h := ⟨hrely.effects.trans h.1, trivial⟩
  handler_proceeds request hreach := by
    have hcourse := onCourse_of_reaches hreach
    have hfresh := hcourse.fresh _ le_rfl
    exact (request.handler_ties hcourse.invariant hfresh hfresh.untied).mono
      (fun _ h => h) fun _ _ h => ⟨h, trivial⟩

/-- The data is what these requests leave, one after the other: each of them
has a result and an operation, and no other request has both. -/
structure LeftBy (order : List (ℕ × TieOp))
    (pool : Pool Request Draw Market Fault Response) : Prop where
  once : (order.map Prod.fst).Nodup
  completed : ∀ i op, (i, op) ∈ order ↔ ∃ request response,
    pool.threads[i]? = some ⟨request, .done response⟩ ∧
      request.tieOp = some op
  ties : pool.state.db.ties =
    order.foldl (fun ties entry => entry.2.after ties) .empty

theorem leftBy_tieLog
    (hreach : (market app).Reaches (fun _ _ => True) (Pool.opening now) pool) :
    LeftBy (tieLog pool.state) pool := by
  have hlists := market_takesEffect.lists hreach .refl rfl
    fun i hi => ((onCourse_of_reaches hreach).fresh i hi).untied
  refine ⟨hlists.1, hlists.2, ?_⟩
  rw [traced_of_reaches hreach, ties_stored (tiesOwned_of_reaches hreach),
    Database.ties_empty]
  rfl

theorem tieLog_prefix
    (hreach : (market app).Reaches (fun _ _ => True) (Pool.opening now) pool)
    (hlater : (market app).Reaches (fun _ _ => True) pool later) :
    tieLog pool.state <+: tieLog later.state := by
  induction hlater with
  | refl => exact List.prefix_rfl
  | step hbefore _ hperform ih =>
      refine ih.trans ?_
      rcases (onCourse_of_reaches (hreach.trans hbefore)).perform_cases
        hperform with hsame | ⟨i, w, thread, -, -, hacts⟩ |
          ⟨event, -, henvironment⟩
      · rw [hsame]
      · obtain ⟨new, hhistory, -⟩ := hacts.appends
        rw [tieLog_append hhistory]
        exact List.prefix_append _ _
      · have hlog := congrArg tieLog henvironment
        rw [hlog.trans (Market.tieLog_surroundings event _)]

/-- Blocks, favourites and ratings are linearizable: the order of the writes
is one of the completed requests that leaves the data, and requests that
complete later come after those that have completed. -/
theorem ties_linearized
    (hreach : (market app).Reaches (fun _ _ => True) (Pool.opening now) pool) :
    LeftBy (tieLog pool.state) pool ∧
      ∀ later, (market app).Reaches (fun _ _ => True) pool later →
        tieLog pool.state <+: tieLog later.state :=
  ⟨leftBy_tieLog hreach, fun _ hlater => tieLog_prefix hreach hlater⟩

/-- User 1 blocks user 2, and has begun to rate them before. -/
def ratesAndBlocks : List (Move Request Draw Surroundings) :=
  [.environment (.userRegisters "Amina" "+201"),
    .environment (.userRegisters "Basil" "+202"),
    .submit (.rateUser 1 2 5), .advance 0 calmDraw,
    .submit (.blockUser 1 2), .advance 1 calmDraw, .advance 1 calmDraw,
    .advance 0 calmDraw]

/-- The request that came last takes effect first. -/
theorem ties_linearized_blocked :
    ∃ pool, (market sampleApp).Reaches (fun _ _ => True)
        (Pool.opening 0) pool ∧
      tieLog pool.state = [(1, .block 1 2), (0, .rate 1 2 5)] ∧
      LeftBy (tieLog pool.state) pool ∧
      ∀ later, (market sampleApp).Reaches (fun _ _ => True) pool later →
        tieLog pool.state <+: tieLog later.state := by
  obtain ⟨pool, hreach, hcheck⟩ := System.exists_reaches_of_run
    (show ((market sampleApp).run ratesAndBlocks (Pool.opening 0)).any
      (fun pool => tieLog pool.state == [(1, .block 1 2), (0, .rate 1 2 5)]) =
        true by decide +kernel)
  exact ⟨pool, hreach, eq_of_beq hcheck, ties_linearized hreach⟩

end Runs

end MarketPlace.Trade
