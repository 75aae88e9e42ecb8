import MarketPlace.MarketSteps

/-!
# What the requests rely on

The invariant between any two actions, what a request relies on the others to
leave alone, and the proof that every step stays within both.
-/

namespace MarketPlace.Trade

open EventLog Interleaving Relational

/-! ## Identity values -/

structure Sequences.Le (ids ids' : Sequences) : Prop where
  files : ids.files ≤ ids'.files
  products : ids.products ≤ ids'.products
  conversations : ids.conversations ≤ ids'.conversations
  messages : ids.messages ≤ ids'.messages

theorem Sequences.Le.refl (ids : Sequences) : ids.Le ids :=
  ⟨le_rfl, le_rfl, le_rfl, le_rfl⟩

theorem Sequences.Le.trans {ids ids' ids'' : Sequences}
    (h : ids.Le ids') (h' : ids'.Le ids'') : ids.Le ids'' :=
  ⟨h.files.trans h'.files, h.products.trans h'.products,
    h.conversations.trans h'.conversations, h.messages.trans h'.messages⟩

theorem Market.le_nextIds (change : Change) (ids : Sequences) :
    ids.Le (Market.nextIds change ids) := by
  cases change <;> constructor <;> simp [Market.nextIds]

/-- Every identity value of the data has been given out. -/
structure Database.Within (ids : Sequences) (db : Database) : Prop where
  files : ∀ id row, db.files.get id = some row → id < ids.files
  products : ∀ id row, db.products.get id = some row → id < ids.products
  conversations : ∀ id row, db.conversations.get id = some row →
    id < ids.conversations
  messages : ∀ id row, db.messages.get id = some row → id < ids.messages

theorem Database.Within.mono {ids ids' : Sequences} {db : Database}
    (h : db.Within ids) (hle : ids.Le ids') : db.Within ids' where
  files id row hrow := (h.files id row hrow).trans_le hle.files
  products id row hrow := (h.products id row hrow).trans_le hle.products
  conversations id row hrow :=
    (h.conversations id row hrow).trans_le hle.conversations
  messages id row hrow := (h.messages id row hrow).trans_le hle.messages

/-- The identity value of an inserted row has been given out. -/
def Change.Numbered (ids : Sequences) : Change → Prop
  | .insertFile row => row.id < ids.files
  | .insertProduct row => row.id < ids.products
  | .insertConversation row => row.id < ids.conversations
  | .insertMessage row => row.id < ids.messages
  | _ => True

theorem lt_of_get_insert {ρ : Type} {key : ρ → ℕ} {table : Table key}
    {row other : ρ} {id bound : ℕ}
    (htable : ∀ id row, table.get id = some row → id < bound)
    (hrow : key row < bound) (hget : (table.insert row).get id = some other) :
    id < bound := by
  rcases Table.get_insert_eq_some hget with hold | ⟨-, rfl, -⟩
  · exact htable id other hold
  · exact hrow

theorem lt_of_get_modify {ρ : Type} {key : ρ → ℕ} {table : Table key}
    {p : ρ → Bool} {f : ρ → ρ} (hkey : ∀ row, key (f row) = key row)
    {other : ρ} {id bound : ℕ}
    (htable : ∀ id row, table.get id = some row → id < bound)
    (hget : (table.modify p f hkey).get id = some other) : id < bound := by
  obtain ⟨row, hrow, -⟩ := Table.get_modify_eq_some hkey hget
  exact htable id row hrow

theorem Database.Within.apply {ids : Sequences} {db : Database}
    {change : Change} (h : db.Within ids) (hnumbered : change.Numbered ids) :
    (db.apply change).Within ids := by
  cases change with
  | insertFile row =>
      exact { h with
        files := fun _ _ hget => lt_of_get_insert h.files hnumbered hget }
  | ownFiles | markUploaded =>
      exact { h with
        files := fun _ _ hget =>
          lt_of_get_modify (by intro; rfl) h.files hget }
  | insertProduct row =>
      exact { h with
        products := fun _ _ hget =>
          lt_of_get_insert h.products hnumbered hget }
  | updateProduct | deleteProduct | updateProductStatus =>
      exact { h with
        products := fun _ _ hget =>
          lt_of_get_modify (by intro; rfl) h.products hget }
  | insertConversation row =>
      exact { h with
        conversations := fun _ _ hget =>
          lt_of_get_insert h.conversations hnumbered hget }
  | setConversationProduct | setLastMessage =>
      exact { h with
        conversations := fun _ _ hget =>
          lt_of_get_modify (by intro; rfl) h.conversations hget }
  | insertMessage row =>
      exact { h with
        messages := fun _ _ hget =>
          lt_of_get_insert h.messages hnumbered hget }
  | markRead =>
      exact { h with
        messages := fun _ _ hget =>
          lt_of_get_modify (by intro; rfl) h.messages hget }
  | _ => exact ⟨h.files, h.products, h.conversations, h.messages⟩

theorem Change.Offered.numbered {user : ℕ} {change : Change} {m : Market}
    (hoffered : change.Offered user m)
    (halone : change.transactional = false) :
    change.Numbered (Market.nextIds change m.ids) := by
  cases change with
  | insertFile row =>
      have hid : row.id = m.ids.files := hoffered
      simp [Numbered, Market.nextIds, hid]
  | insertConversation row =>
      simp [Numbered, Market.nextIds, hoffered.1]
  | insertMessage row =>
      simp [Numbered, Market.nextIds, hoffered.1]
  | insertProduct row => contradiction
  | _ => trivial

/-! ## Images have products -/

def Database.Linked (db : Database) : Prop :=
  ∀ row ∈ db.productImages.rows, (db.products.get row.productId).isSome = true

theorem Database.Grows.product_isSome {db db' : Database}
    (h : db.Grows db') {id : ℕ} (hsome : (db.products.get id).isSome = true) :
    (db'.products.get id).isSome = true := by
  obtain ⟨row, hrow⟩ := Option.isSome_iff_exists.mp hsome
  obtain ⟨row', hrow', -⟩ := h.products id row hrow
  rw [hrow']
  rfl

theorem Database.Linked.apply {db : Database} {change : Change}
    (h : db.Linked)
    (hrows : ∀ rows, change = .insertProductImages rows → ∀ row ∈ rows,
      (db.products.get row.productId).isSome = true) :
    (db.apply change).Linked := by
  have hgrows := db.grows_apply change
  intro row hrow
  apply hgrows.product_isSome
  cases change with
  | deleteProductImages productId =>
      exact h row (List.mem_of_mem_filter hrow)
  | insertProductImages rows =>
      rcases Table.mem_insertAll hrow with hrow | hrow
      · exact h row hrow
      · exact hrows rows rfl row hrow
  | _ => exact h row hrow

/-- A list of writes whose images are all of products that are there. -/
theorem Database.Linked.settle {db : Database} {changes : List Change}
    (h : db.Linked)
    (hrows : ∀ rows, .insertProductImages rows ∈ changes → ∀ row ∈ rows,
      (db.products.get row.productId).isSome = true) :
    (schema.settle changes db).Linked := by
  have hboth := ReadCommitted.Store.settle_preserves schema
    (fun change hchange data (hdata : data.Linked ∧ db.Grows data) =>
      ⟨hdata.1.apply fun rows hchanges row hrow =>
          hdata.2.product_isSome
            (hrows rows (hchanges ▸ hchange) row hrow),
        hdata.2.trans (data.grows_apply change)⟩)
    (show db.Linked ∧ db.Grows db from ⟨h, Database.Grows.refl db⟩)
  exact hboth.1

theorem Database.Within.settle {ids : Sequences} {db : Database}
    {changes : List Change} (h : db.Within ids)
    (hnumbered : ∀ change ∈ changes, change.Numbered ids) :
    (schema.settle changes db).Within ids :=
  ReadCommitted.Store.settle_preserves schema
    (fun change hchange _ (hdata : Database.Within ids _) =>
      hdata.apply (hnumbered change hchange))
    h

/-! ## Transactions keep the invariant -/

section Transactions

variable {user productId : ℕ} {m : Market} {db : Database}
  {changes : List Change}

theorem settle_nil (db : Database) : schema.settle [] db = db := rfl

theorem settle_cons (change : Change) (rest : List Change) (db : Database) :
    schema.settle (change :: rest) db =
      schema.settle rest (db.apply change) := rfl

theorem ImageSync.product_eq (h : ImageSync user productId db changes)
    {rows : List ProductImageRow}
    (hmem : .insertProductImages rows ∈ changes) :
    ∀ row ∈ rows, row.productId = productId := by
  cases h with
  | untouched => exact absurd hmem List.not_mem_nil
  | cleared => simp at hmem
  | replaced rows' now hlinks =>
      simp only [List.mem_cons, reduceCtorEq, Change.insertProductImages.injEq,
        List.not_mem_nil, or_false, false_or] at hmem
      exact hmem ▸ hlinks.product

theorem ImageSync.numbered (h : ImageSync user productId db changes)
    (ids : Sequences) : ∀ change ∈ changes, change.Numbered ids := by
  cases h with
  | untouched => exact fun _ h => absurd h List.not_mem_nil
  | cleared => simp [Change.Numbered]
  | replaced => simp [Change.Numbered]

theorem Database.Linked.sync (hlinked : db.Linked)
    (hproduct : (db.products.get productId).isSome = true)
    (h : ∀ rows, .insertProductImages rows ∈ changes → ∀ row ∈ rows,
      row.productId = productId) :
    (schema.settle changes db).Linked :=
  hlinked.settle fun rows hrows row hrow =>
    (h rows hrows row hrow).symm ▸ hproduct

theorem Database.Owns.isSome (h : db.Owns user productId) :
    (db.products.get productId).isSome = true := by
  obtain ⟨row, hrow, -⟩ := h
  rw [hrow]
  rfl

theorem ProductTransaction.linked (h : ProductTransaction user m changes)
    (hlinked : m.db.Linked) : (schema.settle changes m.db).Linked := by
  cases h with
  | created row sync hfree hid howner hclassified hsync =>
      rw [settle_cons]
      refine (hlinked.apply (by simp)).sync ?_
        fun rows hrows => hsync.product_eq hrows
      simp [Database.apply, Table.get_insert_self hfree]
  | updated productId now patch sync howns hclassified hsync =>
      rw [settle_cons]
      exact (hlinked.apply (by simp)).sync
        ((m.db.grows_apply _).product_isSome howns.isSome)
        fun rows hrows => hsync.product_eq hrows
  | deleted productId now howns =>
      exact hlinked.sync howns.isSome (by simp)
  | statusUpdated productId status now howns =>
      exact hlinked.sync howns.isSome (by simp)

theorem ProductTransaction.numbered (h : ProductTransaction user m changes) :
    ∀ change ∈ changes, change.Numbered m.ids := by
  cases h with
  | created row sync hfree hid howner hclassified hsync =>
      rw [List.forall_mem_cons]
      exact ⟨hid, hsync.numbered m.ids⟩
  | updated productId now patch sync howns hclassified hsync =>
      rw [List.forall_mem_cons]
      exact ⟨trivial, hsync.numbered m.ids⟩
  | deleted => simp [Change.Numbered]
  | statusUpdated => simp [Change.Numbered]

end Transactions

/-! ## The invariant -/

structure Market.Sound (m : Market) : Prop where
  holds : m.store.Holds Change.Needs
  within : m.db.Within m.ids
  linked : m.db.Linked
  traced : m.db = stored m.opened m.history

theorem Market.sound_opening {db : Database} {ids : Sequences} {now : ℕ}
    (hwithin : db.Within ids) (hlinked : db.Linked) :
    (opening db ids now).Sound where
  holds := ReadCommitted.Store.holds_fresh
  within := hwithin
  linked := hlinked
  traced := rfl

theorem Database.within_empty (ids : Sequences) : empty.Within ids := by
  constructor <;> simp [empty]

theorem Database.linked_empty : empty.Linked := by
  intro row hrow
  exact absurd hrow List.not_mem_nil

theorem Step.sound {rights : Rights} {i : ℕ} {m m' : Market}
    (hstep : Step rights i m m') (h : m.Sound) : m'.Sound := by
  cases hstep with
  | lost change hwrites => exact { h with traced := h.traced }
  | rejected client change violation hwrites hviolation =>
      exact { h with
        within := h.within.mono (Market.le_nextIds change m.ids)
        traced := h.traced }
  | wrote actor change huser hwrites halone hunlocked hviolation hoffered =>
      have hwithin := h.within.mono (Market.le_nextIds change m.ids)
      refine ⟨h.holds, hwithin.apply (hoffered.numbered halone),
        h.linked.apply ?_, ?_⟩
      · rintro rows rfl
        contradiction
      · exact congrArg (Database.apply change) h.traced
  | queued change hwrites htransactional havailable hneeded =>
      exact ⟨h.holds.enqueue havailable hneeded,
        h.within.mono (Market.le_nextIds change m.ids), h.linked, h.traced⟩
  | locked locks havailable =>
      exact ⟨h.holds.lock havailable, h.within, h.linked, h.traced⟩
  | rolledBack => exact ⟨h.holds.rollback, h.within, h.linked, h.traced⟩
  | committed actor huser htransaction =>
      refine ⟨h.holds.commit, h.within.settle htransaction.numbered,
        htransaction.linked h.linked, ?_⟩
      rw [Market.commit, stored_flush, ← h.traced]
      rfl

theorem Market.sound_writeElsewhere {change : Change} {m : Market}
    (halone : change.transactional = false)
    (hnumbered : change.Numbered (Market.nextIds change m.ids))
    (h : m.Sound) : (m.writeElsewhere change).Sound where
  holds := h.holds
  within := (h.within.mono (Market.le_nextIds change m.ids)).apply hnumbered
  linked := h.linked.apply fun rows hchange => by
    rw [hchange] at halone
    contradiction
  traced := congrArg (Database.apply change) h.traced

theorem Market.sound_surroundings {event : Surroundings} {m : Market}
    (h : m.Sound) : (m.surroundings event).Sound := by
  cases event with
  | timePasses amount => exact { h with traced := h.traced }
  | userRegisters name phone => exact sound_writeElsewhere rfl trivial h
  | userDeleted userId => exact sound_writeElsewhere rfl trivial h

/-! ## The rely -/

/-- What request `i` relies on the others to leave alone: its queue, its locks
and the products behind them, and what every write keeps. -/
structure Rely (i : ℕ) (m m' : Market) : Prop where
  queue : m'.store.queue i = m.store.queue i
  held : ∀ lock, m.store.holder lock = some i →
    m'.store.holder lock = some i
  product : ∀ productId, m.store.holder (.product productId) = some i →
    m'.db.productState productId = m.db.productState productId
  grows : m.db.Grows m'.db
  ids : m.ids.Le m'.ids
  history : m.history <:+ m'.history
  others : ∀ event ∈ m'.history, event ∈ m.history ∨ event.actor ≠ some i
  opened : m'.opened = m.opened

theorem Rely.refl (i : ℕ) (m : Market) : Rely i m m where
  queue := rfl
  held _ := id
  product _ _ := rfl
  grows := Database.Grows.refl m.db
  ids := Sequences.Le.refl m.ids
  history := List.suffix_refl _
  others _ := .inl
  opened := rfl

theorem Rely.trans {i : ℕ} {m m' m'' : Market}
    (h : Rely i m m') (h' : Rely i m' m'') : Rely i m m'' where
  queue := h'.queue.trans h.queue
  held lock hheld := h'.held lock (h.held lock hheld)
  product productId hheld :=
    (h'.product productId (h.held _ hheld)).trans (h.product productId hheld)
  grows := h.grows.trans h'.grows
  ids := h.ids.trans h'.ids
  history := h.history.trans h'.history
  others event hevent := (h'.others event hevent).elim (h.others event) .inr
  opened := h'.opened.trans h.opened

theorem others_cons {i : ℕ} {event : Event} {history : List Event}
    (hevent : event.actor ≠ some i) :
    ∀ other ∈ event :: history, other ∈ history ∨ other.actor ≠ some i := by
  intro other hother
  rcases List.mem_cons.mp hother with rfl | hother
  · exact .inr hevent
  · exact .inl hother

theorem Step.rely {rights : Rights} {i j : ℕ} {m m' : Market} (hne : i ≠ j)
    (h : m.Sound) (hstep : Step rights i m m') : Rely j m m' := by
  have hsame := Rely.refl j m
  cases hstep with
  | lost change hwrites =>
      exact { hsame with
        history := List.suffix_cons _ _
        others := others_cons (by simp [Event.actor, hne]) }
  | rejected client change violation hwrites hviolation =>
      exact { hsame with
        ids := Market.le_nextIds change m.ids
        history := List.suffix_cons _ _
        others := others_cons (by simp [Event.actor, hne]) }
  | wrote actor change huser hwrites halone hunlocked hviolation hoffered =>
      exact
        { queue := rfl
          held := fun _ => id
          product := fun productId _ =>
            Database.productState_apply_of_untouched
              (by simp [change.products_of_alone halone])
          grows := m.db.grows_apply change
          ids := Market.le_nextIds change m.ids
          history := List.suffix_cons _ _
          others := others_cons (by simp [Event.actor, hne])
          opened := rfl }
  | queued change hwrites htransactional havailable hneeded =>
      exact { hsame with
        queue := ReadCommitted.Store.queue_enqueue_of_ne _ _ _ hne.symm
        held := fun lock hheld =>
          ReadCommitted.Store.holder_lock_of_held havailable hheld
        ids := Market.le_nextIds change m.ids }
  | locked locks havailable =>
      exact { hsame with
        held := fun lock hheld =>
          ReadCommitted.Store.holder_lock_of_held havailable hheld }
  | rolledBack =>
      exact { hsame with
        queue := ReadCommitted.Store.queue_rollback_of_ne _ hne.symm
        held := fun lock hheld =>
          ReadCommitted.Store.holder_rollback_of_held hheld hne.symm }
  | committed actor huser htransaction =>
      refine
        { queue := ReadCommitted.Store.queue_commit_of_ne _ _ hne.symm
          held := fun lock hheld =>
            ReadCommitted.Store.holder_commit_of_held _ hheld hne.symm
          product := fun productId hheld => ?_
          grows := m.db.grows_settle _
          ids := Sequences.Le.refl _
          history := suffix_flush _ _ _ _
          others := fun event hevent => ?_
          opened := rfl }
      · -- The lock that a write of the queue needs would be held by `i` too.
        refine Database.productState_settle_of_untouched
          fun change hchange htouched => hne ?_
        have hi := h.holds i change hchange _ ⟨productId, htouched, rfl⟩
        rw [hheld, Option.some.injEq] at hi
        exact hi.symm
      · simp only [Market.commit, flush_eq, List.mem_append, List.mem_reverse,
          List.mem_map] at hevent
        rcases hevent with ⟨change, -, rfl⟩ | hevent
        · exact .inr (by simp [Event.actor, hne])
        · exact .inl hevent

theorem Market.rely_writeElsewhere {change : Change}
    (halone : change.transactional = false) (i : ℕ) (m : Market) :
    Rely i m (m.writeElsewhere change) where
  queue := rfl
  held _ := id
  product productId _ := Database.productState_apply_of_untouched
    (by simp [change.products_of_alone halone])
  grows := m.db.grows_apply change
  ids := Market.le_nextIds change m.ids
  history := List.suffix_cons _ _
  others := others_cons (by simp [Event.actor])
  opened := rfl

theorem Market.rely_surroundings (event : Surroundings) (i : ℕ) (m : Market) :
    Rely i m (m.surroundings event) := by
  cases event with
  | timePasses amount =>
      exact { Rely.refl i m with history := List.suffix_refl _ }
  | userRegisters name phone => exact rely_writeElsewhere rfl i m
  | userDeleted userId => exact rely_writeElsewhere rfl i m

/-! ## The discipline -/

def discipline : Discipline Market where
  invariant := Market.Sound
  rely := Rely
  guarantee i m m' := m.Sound ∧ ∃ rights, Acts rights i m m'
  rely_refl := Rely.refl
  rely_trans := Rely.trans
  guarantee_rely := by
    rintro i j m m' hne ⟨hsound, rights, rfl | hstep⟩
    · exact Rely.refl j _
    · exact hstep.rely hne hsound
  guarantee_invariant := by
    rintro i m m' ⟨hsound, rights, rfl | hstep⟩ -
    · exact hsound
    · exact hstep.sound hsound

/-- The discipline of a request with the given rights. -/
abbrev acting (rights : Rights) : Discipline Market :=
  discipline.within (Acts rights)

/-- Request `i` has not done anything yet. -/
def Fresh (i : ℕ) (m : Market) : Prop :=
  m.store.queue i = [] ∧ ∀ event ∈ m.history, event.actor ≠ some i

theorem Step.fresh {rights : Rights} {i j : ℕ} {m m' : Market} (hne : i ≠ j)
    (hstep : Step rights i m m') (hfresh : Fresh j m) : Fresh j m' := by
  obtain ⟨hqueue, hhistory⟩ := hfresh
  cases hstep with
  | lost change hwrites =>
      exact ⟨hqueue, List.forall_mem_cons.mpr ⟨by simp [Event.actor, hne],
        hhistory⟩⟩
  | rejected client change violation hwrites hviolation =>
      exact ⟨hqueue, List.forall_mem_cons.mpr ⟨by simp [Event.actor, hne],
        hhistory⟩⟩
  | wrote actor change huser hwrites halone hunlocked hviolation hoffered =>
      exact ⟨hqueue, List.forall_mem_cons.mpr ⟨by simp [Event.actor, hne],
        hhistory⟩⟩
  | queued change hwrites htransactional havailable hneeded =>
      exact ⟨(ReadCommitted.Store.queue_enqueue_of_ne _ _ _ hne.symm).trans
        hqueue, hhistory⟩
  | locked locks havailable => exact ⟨hqueue, hhistory⟩
  | rolledBack =>
      exact ⟨(ReadCommitted.Store.queue_rollback_of_ne _ hne.symm).trans
        hqueue, hhistory⟩
  | committed actor huser htransaction =>
      refine ⟨(ReadCommitted.Store.queue_commit_of_ne _ _ hne.symm).trans
        hqueue, fun event hevent => ?_⟩
      simp only [Market.commit, flush_eq, List.mem_append, List.mem_reverse,
        List.mem_map] at hevent
      rcases hevent with ⟨change, -, rfl⟩ | hevent
      · simp [Event.actor, hne]
      · exact hhistory event hevent

theorem fresh_of_guarantee {i j : ℕ} {m m' : Market} (hne : i ≠ j)
    (hguarantee : discipline.guarantee i m m') (hfresh : Fresh j m) :
    Fresh j m' := by
  obtain ⟨-, rights, rfl | hstep⟩ := hguarantee
  · exact hfresh
  · exact hstep.fresh hne hfresh

/-- What every request relies on holds for one that is not there. -/
theorem Acts.rely {rights : Rights} {i : ℕ} {m m' : Market}
    (hacts : Acts rights i m m') (hsound : m.Sound) : Rely (i + 1) m m' := by
  rcases hacts with rfl | hstep
  · exact Rely.refl _ _
  · exact hstep.rely (Nat.succ_ne_self i).symm hsound

theorem Market.fresh_surroundings {event : Surroundings} {i : ℕ} {m : Market}
    (hfresh : Fresh i m) : Fresh i (m.surroundings event) := by
  obtain ⟨hqueue, hhistory⟩ := hfresh
  cases event with
  | timePasses amount => exact ⟨hqueue, hhistory⟩
  | userRegisters name phone =>
      exact ⟨hqueue, List.forall_mem_cons.mpr ⟨by simp [Event.actor],
        hhistory⟩⟩
  | userDeleted userId =>
      exact ⟨hqueue, List.forall_mem_cons.mpr ⟨by simp [Event.actor],
        hhistory⟩⟩

end MarketPlace.Trade
