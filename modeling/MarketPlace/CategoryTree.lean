import MarketPlace.CategoryService
import MarketPlace.KeptInvariants
import MarketPlace.ParentForests

/-!
# The categories are a forest

No constraint forbids a cycle of parents.  It is excluded because a parent
is there when its child is inserted, and stays until the child is gone: every
action keeps this of the committed rows together with those of any one open
transaction.
-/

namespace MarketPlace.Catalog

open Interleaving Relational

variable {lower : String → String} {c : Categories} {i : ℕ}
  {client : Option Client} {row : CategoryRow}

namespace Categories

/-- The committed rows and those of all open transactions. -/
def everything (c : Categories) : List CategoryRow :=
  c.committed.rows ++ c.inserted.map Prod.snd

/-- Ids and names of siblings are unique among all rows, and every parent is
there before its child in what each transaction sees. -/
structure Orderly (lower : String → String) (c : Categories) : Prop where
  ids : (c.everything.map CategoryRow.id).Nodup
  siblings : (c.everything.map (siblingKey lower)).Nodup
  grown : ∀ i, Grown CategoryRow.id CategoryRow.parentId
    (c.committed.rows ++ c.ownRows i)

theorem orderly_initial (lower : String → String) (now : ℕ) :
    (initial now).Orderly lower where
  ids := List.nodup_nil
  siblings := List.nodup_nil
  grown _ := Grown.nil

theorem Orderly.congr {c' : Categories} (h : c.Orderly lower)
    (hcommitted : c'.committed = c.committed)
    (hinserted : c'.inserted = c.inserted) : c'.Orderly lower := by
  refine ⟨?_, ?_, fun i => ?_⟩
  · rw [everything, hcommitted, hinserted]
    exact h.ids
  · rw [everything, hcommitted, hinserted]
    exact h.siblings
  · rw [ownRows, hcommitted, hinserted]
    exact h.grown i

theorem mem_everything (client : Option Client) (i : ℕ)
    {other : CategoryRow} :
    other ∈ c.everything ↔
      other ∈ c.visible client i ∨ other ∈ c.awaited client i := by
  cases client with
  | none => rw [everything, List.mem_append, visible, awaited]
  | some client =>
      simp only [everything, visible, awaited, ownRows, List.mem_append,
        List.mem_map, List.mem_filter, decide_eq_true_eq, ne_eq]
      constructor
      · rintro (hcommitted | ⟨entry, hentry, rfl⟩)
        · exact .inl (.inl hcommitted)
        · by_cases hown : entry.1 = i
          · exact .inl (.inr ⟨entry, ⟨hentry, hown⟩, rfl⟩)
          · exact .inr ⟨entry, ⟨hentry, by simpa using hown⟩, rfl⟩
      · rintro ((hcommitted | ⟨entry, ⟨hentry, -⟩, rfl⟩) |
          ⟨entry, ⟨hentry, -⟩, rfl⟩)
        · exact .inl hcommitted
        · exact .inr ⟨entry, hentry, rfl⟩
        · exact .inr ⟨entry, hentry, rfl⟩

/-! ## Inserting -/

/-- What is checked of a new row before it is inserted. -/
structure Admits (lower : String → String) (client : Option Client) (i : ℕ)
    (row : CategoryRow) (c : Categories) : Prop where
  ids : ∀ other ∈ c.everything, other.id ≠ row.id
  siblings : ∀ other ∈ c.everything,
    siblingKey lower other ≠ siblingKey lower row
  parent : ∀ p, row.parentId = some p →
    ∃ other ∈ c.visible client i, other.id = p

theorem ownRows_concat (entries : List (ℕ × CategoryRow)) (j : ℕ) :
    ({ c with inserted := entries ++ [(i, row)] } : Categories).ownRows j =
      ({ c with inserted := entries } : Categories).ownRows j ++
        if i = j then [row] else [] := by
  simp only [ownRows, List.filter_append, List.map_append,
    List.filter_singleton]
  by_cases hij : i = j
  · simp [hij]
  · simp [hij]

theorem committed_insert_of_free (hfree : c.committed.get row.id = none) :
    (c.committed.insert row).rows = c.committed.rows ++ [row] := by
  rw [Table.rows_insert, if_pos hfree]

theorem Admits.free (h : c.Admits lower client i row) :
    c.committed.get row.id = none := by
  rw [Table.get_eq_none_iff]
  intro hmem
  obtain ⟨other, hother, hid⟩ := List.mem_map.mp hmem
  exact h.ids other (List.mem_append_left _ hother) hid

theorem Admits.perm (h : c.Admits lower client i row) :
    (c.insert client i row).everything.Perm (row :: c.everything) := by
  cases client with
  | none =>
      rw [insert, everything, committed_insert_of_free h.free,
        List.append_assoc]
      exact List.perm_middle
  | some client =>
      rw [insert, everything, List.map_append, ← List.append_assoc]
      exact List.perm_append_singleton _ _

theorem Orderly.insert (h : c.Orderly lower)
    (hadmits : c.Admits lower client i row) :
    (c.insert client i row).Orderly lower := by
  refine ⟨?_, ?_, fun j => ?_⟩
  · refine (hadmits.perm.map _).nodup_iff.mpr (List.nodup_cons.mpr ⟨?_, h.ids⟩)
    intro hmem
    obtain ⟨other, hother, hid⟩ := List.mem_map.mp hmem
    exact hadmits.ids other hother hid
  · refine (hadmits.perm.map _).nodup_iff.mpr
      (List.nodup_cons.mpr ⟨?_, h.siblings⟩)
    intro hmem
    obtain ⟨other, hother, hkey⟩ := List.mem_map.mp hmem
    exact hadmits.siblings other hother hkey
  · cases client with
    | none =>
        rw [Categories.insert, committed_insert_of_free hadmits.free]
        exact (h.grown j).splice ((h.grown j).left.concat hadmits.parent)
    | some client =>
        rw [Categories.insert, ownRows_concat, ← List.append_assoc]
        split
        · next hij =>
            exact (h.grown j).concat (hij ▸ hadmits.parent)
        · rw [List.append_nil]
          exact h.grown j

/-! ## Deleting -/

theorem Orderly.delete (h : c.Orderly lower) {id : ℕ}
    (hinserted : ∀ entry ∈ c.inserted, entry.2.parentId ≠ some id)
    (hcommitted : ∀ other ∈ c.committed.rows, other.parentId ≠ some id) :
    (c.delete id).Orderly lower := by
  have hsublist : (c.delete id).everything.Sublist c.everything :=
    List.Sublist.append List.filter_sublist (List.Sublist.refl _)
  refine ⟨h.ids.sublist (hsublist.map _), h.siblings.sublist (hsublist.map _),
    fun j => ?_⟩
  obtain ⟨hrows, hown⟩ := Grown.append_iff.mp (h.grown j)
  have hkept : ∀ child : CategoryRow, child.parentId ≠ some id →
      ∀ other : CategoryRow, child.parentId = some other.id →
        decide (other.id ≠ id) = true := by
    intro child hchild other hparent
    rw [decide_eq_true_eq]
    exact fun hid => hchild (hid ▸ hparent)
  refine Grown.append_iff.mpr ⟨hrows.filter fun other _ child hchild _ hp =>
    hkept child (hcommitted child hchild) other hp, ?_⟩
  intro earlier row later hsplit p hp
  obtain ⟨other, hother, rfl⟩ := hown earlier row later hsplit p hp
  refine ⟨other, ?_, rfl⟩
  rcases List.mem_append.mp hother with hother | hother
  · have hrow : row ∈ c.ownRows j := by
      rw [show c.ownRows j = _ from hsplit]
      exact List.mem_append_right _ List.mem_cons_self
    obtain ⟨entry, hentry, rfl⟩ := List.mem_map.mp hrow
    exact List.mem_append_left _ (List.mem_filter.mpr ⟨hother,
      hkept entry.2 (hinserted entry (List.mem_of_mem_filter hentry)) other
        hp⟩)
  · exact List.mem_append_right _ hother

/-! ## Transactions -/

theorem ownRows_rollback_self (i : ℕ) (c : Categories) :
    (c.rollback i).ownRows i = [] := by
  rw [ownRows, rollback, List.filter_filter, List.map_eq_nil_iff,
    List.filter_eq_nil_iff]
  simp

theorem ownRows_rollback_of_ne {i j : ℕ} (hne : j ≠ i) (c : Categories) :
    (c.rollback i).ownRows j = c.ownRows j := by
  rw [ownRows, rollback, List.filter_filter, ownRows]
  congr 2
  funext entry
  by_cases hj : entry.1 = j
  · simp [hj, hne]
  · simp [hj]

theorem Orderly.rollback (h : c.Orderly lower) (i : ℕ) :
    (c.rollback i).Orderly lower := by
  have hsublist : (c.rollback i).everything.Sublist c.everything :=
    List.Sublist.append (List.Sublist.refl _) (List.filter_sublist.map _)
  refine ⟨h.ids.sublist (hsublist.map _), h.siblings.sublist (hsublist.map _),
    fun j => ?_⟩
  by_cases hij : j = i
  · rw [hij, ownRows_rollback_self, List.append_nil]
    exact (h.grown i).left
  · rw [ownRows_rollback_of_ne hij]
    exact h.grown j

theorem committed_commit (h : c.Orderly lower) (i : ℕ) :
    (c.commit i).committed.rows = c.committed.rows ++ c.ownRows i := by
  have hsublist : (c.ownRows i).Sublist (c.inserted.map Prod.snd) :=
    List.filter_sublist.map _
  have hids := h.ids
  rw [everything, List.map_append, List.nodup_append] at hids
  refine Table.rows_insertAll_of_free (fun row hrow => ?_)
    (hids.2.1.sublist (hsublist.map _))
  rw [Table.get_eq_none_iff]
  intro hmem
  exact hids.2.2 _ hmem _ (List.mem_map_of_mem (hsublist.subset hrow)) rfl

theorem perm_commit (h : c.Orderly lower) (i : ℕ) :
    (c.commit i).everything.Perm c.everything := by
  rw [everything, committed_commit h, List.append_assoc]
  refine List.Perm.append_left _ ?_
  rw [ownRows, commit, ← List.map_append]
  refine List.Perm.map _ ?_
  simpa using List.filter_append_perm (fun entry => entry.1 = i) c.inserted

theorem Orderly.commit (h : c.Orderly lower) (i : ℕ) :
    (c.commit i).Orderly lower := by
  refine ⟨((perm_commit h i).map _).nodup_iff.mpr h.ids,
    ((perm_commit h i).map _).nodup_iff.mpr h.siblings, fun j => ?_⟩
  have hown : (c.commit i).ownRows j = (c.rollback i).ownRows j := rfl
  rw [committed_commit h, hown]
  by_cases hij : j = i
  · rw [hij, ownRows_rollback_self, List.append_nil]
    exact h.grown i
  · rw [ownRows_rollback_of_ne hij]
    exact (h.grown j).splice (h.grown i)

end Categories

/-! ## Every action keeps the order -/

section Keeps

variable {β : Type}

theorem keeps_attempt
    {action : ℕ → Categories → Option (Except Fault β × Categories)}
    (h : ∀ i c result c', c.Orderly lower → action i c = some (result, c') →
      c'.Orderly lower) :
    (attempt action).Keeps (Categories.Orderly lower) := by
  refine ⟨fun i fails c result c' hc haction => ?_, fun outcome => ?_⟩
  · cases fails with
    | true =>
        obtain ⟨-, rfl⟩ := Prod.mk.inj (Option.some.inj haction)
        exact hc
    | false => exact h i c result c' hc haction
  · cases outcome with
    | ok value => exact Program.keeps_done value
    | error fault => exact Program.keeps_failed fault

theorem keeps_select (query : List CategoryRow → β) :
    (select client query).Keeps (Categories.Orderly lower) := by
  refine keeps_attempt fun i c result c' hc haction => ?_
  obtain ⟨-, rfl⟩ := Prod.mk.inj (Option.some.inj haction)
  exact hc

theorem keeps_newRow (name : String) (parentId : Option ℕ) :
    (newRow client name parentId).Keeps (Categories.Orderly lower) := by
  refine keeps_attempt fun i c result c' hc haction => ?_
  obtain ⟨-, rfl⟩ := Prod.mk.inj (Option.some.inj haction)
  exact hc.congr rfl rfl

/-- A row that is inserted has passed all checks. -/
theorem keeps_insertRow (row : CategoryRow) (onConflict : Except Fault β)
    (inserted : β) :
    (insertRow lower client row onConflict inserted).Keeps
      (Categories.Orderly lower) := by
  refine keeps_attempt fun i c result c' hc haction => ?_
  have hsame : ∀ {outcome : Except Fault β},
      some (outcome, c) = some (result, c') → c'.Orderly lower := by
    intro outcome h
    obtain ⟨-, rfl⟩ := Prod.mk.inj (Option.some.inj h)
    exact hc
  split at haction
  · exact hsame haction
  split at haction
  · contradiction
  next hawaited =>
  split at haction
  · exact hsame haction
  next hids =>
  split at haction
  · exact hsame haction
  next hsiblings =>
  split at haction
  · exact hsame haction
  next hparent =>
  obtain ⟨-, rfl⟩ := Prod.mk.inj (Option.some.inj haction)
  simp only [List.any_eq_true, decide_eq_true_eq, Bool.or_eq_true, not_exists,
    not_and, not_or] at hawaited hids hsiblings
  refine hc.insert ⟨fun other hother => ?_, fun other hother => ?_,
    fun p hp => ?_⟩
  · rcases (Categories.mem_everything client i).mp hother with h | h
    · exact hids other h
    · exact (hawaited other h).1
  · rcases (Categories.mem_everything client i).mp hother with h | h
    · exact hsiblings other h
    · exact (hawaited other h).2
  · rw [hp, Option.any_some, Bool.not_eq_true', Bool.not_eq_false,
      List.any_eq_true] at hparent
    obtain ⟨other, hother, hid⟩ := hparent
    exact ⟨other, hother, of_decide_eq_true hid⟩

theorem keeps_deleteRow (id : ℕ) :
    (deleteRow id).Keeps (Categories.Orderly lower) := by
  refine keeps_attempt fun i c result c' hc haction => ?_
  split at haction
  · obtain ⟨-, rfl⟩ := Prod.mk.inj (Option.some.inj haction)
    exact hc
  split at haction
  · contradiction
  next hinserted =>
  split at haction
  · obtain ⟨-, rfl⟩ := Prod.mk.inj (Option.some.inj haction)
    exact hc
  next hcommitted =>
  obtain ⟨-, rfl⟩ := Prod.mk.inj (Option.some.inj haction)
  simp only [List.any_eq_true, decide_eq_true_eq, not_exists, not_and]
    at hinserted hcommitted
  exact hc.delete hinserted hcommitted

theorem keeps_begin : begin.Keeps (Categories.Orderly lower) := by
  refine keeps_attempt fun i c result c' hc haction => ?_
  obtain ⟨-, rfl⟩ := Prod.mk.inj (Option.some.inj haction)
  exact hc.rollback i

theorem keeps_commit : commit.Keeps (Categories.Orderly lower) := by
  refine keeps_attempt fun i c result c' hc haction => ?_
  obtain ⟨-, rfl⟩ := Prod.mk.inj (Option.some.inj haction)
  exact hc.commit i

theorem keeps_rollback : rollback.Keeps (Categories.Orderly lower) := by
  refine ⟨fun i fails c result c' hc haction => ?_, fun _ => trivial⟩
  obtain ⟨-, rfl⟩ := Prod.mk.inj (Option.some.inj haction)
  exact hc.rollback i

end Keeps

/-! ## Every handler keeps it -/

theorem keeps_createCategory (name : String) (parentId : Option ℕ) :
    (createCategory lower name parentId).Keeps
      (Categories.Orderly lower) := by
  have hinsert : (insertReturning lower name parentId).Keeps
      (Categories.Orderly lower) :=
    (keeps_newRow name parentId).bind fun row => keeps_insertRow row _ _
  have hrest : (tryCatch (insertReturning lower name parentId) fun fault =>
      if fault = .database (some .unique) then
        throw (.exception .conflict
          "A category with that name already exists under the same parent")
      else throw fault).Keeps (Categories.Orderly lower) := by
    refine hinsert.recover fun fault => ?_
    split
    · exact Program.keeps_failed _
    · exact Program.keeps_failed _
  cases parentId with
  | none => exact hrest
  | some parentId =>
      refine (keeps_select _).bind fun parent => ?_
      cases parent with
      | true => exact hrest
      | false => exact Program.keeps_failed _

theorem keeps_deleteCategory (id : ℕ) :
    (deleteCategory id).Keeps (Categories.Orderly lower) := by
  refine Program.Keeps.bind ((keeps_deleteRow id).recover fun fault => ?_)
    fun result => ?_
  · split
    · exact Program.keeps_failed _
    · exact Program.keeps_failed _
  · cases result with
    | none => exact Program.keeps_failed _
    | some row => exact Program.keeps_done row

theorem keeps_upsertCategory (name : String) (parentId : Option ℕ) :
    (upsertCategory lower client name parentId).Keeps
      (Categories.Orderly lower) := by
  refine (keeps_newRow name parentId).bind fun row =>
    (keeps_insertRow row _ _).bind fun inserted => ?_
  cases inserted with
  | some row => exact Program.keeps_done _
  | none =>
      refine (keeps_select _).bind fun existing => ?_
      cases existing with
      | none => exact Program.keeps_failed _
      | some other => exact Program.keeps_done _

theorem keeps_seedChildren (parentId : ℕ) (children : List String)
    (counts : SeedCounts) :
    (seedChildren lower client parentId children counts).Keeps
      (Categories.Orderly lower) := by
  induction children generalizing counts with
  | nil => exact Program.keeps_done counts
  | cons child rest ih =>
      exact (keeps_upsertCategory child (some parentId)).bind fun childResult =>
        ih (counts.count childResult)

theorem keeps_seedNodes (nodes : List CategoryNode) (counts : SeedCounts) :
    (seedNodes lower client nodes counts).Keeps
      (Categories.Orderly lower) := by
  induction nodes generalizing counts with
  | nil => exact Program.keeps_done counts
  | cons parent rest ih =>
      exact (keeps_upsertCategory parent.name none).bind fun parentResult =>
        (keeps_seedChildren parentResult.id parent.children _).bind ih

theorem keeps_runProdSeed :
    (runProdSeed lower).Keeps (Categories.Orderly lower) := by
  refine Program.Keeps.recover ?_ fun fault =>
    keeps_rollback.bind fun _ => Program.keeps_failed fault
  exact keeps_begin.bind fun client => (keeps_seedNodes _ _).bind fun summary =>
    keeps_commit.bind fun _ => Program.keeps_done summary

theorem Request.handler_keeps (request : Request) :
    (request.handler lower).Keeps (Categories.Orderly lower) := by
  cases request with
  | createCategory name parentId =>
      exact (keeps_createCategory name parentId).bind fun row =>
        Program.keeps_done (Response.category row)
  | deleteCategory id =>
      exact (keeps_deleteCategory id).bind fun row =>
        Program.keeps_done (Response.category row)
  | seedCategories =>
      exact (keeps_seedNodes _ _).bind fun counts =>
        Program.keeps_done (Response.seeded counts)
  | runProdSeed =>
      exact keeps_runProdSeed.bind fun counts =>
        Program.keeps_done (Response.seeded counts)

/-! ## Runs -/

variable {now : ℕ} {pool : Pool Request Bool Categories Fault Response}

theorem orderly_of_reaches
    (hreach : (catalog lower).Reaches (fun _ _ => True) (Pool.empty now) pool) :
    pool.state.Orderly lower :=
  (hreach.keeps rfl (Categories.orderly_initial lower now)
    (fun request => request.handler_keeps) fun _ _ h => h.congr rfl rfl).1

/-- In every reachable state following the parents of a category ends at a
root, every parent is there, and siblings whose names differ in letter case
only are the same category. -/
theorem categories_form_forest
    (hreach : (catalog lower).Reaches (fun _ _ => True) (Pool.empty now) pool) :
    (∀ row ∈ pool.state.committed.rows, ∃ n root,
      pool.state.committed.follow CategoryRow.parentId n row = some root ∧
        root.parentId = none) ∧
    (∀ row ∈ pool.state.committed.rows, ∀ p, row.parentId = some p →
      (pool.state.committed.get p).isSome = true) ∧
    (∀ row ∈ pool.state.committed.rows, ∀ other ∈ pool.state.committed.rows,
      row.parentId = other.parentId → lower row.name = lower other.name →
        row = other) := by
  have horderly := orderly_of_reaches hreach
  have hforest := Table.forest_of_grown (horderly.grown 0).left
  refine ⟨hforest.rooted, hforest.parents, ?_⟩
  intro row hrow other hother hparent hname
  refine List.inj_on_of_nodup_map horderly.siblings
    (List.mem_append_left _ hrow) (List.mem_append_left _ hother) ?_
  rw [siblingKey, siblingKey, hparent, hname]

/-- Letters of ASCII in lower case. -/
def sampleLower (text : String) : String :=
  String.ofList (text.toList.map Char.toLower)

/-- The script is at its first two categories while "Toys" is created, and
below it "Puzzles"; then another request tries to delete "Toys". -/
def createsWhileSeeding : List (Move Request Bool ℕ) :=
  [.submit .runProdSeed, .submit (.createCategory "Toys" none),
    .advance 0 false, .advance 0 false, .advance 1 false, .advance 0 false,
    .advance 1 false, .advance 0 false, .advance 0 false,
    .submit (.createCategory "Puzzles" (some 2)),
    .submit (.deleteCategory 2), .advance 2 false, .advance 2 false,
    .advance 2 false, .advance 3 false]

theorem categories_form_forest_sample :
    ∃ (pool : Pool Request Bool Categories Fault Response) (row root : CategoryRow)
      (n : ℕ), (catalog sampleLower).Reaches (fun _ _ => True)
        (Pool.empty 0) pool ∧
      row ∈ pool.state.committed.rows ∧ row.parentId = some 2 ∧
      pool.state.committed.follow CategoryRow.parentId n row = some root ∧
        root.parentId = none := by
  obtain ⟨pool, hreach, hcheck⟩ := System.exists_reaches_of_run
    (show ((catalog sampleLower).run createsWhileSeeding (Pool.empty 0)).any
      (fun pool => pool.state.committed.rows.any fun row =>
        row.parentId = some 2) = true by decide +kernel)
  obtain ⟨row, hrow, hparent⟩ := List.any_eq_true.mp hcheck
  obtain ⟨n, root, hfollow, hroot⟩ := (categories_form_forest hreach).1 row hrow
  exact ⟨pool, row, root, n, hreach, hrow, of_decide_eq_true hparent, hfollow,
    hroot⟩

end MarketPlace.Catalog
