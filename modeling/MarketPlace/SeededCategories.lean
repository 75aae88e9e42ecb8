import MarketPlace.CategoryTree

/-!
# Seeding once is enough

Seeds and creations of categories may interleave in any way.  As long as
nothing is deleted, a seed that is answered has put the whole taxonomy into the
catalog, where it stays, and a seed that comes later finds everything and
creates nothing.
-/

namespace MarketPlace.Catalog

open Interleaving Relational

variable {lower : String → String} {i : ℕ} {client : Option Client}

/-! ## The taxonomy in the catalog -/

/-- Each of the children has a row below the parent. -/
def ChildrenIn (lower : String → String) (parentId : ℕ)
    (children : List String) (rows : List CategoryRow) : Prop :=
  ∀ child ∈ children, ∃ row ∈ rows,
    siblingKey lower row = (parentId, lower child)

theorem ChildrenIn.mono {parentId : ℕ} {children : List String}
    {rows rows' : List CategoryRow} (h : ChildrenIn lower parentId children rows)
    (hrows : rows ⊆ rows') : ChildrenIn lower parentId children rows' :=
  fun child hchild => (h child hchild).imp fun _ hrow => hrow.imp_left (@hrows _)

/-- The node has a row at the root, and its children have rows below it. -/
def Placed (lower : String → String) (rows : List CategoryRow)
    (node : CategoryNode) : Prop :=
  ∃ parent ∈ rows, siblingKey lower parent = (0, lower node.name) ∧
    ChildrenIn lower parent.id node.children rows

def Seeded (lower : String → String) (rows : List CategoryRow) : Prop :=
  ∀ node ∈ categoryTaxonomy, Placed lower rows node

/-- The number of categories in a list of nodes. -/
def sizeOf (nodes : List CategoryNode) : ℕ :=
  (nodes.map fun node => 1 + node.children.length).sum

theorem Placed.mono {rows rows' : List CategoryRow} {node : CategoryNode}
    (h : Placed lower rows node) (hrows : rows ⊆ rows') :
    Placed lower rows' node := by
  obtain ⟨parent, hparent, hkey, hchildren⟩ := h
  exact ⟨parent, hrows hparent, hkey, hchildren.mono hrows⟩

/-! ## The discipline without deletions -/

/-- The others commit more rows and leave those of request `i` alone. -/
structure Rely (i : ℕ) (c c' : Categories) : Prop where
  committed : c.committed.rows ⊆ c'.committed.rows
  own : c'.ownRows i = c.ownRows i

/-- An action of request `i` takes no committed row away. -/
structure Adds (lower : String → String) (i : ℕ) (c c' : Categories) :
    Prop where
  committed : c.committed.rows ⊆ c'.committed.rows
  others : ∀ j, j ≠ i → c'.ownRows j = c.ownRows j
  orderly : c.Orderly lower → c'.Orderly lower

/-- The rows that are `held` from some moment on stay. -/
def growing (lower : String → String) (held : List CategoryRow) :
    Discipline Categories where
  invariant c := c.Orderly lower ∧ held ⊆ c.committed.rows
  rely := Rely
  guarantee := Adds lower
  rely_refl _ _ := ⟨List.Subset.refl _, rfl⟩
  rely_trans h h' :=
    ⟨List.Subset.trans h.committed h'.committed, h'.own.trans h.own⟩
  guarantee_rely hne h := ⟨h.committed, h.others _ hne.symm⟩
  guarantee_invariant h hc := ⟨h.orderly hc.1, List.Subset.trans hc.2 h.committed⟩

theorem Rely.visible {c c' : Categories} (h : Rely i c c') :
    c.visible client i ⊆ c'.visible client i := by
  cases client with
  | none => exact h.committed
  | some client =>
      rw [Categories.visible, Categories.visible, h.own]
      exact List.append_subset.mpr
        ⟨List.Subset.trans h.committed (List.subset_append_left _ _),
          List.subset_append_right _ _⟩

section Statements

variable {β : Type} {held known : List CategoryRow} {c : Categories}
  {post : β → Categories → Prop}

/-- The outline of what a request without deletions does. -/
abbrev Grows (lower : String → String) (held : List CategoryRow) (i : ℕ)
    (program : Operation β) (post : β → Categories → Prop) (c : Categories) :
    Prop :=
  program.Meets (growing lower held) i post (fun _ _ => True) c

/-- Once more rows are held, a program goes on as before. -/
theorem Grows.hold {program : Operation β} {held' : List CategoryRow}
    (hheld : held ⊆ held') (h : Grows lower held i program post c) :
    Grows lower held' i program post c := by
  have hboth : program.Meets (growing lower held') i
      (fun value t => post value t ∧ True) (fun _ _ => True ∧ True) c := by
    refine Program.Meets.transfer (fun _ => True) ?_ ?_ ?_
      (fun _ _ => trivial) (fun _ _ => trivial) h trivial
    · exact fun hc => ⟨hc.1, List.Subset.trans hheld hc.2⟩
    · exact fun hrely => hrely
    · exact fun hguarantee => hguarantee
  exact hboth.mono (fun _ _ h => h.1) fun _ _ _ => trivial

theorem attempt_grows
    {action : ℕ → Categories → Option (Except Fault β × Categories)}
    (hkeeps : (attempt action).Keeps (Categories.Orderly lower))
    (hstable : ∀ {value t u}, Rely i t u → post value t → post value u)
    (haction : ∀ t result u, Rely i c t → t.Orderly lower →
      action i t = some (result, u) →
      t.committed.rows ⊆ u.committed.rows ∧
        (∀ j, j ≠ i → u.ownRows j = t.ownRows j) ∧
        ∀ value, result = .ok value → post value u) :
    Grows lower held i (attempt action) post c := by
  intro t ht hinvariant fails result u hresult
  have horderly : t.Orderly lower → u.Orderly lower := fun horderly =>
    hkeeps.1 i fails t result u horderly hresult
  cases fails with
  | true =>
      obtain ⟨rfl, rfl⟩ := Prod.mk.inj (Option.some.inj hresult)
      exact ⟨⟨List.Subset.refl _, fun _ _ => rfl, horderly⟩,
        fun _ _ _ => trivial⟩
  | false =>
      obtain ⟨hcommitted, hothers, hpost⟩ :=
        haction t result u ht hinvariant.1 hresult
      refine ⟨⟨hcommitted, hothers, horderly⟩, ?_⟩
      cases result with
      | ok value => exact fun v hv _ => hstable hv (hpost value rfl)
      | error fault => exact fun _ _ _ => trivial

/-- The rows that request `i` has seen it still sees. -/
def Sees (known : List CategoryRow) (client : Option Client) (i : ℕ)
    (c : Categories) : Prop :=
  known ⊆ c.visible client i

theorem Sees.later {c' : Categories} (hrely : Rely i c c')
    (h : Sees known client i c) : Sees known client i c' :=
  List.Subset.trans h hrely.visible

theorem newRow_grows {name : String} {parentId : Option ℕ}
    (h : Sees known client i c) :
    Grows lower held i (newRow client name parentId)
      (fun row t => siblingKey lower row = (parentId.getD 0, lower name) ∧
        Sees known client i t) c := by
  refine attempt_grows (keeps_newRow name parentId)
    (fun hrely ht => ⟨ht.1, ht.2.later hrely⟩) fun t result u ht _ hresult => ?_
  obtain ⟨rfl, rfl⟩ := Prod.mk.inj (Option.some.inj hresult)
  refine ⟨List.Subset.refl _, fun _ _ => rfl, fun row hrow => ?_⟩
  obtain rfl := Except.ok.inj hrow
  have hsees := h.later ht
  cases client <;> exact ⟨rfl, hsees⟩

theorem select_grows {query : List CategoryRow → β}
    (h : Sees known client i c) :
    Grows lower held i (select client query)
      (fun value t => Sees known client i t ∧ ∃ rows,
        rows ⊆ t.visible client i ∧ value = query rows) c := by
  refine attempt_grows (keeps_select query) (fun hrely ht => ?_)
    fun t result u ht _ hresult => ?_
  · obtain ⟨hsees, rows, hrows, rfl⟩ := ht
    exact ⟨hsees.later hrely, rows, List.Subset.trans hrows hrely.visible, rfl⟩
  · obtain ⟨rfl, rfl⟩ := Prod.mk.inj (Option.some.inj hresult)
    refine ⟨List.Subset.refl _, fun _ _ => rfl, fun value hvalue => ?_⟩
    obtain rfl := Except.ok.inj hvalue
    exact ⟨h.later ht, _, List.Subset.refl _, rfl⟩

theorem visible_insert {row : CategoryRow}
    (hfree : c.committed.get row.id = none) :
    (c.insert client i row).visible client i =
      c.visible client i ++ [row] := by
  cases client with
  | none => exact Categories.committed_insert_of_free hfree
  | some client =>
      simp [Categories.visible, Categories.insert, Categories.ownRows]

theorem committed_subset_visible (client : Option Client) (i : ℕ)
    (c : Categories) : c.committed.rows ⊆ c.visible client i := by
  cases client with
  | none => exact List.Subset.refl _
  | some client => exact List.subset_append_left _ _

theorem insert_adds {row : CategoryRow}
    (hfree : c.committed.get row.id = none) :
    c.committed.rows ⊆ (c.insert client i row).committed.rows ∧
      ∀ j, j ≠ i → (c.insert client i row).ownRows j = c.ownRows j := by
  cases client with
  | none =>
      have hrows := Categories.committed_insert_of_free hfree
      refine ⟨?_, fun _ _ => rfl⟩
      rw [Categories.insert, hrows]
      exact List.subset_append_left _ _
  | some client =>
      refine ⟨List.Subset.refl _, fun j hj => ?_⟩
      simp [Categories.insert, Categories.ownRows, Ne.symm hj]

/-- A row is inserted if no other has its key; if one has, the conflict decides
what the outcome is. -/
theorem insertRow_outline {row : CategoryRow} {onConflict : Except Fault β}
    {inserted : β}
    (hstable : ∀ {value t u}, Rely i t u → post value t → post value u)
    (hconflict : ∀ value t, onConflict = .ok value → Rely i c t →
      post value t)
    (hinserted : ∀ t, Rely i c t → t.committed.get row.id = none →
      (∀ old ∈ t.visible client i,
        siblingKey lower old ≠ siblingKey lower row) →
      post inserted (t.insert client i row)) :
    Grows lower held i (insertRow lower client row onConflict inserted) post
      c := by
  refine attempt_grows (keeps_insertRow row _ _) hstable
    fun t result u ht _ hresult => ?_
  have hsame : ∀ {outcome : Except Fault β},
      (∀ value, outcome = .ok value → post value t) →
      some (outcome, t) = some (result, u) →
      t.committed.rows ⊆ u.committed.rows ∧
        (∀ j, j ≠ i → u.ownRows j = t.ownRows j) ∧
        ∀ value, result = .ok value → post value u := by
    intro outcome hpost hsame
    obtain ⟨rfl, rfl⟩ := Prod.mk.inj (Option.some.inj hsame)
    exact ⟨List.Subset.refl _, fun _ _ => rfl, hpost⟩
  split at hresult
  · exact hsame (by simp) hresult
  split at hresult
  · contradiction
  split at hresult
  · exact hsame (by simp) hresult
  next hids =>
  split at hresult
  · exact hsame (fun value hvalue => hconflict value t hvalue ht) hresult
  next hsiblings =>
  split at hresult
  · exact hsame (by simp) hresult
  obtain ⟨rfl, rfl⟩ := Prod.mk.inj (Option.some.inj hresult)
  simp only [List.any_eq_true, decide_eq_true_eq, not_exists, not_and]
    at hids hsiblings
  have hfree : t.committed.get row.id = none := by
    rw [Table.get_eq_none_iff]
    intro hmem
    obtain ⟨other, hother, hid⟩ := List.mem_map.mp hmem
    exact hids other (committed_subset_visible client i t hother) hid
  obtain ⟨hcommitted, hothers⟩ := @insert_adds i client t row hfree
  refine ⟨hcommitted, hothers, fun value hvalue => ?_⟩
  obtain rfl := Except.ok.inj hvalue
  exact hinserted t ht hfree hsiblings

/-- A row that is inserted is seen, and no row with its key was known. -/
theorem insertRow_grows {row : CategoryRow} (h : Sees known client i c) :
    Grows lower held i (insertRow lower client row (.ok none) (some row))
      (fun inserted t => Sees known client i t ∧ ∀ other,
        inserted = some other → other = row ∧ row ∈ t.visible client i ∧
          ∀ old ∈ known, siblingKey lower old ≠ siblingKey lower row) c := by
  refine insertRow_outline (fun hrely ht => ?_) (fun value t hvalue ht => ?_)
    fun t ht hfree hnew => ?_
  · refine ⟨ht.1.later hrely, fun other hother => ?_⟩
    obtain ⟨hsame, hrow, hnew⟩ := ht.2 other hother
    exact ⟨hsame, hrely.visible hrow, hnew⟩
  · obtain rfl := Except.ok.inj hvalue
    exact ⟨h.later ht, by simp⟩
  · have hsees : Sees known client i t := h.later ht
    have hvisible := @visible_insert i client t row hfree
    refine ⟨?_, fun other hother => ?_⟩
    · rw [Sees, hvisible]
      exact List.Subset.trans hsees (List.subset_append_left _ _)
    · obtain rfl := Option.some.inj hother
      refine ⟨rfl, ?_, fun old hold => hnew old (hsees hold)⟩
      rw [hvisible]
      exact List.mem_append_right _ List.mem_cons_self

/-! ## Seeding -/

/-- The category is there, and it is not a new one if it was known. -/
structure Upserted (lower : String → String) (known : List CategoryRow)
    (client : Option Client) (i : ℕ) (key : ℕ × String)
    (upserted : UpsertedCategory) (c : Categories) : Prop where
  sees : Sees known client i c
  placed : ∃ row ∈ c.visible client i, row.id = upserted.id ∧
    siblingKey lower row = key
  reused : (∃ old ∈ known, siblingKey lower old = key) →
    upserted.created = false

theorem Upserted.later {c' : Categories} {key : ℕ × String}
    {upserted : UpsertedCategory} (hrely : Rely i c c')
    (h : Upserted lower known client i key upserted c) :
    Upserted lower known client i key upserted c' := by
  obtain ⟨row, hrow, hplaced⟩ := h.placed
  exact ⟨h.sees.later hrely, ⟨row, hrely.visible hrow, hplaced⟩, h.reused⟩

theorem upsertCategory_grows {name : String} {parentId : Option ℕ}
    (h : Sees known client i c) :
    Grows lower held i (upsertCategory lower client name parentId)
      (Upserted lower known client i (parentId.getD 0, lower name)) c := by
  refine .seq _ (newRow_grows h) fun row t ht => ?_
  refine .seq _ (insertRow_grows ht.2) fun inserted u hu => ?_
  cases inserted with
  | some other =>
      obtain ⟨rfl, hrow, hnew⟩ := hu.2 other rfl
      refine .done fun v hv _ => Upserted.later hv
        ⟨hu.1, ⟨_, hrow, rfl, ht.1⟩, fun hold => ?_⟩
      obtain ⟨old, hold, hkey⟩ := hold
      exact absurd (hkey.trans ht.1.symm) (hnew old hold)
  | none =>
      refine .seq _ (select_grows hu.1) fun existing v hv => ?_
      obtain ⟨hsees, rows, hrows, rfl⟩ := hv
      cases hfound : rows.find? fun other =>
          siblingKey lower other = siblingKey lower row with
      | none => exact .failed fun _ _ _ => trivial
      | some other =>
          have hkey : siblingKey lower other = siblingKey lower row := by
            simpa using List.find?_some hfound
          have hmem := hrows (List.mem_of_find?_eq_some hfound)
          exact .done fun w hw _ => Upserted.later hw
            ⟨hsees, ⟨other, hmem, rfl, hkey.trans ht.1⟩, fun _ => rfl⟩

/-- So many more categories are counted, and no new ones among them if all
were known. -/
structure Counted (size : ℕ) (allKnown : Prop) (counts counts' : SeedCounts) :
    Prop where
  total : counts'.created + counts'.reused =
    counts.created + counts.reused + size
  reused : allKnown → counts'.created = counts.created

theorem counted_count (upserted : UpsertedCategory) (counts : SeedCounts) :
    Counted 1 (upserted.created = false) counts (counts.count upserted) := by
  cases hcreated : upserted.created with
  | true =>
      have hcount : counts.count upserted =
          { counts with created := counts.created + 1 } := by
        simp [SeedCounts.count, hcreated]
      rw [hcount]
      exact ⟨by dsimp only; omega, by simp⟩
  | false =>
      have hcount : counts.count upserted =
          { counts with reused := counts.reused + 1 } := by
        simp [SeedCounts.count, hcreated]
      rw [hcount]
      exact ⟨by dsimp only; omega, fun _ => rfl⟩

theorem Counted.trans {size size' : ℕ} {allKnown allKnown' : Prop}
    {counts counts' counts'' : SeedCounts}
    (h : Counted size allKnown counts counts')
    (h' : Counted size' allKnown' counts' counts'') :
    Counted (size + size') (allKnown ∧ allKnown') counts counts'' where
  total := by
    have htotal := h.total
    have htotal' := h'.total
    omega
  reused hknown := (h'.reused hknown.2).trans (h.reused hknown.1)

theorem Counted.weaken {size size' : ℕ} {allKnown allKnown' : Prop}
    {counts counts' : SeedCounts} (h : Counted size allKnown counts counts')
    (hsize : size' = size) (hknown : allKnown' → allKnown) :
    Counted size' allKnown' counts counts' :=
  ⟨by rw [hsize, h.total], fun h' => h.reused (hknown h')⟩

theorem seedChildren_grows {parentId : ℕ} {children : List String}
    {counts : SeedCounts} (h : Sees known client i c) :
    Grows lower held i (seedChildren lower client parentId children counts)
      (fun counts' t => Sees known client i t ∧
        ChildrenIn lower parentId children (t.visible client i) ∧
        Counted children.length (ChildrenIn lower parentId children known)
          counts counts') c := by
  induction children generalizing known counts c with
  | nil =>
      refine .done fun t ht _ => ⟨h.later ht, by simp [ChildrenIn], ?_⟩
      exact ⟨rfl, fun _ => rfl⟩
  | cons child rest ih =>
      refine .seq _ (upsertCategory_grows h) fun childResult t ht => ?_
      have hseen : Sees (t.visible client i) client i t := List.Subset.refl _
      refine (ih hseen).mono (fun counts' u hu => ?_) fun _ _ h => h
      obtain ⟨hsees, hchildren, hcounted⟩ := hu
      obtain ⟨row, hrow, -, hkey⟩ := ht.placed
      refine ⟨List.Subset.trans ht.sees hsees, ?_, ?_⟩
      · intro other hother
        rcases List.mem_cons.mp hother with rfl | hrest
        · exact ⟨row, hsees hrow, hkey⟩
        · exact hchildren other hrest
      · refine ((counted_count childResult counts).trans hcounted).weaken
          (Nat.add_comm _ _) fun hknown => ⟨?_, ?_⟩
        · exact ht.reused (hknown child List.mem_cons_self)
        · exact ChildrenIn.mono
            (fun other hother => hknown other (.tail _ hother)) ht.sees

/-- Every category of the catalog is the only one with its key. -/
theorem eq_of_siblingKey (h : c.Orderly lower) {row other : CategoryRow}
    (hrow : row ∈ c.visible client i) (hother : other ∈ c.visible client i)
    (hkey : siblingKey lower row = siblingKey lower other) : row = other :=
  List.inj_on_of_nodup_map h.siblings
    ((Categories.mem_everything client i).mpr (.inl hrow))
    ((Categories.mem_everything client i).mpr (.inl hother)) hkey

theorem seedNodes_grows {nodes : List CategoryNode} {counts : SeedCounts}
    (h : Sees known client i c) :
    Grows lower held i (seedNodes lower client nodes counts)
      (fun counts' t => Sees known client i t ∧
        (∀ node ∈ nodes, Placed lower (t.visible client i) node) ∧
        Counted (sizeOf nodes) (∀ node ∈ nodes, Placed lower known node)
          counts counts') c := by
  induction nodes generalizing known counts c with
  | nil =>
      refine .done fun t ht _ => ⟨h.later ht, by simp, ?_⟩
      exact ⟨rfl, fun _ => rfl⟩
  | cons node rest ih =>
      refine .seq _ (upsertCategory_grows h) fun parentResult t ht => ?_
      refine .of_later fun u hu hinvariant => ?_
      obtain ⟨hsees, ⟨parent, hparent, hid, hkey⟩, hreused⟩ := ht.later hu
      have hseen : Sees (u.visible client i) client i u := List.Subset.refl _
      refine .seq _ (seedChildren_grows hseen) fun counts₁ v hv => ?_
      obtain ⟨hseesv, hchildren, hcounted⟩ := hv
      have hseenv : Sees (v.visible client i) client i v :=
        List.Subset.refl _
      refine (ih hseenv).mono (fun counts₂ x hx => ?_) fun _ _ h => h
      obtain ⟨hseesx, hrest, hcountedRest⟩ := hx
      have hknown : known ⊆ v.visible client i :=
        List.Subset.trans hsees hseesv
      refine ⟨List.Subset.trans hknown hseesx, ?_, ?_⟩
      · refine List.forall_mem_cons.mpr ⟨?_, hrest⟩
        have hplaced : Placed lower (v.visible client i) node :=
          ⟨parent, hseesv hparent, hkey, hid ▸ hchildren⟩
        exact hplaced.mono hseesx
      · have hall := ((counted_count parentResult counts).trans
          hcounted).trans hcountedRest
        refine hall.weaken (by simp [sizeOf]) fun hplaced => ?_
        obtain ⟨hnode, hrestKnown⟩ := List.forall_mem_cons.mp hplaced
        obtain ⟨old, hold, holdKey, holdChildren⟩ := hnode
        obtain rfl := eq_of_siblingKey hinvariant.1 (hsees hold) hparent
          (holdKey.trans hkey.symm)
        exact ⟨⟨hreused ⟨_, hold, holdKey⟩,
          hid ▸ holdChildren.mono hsees⟩,
          fun other hother => (hrestKnown other hother).mono hknown⟩

/-! ## The handlers -/

/-- The taxonomy is committed and counted, and none of it is new if it was
there. -/
structure SeedAnswer (lower : String → String) (known : List CategoryRow)
    (counts : SeedCounts) (c : Categories) : Prop where
  seeded : Seeded lower c.committed.rows
  counted : Counted (sizeOf categoryTaxonomy) (Seeded lower known) ⟨0, 0⟩ counts

theorem SeedAnswer.later {c' : Categories} {counts : SeedCounts}
    (hrely : Rely i c c') (h : SeedAnswer lower known counts c) :
    SeedAnswer lower known counts c' :=
  ⟨fun node hnode => (h.seeded node hnode).mono hrely.committed, h.counted⟩

theorem seedCategories_grows (h : known ⊆ c.committed.rows) :
    Grows lower held i (seedCategories lower none)
      (SeedAnswer lower known) c :=
  (seedNodes_grows (show Sees known none i c from h)).mono
    (fun _ _ ht => ⟨ht.2.1, ht.2.2⟩) fun _ _ h => h

theorem begin_grows (h : known ⊆ c.committed.rows) :
    Grows lower held i begin
      (fun client t => Sees known (some client) i t) c := by
  refine attempt_grows keeps_begin (fun hrely ht => ht.later hrely)
    fun t result u ht _ hresult => ?_
  obtain ⟨rfl, rfl⟩ := Prod.mk.inj (Option.some.inj hresult)
  refine ⟨List.Subset.refl _,
    fun j hj => Categories.ownRows_rollback_of_ne hj t, fun client _ => ?_⟩
  exact List.Subset.trans (List.Subset.trans h ht.committed)
    (committed_subset_visible (some client) i (t.rollback i))

theorem commit_grows {own : Client}
    (h : Seeded lower (c.visible (some own) i)) :
    Grows lower held i commit (fun _ t => Seeded lower t.committed.rows) c := by
  refine attempt_grows keeps_commit
    (fun hrely ht node hnode => (ht node hnode).mono hrely.committed)
    fun t result u ht horderly hresult => ?_
  obtain ⟨rfl, rfl⟩ := Prod.mk.inj (Option.some.inj hresult)
  have hcommitted := Categories.committed_commit horderly i
  refine ⟨?_, fun j hj => ?_, fun _ _ node hnode => ?_⟩
  · rw [hcommitted]
    exact List.subset_append_left _ _
  · have hown : (t.commit i).ownRows j = (t.rollback i).ownRows j := rfl
    rw [hown, Categories.ownRows_rollback_of_ne hj]
  · rw [hcommitted]
    exact (h node hnode).mono (@Rely.visible i (some own) _ _ ht)

theorem rollback_grows :
    Grows lower held i rollback (fun _ _ => True) c := by
  intro t _ _ fails result u hresult
  obtain ⟨-, rfl⟩ := Prod.mk.inj (Option.some.inj hresult)
  exact ⟨⟨List.Subset.refl _,
    fun j hj => Categories.ownRows_rollback_of_ne hj t,
    fun h => h.rollback i⟩, fun _ _ _ => trivial⟩

theorem runProdSeed_grows (h : known ⊆ c.committed.rows) :
    Grows lower held i (runProdSeed lower) (SeedAnswer lower known) c := by
  refine .caught (fun _ _ => True) ?_ fun fault t _ =>
    .seq _ rollback_grows fun _ _ _ => .failed fun _ _ _ => trivial
  refine .seq _ (begin_grows h) fun client t ht => ?_
  refine .seq _ (seedNodes_grows ht) fun summary u hu => ?_
  refine .seq _ (commit_grows hu.2.1) fun _ v hv => ?_
  exact .done fun w hw _ => SeedAnswer.later hw ⟨hv, hu.2.2⟩

theorem createCategory_grows {name : String} {parentId : Option ℕ} :
    Grows lower held i (createCategory lower name parentId)
      (fun _ _ => True) c := by
  have hempty : ∀ t : Categories, Sees [] none i t :=
    fun _ => List.nil_subset _
  have hinsert : ∀ t, Grows lower held i
      (tryCatch (insertReturning lower name parentId) fun fault =>
        if fault = .database (some .unique) then
          throw (.exception .conflict
            "A category with that name already exists under the same parent")
        else throw fault) (fun _ _ => True) t := by
    refine fun t => .caught (fun _ _ => True) ?_ fun fault u _ => ?_
    · refine .seq _ (newRow_grows (hempty t)) fun row u _ => ?_
      exact insertRow_outline (fun _ _ => trivial) (fun _ _ _ _ => trivial)
        fun _ _ _ _ => trivial
    · split
      · exact .failed fun _ _ _ => trivial
      · exact .failed fun _ _ _ => trivial
  cases parentId with
  | none => exact hinsert c
  | some parentId =>
      refine .seq _ (select_grows (hempty c)) fun found t _ => ?_
      cases found with
      | true => exact hinsert t
      | false => exact .failed fun _ _ _ => trivial

end Statements

/-! ## Runs -/

/-- What an answer tells about the catalog when it is given. -/
def Response.Tells (lower : String → String) (known : List CategoryRow) :
    Response → Categories → Prop
  | .category _, _ => True
  | .seeded counts, c => SeedAnswer lower known counts c

def Request.Deletes : Request → Prop
  | .deleteCategory _ => True
  | _ => False

theorem Request.handler_grows {held : List CategoryRow} {request : Request}
    (hrequest : ¬ request.Deletes) (c : Categories) :
    Grows lower held i (request.handler lower)
      (Response.Tells lower held) c := by
  refine .of_later fun t _ hinvariant => ?_
  cases request with
  | createCategory name parentId =>
      exact .seq _ createCategory_grows fun _ _ _ =>
        .done fun _ _ _ => trivial
  | deleteCategory id => exact absurd trivial hrequest
  | seedCategories =>
      refine .seq _ (seedCategories_grows hinvariant.2) fun counts u hu => ?_
      exact .done fun v hv _ => SeedAnswer.later hv hu
  | runProdSeed =>
      refine .seq _ (runProdSeed_grows hinvariant.2) fun counts u hu => ?_
      exact .done fun v hv _ => SeedAnswer.later hv hu

/-- What the answers tell that are given to request `first` and later ones. -/
def TellsFrom (lower : String → String) (held : List CategoryRow) (first : ℕ)
    (_ : Request) (i : ℕ) (response : Response) (c : Categories) : Prop :=
  first ≤ i → response.Tells lower held c

/-- A request that deletes nothing. -/
def Keeping (request : Request) (_ : Categories) : Prop := ¬ request.Deletes

abbrev OnCourseFrom (lower : String → String) (held : List CategoryRow)
    (first : ℕ) (pool : Pool Request Bool Categories Fault Response) : Prop :=
  System.OnCourse (growing lower held) (TellsFrom lower held first)
    (fun _ _ _ _ => True) pool

theorem catalog_sound (held : List CategoryRow) (first : ℕ) :
    (catalog lower).Sound (growing lower held) Keeping
      (TellsFrom lower held first) fun _ _ _ _ => True where
  handler_meets request _ c hrequest :=
    (request.handler_grows hrequest c).mono (fun _ _ h _ => h) fun _ _ h => h
  environment_rely _ _ _ := ⟨List.Subset.refl _, rfl⟩
  environment_invariant _ _ h := ⟨h.1.congr rfl rfl, h.2⟩

variable {now : ℕ}
  {before middle pool : Pool Request Bool Categories Fault Response}

/-- What is committed now stays from now on. -/
theorem onCourseFrom_now {held : List CategoryRow} {first : ℕ}
    (h : OnCourseFrom lower held first pool) :
    OnCourseFrom lower pool.state.committed.rows pool.threads.length pool := by
  have hnow := h.invariant.2
  refine ⟨⟨h.invariant.1, List.Subset.refl _⟩, fun i thread hthread => ?_⟩
  have hlate : ¬ pool.threads.length ≤ i :=
    not_le_of_gt (List.getElem?_eq_some_iff.mp hthread).1
  have hkept := Grows.hold hnow (h.meets i thread hthread)
  exact hkept.mono (fun _ _ _ hi => absurd hi hlate) fun _ _ _ => trivial

def Finished (pool : Pool Request Bool Categories Fault Response) : Prop :=
  ∀ thread ∈ pool.threads, thread.body.ended = true

/-- Requests that have ended do nothing any more. -/
theorem onCourseFrom_of_finished
    (hreach : (catalog lower).Reaches (fun _ _ => True) (Pool.empty now) before)
    (hfinished : Finished before) :
    OnCourseFrom lower before.state.committed.rows before.threads.length
      before := by
  refine ⟨⟨orderly_of_reaches hreach, List.Subset.refl _⟩,
    fun i thread hthread => ?_⟩
  have hlate : ¬ before.threads.length ≤ i :=
    not_le_of_gt (List.getElem?_eq_some_iff.mp hthread).1
  have hended := hfinished thread (List.mem_of_getElem? hthread)
  rcases Program.eq_of_ended hended with ⟨response, hdone⟩ | ⟨fault, hfailed⟩
  · rw [hdone]
    exact .done fun _ _ _ hi => absurd hi hlate
  · rw [hfailed]
    exact .failed fun _ _ _ => trivial

/-- Requests that delete nothing run after all earlier ones have ended.  A seed
among them that is answered has put the whole taxonomy into the catalog and
counted it; if the taxonomy was there before the seed was submitted, it has
created nothing. -/
theorem seeds_complete
    (hreach : (catalog lower).Reaches (fun _ _ => True) (Pool.empty now) before)
    (hfinished : Finished before)
    (hmiddle : (catalog lower).Reaches Keeping before middle)
    (hlater : (catalog lower).Reaches Keeping middle pool)
    {request : Request} {counts : SeedCounts}
    (hfirst : before.threads.length ≤ i)
    (hanswer : pool.threads[i]? = some ⟨request, .done (.seeded counts)⟩) :
    Seeded lower pool.state.committed.rows ∧
      counts.created + counts.reused = sizeOf categoryTaxonomy ∧
      (Seeded lower middle.state.committed.rows → middle.threads.length ≤ i →
        counts.created = 0) := by
  have hbefore := onCourseFrom_of_finished hreach hfinished
  have hcourse := (hmiddle.trans hlater).sound (catalog_sound _ _) hbefore
  have hanswered : SeedAnswer lower _ counts pool.state :=
    hcourse.outcome hanswer hfirst
  refine ⟨hanswered.seeded, ?_, fun hseeded hnew => ?_⟩
  · simpa using hanswered.counted.total
  · have hfrom := onCourseFrom_now
      (hmiddle.sound (catalog_sound _ _) hbefore)
    have hagain : SeedAnswer lower _ counts pool.state :=
      (hlater.sound (catalog_sound _ _) hfrom).outcome hanswer hnew
    exact hagain.counted.reused hseeded

/-- A category is created and deleted again. -/
def createsAndDeletes : List (Move Request Bool ℕ) :=
  [.submit (.createCategory "Toys" none), .advance 0 false, .advance 0 false,
    .submit (.deleteCategory 1), .advance 1 false]

/-- A request runs with nobody else acting. -/
def answered (request : Request) (i n : ℕ) : List (Move Request Bool ℕ) :=
  .submit request :: List.replicate n (.advance i false)

theorem keeping_of_answered {request : Request} {n : ℕ}
    (hrequest : ¬ request.Deletes) :
    ∀ other ∈ (answered request i n).filterMap Move.submitted, ∀ c,
      Keeping other c := by
  have hrest : (List.replicate n (Move.advance i false)).filterMap
      (Move.submitted : Move Request Bool ℕ → Option Request) = [] :=
    List.filterMap_replicate_of_none rfl
  have hsubmitted : (answered request i n).filterMap Move.submitted =
      [request] := congrArg (request :: ·) hrest
  simp [hsubmitted, Keeping, hrequest]

/-- What the seed with number `i` has counted. -/
def seededAt (i : ℕ) (pool : Pool Request Bool Categories Fault Response) :
    Option SeedCounts :=
  match pool.answer i with
  | some (_, .seeded counts) => some counts
  | _ => none

theorem thread_of_seededAt {counts : SeedCounts}
    (h : seededAt i pool = some counts) :
    ∃ request, pool.threads[i]? = some ⟨request, .done (.seeded counts)⟩ := by
  unfold seededAt at h
  split at h
  case h_1 request counts' hanswer =>
      obtain rfl := Option.some.inj h
      exact ⟨request, Pool.thread_of_answer hanswer⟩
  case h_2 => contradiction

/-- The script has seeded the catalog, and it is seeded once more with a client
that is in no transaction. -/
def seedsTwice (before : Pool Request Bool Categories Fault Response) : Bool :=
  ((catalog sampleLower).run (answered .runProdSeed 2 116) before).any
    fun middle =>
      decide (middle.threads.length = 3) && (seededAt 2 middle).isSome &&
        ((catalog sampleLower).run (answered .seedCategories 3 171) middle).any
          fun pool => (seededAt 3 pool).isSome

theorem seeds_complete_sample :
    ∃ (pool : Pool Request Bool Categories Fault Response)
      (counts : SeedCounts),
      (catalog sampleLower).Reaches (fun _ _ => True) (Pool.empty 0) pool ∧
        seededAt 3 pool = some counts ∧
        Seeded sampleLower pool.state.committed.rows ∧
        counts.created = 0 ∧ counts.reused = 57 := by
  obtain ⟨before, hbefore, hcheck⟩ := System.exists_reaches_of_run
    (show ((catalog sampleLower).run createsAndDeletes (Pool.empty 0)).any
      (fun before => before.threads.all (fun thread => thread.body.ended) &&
        decide (before.threads.length = 2) && seedsTwice before) = true by
      decide +kernel)
  simp only [seedsTwice, Bool.and_eq_true, Option.any_eq_true,
    decide_eq_true_eq, List.all_eq_true, Option.isSome_iff_exists] at hcheck
  obtain ⟨⟨hended, hfirst⟩, middle, hseeds, ⟨hsecond, first, hseeded⟩, pool,
    hagain, counts, hcounts⟩ := hcheck
  have hmiddle : (catalog sampleLower).Reaches Keeping before middle :=
    System.Reaches.run .refl
      (keeping_of_answered (by simp [Request.Deletes])) hseeds
  have hpool : (catalog sampleLower).Reaches Keeping middle pool :=
    System.Reaches.run .refl
      (keeping_of_answered (by simp [Request.Deletes])) hagain
  obtain ⟨_, hfirstAnswer⟩ := thread_of_seededAt hseeded
  obtain ⟨_, hanswer⟩ := thread_of_seededAt hcounts
  have hplaced := (seeds_complete hbefore hended hmiddle .refl hfirst.le
    hfirstAnswer).1
  obtain ⟨hstill, htotal, hnone⟩ := seeds_complete hbefore hended hmiddle hpool
    (hfirst.trans_le (by decide)) hanswer
  have hcreated := hnone hplaced hsecond.le
  have hsize : sizeOf categoryTaxonomy = 57 := by decide
  refine ⟨pool, counts, ?_, hcounts, hstill, hcreated, by omega⟩
  exact hbefore.trans ((hmiddle.trans hpool).weaken fun _ _ _ => trivial)

end MarketPlace.Catalog
