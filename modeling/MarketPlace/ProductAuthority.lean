import MarketPlace.ServiceOutlines

/-!
# Who changes a product

The row and the images of a product change only when a transaction of the
product's owner commits, and never again once the product is deleted.
-/

namespace MarketPlace.Trade

open Interleaving Relational

variable {app : Deployment}

/-! ## One transaction -/

/-- The statement that a transaction of `owner` on a product begins with: the
product is the owner's and not deleted, or the statement creates it. -/
structure Opens (owner productId : ℕ) (m : Market) (first : Change) : Prop where
  products : first.products = [productId]
  images : ∀ db : Database, (db.apply first).productImages = db.productImages
  owner : m.db.Owns owner productId ∨
    (m.db.products.get productId = none ∧
      ∃ row, (m.db.apply first).products.get productId = some row ∧
        row.ownerId = owner)

/-- A transaction on a product is a first statement and what synchronises the
images. -/
theorem ProductTransaction.opens {user : ℕ} {m : Market}
    {changes : List Change} (h : ProductTransaction user m changes) :
    ∃ productId first sync, changes = first :: sync ∧
      Opens user productId m first ∧ ImageSync user productId m.db sync := by
  cases h with
  | created row sync hfree hid howner hclassified hsync =>
      have hinserted : (m.db.apply (.insertProduct row)).products.get row.id =
          some row := Table.get_insert_self hfree
      exact ⟨row.id, _, sync, rfl,
        ⟨rfl, fun _ => rfl, .inr ⟨hfree, row, hinserted, howner⟩⟩, hsync⟩
  | updated productId now patch sync howns hclassified hsync =>
      exact ⟨productId, _, sync, rfl, ⟨rfl, fun _ => rfl, .inl howns⟩,
        hsync⟩
  | deleted productId now howns =>
      exact ⟨productId, _, [], rfl, ⟨rfl, fun _ => rfl, .inl howns⟩,
        .untouched⟩
  | statusUpdated productId status now howns =>
      exact ⟨productId, _, [], rfl, ⟨rfl, fun _ => rfl, .inl howns⟩,
        .untouched⟩

theorem ImageSync.only {user productId : ℕ} {db : Database}
    {sync : List Change} (h : ImageSync user productId db sync) :
    ∀ change ∈ sync, ∀ other ∈ change.products, other = productId := by
  cases h with
  | untouched => simp
  | cleared => simp [Change.products]
  | replaced rows now hlinks =>
      simp only [List.forall_mem_cons, Change.products, List.mem_map]
      refine ⟨by simp, ?_, by simp, by simp⟩
      rintro other ⟨row, hrow, rfl⟩
      exact hlinks.product row hrow

section Opens

variable {owner productId : ℕ} {m : Market} {first : Change}
  {sync : List Change}

/-- A transaction leaves all other products alone. -/
theorem Opens.productState_of_ne (h : Opens owner productId m first)
    (hsync : ImageSync owner productId m.db sync) {other : ℕ}
    (hne : other ≠ productId) :
    (schema.settle (first :: sync) m.db).productState other =
      m.db.productState other := by
  refine Database.productState_settle_of_untouched ?_
  refine List.forall_mem_cons.mpr ⟨?_, fun change hchange htouched =>
    hne (hsync.only change hchange other htouched)⟩
  rw [h.products, List.mem_singleton]
  exact hne

/-- The user owns the product before a change, or after it if it is new. -/
def OwnerOfChange (owner productId : ℕ) (db db' : Database) : Prop :=
  db.Owns owner productId ∨
    (db.products.get productId = none ∧
      ∃ row, db'.products.get productId = some row ∧ row.ownerId = owner)

theorem Opens.changes (h : Opens owner productId m first)
    (hsync : ImageSync owner productId m.db sync) {other : ℕ}
    (hchanged : (schema.settle (first :: sync) m.db).productState other ≠
      m.db.productState other) :
    OwnerOfChange owner other m.db (schema.settle (first :: sync) m.db) := by
  have hsame : other = productId := by
    by_contra hne
    exact hchanged (h.productState_of_ne hsync hne)
  subst hsame
  rcases h.owner with howns | ⟨hfree, row, hinserted, howner⟩
  · exact .inl howns
  · obtain ⟨row', hrow', hkept⟩ :=
      (Database.grows_settle _ sync).products _ row hinserted
    exact .inr ⟨hfree, row', hrow', Eq.trans hkept howner⟩

end Opens

/-! ## One move -/

/-- A request changes a product only as its owner. -/
theorem Acts.product {rights : Rights} {i productId : ℕ} {m m' : Market}
    (hacts : Acts rights i m m')
    (hchanged : m'.db.productState productId ≠ m.db.productState productId) :
    ∃ owner, rights.user = some owner ∧
      OwnerOfChange owner productId m.db m'.db := by
  rcases hacts with rfl | hstep
  · exact absurd rfl hchanged
  cases hstep with
  | wrote actor change huser hwrites halone hunlocked hviolation hoffered =>
      exact absurd (Database.productState_apply_of_untouched
        (by simp [change.products_of_alone halone])) hchanged
  | committed actor huser htransaction =>
      obtain ⟨other, first, sync, hqueue, hopens, hsync⟩ := htransaction.opens
      have hdb : (m.commit i).db = schema.settle (first :: sync) m.db :=
        congrArg (schema.settle · m.db) hqueue
      rw [hdb] at hchanged ⊢
      exact ⟨actor, huser, hopens.changes hsync hchanged⟩
  | lost | rejected | queued | locked | rolledBack => exact absurd rfl hchanged

theorem Market.productState_surroundings
    (event : Surroundings) (m : Market) (productId : ℕ) :
    (m.surroundings event).db.productState productId =
      m.db.productState productId := by
  cases event <;> rfl

variable {pool next later : Pool Request Draw Market Fault Response} {now : ℕ}

/-- The move is an action of a request of the product's owner. -/
def MovedByOwner
    (productId : ℕ) (move : Move Request Draw Surroundings)
    (pool next : Pool Request Draw Market Fault Response) : Prop :=
  ∃ i d thread owner, move = .advance i d ∧ pool.threads[i]? = some thread ∧
    thread.request.user = some owner ∧
      OwnerOfChange owner productId pool.state.db next.state.db

/-- The market is sound and every request is on its way. -/
abbrev OnCourse (pool : Pool Request Draw Market Fault Response) : Prop :=
  System.OnCourseWithin discipline (fun request i => Acts request.rights i)
    Fresh (fun _ i _ t => PointersFollowed i t)
    (fun _ i _ t => PointersFollowed i t) pool

theorem onCourse_opening : OnCourse (Pool.opening now) := by
  refine System.OnCourseWithin.of_empty rfl ?_ fun i => ?_
  · exact Market.sound_opening (Database.within_empty _) Database.linked_empty
  · exact ⟨rfl, fun _ h => absurd h List.not_mem_nil⟩

theorem onCourse_of_reaches
    (hreach : (market app).Reaches (fun _ _ => True) (Pool.opening now) pool) :
    OnCourse pool :=
  hreach.soundWithin market_sound onCourse_opening

theorem moved_by_owner
    (hreach : (market app).Reaches (fun _ _ => True) (Pool.opening now) pool)
    {move : Move Request Draw Surroundings}
    (hperform : (market app).perform move pool = some next) {productId : ℕ}
    (hchanged : next.state.db.productState productId ≠
      pool.state.db.productState productId) :
    MovedByOwner productId move pool next := by
  rcases (onCourse_of_reaches hreach).perform_cases hperform with
    hsame | ⟨i, d, thread, hmove, hthread, hacts⟩ | ⟨event, -, henvironment⟩
  · exact absurd (congrArg (fun m : Market => m.db.productState productId)
      hsame) hchanged
  · obtain ⟨owner, huser, howner⟩ := hacts.product hchanged
    exact ⟨i, d, thread, owner, hmove, hthread, huser, howner⟩
  · exact absurd (henvironment ▸ Market.productState_surroundings event _ _)
      hchanged

/-! ## Runs -/

/-- Every row that a reachable market has is still there later. -/
theorem grows_of_reaches
    (hreach : (market app).Reaches (fun _ _ => True) (Pool.opening now) pool)
    (hlater : (market app).Reaches (fun _ _ => True) pool later) :
    pool.state.db.Grows later.state.db := by
  induction hlater with
  | refl => exact Database.Grows.refl _
  | step hbefore _ hperform ih =>
      refine ih.trans ?_
      have hcourse := onCourse_of_reaches (hreach.trans hbefore)
      rcases hcourse.perform_cases hperform with
        hsame | ⟨i, d, thread, -, -, hacts⟩ | ⟨event, -, henvironment⟩
      · exact hsame ▸ Database.Grows.refl _
      · exact (hacts.rely hcourse.invariant).grows
      · exact henvironment ▸ (Market.rely_surroundings event 0 _).grows

/-- A deleted product stays as it is. -/
theorem deleted_for_good
    (hreach : (market app).Reaches (fun _ _ => True) (Pool.opening now) pool)
    (hlater : (market app).Reaches (fun _ _ => True) pool later)
    {productId : ℕ} {row : ProductRow}
    (hrow : pool.state.db.products.get productId = some row)
    (hdeleted : row.deletedAt ≠ none) :
    later.state.db.productState productId =
      pool.state.db.productState productId := by
  induction hlater with
  | refl => rfl
  | step hbefore _ hperform ih =>
      by_contra hchanged
      rw [← ih] at hchanged
      have hrow' := (congrArg Prod.fst ih).trans hrow
      obtain ⟨_, _, _, owner, -, -, -, howns | ⟨hfree, -⟩⟩ :=
        moved_by_owner (hreach.trans hbefore) hperform hchanged
      · obtain ⟨other, hother, -, hlive⟩ := howns
        obtain rfl := Option.some.inj (hrow'.symm.trans hother)
        exact hdeleted hlive
      · exact absurd (hrow'.symm.trans hfree) (by simp)

/-- A product's owner never changes, its row and its images change only by
actions of its owner, and once it is deleted neither changes again. -/
theorem product_authority
    (hreach : (market app).Reaches (fun _ _ => True) (Pool.opening now) pool)
    (productId : ℕ) :
    (∀ move next, (market app).perform move pool = some next →
      next.state.db.productState productId ≠
        pool.state.db.productState productId →
      MovedByOwner productId move pool next) ∧
    ∀ row, pool.state.db.products.get productId = some row →
      ∀ later, (market app).Reaches (fun _ _ => True) pool later →
        (∃ row', later.state.db.products.get productId = some row' ∧
          row'.ownerId = row.ownerId) ∧
        (row.deletedAt ≠ none →
          later.state.db.productState productId =
            pool.state.db.productState productId) := by
  refine ⟨fun move next hperform hchanged =>
    moved_by_owner hreach hperform hchanged, fun row hrow later hlater => ?_⟩
  obtain ⟨row', hrow', hkept⟩ :=
    (grows_of_reaches hreach hlater).products _ row hrow
  exact ⟨⟨row', hrow', hkept⟩, deleted_for_good hreach hlater hrow⟩

def sampleProduct : CreateProductDto where
  category := "vehicles"
  subcategory := none
  name := "Bicycle"
  description := "Blue"
  price := 25
  city := "Cairo"
  addressText := "Downtown"
  details := none
  imageFileIds := none
  isNegotiable := none
  preferredContactMethod := none

/-- User 1 registers and lists a product. -/
def lists : List (Move Request Draw Surroundings) :=
  [.environment (.userRegisters "Amina" "+201"),
    .submit (.createProduct 1 sampleProduct)] ++
    List.replicate 6 (.advance 0 calmDraw)

/-- A listed product that its owner deletes stays as it is. -/
theorem product_authority_deleted :
    ∃ pool row, (market sampleApp).Reaches (fun _ _ => True)
        (Pool.opening 0) pool ∧
      pool.state.db.products.get 1 = some row ∧
      ∀ later, (market sampleApp).Reaches (fun _ _ => True) pool later →
        later.state.db.productState 1 = pool.state.db.productState 1 := by
  obtain ⟨pool, hreach, hcheck⟩ := System.exists_reaches_of_run
    (show ((market sampleApp).run (lists ++ [.submit (.deleteProduct 1 1)] ++
        List.replicate 4 (.advance 1 calmDraw)) (Pool.opening 0)).any
      (fun pool => (pool.state.db.products.get 1).any fun row =>
        row.deletedAt.isSome) = true by decide +kernel)
  obtain ⟨row, hrow, hdeleted⟩ := (Option.any_eq_true _ _).mp hcheck
  refine ⟨pool, row, hreach, hrow, fun later hlater => ?_⟩
  have hauthority := (product_authority hreach 1).2 row hrow later hlater
  exact hauthority.2 (Option.isSome_iff_ne_none.mp hdeleted)

end MarketPlace.Trade
