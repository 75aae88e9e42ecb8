import MarketPlace.LoneServices
import MarketPlace.ProductAuthority

/-!
# The owner's exception for unavailable products

`getOrCreateConversation` compares the owner of the product as the driver
returns it, a text, with the ids of the two users, which are numbers.  So
nobody is taken for the owner, and a product that is not available opens no
conversation.
-/

namespace MarketPlace.Trade

open Interleaving

/-- A call about the product, with nobody else acting, can end with a
conversation. -/
def Market.OpensAbout
    (m : Market) (userId participantId productId : ℕ) : Prop :=
  ∃ i ws view t,
    (getOrCreateConversation userId participantId (some productId)).Ends
      i ws m (.ok view) t

/-- The product's owner is one of the two users. -/
def ProductRow.OwnedByEither
    (row : ProductRow) (userId participantId : ℕ) : Prop :=
  row.ownerId = userId ∨ row.ownerId = participantId

variable {i : ℕ} {ws : List Draw} {m t : Market}
  {userId participantId productId : ℕ} {row : ProductRow}

/-- The check of an unavailable product does not depend on who owns it. -/
theorem productFault_of_unavailable (hstatus : row.status ≠ .available) :
    productFault userId participantId (some row) =
      some (.exception .forbidden
        "Product is not available for conversation") := by
  simp [productFault, BigintText.strictEquals, hstatus]

theorem not_ends_validateProduct {value : Option ℕ}
    (hproduct : m.db.liveProduct productId = some row)
    (hstatus : row.status ≠ .available) (hpos : 1 ≤ productId) :
    ¬ (validateProduct userId participantId (some productId)).Ends i ws m
      (.ok value) t := by
  rw [validateProduct, truthy_of_pos hpos]
  intro hends
  obtain ⟨rest, hcheck⟩ := ends_select_bind_ok hends
  have hview : (m.viewFor none i).liveProduct productId = some row := hproduct
  rw [hview, productFault_of_unavailable hstatus] at hcheck
  exact not_ends_failed_ok hcheck

theorem not_opensAbout_of_unavailable
    (hproduct : m.db.liveProduct productId = some row)
    (hstatus : row.status ≠ .available) (hpos : 1 ≤ productId) :
    ¬ m.OpensAbout userId participantId productId := by
  rintro ⟨i, ws, view, t, hends⟩
  unfold getOrCreateConversation at hends
  split at hends
  · exact not_ends_failed_ok hends
  obtain ⟨_, _, _, _, _, hassert, hafter⟩ := Program.ends_bind_ok.mp hends
  obtain ⟨rfl, -⟩ := ends_assertUserExists_ok hassert
  obtain ⟨_, hunblocked⟩ := ends_select_bind_ok hafter
  split at hunblocked
  · exact not_ends_failed_ok hunblocked
  obtain ⟨_, _, _, _, _, hvalidate, -⟩ := Program.ends_bind_ok.mp hunblocked
  exact not_ends_validateProduct hproduct hstatus hpos hvalidate

/-- An unavailable product opens a conversation exactly if its owner is one of
the two users: this holds of the products that belong to neither. -/
theorem owner_exception_iff
    (hproduct : m.db.liveProduct productId = some row)
    (hstatus : row.status ≠ .available) (hpos : 1 ≤ productId) :
    (m.OpensAbout userId participantId productId ↔
        row.OwnedByEither userId participantId) ↔
      ¬ row.OwnedByEither userId participantId := by
  have hrefused : ¬ m.OpensAbout userId participantId productId :=
    not_opensAbout_of_unavailable hproduct hstatus hpos
  tauto

/-- Two users register, and the first lists a product and sells it. -/
def sellsBicycle : List (Move Request Draw Surroundings) :=
  [Move.environment (Surroundings.userRegisters "Amina" "+201"),
    Move.environment (Surroundings.userRegisters "Basil" "+202"),
    Move.submit (Request.createProduct 1 sampleProduct)] ++
    List.replicate 6 (Move.advance 0 calmDraw) ++
    [Move.submit (Request.updateProductStatus 1 1 .sold)] ++
    List.replicate 4 (Move.advance 1 calmDraw)

/-- What is checked on the run of `sellsBicycle`. -/
def soldByFirst (db : Database) : Bool :=
  (db.liveUser 1).isSome && (db.liveUser 2).isSome &&
    !db.hasBlockBetweenUsers 1 2 &&
      (db.liveProduct 1).any fun row =>
        row.status = .sold && row.ownerId = 1

structure SoldByFirst (db : Database) (row : ProductRow) : Prop where
  first : (db.liveUser 1).isSome = true
  second : (db.liveUser 2).isSome = true
  unblocked : db.hasBlockBetweenUsers 1 2 = false
  product : db.liveProduct 1 = some row
  sold : row.status = .sold
  owner : row.ownerId = 1

theorem exists_soldByFirst :
    ∃ pool row, (market sampleApp).Reaches (fun _ _ => True) (Pool.opening 0)
        pool ∧ SoldByFirst pool.state.db row := by
  obtain ⟨pool, hreach, hcheck⟩ := System.exists_reaches_of_run
    (show ((market sampleApp).run sellsBicycle (Pool.opening 0)).any
      (fun pool => soldByFirst pool.state.db) = true by decide +kernel)
  simp only [soldByFirst, Bool.and_eq_true, Bool.not_eq_true',
    Option.any_eq_true, decide_eq_true_eq] at hcheck
  obtain ⟨⟨⟨hfirst, hsecond⟩, hunblocked⟩, row, hproduct, hsold, howner⟩ :=
    hcheck
  exact ⟨pool, row, hreach, hfirst, hsecond, hunblocked, hproduct, hsold,
    howner⟩

/-- For a product that the first user has sold. -/
theorem owner_exception_iff_sold :
    ∃ pool row, (market sampleApp).Reaches (fun _ _ => True) (Pool.opening 0)
        pool ∧ pool.state.db.liveProduct 1 = some row ∧
      ((pool.state.OpensAbout 1 2 1 ↔ row.OwnedByEither 1 2) ↔
        ¬ row.OwnedByEither 1 2) := by
  obtain ⟨pool, row, hreach, hsold⟩ := exists_soldByFirst
  have hstatus : row.status ≠ .available := by
    rw [hsold.sold]
    decide
  exact ⟨pool, row, hreach, hsold.product,
    owner_exception_iff hsold.product hstatus (by decide)⟩

/-- The seller of a sold product cannot open a conversation about it. -/
theorem not_always_owner_exception :
    ¬ ∀ (pool : Pool Request Draw Market Fault Response)
      (userId participantId productId : ℕ) (row : ProductRow),
      (market sampleApp).Reaches (fun _ _ => True) (Pool.opening 0) pool →
      userId ≠ participantId →
      (pool.state.db.liveUser userId).isSome = true →
      (pool.state.db.liveUser participantId).isSome = true →
      pool.state.db.hasBlockBetweenUsers userId participantId = false →
      pool.state.db.liveProduct productId = some row →
      row.status ≠ .available →
      (pool.state.OpensAbout userId participantId productId ↔
        row.OwnedByEither userId participantId) := by
  intro halways
  obtain ⟨pool, row, hreach, hsold⟩ := exists_soldByFirst
  have hstatus : row.status ≠ .available := by
    rw [hsold.sold]
    decide
  have hiff := halways pool 1 2 1 row hreach (by decide) hsold.first
    hsold.second hsold.unblocked hsold.product hstatus
  exact not_opensAbout_of_unavailable hsold.product hstatus (by decide)
    (hiff.mpr (.inl hsold.owner))

end MarketPlace.Trade
