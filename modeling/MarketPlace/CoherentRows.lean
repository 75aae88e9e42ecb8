import MarketPlace.ChatOutlines
import MarketPlace.ConversationDetails
import MarketPlace.DeletedSellers
import MarketPlace.LatestMessages

/-!
# References of conversations and blocks

Conversations refer to products and messages, messages to their senders, and
blocks to users.  In every reachable market these references are what the
services take them for.
-/

namespace MarketPlace.Trade

open Interleaving Relational

/-- The product of a conversation is there, and so are users who block and who
are blocked, which are different ones. -/
structure Database.Referenced (db : Database) : Prop where
  products : ∀ id row productId, db.conversations.get id = some row →
    row.productId = some productId →
    (db.products.get productId).isSome = true
  blocks : ∀ row ∈ db.userBlocks.rows,
    (db.users.get row.blockerId).isSome = true ∧
      (db.users.get row.blockedId).isSome = true
  blockers : ∀ row ∈ db.userBlocks.rows, row.blockerId ≠ row.blockedId

theorem violation_insertConversation_product {db : Database}
    {row : ConversationRow} {productId : ℕ}
    (h : db.violation (.insertConversation row) = none)
    (hproduct : row.productId = some productId) :
    (db.products.get productId).isSome = true := by
  simp only [Database.violation, hproduct, Option.any_some] at h
  split at h
  · contradiction
  split at h
  · contradiction
  split at h
  · contradiction
  · next hthere =>
      simp only [Bool.or_eq_true, not_or, Option.isNone_iff_eq_none,
        ← Option.ne_none_iff_isSome] at hthere ⊢
      exact hthere.2

theorem violation_insertBlock_eq_none {db : Database} {row : BlockRow}
    (h : db.violation (.insertBlock row) = none) :
    row.blockerId ≠ row.blockedId ∧
      (db.users.get row.blockerId).isSome = true ∧
        (db.users.get row.blockedId).isSome = true := by
  simp only [Database.violation] at h
  split at h
  · contradiction
  next hother =>
  split at h
  · contradiction
  · next hthere =>
      simp only [Bool.or_eq_true, not_or, Option.isNone_iff_eq_none,
        ← Option.ne_none_iff_isSome] at hthere ⊢
      exact ⟨hother, hthere⟩

/-- A conversation after a write was about this product before, or the write
has checked that it is there. -/
theorem Database.conversationProduct_of_apply {db : Database} {change : Change}
    {id productId : ℕ} {row : ConversationRow}
    (hwarranted : change.Warranted db)
    (hrow : (db.apply change).conversations.get id = some row)
    (hproduct : row.productId = some productId) :
    (∃ old, db.conversations.get id = some old ∧
      old.productId = some productId) ∨
      (db.products.get productId).isSome = true := by
  cases change with
  | insertConversation other =>
      rcases Table.get_insert_eq_some hrow with hold | ⟨hnew, -⟩
      · exact .inl ⟨row, hold, hproduct⟩
      · exact .inr (violation_insertConversation_product
          (hwarranted.resolve_left Bool.false_ne_true) (hnew ▸ hproduct))
  | setConversationProduct conversationId newProductId =>
      obtain ⟨old, hold, hnew⟩ := Table.get_modify_eq_some (by intro; rfl) hrow
      split at hnew
      · next hid =>
          subst hnew
          obtain rfl := Option.some.inj hproduct
          have hthere := hwarranted.resolve_left Bool.false_ne_true
          have hkey : old.id = conversationId := of_decide_eq_true hid
          have hid' : old.id = id := Table.key_of_get hold
          simp only [violation, ← hkey, hid', hold, Option.isSome_some,
            Bool.true_and] at hthere
          split at hthere
          · contradiction
          · next hproduct =>
              refine .inr ?_
              rw [← Option.ne_none_iff_isSome, Ne, ← Option.isNone_iff_eq_none]
              exact hproduct
      · subst hnew
        exact .inl ⟨old, hold, hproduct⟩
  | setLastMessage =>
      obtain ⟨old, hold, hnew⟩ := Table.get_modify_eq_some (by intro; rfl) hrow
      refine .inl ⟨old, hold, ?_⟩
      split at hnew <;> subst hnew <;> exact hproduct
  | _ => exact .inl ⟨row, hrow, hproduct⟩

theorem Database.block_of_apply {db : Database} {change : Change}
    {row : BlockRow} (h : row ∈ (db.apply change).userBlocks.rows) :
    row ∈ db.userBlocks.rows ∨ change = .insertBlock row := by
  cases change with
  | insertBlock other =>
      rcases Table.mem_insert h with hold | hnew
      · exact .inl hold
      · exact .inr (hnew ▸ rfl)
  | deleteBlock other => exact .inl (List.mem_of_mem_filter h)
  | _ => exact .inl h

theorem Database.Referenced.apply {db : Database} {change : Change}
    (h : db.Referenced) (hwarranted : change.Warranted db) :
    (db.apply change).Referenced := by
  have hgrows := db.grows_apply change
  constructor
  · intro id row productId hrow hproduct
    rcases conversationProduct_of_apply hwarranted hrow hproduct with
      ⟨old, hold, hsame⟩ | hthere
    · exact hgrows.product_isSome (h.products id old productId hold hsame)
    · exact hgrows.product_isSome hthere
  · intro row hrow
    rcases block_of_apply hrow with hold | rfl
    · obtain ⟨hblocker, hblocked⟩ := h.blocks row hold
      exact ⟨hgrows.user_isSome hblocker, hgrows.user_isSome hblocked⟩
    · obtain ⟨-, hblocker, hblocked⟩ := violation_insertBlock_eq_none
        (hwarranted.resolve_left Bool.false_ne_true)
      exact ⟨hgrows.user_isSome hblocker, hgrows.user_isSome hblocked⟩
  · intro row hrow
    rcases block_of_apply hrow with hold | rfl
    · exact h.blockers row hold
    · exact (violation_insertBlock_eq_none
        (hwarranted.resolve_left Bool.false_ne_true)).1

/-- Every conversation points to a message of its own. -/
def PointersWithin (db : Database) : Prop :=
  ∀ id row messageId, db.conversations.get id = some row →
    row.lastMessageId = some messageId →
    ∃ message, db.messages.get messageId = some message ∧
      message.conversationId = id

theorem Database.lastMessageId_of_apply {db : Database} {change : Change}
    {id messageId : ℕ} {row : ConversationRow}
    (hrow : (db.apply change).conversations.get id = some row)
    (hmessage : row.lastMessageId = some messageId) :
    (∃ old, db.conversations.get id = some old ∧
      old.lastMessageId = some messageId) ∨
      change = .setLastMessage id messageId ∨
        change = .insertConversation row := by
  cases change with
  | insertConversation other =>
      rcases Table.get_insert_eq_some hrow with hold | ⟨hnew, -⟩
      · exact .inl ⟨row, hold, hmessage⟩
      · exact .inr (.inr (hnew ▸ rfl))
  | setConversationProduct conversationId productId =>
      obtain ⟨old, hold, hnew⟩ := Table.get_modify_eq_some (by intro; rfl) hrow
      refine .inl ⟨old, hold, ?_⟩
      split at hnew <;> subst hnew <;> exact hmessage
  | setLastMessage conversationId other =>
      obtain ⟨old, hold, hnew⟩ := Table.get_modify_eq_some (by intro; rfl) hrow
      split at hnew
      · next hid =>
          subst hnew
          obtain rfl := Option.some.inj hmessage
          have hkey : old.id = id := Table.key_of_get hold
          exact .inr (.inl (by rw [← hkey, of_decide_eq_true hid]))
      · subst hnew
        exact .inl ⟨old, hold, hmessage⟩
  | _ => exact .inl ⟨row, hrow, hmessage⟩

theorem ChatStep.pointersWithin {i : ℕ} {m m' : Market}
    (hstep : ChatStep i m m') (h : PointersWithin m.db) :
    PointersWithin m'.db := by
  cases hstep with
  | aside hmessages hconversations hhistory hnew =>
      rw [PointersWithin, hmessages, hconversations]
      exact h
  | lost change hdb hhistory => exact hdb ▸ h
  | wrote actor at_ change hoffered hviolation hdb hhistory =>
      rw [hdb]
      intro id row messageId hrow hmessage
      have hkept : ∀ message, m.db.messages.get messageId = some message →
          message.conversationId = id →
          ∃ message', (m.db.apply change).messages.get messageId =
              some message' ∧ message'.conversationId = id := by
        intro message hget hin
        obtain ⟨message', hget', hsame⟩ :=
          (m.db.grows_apply change).messages messageId message hget
        exact ⟨message', hget', hsame.conversation.trans hin⟩
      rcases Database.lastMessageId_of_apply hrow hmessage with
        ⟨old, hold, hsame⟩ | rfl | rfl
      · obtain ⟨message, hget, hin⟩ := h id old messageId hold hsame
        exact hkept message hget hin
      · obtain ⟨message, hget, hin⟩ := hoffered
        exact hkept message hget hin
      · obtain ⟨-, hnone, -⟩ := hoffered
        rw [hnone] at hmessage
        contradiction

/-! ## Runs -/

section Runs

variable {app : Deployment} {now user other : ℕ}
  {pool : Pool Request Draw Market Fault Response}

theorem referenced_of_reaches
    (hreach : (market app).Reaches (fun _ _ => True) (Pool.opening now) pool) :
    pool.state.db.Referenced := by
  rw [traced_of_reaches hreach, ← opened_of_reaches hreach]
  refine stored_lawful (fun event db => event.Warranted db) Database.Referenced
    (warranted_of_reaches hreach) ?_ fun _ _ change hevent hchange hdb =>
      hdb.apply (hevent change hchange)
  rw [opened_of_reaches hreach]
  constructor
  · exact fun _ _ _ h => nomatch h
  · exact fun _ h => absurd h List.not_mem_nil
  · exact fun _ h => absurd h List.not_mem_nil

theorem pointersWithin_of_reaches
    (hreach : (market app).Reaches (fun _ _ => True) (Pool.opening now) pool) :
    PointersWithin pool.state.db := by
  refine hreach.furtherWithin market_sound onCourse_opening
    (fun m => PointersWithin m.db) (fun _ _ _ h => nomatch h) ?_ ?_
  · exact fun hacts _ h => hacts.chatStep.pointersWithin h
  · exact fun event m _ h =>
      (Market.chatStep_surroundings event 0 m).pointersWithin h

/-- What the answers rely on: the product, the parties and the last message of
a conversation are what they should be. -/
structure Database.Coherent (db : Database) : Prop where
  referenced : db.Referenced
  senders : SendersTakePart db
  pointers : PointersWithin db

theorem coherent_of_reaches
    (hreach : (market app).Reaches (fun _ _ => True) (Pool.opening now) pool) :
    pool.state.db.Coherent :=
  ⟨referenced_of_reaches hreach, senders_take_part hreach,
    pointersWithin_of_reaches hreach⟩

/-- Two users whom a block separates are different ones. -/
theorem ne_of_blocked
    (hreach : (market app).Reaches (fun _ _ => True) (Pool.opening now) pool)
    (hblocked : pool.state.db.hasBlockBetweenUsers user other = true) :
    user ≠ other := by
  rintro rfl
  obtain ⟨row, hrow, hpair⟩ := List.any_eq_true.mp hblocked
  have hne := (referenced_of_reaches hreach).blockers row hrow
  simp only [Bool.or_eq_true, Bool.and_eq_true, decide_eq_true_eq] at hpair
  omega

/-- A user whom a block separates from another one has a positive id. -/
theorem positive_of_blocked
    (hreach : (market app).Reaches (fun _ _ => True) (Pool.opening now) pool)
    (hblocked : pool.state.db.hasBlockBetweenUsers user other = true) :
    0 < user := by
  have hpositive := usersPositive_of_reaches hreach
  obtain ⟨row, hrow, hpair⟩ := List.any_eq_true.mp hblocked
  obtain ⟨hblocker, hblocked⟩ := (referenced_of_reaches hreach).blocks row hrow
  obtain ⟨blocker, hblocker⟩ := Option.isSome_iff_exists.mp hblocker
  obtain ⟨blocked, hblocked⟩ := Option.isSome_iff_exists.mp hblocked
  have hleft := hpositive.users _ _ hblocker
  have hright := hpositive.users _ _ hblocked
  simp only [Bool.or_eq_true, Bool.and_eq_true, decide_eq_true_eq] at hpair
  omega

end Runs

end MarketPlace.Trade
