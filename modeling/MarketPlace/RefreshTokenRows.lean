import MarketPlace.OtpHistories

/-!
# Rows of refresh tokens along a lawful history

The row of a refresh token appears when its jti is saved.  A consuming
statement that finds it takes it away, a revoking statement marks it, and from
either of them on no statement takes it again unless the jti is saved once
more, whose ON CONFLICT branch clears the mark.
-/

namespace MarketPlace

open EventLog

variable {app : Deployment} {history past before : List Event}
  {event : Event} {jti : String}

/-! ## Writes that touch a row -/

/-- The write saves, takes or revokes the row of this refresh token. -/
def Write.touchesRefreshToken (jti : String) : Write → Bool
  | .saveRefreshToken other _ _ | .consumeRefreshToken other _
  | .revokeRefreshToken other _ => other = jti
  | _ => false

theorem Database.authRefreshTokens_apply {db : Database} {write : Write}
    {jti : String} (hnot : write.touchesRefreshToken jti = false) :
    (db.apply write).authRefreshTokens.get jti =
      db.authRefreshTokens.get jti := by
  cases write with
  | saveRefreshToken other userId expiresAt =>
      have hne : other ≠ jti := by simpa [Write.touchesRefreshToken] using hnot
      exact Relational.Table.get_upsert_of_ne hne
  | consumeRefreshToken other now =>
      have hne : other ≠ jti := by simpa [Write.touchesRefreshToken] using hnot
      simp only [apply, Relational.Table.get_filter]
      cases hget : db.authRefreshTokens.get jti with
      | none => rfl
      | some row =>
          have hjti : row.jti = jti := Relational.Table.key_of_get hget
          simp [Option.filter, hjti, hne.symm]
  | revokeRefreshToken other now =>
      have hne : other ≠ jti := by simpa [Write.touchesRefreshToken] using hnot
      simp only [apply, Relational.Table.get_modify]
      cases hget : db.authRefreshTokens.get jti with
      | none => rfl
      | some row =>
          have hjti : row.jti = jti := Relational.Table.key_of_get hget
          simp [hjti, hne.symm]
  | insertUser row =>
      simp only [apply]
      split <;> rfl
  | _ => rfl

/-- Nothing has saved, taken or revoked the refresh token's row after
`past`. -/
def RefreshRowUntouched (jti : String) (past history : List Event) : Prop :=
  ∀ i now write before, Happened (.wrote i now write) before history →
    past <:+ before → write.touchesRefreshToken jti = false

theorem LawfulHistory.refreshRow_kept {jti : String}
    (hlawful : LawfulHistory app history) (hsuffix : past <:+ history)
    (huntouched : RefreshRowUntouched jti past history) :
    (stored history).authRefreshTokens.get jti =
      (stored past).authRefreshTokens.get jti := by
  refine since (fun log => (stored log).authRefreshTokens.get jti =
    (stored past).authRefreshTokens.get jti) hsuffix rfl ?_
  intro event before hevent hbefore hsame
  by_cases hwrote : ∃ i now write, event = .wrote i now write
  · obtain ⟨i, now, write, rfl⟩ := hwrote
    rw [stored_cons, Event.effect, Database.authRefreshTokens_apply
      (huntouched i now write before hevent hbefore)]
    exact hsame
  · have hnot : ∀ i now write, event ≠ .wrote i now write :=
      fun i now write heq => hwrote ⟨i, now, write, heq⟩
    have hframe := (hlawful.justified hevent).frame hnot (stored before)
    rw [stored_cons, hframe.2.2.2.1]
    exact hsame

/-! ## Spent tokens -/

/-- The row is gone or revoked. -/
def TokenSpent (db : Database) (jti : String) : Prop :=
  ∀ row, db.authRefreshTokens.get jti = some row → row.revokedAt.isSome = true

theorem TokenSpent.not_consumable {db : Database} {userId now : ℕ}
    (hspent : TokenSpent db jti) : ¬ ConsumableRow db jti userId now := by
  rintro ⟨row, hget, hconsumable, -⟩
  have hrevoked := hspent row hget
  simp only [RefreshTokenRow.consumable, Bool.and_eq_true,
    Option.isNone_iff_eq_none] at hconsumable
  simp [hconsumable.1] at hrevoked

theorem tokenSpent_of_revoke (db : Database) (now : ℕ) :
    TokenSpent (db.apply (.revokeRefreshToken jti now)) jti := by
  intro row hget
  simp only [Database.apply, Relational.Table.get_modify,
    Option.map_eq_some_iff] at hget
  obtain ⟨old, hold, rfl⟩ := hget
  have hjti : old.jti = jti := Relational.Table.key_of_get hold
  simp [hjti]

theorem tokenSpent_of_consume {db : Database} {userId now : ℕ}
    (hrow : ConsumableRow db jti userId now) :
    TokenSpent (db.apply (.consumeRefreshToken jti now)) jti := by
  intro row hget
  obtain ⟨old, hold, hconsumable, -⟩ := hrow
  have hjti : old.jti = jti := Relational.Table.key_of_get hold
  simp only [Database.apply, Relational.Table.get_filter, hold,
    Option.filter_eq_some_iff, Option.some.injEq] at hget
  obtain ⟨rfl, htaken⟩ := hget
  simp [hjti, hconsumable] at htaken

theorem TokenSpent.apply {db : Database} {write : Write}
    (hspent : TokenSpent db jti)
    (hnot : ∀ userId expiresAt,
      write ≠ .saveRefreshToken jti userId expiresAt) :
    TokenSpent (db.apply write) jti := by
  by_cases htouches : write.touchesRefreshToken jti = false
  · intro row hget
    rw [Database.authRefreshTokens_apply htouches] at hget
    exact hspent row hget
  · cases write with
    | saveRefreshToken other userId expiresAt =>
        have hjti : other = jti := by simpa [Write.touchesRefreshToken] using htouches
        exact absurd (hjti ▸ rfl) (hnot userId expiresAt)
    | consumeRefreshToken other now =>
        intro row hget
        simp only [Database.apply, Relational.Table.get_filter,
          Option.filter_eq_some_iff] at hget
        exact hspent row hget.1
    | revokeRefreshToken other now =>
        have hjti : other = jti := by simpa [Write.touchesRefreshToken] using htouches
        exact hjti ▸ tokenSpent_of_revoke db now
    | _ => exact absurd rfl htouches

/-! ## Fresh jtis -/

/-- The jti that an event saves. -/
def Event.savedJti : Event → Option String
  | .wrote _ _ (.saveRefreshToken jti _ _) => some jti
  | _ => none

/-- No two saved refresh tokens have the same jti. -/
def FreshJtis (history : List Event) : Prop :=
  (history.filterMap Event.savedJti).Nodup

instance (history : List Event) : Decidable (FreshJtis history) :=
  inferInstanceAs (Decidable (List.Nodup _))

theorem FreshJtis.older (hfresh : FreshJtis history)
    (hsuffix : past <:+ history) : FreshJtis past :=
  hfresh.sublist (hsuffix.sublist.filterMap _)

theorem FreshJtis.not_before (hfresh : FreshJtis history)
    (hsaved : Happened event past history) (hjti : event.savedJti = some jti)
    {other : Event} (hother : other ∈ past) : other.savedJti ≠ some jti := by
  intro heq
  have hcons := hfresh.older hsaved
  rw [FreshJtis, List.filterMap_cons_some hjti, List.nodup_cons] at hcons
  exact hcons.1 (List.mem_filterMap.mpr ⟨other, hother, heq⟩)

/-- Two events that save the same jti are the same event. -/
theorem FreshJtis.unique (hfresh : FreshJtis history) {other : Event}
    (hevent : event ∈ history) (hother : other ∈ history)
    (hjti : event.savedJti = some jti) (hjti' : other.savedJti = some jti) :
    event = other := by
  obtain ⟨past, hpast⟩ := exists_happened hevent
  obtain ⟨past', hpast'⟩ := exists_happened hother
  rcases hpast.compare hpast' with hlt | hlt | ⟨heq, -⟩
  · exact absurd hjti' (hfresh.not_before hpast hjti hlt.mem)
  · exact absurd hjti (hfresh.not_before hpast' hjti' hlt.mem)
  · exact heq

/-- A spent token stays spent as long as its jti is not saved again. -/
theorem LawfulHistory.tokenSpent_kept
    (hlawful : LawfulHistory app history) (hsuffix : past <:+ history)
    (hspent : TokenSpent (stored past) jti)
    (hnot : ∀ event before, Happened event before history →
      past <:+ before → event.savedJti ≠ some jti) :
    TokenSpent (stored history) jti := by
  refine replay_preserves (fun db => TokenSpent db jti) hsuffix hspent ?_
  intro event before hevent hbefore hkept
  by_cases hwrote : ∃ i now write, event = .wrote i now write
  · obtain ⟨i, now, write, rfl⟩ := hwrote
    refine TokenSpent.apply hkept ?_
    rintro userId expiresAt rfl
    exact hnot _ before hevent hbefore rfl
  · have hframe := (hlawful.justified hevent).frame
      (fun i now write heq => hwrote ⟨i, now, write, heq⟩)
      (replay Event.effect Database.empty before)
    intro row hget
    rw [hframe.2.2.2.1] at hget
    exact hkept row hget

/-- With fresh jtis a token that is spent after it was saved is spent for
good. -/
theorem LawfulHistory.tokenSpent_since
    (hlawful : LawfulHistory app history) (hfresh : FreshJtis history)
    (hsuffix : past <:+ history) (hspent : TokenSpent (stored past) jti)
    {saved : Event} (hmem : saved ∈ past) (hsaved : saved.savedJti = some jti) :
    TokenSpent (stored history) jti := by
  refine hlawful.tokenSpent_kept hsuffix hspent ?_
  intro event before hevent hbefore hjti
  exact hfresh.not_before hevent hjti (hbefore.subset hmem) hsaved

/-- A row after a write was saved by it for its user, or is an older row of the
same user. -/
theorem Database.refreshRow_of_apply {db : Database} {write : Write}
    {row : RefreshTokenRow}
    (hget : (db.apply write).authRefreshTokens.get jti = some row) :
    (∃ expiresAt, write = .saveRefreshToken jti row.userId expiresAt) ∨
      ∃ old, db.authRefreshTokens.get jti = some old ∧
        old.userId = row.userId := by
  by_cases htouches : write.touchesRefreshToken jti = false
  · rw [authRefreshTokens_apply htouches] at hget
    exact .inr ⟨row, hget, rfl⟩
  · cases write with
    | saveRefreshToken other userId expiresAt =>
        obtain rfl : other = jti := by
          simpa [Write.touchesRefreshToken] using htouches
        have huser : row.userId = userId := by
          simp only [apply, Relational.Table.get_upsert_self
            db.authRefreshTokens ⟨other, userId, expiresAt, none⟩,
            Option.some.injEq] at hget
          rw [← hget]
          cases db.authRefreshTokens.get other <;> rfl
        exact .inl ⟨expiresAt, huser ▸ rfl⟩
    | consumeRefreshToken other now =>
        simp only [apply, Relational.Table.get_filter,
          Option.filter_eq_some_iff] at hget
        exact .inr ⟨row, hget.1, rfl⟩
    | revokeRefreshToken other now =>
        simp only [apply, Relational.Table.get_modify,
          Option.map_eq_some_iff] at hget
        obtain ⟨old, hold, rfl⟩ := hget
        refine .inr ⟨old, hold, ?_⟩
        split <;> rfl
    | _ => exact absurd rfl htouches

/-- A row is the trace of an event that saved it for its user. -/
theorem LawfulHistory.refreshRow_saved {row : RefreshTokenRow}
    (hlawful : LawfulHistory app history)
    (hget : (stored history).authRefreshTokens.get jti = some row) :
    ∃ i at_ expiresAt,
      .wrote i at_ (.saveRefreshToken jti row.userId expiresAt) ∈ history := by
  induction history generalizing row with
  | nil => simp [Database.empty] at hget
  | cons event history ih =>
      have hbefore := hlawful.before (List.suffix_cons event history)
      have hold : ∀ {old : RefreshTokenRow},
          (stored history).authRefreshTokens.get jti = some old →
          old.userId = row.userId → ∃ i at_ expiresAt,
            .wrote i at_ (.saveRefreshToken jti row.userId expiresAt) ∈
              event :: history := by
        intro old hget huser
        obtain ⟨i, at_, expiresAt, hmem⟩ := ih hbefore hget
        exact ⟨i, at_, expiresAt, List.mem_cons_of_mem _ (huser ▸ hmem)⟩
      by_cases hwrote : ∃ i now write, event = .wrote i now write
      · obtain ⟨i, now, write, rfl⟩ := hwrote
        rw [stored_cons, Event.effect] at hget
        rcases Database.refreshRow_of_apply hget with
          ⟨expiresAt, rfl⟩ | ⟨old, hget, huser⟩
        · exact ⟨i, now, expiresAt, List.mem_cons_self⟩
        · exact hold hget huser
      · have hframe := (hlawful.justified happened_self).frame
          (fun i now write heq => hwrote ⟨i, now, write, heq⟩) (stored history)
        rw [stored_cons, hframe.2.2.2.1] at hget
        exact hold hget rfl

end MarketPlace
