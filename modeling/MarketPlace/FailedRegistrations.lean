import MarketPlace.GivenRuns
import MarketPlace.LoneHandlers

/-!
# Registration requests that fail

`requestRegistrationOtp` overwrites a pending registration of the phone in
place before it starts the verification, and its cleanup deletes the row.  So
a request whose verification fails leaves the pending registrations as they
were only if the phone had none.
-/

namespace MarketPlace

open Interleaving Relational

variable {app : Deployment} {i : ℕ} {ws : List Draw} {w t : World}

/-! ## The pending registrations of a phone -/

/-- Both hold the same rows of pending_registrations. -/
def SamePending (db db' : Database) : Prop :=
  ∀ row, row ∈ db'.pendingRegistrations.rows ↔
    row ∈ db.pendingRegistrations.rows

theorem samePending_iff {db db' : Database} :
    SamePending db db' ↔ ∀ phone,
      db'.pendingRegistrations.get phone =
        db.pendingRegistrations.get phone := by
  constructor
  · intro hsame phone
    ext row
    rw [Table.get_eq_some_iff, Table.get_eq_some_iff, hsame row]
  · intro hget row
    constructor
    · intro hmem
      exact Table.mem_of_get ((hget _).symm.trans (Table.get_of_mem hmem))
    · intro hmem
      exact Table.mem_of_get ((hget _).trans (Table.get_of_mem hmem))

/-- What the upsert leaves of a row that is there. -/
def PendingRegistrationRow.overwritten
    (row old : PendingRegistrationRow) : PendingRegistrationRow :=
  { old with
    name := row.name
    passwordHash := row.passwordHash
    expiresAt := row.expiresAt
    createdAt := row.createdAt }

section Writes

variable {db : Database} {row : PendingRegistrationRow}

theorem get_upsertPending_self :
    (db.apply (.upsertPending row)).pendingRegistrations.get row.phone =
      some ((db.pendingRegistrations.get row.phone).elim row row.overwritten) :=
  Table.get_upsert_self _ _ _ _

theorem get_upsertPending_of_ne {phone : String} (hne : row.phone ≠ phone) :
    (db.apply (.upsertPending row)).pendingRegistrations.get phone =
      db.pendingRegistrations.get phone :=
  Table.get_upsert_of_ne hne

theorem get_deletePendingById (id : ℕ) (phone : String) :
    (db.apply (.deletePendingById id)).pendingRegistrations.get phone =
      (db.pendingRegistrations.get phone).filter fun row => row.id ≠ id :=
  Table.get_filter _ _ _

/-- The upsert changes nothing only where it writes what is there. -/
theorem samePending_upsert_iff :
    SamePending db (db.apply (.upsertPending row)) ↔
      ∃ old, db.pendingRegistrations.get row.phone = some old ∧
        row.overwritten old = old := by
  rw [samePending_iff]
  constructor
  · intro hsame
    have hself := hsame row.phone
    rw [get_upsertPending_self] at hself
    cases hold : db.pendingRegistrations.get row.phone with
    | none => simp [hold] at hself
    | some old =>
        rw [hold] at hself
        exact ⟨old, rfl, Option.some.inj hself⟩
  · rintro ⟨old, hold, hsame⟩ phone
    by_cases hphone : row.phone = phone
    · subst hphone
      rw [get_upsertPending_self, hold]
      exact congrArg some hsame
    · exact get_upsertPending_of_ne hphone

/-- The upsert followed by the cleanup changes nothing only where the phone had
no row. -/
theorem samePending_cleanup_iff {id : ℕ}
    (hfresh : ∀ other ∈ db.pendingRegistrations.rows, other.id ≠ row.id)
    (hid : ((db.pendingRegistrations.get row.phone).elim row
      row.overwritten).id = id) :
    SamePending db ((db.apply (.upsertPending row)).apply
        (.deletePendingById id)) ↔
      db.pendingRegistrations.get row.phone = none := by
  rw [samePending_iff]
  constructor
  · intro hsame
    have hself := hsame row.phone
    rw [get_deletePendingById, get_upsertPending_self] at hself
    rw [← hself]
    simp [hid]
  · intro hnone phone
    rw [hnone] at hid
    rw [get_deletePendingById]
    by_cases hphone : row.phone = phone
    · subst hphone
      rw [get_upsertPending_self, hnone]
      simpa using hid
    · rw [get_upsertPending_of_ne hphone]
      cases hother : db.pendingRegistrations.get phone with
      | none => rfl
      | some other =>
          have hne : other.id ≠ id :=
            fun h => hfresh other (Table.mem_of_get hother) (h.trans hid.symm)
          simp [hne]

end Writes

/-! ## The request -/

/-- The row that the upsert of a request inserts. -/
def requestedRow (app : Deployment) (dto : RequestRegistrationOtpDto)
    (d : Draw) (w : World) : PendingRegistrationRow where
  id := w.ids.pendingRegistrations
  phone := dto.phone
  name := dto.name
  passwordHash :=
    app.libraries.bcryptHash dto.password bcryptRounds d.passwordSalt
  expiresAt := w.now + microseconds (app.config.otpTtlMinutes * 60)
  createdAt := w.now

/-- The request is over before the upsert, or the upsert fails; or the phone
has no pending registration and the cleanup, which is the seventh action, does
not fail.  A failing cleanup is harmless only where the upsert wrote what was
there already. -/
def TracelessIfFailed (app : Deployment) (dto : RequestRegistrationOtpDto)
    (ws : List Draw) (w : World) : Prop :=
  (w.db.userByPhone dto.phone).isSome = true ∨ FailsAt ws 0 ∨ FailsAt ws 2 ∨
    (w.db.pendingRegistrations.get dto.phone = none ∧ ¬ FailsAt ws 6) ∨
    (FailsAt ws 6 ∧ ∃ d old, ws[1]? = some d ∧
      w.db.pendingRegistrations.get dto.phone = some old ∧
        (requestedRow app dto d w).overwritten old = old)

variable {dto : RequestRegistrationOtpDto} {error : HttpError}

/-- The console provider fails only where its INSERT does. -/
theorem ends_consoleStartVerification_error
    {payload : StartVerificationPayload}
    (h : (consoleStartVerification app payload).Ends i ws w (.error error) t) :
    ∃ d₀ d₁ d₂, ws = [d₀, d₁, d₂] ∧ t = w := by
  obtain ⟨d₀, _, rfl, hsalt⟩ := ends_draw_bind h
  obtain ⟨d₁, _, rfl, hinsert⟩ := ends_draw_bind hsalt
  obtain ⟨d₂, _, rfl, ⟨-, rfl, rfl, -⟩ | ⟨-, hdone⟩⟩ :=
    ends_execute_bind hinsert
  · exact ⟨d₀, d₁, d₂, rfl, rfl⟩
  · exact absurd hdone.2.1 (by simp)

/-- The cleanup is tried, and its error is not thrown. -/
theorem ends_cleanup {pendingId : Option ℕ} {id : ℕ}
    {result : Except HttpError Response} (hid : pendingId = some id)
    (h : (((deletePendingById pendingId).recover fun _ => pure ()) >>=
      fun _ => (throw error : Handler Response)).Ends i ws w result t) :
    ∃ d, ws = [d] ∧
      ((d.databaseFails = true ∧ t = w) ∨
      (d.databaseFails = false ∧
        t = w.autocommit i (.deletePendingById id))) := by
  subst hid
  obtain ⟨d, rest, outcome, u, rfl, haction, hnext⟩ := h
  refine ⟨d, ?_⟩
  cases hfails : d.databaseFails with
  | true =>
      simp only [hfails, if_true, Option.some.injEq, Prod.mk.injEq] at haction
      obtain ⟨rfl, rfl⟩ := haction
      obtain ⟨rfl, -, rfl⟩ := hnext
      exact ⟨rfl, .inl ⟨rfl, rfl⟩⟩
  | false =>
      simp only [hfails, Bool.false_eq_true, if_false] at haction
      obtain ⟨-, haction⟩ := Option.ite_none_right_eq_some.mp haction
      obtain ⟨rfl, rfl⟩ := Prod.mk.inj (Option.some.inj haction)
      obtain ⟨rfl, -, rfl⟩ := hnext
      exact ⟨rfl, .inr ⟨rfl, rfl⟩⟩

theorem samePending_refl (db : Database) : SamePending db db :=
  fun _ => Iff.rfl

/-- How a request that throws went on: it was over by the upsert, or the
cleanup came after the upsert. -/
inductive FailedRequest (app : Deployment) (dto : RequestRegistrationOtpDto)
    (i : ℕ) (w t : World) : List Draw → Prop
  | unread (d₀ : Draw) (hfails : d₀.databaseFails = true) (hsame : t = w) :
      FailedRequest app dto i w t [d₀]
  | taken (d₀ : Draw) (htaken : (w.db.userByPhone dto.phone).isSome = true)
      (hsame : t = w) : FailedRequest app dto i w t [d₀]
  | unwritten (d₀ d₁ d₂ : Draw) (hfails : d₂.databaseFails = true)
      (hsame : t = w) : FailedRequest app dto i w t [d₀, d₁, d₂]
  | kept (d₀ d₁ d₂ d₃ d₄ d₅ d₆ : Draw)
      (hfree : (w.db.userByPhone dto.phone).isSome = false)
      (hread : d₀.databaseFails = false) (hwrites : d₂.databaseFails = false)
      (hfails : d₆.databaseFails = true)
      (hdb : t.db = w.db.apply (.upsertPending (requestedRow app dto d₁ w))) :
      FailedRequest app dto i w t [d₀, d₁, d₂, d₃, d₄, d₅, d₆]
  | deleted (d₀ d₁ d₂ d₃ d₄ d₅ d₆ : Draw) (id : ℕ)
      (hfree : (w.db.userByPhone dto.phone).isSome = false)
      (hread : d₀.databaseFails = false) (hwrites : d₂.databaseFails = false)
      (hdeletes : d₆.databaseFails = false)
      (hid : ((w.db.pendingRegistrations.get dto.phone).elim
        (requestedRow app dto d₁ w)
        (requestedRow app dto d₁ w).overwritten).id = id)
      (hdb : t.db = (w.db.apply (.upsertPending (requestedRow app dto d₁ w))).apply
        (.deletePendingById id)) :
      FailedRequest app dto i w t [d₀, d₁, d₂, d₃, d₄, d₅, d₆]

theorem failedRequest_of_ends
    (h : (requestRegistrationOtp app dto).Ends i ws w (.error error) t) :
    FailedRequest app dto i w t ws := by
  obtain ⟨d₀, _, rfl, ⟨hfails, rfl, rfl, -⟩ | ⟨hread, hchecked⟩⟩ :=
    ends_select_bind h
  · exact .unread d₀ hfails rfl
  split at hchecked
  · next htaken =>
      obtain ⟨rfl, -, rfl⟩ := hchecked
      exact .taken d₀ htaken rfl
  next hfree =>
  rw [Bool.not_eq_true] at hfree
  obtain ⟨d₁, _, rfl, hhashed⟩ := ends_draw_bind hchecked
  obtain ⟨d₂, _, rfl, ⟨hfails, rfl, rfl, -⟩ | ⟨hwrites, hwritten⟩⟩ :=
    ends_execute_bind hhashed
  · exact .unwritten d₀ d₁ d₂ hfails rfl
  split at hwritten
  · exact absurd hwritten.2.1 (by simp)
  next hconsole =>
  rcases Program.ends_recover.mp hwritten with
    ⟨value, hok, -⟩ | ⟨first, rest, error', u, rfl, hstart, hcleanup⟩
  · contradiction
  have hprovider : app.config.otpProvider = .console := by
    cases hcase : app.config.otpProvider with
    | console => rfl
    | akedly => exact absurd hcase hconsole
  rw [startVerification, hprovider] at hstart
  rcases Program.ends_bind.mp hstart with
    ⟨error'', herror, hstarted⟩ | ⟨_, _, value, v, _, _, hdone⟩
  · obtain ⟨d₃, d₄, d₅, rfl, rfl⟩ :=
      ends_consoleStartVerification_error hstarted
    have hget := @get_upsertPending_self w.db (requestedRow app dto d₁ w)
    have hid := congrArg (Option.map PendingRegistrationRow.id) hget
    obtain ⟨d₆, rfl, ⟨hfails, rfl⟩ | ⟨hdeletes, rfl⟩⟩ :=
      ends_cleanup hid hcleanup
    · exact .kept d₀ d₁ d₂ d₃ d₄ d₅ d₆ hfree hread hwrites hfails rfl
    · exact .deleted d₀ d₁ d₂ d₃ d₄ d₅ d₆ _ hfree hread hwrites hdeletes rfl rfl
  · exact absurd hdone.2.1 (by simp)

/-- A request that throws leaves the pending registrations as they were
exactly under `TracelessIfFailed`.  The identity column gives out an id that no
row has. -/
theorem failed_request_traceless_iff
    (hfresh : ∀ row ∈ w.db.pendingRegistrations.rows,
      row.id ≠ w.ids.pendingRegistrations)
    (hthrows : (requestRegistrationOtp app dto).Ends i ws w (.error error) t) :
    SamePending w.db t.db ↔ TracelessIfFailed app dto ws w := by
  cases failedRequest_of_ends hthrows with
  | unread d₀ hfails hsame =>
      subst hsame
      exact iff_of_true (samePending_refl _) (.inr (.inl ⟨d₀, rfl, hfails⟩))
  | taken d₀ htaken hsame =>
      subst hsame
      exact iff_of_true (samePending_refl _) (.inl htaken)
  | unwritten d₀ d₁ d₂ hfails hsame =>
      subst hsame
      exact iff_of_true (samePending_refl _)
        (.inr (.inr (.inl ⟨d₂, rfl, hfails⟩)))
  | kept d₀ d₁ d₂ d₃ d₄ d₅ d₆ hfree hread hwrites hfails hdb =>
      rw [hdb, samePending_upsert_iff]
      simp [TracelessIfFailed, FailsAt, hfree, hread, hwrites, hfails,
        requestedRow]
  | deleted d₀ d₁ d₂ d₃ d₄ d₅ d₆ id hfree hread hwrites hdeletes hid hdb =>
      rw [hdb, samePending_cleanup_iff hfresh hid]
      simp [TracelessIfFailed, FailsAt, hfree, hread, hwrites, hdeletes,
        requestedRow]

def sampleRegistration : RequestRegistrationOtpDto :=
  ⟨"Amina", "+201", "secret"⟩

/-- The phone asks for a registration, and nothing fails. -/
def asksForRegistration : List (Move Request Draw Surroundings) :=
  alone 0 (.requestRegistrationOtp sampleRegistration) 6

/-- The INSERT of the OTP fails, the sixth action of the request. -/
def otpInsertFails : List Draw :=
  List.replicate 5 sampleDraw ++
    [{ sampleDraw with databaseFails := true }, sampleDraw]

/-- What is checked on a second request of the phone that fails: the phone had
a pending registration, and has none any more. -/
def losesPending (w : World) (end_ : Except HttpError Response × World) : Bool :=
  (w.db.openPending "+201" w.now).isSome &&
    (end_.2.db.pendingRegistrations.get "+201").isNone &&
      !end_.1.isOk && w.db.pendingRegistrations.rows.all fun row =>
        row.id ≠ w.ids.pendingRegistrations

structure LosesPending (w t : World) : Prop where
  pending : (w.db.openPending "+201" w.now).isSome = true
  lost : t.db.pendingRegistrations.get "+201" = none
  fresh : ∀ row ∈ w.db.pendingRegistrations.rows,
    row.id ≠ w.ids.pendingRegistrations

theorem LosesPending.not_samePending {w t : World} (h : LosesPending w t) :
    ¬ SamePending w.db t.db := by
  intro hsame
  have hpending := h.pending
  have hlost := h.lost
  rw [samePending_iff.mp hsame] at hlost
  rw [Database.openPending, hlost] at hpending
  contradiction

theorem exists_losesPending :
    ∃ pool error t, Reachable (sampleDeployment .console) pool ∧
      (requestRegistrationOtp (sampleDeployment .console)
        sampleRegistration).Ends 1 otpInsertFails pool.state (.error error) t ∧
      LosesPending pool.state t := by
  obtain ⟨pool, hreach, hrun⟩ := exists_reachable_of_run
    (show ((backend (sampleDeployment .console)).run asksForRegistration
      (Pool.start 0)).any (fun pool =>
        ((requestRegistrationOtp (sampleDeployment .console)
          sampleRegistration).runUnder 1 otpInsertFails pool.state).any
            (losesPending pool.state)) = true by decide +kernel)
  obtain ⟨result, t, hends, hcheck⟩ := Program.exists_ends_of_runUnder hrun
  simp only [losesPending, Bool.and_eq_true, Bool.not_eq_true',
    Option.isNone_iff_eq_none, List.all_eq_true, decide_eq_true_eq] at hcheck
  obtain ⟨⟨⟨hpending, hlost⟩, hthrows⟩, hfresh⟩ := hcheck
  cases result with
  | ok value => contradiction
  | error error => exact ⟨pool, error, t, hreach, hends, hpending, hlost, hfresh⟩

/-- The second request of a phone whose OTP cannot be inserted. -/
theorem failed_request_traceless_iff_second :
    ∃ pool error t, Reachable (sampleDeployment .console) pool ∧
      (requestRegistrationOtp (sampleDeployment .console)
        sampleRegistration).Ends 1 otpInsertFails pool.state (.error error) t ∧
      (SamePending pool.state.db t.db ↔
        TracelessIfFailed (sampleDeployment .console) sampleRegistration
          otpInsertFails pool.state) := by
  obtain ⟨pool, error, t, hreach, hends, hloses⟩ := exists_losesPending
  exact ⟨pool, error, t, hreach, hends,
    failed_request_traceless_iff hloses.fresh hends⟩

/-- The valid pending registration of a phone is gone after a second request
that fails. -/
theorem not_always_traceless :
    ¬ ∀ (pool : Pool Request Draw World HttpError Response)
      (dto : RequestRegistrationOtpDto) (i : ℕ) (ws : List Draw)
      (error : HttpError) (t : World),
      Reachable (sampleDeployment .console) pool →
      (requestRegistrationOtp (sampleDeployment .console) dto).Ends i ws
        pool.state (.error error) t →
      SamePending pool.state.db t.db := by
  intro halways
  obtain ⟨pool, error, t, hreach, hends, hloses⟩ := exists_losesPending
  exact hloses.not_samePending
    (halways pool sampleRegistration 1 otpInsertFails error t hreach hends)

end MarketPlace
