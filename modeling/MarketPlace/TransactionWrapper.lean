import Mathlib.Data.List.Basic
import Mathlib.Logic.Relation
import Mathlib.Tactic.Tauto

/-!
# The transaction wrapper

`withTransaction` on one client of the pool: what it sends, what it throws and
in which state it gives the client back, whatever becomes of BEGIN, of the
statements of the callback, of COMMIT and of ROLLBACK.

A COMMIT of an aborted transaction succeeds, and ends it like a ROLLBACK.
-/

namespace MarketPlace.Connections

/-- What a connection is in; on a lost one the driver sends nothing. -/
inductive Session where
  | idle
  | inTransaction
  | aborted
  | lost
  deriving DecidableEq, Repr

/-- In an open or an aborted transaction. -/
def Session.isOpen : Session → Bool
  | .inTransaction | .aborted => true
  | .idle | .lost => false

inductive Statement where
  | begin
  | commit
  | rollback
  | other (text : String)
  deriving DecidableEq, Repr

/-- The server's answer to a statement, and what the connection is in after a
statement of the callback or a failed one. -/
inductive Answer (ρ ε : Type) where
  | succeeds (result : ρ) (left : Session)
  | fails (error : ε) (left : Session)

/-- A client that is lent, with the answers that it will get; `releases` lists
the sessions in which it was given back. -/
structure Client (ρ ε : Type) where
  session : Session
  answers : ℕ → Answer ρ ε
  sent : List Statement
  releases : List Session

/-- `pool.connect()`. -/
def connect (session : Session) (answers : ℕ → Answer ρ ε) : Client ρ ε where
  session := session
  answers := answers
  sent := []
  releases := []

/-- What runs on a client, with exceptions. -/
abbrev Work (ρ ε α : Type) := ExceptT ε (StateM (Client ρ ε)) α

/-- A callback: it decides by the answers what it sends next. -/
inductive Callback (ρ ε α : Type) where
  | done (outcome : Except ε α)
  | sends (statement : Statement) (next : Except ε ρ → Callback ρ ε α)

/-! ## The wrapper -/

def Session.after (left : Session) : Statement → Session
  | .begin => .inTransaction
  | .commit | .rollback => .idle
  | .other _ => left

section Model

variable (notQueryable : ε)

/-- `client.query`. -/
def query (statement : Statement) : Work ρ ε ρ := fun client =>
  let asked := { client with sent := client.sent ++ [statement] }
  if client.session = .lost then (.error notQueryable, asked)
  else
    match client.answers client.sent.length with
    | .succeeds result left =>
        (.ok result, { asked with session := left.after statement })
    | .fails error left => (.error error, { asked with session := left })

def Callback.run : Callback ρ ε α → Work ρ ε α
  | .done outcome => fun client => (outcome, client)
  | .sends statement next => fun client =>
      let (answer, asked) := query notQueryable statement client
      (next answer).run asked

/-- `client.release()`. -/
def release : Work ρ ε Unit := fun client =>
  (.ok (), { client with releases := client.releases ++ [client.session] })

/-- What stands under `try`. -/
def attempt (callback : Callback ρ ε α) : Work ρ ε α := do
  let _ ← query notQueryable .begin
  let result ← callback.run notQueryable
  let _ ← query notQueryable .commit
  return result

def withTransaction (callback : Callback ρ ε α) : Work ρ ε α := do
  try
    attempt notQueryable callback
  catch error =>
    let _ ← query notQueryable .rollback
    throw error
  finally
    release

end Model

/-! ## Exceptions -/

section Rules

variable {work : Work ρ ε α} {next : α → Work ρ ε β} {client after : Client ρ ε}

theorem bind_of_ok {result : α} (hwork : work client = (.ok result, after)) :
    (work >>= next) client = next result after := by
  change (StateT.bind work (ExceptT.bindCont next)) client = _
  simp only [StateT.bind]
  rw [hwork]
  rfl

theorem bind_of_error {error : ε}
    (hwork : work client = (.error error, after)) :
    (work >>= next) client = (.error error, after) := by
  change (StateT.bind work (ExceptT.bindCont next)) client = _
  simp only [StateT.bind]
  rw [hwork]
  rfl

theorem bind_eq_ok {result : β}
    (hbind : (work >>= next) client = (.ok result, after)) :
    ∃ passed between,
      work client = (.ok passed, between) ∧
        next passed between = (.ok result, after) := by
  rcases hwork : work client with ⟨error | passed, between⟩
  · rw [bind_of_error hwork] at hbind
    cases (Prod.mk.inj hbind).1
  · rw [bind_of_ok hwork] at hbind
    exact ⟨passed, between, rfl, hbind⟩

/-- What gives no client back. -/
def Keeps (work : Work ρ ε α) : Prop :=
  ∀ client, (work client).2.releases = client.releases

theorem Keeps.bind (hwork : Keeps work) (hnext : ∀ passed, Keeps (next passed)) :
    Keeps (work >>= next) := by
  intro client
  have hkept := hwork client
  rcases hrun : work client with ⟨error | passed, between⟩
  · rw [bind_of_error hrun]
    rw [hrun] at hkept
    exact hkept
  · rw [bind_of_ok hrun]
    rw [hrun] at hkept
    exact (hnext passed between).trans hkept

theorem keeps_pure (result : α) : Keeps (pure result : Work ρ ε α) :=
  fun _ => rfl

theorem tryCatch_of_ok {handler : ε → Work ρ ε α} {result : α}
    (hwork : work client = (.ok result, after)) :
    (tryCatch work handler) client = (.ok result, after) := by
  change (ExceptT.tryCatch work handler) client = _
  simp only [ExceptT.tryCatch, ExceptT.mk, bind, StateT.bind]
  rw [hwork]
  rfl

theorem tryCatch_of_error {handler : ε → Work ρ ε α} {error : ε}
    (hwork : work client = (.error error, after)) :
    (tryCatch work handler) client = handler error after := by
  change (ExceptT.tryCatch work handler) client = _
  simp only [ExceptT.tryCatch, ExceptT.mk, bind, StateT.bind]
  rw [hwork]

theorem tryFinally_release {outcome : Except ε α}
    (hwork : work client = (outcome, after)) :
    (tryFinally work release) client = (outcome, (release after).2) := by
  simp only [tryFinally, MonadFinally.tryFinally', ExceptT.mk, Functor.map,
    ExceptT.map, bind, StateT.bind]
  rw [hwork]
  cases outcome <;> rfl

end Rules

/-! ## Discipline -/

section Specification

variable (notQueryable : ε) (callback : Callback ρ ε α) (client : Client ρ ε)

/-- The callback runs in its transaction and throws. -/
def CallbackThrows (error : ε) (failed : Client ρ ε) : Prop :=
  ∃ result begun,
    query notQueryable .begin client = (.ok result, begun) ∧
      callback.run notQueryable begun = (.error error, failed)

/-- The callback returns and COMMIT succeeds. -/
def Committed (value : α) (after : Client ρ ε) : Prop :=
  ∃ result begun called committed,
    query notQueryable .begin client = (.ok result, begun) ∧
      callback.run notQueryable begun = (.ok value, called) ∧
      query notQueryable .commit called = (.ok committed, after)

structure Disciplined : Prop where
  released_once :
    (withTransaction notQueryable callback client).2.releases.length = 1
  committed : ∀ value,
    (withTransaction notQueryable callback client).1 = .ok value →
      ∃ after, Committed notQueryable callback client value after
  own_error : ∀ error failed,
    CallbackThrows notQueryable callback client error failed →
      (withTransaction notQueryable callback client).1 = .error error
  not_open : ∀ session,
    session ∈ (withTransaction notQueryable callback client).2.releases →
      session.isOpen = false

/-- Where a ROLLBACK is sent and fails, the connection is not left in the
transaction and no other error of the callback was on its way. -/
def RollbackHarmless : Prop :=
  ∀ error failed other left,
    attempt notQueryable callback client = (.error error, failed) →
      query notQueryable .rollback failed = (.error other, left) →
        left.session.isOpen = false ∧
          ∀ own, CallbackThrows notQueryable callback client own failed →
            other = own

end Specification

variable {notQueryable : ε} {callback : Callback ρ ε α}
  {client failed left after : Client ρ ε}

/-! ## Statements -/

theorem keeps_query (notQueryable : ε) (statement : Statement) :
    Keeps (query notQueryable statement : Work ρ ε ρ) := by
  intro client
  simp only [query]
  split
  · rfl
  · split <;> rfl

theorem keeps_run (notQueryable : ε) (callback : Callback ρ ε α) :
    Keeps (callback.run notQueryable) := by
  induction callback with
  | done outcome => exact fun _ => rfl
  | sends statement next ih =>
      intro client
      exact (ih _ _).trans (keeps_query notQueryable statement client)

theorem session_of_query_ok {statement : Statement} {result : ρ}
    (hquery : query notQueryable statement client = (.ok result, after)) :
    ∃ answered : Session, after.session = answered.after statement := by
  simp only [query] at hquery
  split at hquery
  · cases (Prod.mk.inj hquery).1
  · split at hquery
    next result left _ =>
      obtain ⟨-, rfl⟩ := Prod.mk.inj hquery
      exact ⟨left, rfl⟩
    next => cases (Prod.mk.inj hquery).1

/-! ## The attempt -/

theorem attempt_of_callbackThrows {error : ε}
    (hthrows : CallbackThrows notQueryable callback client error failed) :
    attempt notQueryable callback client = (.error error, failed) := by
  obtain ⟨result, begun, hbegin, hrun⟩ := hthrows
  rw [attempt, bind_of_ok hbegin, bind_of_error hrun]

theorem committed_of_attempt {value : α}
    (hattempt : attempt notQueryable callback client = (.ok value, after)) :
    Committed notQueryable callback client value after := by
  obtain ⟨result, begun, hbegin, hrest⟩ := bind_eq_ok hattempt
  obtain ⟨returned, called, hrun, hrest⟩ := bind_eq_ok hrest
  obtain ⟨committed, done, hcommit, hdone⟩ := bind_eq_ok hrest
  obtain ⟨hvalue, rfl⟩ := Prod.mk.inj hdone
  cases hvalue
  exact ⟨result, begun, called, committed, hbegin, hrun, hcommit⟩

theorem session_of_committed {value : α}
    (hcommitted : Committed notQueryable callback client value after) :
    after.session = .idle := by
  obtain ⟨_, _, _, _, _, _, hcommit⟩ := hcommitted
  obtain ⟨_, hsession⟩ := session_of_query_ok hcommit
  exact hsession

theorem keeps_attempt (notQueryable : ε) (callback : Callback ρ ε α) :
    Keeps (attempt notQueryable callback) :=
  (keeps_query notQueryable _).bind fun _ =>
    (keeps_run notQueryable callback).bind fun _ =>
      (keeps_query notQueryable _).bind fun _ => keeps_pure _

/-! ## The wrapper -/

theorem withTransaction_of_ok {value : α}
    (hattempt : attempt notQueryable callback client = (.ok value, after)) :
    withTransaction notQueryable callback client =
      (.ok value, (release after).2) :=
  tryFinally_release (tryCatch_of_ok hattempt)

theorem withTransaction_of_rollback {error : ε} {result : ρ}
    (hattempt : attempt notQueryable callback client = (.error error, failed))
    (hrollback : query notQueryable .rollback failed = (.ok result, left)) :
    withTransaction notQueryable callback client =
      (.error error, (release left).2) := by
  refine tryFinally_release ((tryCatch_of_error hattempt).trans ?_)
  rw [bind_of_ok hrollback]
  rfl

theorem withTransaction_of_rollback_error {error other : ε}
    (hattempt : attempt notQueryable callback client = (.error error, failed))
    (hrollback : query notQueryable .rollback failed = (.error other, left)) :
    withTransaction notQueryable callback client =
      (.error other, (release left).2) := by
  refine tryFinally_release ((tryCatch_of_error hattempt).trans ?_)
  rw [bind_of_error hrollback]

theorem disciplined_of_run {outcome : Except ε α}
    (hrun : withTransaction notQueryable callback client =
      (outcome, (release left).2))
    (hkept : left.releases = [])
    (hopen : left.session.isOpen = false)
    (hreturned : ∀ value, outcome = .ok value →
      ∃ after, Committed notQueryable callback client value after)
    (hthrown : ∀ error failed,
      CallbackThrows notQueryable callback client error failed →
        outcome = .error error) :
    Disciplined notQueryable callback client := by
  have hreleases : (release left).2.releases = [left.session] := by
    simp [release, hkept]
  constructor
  · rw [hrun, hreleases]
    rfl
  · rw [hrun]
    exact hreturned
  · rw [hrun]
    exact hthrown
  · rw [hrun, hreleases]
    intro session hsession
    rw [List.mem_singleton.mp hsession]
    exact hopen

theorem disciplined_of_committed {value : α} (hempty : client.releases = [])
    (hattempt : attempt notQueryable callback client = (.ok value, after)) :
    Disciplined notQueryable callback client := by
  have hkept := keeps_attempt notQueryable callback client
  rw [hattempt] at hkept
  have hcommitted := committed_of_attempt hattempt
  refine disciplined_of_run (withTransaction_of_ok hattempt)
    (hkept.trans hempty) (by rw [session_of_committed hcommitted]; rfl) ?_ ?_
  · intro returned hvalue
    cases hvalue
    exact ⟨after, hcommitted⟩
  · intro error failed hthrows
    have hsame := attempt_of_callbackThrows hthrows
    rw [hattempt] at hsame
    cases (Prod.mk.inj hsame).1

/-- After a failed attempt: how the ROLLBACK leaves the client, and what is
thrown in place of the callback's error. -/
theorem disciplined_of_failed {error thrown : ε}
    (hempty : client.releases = [])
    (hattempt : attempt notQueryable callback client = (.error error, failed))
    (hrun : withTransaction notQueryable callback client =
      (.error thrown, (release left).2))
    (hkept : left.releases = failed.releases)
    (hopen : left.session.isOpen = false)
    (hown : CallbackThrows notQueryable callback client error failed →
      thrown = error) :
    Disciplined notQueryable callback client := by
  have hreleases := keeps_attempt notQueryable callback client
  rw [hattempt] at hreleases
  refine disciplined_of_run hrun ((hkept.trans hreleases).trans hempty) hopen
    (fun _ hvalue => by cases hvalue) ?_
  intro own reached hthrows
  have hsame := attempt_of_callbackThrows hthrows
  rw [hattempt] at hsame
  obtain ⟨herror, rfl⟩ := Prod.mk.inj hsame
  cases herror
  rw [hown hthrows]

theorem disciplined_of_harmless (hempty : client.releases = [])
    (harmless : RollbackHarmless notQueryable callback client) :
    Disciplined notQueryable callback client := by
  rcases hattempt : attempt notQueryable callback client with
    ⟨error | value, failed⟩
  · have hkept := keeps_query notQueryable .rollback failed
    rcases hrollback : query notQueryable .rollback failed with
      ⟨other | result, left⟩
    · rw [hrollback] at hkept
      obtain ⟨hopen, hown⟩ := harmless error failed other left hattempt
        hrollback
      exact disciplined_of_failed hempty hattempt
        (withTransaction_of_rollback_error hattempt hrollback) hkept hopen
        (hown error)
    · rw [hrollback] at hkept
      obtain ⟨_, hsession⟩ := session_of_query_ok hrollback
      exact disciplined_of_failed hempty hattempt
        (withTransaction_of_rollback hattempt hrollback) hkept
        (by rw [hsession]; rfl) fun _ => rfl
  · exact disciplined_of_committed hempty hattempt

theorem harmless_of_disciplined
    (disciplined : Disciplined notQueryable callback client) :
    RollbackHarmless notQueryable callback client := by
  intro error failed other left hattempt hrollback
  have hrun := withTransaction_of_rollback_error hattempt hrollback
  constructor
  · apply disciplined.not_open
    rw [hrun]
    simp [release]
  · intro own hthrows
    have hown := disciplined.own_error own failed hthrows
    rw [hrun] at hown
    cases hown
    rfl

/-- The wrapper keeps its discipline exactly if no ROLLBACK fails with the
callback's error under way or with the transaction left open. -/
theorem withTransaction_disciplined_iff
    (callback : Callback ρ ε α) (session : Session)
    (answers : ℕ → Answer ρ ε) :
    Disciplined notQueryable callback (connect session answers) ↔
      RollbackHarmless notQueryable callback (connect session answers) :=
  ⟨harmless_of_disciplined, disciplined_of_harmless rfl⟩

/-- The connection ends under a statement of the callback. -/
def endedAnswers : ℕ → Answer Unit String
  | 0 => .succeeds () .inTransaction
  | _ => .fails "Connection terminated unexpectedly" .lost

def oneStatement : Callback Unit String Unit :=
  .sends (.other "UPDATE users SET is_verified = TRUE") .done

/-- The error of the ROLLBACK, which cannot be sent, takes the place of the
callback's error. -/
theorem not_always_disciplined :
    ¬ Disciplined
        "Client has encountered a connection error and is not queryable"
        oneStatement (connect .idle endedAnswers) := by
  intro disciplined
  have hown := disciplined.own_error "Connection terminated unexpectedly" _
    ⟨(), _, rfl, rfl⟩
  have hdifferent :
      "Client has encountered a connection error and is not queryable" =
        "Connection terminated unexpectedly" :=
    Except.error.inj hown
  revert hdifferent
  decide +kernel

/-! ## The pool -/

/-- The sessions of the clients that wait in the pool, and of those that are
lent. -/
structure Pool where
  waiting : List Session
  lent : List Session

/-- The pool keeps the clients that it can still use. -/
def Pool.keep (releases : List Session) : List Session :=
  releases.filter (· ≠ .lost)

/-- Clients are opened, lent and given back in any order. -/
inductive Pool.Step (ρ α : Type) (notQueryable : ε) : Pool → Pool → Prop where
  | opened (pool : Pool) :
      Step ρ α notQueryable pool { pool with lent := .idle :: pool.lent }
  | lent (earlier later lent : List Session) (session : Session) :
      Step ρ α notQueryable ⟨earlier ++ session :: later, lent⟩
        ⟨earlier ++ later, session :: lent⟩
  | released (waiting earlier later : List Session) (session : Session)
      (callback : Callback ρ ε α) (answers : ℕ → Answer ρ ε)
      (harmless : RollbackHarmless notQueryable callback
        (connect session answers)) :
      Step ρ α notQueryable ⟨waiting, earlier ++ session :: later⟩
        ⟨waiting ++ Pool.keep (withTransaction notQueryable callback
            (connect session answers)).2.releases, earlier ++ later⟩

/-- No client is in somebody's transaction before it runs its own. -/
def Pool.Clean (pool : Pool) : Prop :=
  ∀ session ∈ pool.waiting ++ pool.lent, session = .idle

theorem Pool.Step.clean {pool next : Pool}
    (step : Pool.Step ρ α notQueryable pool next) (clean : pool.Clean) :
    next.Clean := by
  cases step with
  | opened =>
      intro session hsession
      simp only [List.mem_append, List.mem_cons] at hsession
      rcases hsession with hsession | rfl | hsession
      · exact clean session (by simp [hsession])
      · rfl
      · exact clean session (by simp [hsession])
  | lent earlier later lent lentSession =>
      intro session hsession
      exact clean session (by simp at hsession ⊢; tauto)
  | released waiting earlier later lentSession callback answers harmless =>
      have disciplined := disciplined_of_harmless rfl harmless
      intro session hsession
      simp only [List.mem_append] at hsession
      rcases hsession with (hsession | hkept) | hsession
      · exact clean session (by simp [hsession])
      · obtain ⟨hreleased, husable⟩ := List.mem_filter.mp hkept
        have hopen := disciplined.not_open session hreleased
        cases session with
        | idle => rfl
        | inTransaction | aborted => cases hopen
        | lost => simp at husable
      · exact clean session (by simp; tauto)

/-- As long as the failing ROLLBACKs are harmless, no client of the pool is
ever inside a transaction when it is lent. -/
theorem clean_of_run {pool : Pool}
    (run : Relation.ReflTransGen (Pool.Step ρ α notQueryable) ⟨[], []⟩ pool) :
    pool.Clean := by
  induction run with
  | refl => simp [Pool.Clean]
  | tail _ step clean => exact step.clean clean

end MarketPlace.Connections
