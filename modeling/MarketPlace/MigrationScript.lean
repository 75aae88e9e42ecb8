import MarketPlace.EventLogs
import MarketPlace.InterleavedPrograms

/-!
# The migration script

`scripts/migrate.sh` runs when a container starts and by hand, so that several
runs can be under way on one database.  Every `psql` is an action of its own,
except that one which executes a file begins and ends at different times.  A
run that is killed is one that does not act any more.
-/

namespace MarketPlace.Migrations

open Interleaving

/-- What a run does about a file: it finds no record of it, begins to execute
it, has executed all of it, and records it. -/
inductive Step where
  | missed
  | begun
  | executed
  | recorded
  deriving DecidableEq, Repr

structure Event where
  run : ℕ
  step : Step
  filename : String
  deriving DecidableEq, Repr

/-- The filenames of `schema_migrations`, once the table is there, and what has
happened, the newest first. -/
structure Store where
  table : Option (List String)
  log : List Event

def Store.note (event : Event) (s : Store) : Store :=
  { s with log := event :: s.log }

/-- How a `psql` ends.  What it has done may be lost on its caller. -/
inductive Ending where
  | works
  | fails
  | lost
  deriving DecidableEq, Repr

/-- `exit 1` after a message, or a command that has failed under `set -e`. -/
inductive Failure where
  | exit (message : String)
  | command
  deriving DecidableEq, Repr

abbrev Operation (α : Type) := Program Ending Store Failure α

section Commands

variable {β : Type}

def psql (action : ℕ → Store → Except Failure β × Store) : Operation β :=
  .atomic
    (fun run ending s =>
      match ending with
      | .works => some (action run s)
      | .fails => some (.error .command, s)
      | .lost => some (.error .command, (action run s).2))
    fun outcome =>
      match outcome with
      | .ok value => .done value
      | .error failure => .failed failure

/-- `CREATE TABLE IF NOT EXISTS schema_migrations`. -/
def createTable : Operation Unit :=
  psql fun _ s => (.ok (), { s with table := some (s.table.getD []) })

/-- `SELECT 1 FROM schema_migrations WHERE filename = …`. -/
def selectApplied (filename : String) : Operation Bool :=
  psql fun run s =>
    match s.table with
    | none => (.error .command, s)
    | some names =>
        if filename ∈ names then (.ok true, s)
        else (.ok false, s.note ⟨run, .missed, filename⟩)

/-- `psql -v ON_ERROR_STOP=1 -f "$file"`. -/
def executeFile (filename : String) : Operation Unit := do
  psql fun run s => (.ok (), s.note ⟨run, .begun, filename⟩)
  psql fun run s => (.ok (), s.note ⟨run, .executed, filename⟩)

/-- `INSERT INTO schema_migrations(filename) VALUES(…)`, where the filename is
unique. -/
def insertApplied (filename : String) : Operation Unit :=
  psql fun run s =>
    match s.table with
    | none => (.error .command, s)
    | some names =>
        if filename ∈ names then (.error .command, s)
        else (.ok (), { s.note ⟨run, .recorded, filename⟩ with
          table := some (names ++ [filename]) })

end Commands

/-! ## The script -/

/-- The base names of the `*.sql` files of a directory, in the order of the
shell.  None has a quote in it, since they are put between quotes. -/
structure Directory where
  files : List String
  distinct : files.Nodup
  unquoted : ∀ filename ∈ files, Char.ofNat 39 ∉ filename.toList

structure Invocation where
  argument : Option String
  databaseUrl : Option String
  migrationsDir : String
  /-- There may be nothing at `migrationsDir`. -/
  directory : Option Directory

def Invocation.dryRun (invocation : Invocation) : Bool :=
  invocation.argument = some "--dry-run"

/-- `for file in "${files[@]}"`, with the lines that are printed. -/
def applyFiles (dryRun : Bool) : List String → Operation (List String)
  | [] => pure ["Migration run completed"]
  | filename :: rest => do
      let applied ← selectApplied filename
      if applied then do
        let lines ← applyFiles dryRun rest
        pure (("Skipping already applied migration: " ++ filename) :: lines)
      else if dryRun then do
        let lines ← applyFiles dryRun rest
        pure (("[DRY-RUN] Would apply migration: " ++ filename) :: lines)
      else do
        executeFile filename
        insertApplied filename
        let lines ← applyFiles dryRun rest
        pure (("Applying migration: " ++ filename) :: lines)

def migrate (invocation : Invocation) : Operation (List String) :=
  if (invocation.databaseUrl.getD "").isEmpty then
    throw (.exit "DATABASE_URL is required")
  else
    match invocation.directory with
    | none =>
        throw (.exit
          ("No migrations directory found: " ++ invocation.migrationsDir))
    | some directory => do
        createTable
        if directory.files.isEmpty then pure ["No migration files found"]
        else applyFiles invocation.dryRun directory.files

/-! ## Runs of the script -/

/-- Nothing else changes `schema_migrations`. -/
def migrations : System Invocation Ending Empty Store Failure (List String) where
  handler := migrate
  environment event _ := nomatch event

def Pool.fresh : Pool Invocation Ending Store Failure (List String) :=
  ⟨⟨none, []⟩, []⟩

/-- The filenames that have been recorded, the first one first. -/
def recordedNames : List Event → List String
  | [] => []
  | event :: past =>
      match event.step with
      | .recorded => recordedNames past ++ [event.filename]
      | _ => recordedNames past

end MarketPlace.Migrations
