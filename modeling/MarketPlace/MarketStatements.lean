import MarketPlace.InterleavedPrograms
import MarketPlace.EventLogs
import MarketPlace.MarketData

/-!
# Statements on the market

The world that the market's requests share, and the atomic actions of their
handlers: SELECTs, SELECT … FOR UPDATE, writes inside and outside of a
transaction, and the transaction wrapper.  The history records the writes, the
newest first, with those that a constraint rejected and those that were lost
with the connection.
-/

namespace MarketPlace.Trade

open Interleaving

inductive Event where
  | wrote (actor at_ : ℕ) (change : Change)
  | elsewhere (change : Change)
  | rejected (actor : ℕ) (change : Change)
  | lost (actor : ℕ) (change : Change)

/-- The next values of the identity columns. -/
structure Sequences where
  users : ℕ
  files : ℕ
  products : ℕ
  productImages : ℕ
  conversations : ℕ
  messages : ℕ
  deriving DecidableEq, Repr

/-- The history since the market opened with the data `opened`. -/
structure Market where
  store : ReadCommitted.Store Database Change RowLock
  ids : Sequences
  now : ℕ
  opened : Database
  history : List Event

structure UploadIntent where
  method : String
  url : String
  headers : Option (List (String × String))
  fields : Option (List (String × String))
  expiresAt : String
  deriving DecidableEq, Repr

/-- What the surroundings choose for one action: whether the database fails,
random bytes, the storage provider's answer, and how rows that ORDER BY leaves
tied are arranged. -/
structure Draw where
  databaseFails : Bool
  randomHex : String
  uploadIntent : Option UploadIntent
  tieRank : ℕ → ℕ

inductive ChatForbiddenReason where
  | notParticipant
  | conversationBlocked
  deriving DecidableEq, Repr

/-- What a handler throws: an exception of its own, with the reason and the
context that chat adds, an error of Postgres, or anything else. -/
inductive Fault where
  | exception (kind : ErrorKind) (message : String)
  | forbiddenChat (reason : ChatForbiddenReason) (message : String)
      (context : List (String × ℕ))
  | database (violation : Option Database.Violation)
  | internal
  deriving DecidableEq, Repr

abbrev Operation (α : Type) := Program Draw Market Fault α

/-- The client of an open transaction, with the time `NOW()` stands for. -/
structure Client where
  startedAt : ℕ

namespace Market

/-- A market over given data, with identity values that the data does not use
and nobody at work. -/
def opening (db : Database) (ids : Sequences) (now : ℕ) : Market where
  store := .fresh db
  ids := ids
  now := now
  opened := db
  history := []

def initial (now : ℕ) : Market := opening .empty ⟨1, 1, 1, 1, 1, 1⟩ now

def db (m : Market) : Database := m.store.committed

def record (event : Event) (m : Market) : Market :=
  { m with history := event :: m.history }

/-- An identity column never gives out a value twice. -/
def nextIds (change : Change) (ids : Sequences) : Sequences :=
  match change with
  | .insertUser _ => { ids with users := ids.users + 1 }
  | .insertFile _ => { ids with files := ids.files + 1 }
  | .insertProduct _ => { ids with products := ids.products + 1 }
  | .insertProductImages rows =>
      { ids with productImages := ids.productImages + rows.length }
  | .insertConversation _ =>
      { ids with conversations := ids.conversations + 1 }
  | .insertMessage _ => { ids with messages := ids.messages + 1 }
  | _ => ids

def take (change : Change) (m : Market) : Market :=
  { m with ids := nextIds change m.ids }

/-- What a statement reads: the committed data, and in a transaction the
transaction's own writes over it. -/
def viewFor (client : Option Client) (i : ℕ) (m : Market) : Database :=
  match client with
  | none => m.db
  | some _ => m.store.view schema i

/-- `NOW()`. -/
def nowFor (client : Option Client) (m : Market) : ℕ :=
  match client with
  | none => m.now
  | some client => client.startedAt

def lockable
    (client : Option Client) (i : ℕ) (change : Change) (m : Market) : Bool :=
  let locks := change.footprint (m.viewFor client i)
  match client with
  | none => m.store.unlocked locks
  | some _ => m.store.available i locks

def autocommit (i : ℕ) (change : Change) (m : Market) : Market :=
  { m with
    store := m.store.autocommit schema change
    ids := nextIds change m.ids
    history := .wrote i m.now change :: m.history }

def enqueue (i : ℕ) (change : Change) (m : Market) : Market :=
  { m with
    store := m.store.enqueue schema i change
    ids := nextIds change m.ids }

def write
    (client : Option Client) (i : ℕ) (change : Change) (m : Market) : Market :=
  match client with
  | none => m.autocommit i change
  | some _ => m.enqueue i change

def lock (i : ℕ) (locks : List RowLock) (m : Market) : Market :=
  { m with store := m.store.lock i locks }

def rollback (i : ℕ) (m : Market) : Market :=
  { m with store := m.store.rollback i }

/-- The events of a commit, one for each write of the queue. -/
def flush (i now : ℕ) (changes : List Change) (history : List Event) :
    List Event :=
  changes.foldl (fun history change => .wrote i now change :: history) history

def commit (i : ℕ) (m : Market) : Market :=
  { m with
    store := m.store.commit schema i
    history := flush i m.now (m.store.queue i) m.history }

end Market

/-! ## Actions -/

variable {β : Type}

/-- One action whose error is thrown. -/
def attempt
    (action : ℕ → Draw → Market → Option (Except Fault β × Market)) :
    Operation β :=
  .atomic action fun outcome =>
    match outcome with
    | .ok value => .done value
    | .error fault => .failed fault

/-- A SELECT; the draw arranges what ORDER BY leaves tied. -/
def selectOrdered (client : Option Client)
    (query : (ℕ → ℕ) → Database → β) : Operation β :=
  attempt fun i draw m =>
    if draw.databaseFails then some (.error (.database none), m)
    else some (.ok (query draw.tieRank (m.viewFor client i)), m)

def select (client : Option Client) (query : Database → β) : Operation β :=
  selectOrdered client fun _ db => query db

/-- `SELECT … FROM products WHERE id = $1 AND deleted_at IS NULL FOR UPDATE`,
whose condition is checked on the row as it is once it can be locked. -/
def selectProductForUpdate (client : Client) (productId : ℕ) :
    Operation (Option ProductRow) :=
  attempt fun i draw m =>
    if draw.databaseFails then some (.error (.database none), m)
    else
      match (m.viewFor (some client) i).liveProduct productId with
      | none => some (.ok none, m)
      | some row =>
          if m.store.available i [.product row.id] then
            some (.ok (some row), m.lock i [.product row.id])
          else none

/-- A statement that writes.  The result is read from the time and identity
values it ran with and from the data before and after it.  A statement that
fails has had no effect: a reply lost after the commit is left out. -/
def run
    (client : Option Client) (change : ℕ → Sequences → Change)
    (result : ℕ → Sequences → Database → Database → β) : Operation β :=
  attempt fun i draw m =>
    let now := m.nowFor client
    let change := change now m.ids
    let before := m.viewFor client i
    if draw.databaseFails then
      some (.error (.database none), m.record (.lost i change))
    else if m.lockable client i change then
      match before.violation change with
      | some violation =>
          some (.error (.database (some violation)),
            (m.take change).record (.rejected i change))
      | none =>
          let after := m.write client i change
          some (.ok (result now m.ids before (after.viewFor client i)), after)
    else none

/-- A statement whose RETURNING reads the data after it. -/
def execute
    (client : Option Client) (change : ℕ → Change)
    (returning : Database → β) : Operation β :=
  run client (fun now _ => change now) fun _ _ _ after => returning after

def perform (client : Option Client) (change : ℕ → Change) : Operation Unit :=
  execute client change fun _ => ()

/-- INSERT … RETURNING of a row with the next identity value. -/
def insertReturning {ρ : Type} (client : Option Client)
    (row : ℕ → Sequences → ρ) (insert : ρ → Change) : Operation ρ :=
  run client (fun now ids => insert (row now ids)) fun now ids _ _ =>
    row now ids

def begin : Operation Client :=
  attempt fun i draw m =>
    if draw.databaseFails then some (.error (.database none), m)
    else some (.ok ⟨m.now⟩, m.rollback i)

def commit : Operation Unit :=
  attempt fun i draw m =>
    if draw.databaseFails then some (.error (.database none), m)
    else some (.ok (), m.commit i)

/-- A ROLLBACK that cannot be sent ends the connection, and the transaction
with it. -/
def rollback : Operation Unit :=
  attempt fun i _ m => some (.ok (), m.rollback i)

/-- `DatabaseService.withTransaction`. -/
def withTransaction (callback : Client → Operation β) : Operation β :=
  tryCatch
    (do
      let client ← begin
      let result ← callback client
      commit
      pure result)
    fun fault => do
      rollback
      throw fault

/-- A value that the surroundings choose. -/
def draw (choose : Draw → β) : Operation β :=
  .atomic (fun _ draw m => some (choose draw, m)) .done

/-- `Date.now()`. -/
def currentTime : Operation ℕ :=
  .atomic (fun _ _ m => some (m.now, m)) .done

/-! ## BIGINT columns -/

/-- A BIGINT column as the driver returns it: the decimal text of a number. -/
structure BigintText where
  value : ℕ
  deriving DecidableEq, Repr

/-- `text === number`: a string is never strictly equal to a number. -/
def BigintText.strictEquals (_text : BigintText) (_number : ℕ) : Bool := false

/-- `toPositiveInt` on the text of a column. -/
def toPositiveInt (text : BigintText) : Option ℕ :=
  if 0 < text.value then some text.value else none

/-- `toPositiveInt` on the text of a nullable column. -/
def toPositiveIntOfNullable (text : Option BigintText) : Option ℕ :=
  text.bind toPositiveInt

end MarketPlace.Trade
