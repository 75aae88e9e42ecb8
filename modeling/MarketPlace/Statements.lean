import MarketPlace.World

/-!
# Statements and commands

The atomic actions of the request handlers: one SQL statement, one Redis
command, one call of a service.  A statement whose row locks are taken waits;
any statement may fail instead of running.
-/

namespace MarketPlace

open Interleaving

def databaseError : HttpError := ⟨.internal, "Internal server error"⟩
def redisError : HttpError := ⟨.internal, "Redis connection error"⟩
def networkError : HttpError := ⟨.internal, "fetch failed"⟩
def typeError : HttpError := ⟨.internal, "Internal server error"⟩

variable {β : Type}

/-- One action whose error is thrown. -/
def attempt
    (action : ℕ → Draw → World → Option (Except HttpError β × World)) :
    Handler β :=
  .atomic action fun outcome =>
    match outcome with
    | .ok value => .done value
    | .error error => .failed error

/-- One SQL statement.  If it fails it has had no effect: a reply lost after the
commit is left out. -/
def statement
    (action : ℕ → Draw → World → Option (Except HttpError β × World)) :
    Handler β :=
  attempt fun i draw w =>
    if draw.databaseFails then some (.error databaseError, w)
    else action i draw w

/-- The client of an open transaction, with the time `NOW()` stands for. -/
structure Client where
  startedAt : ℕ

namespace World

/-- What a statement reads: the committed data, and in a transaction the
transaction's own writes over it. -/
def viewFor (client : Option Client) (i : ℕ) (w : World) : Database :=
  match client with
  | none => w.db
  | some _ => w.store.view schema i

/-- `NOW()`. -/
def nowFor (client : Option Client) (w : World) : ℕ :=
  match client with
  | none => w.now
  | some client => client.startedAt

/-- A statement outside of the transaction waits for its locks too. -/
def lockable
    (client : Option Client) (i : ℕ) (write : Write) (w : World) : Bool :=
  let locks := write.footprint (w.viewFor client i)
  match client with
  | none => w.store.unlocked locks
  | some _ => w.store.available i locks

def write
    (client : Option Client) (i : ℕ) (write : Write) (w : World) : World :=
  match client with
  | none => w.autocommit i write
  | some _ => w.enqueue i write

end World

/-! ## SQL -/

/-- A SELECT that nothing is recorded of. -/
def select (client : Option Client) (query : Database → β) : Handler β :=
  statement fun i _ w => some (.ok (query (w.viewFor client i)), w)

/-- A SELECT of one row of users. -/
def selectUser
    (client : Option Client) (query : Database → Option UserRow) :
    Handler (Option UserRow) :=
  statement fun i _ w =>
    match query (w.viewFor client i) with
    | none => some (.ok none, w)
    | some row => some (.ok (some row), w.record (.userRead i row))

/-- A statement that writes; `returning` reads the data after it. -/
def execute
    (client : Option Client) (write : ℕ → Sequences → Write)
    (returning : Database → Database → β) : Handler β :=
  statement fun i _ w =>
    let change := write (w.nowFor client) w.ids
    if w.lockable client i change then
      let after := w.write client i change
      some (.ok (returning (w.viewFor client i) (after.viewFor client i)), after)
    else none

/-- A statement that writes and returns nothing that is used. -/
def perform (client : Option Client) (write : ℕ → Write) : Handler Unit :=
  execute client (fun now _ => write now) fun _ _ => ()

def begin : Handler Client :=
  statement fun i _ w => some (.ok ⟨w.now⟩, w.rollback i)

def commit : Handler Unit :=
  statement fun i _ w => some (.ok (), w.commit i)

/-- A ROLLBACK that cannot be sent ends the connection, and the transaction
with it. -/
def rollback : Handler Unit :=
  attempt fun i _ w => some (.ok (), w.rollback i)

/-- `DatabaseService.withTransaction`. -/
def withTransaction (callback : Client → Handler β) : Handler β :=
  tryCatch
    (do
      let client ← begin
      let result ← callback client
      commit
      pure result)
    fun error => do
      rollback
      throw error

/-! ## Redis -/

def Deployment.redisEnabled (app : Deployment) : Bool :=
  app.config.redisUrl.any fun url => url ≠ ""

/-- One command of `RedisService`, which does nothing without a client. -/
def redisCommand
    (app : Deployment) (absent : β) (command : World → β × World) :
    Handler β :=
  if app.redisEnabled then
    attempt fun _ draw w =>
      if draw.redisFails then some (.error redisError, w)
      else
        let (value, after) := command w
        some (.ok value, after)
  else pure absent

def redisGet (app : Deployment) (key : String) : Handler (Option String) :=
  redisCommand app none fun w => (w.redisGet key, w)

def redisSet
    (app : Deployment) (key value : String) (ttlSeconds : ℕ) :
    Handler Unit :=
  redisCommand app () fun w => ((), w.redisSet key value ttlSeconds)

def redisDel (app : Deployment) (key : String) : Handler Unit :=
  redisCommand app () fun w => ((), w.redisDel key)

/-! ## Draws and the clock -/

/-- A value that the surroundings choose. -/
def draw (choose : Draw → β) : Handler β :=
  .atomic (fun _ draw w => some (choose draw, w)) .done

/-- `Date.now()`. -/
def currentTime : Handler ℕ :=
  .atomic (fun _ _ w => some (w.now, w)) .done

end MarketPlace
