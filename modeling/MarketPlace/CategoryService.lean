import MarketPlace.InterleavedPrograms
import MarketPlace.MarketData

/-!
# Categories

`CategoriesService` and the seeding of categories, statement by statement, as
a system of their own.  An INSERT draws its identity value first; it then waits
for open transactions that have inserted a conflicting row, and a DELETE for
those that have inserted a child.
-/

namespace MarketPlace.Catalog

open Interleaving Relational
open Trade.Database (Violation)

structure CategoryRow where
  id : ℕ
  parentId : Option ℕ
  name : String
  createdAt : ℕ
  deriving DecidableEq, Repr

/-- The committed rows, and what open transactions have inserted, each row with
the request whose transaction it is. -/
structure Categories where
  committed : Table CategoryRow.id
  inserted : List (ℕ × CategoryRow)
  nextId : ℕ
  now : ℕ

/-- An exception of a handler, an error of Postgres, or a plain error. -/
inductive Fault where
  | exception (kind : ErrorKind) (message : String)
  | database (violation : Option Violation)
  | error (message : String)
  deriving DecidableEq, Repr

/-- An action is under the outcome of whether the database fails. -/
abbrev Operation (α : Type) := Program Bool Categories Fault α

/-- The client of an open transaction, with the time `NOW()` stands for. -/
structure Client where
  startedAt : ℕ

variable (lower : String → String)

/-- `(COALESCE(parent_id, 0), LOWER(name))`, which is unique. -/
def siblingKey (row : CategoryRow) : ℕ × String :=
  (row.parentId.getD 0, lower row.name)

namespace Categories

def initial (now : ℕ) : Categories := ⟨.empty, [], 1, now⟩

/-- The rows that the transaction of request `i` has inserted. -/
def ownRows (i : ℕ) (c : Categories) : List CategoryRow :=
  (c.inserted.filter fun entry => entry.1 = i).map Prod.snd

/-- The rows that a statement sees. -/
def visible (client : Option Client) (i : ℕ) (c : Categories) :
    List CategoryRow :=
  match client with
  | none => c.committed.rows
  | some _ => c.committed.rows ++ c.ownRows i

/-- The rows of the other transactions, which an INSERT may have to wait
for. -/
def awaited (client : Option Client) (i : ℕ) (c : Categories) :
    List CategoryRow :=
  match client with
  | none => c.inserted.map Prod.snd
  | some _ => (c.inserted.filter fun entry => entry.1 ≠ i).map Prod.snd

def nowFor (client : Option Client) (c : Categories) : ℕ :=
  match client with
  | none => c.now
  | some client => client.startedAt

def insert (client : Option Client) (i : ℕ) (row : CategoryRow)
    (c : Categories) : Categories :=
  match client with
  | none => { c with committed := c.committed.insert row }
  | some _ => { c with inserted := c.inserted ++ [(i, row)] }

def delete (id : ℕ) (c : Categories) : Categories :=
  { c with committed := c.committed.filter fun row => row.id ≠ id }

def rollback (i : ℕ) (c : Categories) : Categories :=
  { c with inserted := c.inserted.filter fun entry => entry.1 ≠ i }

def commit (i : ℕ) (c : Categories) : Categories :=
  { c with
    committed := c.committed.insertAll (c.ownRows i)
    inserted := c.inserted.filter fun entry => entry.1 ≠ i }

end Categories

/-! ## Statements -/

section Statements

variable {β : Type}

/-- One action whose error is thrown, and which the database can fail. -/
def attempt
    (action : ℕ → Categories → Option (Except Fault β × Categories)) :
    Operation β :=
  .atomic
    (fun i databaseFails c =>
      if databaseFails then some (.error (.database none), c)
      else action i c)
    fun outcome =>
      match outcome with
      | .ok value => .done value
      | .error fault => .failed fault

def select (client : Option Client) (query : List CategoryRow → β) :
    Operation β :=
  attempt fun i c => some (.ok (query (c.visible client i)), c)

/-- The defaults of the columns of a new row: its identity value and
`NOW()`. -/
def newRow (client : Option Client) (name : String) (parentId : Option ℕ) :
    Operation CategoryRow :=
  attempt fun _ c =>
    some (.ok ⟨c.nextId, parentId, name, c.nowFor client⟩,
      { c with nextId := c.nextId + 1 })

/-- The constraints of a new row, in the order in which they are checked, and
its insertion.  A conflict of siblings ends as `onConflict` says. -/
def insertRow (client : Option Client) (row : CategoryRow)
    (onConflict : Except Fault β) (inserted : β) : Operation β :=
  attempt fun i c =>
    if row.parentId = some row.id then
      some (.error (.database (some .check)), c)
    else if (c.awaited client i).any fun other =>
        other.id = row.id || siblingKey lower other = siblingKey lower row then
      none
    else if (c.visible client i).any fun other => other.id = row.id then
      some (.error (.database (some .unique)), c)
    else if (c.visible client i).any fun other =>
        siblingKey lower other = siblingKey lower row then
      some (onConflict, c)
    else if row.parentId.any fun parentId =>
        !(c.visible client i).any fun other => other.id = parentId then
      some (.error (.database (some .foreignKey)), c)
    else some (.ok inserted, c.insert client i row)

/-- `DELETE FROM categories WHERE id = $1 RETURNING …`; `ON DELETE RESTRICT`
looks at the children once nobody is inserting one. -/
def deleteRow (id : ℕ) : Operation (Option CategoryRow) :=
  attempt fun _ c =>
    match c.committed.get id with
    | none => some (.ok none, c)
    | some row =>
        if c.inserted.any fun entry => entry.2.parentId = some id then none
        else if c.committed.rows.any fun other => other.parentId = some id then
          some (.error (.database (some .foreignKey)), c)
        else some (.ok (some row), c.delete id)

def begin : Operation Client :=
  attempt fun i c => some (.ok ⟨c.now⟩, c.rollback i)

def commit : Operation Unit :=
  attempt fun i c => some (.ok (), c.commit i)

/-- A ROLLBACK that cannot be sent ends the connection, and the transaction
with it. -/
def rollback : Operation Unit :=
  .act fun i _ c => some ((), c.rollback i)

end Statements

/-! ## CategoriesService -/

def insertReturning (name : String) (parentId : Option ℕ) :
    Operation CategoryRow := do
  let row ← newRow none name parentId
  insertRow lower none row (.error (.database (some .unique))) row

def createCategory (name : String) (parentId : Option ℕ) :
    Operation CategoryRow := do
  match parentId with
  | none => pure ()
  | some parentId => do
      let parent ← select none fun rows =>
        rows.any fun row => row.id = parentId
      if parent then pure ()
      else throw (.exception .notFound "Parent category not found")
  tryCatch (insertReturning lower name parentId) fun fault =>
    if fault = .database (some .unique) then
      throw (.exception .conflict
        "A category with that name already exists under the same parent")
    else throw fault

def deleteCategory (id : ℕ) : Operation CategoryRow := do
  let result ← tryCatch (deleteRow id) fun fault =>
    if fault = .database (some .foreignKey) then
      throw (.exception .conflict
        "Category cannot be deleted: it has child categories or products referencing it")
    else throw fault
  match result with
  | none => throw (.exception .notFound "Category not found")
  | some row => pure row

/-! ## Seeding -/

structure CategoryNode where
  name : String
  children : List String

/-- `CATEGORY_TAXONOMY`. -/
def categoryTaxonomy : List CategoryNode :=
  [⟨"Real Estate",
      ["All", "Apartment For Rent", "Apartment For Sale", "Houses", "Lands",
        "Commercial Real Estate For Rent", "Commercial Real Estate For Sale",
        "Other"]⟩,
    ⟨"Vehicles",
      ["All", "Cars For Sale", "Cars For Rent", "Spare Parts And Accessories",
        "Motor Cycles", "Bicycles", "Trucks And Heavy Vehicles"]⟩,
    ⟨"Electronics",
      ["All", "Smartphones", "Tablets", "Laptops And Computers", "Accessories",
        "Speakers And Headphones", "Cameras", "Smart Watches And Wearables",
        "Monitors And TVs", "Other"]⟩,
    ⟨"Home And Decor",
      ["All", "Furniture", "Office Furniture", "Kitchen And Dining",
        "Bedding And Bath", "Home Decor", "Home Tools", "Lighting", "Other"]⟩,
    ⟨"Clothing And Fashion",
      ["All", "Men Clothing", "Women Clothing", "Kids Clothing", "Shoes",
        "Men Accessories", "Women Accessories And Makeup",
        "Jewelry And Watches", "Other"]⟩,
    ⟨"Services",
      ["All", "Maintenance And Repairs", "Transportation And Moving",
        "Personal Services", "Cars Services", "Home Services",
        "Lessons And Tutoring", "Other"]⟩]

structure UpsertedCategory where
  id : ℕ
  created : Bool

def upsertCategory (client : Option Client) (name : String)
    (parentId : Option ℕ) : Operation UpsertedCategory := do
  let row ← newRow client name parentId
  let inserted ← insertRow lower client row (.ok none) (some row)
  match inserted with
  | some row => pure ⟨row.id, true⟩
  | none => do
      let existing ← select client fun rows =>
        rows.find? fun other => siblingKey lower other = siblingKey lower row
      match existing with
      | none =>
          throw (.error ("Failed to resolve category \"" ++ name ++ "\""))
      | some other => pure ⟨other.id, false⟩

structure SeedCounts where
  created : ℕ
  reused : ℕ
  deriving DecidableEq, Repr

def SeedCounts.count (upserted : UpsertedCategory) (counts : SeedCounts) :
    SeedCounts :=
  if upserted.created then { counts with created := counts.created + 1 }
  else { counts with reused := counts.reused + 1 }

/-- `for (const child of parent.children)`. -/
def seedChildren (client : Option Client) (parentId : ℕ) :
    List String → SeedCounts → Operation SeedCounts
  | [], counts => pure counts
  | child :: rest, counts => do
      let childResult ← upsertCategory lower client child (some parentId)
      seedChildren client parentId rest (counts.count childResult)

/-- `for (const parent of CATEGORY_TAXONOMY)`. -/
def seedNodes (client : Option Client) :
    List CategoryNode → SeedCounts → Operation SeedCounts
  | [], counts => pure counts
  | parent :: rest, counts => do
      let parentResult ← upsertCategory lower client parent.name none
      let counts ← seedChildren lower client parentResult.id parent.children
        (counts.count parentResult)
      seedNodes client rest counts

def seedCategories (client : Option Client) : Operation SeedCounts :=
  seedNodes lower client categoryTaxonomy ⟨0, 0⟩

/-- The script around the seeding, which is one transaction. -/
def runProdSeed : Operation SeedCounts :=
  tryCatch
    (do
      let client ← begin
      let summary ← seedCategories lower (some client)
      commit
      pure summary)
    fun fault => do
      rollback
      throw fault

/-! ## The catalog as a system -/

/-- Seeding is by the script, or with a client that is in no transaction. -/
inductive Request where
  | createCategory (name : String) (parentId : Option ℕ)
  | deleteCategory (id : ℕ)
  | seedCategories
  | runProdSeed

inductive Response where
  | category (row : CategoryRow)
  | seeded (counts : SeedCounts)

def Request.handler : Request → Operation Response
  | .createCategory name parentId => do
      let row ← Catalog.createCategory lower name parentId
      pure (.category row)
  | .deleteCategory id => do
      let row ← Catalog.deleteCategory id
      pure (.category row)
  | .seedCategories => do
      let counts ← Catalog.seedCategories lower none
      pure (.seeded counts)
  | .runProdSeed => do
      let counts ← Catalog.runProdSeed lower
      pure (.seeded counts)

/-- Outside of the requests time passes. -/
def catalog : System Request Bool ℕ Categories Fault Response where
  handler := Request.handler lower
  environment amount c := { c with now := c.now + amount }

def Pool.empty (now : ℕ) : Pool Request Bool Categories Fault Response :=
  ⟨Categories.initial now, []⟩

end MarketPlace.Catalog
