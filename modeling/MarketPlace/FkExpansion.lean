import MarketPlace.CategoryService
import MarketPlace.ProfileServices

/-!
# Expansion of foreign keys

`FkExpansionService`: the ids that a payload names are collected in one walk
over it, their records are fetched, and a second walk replaces each foreign key
by its record.
-/

namespace MarketPlace.Relations

open Relational
open Trade (Json ProfileRow ProductRow FileRow)

/-! ## Values as the driver and the language write them -/

/-- How Postgres writes a timestamp as a text, and the number of the language
that is nearest to a natural number. -/
structure RelationsDeployment where
  market : Trade.Deployment
  timestampText : ℕ → String
  nearestNumber : ℕ → ℕ

/-- The tables that the service reads. -/
structure Snapshot where
  market : Trade.Database
  categories : Table Catalog.CategoryRow.id

variable (app : RelationsDeployment) (db : Snapshot)

def userStatusText : UserStatus → String
  | .active => "active"
  | .paused => "paused"
  | .banned => "banned"

def productStatusText : Trade.ProductStatus → String
  | .available => "available"
  | .sold => "sold"
  | .archived => "archived"

def filePurposeText : Trade.FilePurpose → String
  | .avatar => "avatar"
  | .productImage => "product_image"
  | .chatAttachment => "chat_attachment"
  | .document => "document"

def fileStatusText : Trade.FileStatus → String
  | .pending => "pending"
  | .uploaded => "uploaded"
  | .failed => "failed"
  | .deleted => "deleted"

/-- A BIGINT column, which the driver returns as a text. -/
def bigintJson (value : ℕ) : Json := .text (toString value)

/-- A NUMERIC value with two decimals, as a text. -/
def hundredthsText (value : ℕ) : String :=
  let cents := toString (value % 100)
  toString (value / 100) ++ "." ++
    (if value % 100 < 10 then "0" ++ cents else cents)

def nullable {α : Type} (json : α → Json) : Option α → Json
  | none => .null
  | some value => json value

def timestampJson (time : ℕ) : Json := .text (app.timestampText time)

/-! ## Rules -/

inductive EntityType where
  | user
  | category
  | product
  | message
  | conversation
  | file
  deriving DecidableEq, Repr

/-- What `FK_RULES[key]` finds: a rule, whose entity is undefined where it is
not a rule of the table. -/
structure FkRule where
  entity : Option EntityType
  outputKey : Option String
  shouldExpand : Option (List (String × Json) → Bool)

/-- `Object.prototype.hasOwnProperty.call(container, key)`. -/
def hasOwn (container : List (String × Json)) (key : String) : Bool :=
  container.any fun field => field.1 = key

def fkRules : List (String × FkRule) :=
  [("admin_id", ⟨some .user, none, none⟩),
    ("avatar_file_id", ⟨some .file, none, none⟩),
    ("blocked_id", ⟨some .user, none, none⟩),
    ("blocker_id", ⟨some .user, none, none⟩),
    ("conversation_id", ⟨some .conversation, none, none⟩),
    ("file_id", ⟨some .file, none, none⟩),
    ("last_message_id", ⟨some .message, none, none⟩),
    ("owner_id", ⟨some .user, none,
      some fun container => !hasOwn container "owner_type"⟩),
    ("parent_id", ⟨some .category, none, none⟩),
    ("peer_user_id", ⟨some .user, none, none⟩),
    ("product_id", ⟨some .product, none, none⟩),
    ("product_image_file_id", ⟨some .file, some "product_image", none⟩),
    ("rated_user_id", ⟨some .user, none, none⟩),
    ("rater_id", ⟨some .user, none, none⟩),
    ("reported_user_id", ⟨some .user, none, none⟩),
    ("reporter_id", ⟨some .user, none, none⟩),
    ("reviewed_by", ⟨some .user, some "reviewed_by", none⟩),
    ("sender_id", ⟨some .user, none, none⟩),
    ("target_user_id", ⟨some .user, none, none⟩),
    ("uploader_user_id", ⟨some .user, none, none⟩),
    ("user_a_id", ⟨some .user, none, none⟩),
    ("user_b_id", ⟨some .user, none, none⟩),
    ("user_id", ⟨some .user, none, none⟩)]

/-- The members of `Object.prototype`. -/
def objectPrototypeMembers : List String :=
  ["__defineGetter__", "__defineSetter__", "__lookupGetter__",
    "__lookupSetter__", "__proto__", "constructor", "hasOwnProperty",
    "isPrototypeOf", "propertyIsEnumerable", "toLocaleString", "toString",
    "valueOf"]

/-- `FK_RULES[key]`, which also finds what the table inherits: a function or an
object without any of a rule's properties. -/
def ruleOf (key : String) : Option FkRule :=
  match fkRules.lookup key with
  | some rule => some rule
  | none =>
      if key ∈ objectPrototypeMembers then some ⟨none, none, none⟩ else none

/-- `rule && (!rule.shouldExpand || rule.shouldExpand(node))`. -/
def activeRule (container : List (String × Json)) (key : String) :
    Option FkRule :=
  (ruleOf key).filter fun rule =>
    match rule.shouldExpand with
    | none => true
    | some shouldExpand => shouldExpand container

/-- `key.endsWith('_id') ? key.slice(0, -3) : key`. -/
def deriveOutputKey (key : String) : String :=
  if ['_', 'i', 'd'].isSuffixOf key.toList then
    String.ofList (key.toList.take (key.toList.length - 3))
  else key

def outputKeyOf (rule : FkRule) (key : String) : String :=
  rule.outputKey.getD (deriveOutputKey key)

/-! ## Ids -/

/-- The number that a text matching `/^\d+$/` writes. -/
def decimalValue (text : String) : Option ℕ :=
  if text ≠ "" ∧ text.toList.all Char.isDigit then
    some (text.toList.foldl
      (fun value digit => 10 * value + (digit.toNat - '0'.toNat)) 0)
  else none

def toPositiveInt : Json → Option ℕ
  | .number value =>
      if value.isInt && decide (0 < value) then some value.num.toNat else none
  | .text text =>
      ((decimalValue text).map app.nearestNumber).filter fun parsed =>
        0 < parsed
  | _ => none

/-! ## Collecting -/

/-- `Map<EntityType, Set<number>>`, in insertion order. -/
abbrev IdsByEntity := List (Option EntityType × List ℕ)

def addId (entity : Option EntityType) (id : ℕ) : IdsByEntity → IdsByEntity
  | [] => [(entity, [id])]
  | (other, ids) :: rest =>
      if other = entity then
        (other, if id ∈ ids then ids else ids ++ [id]) :: rest
      else (other, ids) :: addId entity id rest

/-- What the walk adds for one entry of an object. -/
def collectEntry (container : List (String × Json)) (key : String)
    (rawValue : Json) (ids : IdsByEntity) : IdsByEntity :=
  match activeRule container key with
  | none => ids
  | some rule =>
      match toPositiveInt app rawValue with
      | none => ids
      | some id => addId rule.entity id ids

/-- `this.isObject(rawValue) || Array.isArray(rawValue)`. -/
def isContainer : Json → Bool
  | .array _ | .object _ => true
  | _ => false

mutual

def walk : Json → IdsByEntity → IdsByEntity
  | .array items, ids => walkItems items ids
  | .object fields, ids => walkEntries fields fields ids
  | _, ids => ids

def walkItems : List Json → IdsByEntity → IdsByEntity
  | [], ids => ids
  | item :: rest, ids => walkItems rest (walk item ids)

def walkEntries (container : List (String × Json)) :
    List (String × Json) → IdsByEntity → IdsByEntity
  | [], ids => ids
  | (key, rawValue) :: rest, ids =>
      let collected := collectEntry app container key rawValue ids
      walkEntries container rest
        (if isContainer rawValue then walk rawValue collected else collected)

end

def collectIds (payload : Json) : IdsByEntity := walk app payload []

/-! ## Records -/

/-- `mapToAppUser` of a row of users. -/
def mapToAppUser (row : ProfileRow) : List (String × Json) :=
  [("id", .number row.id), ("name", .text row.name),
    ("phone", .text row.phone),
    ("profileState", .text (userStatusText row.status))]

/-- The columns of a file that the records show, and its URL. -/
def fileFields (row : FileRow) : List (String × Json) :=
  [("id", bigintJson row.id), ("purpose", .text (filePurposeText row.purpose)),
    ("object_key", .text row.objectKey), ("mime_type", .text row.mimeType),
    ("status", .text (fileStatusText row.status)),
    ("created_at", timestampJson app row.createdAt),
    ("uploaded_at", nullable (timestampJson app) row.uploadedAt),
    ("url", .text (Trade.buildReadUrl app.market row.objectKey row.mimeType))]

/-- `LEFT JOIN files f ON f.id = u.avatar_file_id`, and the avatar if its
object key is not empty. -/
def avatarJson (row : ProfileRow) : Json :=
  nullable (fun file => .object (fileFields app file))
    ((row.avatarFileId.bind db.market.files.get).filter fun file =>
      file.objectKey ≠ "")

def userRecord (row : ProfileRow) : Json :=
  .object (mapToAppUser row ++
    [("rate", .text (hundredthsText (db.market.rateOf row.id))),
      ("contactInfo", nullable .text row.contactInfo),
      ("avatar", avatarJson app db row)])

def categoryRecord (row : Catalog.CategoryRow) : Json :=
  .object
    [("id", bigintJson row.id), ("parent_id", nullable bigintJson row.parentId),
      ("name", .text row.name), ("created_at", timestampJson app row.createdAt)]

/-- The owner is joined if it is not deleted, and shown if it has a name. -/
def ownerJson (row : ProductRow) : Json :=
  nullable (userRecord app db)
    ((db.market.liveUser row.ownerId).filter fun user => user.name ≠ "")

def productRecord (row : ProductRow) : Json :=
  .object
    [("id", bigintJson row.id), ("name", .text row.name),
      ("price", .text (hundredthsText row.price)),
      ("status", .text (productStatusText row.status)),
      ("city", .text row.city), ("created_at", timestampJson app row.createdAt),
      ("owner", ownerJson app db row)]

def messageRecord (row : MessageRow) : Json :=
  .object
    [("id", bigintJson row.id), ("message_text", .text row.messageText),
      ("sent_at", timestampJson app row.sentAt),
      ("read_at", nullable (timestampJson app) row.readAt)]

def conversationRecord (row : Trade.ConversationRow) : Json :=
  .object
    [("id", bigintJson row.id), ("created_at", timestampJson app row.createdAt)]

def fileRecord (row : FileRow) : Json := .object (fileFields app row)

/-! ## Fetching -/

/-- Records with the number that their id is read as. -/
abbrev ResolverMap := List (ℕ × Json)

/-- `WHERE id = ANY($1::bigint[])` with what else the query asks of a row, and
`[Number(item.id), item]` for each row. -/
def fetch {ρ : Type} {key : ρ → ℕ} (table : Table key) (live : ρ → Bool)
    (record : ρ → Json) (ids : List ℕ) : ResolverMap :=
  (table.rows.filter fun row => key row ∈ ids && live row).map fun row =>
    (app.nearestNumber (key row), record row)

def fetchUsers : List ℕ → ResolverMap :=
  fetch app db.market.users (fun row => row.deletedAt.isNone)
    (userRecord app db)

def fetchCategories : List ℕ → ResolverMap :=
  fetch app db.categories (fun _ => true) (categoryRecord app)

def fetchProducts : List ℕ → ResolverMap :=
  fetch app db.market.products (fun row => row.deletedAt.isNone)
    (productRecord app db)

def fetchMessages : List ℕ → ResolverMap :=
  fetch app db.market.messages (fun _ => true) (messageRecord app)

def fetchConversations : List ℕ → ResolverMap :=
  fetch app db.market.conversations (fun _ => true) (conversationRecord app)

def fetchFiles : List ℕ → ResolverMap :=
  fetch app db.market.files (fun _ => true) (fileRecord app)

def fetchRecords (entity : Option EntityType) (ids : List ℕ) : ResolverMap :=
  if ids = [] then []
  else
    match entity with
    | some .user => fetchUsers app db ids
    | some .category => fetchCategories app db ids
    | some .product => fetchProducts app db ids
    | some .message => fetchMessages app db ids
    | some .conversation => fetchConversations app db ids
    | some .file => fetchFiles app db ids
    | none => []

/-- `new Map(records)`, in which a later record takes an earlier one's place. -/
def ResolverMap.get (records : ResolverMap) (id : ℕ) : Option Json :=
  (records.reverse.find? fun record => record.1 = id).map Prod.snd

abbrev MapsByEntity := List (Option EntityType × ResolverMap)

def resolveEntities (idsByEntity : IdsByEntity) : MapsByEntity :=
  idsByEntity.map fun (entity, ids) => (entity, fetchRecords app db entity ids)

/-! ## Transforming -/

/-- `out[key] = value`, which for `__proto__` sets the prototype instead. -/
def assign (key : String) (value : Json) (out : List (String × Json)) :
    List (String × Json) :=
  if key = "__proto__" then out else out ++ [(key, value)]

/-- `mapsByEntity.get(entity)?.get(id) ?? null`, and null without an id. -/
def expandedValue (maps : MapsByEntity) (entity : Option EntityType)
    (value : Json) : Json :=
  match toPositiveInt app value with
  | none => .null
  | some id =>
      (((maps.lookup entity).bind fun records => records.get id)).getD .null

mutual

def transformNode (maps : MapsByEntity) : Json → Json
  | .array items => .array (transformItems maps items)
  | .object fields => .object (transformEntries maps fields fields [])
  | node => node

def transformItems (maps : MapsByEntity) : List Json → List Json
  | [] => []
  | item :: rest => transformNode maps item :: transformItems maps rest

def transformEntries (maps : MapsByEntity)
    (container : List (String × Json)) :
    List (String × Json) → List (String × Json) → List (String × Json)
  | [], out => out
  | (key, value) :: rest, out =>
      match activeRule container key with
      | some rule =>
          let outputKey := outputKeyOf rule key
          if hasOwn out outputKey then transformEntries maps container rest out
          else
            transformEntries maps container rest
              (assign outputKey (expandedValue app maps rule.entity value) out)
      | none =>
          if hasOwn out key then transformEntries maps container rest out
          else
            transformEntries maps container rest
              (assign key (transformNode maps value) out)

end

/-- `expand` against one snapshot of the database, where no lookup fails. -/
def expand (payload : Json) : Json :=
  transformNode app (resolveEntities app db (collectIds app payload)) payload

/-! ## Lookups that fail -/

/-- The values of a BIGINT are below it. -/
def bigintBound : ℕ := 2 ^ 63

/-- The lookup throws: its query fails, or one of its ids is no BIGINT. -/
def fetchThrows (failing : EntityType → Bool) (entity : Option EntityType)
    (ids : List ℕ) : Bool :=
  match entity with
  | none => false
  | some entity =>
      ids ≠ [] && (failing entity || ids.any fun id => bigintBound ≤ id)

/-- One of the lookups throws, and with it `Promise.all`. -/
def resolvingThrows (failing : EntityType → Bool) (ids : IdsByEntity) : Bool :=
  ids.any fun (entity, ids) => fetchThrows failing entity ids

/-- `expand`, where the queries for the failing entities throw. -/
def expandOrThrow (failing : EntityType → Bool) (payload : Json) :
    Except Trade.Fault Json :=
  if resolvingThrows failing (collectIds app payload) then
    .error (.database none)
  else .ok (expand app db payload)

end MarketPlace.Relations
