import MarketPlace.Confidentiality
import MarketPlace.FreshReads

/-!
# What the client gets

The interceptors of the server expand the foreign keys of a body and put it
into an envelope, where a body with a single key is flattened; the exception
filter makes an envelope of an exception, also of one that the expansion
throws.  A client that knows its request gets the body or the message back.
-/

namespace MarketPlace.Http

open Interleaving Relations
open Trade (Json)

/-! ## HttpResponseEnvelopeInterceptor -/

def isAlreadyEnveloped : Json → Bool
  | .object payload =>
      (match payload.lookup "success" with
        | some (.bool _) => true
        | _ => false) &&
      (match payload.lookup "statusCode" with
        | some (.number _) => true
        | _ => false) &&
      hasOwn payload "data"
  | _ => false

/-- `{ ...value, [key]: entry }`. -/
def spreadWith (value : List (String × Json)) (key : String) (entry : Json) :
    List (String × Json) :=
  if hasOwn value key then
    value.map fun field => if field.1 = key then (key, entry) else field
  else value ++ [(key, entry)]

def normalizeData : Json → Json
  | .object [(singleKey, .object value)] =>
      .object (spreadWith value singleKey (.object value))
  | .object [(_, value)] => value
  | data => data

def intercept (statusCode : ℕ) (data : Json) : Json :=
  if isAlreadyEnveloped data then data
  else
    .object
      [("success", .bool true), ("statusCode", .number statusCode),
        ("data", normalizeData data)]

/-! ## HttpExceptionFilter -/

/-- The `message` of an exception's response. -/
inductive ErrorMessage where
  | one (text : String)
  | many (texts : List String)

/-- `exception.getResponse()`, as far as the filter reads it. -/
inductive ErrorBody where
  | text (text : String)
  | object (message : Option ErrorMessage)

inductive Thrown where
  | httpException (status : ℕ) (response : ErrorBody)
  | other

def Thrown.status : Thrown → ℕ
  | .httpException status _ => status
  | .other => 500

def Thrown.errorBody : Thrown → ErrorBody
  | .httpException _ response => response
  | .other => .object (some (.one "Internal server error"))

def Thrown.message (thrown : Thrown) : String :=
  match thrown.errorBody with
  | .text text => text
  | .object (some (.many texts)) => String.intercalate ", " texts
  | .object (some (.one text)) => text
  | .object none => "Unknown error"

/-- The body that `catch` sends, with the status `thrown.status`. -/
def catchBody (thrown : Thrown) (timestamp path : String) : Json :=
  .object
    [("success", .bool false), ("statusCode", .number thrown.status),
      ("data", .null),
      ("error", .object
        [("code", .number thrown.status), ("message", .text thrown.message),
          ("timestamp", .text timestamp), ("path", .text path)])]

def statusOf : ErrorKind → ℕ
  | .badRequest => 400
  | .unauthorized => 401
  | .forbidden => 403
  | .notFound => 404
  | .conflict => 409
  | .serviceUnavailable => 503
  | .internal => 500

/-- What a handler of the market throws, as the filter catches it. -/
def thrownOf : Trade.Fault → Thrown
  | .exception kind message =>
      .httpException (statusOf kind) (.object (some (.one message)))
  | .forbiddenChat _ message _ =>
      .httpException 403 (.object (some (.one message)))
  | .database _ | .internal => .other

/-! ## The client -/

/-- The keys of a response's body. -/
def responseKeys : Trade.Response → List String
  | .product _ | .productStatus _ => ["product"]
  | .items _ => ["items"]
  | .message _ | .oneMessage _ => ["message"]
  | .uploadIntent _ => ["file", "upload"]
  | .markedUploaded _ | .file _ => ["file"]
  | .me _ => ["user"]
  | .publicProfile _ => ["user", "products"]
  | .rating _ => ["rating"]
  | .conversation _ => ["conversation"]
  | .conversations _ => ["conversations"]
  | .messages _ => ["messages"]

/-- The keys that a client knows the body of its request to have. -/
def requestKeys : Trade.Request → List String
  | .createProduct .. | .getProductById .. | .updateProduct ..
  | .updateProductStatus .. => ["product"]
  | .listMyProducts .. | .searchProducts .. | .listFavorites .. => ["items"]
  | .deleteProduct .. | .addFavorite .. | .removeFavorite .. | .blockUser ..
  | .unblockUser .. | .sendMessage .. | .markRead .. => ["message"]
  | .createUploadIntent .. => ["file", "upload"]
  | .markUploaded .. | .getFile .. => ["file"]
  | .getMe .. | .updateMe .. => ["user"]
  | .getPublicProfile .. => ["user", "products"]
  | .rateUser .. => ["rating"]
  | .getOrCreateConversation .. | .getConversationById .. => ["conversation"]
  | .listConversations .. => ["conversations"]
  | .listMessages .. => ["messages"]

/-- The body behind an envelope's data. -/
def bodyOf (keys : List String) (data : Json) : Json :=
  match keys with
  | [key] =>
      .object [(key,
        match data with
        | .object fields => (fields.lookup key).getD data
        | data => data)]
  | _ => data

inductive Received where
  | body (body : Json)
  | error (code : ℚ) (message : String)

def received (keys : List String) : Json → Option Received
  | .object envelope =>
      match envelope.lookup "success", envelope.lookup "data",
        envelope.lookup "error" with
      | some (.bool true), some data, _ => some (.body (bodyOf keys data))
      | some (.bool false), _, some (.object error) =>
          match error.lookup "code", error.lookup "message" with
          | some (.number code), some (.text message) =>
              some (.error code message)
          | _, _ => none
      | _, _, _ => none
  | _ => none

/-! ## Envelopes -/

section Envelopes

variable {fields value : List (String × Json)} {key : String} {entry : Json}

theorem lookup_map_of_hasOwn (h : hasOwn value key = true) :
    (value.map fun field => if field.1 = key then (key, entry)
      else field).lookup key = some entry := by
  induction value with
  | nil => contradiction
  | cons field rest ih =>
      by_cases hkey : field.1 = key
      · simp [hkey]
      · have hrest : hasOwn rest key = true := by
          simpa [hasOwn, hkey] using h
        have hne : (key == field.1) = false := by simpa using Ne.symm hkey
        rw [List.map_cons, if_neg hkey, List.lookup_cons, hne]
        exact ih hrest

theorem lookup_append_of_not_hasOwn (h : hasOwn value key = false) :
    (value ++ [(key, entry)]).lookup key = some entry := by
  induction value with
  | nil => simp
  | cons field rest ih =>
      simp only [hasOwn, List.any_cons, Bool.or_eq_false_iff,
        decide_eq_false_iff_not] at h
      have hne : (key == field.1) = false := by simpa using Ne.symm h.1
      rw [List.cons_append, List.lookup_cons, hne]
      exact ih h.2

/-- A flattened body keeps its key, whatever keys its value has. -/
theorem lookup_spreadWith :
    (spreadWith value key entry).lookup key = some entry := by
  unfold spreadWith
  cases hown : hasOwn value key with
  | true => exact lookup_map_of_hasOwn hown
  | false => exact lookup_append_of_not_hasOwn hown

/-- The normalized data still tells the body, if its keys are known. -/
theorem bodyOf_normalizeData (fields : List (String × Json)) :
    bodyOf (fields.map Prod.fst) (normalizeData (.object fields)) =
      .object fields := by
  match fields with
  | [] => rfl
  | field :: next :: rest => simp [bodyOf, normalizeData]
  | [(key, value)] =>
      cases value with
      | object value => simp [bodyOf, normalizeData, lookup_spreadWith]
      | null | bool | number | text | array => rfl

theorem not_isAlreadyEnveloped (h : "success" ∉ fields.map Prod.fst) :
    isAlreadyEnveloped (.object fields) = false := by
  have hlookup : fields.lookup "success" = none := by
    rw [List.lookup_eq_none_iff]
    intro field hfield
    have hne : field.1 ≠ "success" := fun heq =>
      h (List.mem_map.mpr ⟨field, hfield, heq⟩)
    simpa using Ne.symm hne
  simp [isAlreadyEnveloped, hlookup]

/-- A body without a `success` of its own comes back. -/
theorem received_intercept (statusCode : ℕ)
    (h : "success" ∉ fields.map Prod.fst) :
    received (fields.map Prod.fst) (intercept statusCode (.object fields)) =
      some (.body (.object fields)) := by
  rw [intercept, not_isAlreadyEnveloped h]
  have hbody := bodyOf_normalizeData fields
  simpa [received, List.lookup_cons] using congrArg
    (fun body => some (Received.body body)) hbody

theorem received_catchBody (keys : List String) (thrown : Thrown)
    (timestamp path : String) :
    received keys (catchBody thrown timestamp path) =
      some (.error thrown.status thrown.message) := by
  simp [received, catchBody, List.lookup_cons]

end Envelopes

/-! ## Expanded bodies -/

/-- Every key that a body of the market has at its top. -/
def bodyKeys : List String :=
  ["product", "items", "message", "file", "upload", "user", "products",
    "rating", "conversation", "conversations", "messages"]

/-- None of them is a foreign key, or one of the envelope. -/
theorem bodyKeys_plain : ∀ key ∈ bodyKeys,
    ruleOf key = none ∧ key ≠ "__proto__" ∧ key ≠ "success" := by
  decide +kernel

theorem activeRule_of_mem {container : List (String × Json)} {key : String}
    (h : key ∈ bodyKeys) : activeRule container key = none := by
  rw [activeRule, (bodyKeys_plain key h).1, Option.filter_none]

theorem firstOfEachKey_of_nodup {fields : List (String × Json)}
    (h : (fields.map Prod.fst).Nodup) : firstOfEachKey fields = fields := by
  induction fields with
  | nil => rfl
  | cons field rest ih =>
      rw [List.map_cons, List.nodup_cons] at h
      rw [firstOfEachKey, ih h.2, List.filter_eq_self.mpr]
      intro other hother
      have hne : other.1 ≠ field.1 := fun heq =>
        h.1 (List.mem_map.mpr ⟨other, hother, heq⟩)
      simpa using hne

section Bodies

variable {app : HttpDeployment} {db : Snapshot}

/-- The expansion leaves the keys at the top of a body alone. -/
theorem keys_expand (app : HttpDeployment) (db : Snapshot)
    {fields : List (String × Json)}
    (hknown : ∀ key ∈ fields.map Prod.fst, key ∈ bodyKeys)
    (hnodup : (fields.map Prod.fst).Nodup) :
    ∃ expanded, expand app.toRelationsDeployment db (.object fields) =
        .object expanded ∧
      expanded.map Prod.fst = fields.map Prod.fst := by
  let maps := resolveEntities app.toRelationsDeployment db
    (collectIds app.toRelationsDeployment (.object fields))
  let expanded := fields.map
    (expandedEntry app.toRelationsDeployment maps fields)
  have hkeys : expanded.map Prod.fst = fields.map Prod.fst := by
    rw [List.map_map]
    refine List.map_congr_left fun field hfield => ?_
    have hmem := hknown field.1 (List.mem_map_of_mem hfield)
    simp [expandedEntry, activeRule_of_mem hmem]
  have hproto : expanded.filter (fun field => field.1 ≠ "__proto__") =
      expanded := by
    refine List.filter_eq_self.mpr fun field hfield => ?_
    have hmem : field.1 ∈ fields.map Prod.fst :=
      hkeys ▸ List.mem_map_of_mem hfield
    simpa using (bodyKeys_plain _ (hknown _ hmem)).2.1
  refine ⟨expanded, ?_, hkeys⟩
  have hexpand : expand app.toRelationsDeployment db (.object fields) =
      .object (firstOfEachKey
        (expanded.filter fun field => field.1 ≠ "__proto__")) :=
    transformNode_object maps fields
  rw [hexpand, hproto, firstOfEachKey_of_nodup (hkeys.symm ▸ hnodup)]

/-- A body of the market has the keys of its response. -/
theorem httpBody_eq (app : HttpDeployment) (request : Trade.Request)
    (response : Trade.Response) :
    ∃ fields, httpBody app request response = .object fields ∧
      fields.map Prod.fst = responseKeys response := by
  unfold httpBody
  split <;> exact ⟨_, rfl, rfl⟩

theorem responseKeys_mem (response : Trade.Response) :
    (∀ key ∈ responseKeys response, key ∈ bodyKeys) ∧
      (responseKeys response).Nodup := by
  cases response <;> simp [responseKeys, bodyKeys]

/-- What the server sends for a response: the interceptors, the innermost
first, and the status of the route.  An expansion that throws leaves the
response to the filter. -/
def sent (app : HttpDeployment) (db : Snapshot) (failing : EntityType → Bool)
    (statusCode : ℕ) (timestamp path : String) (request : Trade.Request)
    (response : Trade.Response) : Json :=
  match expandOrThrow app.toRelationsDeployment db failing
      (httpBody app request response) with
  | .ok body => intercept statusCode body
  | .error fault => catchBody (thrownOf fault) timestamp path

/-- Some lookup of what the response names throws. -/
def Unexpandable (app : HttpDeployment) (failing : EntityType → Bool)
    (request : Trade.Request) (response : Trade.Response) : Prop :=
  LookupThrows app.toRelationsDeployment failing (httpBody app request response)

instance (failing : EntityType → Bool) (request : Trade.Request)
    (response : Trade.Response) :
    Decidable (Unexpandable app failing request response) :=
  inferInstanceAs (Decidable (LookupThrows _ _ _))

theorem sent_eq (failing : EntityType → Bool) (statusCode : ℕ)
    (timestamp path : String) (request : Trade.Request)
    (response : Trade.Response) :
    sent app db failing statusCode timestamp path request response =
      if Unexpandable app failing request response then
        catchBody .other timestamp path
      else
        intercept statusCode (expand app.toRelationsDeployment db
          (httpBody app request response)) := by
  rw [sent, expandOrThrow_eq]
  by_cases h : LookupThrows app.toRelationsDeployment failing
    (httpBody app request response)
  · rw [if_pos h, if_pos (show Unexpandable app failing request response from h)]
    rfl
  · rw [if_neg h,
      if_neg (show ¬ Unexpandable app failing request response from h)]

theorem received_intercept_expand (statusCode : ℕ) (request : Trade.Request)
    (response : Trade.Response) :
    received (responseKeys response)
        (intercept statusCode (expand app.toRelationsDeployment db
          (httpBody app request response))) =
      some (.body (expand app.toRelationsDeployment db
        (httpBody app request response))) := by
  obtain ⟨fields, hbody, hkeys⟩ := httpBody_eq app request response
  obtain ⟨hknown, hnodup⟩ := responseKeys_mem response
  rw [← hkeys] at hknown hnodup
  obtain ⟨expanded, hexpand, hsame⟩ := keys_expand app db hknown hnodup
  have hsuccess : "success" ∉ expanded.map Prod.fst := fun hmem =>
    (bodyKeys_plain _ (hknown _ (hsame ▸ hmem))).2.2 rfl
  rw [hbody, hexpand, ← hkeys, ← hsame]
  exact received_intercept statusCode hsuccess

/-! ## Runs -/

/-- A response of a request has the keys that its client knows. -/
theorem handler_settled (deployment : Trade.Deployment)
    (request : Trade.Request) :
    (request.handler deployment).Settled fun response =>
      responseKeys response = requestKeys request := by
  cases request <;> exact Program.settled_map fun _ => rfl

end Bodies

/-- The text that a client may see of an error. -/
def publicMessage : Trade.Fault → String
  | .exception _ message | .forbiddenChat _ message _ => message
  | .database _ | .internal => "Internal server error"

/-- Every request with a result is answered by an envelope in which its client
finds the expanded body, unless a lookup for the expansion throws; every failed
one by an envelope with a status and the message of an exception.  Of other
errors, the failed lookups among them, a client only learns that there was
one. -/
structure Understood (app : HttpDeployment)
    (pool : Pool Trade.Request Trade.Draw Trade.Market Trade.Fault
      Trade.Response) : Prop where
  answered : ∀ (i : ℕ) (request : Trade.Request) (response : Trade.Response)
    (db : Snapshot) (failing : EntityType → Bool) (statusCode : ℕ)
    (timestamp path : String),
    pool.threads[i]? = some ⟨request, .done response⟩ →
    ¬ Unexpandable app failing request response →
      isAlreadyEnveloped (sent app db failing statusCode timestamp path request
          response) = true ∧
        received (requestKeys request)
            (sent app db failing statusCode timestamp path request response) =
          some (.body (expand app.toRelationsDeployment db
            (httpBody app request response)))
  unexpanded : ∀ (i : ℕ) (request : Trade.Request) (response : Trade.Response)
    (db : Snapshot) (failing : EntityType → Bool) (statusCode : ℕ)
    (timestamp path : String),
    pool.threads[i]? = some ⟨request, .done response⟩ →
    Unexpandable app failing request response →
      isAlreadyEnveloped (sent app db failing statusCode timestamp path request
          response) = true ∧
        received (requestKeys request)
            (sent app db failing statusCode timestamp path request response) =
          some (.error 500 "Internal server error")
  refused : ∀ (i : ℕ) (request : Trade.Request) (fault : Trade.Fault)
    (timestamp path : String),
    pool.threads[i]? = some ⟨request, .failed fault⟩ →
      isAlreadyEnveloped (catchBody (thrownOf fault) timestamp path) = true ∧
      received (requestKeys request)
          (catchBody (thrownOf fault) timestamp path) =
        some (.error (thrownOf fault).status (publicMessage fault))

section Runs

variable {app : HttpDeployment} {now : ℕ}
  {pool : Pool Trade.Request Trade.Draw Trade.Market Trade.Fault
    Trade.Response}

theorem isAlreadyEnveloped_intercept (statusCode : ℕ) (data : Json) :
    isAlreadyEnveloped (intercept statusCode data) = true := by
  cases henveloped : isAlreadyEnveloped data with
  | true => rwa [intercept, if_pos henveloped]
  | false =>
      rw [intercept, if_neg (by simp [henveloped])]
      simp [isAlreadyEnveloped, hasOwn, List.lookup_cons]

theorem isAlreadyEnveloped_catchBody (thrown : Thrown)
    (timestamp path : String) :
    isAlreadyEnveloped (catchBody thrown timestamp path) = true := by
  simp [isAlreadyEnveloped, catchBody, hasOwn, List.lookup_cons]

theorem message_thrownOf (fault : Trade.Fault) :
    (thrownOf fault).message = publicMessage fault := by
  cases fault <;> rfl

/-- Whatever requests do to each other, each client understands its answer. -/
theorem answers_understood
    (hreach : (Trade.market app.market).Reaches (fun _ _ => True)
      (Trade.Pool.opening now) pool) :
    Understood app pool where
  answered i request response db failing statusCode timestamp path hthread
      hexpandable := by
    have hkeys : responseKeys response = requestKeys request :=
      hreach.settled rfl (handler_settled app.market) hthread
    rw [sent_eq, if_neg hexpandable]
    refine ⟨isAlreadyEnveloped_intercept _ _, ?_⟩
    rw [← hkeys]
    exact received_intercept_expand statusCode request response
  unexpanded i request response db failing statusCode timestamp path _ hthrows := by
    rw [sent_eq, if_pos hthrows]
    exact ⟨isAlreadyEnveloped_catchBody _ _ _, received_catchBody _ _ _ _⟩
  refused i request fault timestamp path _ := by
    refine ⟨isAlreadyEnveloped_catchBody _ _ _, ?_⟩
    rw [received_catchBody, message_thrownOf]

/-- Details that name a user whose id is no BIGINT. -/
def boundless : Trade.CreateProductDto :=
  { Trade.sampleProduct with
    details := some (.object [("user_id", .number (2 ^ 63))]) }

/-- User 1 blocks user 2, tries to rate themself and lists a product. -/
def blocksAndLists :
    List (Move Trade.Request Trade.Draw Trade.Surroundings) :=
  [.environment (.userRegisters "Amina" "+201"),
    .environment (.userRegisters "Basil" "+202"), .submit (.blockUser 1 2),
    .submit (.rateUser 1 1 5), .submit (.createProduct 1 boundless),
    .advance 0 Trade.calmDraw, .advance 0 Trade.calmDraw] ++
    List.replicate 6 (.advance 2 Trade.calmDraw)

/-- The block is answered with its body, the product with an error. -/
theorem answers_understood_blocked :
    ∃ pool, (Trade.market Trade.sampleHttp.market).Reaches (fun _ _ => True)
        (Trade.Pool.opening 0) pool ∧
      (pool.answer 0).any (fun (request, response) =>
        ¬ Unexpandable Trade.sampleHttp (fun _ => false) request response) ∧
      (pool.refusal 1).isSome ∧
      (pool.answer 2).any (fun (request, response) =>
        Unexpandable Trade.sampleHttp (fun _ => false) request response) ∧
      Understood Trade.sampleHttp pool := by
  obtain ⟨pool, hreach, hcheck⟩ := System.exists_reaches_of_run
    (show ((Trade.market Trade.sampleHttp.market).run blocksAndLists
      (Trade.Pool.opening 0)).any (fun pool =>
        (pool.answer 0).any (fun (request, response) =>
          ¬ Unexpandable Trade.sampleHttp (fun _ => false) request response) &&
        (pool.refusal 1).isSome &&
        (pool.answer 2).any (fun (request, response) =>
          Unexpandable Trade.sampleHttp (fun _ => false) request response)) =
        true by
      decide +kernel)
  simp only [Bool.and_eq_true] at hcheck
  exact ⟨pool, hreach, hcheck.1.1, hcheck.1.2, hcheck.2,
    answers_understood hreach⟩

end Runs

end MarketPlace.Http
