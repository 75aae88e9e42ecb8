import Mathlib.Data.List.Zip
import MarketPlace.LogSanitizing

/-!
# Bodies in the log

`LoggingInterceptor` hands the sanitized body of a request to `AppLogger`,
which sanitizes the whole record once more.  A line of the log thus tells two
bodies apart exactly by what the fields with uncovered names show.
-/

namespace MarketPlace.Logging

open CodeUnits

variable (lower : LowerCase)

/-! ## Twice sanitized -/

/-- A body in the log has gone through the sanitizer twice, the second time one
level further down. -/
def shown (levels : ℕ) (value : Tree) : Tree :=
  sanitizeForLog lower Tree.shape levels
    (sanitizeForLog lower Tree.shape (levels + 1) value)

/-- On the last level such a value is not looked into. -/
def Tree.hasParts : Tree → Bool
  | .array _ | .object _ => true
  | .plain _ | .text _ => false

section Shown

@[simp] theorem shown_plain (levels : ℕ) (value : Plain) :
    shown lower levels (.plain value) = .plain value := by
  cases levels <;> rfl

@[simp] theorem shown_text (levels : ℕ) (content : Text) :
    shown lower levels (.text content) = .text (cutText (cutText content)) := by
  cases levels <;> rfl

theorem shown_zero_of_hasParts {value : Tree} (hparts : value.hasParts) :
    shown lower 0 value = depthLimited := by
  cases value with
  | plain | text => cases hparts
  | array | object => rfl

/-- What is left of an array does not lose an item, and the marker only its
number, when it is limited again. -/
theorem take_limited {kept : List Tree} {length : ℕ}
    (hkept : kept.length = min maxArrayLength length) :
    (kept ++ arrayMarker length).take maxArrayLength = kept := by
  have hmarker := length_arrayMarker length
  split at hmarker
  next hlong => exact List.take_left' (by omega)
  next hshort =>
    rw [List.length_eq_zero_iff.mp hmarker, List.append_nil]
    exact List.take_of_length_le (by omega)

theorem length_limited {kept : List Tree} {length : ℕ}
    (hkept : kept.length = min maxArrayLength length) :
    (kept ++ arrayMarker length).length = min length (maxArrayLength + 1) := by
  have hmarker := length_arrayMarker length
  rw [List.length_append, hkept, hmarker]
  split <;> omega

theorem shown_array (levels : ℕ) (items : List Tree) :
    shown lower (levels + 1) (.array items) =
      .array ((items.take maxArrayLength).map (shown lower levels) ++
        arrayMarker (min items.length (maxArrayLength + 1))) := by
  have hkept : ((items.take maxArrayLength).map
      (sanitizeForLog lower Tree.shape (levels + 1))).length =
        min maxArrayLength items.length := by
    rw [List.length_map, List.length_take]
  rw [shown, sanitizeForLog, sanitizeForLog]
  simp only [Tree.shape]
  rw [take_limited hkept, length_limited hkept, List.map_map]
  rfl

theorem outEntries_outEntries (first second : Tree → Tree)
    (fields : List (Text × Tree)) :
    outEntries lower second (outEntries lower first fields) =
      outEntries lower (fun value => second (first value)) fields := by
  have hlength := length_outEntries_le lower first fields
  rw [outEntries, kept, List.take_of_length_le hlength, outEntries, outEntries,
    List.filter_map, List.map_map, kept]
  simp only [Function.comp_def, List.filter_filter, Bool.and_self]
  apply List.map_congr_left
  intro field _
  split <;> rfl

theorem shown_object (levels : ℕ) (fields : List (Text × Tree)) :
    shown lower (levels + 1) (.object fields) =
      .object (outEntries lower (shown lower levels) fields) := by
  rw [shown, sanitizeForLog, sanitizeForLog]
  simp only [Tree.shape]
  rw [outEntries_outEntries]
  rfl

end Shown

/-! ## Look-alikes -/

/-- Equal, or both cut behind the same units, with as many digits of units
lost. -/
def SameCut (left right : Text) : Prop :=
  left = right ∨
    maxStringLength < left.length ∧ maxStringLength < right.length ∧
      left.take maxStringLength = right.take maxStringLength ∧
      (decimal (left.length - maxStringLength)).length =
        (decimal (right.length - maxStringLength)).length

/-- Cut a second time, a text has lost the first truncation mark. -/
theorem cutText_cutText_of_long {content : Text}
    (hlong : maxStringLength < content.length) :
    cutText (cutText content) =
      content.take maxStringLength ++
        truncation
          (15 + (decimal (content.length - maxStringLength)).length) := by
  have htake : (content.take maxStringLength).length = maxStringLength := by
    simp [hlong.le]
  have hlength : (cutText content).length = maxStringLength +
      (15 + (decimal (content.length - maxStringLength)).length) := by
    rw [cutText_of_long hlong, List.length_append, htake, length_truncation]
  have hagain : maxStringLength < (cutText content).length := by omega
  have hkept : (cutText content).take maxStringLength =
      content.take maxStringLength := by
    rw [cutText_of_long hlong]
    exact List.take_left' htake
  rw [cutText_of_long hagain, hkept, hlength, Nat.add_sub_cancel_left]

theorem length_cutText_cutText {content : Text}
    (hlong : maxStringLength < content.length) :
    maxStringLength < (cutText (cutText content)).length := by
  rw [cutText_cutText_of_long hlong, List.length_append, length_truncation,
    List.length_take]
  omega

theorem truncation_inj {left right : ℕ} (hleft : left ≠ 0) (hright : right ≠ 0)
    (hequal : truncation left = truncation right) : left = right := by
  have hdecimal := List.append_cancel_left (List.append_cancel_right hequal)
  exact decimal_inj hleft hright hdecimal

theorem cutText_cutText_eq_iff (left right : Text) :
    cutText (cutText left) = cutText (cutText right) ↔ SameCut left right := by
  constructor
  · intro hcut
    by_cases hleft : maxStringLength < left.length
    · by_cases hright : maxStringLength < right.length
      · right
        have htake : (left.take maxStringLength).length =
            (right.take maxStringLength).length := by
          simp [hleft.le, hright.le]
        rw [cutText_cutText_of_long hleft, cutText_cutText_of_long hright] at hcut
        obtain ⟨hsame, htruncation⟩ := List.append_inj hcut htake
        have hdigits := truncation_inj (by omega) (by omega) htruncation
        exact ⟨hleft, hright, hsame, by omega⟩
      · have hlength := length_cutText_cutText hleft
        have hshort := Nat.le_of_not_lt hright
        rw [hcut, cutText_of_short hshort, cutText_of_short hshort] at hlength
        omega
    · have hshort := Nat.le_of_not_lt hleft
      rw [cutText_of_short hshort, cutText_of_short hshort] at hcut
      by_cases hright : maxStringLength < right.length
      · have hlength := length_cutText_cutText hright
        rw [← hcut] at hlength
        omega
      · have hother := Nat.le_of_not_lt hright
        rw [cutText_of_short hother, cutText_of_short hother] at hcut
        exact .inl hcut
  · rintro (rfl | ⟨hleft, hright, hsame, hdigits⟩)
    · rfl
    · rw [cutText_cutText_of_long hleft, cutText_cutText_of_long hright, hsame,
        hdigits]

/-- Has parts, or is the text that stands for them in the log. -/
def Tree.IsLimited (value : Tree) : Prop :=
  value.hasParts ∨ value = depthLimited

/-- What the log does not tell from one another, with so many levels left. -/
def LookAlike : ℕ → Tree → Tree → Prop
  | _, .plain left, .plain right => left = right
  | _, .text left, .text right => SameCut left right
  | 0, left, right => left.IsLimited ∧ right.IsLimited
  | levels + 1, .array left, .array right =>
      (maxArrayLength < left.length ↔ maxArrayLength < right.length) ∧
        List.Forall₂ (LookAlike levels) (left.take maxArrayLength)
          (right.take maxArrayLength)
  | levels + 1, .object left, .object right =>
      List.Forall₂
        (fun field other => field.1 = other.1 ∧
          (isSensitive lower field.1 ∨ LookAlike levels field.2 other.2))
        (kept left) (kept right)
  | _, _, _ => False

theorem limited_eq_iff (sanitize : Tree → Tree) (left right : List Tree) :
    (left.take maxArrayLength).map sanitize ++
          arrayMarker (min left.length (maxArrayLength + 1)) =
        (right.take maxArrayLength).map sanitize ++
          arrayMarker (min right.length (maxArrayLength + 1)) ↔
      (maxArrayLength < left.length ↔ maxArrayLength < right.length) ∧
        List.Forall₂ (fun item other => sanitize item = sanitize other)
          (left.take maxArrayLength) (right.take maxArrayLength) := by
  have hlength (items : List Tree) :
      ((items.take maxArrayLength).map sanitize ++
        arrayMarker (min items.length (maxArrayLength + 1))).length =
          min items.length (maxArrayLength + 1) := by
    rw [length_limited]
    · omega
    · rw [List.length_map, List.length_take]
      omega
  rw [← map_eq_map_iff]
  constructor
  · intro hlimited
    have hlengths := congrArg List.length hlimited
    rw [hlength, hlength] at hlengths
    rw [hlengths] at hlimited
    exact ⟨by omega, List.append_cancel_right hlimited⟩
  · rintro ⟨hboth, hitems⟩
    have hlengths := congrArg List.length hitems
    simp only [List.length_map, List.length_take] at hlengths
    have hmarkers : min left.length (maxArrayLength + 1) =
        min right.length (maxArrayLength + 1) := by omega
    rw [hitems, hmarkers]

theorem outEntries_eq_iff (sanitize : Tree → Tree)
    (left right : List (Text × Tree)) :
    outEntries lower sanitize left = outEntries lower sanitize right ↔
      List.Forall₂
        (fun field other => field.1 = other.1 ∧
          (isSensitive lower field.1 ∨ sanitize field.2 = sanitize other.2))
        (kept left) (kept right) := by
  have hentry (field other : Text × Tree) :
      (field.1, if isSensitive lower field.1 then redacted
          else sanitize field.2) =
        (other.1, if isSensitive lower other.1 then redacted
          else sanitize other.2) ↔
        field.1 = other.1 ∧
          (isSensitive lower field.1 ∨ sanitize field.2 = sanitize other.2) := by
    rw [Prod.mk.injEq]
    apply and_congr_right
    intro hkey
    rw [← hkey]
    by_cases hsensitive : isSensitive lower field.1 <;> simp [hsensitive]
  rw [outEntries, outEntries, map_eq_map_iff]
  simp only [hentry]

theorem cutText_cutText_eq_depthLimited_iff (content : Text) :
    Tree.text (cutText (cutText content)) = depthLimited ↔
      Tree.text content = depthLimited := by
  have hshort : (utf16 "[depth-limited]").length ≤ maxStringLength := by
    decide +kernel
  have hsame := cutText_cutText_eq_iff content (utf16 "[depth-limited]")
  rw [cutText_of_short hshort, cutText_of_short hshort] at hsame
  rw [depthLimited, Tree.text.injEq, Tree.text.injEq, hsame]
  constructor
  · rintro (hequal | ⟨-, hlong, -⟩)
    · exact hequal
    · omega
  · exact .inl

theorem shown_zero_eq_depthLimited_iff (value : Tree) :
    shown lower 0 value = depthLimited ↔ value.IsLimited := by
  cases value with
  | plain value => simp [Tree.IsLimited, Tree.hasParts, depthLimited]
  | text content =>
      rw [shown_text, cutText_cutText_eq_depthLimited_iff]
      simp [Tree.IsLimited, Tree.hasParts]
  | array | object =>
      exact iff_of_true (shown_zero_of_hasParts lower rfl) (.inl rfl)

theorem shown_zero_eq_iff (left right : Tree) :
    shown lower 0 left = shown lower 0 right ↔
      LookAlike lower 0 left right := by
  have hlimited (value : Tree) (hparts : value.hasParts) (other : Tree) :
      shown lower 0 value = shown lower 0 other ↔
        value.IsLimited ∧ other.IsLimited := by
    rw [shown_zero_of_hasParts lower hparts, eq_comm,
      shown_zero_eq_depthLimited_iff]
    simp [Tree.IsLimited, hparts]
  cases left with
  | array | object => cases right <;> exact hlimited _ rfl _
  | plain value =>
      cases right with
      | array | object => exact eq_comm.trans ((hlimited _ rfl _).trans and_comm)
      | plain | text => simp [LookAlike, Tree.IsLimited, Tree.hasParts, depthLimited]
  | text content =>
      cases right with
      | array | object => exact eq_comm.trans ((hlimited _ rfl _).trans and_comm)
      | plain => simp [LookAlike, Tree.IsLimited, Tree.hasParts, depthLimited]
      | text => simp [LookAlike, cutText_cutText_eq_iff]

/-- The log does not tell two values apart exactly if they look alike. -/
theorem shown_eq_iff (levels : ℕ) (left right : Tree) :
    shown lower levels left = shown lower levels right ↔
      LookAlike lower levels left right := by
  induction levels generalizing left right with
  | zero => exact shown_zero_eq_iff lower left right
  | succ levels ih =>
      cases left with
      | array items =>
          cases right with
          | array others =>
              rw [shown_array, shown_array, Tree.array.injEq, limited_eq_iff]
              simp only [ih, LookAlike]
          | plain | text | object => simp [shown_array, shown_object, LookAlike]
      | plain | text | object =>
          cases right <;>
            simp [shown_array, shown_object, outEntries_eq_iff,
              cutText_cutText_eq_iff, LookAlike, ih]

/-! ## Secrets -/

/-- The fields of the auth and profile endpoints that hold secrets. -/
def secretFields : List Text :=
  ["password", "oldPassword", "newPassword", "confirmPassword", "otp",
    "refreshToken", "turnstileToken", "challengeToken"].map utf16

def Tree.withoutSecrets : Tree → Tree
  | .array items => .array (ofItems items)
  | .object fields => .object (ofFields fields)
  | value => value
where
  ofItems : List Tree → List Tree
    | [] => []
    | item :: rest => item.withoutSecrets :: ofItems rest
  ofFields : List (Text × Tree) → List (Text × Tree)
    | [] => []
    | (key, value) :: rest =>
        (key, if key ∈ secretFields then .plain .undefined
          else value.withoutSecrets) :: ofFields rest

theorem withoutSecrets_ofItems (items : List Tree) :
    Tree.withoutSecrets.ofItems items = items.map Tree.withoutSecrets := by
  induction items with
  | nil => rfl
  | cons item rest ih => rw [Tree.withoutSecrets.ofItems, ih, List.map_cons]

theorem withoutSecrets_ofFields (fields : List (Text × Tree)) :
    Tree.withoutSecrets.ofFields fields = fields.map fun field =>
      (field.1, if field.1 ∈ secretFields then .plain .undefined
        else field.2.withoutSecrets) := by
  induction fields with
  | nil => rfl
  | cons field rest ih => rw [Tree.withoutSecrets.ofFields, ih, List.map_cons]

/-- The secrets of two bodies that the log shows, each with the levels that are
left there. -/
def exposed : ℕ → Tree → Tree → List (ℕ × Tree × Tree)
  | levels + 1, .array left, .array right =>
      ((left.take maxArrayLength).zip (right.take maxArrayLength)).flatMap
        fun pair => exposed levels pair.1 pair.2
  | levels + 1, .object left, .object right =>
      ((kept left).zip (kept right)).flatMap fun pair =>
        if isSensitive lower pair.1.1 then []
        else if pair.1.1 ∈ secretFields then [(levels, pair.1.2, pair.2.2)]
        else exposed levels pair.1.2 pair.2.2
  | _, _, _ => []

theorem forall₂_iff_flatMap {P R : α → β → Prop} {pairs : α × β → List γ}
    {Q : γ → Prop}
    (hpairs : ∀ item other, P item other →
      (R item other ↔ ∀ secret ∈ pairs (item, other), Q secret))
    {left : List α} {right : List β} (hP : List.Forall₂ P left right) :
    List.Forall₂ R left right ↔
      ∀ secret ∈ (left.zip right).flatMap pairs, Q secret := by
  induction hP with
  | nil => simp
  | cons hhead _ ih =>
      rw [List.forall₂_cons, List.zip_cons_cons, List.flatMap_cons,
        List.forall_mem_append, hpairs _ _ hhead, ih]

/-- The entries of two objects that differ only in secrets. -/
def SameButSecret (field other : Text × Tree) : Prop :=
  field.1 = other.1 ∧
    (field.1 ∈ secretFields ∨
      field.2.withoutSecrets = other.2.withoutSecrets)

theorem kept_sameButSecret {left right : List (Text × Tree)}
    (hequal : (Tree.object left).withoutSecrets =
      (Tree.object right).withoutSecrets) :
    List.Forall₂ SameButSecret (kept left) (kept right) := by
  have hfields : List.Forall₂ SameButSecret left right := by
    rw [Tree.withoutSecrets, Tree.withoutSecrets, Tree.object.injEq,
      withoutSecrets_ofFields, withoutSecrets_ofFields, map_eq_map_iff] at hequal
    refine hequal.imp fun field other hentry => ?_
    obtain ⟨hkey, hvalue⟩ := Prod.mk.inj hentry
    rw [← hkey] at hvalue
    refine ⟨hkey, ?_⟩
    by_cases hsecret : field.1 ∈ secretFields
    · exact .inl hsecret
    · simp only [hsecret, if_false] at hvalue
      exact .inr hvalue
  exact forall₂_kept (fun _ _ hentry => hentry.1) hfields

theorem lookAlike_zero_of_withoutSecrets {left right : Tree}
    (hequal : left.withoutSecrets = right.withoutSecrets) :
    LookAlike lower 0 left right := by
  cases left <;> cases right <;>
    simp_all [Tree.withoutSecrets, LookAlike, Tree.IsLimited, Tree.hasParts,
      SameCut]

/-- Two bodies that differ only in secrets look alike in the log exactly if
each pair of exposed secrets does. -/
theorem lookAlike_iff_of_withoutSecrets (levels : ℕ) {left right : Tree}
    (hequal : left.withoutSecrets = right.withoutSecrets) :
    LookAlike lower levels left right ↔
      ∀ secret ∈ exposed lower levels left right,
        LookAlike lower secret.1 secret.2.1 secret.2.2 := by
  induction levels generalizing left right with
  | zero =>
      have hnone : exposed lower 0 left right = [] := by
        cases left <;> rfl
      rw [hnone]
      simp [lookAlike_zero_of_withoutSecrets lower hequal]
  | succ levels ih =>
      cases left with
      | array items =>
          cases right with
          | array others =>
              rw [Tree.withoutSecrets, Tree.withoutSecrets, Tree.array.injEq,
                withoutSecrets_ofItems, withoutSecrets_ofItems,
                map_eq_map_iff] at hequal
              have hlong : maxArrayLength < items.length ↔
                  maxArrayLength < others.length := by
                rw [hequal.length_eq]
              rw [LookAlike, exposed, and_iff_right hlong]
              exact forall₂_iff_flatMap (fun item other hitem => ih hitem)
                (List.forall₂_take _ hequal)
          | plain | text | object => simp [Tree.withoutSecrets] at hequal
      | object fields =>
          cases right with
          | object others =>
              rw [LookAlike, exposed]
              refine forall₂_iff_flatMap ?_ (kept_sameButSecret hequal)
              rintro field other ⟨hkey, hvalue⟩
              rw [and_iff_right hkey]
              by_cases hsensitive : isSensitive lower field.1
              · simp [hsensitive]
              · by_cases hsecret : field.1 ∈ secretFields
                · simp [hsensitive, hsecret]
                · have hsame := ih (hvalue.resolve_left hsecret)
                  simp [hsensitive, hsecret, hsame]
          | plain | text | array => simp [Tree.withoutSecrets] at hequal
      | plain | text =>
          cases right <;>
            simp_all [Tree.withoutSecrets, LookAlike, exposed, SameCut]

/-! ## Records -/

inductive AppLogLevel where
  | error
  | warn
  | log
  | debug
  | verbose
  deriving DecidableEq, Repr

/-- The place of a level in `order`. -/
def AppLogLevel.index : AppLogLevel → ℕ
  | .error => 0
  | .warn => 1
  | .log => 2
  | .debug => 3
  | .verbose => 4

/-- An unknown level counts as `log`. -/
def configuredLevel (configured : String) : AppLogLevel :=
  if configured = "error" then .error
  else if configured = "warn" then .warn
  else if configured = "debug" then .debug
  else if configured = "verbose" then .verbose
  else .log

def isLevelEnabled (level : AppLogLevel) (configured : String) : Bool :=
  level.index ≤ (configuredLevel configured).index

structure AppConfig where
  nodeEnv : String
  logLevel : String
  logHttpBody : Bool

structure AppLogInput where
  service : String
  protocol : String
  routeOrEvent : Text
  message : String
  correlationId : Option Text
  requestId : Option Text
  userId : Option ℚ
  statusCode : Option ℕ
  durationMs : Option ℤ
  metadata : List (Text × Tree)

structure AppLogRecord where
  timestamp : ℕ
  level : AppLogLevel
  env : String
  input : AppLogInput
  metadata : Tree

/-- `AppLogger.write`; of the input's own metadata the record keeps nothing. -/
def write (app : AppConfig) (timestamp : ℕ) (level : AppLogLevel)
    (input : AppLogInput) : Option AppLogRecord :=
  if isLevelEnabled level app.logLevel then
    some
      { timestamp := timestamp
        level := level
        env := app.nodeEnv
        input := { input with metadata := [] }
        metadata := sanitizeForLog lower Tree.shape maxDepth (.object input.metadata) }
  else none

structure Request where
  method : Text
  originalUrl : Text
  ip : Plain ⊕ Text
  requestId : Option Text
  sub : Tree
  body : Tree

/-- The response of a handler that did not throw. -/
structure Completion where
  statusCode : ℕ
  durationMs : ℤ
  responseBytes : Plain

namespace Request

/-- `typeof userId === 'number' ? userId : null`. -/
def userId (request : Request) : Option ℚ :=
  match request.sub with
  | .plain (.number sub) => some sub
  | _ => none

def clientIp (request : Request) : Tree :=
  request.ip.elim .plain .text

def record (request : Request) (message : String)
    (metadata : List (Text × Tree)) : AppLogInput where
  service := "http"
  protocol := "http"
  routeOrEvent := request.method ++ utf16 " " ++ request.originalUrl
  message := message
  correlationId := request.requestId
  requestId := request.requestId
  userId := request.userId
  statusCode := none
  durationMs := none
  metadata := metadata

end Request

def started (app : AppConfig) (request : Request) : AppLogInput :=
  request.record "HTTP request started"
    [(utf16 "method", .text request.method),
      (utf16 "path", .text request.originalUrl),
      (utf16 "clientIp", request.clientIp),
      (utf16 "body",
        if app.logHttpBody then
          sanitizeForLog lower Tree.shape maxDepth request.body
        else .plain .undefined)]

def completed (request : Request) (completion : Completion) : AppLogInput :=
  { request.record "HTTP request completed"
      [(utf16 "method", .text request.method),
        (utf16 "path", .text request.originalUrl),
        (utf16 "responseBytes", .plain completion.responseBytes)] with
    statusCode := some completion.statusCode
    durationMs := some completion.durationMs }

/-- `LoggingInterceptor.intercept`: the records of a request that starts and, if
the handler does not throw, completes. -/
def intercept (app : AppConfig) (request : Request)
    (completion : Option Completion) (start finish : ℕ) : List AppLogRecord :=
  (write lower app start .log (started lower app request)).toList ++
    (completion.bind fun completion =>
      write lower app finish .log (completed request completion)).toList

/-! ## Two bodies -/

theorem isSensitive_of_ascii {key : Text}
    (hascii : key.all (fun unit => decide (unit < 128)) = true) :
    isSensitive lower key = sensitiveKeys.contains
      ((key.map fun unit => if 65 ≤ unit ∧ unit ≤ 90 then unit + 32 else unit).filter
        fun unit => unit ≠ 95 && unit ≠ 45) := by
  rw [isSensitive, lower.ascii key (by simpa using hascii)]

/-- Of the secrets only these three are covered by their names. -/
theorem isSensitive_secret_iff {key : Text} (hkey : key ∈ secretFields) :
    isSensitive lower key ↔
      key ∈ ["password", "otp", "refreshToken"].map utf16 := by
  have hascii : ∀ key ∈ secretFields,
      key.all (fun unit => decide (unit < 128)) = true := by
    decide +kernel
  have hcovered : ∀ key ∈ secretFields,
      (sensitiveKeys.contains
        ((key.map fun unit =>
            if 65 ≤ unit ∧ unit ≤ 90 then unit + 32 else unit).filter
          fun unit => unit ≠ 95 && unit ≠ 45) ↔
        key ∈ ["password", "otp", "refreshToken"].map utf16) := by
    decide +kernel
  rw [isSensitive_of_ascii lower (hascii key hkey)]
  exact hcovered key hkey

/-- The entries of the first record's metadata all come to the log. -/
theorem kept_metadata (method path ip body : Tree) :
    kept [(utf16 "method", method), (utf16 "path", path),
        (utf16 "clientIp", ip), (utf16 "body", body)] =
      [(utf16 "method", method), (utf16 "path", path),
        (utf16 "clientIp", ip), (utf16 "body", body)] := by
  have hmethod : utf16 "method" ≠ proto := by decide +kernel
  have hpath : utf16 "path" ≠ proto := by decide +kernel
  have hip : utf16 "clientIp" ≠ proto := by decide +kernel
  have hbody : utf16 "body" ≠ proto := by decide +kernel
  rw [kept, List.take_of_length_le (by simp [maxObjectKeys])]
  simp [hmethod, hpath, hip, hbody]

/-- The first record shows of the body what is left after two passes. -/
theorem started_metadata_eq_iff {app : AppConfig} (hlogged : app.logHttpBody)
    (request : Request) (left right : Tree) :
    sanitizeForLog lower Tree.shape maxDepth
          (.object (started lower app { request with body := left }).metadata) =
        sanitizeForLog lower Tree.shape maxDepth
          (.object (started lower app { request with body := right }).metadata) ↔
      shown lower 3 left = shown lower 3 right := by
  have hname : isSensitive lower (utf16 "body") = false := by
    rw [isSensitive_of_ascii lower (by decide +kernel)]
    decide +kernel
  change sanitizeForLog lower Tree.shape (3 + 1) _ =
    sanitizeForLog lower Tree.shape (3 + 1) _ ↔ _
  rw [sanitizeForLog, sanitizeForLog]
  simp only [Tree.shape, Tree.object.injEq]
  rw [outEntries_eq_iff]
  simp only [started, Request.record, Request.clientIp, hlogged, if_true,
    kept_metadata, List.forall₂_cons, List.forall₂_nil_left_iff, hname]
  simp [shown, maxDepth]

theorem intercept_eq_iff {app : AppConfig} (hlogged : app.logHttpBody)
    (request : Request) (completion : Option Completion) (start finish : ℕ)
    (left right : Tree) :
    intercept lower app { request with body := left } completion start finish =
        intercept lower app { request with body := right } completion start
          finish ↔
      isLevelEnabled .log app.logLevel →
        shown lower 3 left = shown lower 3 right := by
  have hcompleted (body : Tree) (completion : Completion) :
      completed { request with body := body } completion =
        completed request completion := rfl
  simp only [intercept, hcompleted, List.append_left_inj]
  by_cases henabled : isLevelEnabled .log app.logLevel
  · have hmetadata := started_metadata_eq_iff lower hlogged request left right
    simp only [write, henabled, if_true, Option.toList_some, List.cons.injEq,
      and_true, AppLogRecord.mk.injEq, true_and, forall_const, hmetadata]
    exact and_iff_right rfl
  · simp [write, henabled]

/-- With body logging, the records of two bodies that differ only in secrets
are equal exactly if nothing is logged or the exposed secrets look alike. -/
theorem bodies_hidden_iff {app : AppConfig} (hlogged : app.logHttpBody)
    (request : Request) (completion : Option Completion) (start finish : ℕ)
    {left right : Tree} (hequal : left.withoutSecrets = right.withoutSecrets) :
    intercept lower app { request with body := left } completion start finish =
        intercept lower app { request with body := right } completion start
          finish ↔
      isLevelEnabled .log app.logLevel = false ∨
        ∀ secret ∈ exposed lower 3 left right,
          LookAlike lower secret.1 secret.2.1 secret.2.2 := by
  rw [intercept_eq_iff lower hlogged, shown_eq_iff,
    lookAlike_iff_of_withoutSecrets lower 3 hequal]
  by_cases henabled : isLevelEnabled .log app.logLevel <;> simp [henabled]

def bodyLogging : AppConfig where
  nodeEnv := "production"
  logLevel := "log"
  logHttpBody := true

def postRequest (originalUrl : String) (body : Tree) : Request where
  method := utf16 "POST"
  originalUrl := utf16 originalUrl
  ip := .inr (utf16 "10.0.0.7")
  requestId := none
  sub := .plain .undefined
  body := body

def loginBody (password : String) : Tree :=
  .object [(utf16 "phone", .text (utf16 "+201000000001")),
    (utf16 "password", .text (utf16 password))]

/-- Two attempts to log in. -/
theorem bodies_hidden_iff_login :
    intercept asciiLowerCase bodyLogging
        (postRequest "/auth/login" (loginBody "first")) none 0 1 =
      intercept asciiLowerCase bodyLogging
        (postRequest "/auth/login" (loginBody "second")) none 0 1 := by
  have hnone : exposed asciiLowerCase 3 (loginBody "first")
      (loginBody "second") = [] := rfl
  have hequal : (loginBody "first").withoutSecrets =
      (loginBody "second").withoutSecrets := rfl
  refine (bodies_hidden_iff asciiLowerCase rfl
    (postRequest "/auth/login" (.plain .undefined)) none 0 1 hequal).mpr
      (.inr ?_)
  rw [hnone]
  exact List.forall_mem_nil _

def resetBody (newPassword : String) : Tree :=
  .object [(utf16 "phone", .text (utf16 "+201000000001")),
    (utf16 "otp", .text (utf16 "123456")),
    (utf16 "newPassword", .text (utf16 newPassword)),
    (utf16 "confirmPassword", .text (utf16 newPassword))]

/-- A new password comes to the log as it is. -/
theorem reset_not_hidden :
    (resetBody "first").withoutSecrets = (resetBody "second").withoutSecrets ∧
      intercept asciiLowerCase bodyLogging
          (postRequest "/auth/password/reset" (resetBody "first")) none 0 1 ≠
        intercept asciiLowerCase bodyLogging
          (postRequest "/auth/password/reset" (resetBody "second")) none 0 1 := by
  have hequal : (resetBody "first").withoutSecrets =
      (resetBody "second").withoutSecrets := rfl
  refine ⟨hequal, fun hrecords => ?_⟩
  have hshown := (intercept_eq_iff asciiLowerCase rfl
    (postRequest "/auth/password/reset" (.plain .undefined)) none 0 1
    (resetBody "first") (resetBody "second")).mp hrecords rfl
  have hexposed : (2, Tree.text (utf16 "first"), Tree.text (utf16 "second")) ∈
      exposed asciiLowerCase 3 (resetBody "first") (resetBody "second") :=
    .head _
  have halike := (lookAlike_iff_of_withoutSecrets asciiLowerCase 3 hequal).mp
    ((shown_eq_iff asciiLowerCase 3 _ _).mp hshown) _ hexposed
  have hdifferent : ¬ SameCut (utf16 "first") (utf16 "second") := by
    unfold SameCut
    decide +kernel
  exact hdifferent halike

end MarketPlace.Logging
