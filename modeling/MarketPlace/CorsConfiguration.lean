import MarketPlace.ListingServices

/-!
# The CORS policy

The configuration is read from the environment when the server starts, and
either is refused or contains a policy, from which the options of the HTTP
server and of the socket server are built.
-/

namespace MarketPlace.Config

open Trade (trim truthyText)

structure Url where
  protocol : String
  origin : String
  deriving DecidableEq, Repr

/-- What the language gives the configuration: its lower-casing of texts, and
`new URL(text)`, of which nothing is used but that the two local origins are
well-formed and their own origins. -/
structure Platform where
  toLowerCase : String → String
  parseUrl : String → Option Url
  localhost800 : parseUrl "http://localhost:800" =
    some ⟨"http:", "http://localhost:800"⟩
  localhost5174 : parseUrl "http://localhost:5174" =
    some ⟨"http:", "http://localhost:5174"⟩

/-- `process.env`. -/
abbrev Environment := String → Option String

/-- The part of `AppConfig` that the policy is built from. -/
structure CorsPolicy where
  corsOrigins : List String
  corsAllowAnyOrigin : Bool
  corsCredentials : Bool
  deriving DecidableEq, Repr

def defaultDevCorsOrigins : List String :=
  ["http://localhost:800", "http://localhost:5174"]

/-! ## Reading the variable -/

section Parsing

variable (platform : Platform)

def isValidCorsOrigin (origin : String) : Bool :=
  if origin = "*" then true
  else if origin.toList.getLast? = some '/' then false
  else
    match platform.parseUrl origin with
    | none => false
    | some url =>
        (url.protocol = "http:" || url.protocol = "https:") &&
          url.origin = origin

/-- `split(',')`, `map(trim)` and `filter(Boolean)`. -/
def listed (value : Option String) : List String :=
  ((((value.getD "").toList.splitOn ',').map String.ofList).map trim).filter
    fun origin => origin ≠ ""

def parseCorsOrigins (variable_ : Option String) (nodeEnv : String) :
    Except String CorsPolicy :=
  let corsOrigins := listed variable_
  let hasWildcard := corsOrigins.contains "*"
  let hasSpecificOrigins := corsOrigins.any fun origin => origin ≠ "*"
  if nodeEnv = "production" ∧ corsOrigins = [] then
    .error "CORS_ORIGINS is required in production"
  else if hasWildcard ∧ hasSpecificOrigins then
    .error "CORS_ORIGINS cannot mix \"*\" with specific origins"
  else if nodeEnv = "production" ∧ hasWildcard then
    .error "CORS_ORIGINS wildcard \"*\" is not allowed in production"
  else
    let invalidOrigins :=
      corsOrigins.filter fun origin => !isValidCorsOrigin platform origin
    if invalidOrigins ≠ [] then
      .error ("CORS_ORIGINS contains invalid origin(s): " ++
        String.intercalate ", " invalidOrigins)
    else if corsOrigins = [] ∧ nodeEnv ≠ "production" then
      .ok ⟨defaultDevCorsOrigins, false, true⟩
    else if hasWildcard then .ok ⟨["*"], true, false⟩
    else .ok ⟨corsOrigins, false, true⟩

def nodeEnv (env : Environment) : String := (env "NODE_ENV").getD "development"

/-- `if (bad) throw new Error(message)`. -/
def refuse (bad : Prop) [Decidable bad] (message : String) :
    Except String Unit :=
  if bad then .error message else .ok ()

/-- `if (!process.env[name]) throw`. -/
def require (env : Environment) (name message : String) : Except String Unit :=
  refuse (truthyText (env name) = none) message

def requireAkedly (env : Environment) (otpProvider : String) :
    Except String Unit :=
  if otpProvider = "akedly" then do
    require env "AKEDLY_API_KEY"
      "AKEDLY_API_KEY is required when OTP_PROVIDER=akedly"
    require env "AKEDLY_PIPELINE_ID"
      "AKEDLY_PIPELINE_ID is required when OTP_PROVIDER=akedly"
  else .ok ()

/-- `configuration()`, of which only the policy is kept. -/
def configuration (env : Environment) : Except String CorsPolicy := do
  let otpProvider :=
    platform.toLowerCase ((env "OTP_PROVIDER").getD "console")
  let storageProvider :=
    platform.toLowerCase ((env "STORAGE_PROVIDER").getD "cloudinary")
  require env "DATABASE_URL" "DATABASE_URL is required"
  require env "JWT_ACCESS_SECRET" "JWT_ACCESS_SECRET is required"
  require env "JWT_REFRESH_SECRET" "JWT_REFRESH_SECRET is required"
  require env "STORAGE_SIGNING_SECRET" "STORAGE_SIGNING_SECRET is required"
  require env "OTP_SIGNING_SECRET" "OTP_SIGNING_SECRET is required"
  refuse (otpProvider ≠ "console" ∧ otpProvider ≠ "akedly")
    "OTP_PROVIDER must be either \"console\" or \"akedly\""
  refuse (storageProvider ≠ "cloudinary")
    "STORAGE_PROVIDER currently supports only \"cloudinary\""
  requireAkedly env otpProvider
  require env "CLOUDINARY_CLOUD_NAME"
    "CLOUDINARY_CLOUD_NAME is required when STORAGE_PROVIDER=cloudinary"
  require env "CLOUDINARY_API_KEY"
    "CLOUDINARY_API_KEY is required when STORAGE_PROVIDER=cloudinary"
  require env "CLOUDINARY_API_SECRET"
    "CLOUDINARY_API_SECRET is required when STORAGE_PROVIDER=cloudinary"
  parseCorsOrigins platform (env "CORS_ORIGINS") (nodeEnv env)

end Parsing

/-! ## The options -/

def corsMethods : List String :=
  ["GET", "POST", "PUT", "PATCH", "DELETE", "OPTIONS"]

structure CorsRuntimePolicy extends CorsPolicy where
  methods : List String

/-- `true` or the origins that are allowed. -/
inductive CorsOrigin where
  | any
  | listed (origins : List String)
  deriving DecidableEq, Repr

structure SocketCorsOptions where
  origin : CorsOrigin
  credentials : Bool
  deriving DecidableEq, Repr

structure HttpCorsOptions extends SocketCorsOptions where
  methods : List String

def buildCorsRuntimePolicy (config : CorsPolicy) : CorsRuntimePolicy where
  corsOrigins := config.corsOrigins
  corsAllowAnyOrigin := config.corsAllowAnyOrigin
  corsCredentials := config.corsCredentials
  methods := corsMethods

def buildHttpCorsOptions (policy : CorsRuntimePolicy) : HttpCorsOptions where
  origin :=
    if policy.corsAllowAnyOrigin then .any else .listed policy.corsOrigins
  credentials := policy.corsCredentials
  methods := policy.methods

def buildSocketCorsOptions (policy : CorsPolicy) : SocketCorsOptions where
  origin :=
    if policy.corsAllowAnyOrigin then .any else .listed policy.corsOrigins
  credentials := policy.corsCredentials

/-- The fields that `bootstrap` hands to the adapter of the socket server. -/
structure AdapterPolicy where
  origins : List String
  allowAnyOrigin : Bool
  credentials : Bool

def adapterPolicy (policy : CorsRuntimePolicy) : AdapterPolicy :=
  ⟨policy.corsOrigins, policy.corsAllowAnyOrigin, policy.corsCredentials⟩

/-- The options with which the adapter creates the socket server. -/
def AdapterPolicy.socketOptions (policy : AdapterPolicy) : SocketCorsOptions :=
  buildSocketCorsOptions
    ⟨policy.origins, policy.allowAnyOrigin, policy.credentials⟩

/-! ## Soundness -/

variable {platform : Platform} {env : Environment} {policy : CorsPolicy}

/-- The text is an http or https URL and its own origin. -/
def Platform.OwnOrigin (platform : Platform) (origin : String) : Prop :=
  ∃ url, platform.parseUrl origin = some url ∧
    (url.protocol = "http:" ∨ url.protocol = "https:") ∧ url.origin = origin

structure PolicySound (platform : Platform) (nodeEnv : String)
    (policy : CorsPolicy) : Prop where
  exclusive : ¬ (policy.corsAllowAnyOrigin = true ∧
    policy.corsCredentials = true)
  production : nodeEnv = "production" →
    policy.corsAllowAnyOrigin = false ∧ policy.corsOrigins ≠ []
  origins : policy.corsAllowAnyOrigin = false →
    ∀ origin ∈ policy.corsOrigins, platform.OwnOrigin origin
  wildcard : policy.corsAllowAnyOrigin = true → policy.corsOrigins = ["*"]
  agreement :
    (buildHttpCorsOptions (buildCorsRuntimePolicy policy)).toSocketCorsOptions =
      (adapterPolicy (buildCorsRuntimePolicy policy)).socketOptions

theorem ownOrigin_of_valid {origin : String} (hne : origin ≠ "*")
    (h : isValidCorsOrigin platform origin = true) :
    platform.OwnOrigin origin := by
  rw [isValidCorsOrigin, if_neg hne] at h
  split at h
  · contradiction
  · cases hurl : platform.parseUrl origin with
    | none => simp [hurl] at h
    | some url =>
        simp only [hurl, Bool.and_eq_true, Bool.or_eq_true,
          decide_eq_true_eq] at h
        exact ⟨url, hurl, h⟩

theorem ownOrigin_of_default {origin : String}
    (h : origin ∈ defaultDevCorsOrigins) : platform.OwnOrigin origin := by
  rcases List.mem_pair.mp h with rfl | rfl
  · exact ⟨_, platform.localhost800, .inl rfl, rfl⟩
  · exact ⟨_, platform.localhost5174, .inl rfl, rfl⟩

/-- An allowlist whose entries are their own origins. -/
theorem policySound_of_list {mode : String} {origins : List String}
    (hproduction : mode = "production" → origins ≠ [])
    (horigins : ∀ origin ∈ origins, platform.OwnOrigin origin) :
    PolicySound platform mode ⟨origins, false, true⟩ where
  exclusive := by simp
  production hmode := ⟨rfl, hproduction hmode⟩
  origins _ := horigins
  wildcard := by simp
  agreement := rfl

theorem parseCorsOrigins_sound {value : Option String} {mode : String}
    (h : parseCorsOrigins platform value mode = .ok policy) :
    PolicySound platform mode policy := by
  simp only [parseCorsOrigins] at h
  split at h
  · cases h
  next hrequired =>
  split at h
  · cases h
  next hmixed =>
  split at h
  · cases h
  next hwildcard =>
  split at h
  · cases h
  next hvalid =>
  have hall : ∀ origin ∈ listed value,
      isValidCorsOrigin platform origin = true := by
    simpa using hvalid
  split at h
  · next hempty =>
      obtain rfl := Except.ok.inj h
      exact policySound_of_list (fun hmode => absurd hmode hempty.2)
        fun origin => ownOrigin_of_default
  next hlisted =>
  split at h
  · next hcontains =>
      obtain rfl := Except.ok.inj h
      exact {
        exclusive := by simp
        production := fun hmode => absurd ⟨hmode, hcontains⟩ hwildcard
        origins := by simp
        wildcard := fun _ => rfl
        agreement := rfl }
  · next hnone =>
      obtain rfl := Except.ok.inj h
      refine policySound_of_list
        (fun hmode hempty => hrequired ⟨hmode, hempty⟩) fun origin hmem => ?_
      refine ownOrigin_of_valid ?_ (hall origin hmem)
      rintro rfl
      exact hnone (List.contains_iff_mem.mpr hmem)

theorem bind_eq_ok {α β : Type} {first : Except String α}
    {next : α → Except String β} {result : β}
    (h : (first >>= next) = .ok result) :
    ∃ value, next value = .ok result := by
  cases first with
  | error message => cases h
  | ok value => exact ⟨value, h⟩

/-- The origins are parsed after all other checks. -/
theorem parseCorsOrigins_of_configuration
    (h : configuration platform env = .ok policy) :
    parseCorsOrigins platform (env "CORS_ORIGINS") (nodeEnv env) =
      .ok policy := by
  unfold configuration at h
  iterate 11 obtain ⟨_, h⟩ := bind_eq_ok h
  exact h

/-- For every environment, the configuration is refused or has a sound policy:
credentials never come with any origin, production has a list of allowed
origins, and each entry of a list is an http or https URL and its own origin.
The two servers get the same origins and credentials. -/
theorem cors_policy_sound (h : configuration platform env = .ok policy) :
    PolicySound platform (nodeEnv env) policy :=
  parseCorsOrigins_sound (parseCorsOrigins_of_configuration h)

/-- A platform that parses three texts. -/
def samplePlatform : Platform where
  toLowerCase text := text
  parseUrl text :=
    if text = "http://localhost:800" then some ⟨"http:", text⟩
    else if text = "http://localhost:5174" then some ⟨"http:", text⟩
    else if text = "https://a.example" then some ⟨"https:", text⟩
    else none
  localhost800 := rfl
  localhost5174 := rfl

/-- An environment in which every other variable is set. -/
def sampleEnvironment (mode origins : String) : Environment := fun name =>
  if name = "NODE_ENV" then some mode
  else if name = "CORS_ORIGINS" then some origins
  else if name = "OTP_PROVIDER" then some "console"
  else if name = "STORAGE_PROVIDER" then some "cloudinary"
  else some "set"

theorem cors_policy_sound_production :
    PolicySound samplePlatform "production"
      ⟨["https://a.example"], false, true⟩ :=
  cors_policy_sound (show configuration samplePlatform
    (sampleEnvironment "production" " https://a.example,, ") =
      .ok ⟨["https://a.example"], false, true⟩ by decide +kernel)

/-- Outside of production the list can be the wildcard, which is no URL. -/
theorem wildcard_not_own_origin :
    ¬ ∀ (platform : Platform) (env : Environment) (policy : CorsPolicy),
      configuration platform env = .ok policy →
        ∀ origin ∈ policy.corsOrigins, platform.OwnOrigin origin := by
  intro h
  obtain ⟨url, hurl, -⟩ := h samplePlatform
    (sampleEnvironment "development" "*") ⟨["*"], true, false⟩
    (by decide +kernel) "*" List.mem_cons_self
  cases hurl

end MarketPlace.Config
