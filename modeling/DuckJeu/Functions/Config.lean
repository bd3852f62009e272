import DuckJeu.Functions.Optimized
import DuckJeu.Provider.ByteCap
import DuckJeu.Provider.Mock

/-!
# The settings of a session

This module follows `config.rs`, and the two functions which use it when a
scalar function is initialized: `provider_for` and `init`.  Each execution
gets a snapshot of the options, and its provider.

An option which cannot be read is `none`, and so are all of them together when
there is no client context.  The environment is a parameter.
-/

namespace DuckJeu

open Json

/-! ## Options -/

/-- What the options of a session say. -/
structure SessionOptions where
  provider : Option String
  apiUrl : Option String
  localJevApiUrl : Option String
  model : Option String
  timeoutMs : Option Int64
  maxResponseBytes : Option Int64
  executionMode : Option String
  batchEnabled : Option Bool
  batchMaxJudgments : Option Int64
  maxRequestBytes : Option Int64
  maxInflight : Option Int64
  cacheEnabled : Option Bool
  cacheMaxEntries : Option Int64
  cacheMaxBytes : Option Int64
  cacheTtlMs : Option Int64
  profileEnabled : Option Bool

def defaultApiUrl : String := "https://api.typesafe.ai/v1/systemone"

def defaultModel : String := "jev-latest"

def defaultLocalJevApiUrl : String := "http://127.0.0.1:8765/v1/systemone"

def defaultLocalJevModel : String := "nli-deberta-large"

def defaultTimeoutMs : ℕ := 30000

def defaultMaxResponseBytes : ℕ := 1048576

/-- The defaults with which the options are registered.  The empty model stands
for the default of the provider. -/
def registerConfigOptions : SessionOptions where
  provider := some "mock"
  apiUrl := some defaultApiUrl
  localJevApiUrl := some defaultLocalJevApiUrl
  model := some ""
  timeoutMs := some 30000
  maxResponseBytes := some 1048576
  executionMode := some "row"
  batchEnabled := some false
  batchMaxJudgments := some 16
  maxRequestBytes := some 262144
  maxInflight := some 4
  cacheEnabled := some false
  cacheMaxEntries := some 10000
  cacheMaxBytes := some 67108864
  cacheTtlMs := some 60000
  profileEnabled := some false

/-- The error where there is no client context. -/
def noClientContext : String :=
  "internal error: client context is unavailable"

/-! ## The configuration of the executor -/

/-- The configuration and the switch of the profile. -/
structure ProfiledConfig extends RuntimeConfig where
  profileEnabled : Bool

def ExecutionMode.parse (raw : String) : Except String ExecutionMode :=
  if raw = "row" then .ok .row
  else if raw = "optimized" then .ok .optimized
  else .error "duckjeu_execution_mode must be 'row' or 'optimized'"

def positiveLimit (name : String) (value : Int64) : Except String ℕ :=
  if 0 < value.toInt then .ok value.toInt.toNat
  else .error (name ++ " must be a positive integer")

def RuntimeConfig.fromValues (mode : String) (batchEnabled : Bool)
    (batchMaxJudgments maxRequestBytes maxInflight : Int64)
    (cacheEnabled : Bool) (cacheMaxEntries cacheMaxBytes cacheTtlMs : Int64) :
    Except String ProfiledConfig := do
  let mode ← ExecutionMode.parse mode
  if mode = .row ∧ batchEnabled then
    throw "duckjeu_batch_enabled requires duckjeu_execution_mode='optimized'"
  if mode = .row ∧ cacheEnabled then
    throw "duckjeu_cache_enabled requires duckjeu_execution_mode='optimized'"
  let batchMaxJudgments ←
    positiveLimit "duckjeu_batch_max_judgments" batchMaxJudgments
  let maxRequestBytes ←
    positiveLimit "duckjeu_max_request_bytes" maxRequestBytes
  let maxInflight ← positiveLimit "duckjeu_max_inflight" maxInflight
  let cacheMaxEntries ←
    positiveLimit "duckjeu_cache_max_entries" cacheMaxEntries
  let cacheMaxBytes ← positiveLimit "duckjeu_cache_max_bytes" cacheMaxBytes
  let cacheTtlMs ← positiveLimit "duckjeu_cache_ttl_ms" cacheTtlMs
  return { mode, batchEnabled, batchMaxJudgments, maxRequestBytes, maxInflight,
           cacheEnabled, cacheMaxEntries, cacheMaxBytes, cacheTtlMs,
           profileEnabled := false }

def readRuntimeConfig (options : Option SessionOptions) :
    Except String ProfiledConfig :=
  match options with
  | none => .error noClientContext
  | some options => do
      let config ← RuntimeConfig.fromValues
        (options.executionMode.getD "row")
        (options.batchEnabled.getD false)
        (options.batchMaxJudgments.getD 16)
        (options.maxRequestBytes.getD 262144)
        (options.maxInflight.getD 4)
        (options.cacheEnabled.getD false)
        (options.cacheMaxEntries.getD 10000)
        (options.cacheMaxBytes.getD 67108864)
        (options.cacheTtlMs.getD 60000)
      return { config with profileEnabled := options.profileEnabled.getD false }

/-! ### What is accepted -/

theorem positiveLimit_ok {name : String} {value : Int64} {limit : ℕ}
    (h : positiveLimit name value = .ok limit) :
    0 < limit ∧ limit < usizeMax := by
  unfold positiveLimit at h
  split at h
  · rename_i hpos
    obtain rfl := Except.ok.inj h
    have hmax := Int64.toInt_lt value
    unfold usizeMax
    omega
  · cases h

/-- All limits are positive, that of the bytes is less than what stands for a
body which cannot be serialized, and row mode neither batches nor caches. -/
structure RuntimeConfig.Sound (config : RuntimeConfig) : Prop where
  batchMaxJudgments_pos : 0 < config.batchMaxJudgments
  maxRequestBytes_pos : 0 < config.maxRequestBytes
  maxRequestBytes_lt : config.maxRequestBytes < usizeMax
  maxInflight_pos : 0 < config.maxInflight
  cacheMaxEntries_pos : 0 < config.cacheMaxEntries
  cacheMaxBytes_pos : 0 < config.cacheMaxBytes
  cacheTtlMs_pos : 0 < config.cacheTtlMs
  plain : config.mode = .row →
    config.batchEnabled = false ∧ config.cacheEnabled = false

theorem except_bind_ok {ε α β : Type} {x : Except ε α} {f : α → Except ε β}
    {b : β} : x >>= f = .ok b ↔ ∃ a, x = .ok a ∧ f a = .ok b := by
  cases x with
  | error e => simp [bind, Except.bind]
  | ok a => simp [bind, Except.bind]

/-- Values which are accepted are sound. -/
theorem fromValues_sound {mode : String} {batchEnabled cacheEnabled : Bool}
    {batchMaxJudgments maxRequestBytes maxInflight cacheMaxEntries
      cacheMaxBytes cacheTtlMs : Int64} {config : ProfiledConfig}
    (h : RuntimeConfig.fromValues mode batchEnabled batchMaxJudgments
      maxRequestBytes maxInflight cacheEnabled cacheMaxEntries cacheMaxBytes
      cacheTtlMs = .ok config) : config.toRuntimeConfig.Sound := by
  unfold RuntimeConfig.fromValues at h
  obtain ⟨mode, -, h⟩ := except_bind_ok.mp h
  by_cases hbatch : mode = .row ∧ batchEnabled = true
  · rw [if_pos hbatch] at h
    cases h
  rw [if_neg hbatch] at h
  by_cases hcache : mode = .row ∧ cacheEnabled = true
  · rw [if_pos hcache] at h
    cases h
  rw [if_neg hcache] at h
  obtain ⟨judgments, hjudgments, h⟩ := except_bind_ok.mp h
  obtain ⟨bytes, hbytes, h⟩ := except_bind_ok.mp h
  obtain ⟨inflight, hinflight, h⟩ := except_bind_ok.mp h
  obtain ⟨entries, hentries, h⟩ := except_bind_ok.mp h
  obtain ⟨cacheBytes, hcacheBytes, h⟩ := except_bind_ok.mp h
  obtain ⟨ttl, httl, h⟩ := except_bind_ok.mp h
  obtain rfl := Except.ok.inj h
  exact
    { batchMaxJudgments_pos := (positiveLimit_ok hjudgments).1
      maxRequestBytes_pos := (positiveLimit_ok hbytes).1
      maxRequestBytes_lt := (positiveLimit_ok hbytes).2
      maxInflight_pos := (positiveLimit_ok hinflight).1
      cacheMaxEntries_pos := (positiveLimit_ok hentries).1
      cacheMaxBytes_pos := (positiveLimit_ok hcacheBytes).1
      cacheTtlMs_pos := (positiveLimit_ok httl).1
      plain := fun hrow => ⟨Bool.eq_false_iff.mpr fun h => hbatch ⟨hrow, h⟩,
        Bool.eq_false_iff.mpr fun h => hcache ⟨hrow, h⟩⟩ }

theorem readRuntimeConfig_sound {options : Option SessionOptions}
    {config : ProfiledConfig} (h : readRuntimeConfig options = .ok config) :
    config.toRuntimeConfig.Sound := by
  unfold readRuntimeConfig at h
  split at h
  · cases h
  obtain ⟨read, hread, h⟩ := except_bind_ok.mp h
  obtain rfl := Except.ok.inj h
  have hsound := fromValues_sound hread
  exact hsound

/-! ## The provider -/

inductive ProviderKind where
  | mock
  | typesafe
  | selfHosted
  deriving DecidableEq

/-- `s.trim().to_ascii_lowercase()`. -/
def trimmedLower (s : String) : String :=
  String.ofList ((((s.toList.dropWhile isWhitespace).reverse.dropWhile
    isWhitespace).reverse).map Char.toLower)

def ProviderKind.parse (raw : String) : Except JudgmentError ProviderKind :=
  let other := trimmedLower raw
  if other = "mock" then .ok .mock
  else if other = "typesafe" then .ok .typesafe
  else if other = "selfhosted" then .ok .selfHosted
  else .error (.configuration ("unknown duckjeu_provider '" ++ other ++
    "': expected 'mock', 'typesafe', or 'selfhosted'"))

def ProviderKind.asStr : ProviderKind → String
  | .mock => "mock"
  | .typesafe => "typesafe"
  | .selfHosted => "selfhosted"

/-- The `ProviderContext` of the source; the name of the provider is derived
from its kind where it is used. -/
structure SessionContext where
  provider : ProviderKind
  apiUrl : String
  model : String
  timeoutMs : ℕ
  maxResponseBytes : ℕ
  credential : Option String

def SessionContext.default : SessionContext where
  provider := .mock
  apiUrl := defaultApiUrl
  model := defaultModel
  timeoutMs := defaultTimeoutMs
  maxResponseBytes := defaultMaxResponseBytes
  credential := none

/-- The variables of the environment which can be read. -/
abbrev Variables := String → Option String

/-- The first variable which is set and not blank. -/
def credentialFromEnv (env : Variables) : Option String :=
  ["DUCKJEU_API_KEY", "TYPESAFE_API_KEY"].findSome? fun key =>
    (env key).filter fun value => !isBlank value

def localJevCredentialFromEnv (env : Variables) : Option String :=
  (env "DUCKJEU_LOCAL_JEV_API_KEY").filter fun value => !isBlank value

def effectiveModel (provider : ProviderKind)
    (configuredModel : Option String) : String :=
  match configuredModel.filter fun model => !model.isEmpty with
  | some model => model
  | none =>
      if provider = .selfHosted then defaultLocalJevModel else defaultModel

/-- An option for a positive number, or its default. -/
def positiveOption (message : String) (value : Option Int64) (default : ℕ) :
    Except String ℕ :=
  match value with
  | none => .ok default
  | some v => if 0 < v.toInt then .ok v.toInt.toNat else .error message

/-- The endpoint of the provider.  The default of the other providers is not
meant for a service of one's own. -/
def endpointFor (provider : ProviderKind)
    (apiUrl localJevApiUrl : Option String) : String :=
  match provider with
  | .selfHosted =>
      match apiUrl with
      | some url =>
          if url ≠ defaultApiUrl then url
          else localJevApiUrl.getD defaultLocalJevApiUrl
      | none => localJevApiUrl.getD defaultLocalJevApiUrl
  | _ => apiUrl.getD defaultApiUrl

def readProviderContext (env : Variables) (options : Option SessionOptions) :
    Except String SessionContext :=
  match options with
  | none => .error noClientContext
  | some options => do
      let provider ←
        match ProviderKind.parse (options.provider.getD "mock") with
        | .ok provider => .ok provider
        | .error error => .error error.message
      let timeoutMs ← positiveOption "duckjeu_timeout_ms must be positive"
        options.timeoutMs defaultTimeoutMs
      let maxResponseBytes ←
        positiveOption "duckjeu_max_response_bytes must be positive"
          options.maxResponseBytes defaultMaxResponseBytes
      return { provider, timeoutMs, maxResponseBytes
               apiUrl :=
                 endpointFor provider options.apiUrl options.localJevApiUrl
               model := effectiveModel provider options.model
               credential :=
                 match provider with
                 | .selfHosted => localJevCredentialFromEnv env
                 | _ => credentialFromEnv env }

/-- One of the providers. -/
inductive Service where
  | mock
  | typesafe (adapter : TypesafeAdapter)
  | selfHosted (adapter : LocalJevProvider)

def providerFor (context : SessionContext) : Except JudgmentError Service :=
  match context.provider with
  | .mock => .ok .mock
  | .typesafe =>
      match context.credential.filter fun value => !isBlank value with
      | some _ => .ok (.typesafe (.new context.model))
      | none => .error (.configuration
          ("duckjeu_provider='typesafe' requires the TYPESAFE_API_KEY " ++
            "environment variable"))
  | .selfHosted => .ok (.selfHosted (.new context.model))

def Service.declared (toVec : Wire → Option (List UInt8)) : Service → Provider
  | .mock => MockProvider.declared
  | .typesafe adapter => (adapter.httpProvider toVec).declared
  | .selfHosted adapter => (adapter.httpProvider toVec).declared

/-! ## Initialization -/

/-- The part of the context which a function reads. -/
def SessionContext.narrow (context : SessionContext) : ProviderContext where
  provider := context.provider.asStr
  apiUrl := context.apiUrl
  model := context.model
  credential := context.credential

/-- The state which a function is initialized with. -/
def init (toVec : Wire → Option (List UInt8)) (env : Variables)
    (options : Option SessionOptions) (connected : Bool) : ExecutionState :=
  let runtimeConfig : Except String RuntimeConfig :=
    match readRuntimeConfig options with
    | .ok config => .ok config.toRuntimeConfig
    | .error message => .error message
  match readProviderContext env options with
  | .ok context =>
      { context := context.narrow
        provider :=
          match providerFor context with
          | .ok service => .ok (service.declared toVec)
          | .error error => .error error.message
        connected := connected
        runtimeConfig := runtimeConfig }
  | .error message =>
      { context := SessionContext.default.narrow
        provider := .error message
        connected := connected
        runtimeConfig := runtimeConfig }

/-! ## The defaults -/

/-- Unreadable options. -/
def SessionOptions.unreadable : SessionOptions where
  provider := none
  apiUrl := none
  localJevApiUrl := none
  model := none
  timeoutMs := none
  maxResponseBytes := none
  executionMode := none
  batchEnabled := none
  batchMaxJudgments := none
  maxRequestBytes := none
  maxInflight := none
  cacheEnabled := none
  cacheMaxEntries := none
  cacheMaxBytes := none
  cacheTtlMs := none
  profileEnabled := none

/-- The registered defaults are those of the readers: it does not matter
whether an option is read. -/
theorem init_registered (toVec : Wire → Option (List UInt8)) (env : Variables)
    (connected : Bool) :
    init toVec env (some registerConfigOptions) connected =
      init toVec env (some .unreadable) connected := rfl

end DuckJeu
