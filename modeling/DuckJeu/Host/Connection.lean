import DuckJeu.Core.CacheHistory
import DuckJeu.Core.Provider
import Mathlib.Data.Finset.Insert

/-!
# The connection runtime

This module follows `host/mod.rs` and `runtime.rs`: the state which lives as
long as one client connection, and the operations on it.

Shared references of the source (`Arc`) are positions in two lists.  An entry
of the query map is a position among the slots, where a slot is the content of
a `QueryEntry`, and a cancellation flag is a position among the flags.  Slots
and flags outlive the query which made them, as their owners may still hold
them.
-/

namespace DuckJeu

/-! ## Counters -/

/-- `u128::saturating_add`. -/
def satAddWide (a b : ℕ) : ℕ := min (a + b) (2 ^ 128 - 1)

structure QueryCounts where
  inputRows : ℕ := 0
  nullRows : ℕ := 0
  validRows : ℕ := 0
  uniqueJudgments : ℕ := 0
  deduplicatedRows : ℕ := 0
  cacheHitJudgments : ℕ := 0
  providerInvocations : ℕ := 0
  externalRequests : ℕ := 0
  batchedRequests : ℕ := 0
  batchSizeHistogram : Table.Map ℕ ℕ := ∅
  failedRequests : ℕ := 0
  reportedModels : Finset String := ∅
  inputTokens : Option ℕ := none
  outputTokens : Option ℕ := none
  usageResponseCount : ℕ := 0
  usageMissingCount : ℕ := 0
  serializationTimeNs : ℕ := 0
  serializationObservedCount : ℕ := 0
  externalRoundtripNs : ℕ := 0
  externalRoundtripCount : ℕ := 0
  inferenceTimeMs : ℕ := 0
  inferenceObservedCount : ℕ := 0
  inferenceMissingCount : ℕ := 0

namespace QueryCounts

def attempt (counts : QueryCounts) (batchSize : ℕ) (external : Bool) :
    QueryCounts :=
  let counts :=
    { counts with
      providerInvocations := satAdd counts.providerInvocations 1 }
  if external then
    let observed := (counts.batchSizeHistogram.lookup batchSize).getD 0
    { counts with
      externalRequests := satAdd counts.externalRequests 1
      batchSizeHistogram :=
        counts.batchSizeHistogram.insert batchSize (satAdd observed 1)
      batchedRequests :=
        if 1 < batchSize then satAdd counts.batchedRequests 1
        else counts.batchedRequests }
  else counts

/-- The timing part of a recorded response. -/
def responseTiming (counts : QueryCounts) (metadata : ProviderMetadata)
    (elapsed : ℕ) : QueryCounts :=
  let counts :=
    { counts with
      externalRoundtripNs := satAddWide counts.externalRoundtripNs
        (metadata.externalRoundtripNs.getD elapsed)
      externalRoundtripCount := satAdd counts.externalRoundtripCount 1 }
  match metadata.serializationTimeNs with
  | none => counts
  | some serializationTimeNs =>
      { counts with
        serializationTimeNs :=
          satAddWide counts.serializationTimeNs serializationTimeNs
        serializationObservedCount :=
          satAdd counts.serializationObservedCount 1 }

/-- The model part of a recorded response. -/
def responseModel (counts : QueryCounts) (metadata : ProviderMetadata) :
    QueryCounts :=
  match metadata.effectiveModel with
  | none => counts
  | some model =>
      if isBlank model then counts
      else { counts with reportedModels := insert model counts.reportedModels }

/-- The usage part of a recorded response. -/
def responseUsage (counts : QueryCounts) (metadata : ProviderMetadata) :
    QueryCounts :=
  let counts :=
    { counts with usageResponseCount := satAdd counts.usageResponseCount 1 }
  match metadata.usage with
  | some ⟨some input, some output⟩ =>
      { counts with
        inputTokens := some (satAdd (counts.inputTokens.getD 0) input)
        outputTokens := some (satAdd (counts.outputTokens.getD 0) output) }
  | _ =>
      { counts with usageMissingCount := satAdd counts.usageMissingCount 1 }

/-- The inference part of a recorded response. -/
def responseInference (counts : QueryCounts) (metadata : ProviderMetadata) :
    QueryCounts :=
  match metadata.inferenceTimeMs with
  | some milliseconds =>
      { counts with
        inferenceTimeMs := satAddWide counts.inferenceTimeMs milliseconds
        inferenceObservedCount := satAdd counts.inferenceObservedCount 1 }
  | none =>
      { counts with
        inferenceMissingCount := satAdd counts.inferenceMissingCount 1 }

def response (counts : QueryCounts) (detailedTiming : Bool)
    (metadata : ProviderMetadata) (elapsed : ℕ) (external : Bool) :
    QueryCounts :=
  if !external then counts
  else
    let counts :=
      if detailedTiming then counts.responseTiming metadata elapsed else counts
    ((counts.responseModel metadata).responseUsage metadata).responseInference
      metadata

def failure (counts : QueryCounts) (detailedTiming : Bool) (elapsed : ℕ)
    (external : Bool) : QueryCounts :=
  if external then
    let counts :=
      { counts with
        usageMissingCount := satAdd counts.usageMissingCount 1
        inferenceMissingCount := satAdd counts.inferenceMissingCount 1 }
    if detailedTiming then
      { counts with
        externalRoundtripNs := satAddWide counts.externalRoundtripNs elapsed
        externalRoundtripCount := satAdd counts.externalRoundtripCount 1 }
    else counts
  else counts

end QueryCounts

/-! ## The runtime -/

/-- What a `QueryEntry` is completed with. -/
abbrev Outcome := Except JudgmentError JudgmentResult

structure ActiveQuery where
  queryId : ℕ
  startedAt : ℕ
  cancelled : ℕ
  counts : QueryCounts := {}
  provider : Option String := none
  requestedModel : Option String := none
  detailedTiming : Bool := false

inductive QueryOutcome where
  | succeeded
  | failed
  | cancelled
  deriving DecidableEq

structure QuerySnapshot where
  queryId : ℕ
  outcome : QueryOutcome
  elapsed : ℕ
  counts : QueryCounts
  provider : Option String
  requestedModel : Option String
  detailedTiming : Bool

structure PermitState where
  active : ℕ := 0
  peak : ℕ := 0

/-- The state of one connection, with the slots and flags it has handed out. -/
structure ConnectionRuntime where
  connectionScope : ℕ
  credentialScope : ℕ
  credentialFingerprint : Option UInt64 := none
  nextQueryId : ℕ := 0
  activeQuery : Option ActiveQuery := none
  lastQuery : Option QuerySnapshot := none
  queryEntries : Table.Map JudgmentIdentity ℕ := ∅
  inflight : PermitState := {}
  cache : JudgmentCache := {}
  slots : List (Option Outcome) := []
  flags : List Bool := []
  /-- The entries of the query map are among the slots. -/
  entries_lt : ∀ identity entry,
    queryEntries.lookup identity = some entry → entry < slots.length

def inactiveError : JudgmentError :=
  .provider "query execution is no longer active"

def cancelledError : JudgmentError :=
  .provider "query was cancelled"

namespace ConnectionRuntime

/-- A connection made when the scope counter stands at `scope`. -/
def init (scope : ℕ) : ConnectionRuntime where
  connectionScope := scope
  credentialScope := scope
  entries_lt := by simp

variable (c : ConnectionRuntime)

/-- The active query, if it is the one with this id. -/
def activeFor (scope : ℕ) : Option ActiveQuery :=
  c.activeQuery.filter fun query => query.queryId == scope

/-- Update the counters of the active query, if it is the one with this id. -/
def count (scope : ℕ) (f : QueryCounts → QueryCounts) : ConnectionRuntime :=
  match c.activeFor scope with
  | none => c
  | some query =>
      { c with activeQuery := some { query with counts := f query.counts } }

/-- Whether a cancellation flag is up. -/
def flagged (flag : ℕ) : Bool := c.flags.getD flag true

def cancel (flag : ℕ) : ConnectionRuntime :=
  { c with flags := c.flags.set flag true }

/-! ## Query lifecycle -/

/-- Cancel the active query, if there is one. -/
def cancelActive : ConnectionRuntime :=
  match c.activeQuery with
  | none => c
  | some previous => c.cancel previous.cancelled

def beginQuery (now : ℕ) : ConnectionRuntime :=
  let c := c.cancelActive
  { c with
    nextQueryId := (c.nextQueryId + 1) % 2 ^ 64
    queryEntries := ∅
    activeQuery := some
      { queryId := c.nextQueryId
        startedAt := now
        cancelled := c.flags.length }
    flags := c.flags ++ [false]
    entries_lt := by simp }

/-- The outcome which an error type of DuckDB stands for; `interrupt` is the
type of an interruption. -/
def outcomeOf (interrupt errorType : ℕ) : QueryOutcome :=
  if errorType = interrupt then .cancelled
  else if errorType = 0 then .succeeded
  else .failed

def endQuery (now interrupt errorType : ℕ) : ConnectionRuntime :=
  match c.activeQuery with
  | none => c
  | some active =>
      let c := c.cancel active.cancelled
      { c with
        activeQuery := none
        queryEntries := ∅
        lastQuery :=
          if 0 < active.counts.inputRows then some
            { queryId := active.queryId
              outcome := outcomeOf interrupt errorType
              elapsed := now - active.startedAt
              counts := active.counts
              provider := active.provider
              requestedModel := active.requestedModel
              detailedTiming := active.detailedTiming }
          else c.lastQuery
        entries_lt := by simp }

/-! ## Recording -/

def recordProfileContext (scope : ℕ) (provider requestedModel : String)
    (detailedTiming : Bool) : ConnectionRuntime :=
  match c.activeFor scope with
  | none => c
  | some query =>
      { c with
        activeQuery := some
          { query with
            provider := some (query.provider.getD provider)
            requestedModel := some (query.requestedModel.getD requestedModel)
            detailedTiming := query.detailedTiming || detailedTiming } }

def recordOptimizedRows
    (scope inputRows nullRows validRows uniqueJudgments : ℕ) :
    ConnectionRuntime :=
  c.count scope fun counts =>
    { counts with
      inputRows := satAdd counts.inputRows inputRows
      nullRows := satAdd counts.nullRows nullRows
      validRows := satAdd counts.validRows validRows
      deduplicatedRows :=
        satAdd counts.deduplicatedRows (validRows - uniqueJudgments) }

def recordRowInput (scope : ℕ) : ConnectionRuntime :=
  c.count scope fun counts =>
    { counts with inputRows := satAdd counts.inputRows 1 }

def recordRowResult (scope : ℕ) (isNull : Bool) : ConnectionRuntime :=
  c.count scope fun counts =>
    if isNull then { counts with nullRows := satAdd counts.nullRows 1 }
    else
      { counts with
        validRows := satAdd counts.validRows 1
        uniqueJudgments := satAdd counts.uniqueJudgments 1 }

def recordCacheHit (scope : ℕ) : ConnectionRuntime :=
  c.count scope fun counts =>
    { counts with cacheHitJudgments := satAdd counts.cacheHitJudgments 1 }

def recordProviderAttempt (scope batchSize : ℕ) (external : Bool) :
    ConnectionRuntime :=
  c.count scope fun counts => counts.attempt batchSize external

def recordProviderResponse (scope : ℕ) (metadata : ProviderMetadata)
    (elapsed : ℕ) (external : Bool) : ConnectionRuntime :=
  match c.activeFor scope with
  | none => c
  | some query =>
      c.count scope fun counts =>
        counts.response query.detailedTiming metadata elapsed external

def recordProviderFailure (scope elapsed : ℕ) (external : Bool) :
    ConnectionRuntime :=
  match c.activeFor scope with
  | none => c
  | some query =>
      c.count scope fun counts =>
        counts.failure query.detailedTiming elapsed external

def recordFailedRequest (scope : ℕ) : ConnectionRuntime :=
  c.count scope fun counts =>
    { counts with failedRequests := satAdd counts.failedRequests 1 }

/-! ## Scopes -/

/-- The connection scope and the query scope for identities. -/
def identityScopes : ℕ × ℕ :=
  (c.connectionScope,
    (c.activeQuery.map ActiveQuery.queryId).getD c.nextQueryId)

/-- The scope of a credential.  `next` is the process-wide scope counter and
`hash` the hasher of this connection; the counter is returned. -/
def credentialScopeFor (hash : String → UInt64) (next scope : ℕ)
    (credential : Option String) :
    Except JudgmentError ℕ × ConnectionRuntime × ℕ :=
  match c.activeFor scope with
  | none => (.error inactiveError, c, next)
  | some _ =>
      let fingerprint := credential.map hash
      if fingerprint ≠ c.credentialFingerprint then
        (.ok next,
          { c with
            credentialFingerprint := fingerprint
            credentialScope := next
            cache := c.cache.clear.2 },
          (next + 1) % 2 ^ 64)
      else (.ok c.credentialScope, c, next)

/-! ## Query entries -/

/-- A new entry for an identity. -/
def addEntry (identity : JudgmentIdentity) : ConnectionRuntime :=
  { c with
    slots := c.slots ++ [none]
    queryEntries := c.queryEntries.insert identity c.slots.length
    entries_lt := by
      intro other entry hlookup
      rw [List.length_append, List.length_singleton]
      by_cases hother : other = identity
      · subst hother
        rw [AList.lookup_insert, Option.some.injEq] at hlookup
        omega
      · rw [AList.lookup_insert_ne hother] at hlookup
        exact Nat.lt_succ_of_lt (c.entries_lt other entry hlookup) }

/-- Claim the entry of an identity.  The flag says whether the caller owns
it. -/
def claimQueryEntry (scope : ℕ) (identity : JudgmentIdentity) :
    Except JudgmentError (ℕ × Bool) × ConnectionRuntime :=
  match c.activeFor scope with
  | none => (.error inactiveError, c)
  | some active =>
      if c.flagged active.cancelled then (.error cancelledError, c)
      else
        match c.queryEntries.lookup identity with
        | some entry =>
            (.ok (entry, false), c.count scope fun counts =>
              { counts with
                deduplicatedRows := satAdd counts.deduplicatedRows 1 })
        | none =>
            let c := c.count scope fun counts =>
              { counts with
                uniqueJudgments := satAdd counts.uniqueJudgments 1 }
            (.ok (c.slots.length, true), c.addEntry identity)

def queryCancellation (scope : ℕ) : Except JudgmentError ℕ :=
  match c.activeFor scope with
  | none => .error inactiveError
  | some query => .ok query.cancelled

/-- The content of an entry, if it has been completed. -/
def slot (entry : ℕ) : Option Outcome := (c.slots.getD entry none)

/-- `QueryEntry::complete`: the first completion stays. -/
def complete (entry : ℕ) (outcome : Outcome) : ConnectionRuntime :=
  match c.slot entry with
  | some _ => c
  | none =>
      { c with
        slots := c.slots.set entry (some outcome)
        entries_lt := by simpa using c.entries_lt }

/-- `QueryEntry::wait`: no value while the caller stays blocked. -/
def wait (entry flag : ℕ) : Option Outcome :=
  match c.slot entry with
  | some outcome => some outcome
  | none =>
      if c.flagged flag then
        some (.error (.provider
          "query was cancelled while awaiting a judgment"))
      else none

/-! ## Permits -/

/-- `InflightPermitPool::acquire`: no value while the caller stays blocked. -/
def acquirePermit (maxInflight flag : ℕ) :
    Option (Except JudgmentError Unit × ConnectionRuntime) :=
  if maxInflight = 0 then
    some (.error (.configuration "duckjeu_max_inflight must be positive"), c)
  else if c.flagged flag then
    some (.error (.provider
      "query was cancelled while waiting for an external request slot"), c)
  else if c.inflight.active < maxInflight then
    some (.ok (),
      { c with
        inflight :=
          { active := c.inflight.active + 1
            peak := max c.inflight.peak (c.inflight.active + 1) } })
  else none

def dropPermit : ConnectionRuntime :=
  { c with inflight := { c.inflight with active := c.inflight.active - 1 } }

/-! ## The cache of the connection -/

/-- Reconcile under the policy, then look up the identity, if there is one. -/
def cacheLookup (identity : Option JudgmentIdentity) (now : ℕ)
    (policy : CachePolicy) : Option JudgmentResult × ConnectionRuntime :=
  match c.cache.reconcilePolicy saturating now policy with
  | (false, cache) => (none, { c with cache := cache })
  | (true, cache) =>
      match identity with
      | none => (none, { c with cache := cache })
      | some identity =>
          let (result, cache) := cache.lookup saturating identity now
          (result, { c with cache := cache })

def cacheInsert (identity : JudgmentIdentity) (result : JudgmentResult)
    (now : ℕ) (policy : CachePolicy) : Bool × ConnectionRuntime :=
  let (stored, cache) :=
    c.cache.insertSuccess saturating identity result now policy
  (stored, { c with cache := cache })

/-- A lookup on the connection only removes entries or lowers their expiry. -/
theorem cacheLookup_ages {identity : Option JudgmentIdentity} {now : ℕ}
    {policy : CachePolicy} {key : JudgmentIdentity} {entry' : CacheEntry}
    (h : (c.cacheLookup identity now policy).2.cache.entries.lookup key =
      some entry') :
    ∃ entry, c.cache.entries.lookup key = some entry ∧
      entry.Ages entry' := by
  have hrec : (c.cache.reconcilePolicy saturating now
      policy).2.entries.lookup key = some entry' := by
    unfold cacheLookup at h
    cases hreconcile : c.cache.reconcilePolicy saturating now policy with
    | mk ok cache =>
        rw [hreconcile] at h
        cases ok with
        | false => exact h
        | true =>
            cases identity with
            | none => exact h
            | some identity =>
                exact JudgmentCache.retains_lookup cache identity now key
                  entry' h
  obtain ⟨entry, hentry, hages⟩ := reconcile_ages hrec
  exact ⟨entry, hentry, hages.1⟩

/-- A served result is that of an entry which was there before and has not
expired. -/
theorem cacheLookup_served {identity : Option JudgmentIdentity} {now : ℕ}
    {policy : CachePolicy} {result : JudgmentResult}
    (h : (c.cacheLookup identity now policy).1 = some result) :
    ∃ key entry, identity = some key ∧
      c.cache.entries.lookup key = some entry ∧ entry.result = result ∧
        now < entry.expiresAt := by
  unfold cacheLookup at h
  split at h
  · cases h
  rename_i cache hreconcile
  cases identity with
  | none => cases h
  | some key =>
      obtain ⟨entry', hentry', hresult, hfresh⟩ :=
        JudgmentCache.lookup_served h
      have hrec : (c.cache.reconcilePolicy saturating now
          policy).2.entries.lookup key = some entry' := by
        rw [hreconcile]
        exact hentry'
      obtain ⟨entry, hentry, hages⟩ := reconcile_ages hrec
      exact ⟨key, entry, rfl, hentry, hages.1.result_eq.symm.trans hresult,
        hfresh.trans_le hages.1.expiresAt_le⟩

/-- An entry after an insertion is the inserted one, or was there before with
the same result. -/
theorem cacheInsert_ages {identity : JudgmentIdentity}
    {result : JudgmentResult} {now : ℕ} {policy : CachePolicy}
    {key : JudgmentIdentity} {entry' : CacheEntry}
    (h : (c.cacheInsert identity result now
      policy).2.cache.entries.lookup key = some entry') :
    ((c.cacheInsert identity result now policy).1 = true ∧
        key = identity ∧ entry'.result = result) ∨
      ((c.cacheInsert identity result now policy).1 = true →
          key ≠ identity) ∧
        ∃ entry, c.cache.entries.lookup key = some entry ∧
          entry.Ages entry' := by
  rcases insert_ages h with ⟨hok, hkey, hresult, -, -⟩ |
    ⟨hother, entry, hentry, hages⟩
  · exact Or.inl ⟨hok, hkey, hresult⟩
  · exact Or.inr ⟨hother, entry, hentry, hages.1⟩

end ConnectionRuntime

end DuckJeu
