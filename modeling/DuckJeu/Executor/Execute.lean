import DuckJeu.Executor.Grouping
import DuckJeu.Executor.Operations

/-!
# The executor

This module follows `executor.rs`: the execution of one group at a time, and
the batched execution.

The batched execution of the source keeps maps from positions of groups to
entries and to cache keys.  Here a position comes with what the maps hold for
it, as a `Leader` or a `Follower`.  The order in which a `HashMap` yields its
values is a parameter.
-/

namespace DuckJeu

open Effects

structure ExecutionLimits where
  queryScope : ℕ
  maxInflight : ℕ
  maxRequestBytes : ℕ

/-! ## Shared steps -/

def claimQueryEntry (scope : ℕ) (identity : JudgmentIdentity) :
    Exec (ℕ × Bool) :=
  ExceptT.mk (invoke (.claimQueryEntry scope identity))

def queryCancellation (scope : ℕ) : Exec ℕ :=
  ExceptT.mk (invoke (.queryCancellation scope))

def waitEntry (entry flag : ℕ) : Exec JudgmentResult :=
  ExceptT.mk (invoke (.wait entry flag))

/-- The key under which the result of a group is cached: its identity with
the effective model in place of the unresolved scope. -/
def cacheIdentityFor (group : JudgmentGroup) (provider : Provider) :
    Option JudgmentIdentity :=
  match provider.cacheModelIdentity group.identity.requestedModel with
  | none => none
  | some effectiveModel => some
      { group.identity with
        effectiveModel := some effectiveModel
        unresolvedModelScope := none }

def providerModelIsStable (provider : Provider) (group : JudgmentGroup)
    (expectedModel : Option String) : Bool :=
  match expectedModel with
  | none => false
  | some expected =>
      provider.cacheModelIdentity group.identity.requestedModel ==
        some expected

/-- The lookup of an owner: under an invalid policy the entry fails, and on a
hit it is completed. -/
def consultCache (scope entry : ℕ) (cacheIdentity : Option JudgmentIdentity)
    (cachePolicy : Option CachePolicy) : Exec (Option JudgmentResult) :=
  match cachePolicy with
  | none => pure none
  | some policy =>
      match policy.validate with
      | .error error => do
          perform (.complete entry (.error error))
          throw error
      | .ok () => do
          let now ← perform .instantNow
          let cached ← perform (.cacheLookup cacheIdentity now policy)
          match cached with
          | none => pure none
          | some result => do
              perform (.recordCacheHit scope)
              perform (.complete entry (.ok result))
              pure (some result)

/-- Store a validated result, if it has a key and the model is stable. -/
def cacheValidated (provider : Provider) (group : JudgmentGroup)
    (cacheIdentity : Option JudgmentIdentity)
    (cachePolicy : Option CachePolicy) (effectiveModel : Option String)
    (result : JudgmentResult) : Exec Unit :=
  match cacheIdentity, cachePolicy with
  | some identity, some policy =>
      if effectiveModel = identity.effectiveModel ∧
          providerModelIsStable provider group identity.effectiveModel then do
        let now ← perform .instantNow
        let _ ← perform (.cacheInsert identity result now policy)
        pure ()
      else pure ()
  | _, _ => pure ()

/-- What the provider closure leaves behind: its outcome, and the variables it
has assigned. -/
structure Attempt (α : Type) where
  outcome : Except JudgmentError α
  attempted : Bool
  responseReceived : Bool
  providerElapsed : ℕ

/-- The provider closure: take a permit, record the attempt, ask the provider,
record and process its response.  The permit is dropped at the end of the
closure on every path. -/
def attemptProvider {α : Type} (limits : ExecutionLimits) (external : Bool)
    (method : ProviderCall) (carried : List JudgmentIdentity)
    (requests : List JudgmentRequest)
    (finish : ProviderBatchResult → Exec α) : Run (Attempt α) := do
  match ← invoke (.queryCancellation limits.queryScope) with
  | .error error => pure ⟨.error error, false, false, 0⟩
  | .ok flag =>
      match ← invoke (.acquirePermit limits.maxInflight flag) with
      | .error error => pure ⟨.error error, false, false, 0⟩
      | .ok () => do
          invoke
            (.recordProviderAttempt limits.queryScope requests external)
          let started ← invoke .instantNow
          let response ← invoke (.judge method carried requests)
          let ended ← invoke .instantNow
          match response with
          | .error error => do
              invoke .dropPermit
              pure ⟨.error error, true, false, ended - started⟩
          | .ok response => do
              invoke (.recordProviderResponse limits.queryScope
                response.metadata (ended - started) external)
              let outcome ← (finish response).run
              invoke .dropPermit
              pure ⟨outcome, true, true, ended - started⟩

/-- The records of a failed attempt. -/
def recordFailure {α : Type} (limits : ExecutionLimits) (external : Bool)
    (attempt : Attempt α) : Run Unit :=
  match attempt.outcome with
  | .ok _ => pure ()
  | .error _ =>
      if attempt.attempted && external then do
        invoke (.recordFailedRequest limits.queryScope)
        if attempt.responseReceived then pure ()
        else
          invoke (.recordProviderFailure limits.queryScope
            attempt.providerElapsed external)
      else pure ()

/-- Attempt the provider and record a failure. -/
def attemptRecorded {α : Type} (limits : ExecutionLimits) (external : Bool)
    (method : ProviderCall) (carried : List JudgmentIdentity)
    (requests : List JudgmentRequest)
    (finish : ProviderBatchResult → Exec α) :
    Run (Except JudgmentError α) := do
  let attempt ←
    attemptProvider limits external method carried requests finish
  recordFailure limits external attempt
  pure attempt.outcome

/-! ## One group at a time -/

/-- The processing of the response to a single request. -/
def finishSingle (group : JudgmentGroup) (provider : Provider)
    (cacheIdentity : Option JudgmentIdentity)
    (cachePolicy : Option CachePolicy) (response : ProviderBatchResult) :
    Exec JudgmentResult := do
  match validateBatchResult [group.request] response with
  | .error error => throw error
  | .ok () =>
      match response.answers with
      | [] => throw (.invalidResponse "provider returned no answer")
      | answer :: _ =>
          match validateJudgmentResult group.request answer.result with
          | .error error => throw error
          | .ok () => do
              cacheValidated provider group cacheIdentity cachePolicy
                response.metadata.effectiveModel answer.result
              pure answer.result

/-- The owner of an entry gets its result and completes it. -/
def executeOwned (group : JudgmentGroup) (provider : Provider)
    (limits : ExecutionLimits) (cachePolicy : Option CachePolicy)
    (cacheIdentity : Option JudgmentIdentity) (entry : ℕ) :
    Exec JudgmentResult := do
  match ← consultCache limits.queryScope entry cacheIdentity cachePolicy with
  | some result => pure result
  | none =>
      if limits.maxRequestBytes <
          provider.estimateRequestBytes [group.request] then do
        let error := JudgmentError.configuration
          "one judgment exceeds duckjeu_max_request_bytes"
        perform (.complete entry (.error error))
        throw error
      else do
        let outcome ← ExceptT.lift
          (attemptRecorded limits provider.makesExternalRequest
            .judgeWithMetadata [group.identity] [group.request]
            (finishSingle group provider cacheIdentity cachePolicy))
        perform (.complete entry outcome)
        ExceptT.mk (pure outcome)

def executeOneGroup (group : JudgmentGroup) (provider : Provider)
    (limits : ExecutionLimits) (cachePolicy : Option CachePolicy) :
    Exec JudgmentResult := do
  let cacheIdentity := cachePolicy.bind fun _ => cacheIdentityFor group provider
  let (entry, ownsRequest) ← claimQueryEntry limits.queryScope group.identity
  let cancelled ← queryCancellation limits.queryScope
  if ownsRequest then
    executeOwned group provider limits cachePolicy cacheIdentity entry
  else waitEntry entry cancelled

/-- The loop of `execute_groups`. -/
def executeEach (provider : Provider) (limits : ExecutionLimits)
    (cachePolicy : Option CachePolicy) :
    List (RowTarget × JudgmentResult) → List JudgmentGroup →
      Exec (List (RowTarget × JudgmentResult))
  | output, [] => pure output
  | output, group :: rest => do
      let result ← executeOneGroup group provider limits cachePolicy
      executeEach provider limits cachePolicy (output ++ group.expand result)
        rest

/-- Execute each group once and expand its result to every target. -/
def executeGroups (groups : List JudgmentGroup) (provider : Provider)
    (limits : ExecutionLimits) (cachePolicy : Option CachePolicy) :
    Exec (List (RowTarget × JudgmentResult)) :=
  if limits.maxRequestBytes = 0 then
    throw (.configuration "duckjeu_max_request_bytes must be positive")
  else executeEach provider limits cachePolicy [] groups

/-! ## Batches -/

/-- A group whose entry this call owns and has to complete by a request. -/
structure Leader where
  group : JudgmentGroup
  entry : ℕ
  cacheKey : Option JudgmentIdentity

/-- A group whose entry somebody else completes. -/
structure Follower where
  group : JudgmentGroup
  entry : ℕ
  cancelled : ℕ

/-- The order in which a map yields the leaders. -/
structure LeaderOrder where
  values : List Leader → List Leader
  perm : ∀ leaders, (values leaders).Perm leaders

/-- The leaders in the order in which they were inserted. -/
def insertionOrder : LeaderOrder := ⟨id, fun _ => List.Perm.refl _⟩

/-- The variables of the claim loop. -/
structure Claimed where
  output : List (RowTarget × JudgmentResult) := []
  partitions : List (List Leader) := []
  leaders : List Leader := []
  followers : List Follower := []

/-- Put a leader into the first partition with its batch context. -/
def place (leader : Leader) : List (List Leader) → List (List Leader)
  | [] => [[leader]]
  | partition :: rest =>
      if partition.head?.any fun first =>
          first.group.identity.sameBatchContext leader.group.identity then
        (partition ++ [leader]) :: rest
      else partition :: place leader rest

/-- The requests of a batch, with one key for each position. -/
def requestsForGroups (leaders : List Leader) : List JudgmentRequest :=
  leaders.mapIdx fun index leader =>
    { leader.group.request with requestKey := "r" ++ toString index }

/-- One round of the claim loop. -/
def claimGroup (provider : Provider) (limits : ExecutionLimits)
    (cachePolicy : Option CachePolicy) (claimed : Claimed)
    (group : JudgmentGroup) : Exec Claimed :=
  if provider.capabilities.supports group.request.kind ≠ .verified then
    throw (.configuration
      "provider capability for this question type is not verified")
  else if !provider.withinChoiceLimit group.request.choices.length then
    throw (.configuration "choice count exceeds the verified provider limit")
  else do
    let cacheIdentity :=
      cachePolicy.bind fun _ => cacheIdentityFor group provider
    let (entry, ownsRequest) ← claimQueryEntry limits.queryScope group.identity
    let cancelled ← queryCancellation limits.queryScope
    if ownsRequest then
      match ←
        consultCache limits.queryScope entry cacheIdentity cachePolicy with
      | some result =>
          pure { claimed with output := claimed.output ++ group.expand result }
      | none =>
          let leader : Leader := ⟨group, entry, cacheIdentity⟩
          pure
            { claimed with
              leaders := claimed.leaders ++ [leader]
              partitions := place leader claimed.partitions }
    else
      pure
        { claimed with
          followers := claimed.followers ++ [⟨group, entry, cancelled⟩] }

def claimGroups (provider : Provider) (limits : ExecutionLimits)
    (cachePolicy : Option CachePolicy) :
    Claimed → List JudgmentGroup → Exec Claimed
  | claimed, [] => pure claimed
  | claimed, group :: rest => do
      let claimed ← claimGroup provider limits cachePolicy claimed group
      claimGroups provider limits cachePolicy claimed rest

/-- Complete the entries of some leaders with an error. -/
def failEntries (error : JudgmentError) : List Leader → Exec Unit
  | [] => pure ()
  | leader :: rest => do
      perform (.complete leader.entry (.error error))
      failEntries error rest

/-- Find the result of each request by its key.  In the map of answers a later
answer replaces an earlier one with its key. -/
def collectResults (answers : List ProviderAnswer) :
    List (Leader × JudgmentRequest) →
      Except JudgmentError (List (Leader × JudgmentResult))
  | [] => .ok []
  | (leader, request) :: rest =>
      match answers.reverse.find? fun answer =>
          answer.requestKey == request.requestKey with
      | none => .error (.invalidResponse
          "provider batch answer key disappeared after validation")
      | some answer =>
          match validateJudgmentResult request answer.result with
          | .error error => .error error
          | .ok () =>
              match collectResults answers rest with
              | .error error => .error error
              | .ok results => .ok ((leader, answer.result) :: results)

/-- The processing of the response to a batch. -/
def finishBatch (leaders : List Leader) (requests : List JudgmentRequest)
    (response : ProviderBatchResult) :
    Exec (List (Leader × JudgmentResult) × Option String) :=
  match validateBatchResult requests response with
  | .error error => throw error
  | .ok () =>
      match collectResults response.answers (leaders.zip requests) with
      | .error error => throw error
      | .ok results => pure (results, response.metadata.effectiveModel)

/-- Cache, complete and expand the results of a batch. -/
def publish (provider : Provider) (cachePolicy : Option CachePolicy)
    (effectiveModel : Option String) :
    List (RowTarget × JudgmentResult) → List (Leader × JudgmentResult) →
      Exec (List (RowTarget × JudgmentResult))
  | output, [] => pure output
  | output, (leader, result) :: rest => do
      cacheValidated provider leader.group leader.cacheKey cachePolicy
        effectiveModel result
      perform (.complete leader.entry (.ok result))
      publish provider cachePolicy effectiveModel
        (output ++ leader.group.expand result) rest

/-- `BatchDispatch::dispatch`: one request for a batch of leaders. -/
def dispatch (provider : Provider) (limits : ExecutionLimits)
    (cachePolicy : Option CachePolicy) (batch : List Leader)
    (output : List (RowTarget × JudgmentResult)) :
    Exec (List (RowTarget × JudgmentResult)) := do
  let requests := requestsForGroups batch
  let attempt ← ExceptT.lift
    (attemptRecorded limits provider.makesExternalRequest .judgeMany
      (batch.map fun leader => leader.group.identity) requests
      (finishBatch batch requests))
  match attempt with
  | .ok (results, effectiveModel) =>
      publish provider cachePolicy effectiveModel output results
  | .error error => do
      failEntries error batch
      throw error

/-- `fail_leaders`, then the error. -/
def failLeaders {α : Type} (order : LeaderOrder) (leaders : List Leader)
    (error : JudgmentError) : Exec α := do
  failEntries error (order.values leaders)
  throw error

/-- Dispatch a batch; on an error all leaders fail. -/
def dispatchOrFail (provider : Provider) (limits : ExecutionLimits)
    (cachePolicy : Option CachePolicy) (order : LeaderOrder)
    (leaders batch : List Leader) (output : List (RowTarget × JudgmentResult)) :
    Exec (List (RowTarget × JudgmentResult)) := do
  match ← ExceptT.lift
      (dispatch provider limits cachePolicy batch output).run with
  | .ok output => pure output
  | .error error => failLeaders order leaders error

/-- Whether a batch exceeds the count or the byte limit. -/
def exceedsLimits (provider : Provider) (limits : ExecutionLimits)
    (maxJudgments : ℕ) (requests : List JudgmentRequest) : Bool :=
  maxJudgments < requests.length ||
    limits.maxRequestBytes < provider.estimateRequestBytes requests

/-- The loop over one partition; `current` is the batch being filled. -/
def executePartition (provider : Provider) (limits : ExecutionLimits)
    (cachePolicy : Option CachePolicy) (order : LeaderOrder)
    (leaders : List Leader) (maxJudgments : ℕ) :
    List Leader → List (RowTarget × JudgmentResult) → List Leader →
      Exec (List (RowTarget × JudgmentResult))
  | current, output, [] =>
      if current.isEmpty then pure output
      else
        dispatchOrFail provider limits cachePolicy order leaders current output
  | current, output, leader :: rest =>
      if exceedsLimits provider limits maxJudgments
          (requestsForGroups (current ++ [leader])) then
        if current.isEmpty then
          failLeaders order leaders (.configuration
            "one judgment exceeds duckjeu_max_request_bytes")
        else do
          let output ← dispatchOrFail provider limits cachePolicy order leaders
            current output
          if exceedsLimits provider limits maxJudgments
              (requestsForGroups [leader]) then
            failLeaders order leaders (.configuration
              "one judgment exceeds the configured batch limits")
          else
            executePartition provider limits cachePolicy order leaders
              maxJudgments [leader] output rest
      else
        executePartition provider limits cachePolicy order leaders maxJudgments
          (current ++ [leader]) output rest

def executePartitions (provider : Provider) (limits : ExecutionLimits)
    (cachePolicy : Option CachePolicy) (order : LeaderOrder)
    (leaders : List Leader) (maxJudgments : ℕ) :
    List (RowTarget × JudgmentResult) → List (List Leader) →
      Exec (List (RowTarget × JudgmentResult))
  | output, [] => pure output
  | output, partition :: rest => do
      let output ← executePartition provider limits cachePolicy order leaders
        maxJudgments [] output partition
      executePartitions provider limits cachePolicy order leaders maxJudgments
        output rest

/-- Wait for the entries which somebody else completes. -/
def awaitFollowers :
    List (RowTarget × JudgmentResult) → List Follower →
      Exec (List (RowTarget × JudgmentResult))
  | output, [] => pure output
  | output, follower :: rest => do
      let result ← waitEntry follower.entry follower.cancelled
      awaitFollowers (output ++ follower.group.expand result) rest

/-- The count limit of a batch: the configured one, or that of the service if
it is smaller. -/
def batchLimit (provider : Provider) (maxJudgments : ℕ) : ℕ :=
  provider.capabilities.maxBatchJudgments.elim maxJudgments fun serviceLimit =>
    min maxJudgments serviceLimit

/-- Execute groups in batches of compatible identities. -/
def executeBatchGroups (groups : List JudgmentGroup) (provider : Provider)
    (maxJudgments : ℕ) (order : LeaderOrder) (limits : ExecutionLimits)
    (cachePolicy : Option CachePolicy) :
    Exec (List (RowTarget × JudgmentResult)) :=
  if provider.capabilities.multiStateBatch ≠ .verified then
    throw (.configuration
      "provider multi-state batch capability is not verified")
  else if maxJudgments = 0 ∨ limits.maxRequestBytes = 0 then
    throw (.configuration
      "batch judgment and request byte limits must be positive")
  else if batchLimit provider maxJudgments = 0 then
    throw (.configuration "provider advertises a zero judgment batch limit")
  else do
    let claimed ← claimGroups provider limits cachePolicy {} groups
    let output ← executePartitions provider limits cachePolicy order
      claimed.leaders (batchLimit provider maxJudgments) claimed.output
      claimed.partitions
    awaitFollowers output claimed.followers

/-! ## Calls -/

/-- The two ways in which a call executes its groups. -/
inductive Mode where
  | single
  | batched (maxJudgments : ℕ) (order : LeaderOrder)

/-- One call of the executor. -/
structure Call where
  groups : List JudgmentGroup
  provider : Provider
  limits : ExecutionLimits
  cachePolicy : Option CachePolicy
  mode : Mode

/-- What a call returns. -/
abbrev Answer := Except JudgmentError (List (RowTarget × JudgmentResult))

def Call.exec (call : Call) : Exec (List (RowTarget × JudgmentResult)) :=
  match call.mode with
  | .single =>
      executeGroups call.groups call.provider call.limits call.cachePolicy
  | .batched maxJudgments order =>
      executeBatchGroups call.groups call.provider maxJudgments order
        call.limits call.cachePolicy

def Call.program (call : Call) : Run Answer := call.exec.run

end DuckJeu
