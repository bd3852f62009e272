import DuckJeu.Executor.Single
import DuckJeu.Executor.Tally
import DuckJeu.Functions.Row

/-!
# The accounts of one request

The row evaluator and the executor write down what becomes of a request by two
hand-written protocols of records.  This module runs both from the same
connection, with the same answers of the provider, and compares what they
return and what they count.
-/

namespace DuckJeu

open Effects ConnectionRuntime

/-! ## Counters which agree -/

/-- One more failed request. -/
def QueryCounts.failed (counts : QueryCounts) : QueryCounts :=
  { counts with failedRequests := satAdd counts.failedRequests 1 }

/-- Two sets of counters which agree on provider calls, failures, usage and
inference. -/
structure QueryCounts.Accords (counts counts' : QueryCounts) : Prop where
  providerInvocations :
    counts.providerInvocations = counts'.providerInvocations
  externalRequests : counts.externalRequests = counts'.externalRequests
  batchSizeHistogram : counts.batchSizeHistogram = counts'.batchSizeHistogram
  failedRequests : counts.failedRequests = counts'.failedRequests
  inputTokens : counts.inputTokens = counts'.inputTokens
  outputTokens : counts.outputTokens = counts'.outputTokens
  usageResponseCount : counts.usageResponseCount = counts'.usageResponseCount
  usageMissingCount : counts.usageMissingCount = counts'.usageMissingCount
  inferenceTimeMs : counts.inferenceTimeMs = counts'.inferenceTimeMs
  inferenceObservedCount :
    counts.inferenceObservedCount = counts'.inferenceObservedCount
  inferenceMissingCount :
    counts.inferenceMissingCount = counts'.inferenceMissingCount

section Accords

variable {counts counts' : QueryCounts}

theorem QueryCounts.Accords.attempt (h : counts.Accords counts')
    (batchSize : ℕ) (external : Bool) :
    (counts.attempt batchSize external).Accords
      (counts'.attempt batchSize external) := by
  obtain ⟨h₁, h₂, h₃, h₄, h₅, h₆, h₇, h₈, h₉, h₁₀, h₁₁⟩ := h
  unfold QueryCounts.attempt
  cases external with
  | true => constructor <;> simp_all
  | false => constructor <;> simp_all

theorem QueryCounts.Accords.failed (h : counts.Accords counts') :
    counts.failed.Accords counts'.failed :=
  { h with
    failedRequests := congrArg (satAdd · 1) h.failedRequests }

theorem QueryCounts.Accords.failure (h : counts.Accords counts')
    (detailedTiming : Bool) (elapsed : ℕ) (external : Bool) :
    (counts.failure detailedTiming elapsed external).Accords
      (counts'.failure detailedTiming elapsed external) := by
  obtain ⟨h₁, h₂, h₃, h₄, h₅, h₆, h₇, h₈, h₉, h₁₀, h₁₁⟩ := h
  unfold QueryCounts.failure
  cases external with
  | true =>
      cases detailedTiming with
      | true => constructor <;> simp_all
      | false => constructor <;> simp_all
  | false => constructor <;> simp_all

/-- Timing and model names are not compared. -/
theorem QueryCounts.Accords.observed (h : counts.Accords counts')
    (metadata : ProviderMetadata) (elapsed : ℕ) :
    (counts.responseTiming metadata elapsed).Accords
        (counts'.responseTiming metadata elapsed) ∧
      (counts.responseModel metadata).Accords
        (counts'.responseModel metadata) := by
  constructor
  · unfold QueryCounts.responseTiming
    cases metadata.serializationTimeNs with
    | none => exact { h with }
    | some serializationTimeNs => exact { h with }
  · unfold QueryCounts.responseModel
    cases metadata.effectiveModel with
    | none => exact h
    | some model =>
        by_cases hblank : isBlank model = true
        · simpa [hblank] using h
        · simp only [hblank, if_false, Bool.false_eq_true]
          exact { h with }

theorem QueryCounts.Accords.usage (h : counts.Accords counts')
    (metadata : ProviderMetadata) :
    (counts.responseUsage metadata).Accords
        (counts'.responseUsage metadata) ∧
      (counts.responseInference metadata).Accords
        (counts'.responseInference metadata) := by
  obtain ⟨h₁, h₂, h₃, h₄, h₅, h₆, h₇, h₈, h₉, h₁₀, h₁₁⟩ := h
  constructor
  · unfold QueryCounts.responseUsage
    split
    · constructor <;> simp_all
    · constructor <;> simp_all
  · unfold QueryCounts.responseInference
    cases metadata.inferenceTimeMs with
    | some milliseconds => constructor <;> simp_all
    | none => constructor <;> simp_all

theorem QueryCounts.Accords.response (h : counts.Accords counts')
    (detailedTiming : Bool) (metadata : ProviderMetadata) (elapsed : ℕ)
    (external : Bool) :
    (counts.response detailedTiming metadata elapsed external).Accords
      (counts'.response detailedTiming metadata elapsed external) := by
  unfold QueryCounts.response
  cases external with
  | false => exact h
  | true =>
      cases detailedTiming with
      | true =>
          exact ((((h.observed metadata elapsed).1.observed metadata
            elapsed).2.usage metadata).1.usage metadata).2
      | false =>
          exact (((h.observed metadata elapsed).2.usage
            metadata).1.usage metadata).2

end Accords

/-! ## The two paths -/

/-- What one request to the provider adds to the counters of its query, as
both paths account for it if they agree. -/
def billed (detailedTiming external : Bool) (elapsed : ℕ)
    (response : Except JudgmentError ProviderBatchResult)
    (counts : QueryCounts) : QueryCounts :=
  let counts := counts.attempt 1 external
  match response with
  | .ok response =>
      counts.response detailedTiming response.metadata elapsed external
  | .error _ =>
      if external then counts.failed.failure detailedTiming elapsed external
      else counts

theorem QueryCounts.Accords.billed {counts counts' : QueryCounts}
    (h : counts.Accords counts') (detailedTiming external : Bool)
    (elapsed : ℕ) (response : Except JudgmentError ProviderBatchResult) :
    (billed detailedTiming external elapsed response counts).Accords
      (billed detailedTiming external elapsed response counts') := by
  cases response with
  | ok response => exact (h.attempt 1 external).response ..
  | error error =>
      cases external with
      | true =>
          exact (h.attempt 1 true).failed.failure detailedTiming elapsed true
      | false => exact h.attempt 1 false

/-- The value which a response gives to a row. -/
def answered (request : JudgmentRequest)
    (response : Except JudgmentError ProviderBatchResult) :
    Except JudgmentError JudgmentResult :=
  match response with
  | .ok response => rowAnswer request response
  | .error error => .error error

section Account

variable (env : Environment) {c c' : ConnectionRuntime} {scope flag : ℕ}
  {provider : Provider} {maxInflight : ℕ} {request : JudgmentRequest}

/-- The row evaluator with a permit. -/
theorem judgeRow_granted (hcancel : c.queryCancellation scope = .ok flag)
    (hacquire : c.acquirePermit maxInflight flag = some (.ok (), c')) :
    ∃ s h, env.exec (judgeRow provider maxInflight (some scope) request)
        (c, 0) =
          some (answered request (env.judge 1 .judgeWithMetadata [request]),
            s, h) ∧
      ∀ detailedTiming counts, counted detailedTiming scope h counts =
        billed detailedTiming provider.makesExternalRequest
          (env.now 2 - env.now 0) (env.judge 1 .judgeWithMetadata [request])
          counts := by
  cases hjudge : env.judge 1 .judgeWithMetadata [request] with
  | ok response =>
      refine ⟨?_, ?_, ?_, ?_⟩
      rotate_left 2
      · simp only [judgeRow, onConnection, acquireRequestPermit,
          queryCancellation, Environment.exec_bind, Environment.exec_mk,
          Environment.exec_lift, Prog.run_perform, Environment.handle, hcancel,
          hacquire, hjudge, Option.map_some, Option.bind_some,
          Prog.pure_eq_ret, Prog.run_ret]
        rfl
      · intro detailedTiming counts
        simp [counted, ExecEvent.count, ExecEvent.tally, Op.reportsOn, billed]
  | error error =>
      cases hexternal : provider.makesExternalRequest with
      | true =>
          refine ⟨?_, ?_, ?_, ?_⟩
          rotate_left 2
          · simp only [judgeRow, onConnection, acquireRequestPermit,
              queryCancellation, Environment.exec_bind, Environment.exec_mk,
              Environment.exec_lift, Environment.exec_throw, Prog.run_perform,
              Environment.handle, hcancel, hacquire, hjudge, hexternal,
              Option.map_some, Option.bind_some, if_true]
            rfl
          · intro detailedTiming counts
            simp [counted, ExecEvent.count, ExecEvent.tally, Op.reportsOn,
              billed, hexternal, QueryCounts.failed]
      | false =>
          refine ⟨?_, ?_, ?_, ?_⟩
          rotate_left 2
          · simp only [judgeRow, onConnection, acquireRequestPermit,
              queryCancellation, Environment.exec_bind, Environment.exec_mk,
              Environment.exec_lift, Environment.exec_throw, Prog.run_perform,
              Environment.handle, hcancel, hacquire, hjudge, hexternal,
              Option.map_some,
              Option.bind_some, Bool.false_eq_true, if_false]
            rfl
          · intro detailedTiming counts
            simp [counted, ExecEvent.count, ExecEvent.tally, Op.reportsOn,
              billed, hexternal]

/-- Without a cache the executor makes of a response what the row evaluator
makes of it. -/
theorem finishSingle_eq (group : JudgmentGroup) (provider : Provider)
    (response : ProviderBatchResult) :
    (finishSingle group provider none none response).run =
      .ret (rowAnswer group.request response) := by
  unfold finishSingle rowAnswer
  cases hvalid : validateBatchResult [group.request] response with
  | error error => rfl
  | ok accepted =>
      obtain ⟨result, hanswers, hresult⟩ :=
        validateBatchResult_singleton hvalid
      unfold ValidFor at hresult
      simp only [hanswers, hresult]
      rfl

/-- The records which only the executor makes: a response which it could not
use is a failed request. -/
def recounted (external : Bool)
    (response : Except JudgmentError ProviderBatchResult)
    (outcome : Except JudgmentError JudgmentResult) (counts : QueryCounts) :
    QueryCounts :=
  match response, outcome with
  | .ok _, .error _ => if external then counts.failed else counts
  | _, _ => counts

/-- The provider closure of the executor with a permit. -/
theorem attemptProvider_granted (group : JudgmentGroup) (provider : Provider)
    {limits : ExecutionLimits} (external : Bool)
    (hcancel : c.queryCancellation limits.queryScope = .ok flag)
    (hacquire : c.acquirePermit limits.maxInflight flag = some (.ok (), c')) :
    ∃ received s h, Prog.run env.handle
        (attemptProvider limits external .judgeWithMetadata [group.identity]
          [group.request] (finishSingle group provider none none)) (c, 0) =
          some (⟨answered group.request
              (env.judge 1 .judgeWithMetadata [group.request]), true, received,
              env.now 2 - env.now 0⟩, s, h) ∧
      ((∃ response, env.judge 1 .judgeWithMetadata [group.request] =
        .ok response) ↔ received = true) ∧
      ∀ detailedTiming counts,
        counted detailedTiming limits.queryScope h counts =
          match env.judge 1 .judgeWithMetadata [group.request] with
          | .ok response => (counts.attempt 1 external).response detailedTiming
              response.metadata (env.now 2 - env.now 0) external
          | .error _ => counts.attempt 1 external := by
  cases hjudge : env.judge 1 .judgeWithMetadata [group.request] with
  | ok response =>
      refine ⟨true, ?_, ?_, ?_, by simp, ?_⟩
      rotate_left 2
      · simp only [attemptProvider, finishSingle_eq, Prog.run_bind,
          Prog.run_perform, Prog.run_ret, Environment.handle, hcancel,
          hacquire, hjudge, Option.map_some, Option.bind_some,
          Prog.pure_eq_ret]
        rfl
      · intro detailedTiming counts
        simp [counted, ExecEvent.count, ExecEvent.tally, Op.reportsOn]
  | error error =>
      refine ⟨false, ?_, ?_, ?_, by simp, ?_⟩
      rotate_left 2
      · simp only [attemptProvider, Prog.run_bind, Prog.run_perform,
          Prog.run_ret, Environment.handle, hcancel, hacquire, hjudge,
          Option.map_some, Option.bind_some, Prog.pure_eq_ret]
        rfl
      · intro detailedTiming counts
        simp [counted, ExecEvent.count, ExecEvent.tally, Op.reportsOn]

/-- The records of a failed attempt. -/
theorem recordFailure_run (limits : ExecutionLimits) (external : Bool)
    (outcome : Except JudgmentError JudgmentResult) (received : Bool)
    (elapsed : ℕ) (s : Alone) :
    ∃ s' h, Prog.run env.handle (recordFailure limits external
        ⟨outcome, true, received, elapsed⟩) s = some ((), s', h) ∧
      ∀ detailedTiming counts,
        counted detailedTiming limits.queryScope h counts =
          match outcome, external, received with
          | .error _, true, true => counts.failed
          | .error _, true, false =>
              counts.failed.failure detailedTiming elapsed true
          | _, _, _ => counts := by
  obtain ⟨c, t⟩ := s
  cases outcome with
  | ok result => exact ⟨(c, t), [], rfl, by simp [counted]⟩
  | error error =>
      cases external with
      | false => exact ⟨(c, t), [], rfl, by simp [counted]⟩
      | true =>
          cases received with
          | true =>
              refine ⟨_, _, rfl, ?_⟩
              simp [counted, ExecEvent.count, ExecEvent.tally, Op.reportsOn,
                QueryCounts.failed]
          | false =>
              refine ⟨_, _, rfl, ?_⟩
              simp [counted, ExecEvent.count, ExecEvent.tally, Op.reportsOn,
                QueryCounts.failed]

theorem counted_append (detailedTiming : Bool) (scope : ℕ)
    (newer older : History) (counts : QueryCounts) :
    counted detailedTiming scope (newer ++ older) counts =
      counted detailedTiming scope newer
        (counted detailedTiming scope older counts) := by
  simp [counted]

/-- The executor with an entry of its own and a permit. -/
theorem executeOneGroup_granted {group : JudgmentGroup} {entry : ℕ}
    {limits : ExecutionLimits} {c₁ : ConnectionRuntime}
    (hbytes : provider.estimateRequestBytes [group.request] ≤
      limits.maxRequestBytes)
    (hclaim : c.claimQueryEntry limits.queryScope group.identity =
      (.ok (entry, true), c₁))
    (hcancel : c₁.queryCancellation limits.queryScope = .ok flag)
    (hacquire : c₁.acquirePermit limits.maxInflight flag =
      some (.ok (), c')) :
    ∃ s h, env.exec (executeOneGroup group provider limits none) (c, 0) =
        some (answered group.request
          (env.judge 1 .judgeWithMetadata [group.request]), s, h) ∧
      ∀ detailedTiming counts, counted detailedTiming limits.queryScope h
        counts =
        recounted provider.makesExternalRequest
          (env.judge 1 .judgeWithMetadata [group.request])
          (answered group.request
            (env.judge 1 .judgeWithMetadata [group.request]))
          (billed detailedTiming provider.makesExternalRequest
            (env.now 2 - env.now 0)
            (env.judge 1 .judgeWithMetadata [group.request])
            { counts with
              uniqueJudgments := satAdd counts.uniqueJudgments 1 }) := by
  have hfits : ¬ limits.maxRequestBytes <
      provider.estimateRequestBytes [group.request] := Nat.not_lt.mpr hbytes
  obtain ⟨received, ⟨c₂, t₂⟩, h₂, hattempt, hreceived, hcounted₂⟩ :=
    attemptProvider_granted env group provider provider.makesExternalRequest
      hcancel hacquire
  obtain ⟨⟨c₃, t₃⟩, h₃, hfailure, hcounted₃⟩ :=
    recordFailure_run env limits provider.makesExternalRequest
      (answered group.request
        (env.judge 1 .judgeWithMetadata [group.request])) received
      (env.now 2 - env.now 0) (c₂, t₂)
  refine ⟨?_, ?_, ?_, ?_⟩
  rotate_left 2
  · simp only [executeOneGroup, claimQueryEntry, queryCancellation,
      executeOwned, consultCache, attemptRecorded, Environment.exec_bind,
      Environment.exec_mk, Environment.exec_pure, Environment.exec_lift,
      Prog.run_bind, Prog.run_perform, Prog.run_ret, Environment.handle,
      hclaim, hcancel, hattempt, hfailure, hfits, Option.map_some,
      Option.bind_some, Option.bind_none, if_true, if_false,
      Prog.pure_eq_ret]
    rfl
  · intro detailedTiming counts
    have hclaimed : counted detailedTiming limits.queryScope
        [⟨.queryCancellation limits.queryScope, .ok flag⟩]
        (counted detailedTiming limits.queryScope
          [⟨.claimQueryEntry limits.queryScope group.identity,
            .ok (entry, true)⟩] counts) =
        { counts with
          uniqueJudgments := satAdd counts.uniqueJudgments 1 } := by
      simp [counted, ExecEvent.count, ExecEvent.tally, Op.reportsOn]
    have hcompleted : ∀ outcome counts, counted detailedTiming
        limits.queryScope [⟨.complete entry outcome, ()⟩] counts = counts := by
      intro outcome counts
      simp [counted, ExecEvent.count, Op.reportsOn]
    simp only [List.nil_append, List.append_nil, List.append_assoc,
      counted_append, hcompleted, hcounted₃, hcounted₂, hclaimed]
    generalize { counts with
      uniqueJudgments := satAdd counts.uniqueJudgments 1 } = claimed
    cases hjudge : env.judge 1 .judgeWithMetadata [group.request] with
    | error error =>
        obtain rfl : received = false := by simpa [hjudge] using hreceived
        cases hexternal : provider.makesExternalRequest with
        | true => rfl
        | false => rfl
    | ok response =>
        obtain rfl : received = true := by simpa [hjudge] using hreceived
        cases hanswer : answered group.request (.ok response) with
        | ok result => rfl
        | error error =>
            cases hexternal : provider.makesExternalRequest with
            | true => rfl
            | false => rfl

/-- Without a permit neither path touches the counters. -/
theorem judgeRow_denied (hcancel : c.queryCancellation scope = .ok flag) :
    (c.acquirePermit maxInflight flag = none →
      env.exec (judgeRow provider maxInflight (some scope) request) (c, 0) =
        none) ∧
      ∀ error c', c.acquirePermit maxInflight flag = some (.error error, c') →
        ∃ s h, env.exec (judgeRow provider maxInflight (some scope) request)
          (c, 0) = some (.error error, s, h) ∧
        ∀ detailedTiming counts,
          counted detailedTiming scope h counts = counts := by
  refine ⟨?_, ?_⟩
  · intro hblocked
    simp only [judgeRow, onConnection, acquireRequestPermit,
      queryCancellation, Environment.exec_bind, Environment.exec_mk,
      Prog.run_perform, Environment.handle, hcancel, hblocked, Option.map_some,
      Option.map_none, Option.bind_some, Option.bind_none]
  · intro error c' hrefused
    refine ⟨?_, ?_, ?_, ?_⟩
    rotate_left 2
    · simp only [judgeRow, onConnection, acquireRequestPermit,
        queryCancellation, Environment.exec_bind, Environment.exec_mk,
        Prog.run_perform, Environment.handle, hcancel, hrefused,
        Option.map_some, Option.bind_some]
      rfl
    · intro detailedTiming counts
      simp [counted, ExecEvent.count, Op.reportsOn]

theorem executeOneGroup_denied {group : JudgmentGroup} {entry : ℕ}
    {limits : ExecutionLimits} {c₁ : ConnectionRuntime}
    (hbytes : provider.estimateRequestBytes [group.request] ≤
      limits.maxRequestBytes)
    (hclaim : c.claimQueryEntry limits.queryScope group.identity =
      (.ok (entry, true), c₁))
    (hcancel : c₁.queryCancellation limits.queryScope = .ok flag) :
    (c₁.acquirePermit limits.maxInflight flag = none →
      env.exec (executeOneGroup group provider limits none) (c, 0) = none) ∧
      ∀ error c', c₁.acquirePermit limits.maxInflight flag =
          some (.error error, c') →
        ∃ s h, env.exec (executeOneGroup group provider limits none) (c, 0) =
          some (.error error, s, h) ∧
        ∀ detailedTiming counts,
          counted detailedTiming limits.queryScope h counts =
            { counts with
              uniqueJudgments := satAdd counts.uniqueJudgments 1 } := by
  have hfits : ¬ limits.maxRequestBytes <
      provider.estimateRequestBytes [group.request] := Nat.not_lt.mpr hbytes
  refine ⟨?_, ?_⟩
  · intro hblocked
    simp only [executeOneGroup, claimQueryEntry, queryCancellation,
      executeOwned, consultCache, attemptRecorded, attemptProvider,
      Environment.exec_bind, Environment.exec_mk, Environment.exec_pure,
      Environment.exec_lift, Prog.run_bind, Prog.run_perform,
      Environment.handle, hclaim, hcancel, hblocked, hfits, Option.map_some,
      Option.map_none, Option.bind_some, Option.bind_none, if_true, if_false]
  · intro error c' hrefused
    refine ⟨?_, ?_, ?_, ?_⟩
    rotate_left 2
    · simp only [executeOneGroup, claimQueryEntry, queryCancellation,
        executeOwned, consultCache, attemptRecorded, attemptProvider,
        recordFailure, Environment.exec_bind, Environment.exec_mk,
        Environment.exec_pure, Environment.exec_lift, Prog.run_bind,
        Prog.run_perform, Prog.run_ret, Environment.handle, hclaim, hcancel,
        hrefused, hfits, Option.map_some, Option.bind_some, Option.bind_none,
        if_true, if_false, Bool.false_and, Bool.false_eq_true,
        Prog.pure_eq_ret]
      rfl
    · intro detailedTiming counts
      simp [counted, ExecEvent.count, ExecEvent.tally, Op.reportsOn]

end Account

/-! ## Agreement of the two paths -/

/-- Past its checks the evaluator is its request. -/
theorem evaluateRow_admitted (env : Environment) {c : ConnectionRuntime}
    {provider : Provider} {config : RuntimeConfig} {scope : Option ℕ}
    {request : JudgmentRequest} (hgate : provider.gate request = true)
    (hmode : config.mode = .row) :
    env.run (evaluateRow (.ok provider) (.ok config) scope
        (.ok (some request))).run c =
      (env.exec (judgeRow provider config.maxInflight scope request)
        (c, 0)).map fun last => (last.1.map some, last.2) := by
  unfold Provider.gate at hgate
  obtain ⟨hverified, hchoices⟩ := Bool.and_eq_true_iff.mp hgate
  have hrun : env.run (evaluateRow (.ok provider) (.ok config) scope
      (.ok (some request))).run c =
        env.exec (do
          let result ← judgeRow provider config.maxInflight scope request
          pure (some result)) (c, 0) := by
    simp only [evaluateRow, hmode, of_decide_eq_true hverified, hchoices,
      ne_eq, not_true_eq_false, and_false, if_false]
    rfl
  rw [hrun, Environment.exec_bind]
  cases env.exec (judgeRow provider config.maxInflight scope request)
      (c, 0) with
  | none => rfl
  | some last =>
      obtain ⟨outcome, s, h⟩ := last
      cases outcome with
      | error error => rfl
      | ok result => rfl

/-- Both runs stay blocked, or both end with the same result or error and
with counters which agree. -/
def SameAccount (scope : ℕ)
    (row : Option (Except JudgmentError (Option JudgmentResult) × Alone ×
      History))
    (single : Option (Except JudgmentError JudgmentResult × Alone × History)) :
    Prop :=
  match row, single with
  | none, none => True
  | some (value, s, _), some (result, s', _) =>
      value = result.map some ∧ ∃ query query',
        s.1.activeFor scope = some query ∧
          s'.1.activeFor scope = some query' ∧
            query.counts.Accords query'.counts
  | _, _ => False

theorem sameAccount_ended_iff {scope : ℕ}
    {result : Except JudgmentError JudgmentResult} {s s' : Alone}
    {h h' : History} {query query' : ActiveQuery}
    (hend : s.1.activeFor scope = some query)
    (hend' : s'.1.activeFor scope = some query') :
    SameAccount scope (some (result.map some, s, h)) (some (result, s', h')) ↔
      query.counts.Accords query'.counts := by
  constructor
  · rintro ⟨-, last, last', hlast, hlast', haccords⟩
    rw [hend, Option.some.injEq] at hlast
    rw [hend', Option.some.injEq] at hlast'
    rwa [hlast, hlast']
  · intro haccords
    exact ⟨rfl, query, query', hend, hend', haccords⟩

/-- The provider is asked by an external request and returns a response which
fails validation, at a moment when one more failed request shows. -/
def ReceivesInvalid (env : Environment) (provider : Provider)
    (maxInflight : ℕ) (c : ConnectionRuntime) (query : ActiveQuery)
    (request : JudgmentRequest) : Prop :=
  provider.makesExternalRequest = true ∧ maxInflight ≠ 0 ∧
    c.inflight.active < maxInflight ∧
    query.counts.failedRequests ≠ 2 ^ 64 - 1 ∧
    ∃ response, env.judge 1 .judgeWithMetadata [request] = .ok response ∧
      validateBatchResult [request] response ≠ .ok ()

theorem rowAnswer_ok_iff {request : JudgmentRequest}
    {response : ProviderBatchResult} :
    (∃ result, rowAnswer request response = .ok result) ↔
      validateBatchResult [request] response = .ok () := by
  constructor
  · rintro ⟨result, hanswer⟩
    unfold rowAnswer at hanswer
    split at hanswer
    · cases hanswer
    · assumption
  · intro hvalid
    obtain ⟨result, hanswers, -⟩ := validateBatchResult_singleton hvalid
    exact ⟨result, by simp only [rowAnswer, hvalid, hanswers]⟩

/-- A response is not a failure. -/
theorem billed_failedRequests (detailedTiming external : Bool) (elapsed : ℕ)
    (response : ProviderBatchResult) (counts : QueryCounts) :
    (billed detailedTiming external elapsed (.ok response)
      counts).failedRequests = counts.failedRequests := by
  have hattempt : ∀ counts : QueryCounts,
      (counts.attempt 1 external).failedRequests = counts.failedRequests := by
    intro counts
    unfold QueryCounts.attempt
    split
    · rfl
    · rfl
  have htiming : ∀ counts : QueryCounts, (counts.responseTiming
      response.metadata elapsed).failedRequests = counts.failedRequests := by
    intro counts
    unfold QueryCounts.responseTiming
    dsimp only
    split
    · rfl
    · rfl
  have hmodel : ∀ counts : QueryCounts, (counts.responseModel
      response.metadata).failedRequests = counts.failedRequests := by
    intro counts
    unfold QueryCounts.responseModel
    split
    · rfl
    split
    · rfl
    · rfl
  have husage : ∀ counts : QueryCounts, (counts.responseUsage
      response.metadata).failedRequests = counts.failedRequests := by
    intro counts
    unfold QueryCounts.responseUsage
    dsimp only
    split
    · rfl
    · rfl
  have hinference : ∀ counts : QueryCounts, (counts.responseInference
      response.metadata).failedRequests = counts.failedRequests := by
    intro counts
    unfold QueryCounts.responseInference
    split
    · rfl
    · rfl
  unfold billed QueryCounts.response
  dsimp only
  cases external with
  | false => exact hattempt counts
  | true =>
      rw [if_neg (by simp), hinference, husage, hmodel]
      split
      · rw [htiming, hattempt]
      · rw [hattempt]

/-- The executor's extra record shows exactly after an external response which
fails validation. -/
theorem recounted_accords_iff {detailedTiming external : Bool} {elapsed : ℕ}
    {request : JudgmentRequest}
    {response : Except JudgmentError ProviderBatchResult}
    {counts : QueryCounts} :
    (billed detailedTiming external elapsed response counts).Accords
        (recounted external response (answered request response)
          (billed detailedTiming external elapsed response
            { counts with
              uniqueJudgments := satAdd counts.uniqueJudgments 1 })) ↔
      ¬ (external = true ∧ counts.failedRequests ≠ 2 ^ 64 - 1 ∧
        ∃ received, response = .ok received ∧
          validateBatchResult [request] received ≠ .ok ()) := by
  have hbase : (billed detailedTiming external elapsed response
      counts).Accords (billed detailedTiming external elapsed response
        { counts with
          uniqueJudgments := satAdd counts.uniqueJudgments 1 }) := by
    refine QueryCounts.Accords.billed ?_ _ _ _ _
    constructor <;> rfl
  cases response with
  | error error => simpa [recounted] using hbase
  | ok received =>
      cases hanswer : answered request (.ok received) with
      | ok result =>
          have hvalid : validateBatchResult [request] received = .ok () :=
            rowAnswer_ok_iff.mp ⟨result, hanswer⟩
          simpa [recounted, hvalid] using hbase
      | error error =>
          have hinvalid : validateBatchResult [request] received ≠ .ok () := by
            intro hvalid
            obtain ⟨result, hresult⟩ := rowAnswer_ok_iff.mpr hvalid
            rw [answered, hresult] at hanswer
            cases hanswer
          cases external with
          | false => simpa [recounted] using hbase
          | true =>
              have hshown : counts.failedRequests ≠ 2 ^ 64 - 1 ↔
                  counts.failedRequests ≠ satAdd counts.failedRequests 1 := by
                unfold satAdd usizeMax
                omega
              constructor
              · rintro haccords ⟨-, hroom, -⟩
                refine hshown.mp hroom ?_
                have hfailed := haccords.failedRequests
                simpa [recounted, QueryCounts.failed, billed_failedRequests]
                  using hfailed
              · intro hfull
                have hsame : counts.failedRequests =
                    satAdd counts.failedRequests 1 := by
                  by_contra hroom
                  exact hfull ⟨rfl, hshown.mpr hroom, received, rfl, hinvalid⟩
                refine { hbase with failedRequests := ?_ }
                simpa [recounted, QueryCounts.failed, billed_failedRequests]
                  using hsame

theorem run_activeFor_of {α : Type} (env : Environment) {p : Run α}
    {c : ConnectionRuntime} {query : ActiveQuery} {a : α} {s : Alone}
    {h : History} {scope : ℕ} {counts : QueryCounts}
    (hactive : c.activeFor scope = some query)
    (hrun : env.run p c = some (a, s, h))
    (hcounted : counted query.detailedTiming scope h query.counts = counts) :
    s.1.activeFor scope = some { query with counts := counts } := by
  rw [env.run_activeFor hrun scope, hactive, Option.map_some, hcounted]

/-- The row evaluator and the executor account for a request alike, except for
an external response which fails validation. -/
theorem evaluateRow_sameAccount_iff (env : Environment)
    (c : ConnectionRuntime) (group : JudgmentGroup) (provider : Provider)
    (limits : ExecutionLimits) (config : RuntimeConfig) (query : ActiveQuery)
    (hactive : c.activeFor limits.queryScope = some query)
    (hopen : c.flagged query.cancelled = false)
    (hunclaimed : c.queryEntries.lookup group.identity = none)
    (hgate : provider.gate group.request = true)
    (hbytes : provider.estimateRequestBytes [group.request] ≤
      limits.maxRequestBytes)
    (hmode : config.mode = .row)
    (hinflight : config.maxInflight = limits.maxInflight) :
    SameAccount limits.queryScope
      (env.run (evaluateRow (.ok provider) (.ok config)
        (some limits.queryScope) (.ok (some group.request))).run c)
      (env.run (executeOneGroup group provider limits none).run c) ↔
    ¬ ReceivesInvalid env provider limits.maxInflight c query
      group.request := by
  have hcancel : c.queryCancellation limits.queryScope =
      .ok query.cancelled := by
    simp only [ConnectionRuntime.queryCancellation, hactive]
  obtain ⟨entry, c₁, hclaim, hframe⟩ : ∃ entry c₁,
      c.claimQueryEntry limits.queryScope group.identity =
        (.ok (entry, true), c₁) ∧ Frame (c.addEntry group.identity) c₁ := by
    cases hclaim : c.claimQueryEntry limits.queryScope group.identity with
    | mk r c₁ =>
        rcases claimQueryEntry_cases hclaim with ⟨error, rfl, -, hclosed⟩ |
          ⟨entry, rfl, -, hlookup, -⟩ | ⟨rfl, -, -, hframe⟩
        · exact absurd ⟨query.cancelled, hcancel, hopen⟩ hclosed
        · rw [hunclaimed] at hlookup
          cases hlookup
        · exact ⟨_, c₁, rfl, hframe⟩
  have hcancel₁ : c₁.queryCancellation limits.queryScope =
      .ok query.cancelled := (hframe.cancellation _).trans hcancel
  have hopen₁ : c₁.flagged query.cancelled = false := by
    rw [flagged, hframe.flags]
    exact hopen
  have hinflight₁ : c₁.inflight = c.inflight := hframe.inflight
  rw [evaluateRow_admitted env hgate hmode, hinflight]
  have hsingle : env.run (executeOneGroup group provider limits none).run c =
      env.exec (executeOneGroup group provider limits none) (c, 0) := rfl
  rw [hsingle]
  by_cases hzero : limits.maxInflight = 0
  · -- both are refused the permit
    have hrefused : ∀ c : ConnectionRuntime,
        c.acquirePermit limits.maxInflight query.cancelled =
          some (.error (.configuration
            "duckjeu_max_inflight must be positive"), c) := by
      intro c
      rw [acquirePermit, if_pos hzero]
    obtain ⟨s, h, hrow, hcounted⟩ :=
      (judgeRow_denied env hcancel).2 _ _ (hrefused c)
    obtain ⟨s', h', hone, hcounted'⟩ :=
      (executeOneGroup_denied env hbytes hclaim hcancel₁).2 _ _ (hrefused c₁)
    rw [hrow, hone]
    have hend := run_activeFor_of env hactive hrow (hcounted _ _)
    have hend' := run_activeFor_of env hactive hone (hcounted' _ _)
    refine iff_of_true ((sameAccount_ended_iff hend hend').mpr ?_)
      fun hreceives => hreceives.2.1 hzero
    constructor <;> rfl
  by_cases hfree : c.inflight.active < limits.maxInflight
  · -- both get the permit
    have hgranted : ∀ {c : ConnectionRuntime},
        c.flagged query.cancelled = false →
          c.inflight.active < limits.maxInflight →
            ∃ c', c.acquirePermit limits.maxInflight query.cancelled =
              some (.ok (), c') := by
      intro c hopen hfree
      rw [acquirePermit, if_neg hzero, if_neg (by simp [hopen]), if_pos hfree]
      exact ⟨_, rfl⟩
    obtain ⟨c₂, hacquire⟩ := hgranted hopen hfree
    obtain ⟨c₃, hacquire₁⟩ := hgranted hopen₁ (hinflight₁ ▸ hfree)
    obtain ⟨s, h, hrow, hcounted⟩ := judgeRow_granted env hcancel hacquire
    obtain ⟨s', h', hone, hcounted'⟩ :=
      executeOneGroup_granted env hbytes hclaim hcancel₁ hacquire₁
    rw [hrow, hone]
    have hend := run_activeFor_of env hactive hrow (hcounted _ _)
    have hend' := run_activeFor_of env hactive hone (hcounted' _ _)
    rw [Option.map_some, sameAccount_ended_iff hend hend',
      recounted_accords_iff]
    unfold ReceivesInvalid
    simp only [hzero, hfree, ne_eq, not_false_eq_true, true_and]
  · -- both stay blocked
    have hblocked : ∀ {c : ConnectionRuntime},
        c.flagged query.cancelled = false →
          ¬ c.inflight.active < limits.maxInflight →
            c.acquirePermit limits.maxInflight query.cancelled = none := by
      intro c hopen hfull
      rw [acquirePermit, if_neg hzero, if_neg (by simp [hopen]), if_neg hfull]
    rw [(judgeRow_denied env hcancel).1 (hblocked hopen hfree),
      (executeOneGroup_denied env hbytes hclaim hcancel₁).1
        (hblocked hopen₁ (hinflight₁ ▸ hfree))]
    exact iff_of_true trivial fun hreceives => hfree hreceives.2.2.1

/-! ## A response with a foreign key -/

/-- The settings of row mode. -/
def rowConfig : RuntimeConfig where
  mode := .row
  batchEnabled := false
  batchMaxJudgments := 16
  maxRequestBytes := 1000
  maxInflight := 1
  cacheEnabled := false
  cacheMaxEntries := 10000
  cacheMaxBytes := 67108864
  cacheTtlMs := 60000

def rowLimits : ExecutionLimits where
  queryScope := 0
  maxInflight := 1
  maxRequestBytes := 1000

/-- A provider which answers under a key of its own. -/
def strayEnvironment : Environment where
  now := id
  judge := fun _ _ _ =>
    .ok { answers := [⟨"stray", .noul .half⟩], metadata := {} }

theorem evaluateRow_sameAccount_text :
    SameAccount 0
        (halfEnvironment.run (evaluateRow (.ok plainProvider) (.ok rowConfig)
          (some 0) (.ok (some (textRequest "a")))).run firstQuery)
        (halfEnvironment.run (executeOneGroup (textGroup 0 "a" [0])
          plainProvider rowLimits none).run firstQuery) ↔
      ¬ ReceivesInvalid halfEnvironment plainProvider 1 firstQuery
        { queryId := 0, startedAt := 0, cancelled := 0 } (textRequest "a") :=
  evaluateRow_sameAccount_iff halfEnvironment firstQuery
    (textGroup 0 "a" [0]) plainProvider rowLimits rowConfig
    { queryId := 0, startedAt := 0, cancelled := 0 } rfl rfl rfl rfl
    (by decide) rfl rfl

/-- The failed requests which a query has counted when a run ends. -/
def failuresOf {α : Type} (scope : ℕ)
    (run : Option (Except JudgmentError α × Alone × History)) : Option ℕ :=
  run.bind fun last =>
    (last.2.1.1.activeFor scope).map fun query => query.counts.failedRequests

theorem SameAccount.failures {scope : ℕ}
    {row : Option (Except JudgmentError (Option JudgmentResult) × Alone ×
      History)}
    {single : Option (Except JudgmentError JudgmentResult × Alone × History)}
    (h : SameAccount scope row single) :
    failuresOf scope row = failuresOf scope single := by
  cases row with
  | none =>
      cases single with
      | none => rfl
      | some last => exact h.elim
  | some last =>
      cases single with
      | none => exact h.elim
      | some last' =>
          obtain ⟨-, query, query', hquery, hquery', haccords⟩ := h
          simp [failuresOf, hquery, hquery', haccords.failedRequests]

/-- The row evaluator does not count the failure which the executor counts. -/
theorem strayAnswer_not_sameAccount :
    (firstQuery.activeFor 0).isSome = true ∧
      firstQuery.queryEntries.lookup (textGroup 0 "a" [0]).identity = none ∧
      plainProvider.gate (textRequest "a") = true ∧
      plainProvider.estimateRequestBytes [textRequest "a"] ≤
        rowLimits.maxRequestBytes ∧
      ¬ SameAccount 0
        (strayEnvironment.run (evaluateRow (.ok plainProvider) (.ok rowConfig)
          (some 0) (.ok (some (textRequest "a")))).run firstQuery)
        (strayEnvironment.run (executeOneGroup (textGroup 0 "a" [0])
          plainProvider rowLimits none).run firstQuery) := by
  refine ⟨by decide, by decide, by decide, by decide, fun hsame => ?_⟩
  have hfailures := hsame.failures
  revert hfailures
  decide

end DuckJeu
