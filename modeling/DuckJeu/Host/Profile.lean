import DuckJeu.Host.Connection

/-!
# The execution profile

This module follows `render_profile` of `metrics.rs` and its use for the
snapshot of the last query.  The profile is given by its fields.  Times are in
the units of the counters, and the amount of the cost estimate is given by the
tokens which the source multiplies with the unit rate.
-/

namespace DuckJeu

structure ProfileReport where
  status : String
  provider : Option String
  requestedModel : Option String
  counts : QueryCounts
  elapsed : ℕ
  detailedTiming : Bool

structure ProfileTiming where
  queryWall : ℕ
  serializationSum : Option ℕ
  externalRoundtripSum : Option ℕ
  serverInferenceSum : Option ℕ
  pureNetworkSum : Option ℕ

structure ProfileUsage where
  inputTokens : Option ℕ
  outputTokens : Option ℕ
  missingResponseCount : ℕ

structure CostEstimate where
  amount : Option ℕ
  currency : Option String
  billingUnit : Option String
  unitRate : Option String
  rateSource : Option String
  rateObservedAt : Option String
  unknownReason : Option String

structure Profile where
  schemaVersion : ℕ
  status : String
  provider : Option String
  requestedModel : Option String
  counts : QueryCounts
  timing : ProfileTiming
  usage : ProfileUsage
  costEstimate : CostEstimate

/-! ## Rendering -/

namespace QueryCounts

variable (counts : QueryCounts)

def usageComplete : Bool :=
  decide (0 < counts.externalRequests) && counts.usageMissingCount == 0 &&
    counts.usageResponseCount == counts.externalRequests

def inferenceComplete : Bool :=
  decide (0 < counts.externalRequests) && counts.inferenceMissingCount == 0 &&
    counts.inferenceObservedCount == counts.externalRequests

def usageInput : Option ℕ :=
  if counts.usageComplete then counts.inputTokens else none

def usageOutput : Option ℕ :=
  if counts.usageComplete then counts.outputTokens else none

end QueryCounts

namespace ProfileReport

variable (report : ProfileReport)

def typesafePriced : Bool := report.provider == some "typesafe"

/-- Why the cost is not known, or no text. -/
def costUnknownReason : String :=
  if !report.typesafePriced then
    "provider_pricing_not_applicable_or_unverified"
  else if report.counts.externalRequests = 0 then "no_external_requests"
  else if 0 < report.counts.failedRequests then
    "failed_requests_may_be_billable"
  else if !report.counts.usageComplete || report.counts.usageInput.isNone then
    "provider_usage_unavailable_or_incomplete"
  else ""

def costEstimate : CostEstimate :=
  let priced := fun text : String =>
    if report.typesafePriced then some text else none
  if report.costUnknownReason = "" then
    { amount := some (report.counts.usageInput.getD 0)
      currency := some "USD"
      billingUnit := some "USD per 1,000,000 input tokens"
      unitRate := some "0.042"
      rateSource := some
        "https://typesafe.ai/blog/introducing-system-one-models-and-jev"
      rateObservedAt := some "2026-09-23"
      unknownReason := none }
  else
    { amount := none
      currency := priced "USD"
      billingUnit := priced "USD per 1,000,000 input tokens"
      unitRate := priced "0.042"
      rateSource := priced
        "https://typesafe.ai/blog/introducing-system-one-models-and-jev"
      rateObservedAt := priced "2026-09-23"
      unknownReason := some report.costUnknownReason }

/-- A time of the client, shown if it was observed for all requests. -/
def timed (value observed : ℕ) : Option ℕ :=
  if report.detailedTiming && (observed == report.counts.externalRequests &&
      decide (0 < report.counts.externalRequests)) then some value
  else none

end ProfileReport

def renderProfile (report : ProfileReport) : Profile :=
  let counts := report.counts
  { schemaVersion := 1
    status := report.status
    provider := report.provider
    requestedModel := report.requestedModel
    counts := counts
    timing :=
      { queryWall := report.elapsed
        serializationSum := report.timed counts.serializationTimeNs
          counts.serializationObservedCount
        externalRoundtripSum := report.timed counts.externalRoundtripNs
          counts.externalRoundtripCount
        serverInferenceSum :=
          if counts.inferenceComplete then some counts.inferenceTimeMs
          else none
        pureNetworkSum := none }
    usage :=
      { inputTokens := counts.usageInput
        outputTokens := counts.usageOutput
        missingResponseCount := counts.usageMissingCount }
    costEstimate := report.costEstimate }

/-- The status of a profile. -/
def QueryOutcome.status : QueryOutcome → String
  | .succeeded => "completed"
  | .failed => "failed"
  | .cancelled => "cancelled"

/-- The profile of a snapshot. -/
def QuerySnapshot.serialize (snapshot : QuerySnapshot) : Profile :=
  renderProfile
    { status := snapshot.outcome.status
      provider := snapshot.provider
      requestedModel := snapshot.requestedModel
      counts := snapshot.counts
      elapsed := snapshot.elapsed
      detailedTiming := snapshot.detailedTiming }

/-! ## What is reported -/

section Reported

variable {counts : QueryCounts} {report : ProfileReport}

theorem QueryCounts.usageComplete_iff :
    counts.usageComplete = true ↔ 0 < counts.externalRequests ∧
      counts.usageMissingCount = 0 ∧
      counts.usageResponseCount = counts.externalRequests := by
  simp [QueryCounts.usageComplete, and_assoc]

theorem QueryCounts.inferenceComplete_iff :
    counts.inferenceComplete = true ↔ 0 < counts.externalRequests ∧
      counts.inferenceMissingCount = 0 ∧
      counts.inferenceObservedCount = counts.externalRequests := by
  simp [QueryCounts.inferenceComplete, and_assoc]

/-- An amount is shown for the known price, without failed requests and with
complete usage. -/
theorem ProfileReport.amount_isSome_iff :
    report.costEstimate.amount.isSome = true ↔
      report.provider = some "typesafe" ∧ report.counts.failedRequests = 0 ∧
        report.counts.usageInput.isSome = true := by
  have hcomplete : report.counts.usageInput.isSome = true →
      report.counts.usageComplete = true ∧
        0 < report.counts.externalRequests := by
    intro h
    have husage : report.counts.usageComplete = true := by
      by_contra hnot
      rw [QueryCounts.usageInput, if_neg hnot] at h
      cases h
    exact ⟨husage, (QueryCounts.usageComplete_iff.mp husage).1⟩
  have hreason : report.costUnknownReason = "" ↔
      report.provider = some "typesafe" ∧ report.counts.failedRequests = 0 ∧
        report.counts.usageInput.isSome = true := by
    unfold ProfileReport.costUnknownReason ProfileReport.typesafePriced
    by_cases hprovider : report.provider = some "typesafe"
    · by_cases hexternal : report.counts.externalRequests = 0
      · have hnot : ¬ report.counts.usageInput.isSome = true := fun h => by
          have hpos := (hcomplete h).2
          omega
        simp [hprovider, hexternal, hnot]
      · by_cases hfailed : report.counts.failedRequests = 0
        · by_cases hinput : report.counts.usageInput.isSome = true
          · have hsome : report.counts.usageInput ≠ none := by
              simpa [Option.isSome_iff_ne_none] using hinput
            simp [hprovider, hexternal, hfailed, (hcomplete hinput).1, hinput,
              hsome]
          · simp_all
        · simp [hprovider, hexternal, hfailed, Nat.pos_of_ne_zero hfailed]
    · simp [hprovider]
  rw [← hreason]
  unfold ProfileReport.costEstimate
  by_cases hempty : report.costUnknownReason = ""
  · simp [hempty]
  · simp [hempty]

end Reported

end DuckJeu
