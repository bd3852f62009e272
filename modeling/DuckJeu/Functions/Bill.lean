import DuckJeu.Executor.Billing
import DuckJeu.Executor.Tally
import Mathlib.Algebra.Group.Pi.Basic

/-!
# Bills

The counters of a query on requests, usage and failures are sums over its
attempts, up to saturation.  An attempt contributes by what it has recorded so
far, and each record adds the same to the counters as to the attempt.
-/

namespace DuckJeu

open Effects ConnectionRuntime

/-! ## Items -/

/-- What is counted about the requests of a query. -/
inductive BillItem where
  | external
  | responses
  | missing
  | tokens
  | input
  | output
  | observed
  | inferenceMissing
  | failed

abbrev Bill := BillItem → ℕ

/-- Both token counts of a response, if it reports them. -/
def ProviderMetadata.tokens (metadata : ProviderMetadata) : Option (ℕ × ℕ) :=
  match metadata.usage with
  | some ⟨some input, some output⟩ => some (input, output)
  | _ => none

def attemptBill : Bill
  | .external => 1
  | _ => 0

def usageBill (metadata : ProviderMetadata) : Bill
  | .responses => 1
  | .missing => if metadata.tokens.isSome then 0 else 1
  | .tokens => if metadata.tokens.isSome then 1 else 0
  | .input => (metadata.tokens.map Prod.fst).getD 0
  | .output => (metadata.tokens.map Prod.snd).getD 0
  | _ => 0

def inferenceBill (metadata : ProviderMetadata) : Bill
  | .observed => if metadata.inferenceTimeMs.isSome then 1 else 0
  | .inferenceMissing => if metadata.inferenceTimeMs.isSome then 0 else 1
  | _ => 0

def responseBill (metadata : ProviderMetadata) : Bill :=
  usageBill metadata + inferenceBill metadata

def failedBill : Bill
  | .failed => 1
  | _ => 0

def failureBill : Bill
  | .missing => 1
  | .inferenceMissing => 1
  | _ => 0

/-- What has been recorded up to a stage. -/
def AttemptStage.bill : AttemptStage → Bill
  | .asked => attemptBill
  | .answered _ => attemptBill
  | .recorded response => attemptBill + responseBill response.metadata
  | .refused response =>
      attemptBill + responseBill response.metadata + failedBill
  | .failing _ => attemptBill + failedBill
  | .failed _ => attemptBill + failedBill + failureBill

/-- The attempt is an external one of the query. -/
def ProviderAttempt.Counts (scope : ℕ) (a : ProviderAttempt) : Prop :=
  a.scope = scope ∧ a.external = true

instance (scope : ℕ) (a : ProviderAttempt) : Decidable (a.Counts scope) :=
  inferInstanceAs (Decidable (_ ∧ _))

def ProviderAttempt.bill (scope : ℕ) (a : ProviderAttempt) : Bill :=
  if a.Counts scope then a.stage.bill else 0

/-- What an event adds to the bill of a query. -/
def ExecEvent.bill (scope : ℕ) : ExecEvent → Bill
  | ⟨.recordProviderAttempt reported _ external, _⟩ =>
      if reported = scope ∧ external = true then attemptBill else 0
  | ⟨.recordProviderResponse reported metadata _ external, _⟩ =>
      if reported = scope ∧ external = true then responseBill metadata else 0
  | ⟨.recordFailedRequest reported, _⟩ =>
      if reported = scope then failedBill else 0
  | ⟨.recordProviderFailure reported _ external, _⟩ =>
      if reported = scope ∧ external = true then failureBill else 0
  | _ => 0

/-! ## Attempts and their events -/

/-- An attempt which counts adds what its stage adds. -/
theorem ProviderAttempt.bill_note {scope : ℕ} {a : ProviderAttempt}
    {event : ExecEvent} {d : Bill}
    (h : (a.stage.note event).bill = a.stage.bill + d) :
    (a.note event).bill scope =
      a.bill scope + if a.scope = scope ∧ a.external = true then d else 0 := by
  by_cases hcounts : a.scope = scope ∧ a.external = true
  · have hplain : a.Counts scope := hcounts
    have hnoted : (a.note event).Counts scope := hcounts
    rw [ProviderAttempt.bill, if_pos hnoted, ProviderAttempt.bill,
      if_pos hplain, if_pos hcounts]
    exact h
  · have hplain : ¬ a.Counts scope := hcounts
    have hnoted : ¬ (a.note event).Counts scope := hcounts
    rw [ProviderAttempt.bill, if_neg hnoted, ProviderAttempt.bill,
      if_neg hplain, if_neg hcounts, add_zero]

/-- An allowed event adds its bill to the attempts. -/
theorem total_bill_attempts {ι : Type} [DecidableEq ι]
    {Closed : ProviderAttempt → Prop} {scope : ℕ} {log : Log ι Op Res} {i : ι}
    {op : Op} {r : Res op}
    (hallowed : (billing Closed).Allowed (Latest.latest i (attempts log)) op) :
    Latest.total (ProviderAttempt.bill scope)
        (attempts ((i, ⟨op, r⟩) :: log)) =
      Latest.total (ProviderAttempt.bill scope) (attempts log) +
        ExecEvent.bill scope ⟨op, r⟩ := by
  have hchange : ∀ (event : ExecEvent) (a : ProviderAttempt),
      ExecEvent.attempt? event = none →
      Latest.latest i (attempts log) = some a →
      (a.note event).bill scope = a.bill scope + ExecEvent.bill scope event →
      Latest.total (ProviderAttempt.bill scope) (attempts ((i, event) :: log)) =
        Latest.total (ProviderAttempt.bill scope) (attempts log) +
          ExecEvent.bill scope event := by
    intro event a hattempt ha hbill
    simp only [attempts, hattempt]
    exact Latest.total_change ha hbill
  have hsame : ∀ event : ExecEvent, ExecEvent.attempt? event = none →
      ExecEvent.bill scope event = 0 →
      (∀ a ∈ Latest.latest i (attempts log),
        (a.note event).bill scope = a.bill scope) →
      Latest.total (ProviderAttempt.bill scope) (attempts ((i, event) :: log)) =
        Latest.total (ProviderAttempt.bill scope) (attempts log) +
          ExecEvent.bill scope event := by
    intro event hattempt hbill hnote
    cases hlatest : Latest.latest i (attempts log) with
    | none =>
        simp only [attempts, hattempt]
        rw [Latest.change_of_none hlatest, hbill, add_zero]
    | some a =>
        refine hchange event a hattempt hlatest ?_
        rw [hbill, add_zero, hnote a hlatest]
  cases op with
  | recordProviderAttempt reported requests external =>
      simp only [attempts, ExecEvent.attempt?, Latest.total_cons]
      rw [add_comm]
      rfl
  | judge method carried requests =>
      refine hsame _ rfl rfl fun a ha => ?_
      obtain ⟨hstage, -⟩ := hallowed a ha
      unfold ProviderAttempt.bill ProviderAttempt.note
      rw [hstage]
      rfl
  | recordProviderResponse reported metadata elapsed external =>
      obtain ⟨a, response, ha, hstage, rfl, rfl, rfl⟩ := hallowed
      refine hchange _ a rfl ha (ProviderAttempt.bill_note ?_)
      rw [hstage]
      rfl
  | recordFailedRequest reported =>
      obtain ⟨a, ha, rfl, hexternal, hstage⟩ := hallowed
      have hadded : (a.stage.note ⟨.recordFailedRequest a.scope, r⟩).bill =
          a.stage.bill + failedBill := by
        rcases hstage with ⟨error, hstage⟩ | ⟨response, hstage, -⟩
        · rw [hstage]
          rfl
        · rw [hstage]
          rfl
      refine hchange _ a rfl ha ((ProviderAttempt.bill_note hadded).trans ?_)
      simp [hexternal, ExecEvent.bill]
  | recordProviderFailure reported elapsed external =>
      obtain ⟨a, error, ha, hstage, rfl, rfl⟩ := hallowed
      refine hchange _ a rfl ha (ProviderAttempt.bill_note ?_)
      rw [hstage]
      rfl
  | _ => exact hsame _ rfl rfl fun a _ => rfl

/-- Only invalid responses are refused. -/
def ProviderAttempt.Sound (a : ProviderAttempt) : Prop :=
  ∀ response, a.stage = .refused response → ¬ a.Valid response

theorem attempts_sound {ι : Type} [DecidableEq ι]
    {Closed : ProviderAttempt → Prop} {log : Log ι Op Res} {i : ι} {op : Op}
    {r : Res op}
    (hallowed : (billing Closed).Allowed (Latest.latest i (attempts log)) op)
    (hsound : ∀ entry ∈ attempts log, entry.2.Sound) :
    ∀ entry ∈ attempts ((i, ⟨op, r⟩) :: log), entry.2.Sound := by
  -- a stage is refused by a failed request, or it was refused before
  have hnote : ∀ a ∈ Latest.latest i (attempts log), a.Sound →
      (a.note ⟨op, r⟩).Sound := by
    intro a ha hold response hstage
    obtain ⟨scope, requests, external, stage⟩ := a
    cases op with
    | recordFailedRequest reported =>
        obtain ⟨b, hb, -, -, hcases⟩ := hallowed
        obtain rfl := Option.some.inj (hb.symm.trans ha)
        rcases hcases with ⟨error, herror⟩ | ⟨answer, hrecorded, hinvalid⟩
        · obtain rfl : stage = _ := herror
          cases hstage
        · obtain rfl : stage = _ := hrecorded
          cases hstage
          exact hinvalid
    | judge method carried sent =>
        obtain ⟨hasked, -⟩ := hallowed _ ha
        obtain rfl : stage = _ := hasked
        cases hstage
    | recordProviderResponse reported metadata elapsed sent =>
        obtain ⟨b, answer, hb, hanswered, -⟩ := hallowed
        obtain rfl := Option.some.inj (hb.symm.trans ha)
        obtain rfl : stage = _ := hanswered
        cases hstage
    | recordProviderFailure reported elapsed sent =>
        obtain ⟨b, error, hb, hfailing, -⟩ := hallowed
        obtain rfl := Option.some.inj (hb.symm.trans ha)
        obtain rfl : stage = _ := hfailing
        cases hstage
    | _ => exact hold response hstage
  rintro ⟨j, a⟩ hmem
  rw [attempts] at hmem
  cases hattempt : ExecEvent.attempt? ⟨op, r⟩ with
  | some new =>
      rw [hattempt] at hmem
      rcases List.mem_cons.mp hmem with heq | hmem
      · obtain ⟨rfl, rfl⟩ := Prod.mk.inj heq
        cases op with
        | recordProviderAttempt scope requests external =>
            obtain rfl := Option.some.inj hattempt
            intro response hstage
            cases hstage
        | _ => cases hattempt
      · exact hsound _ hmem
  | none =>
      rw [hattempt] at hmem
      rcases Latest.mem_change hmem with hold | ⟨rfl, hlatest⟩
      · exact hsound _ hold
      · rw [Latest.latest_change_self] at hlatest
        obtain ⟨b, hb, rfl⟩ := Option.map_eq_some_iff.mp hlatest
        exact hnote b hb (hsound _ (Latest.mem_of_latest hb))

/-! ## Counters and their events -/

/-- The value of a counter which saturates. -/
def capped (n : ℕ) : ℕ := min n usizeMax

theorem satAdd_capped (a b : ℕ) : satAdd (capped a) b = capped (a + b) := by
  unfold satAdd capped
  omega

theorem capped_of_le {n : ℕ} (h : n ≤ usizeMax) : capped n = n :=
  min_eq_left h

/-- The counters show the bill, as far as they do not saturate. -/
structure QueryCounts.Shows (counts : QueryCounts) (bill : Bill) : Prop where
  external : counts.externalRequests = capped (bill .external)
  responses : counts.usageResponseCount = capped (bill .responses)
  missing : counts.usageMissingCount = capped (bill .missing)
  input : counts.inputTokens =
    if bill .tokens = 0 then none else some (capped (bill .input))
  output : counts.outputTokens =
    if bill .tokens = 0 then none else some (capped (bill .output))
  silent : bill .tokens = 0 → bill .input = 0 ∧ bill .output = 0
  observed : counts.inferenceObservedCount = capped (bill .observed)
  inferenceMissing :
    counts.inferenceMissingCount = capped (bill .inferenceMissing)
  failed : counts.failedRequests = capped (bill .failed)

section Shows

variable {counts : QueryCounts} {bill : Bill}

theorem shows_zero : QueryCounts.Shows {} 0 := by
  constructor <;> simp [capped]

theorem QueryCounts.Shows.attempt (h : counts.Shows bill) (batchSize : ℕ) :
    (counts.attempt batchSize true).Shows (bill + attemptBill) where
  external := by
    simp [QueryCounts.attempt, h.external, satAdd_capped, attemptBill]
  responses := h.responses
  missing := h.missing
  input := h.input
  output := h.output
  silent := h.silent
  observed := h.observed
  inferenceMissing := h.inferenceMissing
  failed := h.failed

theorem QueryCounts.Shows.failedRequest (h : counts.Shows bill) :
    QueryCounts.Shows
      { counts with failedRequests := satAdd counts.failedRequests 1 }
      (bill + failedBill) where
  external := h.external
  responses := h.responses
  missing := h.missing
  input := h.input
  output := h.output
  silent := h.silent
  observed := h.observed
  inferenceMissing := h.inferenceMissing
  failed := by simp [h.failed, satAdd_capped, failedBill]

theorem QueryCounts.Shows.usage (h : counts.Shows bill)
    (metadata : ProviderMetadata) :
    (counts.responseUsage metadata).Shows (bill + usageBill metadata) := by
  have hnone : metadata.tokens = none → counts.responseUsage metadata =
      { counts with
        usageResponseCount := satAdd counts.usageResponseCount 1
        usageMissingCount := satAdd counts.usageMissingCount 1 } := by
    intro htokens
    unfold QueryCounts.responseUsage
    unfold ProviderMetadata.tokens at htokens
    split
    · rename_i input output husage
      rw [husage] at htokens
      cases htokens
    · rfl
  cases htokens : metadata.tokens with
  | none =>
      rw [hnone htokens]
      exact
        { external := h.external
          responses := by simp [h.responses, satAdd_capped, usageBill]
          missing := by simp [h.missing, satAdd_capped, usageBill, htokens]
          input := by simp [h.input, usageBill, htokens]
          output := by simp [h.output, usageBill, htokens]
          silent := by simpa [usageBill, htokens] using h.silent
          observed := h.observed
          inferenceMissing := h.inferenceMissing
          failed := h.failed }
  | some pair =>
      obtain ⟨input, output⟩ := pair
      have husage : metadata.usage = some ⟨some input, some output⟩ := by
        unfold ProviderMetadata.tokens at htokens
        split at htokens
        · rename_i input' output' husage
          obtain ⟨rfl, rfl⟩ := Prod.mk.inj (Option.some.inj htokens)
          exact husage
        · cases htokens
      have hinput : counts.inputTokens.getD 0 = capped (bill .input) := by
        rw [h.input]
        by_cases hzero : bill .tokens = 0
        · simp [hzero, (h.silent hzero).1, capped]
        · simp [hzero]
      have houtput : counts.outputTokens.getD 0 = capped (bill .output) := by
        rw [h.output]
        by_cases hzero : bill .tokens = 0
        · simp [hzero, (h.silent hzero).2, capped]
        · simp [hzero]
      have hcounts : counts.responseUsage metadata =
          { counts with
            usageResponseCount := satAdd counts.usageResponseCount 1
            inputTokens := some (satAdd (counts.inputTokens.getD 0) input)
            outputTokens :=
              some (satAdd (counts.outputTokens.getD 0) output) } := by
        simp only [QueryCounts.responseUsage, husage]
      rw [hcounts]
      exact
        { external := h.external
          responses := by simp [h.responses, satAdd_capped, usageBill]
          missing := by simp [h.missing, usageBill, htokens]
          input := by simp [hinput, satAdd_capped, usageBill, htokens]
          output := by simp [houtput, satAdd_capped, usageBill, htokens]
          silent := by simp [usageBill, htokens]
          observed := h.observed
          inferenceMissing := h.inferenceMissing
          failed := h.failed }

theorem QueryCounts.Shows.inference (h : counts.Shows bill)
    (metadata : ProviderMetadata) :
    (counts.responseInference metadata).Shows
      (bill + inferenceBill metadata) := by
  unfold QueryCounts.responseInference
  cases htime : metadata.inferenceTimeMs with
  | none =>
      exact
        { external := h.external
          responses := h.responses
          missing := h.missing
          input := h.input
          output := h.output
          silent := h.silent
          observed := by simp [h.observed, inferenceBill, htime]
          inferenceMissing := by
            simp [h.inferenceMissing, satAdd_capped, inferenceBill, htime]
          failed := h.failed }
  | some milliseconds =>
      exact
        { external := h.external
          responses := h.responses
          missing := h.missing
          input := h.input
          output := h.output
          silent := h.silent
          observed := by
            simp [h.observed, satAdd_capped, inferenceBill, htime]
          inferenceMissing := by
            simp [h.inferenceMissing, inferenceBill, htime]
          failed := h.failed }

/-- Timing and model names do not belong to the bill. -/
theorem QueryCounts.Shows.response (h : counts.Shows bill)
    (detailedTiming : Bool) (metadata : ProviderMetadata) (elapsed : ℕ) :
    (counts.response detailedTiming metadata elapsed true).Shows
      (bill + responseBill metadata) := by
  have htiming : (counts.responseTiming metadata elapsed).Shows bill := by
    unfold QueryCounts.responseTiming
    cases metadata.serializationTimeNs with
    | none => exact { h with }
    | some serializationTimeNs => exact { h with }
  have hmodel : ∀ {counts : QueryCounts}, counts.Shows bill →
      (counts.responseModel metadata).Shows bill := by
    intro counts h
    unfold QueryCounts.responseModel
    cases metadata.effectiveModel with
    | none => exact h
    | some model =>
        by_cases hblank : isBlank model = true
        · simpa [hblank] using h
        · simp only [hblank, if_false, Bool.false_eq_true]
          exact { h with }
  unfold QueryCounts.response responseBill
  rw [← add_assoc]
  cases detailedTiming with
  | true => exact ((hmodel htiming).usage metadata).inference metadata
  | false => exact ((hmodel h).usage metadata).inference metadata

theorem QueryCounts.Shows.failure (h : counts.Shows bill)
    (detailedTiming : Bool) (elapsed : ℕ) :
    (counts.failure detailedTiming elapsed true).Shows
      (bill + failureBill) := by
  have hmissing : QueryCounts.Shows
      { counts with
        usageMissingCount := satAdd counts.usageMissingCount 1
        inferenceMissingCount := satAdd counts.inferenceMissingCount 1 }
      (bill + failureBill) :=
    { external := h.external
      responses := h.responses
      missing := by simp [h.missing, satAdd_capped, failureBill]
      input := h.input
      output := h.output
      silent := h.silent
      observed := h.observed
      inferenceMissing := by
        simp [h.inferenceMissing, satAdd_capped, failureBill]
      failed := h.failed }
  unfold QueryCounts.failure
  cases detailedTiming with
  | true => exact { hmissing with }
  | false => exact hmissing

/-- What an event adds to the counters is what it adds to the bill. -/
theorem QueryCounts.Shows.count (h : counts.Shows bill)
    (detailedTiming : Bool) (scope : ℕ) (event : ExecEvent) :
    (ExecEvent.count detailedTiming scope event counts).Shows
      (bill + event.bill scope) := by
  have hsame : bill + 0 = bill := add_zero bill
  obtain ⟨op, r⟩ := event
  unfold ExecEvent.count
  cases op with
  | claimQueryEntry reported identity =>
      split
      · rcases r with error | ⟨entry, owned⟩
        · exact h
        · cases owned with
          | true => exact { h with }
          | false => exact { h with }
      · exact h
  | recordCacheHit reported =>
      split
      · exact { h with }
      · exact h
  | recordProviderAttempt reported requests external =>
      by_cases hscope : reported = scope
      · cases external with
        | true =>
            simpa [Op.reportsOn, ExecEvent.tally, ExecEvent.bill, hscope]
              using h.attempt requests.length
        | false =>
            simp only [Op.reportsOn, hscope, if_true, ExecEvent.bill,
              Bool.false_eq_true, and_false, if_false, hsame]
            exact { h with }
      · simpa [Op.reportsOn, ExecEvent.bill, hscope] using h
  | recordFailedRequest reported =>
      by_cases hscope : reported = scope
      · simpa [Op.reportsOn, ExecEvent.tally, ExecEvent.bill, hscope]
          using h.failedRequest
      · simpa [Op.reportsOn, ExecEvent.bill, hscope] using h
  | recordProviderResponse reported metadata elapsed external =>
      by_cases hscope : reported = scope
      · cases external with
        | true =>
            simpa [Op.reportsOn, ExecEvent.tally, ExecEvent.bill, hscope]
              using h.response detailedTiming metadata elapsed
        | false =>
            simpa [Op.reportsOn, ExecEvent.tally, ExecEvent.bill, hscope,
              QueryCounts.response] using h
      · simpa [Op.reportsOn, ExecEvent.bill, hscope] using h
  | recordProviderFailure reported elapsed external =>
      by_cases hscope : reported = scope
      · cases external with
        | true =>
            simpa [Op.reportsOn, ExecEvent.tally, ExecEvent.bill, hscope]
              using h.failure detailedTiming elapsed
        | false =>
            simpa [Op.reportsOn, ExecEvent.tally, ExecEvent.bill, hscope,
              QueryCounts.failure] using h
      · simpa [Op.reportsOn, ExecEvent.bill, hscope] using h
  | _ => exact h

end Shows

end DuckJeu
