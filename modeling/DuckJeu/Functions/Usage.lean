import DuckJeu.Core.JsonString
import DuckJeu.Functions.Bill
import DuckJeu.Functions.Gate
import DuckJeu.Host.Profile
import Mathlib.Algebra.Order.BigOperators.Group.List

/-!
# Reported usage and cost

A query is made of calls of the executor and of row evaluations, in any number
and under any schedule.  When it ends, its profile reports usage, inference
time and cost.  This module compares the report with the attempts of the
query.

A record which is made after the end of the query is lost.  So the report is
exact if the query ends while no call holds a response for which a record is
still to be made.
-/

namespace DuckJeu

open Effects ConnectionRuntime

variable {ι : Type} [DecidableEq ι]

/-! ## The calls of a query -/

inductive QueryCall where
  | groups (call : Call)
  | row (call : RowCall)

namespace QueryCall

variable (W : WireText)

def program : QueryCall → Run Unit
  | .groups call => do
      let _ ← call.program
      pure ()
  | .row call => do
      let _ ← call.program W
      pure ()

/-- How a call leaves an attempt before it goes on. -/
def Closed : QueryCall → ProviderAttempt → Prop
  | .groups _ => ProviderAttempt.Accounted
  | .row _ => ProviderAttempt.Settled

/-- The call of the executor is not about to record this attempt. -/
def Booked : QueryCall → ProviderAttempt → Prop
  | .groups _, a =>
      match a.stage with
      | .answered (.ok _) => a.external = false
      | .recorded response => a.external = true → a.Valid response
      | _ => True
  | .row _, a =>
      match a.stage with
      | .answered (.ok _) => a.external = false
      | _ => True

end QueryCall

/-- What is closed is booked. -/
theorem QueryCall.Closed.booked {call : QueryCall} {a : ProviderAttempt}
    (h : call.Closed a) : call.Booked a := by
  obtain ⟨scope, requests, external, stage⟩ := a
  cases call with
  | groups call =>
      cases stage with
      | answered response =>
          cases response with
          | ok response => exact h.1.elim
          | error error => trivial
      | recorded response => exact h.2 response rfl
      | _ => trivial
  | row call =>
      cases stage with
      | answered response =>
          cases response with
          | ok response => exact h.elim
          | error error => trivial
      | _ => trivial

/-! ## Rows settle their attempts -/

section Row

/-- The latest attempt, if there is one, is settled. -/
def LastSettled (g : Option ProviderAttempt) : Prop := ∀ a ∈ g, a.Settled

abbrev settling := billing ProviderAttempt.Settled

/-- Without a query nothing is recorded. -/
theorem judgeRow_unrecorded {provider : Provider} {maxInflight : ℕ}
    {request : JudgmentRequest} :
    Secures settling (judgeRow provider maxInflight none request)
      (fun _ => LastSettled) (fun _ => LastSettled) none := by
  unfold judgeRow
  simp only [onConnection, secures_bind, secures_pure, secures_lift,
    follows_perform]
  refine ⟨trivial, fun started _ => ⟨?_, fun response _ =>
    ⟨trivial, fun ended _ => ?_⟩⟩⟩
  · rintro a ⟨⟩
  have hnone : LastSettled none := fun a ha => by cases ha
  cases response with
  | ok response =>
      simp only [secures_bind, secures_pure, secures_mk, follows_pure]
      cases rowAnswer request response with
      | error error => exact hnone
      | ok result => exact hnone
  | error error =>
      cases provider.makesExternalRequest with
      | true => exact hnone
      | false => exact hnone

theorem judgeRow_settled {provider : Provider} {maxInflight queryScope : ℕ}
    {request : JudgmentRequest} :
    Secures settling (judgeRow provider maxInflight (some queryScope) request)
      (fun _ => LastSettled) (fun _ => LastSettled) none := by
  have hnone : LastSettled none := fun a ha => by cases ha
  unfold judgeRow
  simp only [onConnection, acquireRequestPermit, queryCancellation,
    secures_bind, secures_mk, secures_lift, follows_perform]
  refine ⟨trivial, ?_⟩
  rintro (error | flag) -
  · exact hnone
  refine ⟨trivial, ?_⟩
  rintro (error | granted) -
  · exact hnone
  refine ⟨hnone, fun _ _ => ⟨trivial, fun started _ => ⟨?_, fun response _ =>
    ⟨trivial, fun ended _ => ?_⟩⟩⟩⟩
  · rintro a ⟨⟩
    exact ⟨rfl, rfl⟩
  cases response with
  | ok response =>
      simp only [secures_bind, secures_mk, secures_lift, follows_perform,
        follows_pure]
      refine ⟨⟨_, response, rfl, rfl, rfl, rfl, rfl⟩, fun _ _ =>
        ⟨trivial, fun _ _ => ?_⟩⟩
      cases rowAnswer request response with
      | error error =>
          rintro a ⟨⟩
          trivial
      | ok result =>
          rintro a ⟨⟩
          trivial
  | error error =>
      cases hexternal : provider.makesExternalRequest with
      | true =>
          simp only [if_true, secures_bind, secures_lift, follows_perform,
            secures_throw]
          refine ⟨⟨_, rfl, rfl, rfl, Or.inl ⟨error, rfl⟩⟩, fun _ _ =>
            ⟨⟨_, error, rfl, rfl, rfl, rfl⟩, fun _ _ =>
              ⟨trivial, fun _ _ => ?_⟩⟩⟩
          rintro a ⟨⟩
          trivial
      | false =>
          simp only [Bool.false_eq_true, if_false, secures_bind, secures_lift,
            follows_perform, secures_throw]
          refine ⟨trivial, fun _ _ => ?_⟩
          rintro a ⟨⟩
          rfl

theorem RowCall.settled (W : WireText) (call : RowCall) :
    Follows settling (call.program W) (fun _ => LastSettled) none := by
  have hnone : LastSettled none := fun a ha => by cases ha
  unfold RowCall.program evaluateRow
  rcases readRequest W call.kind call.row with error | (_ | request)
  · exact hnone
  · exact hnone
  dsimp only
  split
  · exact hnone
  split
  · exact hnone
  split
  · exact hnone
  have hjudge : Secures settling (do
      let result ← judgeRow call.provider call.config.maxInflight call.scope
        request
      pure (some result)) (fun _ => LastSettled) (fun _ => LastSettled)
      none := by
    rw [secures_bind]
    cases call.scope with
    | none => exact judgeRow_unrecorded
    | some queryScope => exact judgeRow_settled
  refine Follows.mono hjudge ?_
  rintro (error | value) g hg
  · exact hg
  · exact hg

/-- A call closes its attempts. -/
theorem QueryCall.follows (W : WireText) (call : QueryCall) :
    Follows (billing call.Closed) (call.program W)
      (fun _ g => ∀ a ∈ g, call.Closed a) none := by
  cases call with
  | groups call =>
      unfold QueryCall.program
      rw [follows_bind]
      exact call.accounted
  | row call =>
      unfold QueryCall.program
      rw [follows_bind]
      exact call.settled W

end Row

/-! ## Within one query -/

/-- What may happen during a query, apart from its calls.  Workers of other
queries may still run. -/
inductive WithinQuery (scope : ℕ) :
    ConnectionRuntime → ConnectionRuntime → Prop where
  | quiet {c c' : ConnectionRuntime} (h : QuietStep c c') :
      WithinQuery scope c c'
  | other {c c' : ConnectionRuntime} {op : Op} {r : Res op}
      (h : step c op r c') (hother : op.reportsOn ≠ some scope) :
      WithinQuery scope c c'

abbrev QueryPool (ι : Type) := Pool ι ConnectionRuntime Op Res Unit

/-- A new query with its calls. -/
def QueryPool.start (W : WireText) (c : ConnectionRuntime) (now : ℕ)
    (calls : ι → QueryCall) : QueryPool ι where
  shared := c.beginQuery now
  thread := fun i => (calls i).program W
  log := []

abbrev QueryPool.Reach (scope : ℕ) : QueryPool ι → QueryPool ι → Prop :=
  Pool.Reachable step (WithinQuery scope)

/-- The query is active, and its counters show the bill. -/
def ShowsBill (c : ConnectionRuntime) (scope : ℕ) (bill : Bill) : Prop :=
  ∃ query, c.activeFor scope = some query ∧ query.counts.Shows bill

section Query

variable {c c' : ConnectionRuntime} {scope : ℕ} {bill : Bill}

theorem ShowsBill.step (h : ShowsBill c scope bill) {op : Op} {r : Res op}
    (hstep : step c op r c') :
    ShowsBill c' scope (bill + ExecEvent.bill scope ⟨op, r⟩) := by
  obtain ⟨query, hquery, hshows⟩ := h
  refine ⟨{ query with
    counts := ExecEvent.count query.detailedTiming scope ⟨op, r⟩
      query.counts }, ?_, hshows.count query.detailedTiming scope ⟨op, r⟩⟩
  rw [step_activeFor hstep, hquery]
  rfl

theorem bill_of_reportsOn {event : ExecEvent}
    (h : event.1.reportsOn ≠ some scope) : event.bill scope = 0 := by
  obtain ⟨op, r⟩ := event
  have hne : ∀ {reported : ℕ}, op.reportsOn = some reported →
      reported ≠ scope := by
    rintro reported hreported rfl
    exact h hreported
  cases op with
  | recordProviderAttempt reported requests external =>
      exact if_neg fun hcounts => hne rfl hcounts.1
  | recordProviderResponse reported metadata elapsed external =>
      exact if_neg fun hcounts => hne rfl hcounts.1
  | recordFailedRequest reported => exact if_neg (hne rfl)
  | recordProviderFailure reported elapsed external =>
      exact if_neg fun hcounts => hne rfl hcounts.1
  | _ => rfl

/-- The other records of a query do not belong to the bill. -/
theorem ShowsBill.recorded (h : ShowsBill c scope bill)
    {f : QueryCounts → QueryCounts}
    (hf : ∀ counts : QueryCounts, counts.Shows bill → (f counts).Shows bill)
    (reported : ℕ) : ShowsBill (c.count reported f) scope bill := by
  obtain ⟨query, hquery, hshows⟩ := h
  refine ⟨_, by rw [count_activeFor, hquery]; rfl, ?_⟩
  dsimp only
  split
  · exact hf query.counts hshows
  · exact hshows

theorem ShowsBill.quiet (h : ShowsBill c scope bill)
    (hquiet : QuietStep c c') : ShowsBill c' scope bill := by
  have hsame : ∀ {c' : ConnectionRuntime}, c'.activeQuery = c.activeQuery →
      ShowsBill c' scope bill := by
    intro c' hactive
    obtain ⟨query, hquery, hshows⟩ := h
    refine ⟨query, ?_, hshows⟩
    rw [activeFor, hactive]
    exact hquery
  cases hquiet with
  | profileContext reported provider requestedModel detailedTiming =>
      unfold ConnectionRuntime.recordProfileContext
      split
      · exact h
      rename_i query' hreported
      obtain ⟨hactive, rfl⟩ := activeFor_some hreported
      obtain ⟨query, hquery, hshows⟩ := h
      obtain ⟨hactive', rfl⟩ := activeFor_some hquery
      obtain rfl : query' = query :=
        Option.some.inj (hactive.symm.trans hactive')
      refine ⟨{ query' with
        provider := some (query'.provider.getD provider)
        requestedModel := some (query'.requestedModel.getD requestedModel)
        detailedTiming := query'.detailedTiming || detailedTiming }, ?_, hshows⟩
      simp [activeFor, Option.filter_some]
  | optimizedRows reported inputRows nullRows validRows uniqueJudgments =>
      unfold ConnectionRuntime.recordOptimizedRows
      refine h.recorded (fun counts hshows => ?_) reported
      exact { hshows with }
  | rowInput reported =>
      unfold ConnectionRuntime.recordRowInput
      refine h.recorded (fun counts hshows => ?_) reported
      exact { hshows with }
  | rowResult reported isNull =>
      unfold ConnectionRuntime.recordRowResult
      refine h.recorded (fun counts hshows => ?_) reported
      split
      · exact { hshows with }
      · exact { hshows with }
  | credentialScope hash next queryScope credential =>
      unfold ConnectionRuntime.credentialScopeFor
      split
      · exact h
      · dsimp only
        split
        · exact hsame rfl
        · exact h
  | clearCache => exact hsame rfl

theorem ShowsBill.within (h : ShowsBill c scope bill)
    (hwithin : WithinQuery scope c c') : ShowsBill c' scope bill := by
  cases hwithin with
  | quiet hquiet => exact h.quiet hquiet
  | @other op r hstep hother =>
      have hnext := h.step hstep
      rwa [bill_of_reportsOn hother, add_zero] at hnext

/-- In a query which has just begun nothing has been recorded. -/
theorem showsBill_beginQuery (c : ConnectionRuntime) (now : ℕ) :
    ShowsBill (c.beginQuery now) c.nextQueryId 0 := by
  obtain ⟨query, hquery, hcounts⟩ := beginQuery_activeFor c now
  exact ⟨query, hquery, hcounts ▸ shows_zero⟩

end Query

/-- The books of a query at any moment: the counters show the bill of the
attempts, only invalid responses are refused, and every attempt before the
latest one of its call is closed. -/
structure BooksKept (scope : ℕ) (calls : ι → QueryCall) (c : ConnectionRuntime)
    (log : WorkerLog ι) : Prop where
  shows : ShowsBill c scope
    (Latest.total (ProviderAttempt.bill scope) (attempts log))
  sound : ∀ entry ∈ attempts log, entry.2.Sound
  aged : Latest.Aged (fun i => (calls i).Closed) (attempts log)

theorem BooksKept.step {scope : ℕ} {calls : ι → QueryCall}
    {c c' : ConnectionRuntime} {log : WorkerLog ι}
    (h : BooksKept scope calls c log) {i : ι} {op : Op} {r : Res op}
    (hallowed : (billing (calls i).Closed).Allowed
      (Latest.latest i (attempts log)) op) (hstep : DuckJeu.step c op r c') :
    BooksKept scope calls c' ((i, ⟨op, r⟩) :: log) where
  shows := by
    rw [total_bill_attempts hallowed]
    exact h.shows.step hstep
  sound := attempts_sound hallowed h.sound
  aged := by
    rw [attempts]
    cases hattempt : ExecEvent.attempt? ⟨op, r⟩ with
    | none => exact h.aged.change
    | some a =>
        refine h.aged.cons a ?_
        cases op with
        | recordProviderAttempt scope requests external => exact hallowed
        | _ => cases hattempt

theorem QueryPool.books {W : WireText} {c : ConnectionRuntime} {now : ℕ}
    {calls : ι → QueryCall} {p : QueryPool ι}
    (hreach : QueryPool.Reach c.nextQueryId
      (QueryPool.start W c now calls) p) :
    BooksKept c.nextQueryId calls p.shared p.log ∧
      ∀ i, Follows (billing (calls i).Closed) (p.thread i)
        (fun _ g => ∀ a ∈ g, (calls i).Closed a)
        (Latest.latest i (attempts p.log)) := by
  have hbooks := hreach.follows (g := fun _ => none)
    (P := fun i => billing (calls i).Closed)
    (Q := fun i _ g => ∀ a ∈ g, (calls i).Closed a)
    (fun c' log => BooksKept c.nextQueryId calls c' log) ?_ ?_ ?_ ?_
  · refine ⟨hbooks.1, fun i => ?_⟩
    have hi := hbooks.2 i
    rwa [billing_replay] at hi
  · intro c₁ log i op r c₂ hkept hallowed hstep
    rw [billing_replay] at hallowed
    exact ⟨trivial, hkept.step hallowed hstep⟩
  · intro c₁ c₂ log hkept hwithin
    exact ⟨hkept.shows.within hwithin, hkept.sound, hkept.aged⟩
  · exact ⟨showsBill_beginQuery c now, by simp [QueryPool.start, attempts],
      List.Pairwise.nil⟩
  · exact fun i => (calls i).follows W

/-! ## What a profile should report -/

/-- The external attempts of a query. -/
def externalAttempts (scope : ℕ) (log : WorkerLog ι) : List ProviderAttempt :=
  ((attempts log).map Prod.snd).filter fun a => decide (a.Counts scope)

/-- The provider has returned a response which has the value. -/
def ProviderAttempt.Reports {β : Type} (a : ProviderAttempt)
    (value : ProviderMetadata → Option β) : Prop :=
  ∃ response, a.stage.response = some (.ok response) ∧
    (value response.metadata).isSome = true

/-- There are attempts, and all of them have reported the value. -/
def AllReport {β : Type} (made : List ProviderAttempt)
    (value : ProviderMetadata → Option β) : Prop :=
  made ≠ [] ∧ ∀ a ∈ made, a.Reports value

/-- The value which an attempt has reported, or zero. -/
def ProviderAttempt.reported (a : ProviderAttempt)
    (value : ProviderMetadata → Option ℕ) : ℕ :=
  match a.stage.response with
  | some (.ok response) => (value response.metadata).getD 0
  | _ => 0

def ProviderMetadata.inputTokens (metadata : ProviderMetadata) : Option ℕ :=
  metadata.tokens.map Prod.fst

def ProviderMetadata.outputTokens (metadata : ProviderMetadata) : Option ℕ :=
  metadata.tokens.map Prod.snd

/-- Usage and inference time are reported exactly if all attempts have
reported them. -/
structure Profile.UsageExact (profile : Profile)
    (made : List ProviderAttempt) : Prop where
  input : profile.usage.inputTokens.isSome = true ↔
    AllReport made ProviderMetadata.tokens
  output : profile.usage.outputTokens.isSome = true ↔
    AllReport made ProviderMetadata.tokens
  sums : AllReport made ProviderMetadata.tokens →
    profile.usage.inputTokens = some (capped
        (made.map fun a => a.reported ProviderMetadata.inputTokens).sum) ∧
      profile.usage.outputTokens = some (capped
        (made.map fun a => a.reported ProviderMetadata.outputTokens).sum)
  inference : profile.timing.serverInferenceSum.isSome = true ↔
    AllReport made ProviderMetadata.inferenceTimeMs

/-- A cost is shown exactly if the price is known, the usage is complete, and
no attempt has failed or got an invalid response. -/
def Profile.CostExact (profile : Profile) (made : List ProviderAttempt) :
    Prop :=
  profile.costEstimate.amount.isSome = true ↔
    profile.provider = some "typesafe" ∧
      AllReport made ProviderMetadata.tokens ∧
      ∀ a ∈ made, ∀ outcome, a.stage.response = some outcome →
        ∃ response, outcome = .ok response ∧ a.Valid response

/-! ## Bills of booked attempts -/

section Booked

/-- No response is waiting for its record. -/
def AttemptStage.Clear (stage : AttemptStage) : Prop :=
  ∀ response, stage ≠ .answered (.ok response)

variable {stage : AttemptStage}

theorem AttemptStage.bill_external (stage : AttemptStage) :
    stage.bill .external = 1 := by
  cases stage <;> rfl

theorem AttemptStage.bill_le_one (stage : AttemptStage) :
    stage.bill .responses ≤ 1 ∧ stage.bill .missing ≤ 1 ∧
      stage.bill .observed ≤ 1 ∧ stage.bill .inferenceMissing ≤ 1 ∧
      stage.bill .failed ≤ 1 := by
  have hite : ∀ b : Bool, (if b = true then 0 else 1) ≤ 1 ∧
      (if b = true then 1 else 0) ≤ 1 := by decide
  cases stage <;> simp [AttemptStage.bill, attemptBill, responseBill,
    usageBill, inferenceBill, failedBill, failureBill, hite]

theorem AttemptStage.Clear.tokens_iff (h : stage.Clear) :
    (stage.bill .responses = 1 ∧ stage.bill .missing = 0) ↔
      ∃ response, stage.response = some (.ok response) ∧
        response.metadata.tokens.isSome = true := by
  cases stage with
  | answered response =>
      cases response with
      | ok response => exact absurd rfl (h response)
      | error error =>
          simp [AttemptStage.bill, attemptBill, AttemptStage.response]
  | recorded response =>
      simp [AttemptStage.bill, attemptBill, AttemptStage.response,
        responseBill, usageBill, inferenceBill, Option.isSome_iff_ne_none]
  | refused response =>
      simp [AttemptStage.bill, attemptBill, AttemptStage.response,
        responseBill, usageBill, inferenceBill, failedBill,
        Option.isSome_iff_ne_none]
  | _ =>
      simp [AttemptStage.bill, attemptBill, AttemptStage.response, failedBill,
        failureBill]

theorem AttemptStage.Clear.inference_iff (h : stage.Clear) :
    (stage.bill .observed = 1 ∧ stage.bill .inferenceMissing = 0) ↔
      ∃ response, stage.response = some (.ok response) ∧
        response.metadata.inferenceTimeMs.isSome = true := by
  cases stage with
  | answered response =>
      cases response with
      | ok response => exact absurd rfl (h response)
      | error error =>
          simp [AttemptStage.bill, attemptBill, AttemptStage.response]
  | recorded response =>
      simp [AttemptStage.bill, attemptBill, AttemptStage.response,
        responseBill, usageBill, inferenceBill, Option.isSome_iff_ne_none]
  | refused response =>
      simp [AttemptStage.bill, attemptBill, AttemptStage.response,
        responseBill, usageBill, inferenceBill, failedBill,
        Option.isSome_iff_ne_none]
  | _ =>
      simp [AttemptStage.bill, attemptBill, AttemptStage.response, failedBill,
        failureBill]

theorem AttemptStage.Clear.input_eq {a : ProviderAttempt} (h : a.stage.Clear) :
    a.stage.bill .input = a.reported ProviderMetadata.inputTokens ∧
      a.stage.bill .output = a.reported ProviderMetadata.outputTokens := by
  obtain ⟨scope, requests, external, stage⟩ := a
  cases stage with
  | answered response =>
      cases response with
      | ok response => exact absurd rfl (h response)
      | error error => exact ⟨rfl, rfl⟩
  | recorded response =>
      simp [AttemptStage.bill, attemptBill, AttemptStage.response,
        responseBill, usageBill, inferenceBill, ProviderAttempt.reported,
        ProviderMetadata.inputTokens, ProviderMetadata.outputTokens]
  | refused response =>
      simp [AttemptStage.bill, attemptBill, AttemptStage.response,
        responseBill, usageBill, inferenceBill, failedBill,
        ProviderAttempt.reported, ProviderMetadata.inputTokens,
        ProviderMetadata.outputTokens]
  | _ => exact ⟨rfl, rfl⟩

/-- A failed request is an error or an invalid response. -/
theorem AttemptStage.failed_cases (h : stage.bill .failed ≠ 0) :
    (∃ error, stage.response = some (.error error)) ∨
      ∃ response, stage = .refused response := by
  cases stage with
  | refused response => exact Or.inr ⟨response, rfl⟩
  | failing error => exact Or.inl ⟨error, rfl⟩
  | failed error => exact Or.inl ⟨error, rfl⟩
  | _ =>
      simp [AttemptStage.bill, attemptBill, responseBill, usageBill,
        inferenceBill] at h

/-! ### Sums over attempts -/

variable {α : Type}

theorem sum_le_length {f : α → ℕ} {l : List α} (h : ∀ a ∈ l, f a ≤ 1) :
    (l.map f).sum ≤ l.length := by
  have hsum := List.sum_le_card_nsmul (l.map f) 1 (by simpa using h)
  simpa using hsum

theorem sum_eq_length_iff {f : α → ℕ} {l : List α} (h : ∀ a ∈ l, f a ≤ 1) :
    (l.map f).sum = l.length ↔ ∀ a ∈ l, f a = 1 := by
  induction l with
  | nil => simp
  | cons a l ih =>
      have hfirst := h a (List.mem_cons_self ..)
      have hrest : ∀ b ∈ l, f b ≤ 1 :=
        fun b hb => h b (List.mem_cons_of_mem _ hb)
      have hle := sum_le_length hrest
      have hi := ih hrest
      simp only [List.map_cons, List.sum_cons, List.length_cons,
        List.forall_mem_cons]
      constructor
      · intro heq
        exact ⟨by omega, hi.mp (by omega)⟩
      · rintro ⟨hone, hall⟩
        have hsum := hi.mpr hall
        omega

theorem sum_eq_zero_iff {f : α → ℕ} {l : List α} :
    (l.map f).sum = 0 ↔ ∀ a ∈ l, f a = 0 := by
  rw [List.sum_eq_zero_iff]
  simp

/-- The bill of a query is that of its external attempts. -/
theorem total_bill_eq (scope : ℕ) (log : WorkerLog ι) (item : BillItem) :
    Latest.total (ProviderAttempt.bill scope) (attempts log) item =
      ((externalAttempts scope log).map fun a => a.stage.bill item).sum := by
  unfold externalAttempts
  induction attempts log with
  | nil => rfl
  | cons entry rest ih =>
      rw [Latest.total_cons, Pi.add_apply, ih, List.map_cons]
      by_cases hcounts : entry.2.Counts scope
      · rw [List.filter_cons_of_pos (by simpa using hcounts), List.map_cons,
          List.sum_cons, ProviderAttempt.bill, if_pos hcounts]
      · rw [List.filter_cons_of_neg (by simpa using hcounts),
          ProviderAttempt.bill, if_neg hcounts, Pi.zero_apply, Nat.zero_add]

end Booked

/-! ## The report is exact -/

section Report

variable {counts : QueryCounts} {made : List ProviderAttempt}

/-- The counters show the bill of the attempts, none of which has a response
waiting for its record, and there are less than the counters can count. -/
structure CountsBooked (counts : QueryCounts) (made : List ProviderAttempt) :
    Prop where
  shows : counts.Shows fun item => (made.map fun a => a.stage.bill item).sum
  clear : ∀ a ∈ made, a.stage.Clear
  length_le : made.length ≤ usizeMax

theorem CountsBooked.external (h : CountsBooked counts made) :
    counts.externalRequests = made.length := by
  have hsum : (made.map fun a => a.stage.bill .external).sum = made.length :=
    (sum_eq_length_iff fun a _ => (a.stage.bill_external).le).mpr
      fun a _ => a.stage.bill_external
  rw [h.shows.external, hsum, capped_of_le h.length_le]

/-- A counter of ones does not saturate. -/
theorem CountsBooked.capped_eq (h : CountsBooked counts made) {item : BillItem}
    (hone : ∀ a ∈ made, a.stage.bill item ≤ 1) :
    capped ((made.map fun a => a.stage.bill item).sum) =
      (made.map fun a => a.stage.bill item).sum :=
  capped_of_le ((sum_le_length hone).trans h.length_le)

theorem made_pos : 0 < made.length ↔ made ≠ [] := by
  rw [List.length_pos_iff]

theorem CountsBooked.usageComplete_iff (h : CountsBooked counts made) :
    counts.usageComplete = true ↔ AllReport made ProviderMetadata.tokens := by
  have hresponses : ∀ a ∈ made, a.stage.bill .responses ≤ 1 :=
    fun a _ => a.stage.bill_le_one.1
  have hmissing : ∀ a ∈ made, a.stage.bill .missing ≤ 1 :=
    fun a _ => a.stage.bill_le_one.2.1
  rw [QueryCounts.usageComplete_iff, h.external, made_pos, h.shows.missing,
    h.shows.responses, h.capped_eq hmissing, h.capped_eq hresponses,
    sum_eq_zero_iff, sum_eq_length_iff hresponses, AllReport]
  refine and_congr_right fun _ => ?_
  constructor
  · rintro ⟨hzero, hone⟩ a ha
    exact (h.clear a ha).tokens_iff.mp ⟨hone a ha, hzero a ha⟩
  · intro hall
    exact ⟨fun a ha => ((h.clear a ha).tokens_iff.mpr (hall a ha)).2,
      fun a ha => ((h.clear a ha).tokens_iff.mpr (hall a ha)).1⟩

theorem CountsBooked.inferenceComplete_iff (h : CountsBooked counts made) :
    counts.inferenceComplete = true ↔
      AllReport made ProviderMetadata.inferenceTimeMs := by
  have hobserved : ∀ a ∈ made, a.stage.bill .observed ≤ 1 :=
    fun a _ => a.stage.bill_le_one.2.2.1
  have hmissing : ∀ a ∈ made, a.stage.bill .inferenceMissing ≤ 1 :=
    fun a _ => a.stage.bill_le_one.2.2.2.1
  rw [QueryCounts.inferenceComplete_iff, h.external, made_pos,
    h.shows.inferenceMissing, h.shows.observed, h.capped_eq hmissing,
    h.capped_eq hobserved, sum_eq_zero_iff, sum_eq_length_iff hobserved,
    AllReport]
  refine and_congr_right fun _ => ?_
  constructor
  · rintro ⟨hzero, hone⟩ a ha
    exact (h.clear a ha).inference_iff.mp ⟨hone a ha, hzero a ha⟩
  · intro hall
    exact ⟨fun a ha => ((h.clear a ha).inference_iff.mpr (hall a ha)).2,
      fun a ha => ((h.clear a ha).inference_iff.mpr (hall a ha)).1⟩

/-- The tokens are those of the attempts. -/
theorem CountsBooked.tokens_eq (h : CountsBooked counts made)
    (hall : AllReport made ProviderMetadata.tokens) :
    counts.inputTokens = some (capped
        (made.map fun a => a.reported ProviderMetadata.inputTokens).sum) ∧
      counts.outputTokens = some (capped
        (made.map fun a => a.reported ProviderMetadata.outputTokens).sum) := by
  have htokens : (made.map fun a => a.stage.bill .tokens).sum ≠ 0 := by
    rw [Ne, sum_eq_zero_iff]
    intro hzero
    obtain ⟨a, ha⟩ := List.exists_mem_of_ne_nil made hall.1
    have hnone := hzero a ha
    have hbilled := (h.clear a ha).tokens_iff.mpr (hall.2 a ha)
    cases hstage : a.stage with
    | recorded response =>
        rw [hstage] at hnone hbilled
        simp [AttemptStage.bill, attemptBill, responseBill, usageBill,
          inferenceBill] at hnone hbilled
        exact hbilled hnone
    | refused response =>
        rw [hstage] at hnone hbilled
        simp [AttemptStage.bill, attemptBill, responseBill, usageBill,
          inferenceBill, failedBill] at hnone hbilled
        exact hbilled hnone
    | _ =>
        rw [hstage] at hbilled
        simp [AttemptStage.bill, attemptBill, failedBill, failureBill]
          at hbilled
  have hinput : (made.map fun a => a.stage.bill .input) =
      made.map fun a => a.reported ProviderMetadata.inputTokens :=
    List.map_congr_left fun a ha => (h.clear a ha).input_eq.1
  have houtput : (made.map fun a => a.stage.bill .output) =
      made.map fun a => a.reported ProviderMetadata.outputTokens :=
    List.map_congr_left fun a ha => (h.clear a ha).input_eq.2
  rw [h.shows.input, h.shows.output, if_neg htokens, if_neg htokens, hinput,
    houtput]
  exact ⟨rfl, rfl⟩

theorem CountsBooked.usageInput_isSome_iff (h : CountsBooked counts made) :
    counts.usageInput.isSome = true ↔
      AllReport made ProviderMetadata.tokens := by
  by_cases hcomplete : counts.usageComplete = true
  · have hall := h.usageComplete_iff.mp hcomplete
    simp [QueryCounts.usageInput, hcomplete, (h.tokens_eq hall).1, hall]
  · have hnot : ¬ AllReport made ProviderMetadata.tokens := fun hall =>
      hcomplete (h.usageComplete_iff.mpr hall)
    simp [QueryCounts.usageInput, hcomplete, hnot]

/-- Usage and inference time are reported exactly. -/
theorem CountsBooked.usageExact {report : ProfileReport}
    (h : CountsBooked report.counts made) :
    (renderProfile report).UsageExact made where
  input := h.usageInput_isSome_iff
  output := by
    by_cases hcomplete : report.counts.usageComplete = true
    · have hall := h.usageComplete_iff.mp hcomplete
      simp [renderProfile, QueryCounts.usageOutput, hcomplete,
        (h.tokens_eq hall).2, hall]
    · have hnot : ¬ AllReport made ProviderMetadata.tokens := fun hall =>
        hcomplete (h.usageComplete_iff.mpr hall)
      simp [renderProfile, QueryCounts.usageOutput, hcomplete, hnot]
  sums := by
    intro hall
    have hcomplete := h.usageComplete_iff.mpr hall
    simpa [renderProfile, QueryCounts.usageInput, QueryCounts.usageOutput,
      hcomplete] using h.tokens_eq hall
  inference := by
    rw [← h.inferenceComplete_iff]
    by_cases hcomplete : report.counts.inferenceComplete = true
    · simp [renderProfile, hcomplete]
    · simp [renderProfile, hcomplete]

/-- The cost is shown exactly, where invalid responses are refused. -/
theorem CountsBooked.costExact {report : ProfileReport}
    (h : CountsBooked report.counts made)
    (hrefused : ∀ a ∈ made, (∀ response, a.stage = .recorded response →
        a.Valid response) ∧
      ∀ response, a.stage = .refused response → ¬ a.Valid response) :
    (renderProfile report).CostExact made := by
  have hfailed : ∀ a ∈ made, a.stage.bill .failed ≤ 1 :=
    fun a _ => a.stage.bill_le_one.2.2.2.2
  have hamount : report.costEstimate.amount.isSome = true ↔
      report.provider = some "typesafe" ∧ report.counts.failedRequests = 0 ∧
        report.counts.usageInput.isSome = true :=
    ProfileReport.amount_isSome_iff
  rw [h.usageInput_isSome_iff, h.shows.failed, h.capped_eq hfailed,
    sum_eq_zero_iff] at hamount
  refine hamount.trans (and_congr_right fun _ => ?_)
  constructor
  · rintro ⟨hzero, hall⟩
    refine ⟨hall, fun a ha outcome houtcome => ?_⟩
    obtain ⟨response, hresponse, -⟩ := hall.2 a ha
    obtain rfl := Option.some.inj (houtcome.symm.trans hresponse)
    refine ⟨response, rfl, ?_⟩
    have hnone := hzero a ha
    cases hstage : a.stage with
    | answered answer =>
        rw [hstage] at hresponse
        obtain rfl := Option.some.inj hresponse
        exact absurd hstage (h.clear a ha response)
    | recorded answer =>
        rw [hstage] at hresponse
        obtain rfl := Except.ok.inj (Option.some.inj hresponse)
        exact (hrefused a ha).1 answer hstage
    | refused answer =>
        rw [hstage] at hnone
        simp [AttemptStage.bill, attemptBill, responseBill, usageBill,
          inferenceBill, failedBill] at hnone
    | _ =>
        rw [hstage] at hresponse
        cases hresponse
  · rintro ⟨hall, hvalid⟩
    refine ⟨fun a ha => ?_, hall⟩
    by_contra hfailed
    rcases a.stage.failed_cases hfailed with ⟨error, herror⟩ |
      ⟨response, hstage⟩
    · obtain ⟨response, heq, -⟩ := hvalid a ha _ herror
      cases heq
    · obtain ⟨answer, heq, hanswer⟩ :=
        hvalid a ha (.ok response) (by rw [hstage]; rfl)
      obtain rfl := Except.ok.inj heq
      exact (hrefused a ha).2 response hstage hanswer

end Report

/-! ## The end of a query -/

/-- A query with rows leaves a snapshot when it ends. -/
theorem endQuery_snapshot {c : ConnectionRuntime} {scope : ℕ}
    {query : ActiveQuery} (hquery : c.activeFor scope = some query)
    (hrows : 0 < query.counts.inputRows) (now interrupt errorType : ℕ) :
    ∃ snapshot, (c.endQuery now interrupt errorType).lastQuery =
        some snapshot ∧ snapshot.queryId = scope ∧
      snapshot.counts = query.counts := by
  obtain ⟨hactive, hid⟩ := activeFor_some hquery
  simp [ConnectionRuntime.endQuery, hactive, hrows, hid]

/-- No call is between a response of the provider and its last record. -/
def QueryPool.AllBooked (calls : ι → QueryCall) (p : QueryPool ι) : Prop :=
  ∀ i, p.thread i ≠ .ret () →
    ∀ a ∈ Latest.latest i (attempts p.log), (calls i).Booked a

/-- All external attempts of the query are made by the executor. -/
def OnlyGroups (calls : ι → QueryCall) (scope : ℕ) (log : WorkerLog ι) :
    Prop :=
  ∀ entry ∈ attempts log, entry.2.Counts scope →
    ∃ call, calls entry.1 = .groups call

section Booked

variable {W : WireText} {c : ConnectionRuntime} {now : ℕ}
  {calls : ι → QueryCall} {p : QueryPool ι}

/-- Then every attempt is booked. -/
theorem QueryPool.booked
    (hreach : QueryPool.Reach c.nextQueryId (QueryPool.start W c now calls) p)
    (hbooked : QueryPool.AllBooked calls p) :
    ∀ entry ∈ attempts p.log, (calls entry.1).Booked entry.2 := by
  obtain ⟨hkept, hfollows⟩ := QueryPool.books hreach
  rintro ⟨i, a⟩ hmem
  rcases hkept.aged.latest_or hmem with hlatest | hclosed
  · by_cases hreturned : p.thread i = .ret ()
    · have hpost := hfollows i
      rw [hreturned] at hpost
      exact QueryCall.Closed.booked (hpost a hlatest)
    · exact hbooked i hreturned a hlatest
  · exact QueryCall.Closed.booked hclosed

theorem mem_externalAttempts {scope : ℕ} {log : WorkerLog ι}
    {a : ProviderAttempt} (h : a ∈ externalAttempts scope log) :
    ∃ i, (i, a) ∈ attempts log ∧ a.Counts scope := by
  obtain ⟨hmem, hcounts⟩ := List.mem_filter.mp h
  obtain ⟨⟨i, b⟩, hentry, rfl⟩ := List.mem_map.mp hmem
  exact ⟨i, hentry, by simpa using hcounts⟩

/-- If a query ends while no call is between a response and its last record,
and has made less than `2 ^ 64` external requests, its profile reports usage
and inference time exactly, and the cost of requests of the executor too. -/
theorem profile_exact
    (hreach : QueryPool.Reach c.nextQueryId (QueryPool.start W c now calls) p)
    (hbooked : QueryPool.AllBooked calls p)
    (hlength : (externalAttempts c.nextQueryId p.log).length < 2 ^ 64)
    (hrows : ∃ query, p.shared.activeFor c.nextQueryId = some query ∧
      0 < query.counts.inputRows) (ended interrupt errorType : ℕ) :
    ∃ snapshot,
      (p.shared.endQuery ended interrupt errorType).lastQuery =
        some snapshot ∧
      snapshot.queryId = c.nextQueryId ∧
      snapshot.serialize.UsageExact (externalAttempts c.nextQueryId p.log) ∧
      (OnlyGroups calls c.nextQueryId p.log →
        snapshot.serialize.CostExact
          (externalAttempts c.nextQueryId p.log)) := by
  obtain ⟨hkept, -⟩ := QueryPool.books hreach
  have hall := QueryPool.booked hreach hbooked
  obtain ⟨query, hquery, hpositive⟩ := hrows
  obtain ⟨shown, hshown, hshows⟩ := hkept.shows
  obtain rfl := Option.some.inj (hquery.symm.trans hshown)
  obtain ⟨snapshot, hsnapshot, hid, hcounts⟩ :=
    endQuery_snapshot hquery hpositive ended interrupt errorType
  have hbill : Latest.total (ProviderAttempt.bill c.nextQueryId)
      (attempts p.log) = fun item => ((externalAttempts c.nextQueryId
        p.log).map fun a => a.stage.bill item).sum :=
    funext fun item => total_bill_eq c.nextQueryId p.log item
  rw [hbill, ← hcounts] at hshows
  have hclear : ∀ a ∈ externalAttempts c.nextQueryId p.log,
      a.stage.Clear := by
    intro a ha response hstage
    obtain ⟨i, hentry, -, hexternal⟩ := mem_externalAttempts ha
    have hbook := hall (i, a) hentry
    dsimp only at hbook
    cases hcall : calls i with
    | groups call =>
        simp [hcall, QueryCall.Booked, hstage, hexternal] at hbook
    | row call =>
        simp [hcall, QueryCall.Booked, hstage, hexternal] at hbook
  have hmade : CountsBooked snapshot.counts
      (externalAttempts c.nextQueryId p.log) :=
    ⟨hshows, hclear, Nat.le_sub_one_of_lt hlength⟩
  refine ⟨snapshot, hsnapshot, hid, CountsBooked.usageExact hmade, ?_⟩
  intro hgroups
  refine CountsBooked.costExact hmade fun a ha => ⟨?_, ?_⟩
  · intro response hstage
    obtain ⟨i, hentry, hcount⟩ := mem_externalAttempts ha
    obtain ⟨call, hcall⟩ := hgroups (i, a) hentry hcount
    have hbook := hall (i, a) hentry
    dsimp only at hbook hcall
    simp only [hcall, QueryCall.Booked, hstage] at hbook
    exact hbook hcount.2
  · obtain ⟨i, hentry, -⟩ := mem_externalAttempts ha
    exact hkept.sound (i, a) hentry

end Booked

/-! ## Two small queries -/

/-- The first query of a connection, for three rows and under the known
price. -/
def pricedQuery : ConnectionRuntime :=
  (firstQuery.recordProfileContext 0 "typesafe" "jev-latest" false)
    |>.recordOptimizedRows 0 3 0 3 2

/-- What one call does alone in this query, for at most so many
operations. -/
theorem priced_reachable (env : Environment) (n : ℕ) {call : Call}
    {left : Run Unit} {s : Alone} {h : History}
    (hrun : ((QueryCall.groups call).program literalText).advance env.handle n
      (pricedQuery, 0) = some (left, s, h)) :
    ∃ p : QueryPool Unit, QueryPool.Reach 0
        (QueryPool.start literalText (.init 1) 0 fun _ => .groups call) p ∧
      p.shared = s.1 ∧ p.thread () = left ∧
      p.log = h.map fun event => ((), event) := by
  let start := QueryPool.start literalText (.init 1) 0
    fun _ : Unit => .groups call
  let named : QueryPool Unit :=
    { start with
      shared := firstQuery.recordProfileContext 0 "typesafe" "jev-latest"
        false }
  have hcontext : Pool.Step step (WithinQuery 0) start named :=
    .host (.quiet (.profileContext _ 0 "typesafe" "jev-latest" false))
  have hrows : Pool.Step step (WithinQuery 0) named
      { named with shared := pricedQuery } :=
    .host (.quiet (.optimizedRows _ 0 3 0 3 2))
  have hcall : Pool.Reachable step (WithinQuery 0)
      { named with shared := pricedQuery } _ :=
    Prog.advance_reachable (π := Prod.fst) (i := ()) env.handle_step hrun rfl
  refine ⟨_, Relation.ReflTransGen.head hcontext
    (Relation.ReflTransGen.head hrows hcall), rfl, ?_, ?_⟩
  · simp
  · simp [named, start, QueryPool.start]

/-- A provider which reports the usage of its answers. -/
def meteredEnvironment : Environment where
  now := id
  judge := fun _ _ requests => .ok
    { halfAnswers requests with
      metadata :=
        { effectiveModel := some "jev-latest"
          usage := some ⟨some 10, some 2⟩ } }

theorem profile_exact_texts :
    ∃ (p : QueryPool Unit) (snapshot : QuerySnapshot),
      QueryPool.Reach 0 (QueryPool.start literalText (.init 1) 0
        fun _ => .groups (textCall 0 .single none)) p ∧
      p.thread () = .ret () ∧
      (p.shared.endQuery 1 0 0).lastQuery = some snapshot ∧
      (externalAttempts 0 p.log).length = 2 ∧
      snapshot.serialize.UsageExact (externalAttempts 0 p.log) ∧
      snapshot.serialize.CostExact (externalAttempts 0 p.log) := by
  have hrun : ((((QueryCall.groups (textCall 0 .single none)).program
      literalText).advance meteredEnvironment.handle 100
        (pricedQuery, 0)).map fun last =>
          ((match last.1 with | .ret _ => true | .call _ _ => false),
            (last.2.1.1.activeFor 0).map (fun query =>
              query.counts.inputRows),
            (externalAttempts 0 (last.2.2.map fun event =>
              ((), event))).length)) = some (true, some 3, 2) := by
    decide
  obtain ⟨⟨left, s, h⟩, hrun, hlast⟩ := Option.map_eq_some_iff.mp hrun
  obtain ⟨p, hreach, hshared, hthread, hlog⟩ :=
    priced_reachable meteredEnvironment 100 hrun
  simp only [Prod.mk.injEq, ← hshared, ← hlog] at hlast
  obtain ⟨hleft, hrows, hlength⟩ := hlast
  have hreturned : p.thread () = .ret () := by
    rw [hthread]
    cases left with
    | ret _ => rfl
    | call op k => cases hleft
  obtain ⟨query, hquery, hthree⟩ := Option.map_eq_some_iff.mp hrows
  obtain ⟨snapshot, hsnapshot, -, husage, hcost⟩ := profile_exact
    (c := .init 1) hreach (fun _ hrunning => absurd hreturned hrunning)
    (by
      rw [show (ConnectionRuntime.init 1).nextQueryId = 0 from rfl, hlength]
      decide)
    ⟨query, hquery, by omega⟩ 1 0 0
  exact ⟨p, snapshot, hreach, hreturned, hsnapshot, hlength, husage,
    hcost fun _ _ _ => ⟨_, rfl⟩⟩

/-- A response with usage and without answers. -/
def emptyResponse : ProviderBatchResult where
  answers := []
  metadata := { usage := some ⟨some 10, some 2⟩ }

def emptyEnvironment : Environment where
  now := id
  judge := fun _ _ _ => .ok emptyResponse

/-- The query ends when the response to its only request is recorded, and its
failure is not: the profile shows a cost for an invalid response. -/
theorem invalid_response_priced :
    ∃ (p : QueryPool Unit) (snapshot : QuerySnapshot),
      QueryPool.Reach 0 (QueryPool.start literalText (.init 1) 0
        fun _ => .groups (textCall 0 .single none)) p ∧
      (p.shared.endQuery 1 0 0).lastQuery = some snapshot ∧
      snapshot.serialize.costEstimate.amount = some 10 ∧
      (∃ a, externalAttempts 0 p.log = [a] ∧
        a.stage.response = some (.ok emptyResponse) ∧
        ¬ a.Valid emptyResponse) ∧
      OnlyGroups (fun _ : Unit => .groups (textCall 0 .single none)) 0 p.log ∧
      ¬ snapshot.serialize.CostExact (externalAttempts 0 p.log) := by
  have hrun : ((((QueryCall.groups (textCall 0 .single none)).program
      literalText).advance emptyEnvironment.handle 10
        (pricedQuery, 0)).map fun last =>
          ((last.2.1.1.endQuery 1 0 0).lastQuery.map (fun snapshot =>
              snapshot.serialize.costEstimate.amount),
            (externalAttempts 0 (last.2.2.map fun event =>
              ((), event))).map fun a => (a.stage.response,
                decide (validateBatchResult a.requests emptyResponse =
                  .ok ())))) =
      some (some (some 10), [(some (.ok emptyResponse), false)]) := by
    decide
  obtain ⟨⟨left, s, h⟩, hrun, hlast⟩ := Option.map_eq_some_iff.mp hrun
  obtain ⟨p, hreach, hshared, -, hlog⟩ :=
    priced_reachable emptyEnvironment 10 hrun
  simp only [Prod.mk.injEq, ← hshared, ← hlog] at hlast
  obtain ⟨hamount, hmade⟩ := hlast
  obtain ⟨snapshot, hsnapshot, hamount⟩ := Option.map_eq_some_iff.mp hamount
  obtain ⟨a, hattempts, hmap⟩ := List.map_eq_singleton_iff.mp hmade
  obtain ⟨hresponse, hinvalid⟩ := Prod.mk.inj hmap
  have hnot : ¬ a.Valid emptyResponse :=
    fun hvalid => of_decide_eq_false hinvalid hvalid
  refine ⟨p, snapshot, hreach, hsnapshot, hamount, ⟨a, hattempts, hresponse,
    hnot⟩, fun _ _ _ => ⟨_, rfl⟩, ?_⟩
  intro hexact
  have hshown : snapshot.serialize.costEstimate.amount.isSome = true := by
    rw [hamount]
    rfl
  obtain ⟨-, -, hvalid⟩ := hexact.mp hshown
  obtain ⟨response, heq, hresponseValid⟩ :=
    hvalid a (by simp [hattempts]) _ hresponse
  obtain rfl := Except.ok.inj heq
  exact hnot hresponseValid

end DuckJeu
