import DuckJeu.Executor.Batch
import DuckJeu.Executor.Single
import DuckJeu.Executor.Unrecorded
import DuckJeu.Support.Latest

/-!
# Attempts and their records

A request to the provider is recorded in several steps: as an attempt before
it is sent, as a response or as a failed request after it, and as a failed
request also when the response is not valid.  Here an attempt is followed
through these steps.  Between two attempts of a call the earlier one is
accounted for.
-/

namespace DuckJeu

open Effects

/-! ## Attempts -/

/-- How far an attempt has come. -/
inductive AttemptStage where
  | asked
  | answered (response : Except JudgmentError ProviderBatchResult)
  | recorded (response : ProviderBatchResult)
  | refused (response : ProviderBatchResult)
  | failing (error : JudgmentError)
  | failed (error : JudgmentError)

/-- What the provider has returned, if it has. -/
def AttemptStage.response :
    AttemptStage → Option (Except JudgmentError ProviderBatchResult)
  | .asked => none
  | .answered response => some response
  | .recorded response => some (.ok response)
  | .refused response => some (.ok response)
  | .failing error => some (.error error)
  | .failed error => some (.error error)

/-- The stage after an event of the call. -/
def AttemptStage.note (stage : AttemptStage) : ExecEvent → AttemptStage
  | ⟨.judge _ _ _, response⟩ =>
      match stage with
      | .asked => .answered response
      | _ => stage
  | ⟨.recordProviderResponse _ _ _ _, _⟩ =>
      match stage with
      | .answered (.ok response) => .recorded response
      | _ => stage
  | ⟨.recordFailedRequest _, _⟩ =>
      match stage with
      | .answered (.error error) => .failing error
      | .recorded response => .refused response
      | _ => stage
  | ⟨.recordProviderFailure _ _ _, _⟩ =>
      match stage with
      | .failing error => .failed error
      | _ => stage
  | _ => stage

/-- One attempt, from its record on. -/
structure ProviderAttempt where
  scope : ℕ
  requests : List JudgmentRequest
  external : Bool
  stage : AttemptStage

def ProviderAttempt.note (a : ProviderAttempt) (event : ExecEvent) :
    ProviderAttempt :=
  { a with stage := a.stage.note event }

/-- The attempt which an event begins. -/
def ExecEvent.attempt? : ExecEvent → Option ProviderAttempt
  | ⟨.recordProviderAttempt scope requests external, _⟩ =>
      some ⟨scope, requests, external, .asked⟩
  | _ => none

/-- The attempts of all workers, the newest first. -/
def attempts {ι : Type} [DecidableEq ι] :
    Log ι Op Res → List (ι × ProviderAttempt)
  | [] => []
  | (i, event) :: older =>
      match ExecEvent.attempt? event with
      | some a => (i, a) :: attempts older
      | none =>
          Latest.change i (fun a => a.note event) (attempts older)

/-- The response passes the validation for the requests of the attempt. -/
def ProviderAttempt.Valid (a : ProviderAttempt)
    (response : ProviderBatchResult) : Prop :=
  validateBatchResult a.requests response = .ok ()

/-- The records about the response are made. -/
def ProviderAttempt.Settled (a : ProviderAttempt) : Prop :=
  match a.stage with
  | .answered (.error _) => a.external = false
  | .recorded _ => True
  | .refused _ => True
  | .failed _ => True
  | _ => False

/-- All records are made, that of an invalid response included. -/
def ProviderAttempt.Accounted (a : ProviderAttempt) : Prop :=
  a.Settled ∧ ∀ response, a.stage = .recorded response →
    a.external = true → a.Valid response

/-! ## The protocol of the records -/

/-- Records are made in order, and no attempt begins before the last one is
closed. -/
def billing (Closed : ProviderAttempt → Prop) :
    Protocol Op Res (Option ProviderAttempt) where
  note := fun g op r =>
    match ExecEvent.attempt? ⟨op, r⟩ with
    | some a => some a
    | none => g.map fun a => a.note ⟨op, r⟩
  Allowed := fun g op =>
    match op with
    | .recordProviderAttempt _ _ _ => ∀ a ∈ g, Closed a
    | .judge _ _ requests =>
        ∀ a ∈ g, a.stage = .asked ∧ a.requests = requests
    | .recordProviderResponse scope metadata _ external =>
        ∃ a response, g = some a ∧ a.stage = .answered (.ok response) ∧
          a.scope = scope ∧ a.external = external ∧
          response.metadata = metadata
    | .recordFailedRequest scope =>
        ∃ a, g = some a ∧ a.scope = scope ∧ a.external = true ∧
          ((∃ error, a.stage = .answered (.error error)) ∨
            ∃ response, a.stage = .recorded response ∧ ¬ a.Valid response)
    | .recordProviderFailure scope _ external =>
        ∃ a error, g = some a ∧ a.stage = .failing error ∧ a.scope = scope ∧
          a.external = external
    | _ => True
  Admits := fun _ _ _ => True

/-- The ledger of a worker is its latest attempt. -/
theorem billing_replay {ι : Type} [DecidableEq ι]
    (Closed : ProviderAttempt → Prop) (log : Log ι Op Res) (i : ι) :
    (billing Closed).replay none (log.of i) =
      Latest.latest i (attempts log) := by
  induction log with
  | nil => rfl
  | cons entry log ih =>
      obtain ⟨j, event⟩ := entry
      rw [attempts]
      by_cases hij : j = i
      · subst hij
        rw [Log.of_cons_self, Protocol.replay_cons, ih]
        simp only [billing]
        cases hattempt : ExecEvent.attempt? event with
        | some a => rw [Latest.latest_cons_self]
        | none => rw [Latest.latest_change_self]
      · rw [Log.of_cons_ne hij, ih]
        cases hattempt : ExecEvent.attempt? event with
        | some a => rw [Latest.latest_cons_ne hij]
        | none => rw [Latest.latest_change_ne hij]

/-- The operations which belong to the records of an attempt. -/
def Op.Books : Op → Bool
  | .recordProviderAttempt _ _ _ => true
  | .judge _ _ _ => true
  | .recordProviderResponse _ _ _ _ => true
  | .recordFailedRequest _ => true
  | .recordProviderFailure _ _ _ => true
  | _ => false

section Unbilled

variable {Closed : ProviderAttempt → Prop} {I : Option ProviderAttempt → Prop}

/-- The other operations leave the ledger alone. -/
theorem billing_ignores {op : Op} (hop : op.Books = false) :
    (billing Closed).Ignores op := by
  intro g
  cases op with
  | recordProviderAttempt => cases hop
  | judge => cases hop
  | recordProviderResponse => cases hop
  | recordFailedRequest => cases hop
  | recordProviderFailure => cases hop
  | _ =>
      refine ⟨trivial, fun r => ?_⟩
      cases g with
      | none => rfl
      | some a => rfl

theorem billing_unrecorded (op : Op) (hop : op.Unrecorded = true) :
    (billing Closed).Ignores op := by
  refine billing_ignores ?_
  cases op with
  | recordProviderAttempt => cases hop
  | judge => cases hop
  | recordProviderResponse => cases hop
  | recordFailedRequest => cases hop
  | recordProviderFailure => cases hop
  | _ => rfl

theorem perform_unbilled {op : Op} (hop : op.Books = false) :
    Keeps (billing Closed) I (perform op) := (billing_ignores hop).keeps

theorem claimQueryEntry_unbilled {scope : ℕ} {identity : JudgmentIdentity} :
    Keeps (billing Closed) I (claimQueryEntry scope identity) :=
  keeps_mk fun _ hg => (billing_ignores rfl).follows hg

theorem consultCache_unbilled {scope entry : ℕ}
    {cacheIdentity : Option JudgmentIdentity}
    {cachePolicy : Option CachePolicy} :
    Keeps (billing Closed) I
      (consultCache scope entry cacheIdentity cachePolicy) :=
  consultCache_ignored billing_unrecorded fun _ => billing_ignores rfl

theorem claimGroup_unbilled {provider : Provider} {limits : ExecutionLimits}
    {cachePolicy : Option CachePolicy} {claimed : Claimed}
    {group : JudgmentGroup} :
    Keeps (billing Closed) I
      (claimGroup provider limits cachePolicy claimed group) := by
  unfold claimGroup
  split
  · exact keeps_throw _
  split
  · exact keeps_throw _
  dsimp only
  refine claimQueryEntry_unbilled.bind fun claim => ?_
  refine (queryCancellation_ignored billing_unrecorded).bind fun cancelled => ?_
  split
  · refine consultCache_unbilled.bind fun found => ?_
    cases found with
    | none => exact keeps_pure _
    | some result => exact keeps_pure _
  · exact keeps_pure _

theorem claimGroups_unbilled {provider : Provider} {limits : ExecutionLimits}
    {cachePolicy : Option CachePolicy} {claimed : Claimed}
    {groups : List JudgmentGroup} :
    Keeps (billing Closed) I
      (claimGroups provider limits cachePolicy claimed groups) := by
  induction groups generalizing claimed with
  | nil => exact keeps_pure claimed
  | cons group rest ih => exact claimGroup_unbilled.bind fun next => ih

end Unbilled

/-! ## The executor accounts for its attempts -/

/-- The latest attempt, if there is one, is accounted for. -/
def LastAccounted (g : Option ProviderAttempt) : Prop :=
  ∀ a ∈ g, a.Accounted

abbrev accounting := billing ProviderAttempt.Accounted

section Attempts

variable {limits : ExecutionLimits} {external : Bool} {method : ProviderCall}
  {carried : List JudgmentIdentity} {requests : List JudgmentRequest}

/-- The records after the response leave the attempt accounted for. -/
theorem recordFailure_accounted {α : Type} {attempt : Attempt α}
    {a : ProviderAttempt} (hscope : a.scope = limits.queryScope)
    (hexternal : a.external = external)
    (hstage : (∃ error, attempt = ⟨.error error, true, false,
        attempt.providerElapsed⟩ ∧
          ∃ failure, a.stage = .answered (.error failure)) ∨
      ∃ response, a.stage = .recorded response ∧
        attempt.attempted = true ∧ attempt.responseReceived = true ∧
        ((∃ result, attempt.outcome = .ok result) ↔ a.Valid response)) :
    Follows accounting (recordFailure limits external attempt)
      (fun _ => LastAccounted) (some a) := by
  obtain ⟨scope, requests, sent, stage⟩ := a
  obtain ⟨outcome, attempted, received, elapsed⟩ := attempt
  dsimp only at hscope hexternal hstage
  subst hscope hexternal
  unfold recordFailure
  rcases hstage with ⟨error, heq, failure, rfl⟩ |
    ⟨response, rfl, rfl, rfl, hvalid⟩
  · obtain ⟨rfl, rfl, rfl⟩ : outcome = .error error ∧ attempted = true ∧
        received = false := by
      simpa using heq
    by_cases hsent : sent = true
    · subst hsent
      simp only [Bool.and_self, if_true, Bool.false_eq_true, if_false,
        follows_bind, follows_perform]
      refine ⟨⟨_, rfl, rfl, rfl, Or.inl ⟨failure, rfl⟩⟩, fun _ _ => ?_⟩
      refine ⟨⟨_, failure, rfl, rfl, rfl, rfl⟩, fun _ _ => ?_⟩
      rintro a ⟨⟩
      exact ⟨trivial, fun response hstage => by cases hstage⟩
    · rw [Bool.not_eq_true] at hsent
      subst hsent
      rintro a ⟨⟩
      exact ⟨rfl, fun response hstage => by cases hstage⟩
  · cases outcome with
    | ok result =>
        rintro a ⟨⟩
        refine ⟨trivial, ?_⟩
        rintro _ ⟨⟩ -
        exact hvalid.mp ⟨result, rfl⟩
    | error error =>
        have hinvalid : ¬ ProviderAttempt.Valid
            ⟨limits.queryScope, requests, sent, .recorded response⟩
              response := fun h => by
          obtain ⟨result, hresult⟩ := hvalid.mpr h
          cases hresult
        by_cases hsent : sent = true
        · subst hsent
          simp only [Bool.and_self, if_true, follows_bind, follows_perform]
          refine ⟨⟨_, rfl, rfl, rfl, Or.inr ⟨response, rfl, hinvalid⟩⟩,
            fun _ _ => ?_⟩
          rintro a ⟨⟩
          exact ⟨trivial, fun response hstage => by cases hstage⟩
        · rw [Bool.not_eq_true] at hsent
          subst hsent
          rintro a ⟨⟩
          exact ⟨trivial, fun _ _ hfalse => by cases hfalse⟩

/-- An attempt whose response is processed without other records. -/
theorem attemptRecorded_accounted {α : Type}
    {finish : ProviderBatchResult → Exec α}
    (hfinish : ∀ response g, Secures accounting (finish response)
      (fun _ g' => g' = g ∧ validateBatchResult requests response = .ok ())
      (fun _ g' => g' = g ∧ validateBatchResult requests response ≠ .ok ()) g)
    {g : Option ProviderAttempt} (hg : LastAccounted g) :
    Follows accounting
      (attemptRecorded limits external method carried requests finish)
      (fun _ => LastAccounted) g := by
  unfold attemptRecorded attemptProvider
  simp only [follows_bind, follows_perform]
  refine ⟨trivial, ?_⟩
  have hquiet : ∀ {op : Op} {r : Res op}, op.Books = false →
      accounting.note g op r = g := fun hop => (billing_ignores hop g).2 _
  rintro (error | flag) -
  · rw [hquiet rfl]
    exact hg
  simp only [follows_bind, follows_perform]
  refine ⟨trivial, ?_⟩
  rintro (error | granted) -
  · rw [hquiet rfl, hquiet rfl]
    exact hg
  simp only [follows_bind, follows_perform]
  rw [hquiet rfl, hquiet rfl]
  refine ⟨hg, fun _ _ => ⟨trivial, fun started _ => ⟨?_, fun response _ => ?_⟩⟩⟩
  · rintro a ⟨⟩
    exact ⟨rfl, rfl⟩
  refine ⟨trivial, fun ended _ => ?_⟩
  cases response with
  | error failure =>
      simp only [follows_bind, follows_perform, follows_pure]
      refine ⟨trivial, fun _ _ => ?_⟩
      exact recordFailure_accounted rfl rfl
        (Or.inl ⟨failure, rfl, failure, rfl⟩)
  | ok response =>
      simp only [follows_bind, follows_perform, follows_pure]
      refine ⟨⟨_, response, rfl, rfl, rfl, rfl, rfl⟩, fun _ _ => ?_⟩
      refine Follows.mono (hfinish response _) ?_
      rintro (error | result) g' ⟨rfl, hvalid⟩
      · refine ⟨trivial, fun _ _ => ?_⟩
        refine recordFailure_accounted rfl rfl
          (Or.inr ⟨response, rfl, rfl, rfl, ?_⟩)
        exact iff_of_false (by simp) hvalid
      · refine ⟨trivial, fun _ _ => ?_⟩
        refine recordFailure_accounted rfl rfl
          (Or.inr ⟨response, rfl, rfl, rfl, ?_⟩)
        exact iff_of_true ⟨result, rfl⟩ hvalid

end Attempts

section Executor

variable {provider : Provider} {limits : ExecutionLimits}
  {cachePolicy : Option CachePolicy}

theorem finishSingle_accounted (group : JudgmentGroup)
    (cacheIdentity : Option JudgmentIdentity) (response : ProviderBatchResult)
    (g : Option ProviderAttempt) :
    Secures accounting
      (finishSingle group provider cacheIdentity cachePolicy response)
      (fun _ g' => g' = g ∧
        validateBatchResult [group.request] response = .ok ())
      (fun _ g' => g' = g ∧
        validateBatchResult [group.request] response ≠ .ok ()) g := by
  unfold finishSingle
  split
  · rename_i error hinvalid
    exact ⟨rfl, by simp [hinvalid]⟩
  rename_i hvalid
  obtain ⟨result, hanswers, hresult⟩ := validateBatchResult_singleton hvalid
  unfold ValidFor at hresult
  have hcached : Secures accounting (cacheValidated provider group
      cacheIdentity cachePolicy response.metadata.effectiveModel result)
      (fun _ g' => g' = g) (fun _ _ => False) g :=
    cacheValidated_returns billing_unrecorded rfl
  simp only [hanswers, hresult, secures_bind, secures_pure]
  exact hcached.mono (fun _ g' heq => ⟨heq, hvalid⟩)
    fun _ _ hfalse => hfalse.elim

theorem finishBatch_accounted (batch : List Leader)
    (response : ProviderBatchResult) (g : Option ProviderAttempt) :
    Secures accounting (finishBatch batch (requestsForGroups batch) response)
      (fun _ g' => g' = g ∧
        validateBatchResult (requestsForGroups batch) response = .ok ())
      (fun _ g' => g' = g ∧
        validateBatchResult (requestsForGroups batch) response ≠ .ok ()) g := by
  unfold finishBatch
  split
  · rename_i error hinvalid
    exact ⟨rfl, by simp [hinvalid]⟩
  rename_i hvalid
  obtain ⟨results, hresults, -, -⟩ := collectResults_ok hvalid
    (batch.zip (requestsForGroups batch))
    fun pair hpair => (List.of_mem_zip hpair).2
  rw [hresults]
  exact ⟨rfl, hvalid⟩

theorem executeOneGroup_accounted (group : JudgmentGroup) :
    Keeps accounting LastAccounted
      (executeOneGroup group provider limits cachePolicy) := by
  unfold executeOneGroup
  dsimp only
  refine claimQueryEntry_unbilled.bind fun claim => ?_
  refine (queryCancellation_ignored billing_unrecorded).bind fun cancelled => ?_
  split
  · unfold executeOwned
    refine consultCache_unbilled.bind fun found => ?_
    cases found with
    | some result => exact keeps_pure result
    | none =>
        dsimp only
        split
        · exact (perform_unbilled rfl).bind fun _ => keeps_throw _
        · refine Keeps.bind (keeps_lift fun g hg => ?_) fun outcome => ?_
          · exact attemptRecorded_accounted (finishSingle_accounted group _) hg
          · refine (perform_unbilled rfl).bind fun _ => ?_
            exact keeps_mk fun g hg => hg
  · exact waitEntry_ignored billing_unrecorded

theorem executeEach_accounted (output : List (RowTarget × JudgmentResult))
    (groups : List JudgmentGroup) :
    Keeps accounting LastAccounted
      (executeEach provider limits cachePolicy output groups) := by
  induction groups generalizing output with
  | nil => exact keeps_pure output
  | cons group rest ih =>
      exact (executeOneGroup_accounted group).bind fun result => ih _

theorem dispatch_accounted (batch : List Leader)
    (output : List (RowTarget × JudgmentResult)) :
    Keeps accounting LastAccounted
      (dispatch provider limits cachePolicy batch output) := by
  unfold dispatch
  dsimp only
  refine Keeps.bind (keeps_lift fun g hg => ?_) fun attempt => ?_
  · exact attemptRecorded_accounted (finishBatch_accounted batch) hg
  · rcases attempt with error | ⟨results, effectiveModel⟩
    · exact (failEntries_ignored billing_unrecorded).bind
        fun _ => keeps_throw error
    · exact publish_ignored billing_unrecorded

theorem dispatchOrFail_accounted (order : LeaderOrder)
    (leaders batch : List Leader)
    (output : List (RowTarget × JudgmentResult)) :
    Keeps accounting LastAccounted
      (dispatchOrFail provider limits cachePolicy order leaders batch
        output) := by
  unfold dispatchOrFail
  refine Keeps.bind (keeps_lift fun g hg => ?_) fun outcome => ?_
  · exact (dispatch_accounted batch output).run hg
  · cases outcome with
    | error error => exact failLeaders_ignored billing_unrecorded
    | ok output => exact keeps_pure output

theorem executePartition_accounted (order : LeaderOrder)
    (leaders : List Leader) (maxJudgments : ℕ) (current : List Leader)
    (output : List (RowTarget × JudgmentResult)) (rest : List Leader) :
    Keeps accounting LastAccounted
      (executePartition provider limits cachePolicy order leaders maxJudgments
        current output rest) := by
  induction rest generalizing current output with
  | nil =>
      rw [executePartition]
      split
      · exact keeps_pure output
      · exact dispatchOrFail_accounted order leaders current output
  | cons leader rest ih =>
      rw [executePartition]
      split
      · split
        · exact failLeaders_ignored billing_unrecorded
        · refine (dispatchOrFail_accounted order leaders current output).bind
            fun output => ?_
          split
          · exact failLeaders_ignored billing_unrecorded
          · exact ih _ _
      · exact ih _ _

theorem executePartitions_accounted (order : LeaderOrder)
    (leaders : List Leader) (maxJudgments : ℕ)
    (output : List (RowTarget × JudgmentResult))
    (partitions : List (List Leader)) :
    Keeps accounting LastAccounted
      (executePartitions provider limits cachePolicy order leaders maxJudgments
        output partitions) := by
  induction partitions generalizing output with
  | nil => exact keeps_pure output
  | cons partition rest ih =>
      exact (executePartition_accounted order leaders maxJudgments [] output
        partition).bind fun output => ih output

/-- A call of the executor accounts for all its attempts. -/
theorem Call.accounted (call : Call) :
    Follows accounting call.program (fun _ => LastAccounted) none := by
  have hkeeps : Keeps accounting LastAccounted call.exec := by
    unfold Call.exec
    cases call.mode with
    | single =>
        dsimp only [executeGroups]
        split
        · exact keeps_throw _
        · exact executeEach_accounted [] call.groups
    | batched maxJudgments order =>
        dsimp only [executeBatchGroups]
        split
        · exact keeps_throw _
        split
        · exact keeps_throw _
        split
        · exact keeps_throw _
        refine claimGroups_unbilled.bind fun claimed => ?_
        exact (executePartitions_accounted order claimed.leaders _ _
          claimed.partitions).bind
            fun output => awaitFollowers_ignored billing_unrecorded
  exact hkeeps.run fun a ha => by cases ha

end Executor

end DuckJeu
