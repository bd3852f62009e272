import DuckJeu.Effects.Extension
import DuckJeu.Executor.Results

/-!
# Where errors come from

A call makes up errors about its own settings only.  Every other error with
which it fails was handed to it: by its query, by the provider, or by the
owner of an entry which it waited for.  An owner fails its entries before it
waits, so that it never passes on what it was handed by another owner.
-/

namespace DuckJeu

open Effects ConnectionRuntime

/-! ## Own errors -/

/-- The error was handed out by the operation, or is that of a response which
was not accepted. -/
def ExecEvent.Raises (error : JudgmentError) : ExecEvent → Prop
  | ⟨.claimQueryEntry _ _, r⟩ => r = .error error
  | ⟨.queryCancellation _, r⟩ => r = .error error
  | ⟨.acquirePermit _ _, r⟩ => r = .error error
  | ⟨.judge _ _ requests, .ok response⟩ =>
      validateBatchResult requests response = .error error
  | ⟨.judge _ _ _, .error raised⟩ => raised = error
  | _ => False

namespace Call

/-- The errors which the settings of a call have for its groups. -/
inductive Faults (call : Call) : JudgmentError → Prop
  | inflight (hzero : call.limits.maxInflight = 0) :
      Faults call (.configuration "duckjeu_max_inflight must be positive")
  | singleBytes (hmode : call.mode = .single)
      (hzero : call.limits.maxRequestBytes = 0) :
      Faults call
        (.configuration "duckjeu_max_request_bytes must be positive")
  | unverified {maxJudgments : ℕ} {order : LeaderOrder}
      (hmode : call.mode = .batched maxJudgments order)
      (hunverified : call.provider.capabilities.multiStateBatch ≠ .verified) :
      Faults call (.configuration
        "provider multi-state batch capability is not verified")
  | batchLimits {maxJudgments : ℕ} {order : LeaderOrder}
      (hmode : call.mode = .batched maxJudgments order)
      (hzero : maxJudgments = 0 ∨ call.limits.maxRequestBytes = 0) :
      Faults call (.configuration
        "batch judgment and request byte limits must be positive")
  | serviceLimit {maxJudgments : ℕ} {order : LeaderOrder}
      (hmode : call.mode = .batched maxJudgments order)
      (hzero : batchLimit call.provider maxJudgments = 0) :
      Faults call (.configuration
        "provider advertises a zero judgment batch limit")
  | kind {maxJudgments : ℕ} {order : LeaderOrder} {group : JudgmentGroup}
      (hmode : call.mode = .batched maxJudgments order)
      (hgroup : group ∈ call.groups)
      (hkind : call.provider.capabilities.supports group.request.kind ≠
        .verified) :
      Faults call (.configuration
        "provider capability for this question type is not verified")
  | choices {maxJudgments : ℕ} {order : LeaderOrder} {group : JudgmentGroup}
      (hmode : call.mode = .batched maxJudgments order)
      (hgroup : group ∈ call.groups)
      (hchoices : call.provider.withinChoiceLimit group.request.choices.length =
        false) :
      Faults call (.configuration
        "choice count exceeds the verified provider limit")
  | policy {policy : CachePolicy} {error : JudgmentError}
      (hpolicy : call.cachePolicy = some policy)
      (hinvalid : policy.validate = .error error) : Faults call error
  | tooLarge {group : JudgmentGroup} (hgroup : group ∈ call.groups)
      (hlarge : call.TooLarge group) :
      Faults call (.configuration
        "one judgment exceeds duckjeu_max_request_bytes")
  | batchTooLarge {maxJudgments : ℕ} {order : LeaderOrder}
      {group : JudgmentGroup} (hmode : call.mode = .batched maxJudgments order)
      (hgroup : group ∈ call.groups) (hlarge : call.TooLarge group) :
      Faults call (.configuration
        "one judgment exceeds the configured batch limits")

variable (call : Call)

/-- The error is one of the settings, or was handed to the call otherwise than
by an entry. -/
def Owns (h : History) (error : JudgmentError) : Prop :=
  call.Faults error ∨ ∃ event ∈ h, ExecEvent.Raises error event

/-- The call fails entries with errors of its own only. -/
def blaming : Protocol Op Res History :=
  Protocol.ofHistory
    (fun h op => ∀ entry error, op = .complete entry (.error error) →
      call.Owns h error)
    fun _ _ _ => True

/-- Whatever `x` raises is an error of the call's own. -/
def Attributes {α : Type} (x : Exec α) : Prop :=
  ∀ h, Secures call.blaming x (fun _ _ => True) (fun error h' =>
    call.Owns h' error) h

end Call

section Attributes

variable {call : Call} {h h' : History} {error : JudgmentError} {α β : Type}

theorem Call.Owns.mono (howns : call.Owns h error) (hsuffix : h <:+ h') :
    call.Owns h' error := by
  rcases howns with hfaults | ⟨event, hmem, hraises⟩
  · exact Or.inl hfaults
  · exact Or.inr ⟨event, hsuffix.subset hmem, hraises⟩

/-- Programs only add to the history. -/
theorem follows_suffix {p : Run α} {Q : α → History → Prop}
    (hfollows : Follows call.blaming p Q h) :
    Follows call.blaming p (fun a h' => Q a h' ∧ h <:+ h') h :=
  hfollows.frame (R := (· <:+ ·)) List.suffix_refl
    (fun _ _ _ hab hbc => hab.trans hbc) fun _ _ _ => List.suffix_cons _ _

/-- Operations which fail no entry are free. -/
theorem follows_blameless {op : Op} {Q : Res op → History → Prop}
    (hop : ∀ entry error, op ≠ .complete entry (.error error))
    (hQ : ∀ r, Q r (⟨op, r⟩ :: h)) :
    Follows call.blaming (Prog.perform op) Q h :=
  ⟨fun entry error heq => absurd heq (hop entry error), fun r _ => hQ r⟩

theorem attributes_pure (a : α) : call.Attributes (pure a) := fun _ => trivial

theorem Call.Attributes.bind {x : Exec α} {f : α → Exec β}
    (hx : call.Attributes x) (hf : ∀ a, call.Attributes (f a)) :
    call.Attributes (x >>= f) := by
  intro h
  rw [secures_bind]
  exact (hx h).mono (fun a h' _ => hf a h') fun _ _ howns => howns

theorem attributes_perform {op : Op}
    (hop : ∀ entry error, op ≠ .complete entry (.error error)) :
    call.Attributes (perform op) := by
  intro h
  rw [perform, secures_lift]
  exact follows_blameless hop fun _ => trivial

/-- An entry fails with an error which the call has. -/
theorem fail_secures {entry : ℕ} (howns : call.Owns h error) :
    Secures call.blaming
      (perform (.complete entry (.error error)) >>= fun _ =>
        (throw error : Exec α))
      (fun _ _ => True) (fun error h' => call.Owns h' error) h := by
  rw [secures_bind, perform, secures_lift, follows_perform]
  refine ⟨?_, fun r _ => howns.mono (List.suffix_cons _ _)⟩
  rintro _ _ heq
  obtain ⟨rfl, hsame⟩ := Op.complete.inj heq
  obtain rfl := Except.error.inj hsame
  exact howns

theorem failEntries_secures_own {leaders : List Leader}
    (howns : call.Owns h error) :
    Secures call.blaming (failEntries error leaders)
      (fun _ h' => call.Owns h' error) (fun _ _ => False) h := by
  induction leaders generalizing h with
  | nil => exact howns
  | cons leader rest ih =>
      rw [failEntries, secures_bind, perform, secures_lift, follows_perform]
      refine ⟨?_, fun r _ => ih (howns.mono (List.suffix_cons _ _))⟩
      rintro _ _ heq
      obtain ⟨-, hsame⟩ := Op.complete.inj heq
      obtain rfl := Except.error.inj hsame
      exact howns

theorem failLeaders_secures_own {order : LeaderOrder} {leaders : List Leader}
    (howns : call.Owns h error) :
    Secures call.blaming (failLeaders order leaders error : Exec α)
      (fun _ _ => True) (fun error h' => call.Owns h' error) h := by
  unfold failLeaders
  rw [secures_bind]
  exact (failEntries_secures_own howns).mono (fun _ _ howns => howns)
    fun _ _ hfalse => hfalse.elim

end Attributes

/-! ## Shared steps -/

section Steps

variable {call : Call} {α : Type}

theorem claimQueryEntry_attributes (scope : ℕ) (identity : JudgmentIdentity) :
    call.Attributes (claimQueryEntry scope identity) := by
  intro h
  refine follows_blameless (by simp) fun r => ?_
  cases r with
  | ok _ => trivial
  | error error => exact Or.inr ⟨_, List.mem_cons_self .., rfl⟩

theorem queryCancellation_attributes (scope : ℕ) :
    call.Attributes (queryCancellation scope) := by
  intro h
  refine follows_blameless (by simp) fun r => ?_
  cases r with
  | ok _ => trivial
  | error error => exact Or.inr ⟨_, List.mem_cons_self .., rfl⟩

theorem consultCache_attributes (scope entry : ℕ)
    (cacheIdentity : Option JudgmentIdentity) :
    call.Attributes
      (consultCache scope entry cacheIdentity call.cachePolicy) := by
  unfold consultCache
  split
  · exact attributes_pure none
  rename_i policy hpolicy
  split
  · rename_i error hinvalid
    exact fun _ => fail_secures (Or.inl (.policy hpolicy hinvalid))
  · refine (attributes_perform (by simp)).bind fun now =>
      (attributes_perform (by simp)).bind fun cached => ?_
    split
    · exact attributes_pure none
    · exact (attributes_perform (by simp)).bind fun _ =>
        (attributes_perform (by simp)).bind fun _ => attributes_pure _

theorem cacheValidated_attributes (group : JudgmentGroup)
    (cacheIdentity : Option JudgmentIdentity) (model : Option String)
    (result : JudgmentResult) :
    call.Attributes (cacheValidated call.provider group cacheIdentity
      call.cachePolicy model result) := by
  unfold cacheValidated
  split
  · split
    · exact (attributes_perform (by simp)).bind fun _ =>
        (attributes_perform (by simp)).bind fun _ => attributes_pure _
    · exact attributes_pure _
  · exact attributes_pure _

theorem recordFailure_blameless (external : Bool) (attempt : Attempt α)
    (h : History) :
    Follows call.blaming (recordFailure call.limits external attempt)
      (fun _ h' => h <:+ h') h := by
  refine (follows_suffix (Q := fun _ _ => True) ?_).mono fun _ _ hpost =>
    hpost.2
  unfold recordFailure
  split
  · trivial
  split
  · rw [follows_bind]
    refine follows_blameless (by simp) fun _ => ?_
    split
    · trivial
    · exact follows_blameless (by simp) fun _ => trivial
  · trivial

/-- An attempt fails with an error which was handed to it, if the processing of
a response does. -/
theorem attemptRecorded_attributes {external : Bool} {method : ProviderCall}
    {carried : List JudgmentIdentity} {requests : List JudgmentRequest}
    {finish : ProviderBatchResult → Exec α}
    (hfinish : ∀ response h,
      (⟨.judge method carried requests, .ok response⟩ : ExecEvent) ∈ h →
      Secures call.blaming (finish response) (fun _ _ => True)
        (fun error h' => call.Owns h' error) h) (h : History) :
    Follows call.blaming
      (attemptRecorded call.limits external method carried requests finish)
      (fun outcome h' => ∀ error, outcome = .error error → call.Owns h' error)
      h := by
  have hraised : ∀ {event : ExecEvent} {older : History}
      {raised : JudgmentError}, ExecEvent.Raises raised event →
      ∀ error, (.error raised : Except JudgmentError α) = .error error →
        call.Owns (event :: older) error := by
    rintro event older raised hraises _ ⟨⟩
    exact Or.inr ⟨event, List.mem_cons_self .., hraises⟩
  unfold attemptRecorded
  rw [follows_bind]
  suffices hattempt : Follows call.blaming
      (attemptProvider call.limits external method carried requests finish)
      (fun attempt h' => ∀ error, attempt.outcome = .error error →
        call.Owns h' error) h by
    refine hattempt.mono fun attempt h₁ howns => ?_
    rw [follows_bind]
    refine (recordFailure_blameless external attempt h₁).mono ?_
    exact fun _ _ hsuffix error heq => (howns error heq).mono hsuffix
  unfold attemptProvider
  rw [follows_bind]
  refine follows_blameless (by simp) fun flag? => ?_
  cases flag? with
  | error raised => exact hraised rfl
  | ok flag =>
      dsimp only
      rw [follows_bind]
      refine follows_blameless (by simp) fun granted => ?_
      cases granted with
      | error raised => exact hraised rfl
      | ok _ =>
          dsimp only
          simp only [follows_bind]
          refine follows_blameless (by simp) fun _ =>
            follows_blameless (by simp) fun started =>
              follows_blameless (by simp) fun response =>
                follows_blameless (by simp) fun ended => ?_
          cases response with
          | error raised =>
              rw [follows_bind]
              refine follows_blameless (by simp) fun _ => ?_
              rintro _ ⟨⟩
              exact Or.inr ⟨_, List.mem_cons_of_mem _ (List.mem_cons_of_mem _
                (List.mem_cons_self ..)), rfl⟩
          | ok response =>
              simp only [follows_bind]
              refine follows_blameless (by simp) fun _ => ?_
              refine Follows.mono (hfinish response _ ?_) ?_
              · exact List.mem_cons_of_mem _ (List.mem_cons_of_mem _
                  (List.mem_cons_self ..))
              · intro outcome h₁ hpost
                refine follows_blameless (by simp) fun _ => ?_
                rintro error rfl
                exact Call.Owns.mono hpost (List.suffix_cons _ _)

end Steps

/-! ## One group at a time -/

section Single

variable {call : Call} {h : History} {group : JudgmentGroup}

/-- Once a response to one request is accepted, its processing cannot fail. -/
theorem finishSingle_attributes {method : ProviderCall}
    {carried : List JudgmentIdentity} {cacheIdentity : Option JudgmentIdentity}
    {response : ProviderBatchResult}
    (hmem : (⟨.judge method carried [group.request], .ok response⟩ :
      ExecEvent) ∈ h) :
    Secures call.blaming
      (finishSingle group call.provider cacheIdentity call.cachePolicy response)
      (fun _ _ => True) (fun error h' => call.Owns h' error) h := by
  unfold finishSingle
  split
  · rename_i error hinvalid
    exact Or.inr ⟨_, hmem, hinvalid⟩
  · rename_i hvalid
    obtain ⟨result, hanswers, hresult⟩ := validateBatchResult_singleton hvalid
    unfold ValidFor at hresult
    rw [hanswers]
    dsimp only
    rw [hresult]
    exact (cacheValidated_attributes group cacheIdentity _ result).bind
      (fun _ => attributes_pure result) h

theorem executeOwned_attributes (hmode : call.mode = .single)
    (hgroup : group ∈ call.groups) (cacheIdentity : Option JudgmentIdentity)
    (entry : ℕ) :
    call.Attributes (executeOwned group call.provider call.limits
      call.cachePolicy cacheIdentity entry) := by
  unfold executeOwned
  refine (consultCache_attributes _ entry cacheIdentity).bind fun found => ?_
  cases found with
  | some result => exact attributes_pure result
  | none =>
      dsimp only
      split
      · rename_i hlarge
        have htooLarge : call.TooLarge group := by
          rwa [Call.TooLarge, Call.aloneRequest, hmode]
        exact fun _ => fail_secures (Or.inl (.tooLarge hgroup htooLarge))
      · intro h
        rw [secures_bind, secures_lift]
        refine (attemptRecorded_attributes
          (fun _ _ hmem => finishSingle_attributes hmem) h).mono ?_
        intro outcome h₁ howns
        cases outcome with
        | ok result =>
            exact (attributes_perform (by simp)).bind
              (fun _ => attributes_pure result) h₁
        | error error => exact fail_secures (howns error rfl)

/-- A call which waits may also be handed the error of the entry. -/
def Call.Passes (call : Call) (h : History) (error : JudgmentError) : Prop :=
  call.Owns h error ∨
    ∃ entry flag, (⟨.wait entry flag, .error error⟩ : ExecEvent) ∈ h

theorem waitEntry_passes (entry flag : ℕ) (h : History) :
    Secures call.blaming (waitEntry entry flag) (fun _ _ => True)
      (fun error h' => call.Passes h' error) h := by
  unfold waitEntry
  rw [secures_mk]
  refine follows_blameless (by simp) fun r => ?_
  cases r with
  | ok _ => trivial
  | error error => exact Or.inr ⟨entry, flag, List.mem_cons_self ..⟩

theorem Call.Attributes.passes {α : Type} {x : Exec α}
    (hx : call.Attributes x) (h : History) :
    Secures call.blaming x (fun _ _ => True)
      (fun error h' => call.Passes h' error) h :=
  (hx h).mono (fun _ _ _ => trivial) fun _ _ howns => Or.inl howns

theorem executeOneGroup_passes (hmode : call.mode = .single)
    (hgroup : group ∈ call.groups) (h : History) :
    Secures call.blaming
      (executeOneGroup group call.provider call.limits call.cachePolicy)
      (fun _ _ => True) (fun error h' => call.Passes h' error) h := by
  unfold executeOneGroup
  rw [secures_bind]
  refine ((claimQueryEntry_attributes _ _).passes h).mono ?_
    fun _ _ hpasses => hpasses
  rintro ⟨entry, owned⟩ h₁ -
  rw [secures_bind]
  refine ((queryCancellation_attributes _).passes h₁).mono ?_
    fun _ _ hpasses => hpasses
  intro flag h₂ _
  split
  · exact (executeOwned_attributes hmode hgroup _ entry).passes h₂
  · exact waitEntry_passes entry flag h₂

theorem executeEach_passes (hmode : call.mode = .single)
    {groups : List JudgmentGroup} (hgroups : groups ⊆ call.groups)
    (output : List (RowTarget × JudgmentResult)) (h : History) :
    Secures call.blaming
      (executeEach call.provider call.limits call.cachePolicy output groups)
      (fun _ _ => True) (fun error h' => call.Passes h' error) h := by
  induction groups generalizing output h with
  | nil => trivial
  | cons group rest ih =>
      obtain ⟨hgroup, hrest⟩ := List.cons_subset.mp hgroups
      rw [executeEach, secures_bind]
      exact (executeOneGroup_passes hmode hgroup h).mono
        (fun result h' _ => ih hrest _ h') fun _ _ hpasses => hpasses

end Single

/-! ## Batches -/

section Batches

variable {call : Call} {h : History} {maxJudgments : ℕ} {order : LeaderOrder}

/-- Leaders stand for groups of the call. -/
def Call.Stand (call : Call) (leaders : List Leader) : Prop :=
  ∀ leader ∈ leaders, leader.group ∈ call.groups

theorem claimGroup_attributes
    (hmode : call.mode = .batched maxJudgments order) {group : JudgmentGroup}
    (hgroup : group ∈ call.groups) {claimed : Claimed}
    (hstand : call.Stand claimed.partitions.flatten) (h : History) :
    Secures call.blaming
      (claimGroup call.provider call.limits call.cachePolicy claimed group)
      (fun claimed' _ => call.Stand claimed'.partitions.flatten)
      (fun error h' => call.Owns h' error) h := by
  unfold claimGroup
  split
  · rename_i hkind
    exact Or.inl (.kind hmode hgroup hkind)
  split
  · rename_i hchoices
    exact Or.inl (.choices hmode hgroup (by simpa using hchoices))
  rw [secures_bind]
  refine (claimQueryEntry_attributes _ _ h).mono ?_ fun _ _ howns => howns
  rintro ⟨entry, owned⟩ h₁ -
  rw [secures_bind]
  refine (queryCancellation_attributes _ h₁).mono ?_ fun _ _ howns => howns
  intro flag h₂ _
  split
  · rw [secures_bind]
    refine (consultCache_attributes _ entry _ h₂).mono ?_
      fun _ _ howns => howns
    intro found h₃ _
    cases found with
    | some result => exact hstand
    | none =>
        intro leader hleader
        rcases List.mem_append.mp ((place_flatten _ _).mem_iff.mp hleader)
          with hold | hnew
        · exact hstand leader hold
        · rw [List.mem_singleton.mp hnew]
          exact hgroup
  · exact hstand

theorem claimGroups_attributes
    (hmode : call.mode = .batched maxJudgments order)
    {groups : List JudgmentGroup} (hgroups : groups ⊆ call.groups)
    {claimed : Claimed} (hstand : call.Stand claimed.partitions.flatten)
    (h : History) :
    Secures call.blaming
      (claimGroups call.provider call.limits call.cachePolicy claimed groups)
      (fun claimed' _ => call.Stand claimed'.partitions.flatten)
      (fun error h' => call.Owns h' error) h := by
  induction groups generalizing claimed h with
  | nil => exact hstand
  | cons group rest ih =>
      obtain ⟨hgroup, hrest⟩ := List.cons_subset.mp hgroups
      rw [claimGroups, secures_bind]
      exact (claimGroup_attributes hmode hgroup hstand h).mono
        (fun claimed' h' hstand' => ih hrest hstand' h') fun _ _ howns => howns

/-- Once the response to a batch is accepted, its processing cannot fail. -/
theorem finishBatch_attributes {method : ProviderCall}
    {carried : List JudgmentIdentity} {batch : List Leader}
    {response : ProviderBatchResult}
    (hmem : (⟨.judge method carried (requestsForGroups batch), .ok response⟩ :
      ExecEvent) ∈ h) :
    Secures call.blaming
      (finishBatch batch (requestsForGroups batch) response)
      (fun _ _ => True) (fun error h' => call.Owns h' error) h := by
  unfold finishBatch
  split
  · rename_i error hinvalid
    exact Or.inr ⟨_, hmem, hinvalid⟩
  · rename_i hvalid
    obtain ⟨results, hresults, -, -⟩ := collectResults_ok hvalid
      (batch.zip (requestsForGroups batch))
      fun pair hpair => (List.of_mem_zip hpair).2
    rw [hresults]
    trivial

theorem publish_attributes (model : Option String)
    (output : List (RowTarget × JudgmentResult))
    (results : List (Leader × JudgmentResult)) :
    call.Attributes
      (publish call.provider call.cachePolicy model output results) := by
  induction results generalizing output with
  | nil => exact attributes_pure output
  | cons result rest ih =>
      rw [publish]
      exact (cacheValidated_attributes _ _ _ _).bind fun _ =>
        (attributes_perform (by simp)).bind fun _ => ih _

theorem dispatch_attributes (batch : List Leader)
    (output : List (RowTarget × JudgmentResult)) :
    call.Attributes
      (dispatch call.provider call.limits call.cachePolicy batch output) := by
  intro h
  unfold dispatch
  dsimp only
  rw [secures_bind, secures_lift]
  refine (attemptRecorded_attributes
    (fun _ _ hmem => finishBatch_attributes hmem) h).mono ?_
  rintro (error | ⟨results, model⟩) h₁ howns
  · rw [secures_bind]
    exact (failEntries_secures_own (howns error rfl)).mono
      (fun _ _ howns => howns) fun _ _ hfalse => hfalse.elim
  · exact publish_attributes model output results h₁

theorem dispatchOrFail_attributes (order : LeaderOrder)
    (leaders batch : List Leader)
    (output : List (RowTarget × JudgmentResult)) :
    call.Attributes (dispatchOrFail call.provider call.limits call.cachePolicy
      order leaders batch output) := by
  intro h
  unfold dispatchOrFail
  rw [secures_bind, secures_lift]
  refine Follows.mono (dispatch_attributes batch output h) ?_
  rintro (error | output') h₁ hpost
  · exact failLeaders_secures_own hpost
  · trivial

theorem executePartition_attributes {limit : ℕ}
    (hmode : call.mode = .batched maxJudgments order) (hlimit : limit ≠ 0)
    (leaders current : List Leader)
    (output : List (RowTarget × JudgmentResult)) {rest : List Leader}
    (hstand : call.Stand rest) :
    call.Attributes (executePartition call.provider call.limits
      call.cachePolicy order leaders limit current output rest) := by
  have hlarge : ∀ {leader : Leader},
      exceedsLimits call.provider call.limits limit
        (requestsForGroups [leader]) = true → call.TooLarge leader.group :=
    fun hexceeds => tooLarge_of_exceedsLimits hmode hlimit hexceeds
  induction rest generalizing current output with
  | nil =>
      rw [executePartition]
      split
      · exact attributes_pure output
      · exact dispatchOrFail_attributes order leaders current output
  | cons leader rest ih =>
      obtain ⟨hgroup, hrest⟩ := List.forall_mem_cons.mp hstand
      rw [executePartition]
      split
      · rename_i hexceeds
        split
        · rename_i hempty
          rw [List.isEmpty_iff.mp hempty] at hexceeds
          exact fun h => failLeaders_secures_own
            (Or.inl (.tooLarge hgroup (hlarge hexceeds)))
        · refine (dispatchOrFail_attributes order leaders current output).bind
            fun output' => ?_
          split
          · rename_i halone
            exact fun h => failLeaders_secures_own
              (Or.inl (.batchTooLarge hmode hgroup (hlarge halone)))
          · exact ih [leader] output' hrest
      · exact ih (current ++ [leader]) output hrest

theorem executePartitions_attributes {limit : ℕ}
    (hmode : call.mode = .batched maxJudgments order) (hlimit : limit ≠ 0)
    (leaders : List Leader) (output : List (RowTarget × JudgmentResult))
    {partitions : List (List Leader)} (hstand : call.Stand partitions.flatten) :
    call.Attributes (executePartitions call.provider call.limits
      call.cachePolicy order leaders limit output partitions) := by
  induction partitions generalizing output with
  | nil => exact attributes_pure output
  | cons partition rest ih =>
      rw [List.flatten_cons] at hstand
      obtain ⟨hfirst, hrest⟩ := List.forall_mem_append.mp hstand
      rw [executePartitions]
      exact (executePartition_attributes hmode hlimit leaders [] output
        hfirst).bind fun output' => ih output' hrest

theorem awaitFollowers_passes (output : List (RowTarget × JudgmentResult))
    (followers : List Follower) (h : History) :
    Secures call.blaming (awaitFollowers output followers) (fun _ _ => True)
      (fun error h' => call.Passes h' error) h := by
  induction followers generalizing output h with
  | nil => trivial
  | cons follower rest ih =>
      rw [awaitFollowers, secures_bind]
      exact (waitEntry_passes _ _ h).mono (fun result h' _ => ih _ h')
        fun _ _ hpasses => hpasses

end Batches

/-! ## Calls -/

/-- A call fails entries with its own errors only, and fails itself with one of
these, or with the error of an entry for which it has waited. -/
theorem Call.blames (call : Call) :
    Follows call.blaming call.program
      (fun answer h => ∀ error, answer = .error error → call.Passes h error)
      [] := by
  suffices hsecures : Secures call.blaming call.exec (fun _ _ => True)
      (fun error h => call.Passes h error) [] by
    refine Follows.mono hsecures ?_
    rintro answer h hpost error rfl
    exact hpost
  unfold Call.exec
  split
  · rename_i hmode
    unfold executeGroups
    split
    · rename_i hzero
      exact Or.inl (Or.inl (.singleBytes hmode hzero))
    · exact executeEach_passes hmode (List.Subset.refl _) [] []
  · rename_i maxJudgments order hmode
    unfold executeBatchGroups
    split
    · rename_i hunverified
      exact Or.inl (Or.inl (.unverified hmode hunverified))
    split
    · rename_i hzero
      exact Or.inl (Or.inl (.batchLimits hmode hzero))
    split
    · rename_i hzero
      exact Or.inl (Or.inl (.serviceLimit hmode hzero))
    rename_i hlimit
    rw [secures_bind]
    have hnone : call.Stand (Claimed.partitions {}).flatten := by
      intro leader hleader
      cases hleader
    refine (claimGroups_attributes hmode (List.Subset.refl _) hnone []).mono ?_
      fun _ _ howns => Or.inl howns
    intro claimed h₁ hstand
    rw [secures_bind]
    refine ((executePartitions_attributes hmode hlimit _ _ hstand).passes
      h₁).mono ?_ fun _ _ hpasses => hpasses
    exact fun output h₂ _ => awaitFollowers_passes output claimed.followers h₂

end DuckJeu
