import DuckJeu.Executor.Unrecorded

/-!
# Flags and permits of a call

A call blocks in two operations, and gives each of them a cancellation flag.
It has every such flag from its own query.  With every permit it makes one
request to the provider, and it keeps the permit for no longer.
-/

namespace DuckJeu

open Effects

/-- What a call has at hand: the flags which it has been given, and the permits
which it has not spent on a request. -/
structure Means where
  flags : List ℕ := []
  unspent : ℕ := 0

/-- The call asks for the flags of its own query only, blocks under flags
which it has been given, and spends each permit on one request. -/
def spending (scope : ℕ) : Protocol Op Res Means where
  note := fun means op r =>
    match op, r with
    | .queryCancellation _, .ok flag =>
        { means with flags := flag :: means.flags }
    | .acquirePermit _ _, .ok _ =>
        { means with unspent := means.unspent + 1 }
    | .judge _ _ _, _ => { means with unspent := means.unspent - 1 }
    | _, _ => means
  Allowed := fun means op =>
    match op with
    | .queryCancellation queryScope => queryScope = scope
    | .acquirePermit _ flag => flag ∈ means.flags
    | .wait _ flag => flag ∈ means.flags
    | .judge _ _ _ => 0 < means.unspent
    | .dropPermit => means.unspent = 0
    | _ => True
  Admits := fun _ _ _ => True

/-- The operations which have to do with flags or permits. -/
def Op.Spends : Op → Bool
  | .queryCancellation _ => true
  | .acquirePermit _ _ => true
  | .wait _ _ => true
  | .judge _ _ _ => true
  | .dropPermit => true
  | _ => false

/-- The call has these flags, and no permit which is not spent. -/
def Knows (known : List ℕ) (means : Means) : Prop :=
  known ⊆ means.flags ∧ means.unspent = 0

section Spending

variable {scope : ℕ} {known : List ℕ} {means : Means}

theorem Knows.cons (hknows : Knows known means) (flag : ℕ) :
    Knows (flag :: known) { means with flags := flag :: means.flags } :=
  ⟨List.cons_subset_cons flag hknows.1, hknows.2⟩

theorem Knows.forget {flag : ℕ} (hknows : Knows (flag :: known) means) :
    Knows known means :=
  ⟨List.Subset.trans (List.subset_cons_self flag known) hknows.1, hknows.2⟩

theorem Knows.none (hknows : Knows known means) : Knows [] means :=
  ⟨List.nil_subset _, hknows.2⟩

theorem spending_ignores {op : Op} (hop : op.Spends = false) :
    (spending scope).Ignores op := by
  intro g
  cases op with
  | queryCancellation | acquirePermit | wait | judge | dropPermit => cases hop
  | _ => exact ⟨trivial, fun r => rfl⟩

theorem perform_spendless {op : Op} (hop : op.Spends = false) :
    Keeps (spending scope) (Knows known) (perform op) :=
  (spending_ignores hop).keeps

theorem claimQueryEntry_spendless {identity : JudgmentIdentity}
    {queryScope : ℕ} :
    Keeps (spending scope) (Knows known)
      (claimQueryEntry queryScope identity) :=
  keeps_mk fun _ hg => (spending_ignores rfl).follows hg

/-- A flag which the query gives is known from then on. -/
theorem queryCancellation_secures {E : JudgmentError → Means → Prop}
    {Q : ℕ → Means → Prop}
    (hok : ∀ flag, Q flag { means with flags := flag :: means.flags })
    (herror : ∀ error, E error means) :
    Secures (spending scope) (queryCancellation scope) Q E means := by
  unfold queryCancellation
  rw [secures_mk, follows_perform]
  refine ⟨rfl, fun r _ => ?_⟩
  cases r with
  | error error => exact herror error
  | ok flag => exact hok flag

theorem waitEntry_spendless {entry flag : ℕ} (hflag : flag ∈ known) :
    Keeps (spending scope) (Knows known) (waitEntry entry flag) := by
  refine keeps_mk fun g hg => ?_
  rw [follows_perform]
  exact ⟨hg.1 hflag, fun r _ => hg⟩

theorem spending_stores (op : Op) (hop : op.Stores = true) :
    (spending scope).Ignores op := by
  refine spending_ignores ?_
  cases op with
  | cacheLookup | cacheInsert | complete | instantNow => rfl
  | _ => cases hop

theorem consultCache_spendless {entry : ℕ} {queryScope : ℕ}
    {cacheIdentity : Option JudgmentIdentity}
    {cachePolicy : Option CachePolicy} :
    Keeps (spending scope) (Knows known)
      (consultCache queryScope entry cacheIdentity cachePolicy) :=
  consultCache_stored spending_stores fun _ => spending_ignores rfl

end Spending

/-! ## The executor -/

section Executor

variable {provider : Provider} {limits : ExecutionLimits}
  {cachePolicy : Option CachePolicy} {known : List ℕ} {means : Means}

theorem recordFailure_spendless {α : Type} {external : Bool}
    {attempt : Attempt α} (hknows : Knows known means) :
    Follows (spending limits.queryScope)
      (recordFailure limits external attempt) (fun _ => Knows known) means := by
  have hrecord : ∀ {op : Op}, op.Spends = false →
      Follows (spending limits.queryScope) (invoke op)
        (fun _ => Knows known) means :=
    fun hop => (spending_ignores hop).follows hknows
  unfold recordFailure
  split
  · exact hknows
  · split
    · rw [follows_bind]
      refine (hrecord rfl).mono fun _ means' hknows' => ?_
      split
      · exact hknows'
      · exact (spending_ignores rfl).follows hknows'
    · exact hknows

/-- The permit of an attempt is taken under the flag which the attempt has
asked for, and is spent before it is dropped. -/
theorem attemptRecorded_spends {α : Type} {external : Bool}
    {method : ProviderCall} {carried : List JudgmentIdentity}
    {requests : List JudgmentRequest} {finish : ProviderBatchResult → Exec α}
    (hfinish : ∀ response,
      Keeps (spending limits.queryScope) (Knows known) (finish response))
    (hknows : Knows known means) :
    Follows (spending limits.queryScope)
      (attemptRecorded limits external method carried requests finish)
      (fun _ => Knows known) means := by
  unfold attemptRecorded
  rw [follows_bind]
  refine Follows.mono (Q := fun _ => Knows known) ?_ fun attempt means' h => by
    rw [follows_bind]
    exact recordFailure_spendless h
  unfold attemptProvider
  simp only [follows_bind, follows_perform]
  refine ⟨rfl, fun r _ => ?_⟩
  cases r with
  | error error => exact hknows
  | ok flag =>
      have hgiven := (hknows.cons flag).forget
      simp only [follows_bind, follows_perform]
      refine ⟨List.mem_cons_self .., fun granted _ => ?_⟩
      cases granted with
      | error error => exact hgiven
      | ok _ =>
          simp only [follows_bind, follows_perform]
          refine ⟨trivial, fun _ _ => ⟨trivial, fun started _ =>
            ⟨Nat.succ_pos _, fun response _ => ⟨trivial, fun ended _ => ?_⟩⟩⟩⟩
          cases response with
          | error error =>
              simp only [follows_bind, follows_perform, follows_pure]
              exact ⟨hgiven.2, fun _ _ => hgiven⟩
          | ok response =>
              simp only [follows_bind, follows_perform, follows_pure]
              refine ⟨trivial, fun _ _ => ?_⟩
              refine ((hfinish response).run hgiven).mono ?_
              exact fun outcome means' h => ⟨h.2, fun _ _ => h⟩

theorem finishSingle_spendless {group : JudgmentGroup}
    {cacheIdentity : Option JudgmentIdentity} {response : ProviderBatchResult} :
    Keeps (spending limits.queryScope) (Knows known)
      (finishSingle group provider cacheIdentity cachePolicy response) := by
  unfold finishSingle
  split
  · exact keeps_throw _
  split
  · exact keeps_throw _
  split
  · exact keeps_throw _
  · exact (cacheValidated_stored spending_stores).bind fun _ => keeps_pure _

theorem finishBatch_spendless {leaders : List Leader}
    {requests : List JudgmentRequest} {response : ProviderBatchResult} :
    Keeps (spending limits.queryScope) (Knows known)
      (finishBatch leaders requests response) := by
  unfold finishBatch
  split
  · exact keeps_throw _
  split
  · exact keeps_throw _
  · exact keeps_pure _

theorem executeOneGroup_spends {group : JudgmentGroup} :
    Keeps (spending limits.queryScope) (Knows known)
      (executeOneGroup group provider limits cachePolicy) := by
  unfold executeOneGroup
  dsimp only
  refine claimQueryEntry_spendless.bind fun claim => ?_
  intro means hknows
  rw [secures_bind]
  refine queryCancellation_secures (fun flag => ?_) fun _ => hknows
  have hgiven := hknows.cons flag
  split
  · unfold executeOwned
    refine Keeps.bind consultCache_spendless (fun found => ?_) _ hgiven.forget
    cases found with
    | some result => exact keeps_pure result
    | none =>
        dsimp only
        split
        · exact (perform_spendless rfl).bind fun _ => keeps_throw _
        · refine Keeps.bind (keeps_lift fun g hg =>
            attemptRecorded_spends (fun _ => finishSingle_spendless) hg)
            fun outcome => ?_
          exact (perform_spendless rfl).bind fun _ =>
            keeps_mk fun _ hg => hg
  · exact (waitEntry_spendless (List.mem_cons_self ..) _ hgiven).mono
      (fun _ _ h => h.forget) fun _ _ h => h.forget

theorem executeEach_spends (output : List (RowTarget × JudgmentResult))
    (groups : List JudgmentGroup) :
    Keeps (spending limits.queryScope) (Knows known)
      (executeEach provider limits cachePolicy output groups) := by
  induction groups generalizing output with
  | nil => exact keeps_pure output
  | cons group rest ih =>
      exact executeOneGroup_spends.bind fun result => ih _

/-! ## Batches -/

/-- The flags of the followers. -/
def Claimed.flags (claimed : Claimed) : List ℕ :=
  claimed.followers.map Follower.cancelled

/-- A round of the claim loop knows the flags of all followers. -/
theorem claimGroup_spends {claimed : Claimed} {group : JudgmentGroup}
    (hknows : Knows claimed.flags means) :
    Secures (spending limits.queryScope)
      (claimGroup provider limits cachePolicy claimed group)
      (fun claimed' => Knows claimed'.flags) (fun _ => Knows []) means := by
  unfold claimGroup
  split
  · exact hknows.none
  split
  · exact hknows.none
  dsimp only
  rw [secures_bind]
  refine (claimQueryEntry_spendless _ hknows).mono (fun claim means' h => ?_)
    fun _ _ h => h.none
  rw [secures_bind]
  refine queryCancellation_secures (fun flag => ?_) fun _ => h.none
  have hgiven := h.cons flag
  split
  · rw [secures_bind]
    refine (consultCache_spendless _ hgiven.forget).mono (fun found g hg => ?_)
      fun _ _ h => h.none
    cases found with
    | some result => exact hg
    | none => exact hg
  · refine ⟨fun f hf => ?_, hgiven.2⟩
    simp only [Claimed.flags, List.map_append, List.map_cons, List.map_nil,
      List.mem_append, List.mem_singleton] at hf
    rcases hf with hf | rfl
    · exact hgiven.forget.1 hf
    · exact List.mem_cons_self ..

theorem claimGroups_spends {claimed : Claimed} {groups : List JudgmentGroup}
    (hknows : Knows claimed.flags means) :
    Secures (spending limits.queryScope)
      (claimGroups provider limits cachePolicy claimed groups)
      (fun claimed' => Knows claimed'.flags) (fun _ => Knows []) means := by
  induction groups generalizing claimed means with
  | nil => exact hknows
  | cons group rest ih =>
      rw [claimGroups, secures_bind]
      exact (claimGroup_spends hknows).mono (fun _ _ h => ih h) fun _ _ h => h

theorem dispatch_spends (batch : List Leader)
    (output : List (RowTarget × JudgmentResult)) :
    Keeps (spending limits.queryScope) (Knows known)
      (dispatch provider limits cachePolicy batch output) := by
  unfold dispatch
  refine Keeps.bind (keeps_lift fun g hg =>
    attemptRecorded_spends (fun _ => finishBatch_spendless) hg)
    fun attempt => ?_
  rcases attempt with error | ⟨results, effectiveModel⟩
  · exact (failEntries_stored spending_stores).bind fun _ => keeps_throw error
  · exact publish_stored spending_stores

theorem dispatchOrFail_spends (order : LeaderOrder)
    (leaders batch : List Leader)
    (output : List (RowTarget × JudgmentResult)) :
    Keeps (spending limits.queryScope) (Knows known)
      (dispatchOrFail provider limits cachePolicy order leaders batch
        output) := by
  unfold dispatchOrFail
  refine Keeps.bind
    (keeps_lift fun g hg => (dispatch_spends batch output).run hg)
    fun outcome => ?_
  cases outcome with
  | error error => exact failLeaders_stored spending_stores
  | ok output => exact keeps_pure output

theorem executePartition_spends (order : LeaderOrder)
    (leaders : List Leader) (maxJudgments : ℕ) (current : List Leader)
    (output : List (RowTarget × JudgmentResult)) (rest : List Leader) :
    Keeps (spending limits.queryScope) (Knows known)
      (executePartition provider limits cachePolicy order leaders maxJudgments
        current output rest) := by
  induction rest generalizing current output with
  | nil =>
      rw [executePartition]
      split
      · exact keeps_pure output
      · exact dispatchOrFail_spends order leaders current output
  | cons leader rest ih =>
      rw [executePartition]
      split
      · split
        · exact failLeaders_stored spending_stores
        · refine (dispatchOrFail_spends order leaders current output).bind
            fun output => ?_
          split
          · exact failLeaders_stored spending_stores
          · exact ih _ _
      · exact ih _ _

theorem executePartitions_spends (order : LeaderOrder)
    (leaders : List Leader) (maxJudgments : ℕ)
    (output : List (RowTarget × JudgmentResult))
    (partitions : List (List Leader)) :
    Keeps (spending limits.queryScope) (Knows known)
      (executePartitions provider limits cachePolicy order leaders maxJudgments
        output partitions) := by
  induction partitions generalizing output with
  | nil => exact keeps_pure output
  | cons partition rest ih =>
      exact (executePartition_spends order leaders maxJudgments [] output
        partition).bind fun output => ih output

theorem awaitFollowers_spendless (output : List (RowTarget × JudgmentResult))
    {followers : List Follower}
    (hflags : ∀ follower ∈ followers, follower.cancelled ∈ known) :
    Keeps (spending limits.queryScope) (Knows known)
      (awaitFollowers output followers) := by
  induction followers generalizing output with
  | nil => exact keeps_pure output
  | cons follower rest ih =>
      rw [List.forall_mem_cons] at hflags
      exact (waitEntry_spendless hflags.1).bind fun result => ih _ hflags.2

/-- A call blocks under the flags of its own query only, and spends each of its
permits on one request. -/
theorem Call.spends (call : Call) :
    Follows (spending call.limits.queryScope) call.program
      (fun _ => Knows []) {} := by
  have hnothing : Knows [] {} := ⟨List.nil_subset _, rfl⟩
  have hsecures : Secures (spending call.limits.queryScope) call.exec
      (fun _ => Knows []) (fun _ => Knows []) {} := by
    unfold Call.exec
    cases call.mode with
    | single =>
        dsimp only [executeGroups]
        split
        · exact hnothing
        · exact executeEach_spends [] call.groups _ hnothing
    | batched maxJudgments order =>
        dsimp only [executeBatchGroups]
        split
        · exact hnothing
        split
        · exact hnothing
        split
        · exact hnothing
        rw [secures_bind]
        have hempty : Knows (Claimed.flags {}) {} := hnothing
        refine (claimGroups_spends hempty).mono (fun claimed g hg => ?_)
          fun _ _ h => h
        refine (Keeps.bind (executePartitions_spends order claimed.leaders _ _
          claimed.partitions) (fun output => ?_) g hg).mono
            (fun _ _ h => h.none) fun _ _ h => h.none
        exact awaitFollowers_spendless output fun follower hmem =>
          List.mem_map_of_mem hmem
  exact Follows.mono hsecures fun answer g h => by
    cases answer with
    | ok output => exact h
    | error error => exact h

end Executor

end DuckJeu
