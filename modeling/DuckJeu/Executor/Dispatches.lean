import DuckJeu.Executor.Alone
import DuckJeu.Executor.Packing

/-!
# The dispatches of a batched call

Whatever the other workers do, the requests which a batched call sends are
well-formed batches of its leaders.  None of them goes beyond a limit, no
leader is in two of them, and a call which succeeds has sent all its leaders,
in as few batches as the count limit permits.
-/

namespace DuckJeu

open Effects

variable {ι : Type} [DecidableEq ι]

/-! ## Well-formed batches -/

/-- The requests ask one question, with the same candidates in the same
order. -/
structure QuestionShared (request request' : JudgmentRequest) : Prop where
  kind_eq : request.kind = request'.kind
  criterion_eq : request.criterion = request'.criterion
  question_eq : request.question = request'.question
  choices_eq : request.choices = request'.choices

/-- The identities belong to one service, model and credential. -/
structure ServiceShared (a b : JudgmentIdentity) : Prop where
  providerNamespace_eq : a.providerNamespace = b.providerNamespace
  endpoint_eq : a.endpoint = b.endpoint
  requestedModel_eq : a.requestedModel = b.requestedModel
  effectiveModel_eq : a.effectiveModel = b.effectiveModel
  credentialScope_eq : a.credentialScope = b.credentialScope
  unresolvedModelScope_eq : a.unresolvedModelScope = b.unresolvedModelScope

/-- The dispatch carries these leaders, as the limits and the batch context
demand it. -/
structure Call.Packs (call : Call) (maxJudgments : ℕ) (batch : List Leader)
    (d : Dispatch) : Prop where
  carried_eq : d.carried = batch.map fun leader => leader.group.identity
  requests_eq : d.requests = requestsForGroups batch
  keys_eq : d.requests.map JudgmentRequest.requestKey =
    (List.range d.requests.length).map fun index => "r" ++ toString index
  nonempty : 1 ≤ d.requests.length
  count : d.requests.length ≤ maxJudgments
  service : ∀ serviceLimit ∈ call.provider.capabilities.maxBatchJudgments,
    d.requests.length ≤ serviceLimit
  bytes : call.provider.estimateRequestBytes d.requests ≤
    call.limits.maxRequestBytes
  question : ∀ request ∈ d.requests, ∀ request' ∈ d.requests,
    QuestionShared request request'
  context : ∀ a ∈ d.carried, ∀ b ∈ d.carried, ServiceShared a b

theorem le_batchLimit {provider : Provider} {maxJudgments n : ℕ}
    (h : n ≤ batchLimit provider maxJudgments) :
    n ≤ maxJudgments ∧
      ∀ serviceLimit ∈ provider.capabilities.maxBatchJudgments,
        n ≤ serviceLimit := by
  unfold batchLimit at h
  cases hservice : provider.capabilities.maxBatchJudgments with
  | none =>
      rw [hservice] at h
      exact ⟨h, by simp⟩
  | some serviceLimit =>
      rw [hservice] at h
      obtain ⟨hcount, hlimit⟩ := le_min_iff.mp h
      exact ⟨hcount, by simpa using hlimit⟩

/-- A batch of the plan within the limits is packed. -/
theorem Call.packs_of_plan {call : Call} {maxJudgments : ℕ}
    (hbuilt : ∀ group ∈ call.groups, ∃ context,
      group.identity = .new group.request context)
    {leaders batch : List Leader}
    (hleaders : ∀ leader ∈ leaders, leader.group ∈ call.groups)
    (hmem : batch ∈ plan call.provider call.limits
      (batchLimit call.provider maxJudgments) leaders)
    (hfits : exceeds call.provider call.limits
      (batchLimit call.provider maxJudgments) batch = false)
    {d : Dispatch} (hd : (d.carried, d.requests) = sending batch) :
    call.Packs maxJudgments batch d := by
  obtain ⟨hcarried, hrequests⟩ := Prod.mk.inj hd
  obtain ⟨hlength, hbytes⟩ := exceeds_eq_false_iff.mp hfits
  obtain ⟨hcount, hservice⟩ := le_batchLimit hlength
  have hsame : ∀ a ∈ batch, ∀ b ∈ batch,
      a.group.identity.sameBatchContext b.group.identity = true := by
    intro a ha b hb
    exact Leader.batchClass_eq_iff.mp (plan_batchClass hmem ha hb)
  have hgroup : ∀ leader ∈ batch, ∃ context,
      leader.group.identity = .new leader.group.request context := by
    intro leader hleader
    have hflat : leader ∈ (plan call.provider call.limits
        (batchLimit call.provider maxJudgments) leaders).flatten :=
      List.mem_flatten.mpr ⟨batch, hmem, hleader⟩
    exact hbuilt _ (hleaders leader ((plan_flatten leaders).mem_iff.mp hflat))
  have hrequest : ∀ request ∈ requestsForGroups batch, ∃ leader ∈ batch,
      ∃ key, request = { leader.group.request with requestKey := key } := by
    intro request hrequest
    obtain ⟨index, hindex, rfl⟩ := List.mem_iff_getElem.mp hrequest
    have hbound : index < batch.length := by simpa using hindex
    refine ⟨batch[index], List.getElem_mem hbound, "r" ++ toString index, ?_⟩
    simp [requestsForGroups]
  refine ⟨hcarried, hrequests, ?_, ?_, ?_, ?_, ?_, ?_, ?_⟩
  · rw [hrequests, requestsForGroups_requestKey, requestsForGroups_length]
  · rw [hrequests, requestsForGroups_length]
    exact List.length_pos_iff.mpr (plan_ne_nil hmem)
  · rw [hrequests, requestsForGroups_length]
    exact hcount
  · rw [hrequests, requestsForGroups_length]
    exact hservice
  · rw [hrequests]
    exact hbytes
  · rw [hrequests]
    intro request hr request' hr'
    obtain ⟨leader, hleader, key, rfl⟩ := hrequest request hr
    obtain ⟨leader', hleader', key', rfl⟩ := hrequest request' hr'
    obtain ⟨context, hidentity⟩ := hgroup leader hleader
    obtain ⟨context', hidentity'⟩ := hgroup leader' hleader'
    have hcontext := hsame leader hleader leader' hleader'
    rw [hidentity, hidentity', JudgmentIdentity.sameBatchContext_iff]
      at hcontext
    obtain ⟨-, hkind, hcriterion, hquestion, hchoices, -⟩ := hcontext
    exact ⟨hkind, hcriterion, hquestion, hchoices⟩
  · rw [hcarried]
    intro a ha b hb
    obtain ⟨leader, hleader, rfl⟩ := List.mem_map.mp ha
    obtain ⟨leader', hleader', rfl⟩ := List.mem_map.mp hb
    obtain ⟨-, -, -, -, -, hspace, hendpoint, hrequested, heffective,
      hcredential, hunresolved⟩ := JudgmentIdentity.sameBatchContext_iff.mp
        (hsame leader hleader leader' hleader')
    exact ⟨hspace, hendpoint, hrequested, heffective, hcredential, hunresolved⟩

/-! ## Workers -/

variable {c : ConnectionRuntime} {calls : ι → Call}
  {host : ConnectionRuntime → ConnectionRuntime → Prop} {p : Workers ι}

/-- The books of a batched call, wherever the workers get. -/
theorem Workers.packed
    (hreach : Workers.Reach host (Workers.start c calls) p) {i : ι}
    {maxJudgments : ℕ} {order : LeaderOrder}
    (hmode : (calls i).mode = .batched maxJudgments order) :
    Packing.Kept (calls i) (batchLimit (calls i).provider maxJudgments)
        (p.log.of i) ((calls i).packed (p.log.of i)) ∧
      ∀ output, p.thread i = .ret (.ok output) →
        ((calls i).packed (p.log.of i)).Complete (calls i)
          (batchLimit (calls i).provider maxJudgments) := by
  have hafter : (calls i).program.After (p.log.of i) (p.thread i) :=
    hreach.after rfl i
  have hfollows := hafter.follows (fun _ _ _ => trivial)
    (Packing.kept_nil (calls i) _)
    (fun h g op r hkept hallowed => hkept.event hallowed r)
    (Call.packs hmode)
  rw [packing_replay] at hfollows
  obtain ⟨hkept, hthread⟩ := hfollows
  refine ⟨hkept, fun output hreturned => ?_⟩
  rw [hreturned] at hthread
  exact hthread output rfl

/-- The leaders of a call are among its groups. -/
theorem Packing.Kept.group_mem {call : Call} {limit : ℕ} {h : History}
    {g : Packing} (hkept : Packing.Kept call limit h g) {leader : Leader}
    (hleader : leader ∈ g.leading) : leader.group ∈ call.groups := by
  obtain ⟨seen, hgroups, hfound⟩ := hkept.found
  rw [hgroups]
  exact List.mem_append_left _
    (hfound.subset (List.mem_map_of_mem hleader))

/-! ## Three texts in two batches -/

/-- A call about three texts, with two of them in a batch. -/
def threeTexts : Call :=
  { textCall 0 (.batched 2 insertionOrder) none with
    groups := [textGroup 0 "a" [0], textGroup 0 "b" [1], textGroup 0 "c" [2]] }

/-- Alone, the call succeeds with two requests. -/
theorem threeTexts_returns :
    ∃ p : Workers Unit,
      Workers.Reach QueryStep (Workers.start firstQuery fun _ => threeTexts) p ∧
        (∃ output, p.thread () = .ret (.ok output)) ∧
        (dispatches (p.log.of ())).map (fun d => d.requests.length) =
          [1, 2] := by
  have hrun : (halfEnvironment.run threeTexts.program firstQuery).map
      (fun x => (x.1.toBool,
        (dispatches x.2.2).map fun d => d.requests.length)) =
        some (true, [1, 2]) := by
    decide
  obtain ⟨⟨answer, s, events⟩, hrun, hfacts⟩ := Option.map_eq_some_iff.mp hrun
  obtain ⟨hok, hlengths⟩ := Prod.mk.inj hfacts
  obtain ⟨p, hreach, -, hthread, hlog⟩ :=
    Workers.run_alone QueryStep halfEnvironment hrun
  refine ⟨p, hreach, ?_, by rw [hlog]; exact hlengths⟩
  cases answer with
  | error error => cases hok
  | ok output => exact ⟨output, hthread⟩

theorem threeTexts_built : ∀ group ∈ threeTexts.groups, ∃ context,
    group.identity = .new group.request context := by
  have htext : ∀ text row, (textGroup 0 text [row]).identity =
      .new (textGroup 0 text [row]).request (queryContext 0) :=
    fun _ _ => rfl
  intro group hgroup
  simp only [threeTexts, List.mem_cons, List.not_mem_nil, or_false] at hgroup
  rcases hgroup with rfl | rfl | rfl
  · exact ⟨_, htext "a" 0⟩
  · exact ⟨_, htext "b" 1⟩
  · exact ⟨_, htext "c" 2⟩

/-! ## What is sent -/

/-- For any other workers, host and provider: a batched call claims its groups
in order, and what it sends are well-formed batches within the limits.  Each
leader is in at most one of them, and in exactly one if the call succeeds;
groups which have another owner or were found in the cache are in none. -/
theorem batches_packed
    (hreach : Workers.Reach host (Workers.start c calls) p) {i : ι}
    {maxJudgments : ℕ} {order : LeaderOrder}
    (hmode : (calls i).mode = .batched maxJudgments order)
    (hbuilt : ∀ group ∈ (calls i).groups, ∃ context,
      group.identity = .new group.request context) :
    (claims (p.log.of i)).reverse.map Claim.identity <+:
        (calls i).groups.map JudgmentGroup.identity ∧
      ∃ batches : List (List Leader),
        List.Forall₂ ((calls i).Packs maxJudgments) batches
          (dispatches (p.log.of i)).reverse ∧
        batches.flatten.Subperm ((calls i).packed (p.log.of i)).leading ∧
        ∀ output, p.thread i = .ret (.ok output) →
          batches.flatten.Perm ((calls i).packed (p.log.of i)).leading := by
  obtain ⟨hkept, hcomplete⟩ := Workers.packed hreach hmode
  obtain ⟨batches, hsent, hfirst, hfits⟩ := hkept.planned
  refine ⟨⟨_, hkept.claimed⟩, batches, ?_, ?_, ?_⟩
  · have hpairs : (dispatches (p.log.of i)).reverse.map
        (fun d => (d.carried, d.requests)) = batches.map sending :=
      hkept.dispatched.trans hsent
    have hequal : List.Forall₂ (fun sent sent' => sent = sent')
        (batches.map sending) ((dispatches (p.log.of i)).reverse.map
          fun d => (d.carried, d.requests)) := by
      rw [hpairs]
      exact List.forall₂_same.mpr fun _ _ => rfl
    have hsends := List.forall₂_map_right_iff.mp
      (List.forall₂_map_left_iff.mp hequal)
    refine List.forall₂_iff_zip.mpr ⟨hsends.length_eq, ?_⟩
    intro batch d hpair
    have hmem := (List.of_mem_zip hpair).1
    exact Call.packs_of_plan hbuilt (fun leader => hkept.group_mem)
      (hfirst.subset hmem) (hfits batch hmem)
      (List.forall₂_zip hsends hpair).symm
  · exact hfirst.sublist.flatten.subperm.trans (plan_flatten _).subperm
  · intro output hreturned
    obtain ⟨-, -, hall⟩ := hcomplete output hreturned
    have hlength : batches.length = (plan (calls i).provider (calls i).limits
        (batchLimit (calls i).provider maxJudgments)
        ((calls i).packed (p.log.of i)).leading).length := by
      have hmaps := congrArg List.length (hsent.symm.trans hall)
      simpa using hmaps
    rw [hfirst.eq_of_length hlength]
    exact plan_flatten _

theorem batches_packed_three :
    ∃ (p : Workers Unit) (batches : List (List Leader)),
      (∃ output, p.thread () = .ret (.ok output)) ∧
        List.Forall₂ (threeTexts.Packs 2) batches
          (dispatches (p.log.of ())).reverse ∧
        batches.flatten.Perm (threeTexts.packed (p.log.of ())).leading := by
  obtain ⟨p, hreach, ⟨output, hreturned⟩, -⟩ := threeTexts_returns
  obtain ⟨-, batches, hpacked, -, hperm⟩ :=
    batches_packed hreach rfl threeTexts_built
  exact ⟨p, batches, ⟨output, hreturned⟩, hpacked, hperm output hreturned⟩

/-- A batched call which succeeds, and none of whose candidates within the
count limit is too large, has made as many requests as its classes of leaders
need under the count limit. -/
theorem dispatches_fewest
    (hreach : Workers.Reach host (Workers.start c calls) p) {i : ι}
    {maxJudgments : ℕ} {order : LeaderOrder}
    (hmode : (calls i).mode = .batched maxJudgments order)
    {output : List (RowTarget × JudgmentResult)}
    (hreturned : p.thread i = .ret (.ok output))
    (hfits : ∀ candidate ∈ candidateLists (calls i).provider (calls i).limits
      (batchLimit (calls i).provider maxJudgments)
      ((calls i).packed (p.log.of i)).leading,
      candidate.length ≤ batchLimit (calls i).provider maxJudgments →
        (calls i).provider.estimateRequestBytes
          (requestsForGroups candidate) ≤ (calls i).limits.maxRequestBytes) :
    (dispatches (p.log.of i)).length =
      ∑ context ∈ (((calls i).packed (p.log.of i)).leading.map
          Leader.batchClass).toFinset,
        (((calls i).packed (p.log.of i)).leading.map
            Leader.batchClass).count context ⌈/⌉
          batchLimit (calls i).provider maxJudgments := by
  obtain ⟨hkept, hcomplete⟩ := Workers.packed hreach hmode
  obtain ⟨hpositive, -, hall⟩ := hcomplete output hreturned
  have hlength := congrArg List.length (hkept.dispatched.trans hall)
  rw [List.length_map, List.length_map, List.length_reverse] at hlength
  rw [hlength]
  exact plan_length hpositive hfits

theorem dispatches_fewest_three :
    ∃ p : Workers Unit,
      (dispatches (p.log.of ())).length = 2 ∧
        (dispatches (p.log.of ())).length =
          ∑ context ∈ ((threeTexts.packed (p.log.of ())).leading.map
              Leader.batchClass).toFinset,
            ((threeTexts.packed (p.log.of ())).leading.map
              Leader.batchClass).count context ⌈/⌉ 2 := by
  obtain ⟨p, hreach, ⟨output, hreturned⟩, hlengths⟩ := threeTexts_returns
  refine ⟨p, ?_, dispatches_fewest hreach rfl hreturned ?_⟩
  · simpa using congrArg List.length hlengths
  · intro candidate _ hcount
    have hlength : candidate.length ≤ 2 := hcount
    have hbytes : threeTexts.provider.estimateRequestBytes
        (requestsForGroups candidate) = 100 * candidate.length :=
      congrArg (100 * ·) (requestsForGroups_length candidate)
    have hlimit : threeTexts.limits.maxRequestBytes = 1000 := rfl
    rw [hbytes, hlimit]
    omega

end DuckJeu
