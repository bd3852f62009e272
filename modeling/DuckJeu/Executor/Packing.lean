import DuckJeu.Executor.Requests
import DuckJeu.Executor.Workers
import DuckJeu.Effects.Extension
import DuckJeu.Support.Batches

/-!
# The packing of batches

After its claims a batched call knows its leaders, and the batches which it
will send are a function of them: the classes of the batch context, each cut
into batches.  This module keeps the books of a call about its claims and its
requests, and shows that what a call sends is always the beginning of this
plan, and all of it when the call succeeds.
-/

namespace DuckJeu

open Effects

/-! ## Batch contexts -/

theorem JudgmentIdentity.sameBatchContext_iff {a b : JudgmentIdentity} :
    a.sameBatchContext b = true ↔
      a.canonicalVersion = b.canonicalVersion ∧
        a.questionKind = b.questionKind ∧ a.criterion = b.criterion ∧
        a.question = b.question ∧ a.choices = b.choices ∧
        a.providerNamespace = b.providerNamespace ∧
        a.endpoint = b.endpoint ∧ a.requestedModel = b.requestedModel ∧
        a.effectiveModel = b.effectiveModel ∧
        a.credentialScope = b.credentialScope ∧
        a.unresolvedModelScope = b.unresolvedModelScope := by
  simp [JudgmentIdentity.sameBatchContext, and_assoc]

/-- Sharing a batch context is an equivalence. -/
def batchContext : Setoid JudgmentIdentity where
  r a b := a.sameBatchContext b = true
  iseqv := by
    refine ⟨fun a => ?_, fun {a b} h => ?_, fun {a b c} h h' => ?_⟩
    · simp [JudgmentIdentity.sameBatchContext_iff]
    · rw [JudgmentIdentity.sameBatchContext_iff] at h ⊢
      simp [h]
    · rw [JudgmentIdentity.sameBatchContext_iff] at h h' ⊢
      simp [h, h']

instance (a b : JudgmentIdentity) : Decidable (batchContext.r a b) :=
  inferInstanceAs (Decidable (a.sameBatchContext b = true))

instance : DecidableEq (Quotient batchContext) :=
  @Quotient.decidableEq _ batchContext fun a b =>
    inferInstanceAs (Decidable (a.sameBatchContext b = true))

/-- The batch context of a leader. -/
def Leader.batchClass (leader : Leader) : Quotient batchContext :=
  Quotient.mk batchContext leader.group.identity

theorem Leader.batchClass_eq_iff {leader leader' : Leader} :
    leader.batchClass = leader'.batchClass ↔
      leader.group.identity.sameBatchContext leader'.group.identity = true :=
  Quotient.eq (r := batchContext)

/-- Leaders are placed by first fit. -/
theorem place_eq_insert (leader : Leader) (partitions : List (List Leader)) :
    place leader partitions =
      Batches.insert Leader.batchClass leader partitions := by
  induction partitions with
  | nil => rfl
  | cons partition rest ih =>
      have hany : (partition.head?.any fun first =>
            first.group.identity.sameBatchContext leader.group.identity) =
          partition.head?.any fun first =>
            first.batchClass = leader.batchClass := by
        congr 1
        funext first
        rw [Bool.eq_iff_iff, decide_eq_true_iff, Leader.batchClass_eq_iff]
      rw [place, Batches.insert, hany, ih]

/-! ## The plan -/

/-- The identities and the requests of a batch. -/
def sending (batch : List Leader) :
    List JudgmentIdentity × List JudgmentRequest :=
  (batch.map fun leader => leader.group.identity, requestsForGroups batch)

section Plan

variable (provider : Provider) (limits : ExecutionLimits) (limit : ℕ)

/-- A batch exceeds the count or the byte limit. -/
def exceeds (batch : List Leader) : Bool :=
  exceedsLimits provider limits limit (requestsForGroups batch)

/-- The batches for these leaders. -/
def plan (leaders : List Leader) : List (List Leader) :=
  (Batches.classify Leader.batchClass leaders).flatMap
    (Batches.batches (exceeds provider limits limit) [])

/-- The lists of leaders which the loops over the partitions test against the
limits. -/
def candidateLists (leaders : List Leader) : List (List Leader) :=
  (Batches.classify Leader.batchClass leaders).flatMap
    (Batches.candidates (exceeds provider limits limit) [])

variable {provider limits limit}

theorem exceeds_eq_false_iff {batch : List Leader} :
    exceeds provider limits limit batch = false ↔
      batch.length ≤ limit ∧
        provider.estimateRequestBytes (requestsForGroups batch) ≤
          limits.maxRequestBytes := by
  simp [exceeds, exceedsLimits]

/-- The plan has every leader once. -/
theorem plan_flatten (leaders : List Leader) :
    (plan provider limits limit leaders).flatten.Perm leaders := by
  have hflatten : (plan provider limits limit leaders).flatten =
      (Batches.classify Leader.batchClass leaders).flatten := by
    rw [plan, List.flatMap, List.flatten_flatten, List.map_map]
    congr 1
    refine List.map_id'' (fun partition => ?_) _
    exact Batches.batches_flatten _ [] partition
  rw [hflatten]
  exact Batches.classify_flatten Leader.batchClass leaders

theorem plan_ne_nil {leaders batch : List Leader}
    (hmem : batch ∈ plan provider limits limit leaders) : batch ≠ [] := by
  obtain ⟨partition, -, hbatch⟩ := List.mem_flatMap.mp hmem
  exact Batches.batches_ne_nil hbatch

/-- The leaders of a batch share their batch context. -/
theorem plan_batchClass {leaders batch : List Leader}
    (hmem : batch ∈ plan provider limits limit leaders) {a b : Leader}
    (ha : a ∈ batch) (hb : b ∈ batch) : a.batchClass = b.batchClass := by
  obtain ⟨partition, hpartition, hbatch⟩ := List.mem_flatMap.mp hmem
  have hsubset := Batches.batches_subset hbatch
  exact (Batches.classify_classified Leader.batchClass leaders).key_eq
    hpartition (hsubset ha) (hsubset hb)

/-- With only the count in the way, the plan has as few batches as the limit
permits in each class. -/
theorem plan_length (hpositive : limit ≠ 0) {leaders : List Leader}
    (hfits : ∀ candidate ∈ candidateLists provider limits limit leaders,
      candidate.length ≤ limit →
        provider.estimateRequestBytes (requestsForGroups candidate) ≤
          limits.maxRequestBytes) :
    (plan provider limits limit leaders).length =
      ∑ context ∈ (leaders.map Leader.batchClass).toFinset,
        (leaders.map Leader.batchClass).count context ⌈/⌉ limit := by
  have hcount : ∀ batch, limit < batch.length →
      exceeds provider limits limit batch = true := by
    intro batch hlength
    simp [exceeds, exceedsLimits, hlength]
  have hcut : ∀ partition ∈ Batches.classify Leader.batchClass leaders,
      (Batches.batches (exceeds provider limits limit) [] partition).length =
        partition.length ⌈/⌉ limit := by
    intro partition hpartition
    have hempty : ([] : List Leader).length ≤ limit := Nat.zero_le limit
    have hlength := Batches.batches_length (Nat.pos_of_ne_zero hpositive)
      hcount hempty fun candidate hcandidate hroom =>
        exceeds_eq_false_iff.mpr ⟨hroom, hfits candidate
          (List.mem_flatMap.mpr ⟨partition, hpartition, hcandidate⟩) hroom⟩
    simpa using hlength
  rw [← Batches.classify_sum_length Leader.batchClass leaders
    fun size => size ⌈/⌉ limit, plan, List.length_flatMap]
  exact congrArg List.sum (List.map_congr_left hcut)

end Plan

/-! ## The books of a batched call -/

/-- The groups which a call has yet to claim, the leaders it has found, and
what it has sent. -/
structure Packing where
  unclaimed : List JudgmentGroup
  leading : List Leader
  sent : List (List JudgmentIdentity × List JudgmentRequest)

/-- The groups are claimed in order.  A group becomes a leader with an entry
of its own, unless its result is found in the cache. -/
def Packing.note (call : Call) (g : Packing) : ExecEvent → Packing
  | ⟨.claimQueryEntry _ _, .ok (entry, owned)⟩ =>
      match g.unclaimed with
      | [] => g
      | group :: rest =>
          { g with
            unclaimed := rest
            leading :=
              if owned then g.leading ++ [⟨group, entry, call.cacheKey group⟩]
              else g.leading }
  | ⟨.recordCacheHit _, _⟩ => { g with leading := g.leading.dropLast }
  | ⟨.judge _ carried requests, _⟩ =>
      { g with sent := g.sent ++ [(carried, requests)] }
  | _ => g

/-- The books after a history. -/
def Call.packed (call : Call) (h : History) : Packing :=
  h.foldr (fun event g => Packing.note call g event) ⟨call.groups, [], []⟩

/-- The batches of the plan which have been sent, none of them beyond a
limit. -/
def Packing.Planned (call : Call) (limit : ℕ) (g : Packing) : Prop :=
  ∃ batches, g.sent = batches.map sending ∧
    batches <+: plan call.provider call.limits limit g.leading ∧
    ∀ batch ∈ batches, exceeds call.provider call.limits limit batch = false

/-- Claims come first and in order, and the requests are those of the plan. -/
def packing (call : Call) (limit : ℕ) : Protocol Op Res Packing where
  note := fun g op r => Packing.note call g ⟨op, r⟩
  Allowed := fun g op =>
    match op with
    | .claimQueryEntry _ identity =>
        g.sent = [] ∧ ∃ group rest, g.unclaimed = group :: rest ∧
          group.identity = identity
    | .recordCacheHit _ => g.sent = []
    | .judge method carried requests =>
        method = .judgeMany ∧ ∃ before batch,
          g.sent = before.map sending ∧
          before ++ [batch] <+:
            plan call.provider call.limits limit g.leading ∧
          exceeds call.provider call.limits limit batch = false ∧
          (carried, requests) = sending batch
    | _ => True
  Admits := fun _ _ _ => True

theorem packing_replay (call : Call) (limit : ℕ) (h : History) :
    (packing call limit).replay ⟨call.groups, [], []⟩ h = call.packed h := by
  induction h with
  | nil => rfl
  | cons event h ih =>
      rw [Protocol.replay_cons, ih]
      rfl

section Ledger

variable {call : Call} {limit : ℕ}

theorem packing_ignores (op : Op) (hop : op.Decides = false) :
    (packing call limit).Ignores op := by
  intro g
  cases op with
  | claimQueryEntry => cases hop
  | recordCacheHit => cases hop
  | judge => cases hop
  | _ => exact ⟨trivial, fun r => rfl⟩

/-- What the books say about a history: the claims are those of the groups in
order, and what was sent belongs to the plan. -/
structure Packing.Kept (call : Call) (limit : ℕ) (h : History) (g : Packing) :
    Prop where
  planned : g.Planned call limit
  found : ∃ seen, call.groups = seen ++ g.unclaimed ∧
    (g.leading.map Leader.group).Sublist seen
  claimed : (claims h).reverse.map Claim.identity ++
    g.unclaimed.map JudgmentGroup.identity =
      call.groups.map JudgmentGroup.identity
  dispatched : (dispatches h).reverse.map
    (fun d => (d.carried, d.requests)) = g.sent

theorem Packing.kept_nil (call : Call) (limit : ℕ) :
    Packing.Kept call limit [] ⟨call.groups, [], []⟩ where
  planned := ⟨[], rfl, List.nil_prefix, by simp⟩
  found := ⟨[], rfl, List.Sublist.refl _⟩
  claimed := rfl
  dispatched := rfl

theorem Packing.Kept.event {h : History} {g : Packing} {op : Op}
    (hkept : Packing.Kept call limit h g)
    (hallowed : (packing call limit).Allowed g op) (r : Res op) :
    Packing.Kept call limit (⟨op, r⟩ :: h) (Packing.note call g ⟨op, r⟩) := by
  have hunsent : ∀ leading, g.sent = [] → ∀ unclaimed,
      Packing.Planned call limit ⟨unclaimed, leading, g.sent⟩ := by
    intro leading hsent unclaimed
    exact ⟨[], hsent, List.nil_prefix, by simp⟩
  obtain ⟨seen, hgroups, hfound⟩ := hkept.found
  cases op with
  | claimQueryEntry scope identity =>
      obtain ⟨hsent, group, rest, hunclaimed, hidentity⟩ := hallowed
      have hclaimed := hkept.claimed
      rw [hunclaimed] at hclaimed hgroups
      cases r with
      | error error =>
          exact ⟨hkept.planned, hkept.found, hkept.claimed, hkept.dispatched⟩
      | ok claim =>
          obtain ⟨entry, owned⟩ := claim
          simp only [Packing.note, hunclaimed]
          refine ⟨hunsent _ hsent _, ⟨seen ++ [group], ?_, ?_⟩, ?_,
            hkept.dispatched⟩
          · simpa using hgroups
          · by_cases howned : owned = true
            · rw [if_pos howned, List.map_append]
              exact hfound.append (List.Sublist.refl _)
            · rw [if_neg howned]
              exact hfound.trans (List.sublist_append_left seen [group])
          · rw [← hclaimed]
            simp [claims, ExecEvent.claim?, hidentity]
  | recordCacheHit scope =>
      refine ⟨hunsent _ hallowed _, ⟨seen, hgroups, ?_⟩, hkept.claimed,
        hkept.dispatched⟩
      exact ((List.dropLast_sublist g.leading).map Leader.group).trans hfound
  | judge method carried requests =>
      obtain ⟨-, before, batch, hsent, hfirst, hfits, hsending⟩ := hallowed
      obtain ⟨batches, hbatches, hplanned, hwithin⟩ := hkept.planned
      have hbefore : batches = before := by
        have hlength : batches.length = before.length := by
          have hmaps := congrArg List.length (hbatches.symm.trans hsent)
          simpa using hmaps
        have hshort := (List.prefix_append before [batch]).trans hfirst
        rw [List.prefix_iff_eq_take.mp hplanned,
          List.prefix_iff_eq_take.mp hshort, hlength]
      subst hbefore
      refine ⟨⟨batches ++ [batch], ?_, hfirst, ?_⟩, hkept.found,
        hkept.claimed, ?_⟩
      · simp [Packing.note, hsent, hsending]
      · intro other hother
        rcases List.mem_append.mp hother with hother | hother
        · exact hwithin other hother
        · rw [List.mem_singleton.mp hother]
          exact hfits
      · rw [Packing.note, ← hkept.dispatched]
        simp [dispatches, ExecEvent.dispatch?]
  | _ => exact ⟨hkept.planned, hkept.found, hkept.claimed, hkept.dispatched⟩

/-! ## The claims -/

/-- The claim loop has `rest` before it, and the books know its leaders. -/
structure Packing.Gathered (claimed : Claimed) (rest : List JudgmentGroup)
    (g : Packing) : Prop where
  sent_eq : g.sent = []
  unclaimed_eq : g.unclaimed = rest
  leading_eq : g.leading = claimed.leaders
  partitions_eq : claimed.partitions =
    Batches.classify Leader.batchClass claimed.leaders

theorem consultCache_packs {entry : ℕ} {cacheIdentity : Option JudgmentIdentity}
    {g : Packing} (hsent : g.sent = []) :
    Secures (packing call limit)
      (consultCache call.limits.queryScope entry cacheIdentity
        call.cachePolicy)
      (fun found g' =>
        match found with
        | none => g' = g
        | some _ => g' = { g with leading := g.leading.dropLast })
      (fun _ _ => True) g := by
  have hquiet : ∀ {op : Op} {g : Packing}, op.Decides = false →
      Secures (packing call limit) (perform op) (fun _ g' => g' = g)
        (fun _ _ => True) g := by
    intro op g hop
    rw [secures_lift]
    exact (packing_ignores op hop).follows rfl
  unfold consultCache
  cases call.cachePolicy with
  | none => exact rfl
  | some policy =>
      dsimp only
      split
      · rw [secures_bind]
        exact (hquiet rfl).mono (fun _ _ _ => trivial) fun _ _ h => h
      · rw [secures_bind]
        refine (hquiet rfl).mono ?_ fun _ _ h => h
        rintro now _ rfl
        rw [secures_bind]
        refine (hquiet rfl).mono ?_ fun _ _ h => h
        rintro cached _ rfl
        cases cached with
        | none => exact rfl
        | some result =>
            simp only [secures_bind, secures_lift, follows_perform]
            refine ⟨hsent, fun _ _ => ⟨trivial, fun _ _ => ?_⟩⟩
            exact rfl

theorem packing_note_claimed {g : Packing} {group : JudgmentGroup}
    {rest : List JudgmentGroup} (hunclaimed : g.unclaimed = group :: rest)
    (scope : ℕ) (identity : JudgmentIdentity) (entry : ℕ) (owned : Bool) :
    (packing call limit).note g (.claimQueryEntry scope identity)
        (.ok (entry, owned)) =
      { g with
        unclaimed := rest
        leading :=
          if owned then g.leading ++ [⟨group, entry, call.cacheKey group⟩]
          else g.leading } := by
  simp only [packing, Packing.note, hunclaimed]

/-- One round of the claim loop. -/
theorem claimGroup_gathers {claimed : Claimed} {group : JudgmentGroup}
    {rest : List JudgmentGroup} {g : Packing}
    (hgathered : Packing.Gathered claimed (group :: rest) g) :
    Secures (packing call limit)
      (claimGroup call.provider call.limits call.cachePolicy claimed group)
      (fun claimed' => Packing.Gathered claimed' rest)
      (fun _ _ => True) g := by
  obtain ⟨hsent, hunclaimed, hleading, hpartitions⟩ := hgathered
  unfold claimGroup
  split
  · trivial
  split
  · trivial
  dsimp only
  rw [secures_bind]
  unfold claimQueryEntry
  rw [secures_mk, follows_perform]
  refine ⟨⟨hsent, group, rest, hunclaimed, rfl⟩, fun claim _ => ?_⟩
  cases claim with
  | error error => trivial
  | ok claim =>
      obtain ⟨entry, owned⟩ := claim
      dsimp only
      rw [packing_note_claimed hunclaimed, secures_bind]
      refine (queryCancellation_ignored (unrecorded_ignored packing_ignores) _
        rfl).mono ?_ fun _ _ _ => trivial
      rintro flag _ rfl
      by_cases howned : owned = true
      · rw [if_pos howned, if_pos howned, secures_bind]
        refine Secures.mono (consultCache_packs ?_) ?_ fun _ _ h => h
        · exact hsent
        rintro found g' hfound
        cases found with
        | none =>
            obtain rfl : g' = _ := hfound
            refine ⟨hsent, rfl, ?_, ?_⟩
            · rw [hleading]
              rfl
            · simp only [hpartitions, place_eq_insert, Batches.classify,
                List.foldl_append, List.foldl_cons, List.foldl_nil]
        | some result =>
            obtain rfl : g' = _ := hfound
            refine ⟨hsent, rfl, ?_, hpartitions⟩
            simp [hleading]
      · rw [if_neg howned, if_neg howned]
        exact ⟨hsent, rfl, hleading, hpartitions⟩

theorem claimGroups_gathers {claimed : Claimed} {rest : List JudgmentGroup}
    {g : Packing} (hgathered : Packing.Gathered claimed rest g) :
    Secures (packing call limit)
      (claimGroups call.provider call.limits call.cachePolicy claimed rest)
      (fun claimed' => Packing.Gathered claimed' [])
      (fun _ _ => True) g := by
  induction rest generalizing claimed g with
  | nil => exact hgathered
  | cons group rest ih =>
      rw [claimGroups, secures_bind]
      exact (claimGroup_gathers hgathered).mono
        (fun claimed' g' hgathered' => ih hgathered') fun _ _ h => h

/-! ## The requests -/

/-- Of the plan for the leaders, the batches `before` have been sent, and the
batches `later` have not. -/
structure Packing.Sending (call : Call) (limit : ℕ) (leaders : List Leader)
    (before later : List (List Leader)) (g : Packing) : Prop where
  unclaimed_eq : g.unclaimed = []
  leading_eq : g.leading = leaders
  sent_eq : g.sent = before.map sending
  plan_eq : plan call.provider call.limits limit leaders = before ++ later

/-- Leaders which fail send nothing. -/
theorem failEntries_sends {α : Type} {failed : List Leader}
    {error : JudgmentError} {Q : α → Packing → Prop} {g : Packing} :
    Secures (packing call limit)
      (do
        failEntries error failed
        throw error : Exec α) Q (fun _ _ => True) g := by
  have hfailed : Keeps (packing call limit) (fun _ => True)
      (failEntries error failed) :=
    failEntries_ignored (unrecorded_ignored packing_ignores)
  rw [secures_bind]
  exact (hfailed g trivial).mono (fun _ _ _ => trivial) fun _ _ h => h

variable {leaders : List Leader} {before later : List (List Leader)}
  {g : Packing} {output : List (RowTarget × JudgmentResult)}

theorem dispatch_sends {batch : List Leader}
    (hsending : Packing.Sending call limit leaders before (batch :: later) g)
    (hfits : exceeds call.provider call.limits limit batch = false) :
    Secures (packing call limit)
      (dispatch call.provider call.limits call.cachePolicy batch output)
      (fun _ => Packing.Sending call limit leaders (before ++ [batch]) later)
      (fun _ _ => True) g := by
  obtain ⟨hunclaimed, hleading, hsent, hplan⟩ := hsending
  unfold dispatch
  dsimp only
  rw [secures_bind, secures_lift]
  refine Follows.mono (attemptRecorded_asks (attends_ignored packing_ignores)
    ?_ (finishBatch_ignored _ _)) ?_
  · refine ⟨rfl, before, batch, hsent, ?_, hfits, rfl⟩
    rw [hleading, hplan]
    exact ⟨later, by simp⟩
  · rintro (error | ⟨results, effectiveModel⟩) g' hasked
    · exact failEntries_sends
    · obtain ⟨response, -, rfl⟩ := hasked
      refine publish_ignored (unrecorded_ignored packing_ignores) _ ?_ |>.mono
        (fun _ _ h => h) fun _ _ _ => trivial
      refine ⟨hunclaimed, hleading, ?_, ?_⟩
      · simp [packing, Packing.note, hsent, sending]
      · simp [hplan]

theorem dispatchOrFail_sends (order : LeaderOrder) {ls batch : List Leader}
    (hsending : Packing.Sending call limit leaders before (batch :: later) g)
    (hfits : exceeds call.provider call.limits limit batch = false) :
    Secures (packing call limit)
      (dispatchOrFail call.provider call.limits call.cachePolicy order ls
        batch output)
      (fun _ => Packing.Sending call limit leaders (before ++ [batch]) later)
      (fun _ _ => True) g := by
  unfold dispatchOrFail
  rw [secures_bind, secures_lift]
  refine Follows.mono (dispatch_sends hsending hfits) ?_
  rintro (error | output') g' hpost
  · exact failEntries_sends
  · exact hpost

/-- The batches of one partition. -/
theorem executePartition_sends (order : LeaderOrder) {ls : List Leader}
    (current : List Leader) {rest : List Leader}
    (hcurrent : current = [] ∨
      exceeds call.provider call.limits limit current = false)
    (hsending : Packing.Sending call limit leaders before
      (Batches.batches (exceeds call.provider call.limits limit) current rest ++
        later) g) :
    Secures (packing call limit)
      (executePartition call.provider call.limits call.cachePolicy order ls
        limit current output rest)
      (fun _ => Packing.Sending call limit leaders
        (before ++ Batches.batches
          (exceeds call.provider call.limits limit) current rest) later)
      (fun _ _ => True) g := by
  induction rest generalizing current before g output with
  | nil =>
      rw [executePartition]
      rw [Batches.batches] at hsending ⊢
      by_cases hempty : current.isEmpty = true
      · rw [if_pos hempty] at hsending ⊢
        rw [if_pos hempty]
        simpa using hsending
      · rw [if_neg hempty] at hsending ⊢
        rw [if_neg hempty]
        have hfits := hcurrent.resolve_left (by simpa using hempty)
        exact dispatchOrFail_sends order hsending hfits
  | cons leader rest ih =>
      rw [executePartition]
      rw [Batches.batches] at hsending ⊢
      by_cases hlimits : exceedsLimits call.provider call.limits limit
          (requestsForGroups (current ++ [leader])) = true
      · have hexceeds : exceeds call.provider call.limits limit
            (current ++ [leader]) = true := hlimits
        rw [if_pos hexceeds] at hsending ⊢
        rw [if_pos hlimits]
        by_cases hempty : current.isEmpty = true
        · rw [if_pos hempty]
          exact failEntries_sends
        · rw [if_neg hempty] at hsending ⊢
          rw [if_neg hempty, secures_bind]
          have hfits := hcurrent.resolve_left (by simpa using hempty)
          refine (dispatchOrFail_sends order hsending hfits).mono ?_
            fun _ _ h => h
          intro output' g' hsending'
          by_cases halone : exceedsLimits call.provider call.limits limit
              (requestsForGroups [leader]) = true
          · rw [if_pos halone]
            exact failEntries_sends
          · have hsingle : exceeds call.provider call.limits limit
                [leader] = false := Bool.eq_false_iff.mpr halone
            rw [if_neg halone]
            refine (ih [leader] (Or.inr hsingle) hsending').mono ?_
              fun _ _ h => h
            intro _ _ hsent
            simpa using hsent
      · have hroom : exceeds call.provider call.limits limit
            (current ++ [leader]) = false := Bool.eq_false_iff.mpr hlimits
        rw [if_neg (Bool.eq_false_iff.mp hroom)] at hsending ⊢
        rw [if_neg hlimits]
        exact ih _ (Or.inr hroom) hsending

/-- The batches of all partitions. -/
theorem executePartitions_sends (order : LeaderOrder) {ls : List Leader}
    {partitions : List (List Leader)}
    (hsending : Packing.Sending call limit leaders before
      (partitions.flatMap (Batches.batches
        (exceeds call.provider call.limits limit) [])) g) :
    Secures (packing call limit)
      (executePartitions call.provider call.limits call.cachePolicy order ls
        limit output partitions)
      (fun _ => Packing.Sending call limit leaders
        (before ++ partitions.flatMap (Batches.batches
          (exceeds call.provider call.limits limit) [])) [])
      (fun _ _ => True) g := by
  induction partitions generalizing before g output with
  | nil =>
      rw [executePartitions, List.flatMap_nil, List.append_nil]
      exact hsending
  | cons partition rest ih =>
      rw [List.flatMap_cons] at hsending ⊢
      rw [executePartitions, secures_bind]
      refine (executePartition_sends order [] (Or.inl rfl) hsending).mono ?_
        fun _ _ h => h
      intro output' g' hsending'
      rw [← List.append_assoc]
      exact ih hsending'

/-! ## The whole call -/

/-- Everything which a successful batched call had to send is sent. -/
structure Packing.Complete (call : Call) (limit : ℕ) (g : Packing) : Prop where
  positive : limit ≠ 0
  unclaimed_eq : g.unclaimed = []
  sent_eq : g.sent =
    (plan call.provider call.limits limit g.leading).map sending

end Ledger

theorem Call.packs {call : Call} {maxJudgments : ℕ} {order : LeaderOrder}
    (hmode : call.mode = .batched maxJudgments order) :
    Follows (packing call (batchLimit call.provider maxJudgments)) call.program
      (fun answer g => ∀ output, answer = .ok output →
        g.Complete call (batchLimit call.provider maxJudgments))
      ⟨call.groups, [], []⟩ := by
  have hsecures : Secures
      (packing call (batchLimit call.provider maxJudgments)) call.exec
      (fun _ g => g.Complete call (batchLimit call.provider maxJudgments))
      (fun _ _ => True) ⟨call.groups, [], []⟩ := by
    unfold Call.exec
    rw [hmode]
    dsimp only [executeBatchGroups]
    split
    · trivial
    split
    · trivial
    split
    · trivial
    rename_i hpositive
    rw [secures_bind]
    have hgathered : Packing.Gathered {} call.groups
        ⟨call.groups, [], []⟩ := ⟨rfl, rfl, rfl, rfl⟩
    refine (claimGroups_gathers hgathered).mono ?_ fun _ _ h => h
    rintro claimed g ⟨hsent, hunclaimed, hleading, hpartitions⟩
    rw [secures_bind, hpartitions]
    have hsending : Packing.Sending call
        (batchLimit call.provider maxJudgments) claimed.leaders []
        (plan call.provider call.limits
          (batchLimit call.provider maxJudgments) claimed.leaders) g :=
      ⟨hunclaimed, hleading, hsent, rfl⟩
    refine (executePartitions_sends order hsending).mono ?_ fun _ _ h => h
    rintro output g' ⟨hunclaimed', hleading', hsent', -⟩
    have hcomplete : g'.Complete call
        (batchLimit call.provider maxJudgments) :=
      ⟨hpositive, hunclaimed', hleading' ▸ hsent'⟩
    exact (awaitFollowers_ignored (unrecorded_ignored packing_ignores) _
      hcomplete).mono (fun _ _ h => h) fun _ _ _ => trivial
  refine Follows.mono hsecures ?_
  rintro (error | output) g hpost
  · intro output heq
    cases heq
  · exact fun _ _ => hpost

end DuckJeu
