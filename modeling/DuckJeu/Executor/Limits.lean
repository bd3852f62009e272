import DuckJeu.Executor.Dispatches

/-!
# Requests within the limits

Whatever else happens, a call sends only requests which the provider estimates
to be within the byte limit.  Without batches each of them is about one
judgment.  With batches several judgments share a request only if they are of
groups of the call which share a batch context and keep the limits together.
-/

namespace DuckJeu

open Effects

/-! ## Requests within the limit -/

/-- The provider estimates that the request is within the limit; a call for
one request has one. -/
def Op.WithinCap (provider : Provider) (limits : ExecutionLimits) : Op → Prop
  | .judge method _ requests =>
      provider.estimateRequestBytes requests ≤ limits.maxRequestBytes ∧
        (method = .judgeWithMetadata → ∃ request, requests = [request])
  | _ => True

/-- The protocol which allows requests within the limit. -/
def capping (call : Call) : Protocol Op Res Unit where
  note := fun g _ _ => g
  Allowed := fun _ op => op.WithinCap call.provider call.limits
  Admits := fun _ _ _ => True

section Single

variable {call : Call} {I : Unit → Prop}

theorem capping_ignores {op : Op} (hop : ∀ method carried requests,
    op ≠ .judge method carried requests) : (capping call).Ignores op := by
  intro g
  cases op with
  | judge method carried requests =>
      exact absurd rfl (hop method carried requests)
  | _ => exact ⟨trivial, fun _ => rfl⟩

theorem capping_undecided (op : Op) (hop : op.Decides = false) :
    (capping call).Ignores op := by
  refine capping_ignores ?_
  rintro method carried requests rfl
  cases hop

/-- The size of a single request is checked before the attempt. -/
theorem executeOwned_capped {group : JudgmentGroup}
    {cacheIdentity : Option JudgmentIdentity} {entry : ℕ} :
    Keeps (capping call) I
      (executeOwned group call.provider call.limits call.cachePolicy
        cacheIdentity entry) := by
  have hunrecorded : ∀ op : Op, op.Unrecorded = true →
      (capping call).Ignores op := unrecorded_ignored capping_undecided
  unfold executeOwned
  refine (consultCache_ignored hunrecorded fun _ =>
    capping_ignores (by simp)).bind fun found => ?_
  cases found with
  | some result => exact keeps_pure result
  | none =>
      dsimp only
      split
      · exact (hunrecorded _ rfl).keeps.bind fun _ => keeps_throw _
      · rename_i hsize
        have hcap : Op.WithinCap call.provider call.limits
            (.judge .judgeWithMetadata [group.identity] [group.request]) :=
          ⟨not_lt.mp hsize, fun _ => ⟨group.request, rfl⟩⟩
        have hattempt : Keeps (capping call) I
            (ExceptT.lift (attemptRecorded call.limits
              call.provider.makesExternalRequest .judgeWithMetadata
              [group.identity] [group.request]
              (finishSingle group call.provider cacheIdentity
                call.cachePolicy)) : Exec _) := by
          refine keeps_lift fun g hg => ?_
          refine (attemptRecorded_asks (attends_ignored capping_undecided)
            hcap (finishSingle_ignored hunrecorded _ _ _ _)).mono ?_
          exact fun _ _ _ => hg
        refine hattempt.bind fun outcome => ?_
        refine (hunrecorded _ rfl).keeps.bind fun _ => ?_
        exact keeps_mk fun _ hg => hg

theorem executeEach_capped {output : List (RowTarget × JudgmentResult)}
    {groups : List JudgmentGroup} :
    Keeps (capping call) I
      (executeEach call.provider call.limits call.cachePolicy output
        groups) := by
  have hunrecorded : ∀ op : Op, op.Unrecorded = true →
      (capping call).Ignores op := unrecorded_ignored capping_undecided
  induction groups generalizing output with
  | nil => exact keeps_pure output
  | cons group rest ih =>
      rw [executeEach]
      refine Keeps.bind ?_ fun result => ih
      unfold executeOneGroup
      dsimp only
      refine Keeps.bind (keeps_mk fun _ hg =>
        (capping_ignores (by simp)).follows hg) fun claim => ?_
      refine (queryCancellation_ignored hunrecorded).bind fun cancelled => ?_
      split
      · exact executeOwned_capped
      · exact waitEntry_ignored hunrecorded

theorem Call.capped_single (hmode : call.mode = .single) :
    Follows (capping call) call.program (fun _ _ => True) () := by
  have hkeeps : Keeps (capping call) (fun _ => True) call.exec := by
    unfold Call.exec
    rw [hmode]
    dsimp only [executeGroups]
    split
    · exact keeps_throw _
    · exact executeEach_capped
  exact hkeeps.run trivial

end Single

/-! ## Every call -/

/-- A batch of the plan is only sent when it is within the limits. -/
theorem packing_withinCap {call : Call} {limit : ℕ} {g : Packing} {op : Op}
    (hallowed : (packing call limit).Allowed g op) :
    op.WithinCap call.provider call.limits := by
  cases op with
  | judge method carried requests =>
      obtain ⟨hmethod, before, batch, -, -, hfits, hsending⟩ := hallowed
      obtain ⟨-, hrequests⟩ := Prod.mk.inj hsending
      obtain ⟨-, hbytes⟩ := exceeds_eq_false_iff.mp hfits
      refine ⟨?_, fun hsingle => ?_⟩
      · rw [hrequests]
        exact hbytes
      · rw [hmethod] at hsingle
        cases hsingle
  | _ => exact trivial

/-- Whatever has happened, a call has only sent requests within the limit. -/
theorem Call.withinCap {call : Call} {h : History}
    {p : Prog Op Res Answer} (hafter : call.program.After h p) :
    ∀ event ∈ h, Op.WithinCap call.provider call.limits event.1 := by
  cases hmode : call.mode with
  | single =>
      exact hafter.performed (fun _ _ _ => trivial)
        (fun _ _ hallowed => hallowed) (Call.capped_single hmode)
  | batched maxJudgments order =>
      exact hafter.performed (fun _ _ _ => trivial)
        (fun _ _ hallowed => packing_withinCap hallowed) (Call.packs hmode)

/-! ## Requests with several judgments -/

/-- The call may send a request for the group which carries other groups as
well: at least two of its groups share a batch context and keep the limits
together, and the request of this group is among theirs. -/
def Call.Combines (call : Call) (group : JudgmentGroup) : Prop :=
  call.Admissible ∧ ∃ maxJudgments order batch,
    call.mode = .batched maxJudgments order ∧
      (batch.map Leader.group).Subperm call.groups ∧ 2 ≤ batch.length ∧
      (∀ a ∈ batch, ∀ b ∈ batch,
        a.group.identity.sameBatchContext b.group.identity = true) ∧
      exceedsLimits call.provider call.limits
        (batchLimit call.provider maxJudgments) (requestsForGroups batch) =
          false ∧
      ∃ requestKey, { group.request with requestKey := requestKey } ∈
        requestsForGroups batch

section Workers

variable {ι : Type} [DecidableEq ι] {c : ConnectionRuntime} {calls : ι → Call}
  {host : ConnectionRuntime → ConnectionRuntime → Prop} {p : Workers ι} {i : ι}
  {d : Dispatch}

/-- A request without other judgments, or one which the call may send for each
of its judgments. -/
theorem Workers.alone_or_combines
    (hslots : ∀ c c', host c c' → c'.slots = c.slots)
    (hreach : Workers.Reach host (Workers.start c calls) p)
    (hd : d ∈ dispatches (p.log.of i)) {group : JudgmentGroup}
    {requestKey : String}
    (hmem : { group.request with requestKey := requestKey } ∈ d.requests) :
    d.requests.length = 1 ∨ (calls i).Combines group := by
  obtain ⟨method, hevent⟩ := mem_dispatches.mp hd
  obtain ⟨older, -, hsends⟩ := Workers.allowed hslots hreach hevent
  cases hmode : (calls i).mode with
  | single =>
      obtain ⟨-, hsingle⟩ :=
        Call.withinCap (Pool.Reachable.after hreach rfl i) _ hevent
      have hmethod : method = .judgeWithMetadata := by
        rw [hsends.method_eq, Call.method, hmode]
      obtain ⟨request, hrequests⟩ := hsingle hmethod
      have hlength := congrArg List.length hrequests
      exact Or.inl hlength
  | batched maxJudgments order =>
      obtain ⟨hkept, -⟩ := Workers.packed hreach hmode
      obtain ⟨batches, hsent, hfirst, hfits⟩ := hkept.planned
      have hcarried : (d.carried, d.requests) ∈ batches.map sending := by
        rw [← hsent, ← hkept.dispatched]
        exact List.mem_map_of_mem
          (f := fun d : Dispatch => (d.carried, d.requests))
          (List.mem_reverse.mpr hd)
      obtain ⟨batch, hbatch, hsending⟩ := List.mem_map.mp hcarried
      obtain ⟨-, hrequests⟩ := Prod.mk.inj hsending
      have hplanned := hfirst.subset hbatch
      rcases Nat.lt_or_ge batch.length 2 with hshort | hseveral
      · have hpositive := List.length_pos_of_mem hmem
        have hlength := congrArg List.length hrequests
        rw [requestsForGroups_length] at hlength
        exact Or.inl (by omega)
      · refine Or.inr ⟨hsends.admissible, maxJudgments, order, batch, hmode, ?_,
          hseveral, ?_, hfits batch hbatch, requestKey, hrequests ▸ hmem⟩
        · obtain ⟨seen, hgroups, hfound⟩ := hkept.found
          have hleading : (batch.map Leader.group).Subperm
              (((calls i).packed (p.log.of i)).leading.map Leader.group) :=
            ((List.sublist_flatten_of_mem hplanned).map _).subperm.trans
              ((plan_flatten _).map _).subperm
          rw [hgroups]
          exact hleading.trans
            (hfound.trans (List.sublist_append_left seen _)).subperm
        · intro a ha b hb
          exact Leader.batchClass_eq_iff.mp (plan_batchClass hplanned ha hb)

end Workers

end DuckJeu
