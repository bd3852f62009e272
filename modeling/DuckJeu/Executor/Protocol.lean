import DuckJeu.Executor.History

/-!
# The protocol of a call

What a call of the executor may do depends on what it has done.  It completes
only entries which it owns, and with a result only if that result came out of
the cache or out of a validated response.  It sends a request only for
identities which it owns and for which it has not sent one before.  It waits
only when it holds no permit and has completed everything it owns.

The surroundings promise one thing in return: an entry given to its owner was
not given out before.
-/

namespace DuckJeu

open Effects

/-- The response was accepted, and has this answer for this request, under
some key and the given effective model. -/
def Dispatch.Answers (d : Dispatch) (request : JudgmentRequest)
    (result : JudgmentResult) (model : Option String) : Prop :=
  ∃ response key, d.response = .ok response ∧
    validateBatchResult d.requests response = .ok () ∧
    { request with requestKey := key } ∈ d.requests ∧
    ⟨key, result⟩ ∈ response.answers ∧
    response.metadata.effectiveModel = model

namespace Call

variable (call : Call)

/-- The key under which the results of a group are cached, if they are. -/
def cacheKey (group : JudgmentGroup) : Option JudgmentIdentity :=
  call.cachePolicy.bind fun _ => cacheIdentityFor group call.provider

/-- A batched call which sends requests has put all its groups through the
gate. -/
def Cleared : Prop :=
  ∀ maxJudgments order, call.mode = .batched maxJudgments order →
    ∀ group ∈ call.groups, call.provider.gate group.request = true

/-- The guards in front of the loop over the groups turn the call away. -/
def Rejected : Prop :=
  match call.mode with
  | .single => call.limits.maxRequestBytes = 0
  | .batched maxJudgments _ =>
      call.provider.capabilities.multiStateBatch ≠ .verified ∨
        maxJudgments = 0 ∨ call.limits.maxRequestBytes = 0 ∨
          batchLimit call.provider maxJudgments = 0

/-- The provider call which belongs to the mode. -/
def method : ProviderCall :=
  match call.mode with
  | .single => .judgeWithMetadata
  | .batched _ _ => .judgeMany

/-- These requests are the requests of groups with these identities, up to
their keys. -/
def Carries (carried : List JudgmentIdentity)
    (requests : List JudgmentRequest) : Prop :=
  List.Forall₂ (fun identity request =>
    ∃ group ∈ call.groups, group.identity = identity ∧
      ∃ key, request = { group.request with requestKey := key })
    carried requests

/-- The cache has served this result for the group. -/
def Hit (h : History) (group : JudgmentGroup) (result : JudgmentResult) :
    Prop :=
  ∃ now policy, (⟨.cacheLookup (call.cacheKey group) now policy,
    some result⟩ : ExecEvent) ∈ h

/-- Some accepted response has this result for the group. -/
def Judged (h : History) (group : JudgmentGroup) (result : JudgmentResult) :
    Prop :=
  ∃ d ∈ dispatches h, ∃ model, d.Answers group.request result model

def Sourced (h : History) (identity : JudgmentIdentity)
    (result : JudgmentResult) : Prop :=
  ∃ group ∈ call.groups, group.identity = identity ∧
    (call.Hit h group result ∨ Judged h group result)

/-- The result may be cached under the key: the last response of this call was
accepted, has the result for a group with this key, and reports the model of
the key. -/
def Validated (h : History) (key : JudgmentIdentity)
    (result : JudgmentResult) : Prop :=
  ∃ group ∈ call.groups, call.cacheKey group = some key ∧
    ∃ d, lastDispatch h = some d ∧
      d.Answers group.request result key.effectiveModel

/-- The guards have let the call through: those in front of the loop over the
groups, and the gate of a batched call. -/
structure Admissible : Prop where
  accepted : ¬ call.Rejected
  cleared : call.Cleared

/-- The requests which a call may send: under a permit, with distinct keys,
and for owned identities which it has not sent before. -/
structure Sends (h : History) (method : ProviderCall)
    (carried : List JudgmentIdentity) (requests : List JudgmentRequest) :
    Prop where
  method_eq : method = call.method
  permit : permits h = 1
  admissible : call.Admissible
  carries : call.Carries carried requests
  keys : (requests.map JudgmentRequest.requestKey).Nodup
  unsent : (carriedIn h ++ carried).Subperm (ownedIdentities h)

/-- What a call may do after a history. -/
def Allowed (h : History) : Op → Prop
  | .claimQueryEntry scope identity =>
      scope = call.limits.queryScope ∧ permits h = 0 ∧
        ∃ group ∈ call.groups, group.identity = identity
  | .queryCancellation scope => scope = call.limits.queryScope
  | .recordProviderAttempt _ requests _ =>
      permits h = 1 ∧ call.Admissible ∧
        ∃ carried, call.Carries carried requests
  | .cacheLookup key _ policy =>
      call.cachePolicy = some policy ∧
        ∃ group ∈ call.groups, key = call.cacheKey group
  | .cacheInsert key result _ _ => call.Validated h key result
  | .acquirePermit maxInflight flag =>
      maxInflight = call.limits.maxInflight ∧ permits h = 0 ∧
        (⟨.queryCancellation call.limits.queryScope, .ok flag⟩ : ExecEvent) ∈ h
  | .dropPermit => permits h = 1
  | .complete entry outcome =>
      ∃ identity, ⟨identity, entry, true⟩ ∈ claims h ∧
        ∀ result, outcome = .ok result → call.Sourced h identity result
  | .wait entry _ =>
      permits h = 0 ∧ AllCompleted h ∧
        (∀ c ∈ completions h, ∃ result, c.2 = .ok result) ∧
        ∃ identity, ⟨identity, entry, false⟩ ∈ claims h
  | .judge method carried requests => call.Sends h method carried requests
  | _ => True

end Call

/-- What the surroundings may answer after a history. -/
def Admitted (h : History) : (op : Op) → Res op → Prop
  | .claimQueryEntry _ _, .ok (entry, true) =>
      ∀ claim ∈ claims h, claim.entry ≠ entry
  | _, _ => True

abbrev Call.protocol (call : Call) : Protocol Op Res History :=
  Protocol.ofHistory call.Allowed Admitted

/-! ## What a call achieves -/

namespace Call

variable (call : Call)

/-- The output has the rows of every group, each with a known result. -/
def Served (h : History) (output : List (RowTarget × JudgmentResult)) : Prop :=
  ∃ assigned : List (JudgmentGroup × JudgmentResult),
    output = assigned.flatMap (fun a => a.1.expand a.2) ∧
      (assigned.map Prod.fst).Perm call.groups ∧
      ∀ a ∈ assigned, Answered h a.1.identity a.2

/-- The policy, if there is one, is valid. -/
def PolicyValid : Prop :=
  ∀ policy ∈ call.cachePolicy, policy.validate = .ok ()

/-- The request which the byte limit is tested on when the group is alone. -/
def aloneRequest (group : JudgmentGroup) : JudgmentRequest :=
  match call.mode with
  | .single => group.request
  | .batched _ _ => { group.request with requestKey := "r" ++ toString 0 }

/-- The group does not fit the byte limit even when it is alone. -/
def TooLarge (group : JudgmentGroup) : Prop :=
  call.limits.maxRequestBytes <
    call.provider.estimateRequestBytes [call.aloneRequest group]

/-- A batched call has met a group outside the capabilities after it had
claimed the entry of an earlier one. -/
def Abandoned (h : History) : Prop :=
  (∃ maxJudgments order, call.mode = .batched maxJudgments order) ∧
    ¬ call.Rejected ∧ call.PolicyValid ∧
    ∃ before group after, call.groups = before ++ group :: after ∧
      (∀ earlier ∈ before, call.provider.gate earlier.request = true) ∧
      call.provider.gate group.request = false ∧
      ∃ earlier ∈ before, ∃ entry,
        ⟨earlier.identity, entry, true⟩ ∈ claims h

/-- A call fails for one of these reasons. -/
def Cause (h : History) : Prop :=
  call.Rejected ∨ ¬ call.Cleared ∨ ¬ call.PolicyValid ∨
    (∃ group ∈ call.groups, call.TooLarge group) ∨ Troubled h

/-- How a call leaves its history when it returns. -/
def Post : Answer → History → Prop
  | .ok output, h =>
      permits h = 0 ∧ AllCompleted h ∧ call.Served h output ∧ call.Admissible
  | .error _, h =>
      permits h = 0 ∧ (AllCompleted h ∨ Refused h ∨ call.Abandoned h) ∧
        call.Cause h

end Call

end DuckJeu
