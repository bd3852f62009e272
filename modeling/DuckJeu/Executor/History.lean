import DuckJeu.Executor.Execute

/-!
# What a history tells

The history of a call lists what it performed, the newest first.  This module
reads off it the claims of the call, the completions it made, the requests it
sent, and the permit it holds.  Each reading is a sum over the events, so that
one more event adds at most one item to it.
-/

namespace DuckJeu

open Effects

/-! ## Readings of one event -/

/-- A successful claim. -/
structure Claim where
  identity : JudgmentIdentity
  entry : ℕ
  owned : Bool
  deriving DecidableEq

/-- A request to the provider and its response. -/
structure Dispatch where
  carried : List JudgmentIdentity
  requests : List JudgmentRequest
  response : Except JudgmentError ProviderBatchResult

namespace ExecEvent

def claim? : ExecEvent → Option Claim
  | ⟨.claimQueryEntry _ identity, .ok (entry, owned)⟩ =>
      some ⟨identity, entry, owned⟩
  | _ => none

def completion? : ExecEvent → Option (ℕ × Outcome)
  | ⟨.complete entry outcome, _⟩ => some (entry, outcome)
  | _ => none

def dispatch? : ExecEvent → Option Dispatch
  | ⟨.judge _ carried requests, response⟩ => some ⟨carried, requests, response⟩
  | _ => none

/-- The query has turned the call away. -/
def Refuses : ExecEvent → Prop
  | ⟨.claimQueryEntry _ _, .error _⟩ => True
  | ⟨.queryCancellation _, .error _⟩ => True
  | _ => False

/-- The event has given the call a reason to fail. -/
def Troubles : ExecEvent → Prop
  | ⟨.claimQueryEntry _ _, .error _⟩ => True
  | ⟨.queryCancellation _, .error _⟩ => True
  | ⟨.acquirePermit _ _, .error _⟩ => True
  | ⟨.wait _ _, .error _⟩ => True
  | ⟨.judge _ _ _, .error _⟩ => True
  | ⟨.judge _ _ requests, .ok response⟩ =>
      validateBatchResult requests response ≠ .ok ()
  | _ => False

end ExecEvent

/-! ## Readings of a history -/

def claims (h : History) : List Claim := h.filterMap ExecEvent.claim?

def completions (h : History) : List (ℕ × Outcome) :=
  h.filterMap ExecEvent.completion?

def dispatches (h : History) : List Dispatch :=
  h.filterMap ExecEvent.dispatch?

/-- The request sent last. -/
def lastDispatch (h : History) : Option Dispatch := (dispatches h).head?

/-- The permits held. -/
def permits : History → ℕ
  | [] => 0
  | ⟨.acquirePermit _ _, .ok _⟩ :: h => permits h + 1
  | ⟨.dropPermit, _⟩ :: h => permits h - 1
  | _ :: h => permits h

/-- The identities for which a request was sent. -/
def carriedIn (h : History) : List JudgmentIdentity :=
  (dispatches h).flatMap Dispatch.carried

def ownedClaims (h : History) : List Claim :=
  (claims h).filter Claim.owned

def ownedIdentities (h : History) : List JudgmentIdentity :=
  (ownedClaims h).map Claim.identity

/-- The call has completed this entry. -/
def Completed (h : History) (entry : ℕ) : Prop :=
  ∃ outcome, (entry, outcome) ∈ completions h

/-- The call has completed every entry which it owns. -/
def AllCompleted (h : History) : Prop :=
  ∀ claim ∈ ownedClaims h, Completed h claim.entry

/-- The first completion of an entry by this call. -/
def firstCompletion (h : History) (entry : ℕ) : Option Outcome :=
  ((completions h).reverse.find? fun c => c.1 == entry).map Prod.snd

/-- The query has turned the call away. -/
def Refused (h : History) : Prop := ∃ event ∈ h, ExecEvent.Refuses event

def Troubled (h : History) : Prop := ∃ event ∈ h, ExecEvent.Troubles event

/-- The result of an identity is known: this call has completed its own entry
with it, or has waited for the entry of somebody else. -/
def Answered (h : History) (identity : JudgmentIdentity)
    (result : JudgmentResult) : Prop :=
  ∃ entry,
    (⟨identity, entry, true⟩ ∈ claims h ∧
        firstCompletion h entry = some (.ok result)) ∨
      (⟨identity, entry, false⟩ ∈ claims h ∧
        ∃ flag, (⟨.wait entry flag, .ok result⟩ : ExecEvent) ∈ h)

theorem mem_claims {h : History} {claim : Claim} :
    claim ∈ claims h ↔ ∃ scope,
      (⟨.claimQueryEntry scope claim.identity,
        .ok (claim.entry, claim.owned)⟩ : ExecEvent) ∈ h := by
  simp only [claims, List.mem_filterMap]
  constructor
  · rintro ⟨⟨op, r⟩, hmem, hclaim⟩
    unfold ExecEvent.claim? at hclaim
    split at hclaim
    · rename_i scope identity entry owned heq
      obtain rfl := Option.some.inj hclaim
      exact ⟨scope, heq ▸ hmem⟩
    · cases hclaim
  · rintro ⟨scope, hmem⟩
    exact ⟨_, hmem, rfl⟩

theorem mem_completions {h : History} {entry : ℕ} {outcome : Outcome} :
    (entry, outcome) ∈ completions h ↔
      (⟨.complete entry outcome, ()⟩ : ExecEvent) ∈ h := by
  simp only [completions, List.mem_filterMap]
  constructor
  · rintro ⟨⟨op, r⟩, hmem, hcompletion⟩
    unfold ExecEvent.completion? at hcompletion
    split at hcompletion
    · rename_i entry' outcome' r heq
      obtain ⟨rfl, rfl⟩ := Prod.mk.inj (Option.some.inj hcompletion)
      exact heq ▸ hmem
    · cases hcompletion
  · intro hmem
    exact ⟨_, hmem, rfl⟩

theorem mem_dispatches {h : History} {d : Dispatch} :
    d ∈ dispatches h ↔ ∃ method,
      (⟨.judge method d.carried d.requests, d.response⟩ : ExecEvent) ∈ h := by
  simp only [dispatches, List.mem_filterMap]
  constructor
  · rintro ⟨⟨op, r⟩, hmem, hdispatch⟩
    unfold ExecEvent.dispatch? at hdispatch
    split at hdispatch
    · rename_i method carried requests response heq
      obtain rfl := Option.some.inj hdispatch
      exact ⟨method, heq ▸ hmem⟩
    · cases hdispatch
  · rintro ⟨method, hmem⟩
    exact ⟨_, hmem, rfl⟩

theorem lastDispatch_mem {h : History} {d : Dispatch}
    (hd : lastDispatch h = some d) : d ∈ dispatches h :=
  List.mem_of_mem_head? hd

/-! ## Growth -/

section Growth

variable {h h' h'' : History}

theorem claims_append (later h : History) :
    claims (later ++ h) = claims later ++ claims h := by
  simp [claims]

theorem completions_append (later h : History) :
    completions (later ++ h) = completions later ++ completions h := by
  simp [completions]

theorem dispatches_append (later h : History) :
    dispatches (later ++ h) = dispatches later ++ dispatches h := by
  simp [dispatches]

theorem claims_subset (hsuffix : h <:+ h') : claims h ⊆ claims h' := by
  obtain ⟨later, rfl⟩ := hsuffix
  rw [claims_append]
  exact List.subset_append_right _ _

theorem completions_subset (hsuffix : h <:+ h') :
    completions h ⊆ completions h' := by
  obtain ⟨later, rfl⟩ := hsuffix
  rw [completions_append]
  exact List.subset_append_right _ _

theorem dispatches_subset (hsuffix : h <:+ h') :
    dispatches h ⊆ dispatches h' := by
  obtain ⟨later, rfl⟩ := hsuffix
  rw [dispatches_append]
  exact List.subset_append_right _ _

theorem Completed.mono {entry : ℕ} (hcompleted : Completed h entry)
    (hsuffix : h <:+ h') : Completed h' entry := by
  obtain ⟨outcome, hmem⟩ := hcompleted
  exact ⟨outcome, completions_subset hsuffix hmem⟩

theorem mem_ownedClaims {claim : Claim} :
    claim ∈ ownedClaims h ↔ claim ∈ claims h ∧ claim.owned = true := by
  simp [ownedClaims]

/-- The first completion is a completion, and is not displaced. -/
theorem firstCompletion_mem {entry : ℕ} {outcome : Outcome}
    (hfirst : firstCompletion h entry = some outcome) :
    (entry, outcome) ∈ completions h := by
  simp only [firstCompletion, Option.map_eq_some_iff] at hfirst
  obtain ⟨⟨entry', outcome'⟩, hfind, rfl⟩ := hfirst
  have hentry : entry' = entry := by simpa using List.find?_some hfind
  subst hentry
  exact List.mem_reverse.mp (List.mem_of_find?_eq_some hfind)

theorem firstCompletion_eq_none {entry : ℕ} :
    firstCompletion h entry = none ↔ ¬ Completed h entry := by
  simp only [firstCompletion, Option.map_eq_none_iff, List.find?_eq_none,
    List.mem_reverse, Completed]
  constructor
  · rintro hnone ⟨outcome, hmem⟩
    exact hnone _ hmem (by simp)
  · rintro hnone ⟨entry', outcome⟩ hmem heq
    obtain rfl : entry' = entry := by simpa using heq
    exact hnone ⟨outcome, hmem⟩

theorem firstCompletion_append (later : History) (entry : ℕ) :
    firstCompletion (later ++ h) entry =
      (firstCompletion h entry).or (firstCompletion later entry) := by
  simp [firstCompletion, completions_append, List.find?_append,
    Option.map_or]

theorem firstCompletion_mono {entry : ℕ} {outcome : Outcome}
    (hfirst : firstCompletion h entry = some outcome) (hsuffix : h <:+ h') :
    firstCompletion h' entry = some outcome := by
  obtain ⟨later, rfl⟩ := hsuffix
  rw [firstCompletion_append, hfirst]
  rfl

theorem Answered.mono {identity : JudgmentIdentity} {result : JudgmentResult}
    (hanswered : Answered h identity result) (hsuffix : h <:+ h') :
    Answered h' identity result := by
  obtain ⟨entry, ⟨hclaim, hfirst⟩ | ⟨hclaim, flag, hwait⟩⟩ := hanswered
  · exact ⟨entry, Or.inl ⟨claims_subset hsuffix hclaim,
      firstCompletion_mono hfirst hsuffix⟩⟩
  · exact ⟨entry, Or.inr ⟨claims_subset hsuffix hclaim, flag,
      hsuffix.subset hwait⟩⟩

theorem Refused.troubled (hrefused : Refused h) : Troubled h := by
  obtain ⟨event, hmem, hrefuses⟩ := hrefused
  refine ⟨event, hmem, ?_⟩
  unfold ExecEvent.Refuses at hrefuses
  split at hrefuses
  · trivial
  · trivial
  · exact hrefuses.elim

/-- `h'` extends `h` by events with these claims, completions and requests. -/
structure Grown (h h' : History) (claimed : List Claim)
    (completed : List (ℕ × Outcome)) (dispatched : List Dispatch) : Prop where
  suffix : h <:+ h'
  claims_eq : claims h' = claimed ++ claims h
  completions_eq : completions h' = completed ++ completions h
  dispatches_eq : dispatches h' = dispatched ++ dispatches h

theorem Grown.refl (h : History) : Grown h h [] [] [] :=
  ⟨List.suffix_refl _, rfl, rfl, rfl⟩

theorem Grown.trans {claimed claimed' : List Claim}
    {completed completed' : List (ℕ × Outcome)}
    {dispatched dispatched' : List Dispatch}
    (hgrown : Grown h h' claimed completed dispatched)
    (hgrown' : Grown h' h'' claimed' completed' dispatched') :
    Grown h h'' (claimed' ++ claimed) (completed' ++ completed)
      (dispatched' ++ dispatched) where
  suffix := hgrown.suffix.trans hgrown'.suffix
  claims_eq := by
    rw [hgrown'.claims_eq, hgrown.claims_eq, List.append_assoc]
  completions_eq := by
    rw [hgrown'.completions_eq, hgrown.completions_eq, List.append_assoc]
  dispatches_eq := by
    rw [hgrown'.dispatches_eq, hgrown.dispatches_eq, List.append_assoc]

/-- One more event adds what it tells. -/
theorem Grown.event {claimed : List Claim} {completed : List (ℕ × Outcome)}
    {dispatched : List Dispatch}
    (hgrown : Grown h h' claimed completed dispatched) (event : ExecEvent) :
    Grown h (event :: h') (event.claim?.toList ++ claimed)
      (event.completion?.toList ++ completed)
      (event.dispatch?.toList ++ dispatched) := by
  refine hgrown.trans ⟨List.suffix_cons _ _, ?_, ?_, ?_⟩
  · cases hclaim : ExecEvent.claim? event <;> simp [claims, hclaim]
  · cases hcompletion : ExecEvent.completion? event <;>
      simp [completions, hcompletion]
  · cases hdispatch : ExecEvent.dispatch? event <;>
      simp [dispatches, hdispatch]

theorem Grown.ownedClaims_eq {claimed : List Claim}
    {completed : List (ℕ × Outcome)} {dispatched : List Dispatch}
    (hgrown : Grown h h' claimed completed dispatched) :
    ownedClaims h' = claimed.filter Claim.owned ++ ownedClaims h := by
  simp [ownedClaims, hgrown.claims_eq]

theorem Grown.carriedIn_eq {claimed : List Claim}
    {completed : List (ℕ × Outcome)} {dispatched : List Dispatch}
    (hgrown : Grown h h' claimed completed dispatched) :
    carriedIn h' = dispatched.flatMap Dispatch.carried ++ carriedIn h := by
  simp [carriedIn, hgrown.dispatches_eq]

theorem Grown.lastDispatch_eq {claimed : List Claim}
    {completed : List (ℕ × Outcome)}
    (hgrown : Grown h h' claimed completed []) :
    lastDispatch h' = lastDispatch h := by
  simp [lastDispatch, hgrown.dispatches_eq]

theorem Grown.completed_iff {claimed : List Claim}
    {completed : List (ℕ × Outcome)} {dispatched : List Dispatch}
    (hgrown : Grown h h' claimed completed dispatched) (entry : ℕ) :
    Completed h' entry ↔
      (∃ outcome, (entry, outcome) ∈ completed) ∨ Completed h entry := by
  simp only [Completed, hgrown.completions_eq, List.mem_append, exists_or]

/-- An entry which was not completed before gets its first completion. -/
theorem Grown.firstCompletion_eq {claimed : List Claim}
    {completed : List (ℕ × Outcome)} {dispatched : List Dispatch}
    (hgrown : Grown h h' claimed completed dispatched) {entry : ℕ}
    (hnone : ¬ Completed h entry) :
    firstCompletion h' entry =
      (completed.reverse.find? fun c => c.1 == entry).map Prod.snd := by
  have hfirst := firstCompletion_eq_none.mpr hnone
  unfold firstCompletion at hfirst ⊢
  rw [hgrown.completions_eq, List.reverse_append, List.find?_append,
    Option.map_or, hfirst, Option.none_or]

end Growth

end DuckJeu
