import DuckJeu.Executor.Protocol

/-!
# The shared steps of the executor

One specification for each step which the two executions share.  Each says
what the step adds to the history, for the result it returns and for the error
it raises.
-/

namespace DuckJeu

open Effects

variable {call : Call}

/-! ## Claiming an entry -/

/-- Claiming the entry of a group: the rest of the program knows who owns it,
and the query turns the call away otherwise. -/
theorem claimed_secures {α : Type} {h : History} (hpermits : permits h = 0)
    {group : JudgmentGroup} (hgroup : group ∈ call.groups)
    {step : ℕ × Bool → Exec α} {next : ℕ → Bool → ℕ → Exec α}
    {Q : α → History → Prop} {E : JudgmentError → History → Prop}
    (hstep : ∀ entry owned, step (entry, owned) = do
      let flag ← queryCancellation call.limits.queryScope
      next entry owned flag)
    (hnext : ∀ entry owned flag h',
      Grown h h' [⟨group.identity, entry, owned⟩] [] [] → permits h' = 0 →
      (owned = true → ∀ claim ∈ claims h, claim.entry ≠ entry) →
      Secures call.protocol (next entry owned flag) Q E h')
    (hrefused : ∀ error h', permits h' = 0 → Refused h' → E error h') :
    Secures call.protocol
      (claimQueryEntry call.limits.queryScope group.identity >>= step) Q E
        h := by
  unfold claimQueryEntry
  simp only [secures_bind, secures_mk, follows_perform,
    Protocol.ofHistory_allowed, Protocol.ofHistory_note]
  refine ⟨⟨rfl, hpermits, group, hgroup, rfl⟩, fun claim hadmits => ?_⟩
  have hclaimed := (Grown.refl h).event
    ⟨.claimQueryEntry call.limits.queryScope group.identity, claim⟩
  rcases claim with error | ⟨entry, owned⟩
  · exact hrefused _ _ hpermits ⟨_, List.mem_cons_self .., trivial⟩
  change Secures call.protocol (step (entry, owned)) Q E _
  rw [hstep]
  unfold queryCancellation
  simp only [secures_bind, secures_mk, follows_perform,
    Protocol.ofHistory_allowed, Protocol.ofHistory_note]
  refine ⟨rfl, fun flag _ => ?_⟩
  rcases flag with error | flag
  · exact hrefused _ _ hpermits ⟨_, List.mem_cons_self .., trivial⟩
  refine hnext entry owned flag _ (hclaimed.event
    ⟨.queryCancellation call.limits.queryScope, .ok flag⟩) hpermits ?_
  rintro rfl
  exact hadmits

/-! ## The cache -/

/-- An owner consults the cache. -/
theorem consultCache_secures {h : History} {group : JudgmentGroup}
    (hgroup : group ∈ call.groups) {entry : ℕ}
    (hclaim : ⟨group.identity, entry, true⟩ ∈ claims h) :
    Secures call.protocol
      (consultCache call.limits.queryScope entry (call.cacheKey group)
        call.cachePolicy)
      (fun found h' => permits h' = permits h ∧
        match found with
        | none => Grown h h' [] [] [] ∧ call.PolicyValid
        | some result => Grown h h' [] [(entry, .ok result)] [])
      (fun error h' => permits h' = permits h ∧
        Grown h h' [] [(entry, .error error)] [] ∧ ¬ call.PolicyValid) h := by
  unfold consultCache
  cases hpolicy : call.cachePolicy with
  | none =>
      exact ⟨rfl, Grown.refl h, by simp [Call.PolicyValid, hpolicy]⟩
  | some policy =>
      dsimp only
      split
      · rename_i error hinvalid
        simp only [secures_bind, secures_lift, follows_perform, secures_throw,
          Protocol.ofHistory_allowed, Protocol.ofHistory_note]
        refine ⟨⟨group.identity, hclaim, by simp⟩, fun r _ => ⟨rfl, ?_, ?_⟩⟩
        · exact (Grown.refl h).event ⟨.complete entry (.error error), r⟩
        · intro hvalid
          have := hvalid policy hpolicy
          rw [hinvalid] at this
          cases this
      · rename_i hvalid
        have hpolicyValid : call.PolicyValid := by
          simpa [Call.PolicyValid, hpolicy] using hvalid
        simp only [secures_bind, secures_lift, follows_perform,
          Protocol.ofHistory_allowed, Protocol.ofHistory_note]
        refine ⟨trivial, fun now _ => ⟨⟨hpolicy, group, hgroup, rfl⟩, ?_⟩⟩
        intro cached _
        cases cached with
        | none =>
            refine ⟨rfl, ?_, hpolicyValid⟩
            exact ((Grown.refl h).event ⟨.instantNow, now⟩).event
              ⟨.cacheLookup (call.cacheKey group) now policy, none⟩
        | some result =>
            simp only [secures_bind, secures_lift, follows_perform,
              secures_pure, Protocol.ofHistory_allowed,
              Protocol.ofHistory_note]
            refine ⟨trivial, fun _ _ => ⟨⟨group.identity, ?_, ?_⟩, ?_⟩⟩
            · exact claims_subset ⟨[_, _, _], rfl⟩ hclaim
            · rintro _ ⟨⟩
              exact ⟨group, hgroup, rfl, Or.inl ⟨now, policy, by simp⟩⟩
            · intro r _
              refine ⟨rfl, ?_⟩
              exact ((((Grown.refl h).event ⟨.instantNow, now⟩).event
                ⟨.cacheLookup (call.cacheKey group) now policy,
                  some result⟩).event
                ⟨.recordCacheHit call.limits.queryScope, ()⟩).event
                ⟨.complete entry (.ok result), r⟩

theorem cacheIdentityFor_model {group : JudgmentGroup} {provider : Provider}
    {key : JudgmentIdentity}
    (h : cacheIdentityFor group provider = some key) :
    ∃ model,
      provider.cacheModelIdentity group.identity.requestedModel = some model ∧
      key =
        { group.identity with
          effectiveModel := some model
          unresolvedModelScope := none } := by
  unfold cacheIdentityFor at h
  split at h
  · cases h
  · rename_i model hmodel
    exact ⟨model, hmodel, (Option.some.inj h).symm⟩

/-- Storing a validated result only touches the cache. -/
theorem cacheValidated_secures {h : History} {group : JudgmentGroup}
    (hgroup : group ∈ call.groups) {model : Option String}
    {result : JudgmentResult} {d : Dispatch} (hd : lastDispatch h = some d)
    (hanswers : d.Answers group.request result model) :
    Secures call.protocol
      (cacheValidated call.provider group (call.cacheKey group)
        call.cachePolicy model result)
      (fun _ h' => permits h' = permits h ∧ Grown h h' [] [] [])
      (fun _ _ => False) h := by
  unfold cacheValidated
  split
  · rename_i key policy hkey hpolicy
    split
    · rename_i hmodel
      simp only [secures_bind, secures_lift, follows_perform, secures_pure,
        Protocol.ofHistory_allowed, Protocol.ofHistory_note]
      refine ⟨trivial, fun now _ => ⟨⟨group, hgroup, hkey, d, ?_, ?_⟩, ?_⟩⟩
      · exact hd
      · rw [← hmodel.1]
        exact hanswers
      · intro stored _
        refine ⟨rfl, ?_⟩
        exact ((Grown.refl h).event ⟨.instantNow, now⟩).event
          ⟨.cacheInsert key result now policy, stored⟩
    · exact ⟨rfl, Grown.refl h⟩
  · exact ⟨rfl, Grown.refl h⟩

/-! ## The provider closure -/

theorem recordFailure_follows {α : Type} {h : History} {external : Bool}
    (attempt : Attempt α) :
    Follows call.protocol (recordFailure call.limits external attempt)
      (fun _ h' => permits h' = permits h ∧ Grown h h' [] [] []) h := by
  unfold recordFailure
  split
  · exact ⟨rfl, Grown.refl h⟩
  split
  · simp only [follows_bind, follows_perform, Protocol.ofHistory_allowed,
      Protocol.ofHistory_note]
    refine ⟨trivial, fun r _ => ?_⟩
    have hrecorded := (Grown.refl h).event
      ⟨.recordFailedRequest call.limits.queryScope, r⟩
    split
    · exact ⟨rfl, hrecorded⟩
    · refine ⟨trivial, fun r' _ => ⟨rfl, ?_⟩⟩
      exact hrecorded.event ⟨.recordProviderFailure call.limits.queryScope
        attempt.providerElapsed external, r'⟩
  · exact ⟨rfl, Grown.refl h⟩

/-- The requests of one attempt: at most one, whose response is processed
without further requests. -/
theorem attemptProvider_follows {α : Type} {h : History}
    (hpermits : permits h = 0) {external : Bool}
    {carried : List JudgmentIdentity} {requests : List JudgmentRequest}
    (hadmissible : call.Admissible) (hcarries : call.Carries carried requests)
    (hkeys : (requests.map JudgmentRequest.requestKey).Nodup)
    (hunsent : (carriedIn h ++ carried).Subperm (ownedIdentities h))
    {finish : ProviderBatchResult → Exec α} {Q : ProviderBatchResult → α → Prop}
    (hfinish : ∀ response h₁,
      Grown h h₁ [] [] [⟨carried, requests, .ok response⟩] →
      Secures call.protocol (finish response)
        (fun a h₂ => permits h₂ = permits h₁ ∧ Grown h₁ h₂ [] [] [] ∧
          Q response a)
        (fun _ h₂ => permits h₂ = permits h₁ ∧ Grown h₁ h₂ [] [] [] ∧
          validateBatchResult requests response ≠ .ok ()) h₁) :
    Follows call.protocol
      (attemptProvider call.limits external call.method carried requests finish)
      (fun attempt h' => permits h' = 0 ∧
        match attempt.outcome with
        | .ok a => ∃ response,
            Grown h h' [] [] [⟨carried, requests, .ok response⟩] ∧
              Q response a
        | .error _ => (∃ ds, Grown h h' [] [] ds) ∧ Troubled h') h := by
  unfold attemptProvider
  simp only [follows_bind, follows_perform, Protocol.ofHistory_allowed,
    Protocol.ofHistory_note]
  refine ⟨rfl, fun flag? _ => ?_⟩
  have hflag := (Grown.refl h).event
    ⟨.queryCancellation call.limits.queryScope, flag?⟩
  cases flag? with
  | error error =>
      exact ⟨hpermits, ⟨_, hflag⟩, _, List.mem_cons_self .., trivial⟩
  | ok flag =>
      simp only [follows_bind, follows_perform, Protocol.ofHistory_allowed,
        Protocol.ofHistory_note]
      refine ⟨⟨rfl, hpermits, List.mem_cons_self ..⟩, fun granted _ => ?_⟩
      have hgranted := hflag.event
        ⟨.acquirePermit call.limits.maxInflight flag, granted⟩
      cases granted with
      | error error =>
          exact ⟨hpermits, ⟨_, hgranted⟩, _, List.mem_cons_self .., trivial⟩
      | ok _ =>
          simp only [follows_bind, follows_perform,
            Protocol.ofHistory_allowed, Protocol.ofHistory_note]
          have hone : permits (⟨.acquirePermit call.limits.maxInflight flag,
              .ok ()⟩ :: ⟨.queryCancellation call.limits.queryScope,
              .ok flag⟩ :: h) = 1 := by
            simp [permits, hpermits]
          refine ⟨⟨hone, hadmissible, carried, hcarries⟩, fun r₁ _ =>
            ⟨trivial, fun started _ => ⟨⟨rfl, hone, hadmissible, hcarries,
              hkeys, ?_⟩, fun response? _ => ⟨trivial, fun ended _ => ?_⟩⟩⟩⟩
          · have hsent := ((hgranted.event ⟨.recordProviderAttempt
              call.limits.queryScope requests external, r₁⟩).event
              ⟨.instantNow, started⟩)
            simpa [hsent.carriedIn_eq, ownedIdentities, hsent.ownedClaims_eq,
              ExecEvent.claim?, ExecEvent.dispatch?] using hunsent
          have hsent := ((((hgranted.event ⟨.recordProviderAttempt
            call.limits.queryScope requests external, r₁⟩).event
            ⟨.instantNow, started⟩).event
            ⟨.judge call.method carried requests, response?⟩).event
            ⟨.instantNow, ended⟩)
          cases response? with
          | error error =>
              simp only [follows_bind, follows_perform, follows_pure,
                Protocol.ofHistory_allowed, Protocol.ofHistory_note]
              refine ⟨hone, fun r₂ _ => ⟨?_, ⟨_, hsent.event
                ⟨.dropPermit, r₂⟩⟩,
                ⟨.judge call.method carried requests, .error error⟩, ?_, ?_⟩⟩
              · simp [permits, hpermits]
              · exact List.mem_cons_of_mem _ (List.mem_cons_of_mem _
                  (List.mem_cons_self ..))
              · trivial
          | ok response =>
              simp only [follows_bind, follows_perform, follows_pure,
                Protocol.ofHistory_allowed, Protocol.ofHistory_note]
              refine ⟨trivial, fun r₂ _ => ?_⟩
              have hrecorded := hsent.event ⟨.recordProviderResponse
                call.limits.queryScope response.metadata (ended - started)
                external, r₂⟩
              refine Follows.mono (hfinish response _ hrecorded) ?_
              rintro (error | a) h₂ hfinished
              · obtain ⟨hsame, hgrown, hinvalid⟩ := hfinished
                refine ⟨hsame.trans hone, fun r₃ _ => ⟨?_, ⟨_,
                  (hrecorded.trans hgrown).event ⟨.dropPermit, r₃⟩⟩,
                  ⟨.judge call.method carried requests, .ok response⟩, ?_,
                  hinvalid⟩⟩
                · change permits h₂ - 1 = 0
                  rw [hsame]
                  exact Nat.sub_eq_zero_of_le hone.le
                · refine List.mem_cons_of_mem _ (hgrown.suffix.subset ?_)
                  exact List.mem_cons_of_mem _ (List.mem_cons_of_mem _
                    (List.mem_cons_self ..))
              · obtain ⟨hsame, hgrown, hQ⟩ := hfinished
                refine ⟨hsame.trans hone, fun r₃ _ => ⟨?_, response,
                  (hrecorded.trans hgrown).event ⟨.dropPermit, r₃⟩, hQ⟩⟩
                change permits h₂ - 1 = 0
                rw [hsame]
                exact Nat.sub_eq_zero_of_le hone.le

/-- An attempt with the records of its failure. -/
theorem attemptRecorded_follows {α : Type} {h : History}
    (hpermits : permits h = 0) {external : Bool}
    {carried : List JudgmentIdentity} {requests : List JudgmentRequest}
    (hadmissible : call.Admissible) (hcarries : call.Carries carried requests)
    (hkeys : (requests.map JudgmentRequest.requestKey).Nodup)
    (hunsent : (carriedIn h ++ carried).Subperm (ownedIdentities h))
    {finish : ProviderBatchResult → Exec α} {Q : ProviderBatchResult → α → Prop}
    (hfinish : ∀ response h₁,
      Grown h h₁ [] [] [⟨carried, requests, .ok response⟩] →
      Secures call.protocol (finish response)
        (fun a h₂ => permits h₂ = permits h₁ ∧ Grown h₁ h₂ [] [] [] ∧
          Q response a)
        (fun _ h₂ => permits h₂ = permits h₁ ∧ Grown h₁ h₂ [] [] [] ∧
          validateBatchResult requests response ≠ .ok ()) h₁) :
    Follows call.protocol
      (attemptRecorded call.limits external call.method carried requests finish)
      (fun outcome h' => permits h' = 0 ∧
        match outcome with
        | .ok a => ∃ response,
            Grown h h' [] [] [⟨carried, requests, .ok response⟩] ∧
              Q response a
        | .error _ => (∃ ds, Grown h h' [] [] ds) ∧ Troubled h') h := by
  unfold attemptRecorded
  rw [follows_bind]
  refine (attemptProvider_follows hpermits hadmissible hcarries hkeys
    hunsent hfinish).mono ?_
  rintro attempt h₁ ⟨hzero, hattempt⟩
  rw [follows_bind]
  refine (recordFailure_follows attempt).mono ?_
  rintro _ h₂ ⟨hsame, hgrown⟩
  rw [follows_pure]
  refine ⟨hsame.trans hzero, ?_⟩
  cases houtcome : attempt.outcome with
  | ok a =>
      rw [houtcome] at hattempt
      obtain ⟨response, hgrown₁, hQ⟩ := hattempt
      exact ⟨response, hgrown₁.trans hgrown, hQ⟩
  | error error =>
      rw [houtcome] at hattempt
      obtain ⟨⟨ds, hgrown₁⟩, event, hmem, htroubles⟩ := hattempt
      exact ⟨⟨_, hgrown₁.trans hgrown⟩, event, hgrown.suffix.subset hmem,
        htroubles⟩

/-! ## Nothing left to do -/

/-- Everything owned is completed, all of it with results, no permit is held,
and no identity was sent twice. -/
structure Ready (h : History) : Prop where
  permits_zero : permits h = 0
  completed : AllCompleted h
  succeeded : ∀ c ∈ completions h, ∃ result, c.2 = .ok result
  claimed : ∀ c ∈ completions h, ∃ claim ∈ claims h, claim.entry = c.1
  carry : (carriedIn h).Subperm (ownedIdentities h)

theorem ready_nil : Ready [] where
  permits_zero := rfl
  completed := by simp [AllCompleted, ownedClaims, claims]
  succeeded := by simp [completions]
  claimed := by simp [completions]
  carry := List.Subperm.refl _

theorem Ready.not_completed {h : History} (hready : Ready h) {entry : ℕ}
    (hfresh : ∀ claim ∈ claims h, claim.entry ≠ entry) :
    ¬ Completed h entry := by
  rintro ⟨outcome, hmem⟩
  obtain ⟨claim, hclaim, hentry⟩ := hready.claimed _ hmem
  exact hfresh claim hclaim hentry

/-- Events which neither claim for themselves, nor complete, nor send. -/
theorem Ready.grown {h h' : History} (hready : Ready h)
    {claimed : List Claim} (hgrown : Grown h h' claimed [] [])
    (hshared : ∀ claim ∈ claimed, claim.owned = false)
    (hpermits : permits h' = 0) : Ready h' where
  permits_zero := hpermits
  completed := by
    intro claim hclaim
    rw [hgrown.ownedClaims_eq, List.filter_eq_nil_iff.mpr (by
      simpa using hshared), List.nil_append] at hclaim
    exact (hready.completed claim hclaim).mono hgrown.suffix
  succeeded := by
    rw [hgrown.completions_eq]
    exact hready.succeeded
  claimed := by
    rw [hgrown.completions_eq]
    intro c hc
    obtain ⟨claim, hclaim, hentry⟩ := hready.claimed c hc
    exact ⟨claim, claims_subset hgrown.suffix hclaim, hentry⟩
  carry := by
    rw [hgrown.carriedIn_eq, ownedIdentities, hgrown.ownedClaims_eq,
      List.filter_eq_nil_iff.mpr (by simpa using hshared)]
    exact hready.carry

/-- The owner of one more entry has completed it. -/
theorem AllCompleted.owned {h h' : History} (hcompleted : AllCompleted h)
    {identity : JudgmentIdentity} {entry : ℕ} {completed : List (ℕ × Outcome)}
    {ds : List Dispatch}
    (hgrown : Grown h h' [⟨identity, entry, true⟩] completed ds)
    (hentry : ∃ outcome, (entry, outcome) ∈ completed) : AllCompleted h' := by
  intro claim hclaim
  rw [hgrown.ownedClaims_eq] at hclaim
  rcases List.mem_append.mp hclaim with hnew | hold
  · obtain rfl : claim = ⟨identity, entry, true⟩ := by simpa using hnew
    exact (hgrown.completed_iff entry).mpr (Or.inl hentry)
  · exact (hcompleted claim hold).mono hgrown.suffix

/-- The owner of one more entry has completed it with a result. -/
theorem Ready.owned {h h' : History} (hready : Ready h)
    {identity : JudgmentIdentity} {entry : ℕ} {result : JudgmentResult}
    {ds : List Dispatch}
    (hgrown : Grown h h' [⟨identity, entry, true⟩] [(entry, .ok result)] ds)
    (hcarried : (ds.flatMap Dispatch.carried).Sublist [identity])
    (hpermits : permits h' = 0) : Ready h' where
  permits_zero := hpermits
  completed := hready.completed.owned hgrown ⟨.ok result, by simp⟩
  succeeded := by
    rw [hgrown.completions_eq]
    intro c hc
    rcases List.mem_cons.mp hc with rfl | hc
    · exact ⟨result, rfl⟩
    · exact hready.succeeded c hc
  claimed := by
    rw [hgrown.completions_eq, hgrown.claims_eq]
    intro c hc
    rcases List.mem_cons.mp hc with rfl | hc
    · exact ⟨_, List.mem_cons_self .., rfl⟩
    · obtain ⟨claim, hclaim, hentry⟩ := hready.claimed c hc
      exact ⟨claim, List.mem_cons_of_mem _ hclaim, hentry⟩
  carry := by
    rw [hgrown.carriedIn_eq, ownedIdentities, hgrown.ownedClaims_eq]
    exact hcarried.subperm.append hready.carry

/-- Waiting for the entry of somebody else. -/
theorem waitEntry_secures {h : History} (hready : Ready h)
    {identity : JudgmentIdentity} {entry flag : ℕ}
    (hclaim : ⟨identity, entry, false⟩ ∈ claims h) :
    Secures call.protocol (waitEntry entry flag)
      (fun result h' => Ready h' ∧ h <:+ h' ∧ Answered h' identity result)
      (fun _ h' => Ready h' ∧ Troubled h') h := by
  unfold waitEntry
  simp only [secures_mk, follows_perform, Protocol.ofHistory_allowed,
    Protocol.ofHistory_note]
  refine ⟨⟨hready.permits_zero, hready.completed, hready.succeeded, identity,
    hclaim⟩, fun outcome _ => ?_⟩
  have hwaited := (Grown.refl h).event ⟨.wait entry flag, outcome⟩
  have hready' := hready.grown hwaited (by simp [ExecEvent.claim?])
    hready.permits_zero
  cases outcome with
  | ok result =>
      exact ⟨hready', hwaited.suffix, entry, Or.inr
        ⟨claims_subset hwaited.suffix hclaim, flag, List.mem_cons_self ..⟩⟩
  | error error =>
      exact ⟨hready', _, List.mem_cons_self .., trivial⟩

end DuckJeu
