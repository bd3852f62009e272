import DuckJeu.Executor.Steps

/-!
# Execution of one group at a time

The loop carries three facts from group to group: everything owned so far is
completed, every completion so far was a success, and no identity has been
sent twice.
-/

namespace DuckJeu

open Effects

variable {call : Call}

/-! ## The response to a single request -/

/-- A validated response to one request has one answer, which is valid. -/
theorem validateBatchResult_singleton {request : JudgmentRequest}
    {response : ProviderBatchResult}
    (h : validateBatchResult [request] response = .ok ()) :
    ∃ result, response.answers = [⟨request.requestKey, result⟩] ∧
      ValidFor request result := by
  obtain ⟨-, -, hlength, -, hvalid⟩ := validateBatchResult_ok h
  obtain ⟨answer, hanswers⟩ := List.length_eq_one_iff.mp hlength
  obtain ⟨request', hmem, hkey, hvalidFor⟩ := hvalid answer (by simp [hanswers])
  obtain rfl := List.mem_singleton.mp hmem
  exact ⟨answer.result, by rw [hanswers, hkey], hvalidFor⟩

theorem finishSingle_secures {h : History} {group : JudgmentGroup}
    (hgroup : group ∈ call.groups) {response : ProviderBatchResult}
    (hd : lastDispatch h =
      some ⟨[group.identity], [group.request], .ok response⟩) :
    Secures call.protocol
      (finishSingle group call.provider (call.cacheKey group) call.cachePolicy
        response)
      (fun result h' => permits h' = permits h ∧ Grown h h' [] [] [] ∧
        ∃ model, Dispatch.Answers
          ⟨[group.identity], [group.request], .ok response⟩ group.request
          result model)
      (fun _ h' => permits h' = permits h ∧ Grown h h' [] [] [] ∧
        validateBatchResult [group.request] response ≠ .ok ()) h := by
  unfold finishSingle
  split
  · rename_i error hinvalid
    exact ⟨rfl, Grown.refl h, by simp [hinvalid]⟩
  rename_i hvalid
  obtain ⟨result, hanswers, hresult⟩ := validateBatchResult_singleton hvalid
  have hanswered : Dispatch.Answers
      ⟨[group.identity], [group.request], .ok response⟩ group.request result
      response.metadata.effectiveModel :=
    ⟨response, group.request.requestKey, rfl, hvalid, by simp,
      by simp [hanswers], rfl⟩
  unfold ValidFor at hresult
  simp only [hanswers, hresult, secures_bind, secures_pure]
  refine (cacheValidated_secures hgroup hd hanswered).mono ?_ ?_
  · rintro _ h' ⟨hpermits, hgrown⟩
    exact ⟨hpermits, hgrown, _, hanswered⟩
  · exact fun _ _ hfalse => hfalse.elim

/-! ## One owned group -/

theorem cleared_of_single (hmode : call.mode = .single) : call.Cleared := by
  intro maxJudgments order hbatched
  rw [hmode] at hbatched
  cases hbatched

/-- An owner completes its entry, with a result or with the error it
raises. -/
theorem executeOwned_secures (hmode : call.mode = .single)
    (hrejected : ¬ call.Rejected) {h : History}
    {group : JudgmentGroup} (hgroup : group ∈ call.groups) {entry : ℕ}
    (hclaim : ⟨group.identity, entry, true⟩ ∈ claims h)
    (hpermits : permits h = 0)
    (hcarry : (carriedIn h ++ [group.identity]).Subperm (ownedIdentities h)) :
    Secures call.protocol
      (executeOwned group call.provider call.limits call.cachePolicy
        (call.cacheKey group) entry)
      (fun result h' => permits h' = 0 ∧ ∃ ds,
        Grown h h' [] [(entry, .ok result)] ds ∧
          (ds.flatMap Dispatch.carried).Sublist [group.identity])
      (fun error h' => permits h' = 0 ∧ call.Cause h' ∧ ∃ ds,
        Grown h h' [] [(entry, .error error)] ds) h := by
  have hadmissible : call.Admissible := ⟨hrejected, cleared_of_single hmode⟩
  have hmethod : call.method = .judgeWithMetadata := by
    simp [Call.method, hmode]
  unfold executeOwned
  rw [secures_bind]
  refine (consultCache_secures hgroup hclaim).mono ?_ ?_
  · rintro found h₁ ⟨hsame, hfound⟩
    cases found with
    | some result =>
        exact ⟨hsame.trans hpermits, [], hfound, by simp⟩
    | none =>
        obtain ⟨hgrown, -⟩ := hfound
        have hclaim₁ := claims_subset hgrown.suffix hclaim
        dsimp only
        split
        · rename_i hlarge
          simp only [secures_bind, secures_lift, follows_perform,
            secures_throw, Protocol.ofHistory_allowed, Protocol.ofHistory_note]
          refine ⟨⟨group.identity, hclaim₁, by simp⟩, fun r _ => ?_⟩
          refine ⟨hsame.trans hpermits, ?_, [], hgrown.event
            ⟨.complete entry (.error _), r⟩⟩
          refine Or.inr (Or.inr (Or.inr (Or.inl ⟨group, hgroup, ?_⟩)))
          simpa [Call.TooLarge, Call.aloneRequest, hmode] using hlarge
        · rw [secures_bind, secures_lift, ← hmethod]
          have hcarries : call.Carries [group.identity] [group.request] :=
            List.Forall₂.cons ⟨group, hgroup, rfl, group.request.requestKey,
              rfl⟩ List.Forall₂.nil
          refine (attemptRecorded_follows (hsame.trans hpermits) hadmissible
            hcarries (by simp) ?_
            (Q := fun response result => ∃ model, Dispatch.Answers
              ⟨[group.identity], [group.request], .ok response⟩ group.request
              result model) ?_).mono ?_
          · simpa [hgrown.carriedIn_eq, ownedIdentities,
              hgrown.ownedClaims_eq] using hcarry
          · intro response h₂ hgrown₂
            exact finishSingle_secures hgroup
              (by simp [lastDispatch, hgrown₂.dispatches_eq])
          · rintro outcome h₂ ⟨hzero, houtcome⟩
            simp only [secures_bind, secures_lift, follows_perform, secures_mk,
              follows_pure, Protocol.ofHistory_allowed,
              Protocol.ofHistory_note]
            cases outcome with
            | ok result =>
                obtain ⟨response, hgrown₂, model, hanswers⟩ := houtcome
                refine ⟨⟨group.identity,
                  claims_subset hgrown₂.suffix hclaim₁, ?_⟩, fun r _ => ?_⟩
                · rintro _ ⟨⟩
                  exact ⟨group, hgroup, rfl, Or.inr ⟨_,
                    by simp [hgrown₂.dispatches_eq], model, hanswers⟩⟩
                · exact ⟨hzero, _, (hgrown.trans hgrown₂).event
                    ⟨.complete entry (.ok result), r⟩, by
                      simp [ExecEvent.dispatch?]⟩
            | error error =>
                obtain ⟨⟨ds, hgrown₂⟩, htroubled⟩ := houtcome
                refine ⟨⟨group.identity,
                  claims_subset hgrown₂.suffix hclaim₁, by simp⟩, fun r _ => ?_⟩
                obtain ⟨event, hmem, htroubles⟩ := htroubled
                refine ⟨hzero, ?_, ds, (by
                  simpa [ExecEvent.dispatch?, ExecEvent.claim?,
                    ExecEvent.completion?] using
                    (hgrown.trans hgrown₂).event
                      ⟨.complete entry (.error error), r⟩)⟩
                exact Or.inr (Or.inr (Or.inr (Or.inr
                  ⟨event, List.mem_cons_of_mem _ hmem, htroubles⟩)))
  · rintro error h₁ ⟨hsame, hgrown, hinvalid⟩
    exact ⟨hsame.trans hpermits, Or.inr (Or.inr (Or.inl hinvalid)), [], hgrown⟩

/-! ## The loop over the groups -/

/-- One group: its result is known afterwards, or the call fails. -/
theorem executeOneGroup_secures (hmode : call.mode = .single)
    (hrejected : ¬ call.Rejected) {h : History} (hready : Ready h)
    {group : JudgmentGroup} (hgroup : group ∈ call.groups) :
    Secures call.protocol
      (executeOneGroup group call.provider call.limits call.cachePolicy)
      (fun result h' => Ready h' ∧ h <:+ h' ∧
        Answered h' group.identity result)
      (fun _ h' => permits h' = 0 ∧ (AllCompleted h' ∨ Refused h') ∧
        call.Cause h') h := by
  unfold executeOneGroup
  refine claimed_secures hready.permits_zero hgroup
    (fun entry owned => rfl) ?_ ?_
  · intro entry owned flag h₁ hclaimed hzero hfresh
    have hclaim : ⟨group.identity, entry, owned⟩ ∈ claims h₁ := by
      simp [hclaimed.claims_eq]
    cases owned with
    | false =>
        refine (waitEntry_secures (hready.grown hclaimed (by simp) hzero)
          hclaim).mono ?_ ?_
        · rintro result h₂ ⟨hready₂, hsuffix, hanswered⟩
          exact ⟨hready₂, hclaimed.suffix.trans hsuffix, hanswered⟩
        · rintro error h₂ ⟨hready₂, htroubled⟩
          exact ⟨hready₂.permits_zero, Or.inl hready₂.completed,
            Or.inr (Or.inr (Or.inr (Or.inr htroubled)))⟩
    | true =>
        rw [if_pos rfl]
        refine (executeOwned_secures hmode hrejected hgroup hclaim hzero
          ?_).mono ?_ ?_
        · rw [hclaimed.carriedIn_eq, ownedIdentities, hclaimed.ownedClaims_eq]
          exact List.perm_append_comm.subperm.trans
            ((List.subperm_append_left [group.identity]).mpr hready.carry)
        · rintro result h₂ ⟨hzero₂, ds, hgrown, hcarried⟩
          have hall := hclaimed.trans hgrown
          refine ⟨hready.owned (by simpa using hall) (by simpa using hcarried)
            hzero₂, hall.suffix, entry, Or.inl
            ⟨claims_subset hgrown.suffix hclaim, ?_⟩⟩
          simp [hall.firstCompletion_eq
            (hready.not_completed (hfresh rfl))]
        · rintro error h₂ ⟨hzero₂, hcause, ds, hgrown⟩
          refine ⟨hzero₂, Or.inl ?_, hcause⟩
          exact hready.completed.owned (hclaimed.trans hgrown)
            ⟨.error error, by simp⟩
  · intro error h' hzero hrefused
    exact ⟨hzero, Or.inr hrefused,
      Or.inr (Or.inr (Or.inr (Or.inr hrefused.troubled)))⟩

/-- The loop over the groups, with the results so far. -/
theorem executeEach_secures (hmode : call.mode = .single)
    (hrejected : ¬ call.Rejected)
    {rest : List JudgmentGroup} {h : History} (hready : Ready h)
    (assigned : List (JudgmentGroup × JudgmentResult))
    (hgroups : call.groups = assigned.map Prod.fst ++ rest)
    (hanswered : ∀ a ∈ assigned, Answered h a.1.identity a.2) :
    Secures call.protocol
      (executeEach call.provider call.limits call.cachePolicy
        (assigned.flatMap fun a => a.1.expand a.2) rest)
      (fun output h' => call.Post (.ok output) h')
      (fun _ h' => permits h' = 0 ∧ (AllCompleted h' ∨ Refused h') ∧
        call.Cause h') h := by
  induction rest generalizing assigned h with
  | nil =>
      refine ⟨hready.permits_zero, hready.completed,
        ⟨assigned, rfl, ?_, hanswered⟩, hrejected, cleared_of_single hmode⟩
      rw [hgroups, List.append_nil]
  | cons group rest ih =>
      have hgroup : group ∈ call.groups := by simp [hgroups]
      rw [executeEach, secures_bind]
      refine (executeOneGroup_secures hmode hrejected hready hgroup).mono ?_
        (fun _ _ herror => herror)
      rintro result h' ⟨hready', hsuffix, hresult⟩
      have hnext := ih hready' (assigned ++ [(group, result)])
        (by simp [hgroups]) ?_
      · simpa using hnext
      · intro a ha
        rcases List.mem_append.mp ha with ha | ha
        · exact (hanswered a ha).mono hsuffix
        · obtain rfl := List.mem_singleton.mp ha
          exact hresult

/-- A call which executes its groups one at a time follows its protocol. -/
theorem single_follows (hmode : call.mode = .single) :
    Follows call.protocol call.program call.Post [] := by
  unfold Call.program Call.exec
  rw [hmode]
  unfold executeGroups
  dsimp only
  split
  · rename_i hzero
    refine ⟨rfl, Or.inl ready_nil.completed, Or.inl ?_⟩
    simpa [Call.Rejected, hmode] using hzero
  · rename_i hpositive
    have hrejected : ¬ call.Rejected := by
      simpa [Call.Rejected, hmode] using hpositive
    refine Follows.mono (executeEach_secures hmode hrejected ready_nil []
      (by simp) (by simp)) ?_
    rintro (error | output) h' hpost
    · exact ⟨hpost.1, hpost.2.1.imp_right Or.inl, hpost.2.2⟩
    · exact hpost

end DuckJeu
