import DuckJeu.Executor.Unrecorded

/-!
# What the requests depend on

Which requests a call sends is decided by its claims, by what it finds in the
cache, and by the answers to its earlier requests.  The permit, the clock and
the records of an attempt attend the request without deciding anything.  A
protocol which ignores them sees one request in an attempt, or none.
-/

namespace DuckJeu

open Effects

/-- The operations around an attempt and its request. -/
def Op.Surrounds : Op → Bool
  | .queryCancellation _ => true
  | .acquirePermit _ _ => true
  | .dropPermit => true
  | .recordFailedRequest _ => true
  | .recordProviderResponse _ _ _ _ => true
  | .recordProviderFailure _ _ _ => true
  | .instantNow => true
  | _ => false

/-- The operations which attend a request. -/
def Op.Attends : Op → Bool
  | .recordProviderAttempt _ _ _ => true
  | op => op.Surrounds

/-- The operations on which later requests depend. -/
def Op.Decides : Op → Bool
  | .claimQueryEntry _ _ => true
  | .recordCacheHit _ => true
  | .judge _ _ _ => true
  | _ => false

theorem Op.not_decides_of_unrecorded {op : Op} (hop : op.Unrecorded = true) :
    op.Decides = false := by
  cases op with
  | claimQueryEntry => cases hop
  | recordCacheHit => cases hop
  | judge => cases hop
  | _ => rfl

theorem Op.not_decides_of_attends {op : Op} (hop : op.Attends = true) :
    op.Decides = false := by
  cases op with
  | claimQueryEntry => cases hop
  | recordCacheHit => cases hop
  | judge => cases hop
  | _ => rfl

theorem Op.attends_of_surrounds {op : Op} (hop : op.Surrounds = true) :
    op.Attends = true := by
  cases op with
  | recordProviderAttempt => rfl
  | _ => exact hop

/-! ## Attempts -/

section Attempts

variable {γ : Type} {P : Protocol Op Res γ}

theorem recordFailure_surrounds
    (hP : ∀ op : Op, op.Surrounds = true → P.Ignores op) {α : Type}
    {limits : ExecutionLimits} {external : Bool} (attempt : Attempt α)
    (g : γ) :
    Follows P (recordFailure limits external attempt) (fun _ g' => g' = g)
      g := by
  unfold recordFailure
  split
  · exact rfl
  split
  · rw [follows_bind]
    refine ((hP _ rfl).follows rfl).mono ?_
    rintro _ _ rfl
    split
    · exact rfl
    · exact (hP _ rfl).follows rfl
  · exact rfl

/-- An attempt is recorded, and then sends its request at most once.  It notes
nothing else than what the processing of the response does. -/
theorem attemptRecorded_sends
    (hP : ∀ op : Op, op.Surrounds = true → P.Ignores op) {α : Type}
    {limits : ExecutionLimits} {external : Bool} {method : ProviderCall}
    {carried : List JudgmentIdentity} {requests : List JudgmentRequest}
    {finish : ProviderBatchResult → Exec α}
    {Accepts : ProviderBatchResult → α → Prop}
    {Rejects : ProviderBatchResult → JudgmentError → Prop} {g g₁ : γ}
    (hattempt : P.Allowed g
      (.recordProviderAttempt limits.queryScope requests external))
    (hnoted : ∀ r, P.note g
      (.recordProviderAttempt limits.queryScope requests external) r = g₁)
    (hallowed : P.Allowed g₁ (.judge method carried requests))
    (hfinish : ∀ response g, Secures P (finish response)
      (fun a g' => g' = g ∧ Accepts response a)
      (fun error g' => g' = g ∧ Rejects response error) g) :
    Follows P (attemptRecorded limits external method carried requests finish)
      (fun outcome g' =>
        match outcome with
        | .ok a => ∃ response, Accepts response a ∧
            g' = P.note g₁ (.judge method carried requests) (.ok response)
        | .error error => g' = g ∨
            g' = P.note g₁ (.judge method carried requests) (.error error) ∨
            ∃ response, Rejects response error ∧
              g' = P.note g₁ (.judge method carried requests) (.ok response))
      g := by
  have hquiet : ∀ {op : Op} {g : γ}, op.Surrounds = true →
      Follows P (invoke op) (fun _ g' => g' = g) g :=
    fun hop => (hP _ hop).follows rfl
  have hrecord : ∀ {Q : Except JudgmentError α → γ → Prop}
      (attempt : Attempt α) (g₁ : γ), Q attempt.outcome g₁ →
      Follows P (do
        recordFailure limits external attempt
        pure attempt.outcome) Q g₁ := by
    intro Q attempt g₁ hQ
    rw [follows_bind]
    refine (recordFailure_surrounds hP attempt g₁).mono ?_
    rintro _ _ rfl
    exact hQ
  unfold attemptRecorded attemptProvider
  rw [follows_bind, follows_bind]
  refine (hquiet rfl).mono ?_
  rintro (error | flag) _ rfl
  · exact hrecord _ _ (Or.inl rfl)
  dsimp only
  rw [follows_bind]
  refine (hquiet rfl).mono ?_
  rintro (error | granted) _ rfl
  · exact hrecord _ _ (Or.inl rfl)
  dsimp only
  rw [follows_bind, follows_perform]
  refine ⟨hattempt, fun recorded _ => ?_⟩
  rw [hnoted recorded, follows_bind]
  refine (hquiet rfl).mono ?_
  rintro started _ rfl
  rw [follows_bind, follows_perform]
  refine ⟨hallowed, fun response _ => ?_⟩
  rw [follows_bind]
  refine (hquiet rfl).mono ?_
  rintro ended _ rfl
  cases response with
  | error error =>
      dsimp only
      rw [follows_bind]
      refine (hquiet rfl).mono ?_
      rintro _ _ rfl
      exact hrecord _ _ (Or.inr (Or.inl rfl))
  | ok response =>
      dsimp only
      rw [follows_bind]
      refine (hquiet rfl).mono ?_
      rintro _ _ rfl
      rw [follows_bind]
      refine Follows.mono (hfinish response _) ?_
      rintro (error | a) _ ⟨rfl, hfinished⟩
      · rw [follows_bind]
        refine (hquiet rfl).mono ?_
        rintro _ _ rfl
        exact hrecord _ _ (Or.inr (Or.inr ⟨response, hfinished, rfl⟩))
      · rw [follows_bind]
        refine (hquiet rfl).mono ?_
        rintro _ _ rfl
        exact hrecord _ _ ⟨response, hfinished, rfl⟩

/-- Where the record of an attempt is ignored, it only sends its request. -/
theorem attemptRecorded_asks
    (hP : ∀ op : Op, op.Attends = true → P.Ignores op) {α : Type}
    {limits : ExecutionLimits} {external : Bool} {method : ProviderCall}
    {carried : List JudgmentIdentity} {requests : List JudgmentRequest}
    {finish : ProviderBatchResult → Exec α}
    {Accepts : ProviderBatchResult → α → Prop}
    {Rejects : ProviderBatchResult → JudgmentError → Prop} {g : γ}
    (hallowed : P.Allowed g (.judge method carried requests))
    (hfinish : ∀ response g, Secures P (finish response)
      (fun a g' => g' = g ∧ Accepts response a)
      (fun error g' => g' = g ∧ Rejects response error) g) :
    Follows P (attemptRecorded limits external method carried requests finish)
      (fun outcome g' =>
        match outcome with
        | .ok a => ∃ response, Accepts response a ∧
            g' = P.note g (.judge method carried requests) (.ok response)
        | .error error => g' = g ∨
            g' = P.note g (.judge method carried requests) (.error error) ∨
            ∃ response, Rejects response error ∧
              g' = P.note g (.judge method carried requests) (.ok response))
      g := by
  obtain ⟨hattempt, hnoted⟩ :=
    hP (.recordProviderAttempt limits.queryScope requests external) rfl g
  exact attemptRecorded_sends
    (fun op hop => hP op (Op.attends_of_surrounds hop)) hattempt hnoted
    hallowed hfinish

end Attempts

/-! ## Processing a response -/

section Responses

variable {γ : Type} {P : Protocol Op Res γ}

theorem finishBatch_ignored (leaders : List Leader)
    (requests : List JudgmentRequest) (response : ProviderBatchResult)
    (g : γ) :
    Secures P (finishBatch leaders requests response)
      (fun _ g' => g' = g ∧ True) (fun _ g' => g' = g ∧ True) g := by
  unfold finishBatch
  split
  · exact ⟨rfl, trivial⟩
  split
  · exact ⟨rfl, trivial⟩
  · exact ⟨rfl, trivial⟩

theorem finishSingle_ignored
    (hP : ∀ op : Op, op.Unrecorded = true → P.Ignores op)
    (group : JudgmentGroup) (provider : Provider)
    (cacheIdentity : Option JudgmentIdentity)
    (cachePolicy : Option CachePolicy) (response : ProviderBatchResult)
    (g : γ) :
    Secures P (finishSingle group provider cacheIdentity cachePolicy response)
      (fun _ g' => g' = g ∧ True) (fun _ g' => g' = g ∧ True) g := by
  unfold finishSingle
  split
  · exact ⟨rfl, trivial⟩
  split
  · exact ⟨rfl, trivial⟩
  split
  · exact ⟨rfl, trivial⟩
  · rw [secures_bind]
    refine (cacheValidated_returns hP rfl).mono ?_
      (fun _ _ hfalse => hfalse.elim)
    rintro _ _ rfl
    exact ⟨rfl, trivial⟩

end Responses

section Requests

variable {γ : Type} {P : Protocol Op Res γ}
  (hP : ∀ op : Op, op.Decides = false → P.Ignores op)

include hP

theorem unrecorded_ignored (op : Op) (hop : op.Unrecorded = true) :
    P.Ignores op :=
  hP op (Op.not_decides_of_unrecorded hop)

theorem attends_ignored (op : Op) (hop : op.Attends = true) : P.Ignores op :=
  hP op (Op.not_decides_of_attends hop)

end Requests

end DuckJeu
