import DuckJeu.Functions.Account
import DuckJeu.Functions.Bill

/-!
# Counters and accounts

The counters of a query on rows, judgments and requests show its account, as
far as they do not saturate.  Whatever an event adds to the one it adds to the
other.
-/

namespace DuckJeu

open Effects ConnectionRuntime

/-- What reports on another query adds nothing to the account. -/
theorem account_of_reportsOn {scope : ℕ} {event : ExecEvent}
    (h : event.1.reportsOn ≠ some scope) : event.account scope = 0 := by
  obtain ⟨op, r⟩ := event
  have hne : ∀ {reported : ℕ}, op.reportsOn = some reported →
      reported ≠ scope := by
    rintro reported hreported rfl
    exact h hreported
  cases op with
  | claimQueryEntry reported identity =>
      cases r with
      | error error => rfl
      | ok claim => exact if_neg (hne rfl)
  | recordCacheHit reported => exact if_neg (hne rfl)
  | recordProviderAttempt reported requests external => exact if_neg (hne rfl)
  | _ => rfl

/-- The counter of an item. -/
def QueryCounts.item (counts : QueryCounts) : CountItem → ℕ
  | .input => counts.inputRows
  | .nulls => counts.nullRows
  | .valid => counts.validRows
  | .unique => counts.uniqueJudgments
  | .deduplicated => counts.deduplicatedRows
  | .hits => counts.cacheHitJudgments
  | .invocations => counts.providerInvocations
  | .external => counts.externalRequests
  | .batched => counts.batchedRequests

/-- The number of external requests of a size. -/
def QueryCounts.sized (counts : QueryCounts) (size : ℕ) : ℕ :=
  (counts.batchSizeHistogram.lookup size).getD 0

/-- The counters show the account, as far as they do not saturate. -/
structure QueryCounts.Totals (counts : QueryCounts) (a : Account) : Prop where
  items : ∀ item, counts.item item = capped (a.1 item)
  sizes : ∀ size, counts.sized size = capped (a.2.count size)

/-- A counter is left alone or increased. -/
def Counts (before after added : ℕ) : Prop :=
  (after = before ∧ added = 0) ∨ after = satAdd before added

section Totals

variable {counts counts' : QueryCounts} {a b : Account}

theorem Counts.capped {before after added n : ℕ}
    (h : Counts before after added) (hbefore : before = capped n) :
    after = DuckJeu.capped (added + n) := by
  subst hbefore
  rcases h with ⟨rfl, rfl⟩ | rfl
  · rw [Nat.zero_add]
  · rw [satAdd_capped, Nat.add_comm]

theorem totals_zero : QueryCounts.Totals {} 0 where
  items := by
    intro item
    cases item with
    | _ => rfl
  sizes := fun _ => rfl

theorem QueryCounts.Totals.add (h : counts.Totals a)
    (hitems : ∀ item, Counts (counts.item item) (counts'.item item) (b.1 item))
    (hsizes : ∀ size,
      Counts (counts.sized size) (counts'.sized size) (b.2.count size)) :
    counts'.Totals (b + a) where
  items := fun item => (hitems item).capped (h.items item)
  sizes := by
    intro size
    rw [Prod.snd_add, Multiset.count_add]
    exact (hsizes size).capped (h.sizes size)

theorem QueryCounts.Totals.rows (h : counts.Totals a)
    (inputRows nullRows validRows groups : ℕ) :
    QueryCounts.Totals
      { counts with
        inputRows := satAdd counts.inputRows inputRows
        nullRows := satAdd counts.nullRows nullRows
        validRows := satAdd counts.validRows validRows
        deduplicatedRows :=
          satAdd counts.deduplicatedRows (validRows - groups) }
      (rowsAccount inputRows nullRows validRows groups + a) := by
  refine h.add ?_ fun _ => Or.inl ⟨rfl, rfl⟩
  intro item
  cases item with
  | input => exact Or.inr rfl
  | nulls => exact Or.inr rfl
  | valid => exact Or.inr rfl
  | deduplicated => exact Or.inr rfl
  | _ => exact Or.inl ⟨rfl, rfl⟩

theorem QueryCounts.Totals.claim (h : counts.Totals a)
    (detailedTiming : Bool) (reported : ℕ) (identity : JudgmentIdentity)
    (entry : ℕ) (owned : Bool) :
    (ExecEvent.tally detailedTiming counts
      ⟨.claimQueryEntry reported identity, .ok (entry, owned)⟩).Totals
      (claimAccount owned + a) := by
  refine h.add ?_ ?_
  · intro item
    cases owned with
    | true =>
        cases item with
        | unique => exact Or.inr rfl
        | _ => exact Or.inl ⟨rfl, rfl⟩
    | false =>
        cases item with
        | deduplicated => exact Or.inr rfl
        | _ => exact Or.inl ⟨rfl, rfl⟩
  · intro size
    cases owned with
    | true => exact Or.inl ⟨rfl, rfl⟩
    | false => exact Or.inl ⟨rfl, rfl⟩

theorem QueryCounts.Totals.hit (h : counts.Totals a) :
    QueryCounts.Totals
      { counts with cacheHitJudgments := satAdd counts.cacheHitJudgments 1 }
      (hitAccount + a) := by
  refine h.add ?_ fun _ => Or.inl ⟨rfl, rfl⟩
  intro item
  cases item with
  | hits => exact Or.inr rfl
  | _ => exact Or.inl ⟨rfl, rfl⟩

theorem QueryCounts.Totals.attempt (h : counts.Totals a) (size : ℕ)
    (external : Bool) :
    (counts.attempt size external).Totals
      (attemptAccount size external + a) := by
  cases external with
  | false =>
      refine h.add ?_ fun _ => Or.inl ⟨rfl, rfl⟩
      intro item
      cases item with
      | invocations => exact Or.inr rfl
      | batched => exact Or.inl ⟨rfl, by simp [attemptAccount]⟩
      | _ => exact Or.inl ⟨rfl, rfl⟩
  | true =>
      refine h.add ?_ ?_
      · intro item
        cases item with
        | invocations => exact Or.inr rfl
        | external => exact Or.inr rfl
        | batched =>
            by_cases hbatch : 1 < size
            · refine Or.inr ?_
              simp [QueryCounts.item, QueryCounts.attempt, attemptAccount,
                hbatch]
            · refine Or.inl ⟨?_, ?_⟩
              · simp [QueryCounts.item, QueryCounts.attempt, hbatch]
              · simp [attemptAccount, hbatch]
        | _ => exact Or.inl ⟨rfl, rfl⟩
      · intro other
        by_cases hsize : other = size
        · subst hsize
          refine Or.inr ?_
          simp [QueryCounts.sized, QueryCounts.attempt, attemptAccount]
        · refine Or.inl ⟨?_, ?_⟩
          · simp [QueryCounts.sized, QueryCounts.attempt, hsize]
          · simp [attemptAccount, hsize]

/-- Timing, models, usage and inference are not part of the account. -/
theorem QueryCounts.Totals.response (h : counts.Totals a)
    (detailedTiming : Bool) (metadata : ProviderMetadata) (elapsed : ℕ)
    (external : Bool) :
    (counts.response detailedTiming metadata elapsed external).Totals a := by
  have htiming : ∀ {counts : QueryCounts}, counts.Totals a →
      (counts.responseTiming metadata elapsed).Totals a := by
    intro counts h
    unfold QueryCounts.responseTiming
    cases metadata.serializationTimeNs with
    | none => exact { h with }
    | some serializationTimeNs => exact { h with }
  have hmodel : ∀ {counts : QueryCounts}, counts.Totals a →
      (counts.responseModel metadata).Totals a := by
    intro counts h
    unfold QueryCounts.responseModel
    split
    · exact h
    split
    · exact h
    · exact { h with }
  have husage : ∀ {counts : QueryCounts}, counts.Totals a →
      (counts.responseUsage metadata).Totals a := by
    intro counts h
    unfold QueryCounts.responseUsage
    dsimp only
    split
    · exact { h with }
    · exact { h with }
  have hinference : ∀ {counts : QueryCounts}, counts.Totals a →
      (counts.responseInference metadata).Totals a := by
    intro counts h
    unfold QueryCounts.responseInference
    split
    · exact { h with }
    · exact { h with }
  unfold QueryCounts.response
  split
  · exact h
  dsimp only
  split
  · exact hinference (husage (hmodel (htiming h)))
  · exact hinference (husage (hmodel h))

theorem QueryCounts.Totals.failure (h : counts.Totals a)
    (detailedTiming : Bool) (elapsed : ℕ) (external : Bool) :
    (counts.failure detailedTiming elapsed external).Totals a := by
  unfold QueryCounts.failure
  split
  · dsimp only
    split
    · exact { h with }
    · exact { h with }
  · exact h

/-- What an event adds to the counters is what it adds to the account. -/
theorem QueryCounts.Totals.count (h : counts.Totals a) (detailedTiming : Bool)
    (scope : ℕ) (event : ExecEvent) :
    (ExecEvent.count detailedTiming scope event counts).Totals
      (event.account scope + a) := by
  have hnothing : counts.Totals (0 + a) := by rwa [zero_add]
  obtain ⟨op, r⟩ := event
  unfold ExecEvent.count
  by_cases hreported : op.reportsOn = some scope
  · rw [if_pos hreported]
    cases op with
    | claimQueryEntry reported identity =>
        obtain rfl : reported = scope := Option.some.inj hreported
        rcases r with error | ⟨entry, owned⟩
        · exact hnothing
        · simpa [ExecEvent.account] using
            h.claim detailedTiming reported identity entry owned
    | recordCacheHit reported =>
        obtain rfl : reported = scope := Option.some.inj hreported
        simpa [ExecEvent.account, ExecEvent.tally] using h.hit
    | recordProviderAttempt reported requests external =>
        obtain rfl : reported = scope := Option.some.inj hreported
        simpa [ExecEvent.account, ExecEvent.tally] using
          h.attempt requests.length external
    | recordFailedRequest reported => exact { hnothing with }
    | recordProviderResponse reported metadata elapsed external =>
        exact hnothing.response detailedTiming metadata elapsed external
    | recordProviderFailure reported elapsed external =>
        exact hnothing.failure detailedTiming elapsed external
    | _ => cases hreported
  · rw [if_neg hreported, account_of_reportsOn hreported]
    exact hnothing

end Totals

end DuckJeu
