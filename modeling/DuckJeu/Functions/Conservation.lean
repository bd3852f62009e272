import DuckJeu.Functions.Counters
import DuckJeu.Support.Histogram
import Mathlib.Algebra.Order.BigOperators.Group.Multiset

/-!
# The counters of optimized queries balance

A query is made of calls of the optimized functions, in any number and under
any schedule.  Its counters show the account of the calls, and its entries are
the identities which the calls have claimed.  So all its rows and judgments
are accounted for when its calls have returned well, and at any other moment
what is counted later is covered by what was counted before.

The counters saturate.  A query balances as long as it has counted fewer than
2^64 input rows.
-/

namespace DuckJeu

open Effects ConnectionRuntime

variable {ι : Type}

/-! ## A query and its entries -/

/-- What may happen beside the calls of a query: nobody else records on it,
but workers of other queries may still run. -/
inductive BesideQuery (scope : ℕ) :
    ConnectionRuntime → ConnectionRuntime → Prop where
  | quiet {c c' : ConnectionRuntime} (h : QuietStep c c')
      (hcounts : (c'.activeFor scope).map ActiveQuery.counts =
        (c.activeFor scope).map ActiveQuery.counts) : BesideQuery scope c c'
  | other {c c' : ConnectionRuntime} {op : Op} {r : Res op}
      (h : step c op r c') (hother : op.reportsOn ≠ some scope) :
      BesideQuery scope c c'

/-- The surroundings when a new query has begun. -/
def Surroundings.beginQuery (s : Surroundings) (now : ℕ) : Surroundings :=
  { s with connection := s.connection.beginQuery now }

/-- The identity has been claimed in the query. -/
def ClaimedIn (scope : ℕ) (log : WorkerLog ι) (identity : JudgmentIdentity) :
    Prop :=
  ∃ i claim, (i, ⟨.claimQueryEntry scope identity, .ok claim⟩) ∈ log

/-- The query is active and its counters show the account. -/
def ShowsAccount (c : ConnectionRuntime) (scope : ℕ) (a : Account) : Prop :=
  ∃ query, c.activeFor scope = some query ∧ query.counts.Totals a

/-- The entries of a query are the identities claimed, and `unique` counts
them. -/
structure EntriesClaimed (scope : ℕ) (c : ConnectionRuntime) (unique : ℕ)
    (log : WorkerLog ι) : Prop where
  unique_eq : unique = c.queryEntries.keys.length
  claimed : ∀ identity,
    identity ∈ c.queryEntries ↔ ClaimedIn scope log identity

section Query

variable {c c' : ConnectionRuntime} {scope unique : ℕ} {a : Account}
  {log : WorkerLog ι} {i : ι}

theorem ShowsAccount.step (h : ShowsAccount c scope a) {op : Op} {r : Res op}
    (hstep : step c op r c') :
    ShowsAccount c' scope (ExecEvent.account scope ⟨op, r⟩ + a) := by
  obtain ⟨query, hquery, htotals⟩ := h
  refine ⟨{ query with
    counts := ExecEvent.count query.detailedTiming scope ⟨op, r⟩
      query.counts }, ?_, htotals.count query.detailedTiming scope ⟨op, r⟩⟩
  rw [step_activeFor hstep, hquery]
  rfl

/-- What keeps the counters of a query keeps what they show. -/
theorem ShowsAccount.kept (h : ShowsAccount c scope a)
    (hcounts : (c'.activeFor scope).map ActiveQuery.counts =
      (c.activeFor scope).map ActiveQuery.counts) :
    ShowsAccount c' scope a := by
  obtain ⟨query, hquery, htotals⟩ := h
  rw [hquery, Option.map_some] at hcounts
  obtain ⟨query', hquery', hsame⟩ := Option.map_eq_some_iff.mp hcounts
  exact ⟨query', hquery', hsame ▸ htotals⟩

theorem ShowsAccount.beside (h : ShowsAccount c scope a)
    (hbeside : BesideQuery scope c c') : ShowsAccount c' scope a := by
  cases hbeside with
  | quiet hquiet hcounts => exact h.kept hcounts
  | @other op r hstep hother =>
      have hnext := h.step hstep
      rwa [account_of_reportsOn hother, zero_add] at hnext

theorem credentialScopeFor_activeQuery (c : ConnectionRuntime)
    (hash : String → UInt64) (next reported : ℕ) (credential : Option String) :
    (c.credentialScopeFor hash next reported credential).2.1.activeQuery =
      c.activeQuery := by
  unfold ConnectionRuntime.credentialScopeFor
  split
  · rfl
  · dsimp only
    split
    · rfl
    · rfl

/-- Outside the executor a call records rows, and nothing else. -/
theorem ShowsAccount.perform {s : Surroundings}
    (h : ShowsAccount s.connection scope a) (op : FunctionOp) :
    ShowsAccount (s.perform op).2.connection scope (op.account scope + a) := by
  have hnothing : ShowsAccount s.connection scope (0 + a) := by
    rwa [zero_add]
  cases op with
  | enterQuery credential =>
      refine hnothing.kept ?_
      have hactive : (s.enterQuery credential).2.connection.activeQuery =
          s.connection.activeQuery :=
        credentialScopeFor_activeQuery s.connection s.hash s.nextScope
          s.connection.identityScopes.2 credential
      rw [Surroundings.perform, activeFor, activeFor, hactive]
  | recordOptimizedRows reported inputRows nullRows validRows groups =>
      obtain ⟨query, hquery, htotals⟩ := h
      refine ⟨_, (count_activeFor s.connection reported scope _).trans
        (by rw [hquery]; rfl), ?_⟩
      dsimp only [FunctionOp.account]
      by_cases hreported : reported = scope
      · subst hreported
        rw [if_pos rfl, if_pos rfl]
        exact htotals.rows inputRows nullRows validRows groups.length
      · have hne : some reported ≠ some scope :=
          fun hsame => hreported (Option.some.inj hsame)
        rw [if_neg hne, if_neg hreported, zero_add]
        exact htotals
  | _ => exact hnothing

/-! ### Entries -/

theorem claimedIn_cons {event : ExecEvent} {identity : JudgmentIdentity} :
    ClaimedIn scope ((i, event) :: log) identity ↔
      (∃ claim, event = ⟨.claimQueryEntry scope identity, .ok claim⟩) ∨
        ClaimedIn scope log identity := by
  unfold ClaimedIn
  constructor
  · rintro ⟨j, claim, hmem⟩
    rcases List.mem_cons.mp hmem with hnew | hold
    · exact Or.inl ⟨claim, (Prod.mk.inj hnew).2.symm⟩
    · exact Or.inr ⟨j, claim, hold⟩
  · rintro (⟨claim, rfl⟩ | ⟨j, claim, hmem⟩)
    · exact ⟨i, claim, List.mem_cons_self ..⟩
    · exact ⟨j, claim, List.mem_cons_of_mem _ hmem⟩

/-- What claims nothing leaves the entries alone. -/
theorem EntriesClaimed.quiet (h : EntriesClaimed scope c unique log)
    {event : ExecEvent} (hunique : (event.account scope).1 .unique = 0)
    (hclaims : ∀ identity claim,
      event ≠ ⟨.claimQueryEntry scope identity, .ok claim⟩)
    (hentries : c'.queryEntries = c.queryEntries) :
    EntriesClaimed scope c' ((event.account scope).1 .unique + unique)
      ((i, event) :: log) where
  unique_eq := by
    rw [hunique, zero_add, hentries]
    exact h.unique_eq
  claimed := by
    intro identity
    rw [hentries, h.claimed, claimedIn_cons]
    constructor
    · exact Or.inr
    · rintro (⟨claim, hevent⟩ | hold)
      · exact absurd hevent (hclaims identity claim)
      · exact hold

/-- Only the active query is running. -/
theorem scope_of_running {query : ActiveQuery}
    (hactive : c.activeFor scope = some query) {reported : ℕ}
    (hrunning : c.Running reported) : reported = scope := by
  obtain ⟨flag, hflag, -⟩ := hrunning
  unfold ConnectionRuntime.queryCancellation at hflag
  split at hflag
  · cases hflag
  · rename_i query' hreported
    obtain ⟨hquery', rfl⟩ := activeFor_some hreported
    obtain ⟨hquery, rfl⟩ := activeFor_some hactive
    rw [Option.some.inj (hquery'.symm.trans hquery)]

theorem EntriesClaimed.claim (h : EntriesClaimed scope c unique log)
    {query : ActiveQuery} (hactive : c.activeFor scope = some query)
    {reported : ℕ} {identity : JudgmentIdentity}
    {r : Except JudgmentError (ℕ × Bool)}
    (hstep : c.claimQueryEntry reported identity = (r, c')) :
    EntriesClaimed scope c'
      ((ExecEvent.account scope ⟨.claimQueryEntry reported identity, r⟩).1
        .unique + unique)
      ((i, ⟨.claimQueryEntry reported identity, r⟩) :: log) := by
  rcases claimQueryEntry_cases hstep with ⟨error, rfl, rfl, -⟩ |
    ⟨entry, rfl, hrunning, hlookup, hframe⟩ | ⟨rfl, hrunning, hlookup, hframe⟩
  · refine h.quiet rfl ?_ rfl
    intro other claim hevent
    cases hevent
  · obtain rfl := scope_of_running hactive hrunning
    have hmem : identity ∈ c.queryEntries :=
      AList.lookup_isSome.mp (by rw [hlookup]; rfl)
    constructor
    · rw [hframe.entries, ExecEvent.account, if_pos rfl]
      exact (zero_add _).trans h.unique_eq
    · intro other
      rw [hframe.entries, claimedIn_cons]
      constructor
      · exact fun hother => Or.inr ((h.claimed other).mp hother)
      · rintro (⟨claim, hevent⟩ | hold)
        · cases hevent
          exact hmem
        · exact (h.claimed other).mpr hold
  · obtain rfl := scope_of_running hactive hrunning
    have hnew : identity ∉ c.queryEntries := AList.lookup_eq_none.mp hlookup
    have hentries : c'.queryEntries =
        c.queryEntries.insert identity c.slots.length := hframe.entries
    constructor
    · rw [hentries, AList.keys_insert, List.length_cons,
        List.erase_of_not_mem (mt AList.mem_keys.mpr hnew), ← h.unique_eq,
        ExecEvent.account, if_pos rfl]
      exact Nat.add_comm 1 unique
    · intro other
      rw [hentries, AList.mem_insert, claimedIn_cons, h.claimed]
      constructor
      · rintro (rfl | hold)
        · exact Or.inl ⟨_, rfl⟩
        · exact Or.inr hold
      · rintro (⟨claim, hevent⟩ | hold)
        · cases hevent
          exact Or.inl rfl
        · exact Or.inr hold

/-- Workers of other queries make no entries. -/
theorem step_entries_other {query : ActiveQuery}
    (hactive : c.activeFor scope = some query) {op : Op} {r : Res op}
    (hstep : step c op r c') (hother : op.reportsOn ≠ some scope) :
    c'.queryEntries = c.queryEntries := by
  by_cases hclaim : ∃ reported identity, op = .claimQueryEntry reported identity
  · obtain ⟨reported, identity, rfl⟩ := hclaim
    have hnot : ¬ c.Running reported := fun hrunning =>
      hother (congrArg some (scope_of_running hactive hrunning))
    rcases claimQueryEntry_cases hstep with ⟨error, -, rfl, -⟩ |
      ⟨entry, -, hrunning, -, -⟩ | ⟨-, hrunning, -, -⟩
    · rfl
    · exact absurd hrunning hnot
    · exact absurd hrunning hnot
  · exact step_entries hstep fun reported identity hop =>
      hclaim ⟨reported, identity, hop⟩

theorem EntriesClaimed.step (h : EntriesClaimed scope c unique log)
    {query : ActiveQuery} (hactive : c.activeFor scope = some query) {op : Op}
    {r : Res op} (hstep : step c op r c') :
    EntriesClaimed scope c'
      ((ExecEvent.account scope ⟨op, r⟩).1 .unique + unique)
      ((i, ⟨op, r⟩) :: log) := by
  by_cases hclaim : ∃ reported identity, op = .claimQueryEntry reported identity
  · obtain ⟨reported, identity, rfl⟩ := hclaim
    exact h.claim hactive hstep
  · have hentries : c'.queryEntries = c.queryEntries :=
      step_entries hstep fun reported identity hop =>
        hclaim ⟨reported, identity, hop⟩
    have hclaims : ∀ identity claim,
        (⟨op, r⟩ : ExecEvent) ≠
          ⟨.claimQueryEntry scope identity, .ok claim⟩ :=
      fun identity claim hevent =>
        hclaim ⟨scope, identity, congrArg Sigma.fst hevent⟩
    have hif : ∀ {reported : ℕ} {a : Account}, a.1 .unique = 0 →
        (if reported = scope then a else 0).1 .unique = 0 := by
      intro reported a ha
      split
      · exact ha
      · rfl
    refine h.quiet ?_ hclaims hentries
    cases op with
    | claimQueryEntry reported identity => exact absurd ⟨_, _, rfl⟩ hclaim
    | recordCacheHit reported => exact hif rfl
    | recordProviderAttempt reported requests external => exact hif rfl
    | _ => rfl

/-! ### At any moment -/

/-- The counters show the account of the calls, and the entries are what the
calls have claimed. -/
structure Tracked (scope : ℕ) (c : ConnectionRuntime) (log : FunctionLog ι) :
    Prop where
  shows : ShowsAccount c scope (Log.weigh (functionAccount scope) log)
  entries : EntriesClaimed scope c
    ((Log.weigh (functionAccount scope) log).1 .unique) log.inner

/-- In a query which has just begun nothing has been claimed. -/
theorem tracked_beginQuery (c : ConnectionRuntime) (now : ℕ) :
    Tracked c.nextQueryId (c.beginQuery now) ([] : FunctionLog ι) := by
  obtain ⟨query, hquery, hcounts⟩ := beginQuery_activeFor c now
  refine ⟨⟨query, hquery, hcounts ▸ totals_zero⟩, rfl, fun identity => ?_⟩
  constructor
  · intro hmem
    cases hmem
  · rintro ⟨i, claim, hmem⟩
    cases hmem

theorem Tracked.inner {log : FunctionLog ι} (h : Tracked scope c log) {op : Op}
    {r : Res op} (hstep : step c op r c') :
    Tracked scope c' ((i, ⟨.inl op, r⟩) :: log) := by
  obtain ⟨query, hquery, -⟩ := h.shows
  exact ⟨h.shows.step hstep, h.entries.step hquery hstep⟩

theorem Tracked.outer {s : Surroundings} {log : FunctionLog ι}
    (h : Tracked scope s.connection log) {op : FunctionOp}
    (r : FunctionRes op) :
    Tracked scope (s.perform op).2.connection ((i, ⟨.inr op, r⟩) :: log) where
  shows := h.shows.perform op
  entries := by
    have hentries : (s.perform op).2.connection.queryEntries =
        s.connection.queryEntries := by
      rcases perform_quiet s op with hsame | hquiet
      · rw [hsame]
      · exact hquiet.frame.entries
    have hunique : (op.account scope).1 .unique = 0 := by
      cases op with
      | recordOptimizedRows reported inputRows nullRows validRows groups =>
          rw [FunctionOp.account]
          split
          · rfl
          · rfl
      | _ => rfl
    refine ⟨?_, ?_⟩
    · rw [hentries, ← h.entries.unique_eq, Log.weigh_cons, Prod.fst_add,
        Pi.add_apply]
      exact (congrArg (· + _) hunique).trans (Nat.zero_add _)
    · rw [hentries]
      exact h.entries.claimed

theorem Tracked.beside {log : FunctionLog ι} (h : Tracked scope c log)
    (hbeside : BesideQuery scope c c') : Tracked scope c' log := by
  obtain ⟨query, hquery, -⟩ := h.shows
  have hentries : c'.queryEntries = c.queryEntries := by
    cases hbeside with
    | quiet hquiet hcounts => exact hquiet.frame.entries
    | other hstep hother => exact step_entries_other hquery hstep hother
  refine ⟨h.shows.beside hbeside, ?_, ?_⟩
  · rw [hentries]
    exact h.entries.unique_eq
  · rw [hentries]
    exact h.entries.claimed

/-- Whatever the calls of a query do, it is tracked. -/
theorem FunctionPool.tracked [DecidableEq ι] {s : Surroundings} {now : ℕ}
    {calls : ι → FunctionCall} {p : FunctionPool ι}
    (hreach : FunctionPool.Reach (BesideQuery s.connection.nextQueryId)
      (FunctionPool.start (s.beginQuery now) calls) p) :
    Tracked s.connection.nextQueryId p.shared.connection p.log := by
  refine hreach.invariant
    (fun q => Tracked s.connection.nextQueryId q.shared.connection q.log)
    (tracked_beginQuery s.connection now) ?_
  rintro q q' htracked (⟨hnext, hstep⟩ | hhost)
  · rename_i i op k r s'
    cases op with
    | inl op =>
        obtain ⟨c, hstep, rfl⟩ := hstep
        exact htracked.inner hstep
    | inr op =>
        have hsame : s' = (q.shared.perform op).2 :=
          (congrArg Prod.snd hstep).symm
        rw [hsame]
        exact htracked.outer r
  · cases hhost with
    | connection h => exact htracked.beside h
    | process => exact htracked

end Query

/-! ## Identities -/

/-- The identities of the groups which a call has recorded in a query. -/
def FunctionOp.identities (scope : ℕ) : FunctionOp → List JudgmentIdentity
  | .recordOptimizedRows reported _ _ _ groups =>
      if reported = scope then groups.map JudgmentGroup.identity else []
  | _ => []

/-- All identities which the calls of a query have collected. -/
def identitiesIn (scope : ℕ) (log : FunctionLog ι) : List JudgmentIdentity :=
  log.flatMap fun entry =>
    match entry.2.1 with
    | .inl _ => []
    | .inr op => op.identities scope

section Identities

variable [DecidableEq ι]
  {host : ConnectionRuntime → ConnectionRuntime → Prop} {s₀ : Surroundings}
  {calls : ι → FunctionCall} {p : FunctionPool ι} {scope : ℕ}
  {identity : JudgmentIdentity}

theorem mem_identitiesIn {log : FunctionLog ι} :
    identity ∈ identitiesIn scope log ↔
      ∃ i inputRows nullRows validRows groups,
        FunctionOp.recordOptimizedRows scope inputRows nullRows validRows
          groups ∈ records (outerOf (log.of i)) ∧
        ∃ group ∈ groups, group.identity = identity := by
  have hevent : ∀ {i : ι} {op : FunctionOp},
      (∃ r, (⟨op, r⟩ : Event FunctionOp FunctionRes) ∈ outerOf (log.of i)) ↔
        ∃ r, (i, (⟨.inr op, r⟩ : SumEvent Res FunctionRes)) ∈ log := by
    intro i op
    simp only [mem_outerOf, Log.mem_of]
  constructor
  · intro hmem
    obtain ⟨⟨i, op, r⟩, hlog, hidentity⟩ := List.mem_flatMap.mp hmem
    cases op with
    | inl op => cases hidentity
    | inr op =>
        cases op with
        | recordOptimizedRows reported inputRows nullRows validRows groups =>
            by_cases hreported : reported = scope
            · subst hreported
              refine ⟨i, inputRows, nullRows, validRows, groups,
                mem_records.mpr ⟨hevent.mpr ⟨r, hlog⟩, rfl⟩, ?_⟩
              simpa [FunctionOp.identities] using hidentity
            · simp [FunctionOp.identities, hreported] at hidentity
        | _ => cases hidentity
  · rintro ⟨i, inputRows, nullRows, validRows, groups, hrecord, hgroup⟩
    obtain ⟨r, hlog⟩ := hevent.mp (mem_records.mp hrecord).1
    refine List.mem_flatMap.mpr ⟨_, hlog, ?_⟩
    simpa [FunctionOp.identities] using hgroup

/-- What is claimed has been collected. -/
theorem FunctionPool.claimed_collected (hexternal : AllExternal calls)
    (hreach : FunctionPool.Reach host (FunctionPool.start s₀ calls) p)
    (hclaimed : ClaimedIn scope p.log.inner identity) :
    identity ∈ identitiesIn scope p.log := by
  obtain ⟨i, claim, hmem⟩ := hclaimed
  have hevent : (⟨.claimQueryEntry scope identity, .ok claim⟩ : ExecEvent) ∈
      innerOf (p.log.of i) := by
    rw [← Log.inner_of]
    exact Log.mem_of.mpr hmem
  obtain ⟨hnone, hafter⟩ := FunctionPool.inner_after hreach i
  cases hbegun : (calls i).begunCall (outerOf (p.log.of i)) with
  | none =>
      rw [hnone hbegun] at hevent
      cases hevent
  | some inner =>
      obtain ⟨q, hq⟩ := hafter inner hbegun
      have hprovider := hexternal i _ (FunctionCall.begunCall_provider hbegun)
      obtain ⟨n, hclaims, -⟩ := Call.claims_groups hprovider hq
      obtain ⟨rfl, hgroup⟩ := hclaims.mem scope identity claim hevent
      obtain ⟨recorded, inputRows, nullRows, validRows, hrecord, -, rfl⟩ :=
        FunctionCall.begunCall_recorded hbegun
      exact mem_identitiesIn.mpr ⟨i, inputRows, nullRows, validRows,
        inner.groups, mem_records.mpr ⟨⟨_, hrecord⟩, rfl⟩, hgroup⟩

/-- What a call has collected, it has claimed when it returns well. -/
theorem FunctionPool.collected_claimed (hexternal : AllExternal calls)
    (hreach : FunctionPool.Reach host (FunctionPool.start s₀ calls) p)
    (hdone : ∀ i, p.log.of i = [] ∨ p.thread i = .ret (.ok ()))
    (hcollected : identity ∈ identitiesIn scope p.log) :
    ClaimedIn scope p.log.inner identity := by
  obtain ⟨i, inputRows, nulls, validRows, groups, hrecord, group, hgroup,
    rfl⟩ := mem_identitiesIn.mp hcollected
  have hreturned : p.thread i = .ret (.ok ()) := by
    refine (hdone i).resolve_left ?_
    intro hnone
    rw [hnone] at hrecord
    cases hrecord
  obtain ⟨context, invocation, chunk, work, nullRows, executed, recorded,
    -, hrecords, hexecuted, -⟩ := FunctionPool.post hreach hreturned
  -- the groups are those which have been executed
  have hwork : recorded = scope ∧ groups = groupByIdentity work := by
    rw [hrecords] at hrecord
    rcases List.mem_pair.mp hrecord with hwork | hinput
    · obtain ⟨hscope, -, -, -, hgroups⟩ :=
        FunctionOp.recordOptimizedRows.inj hwork
      exact ⟨hscope.symm, hgroups⟩
    · obtain ⟨-, -, -, -, hnil⟩ := FunctionOp.recordOptimizedRows.inj hinput
      rw [hnil] at hgroup
      cases hgroup
  obtain ⟨rfl, rfl⟩ := hwork
  rcases hexecuted with ⟨hnone, -⟩ | ⟨inner, hbegun, hgroups, hafter⟩
  · rw [hnone] at hgroup
    cases hgroup
  · have hprovider := hexternal i _ (FunctionCall.begunCall_provider hbegun)
    obtain ⟨rfl, -⟩ := FunctionCall.begunCall_work hbegun hrecords
    obtain ⟨n, hclaims, hall⟩ := Call.claims_groups hprovider hafter
    obtain rfl := hall executed rfl
    rw [← hgroups] at hgroup
    obtain ⟨claim, hmem⟩ := hclaims.claimed group (by simpa using hgroup)
    rw [← Log.inner_of] at hmem
    exact ⟨i, claim, Log.mem_of.mp hmem⟩

end Identities

/-! ## The balance -/

/-- The input rows which an operation records in a query. -/
def FunctionOp.inputRows (scope : ℕ) : FunctionOp → ℕ
  | .recordOptimizedRows reported inputRows _ _ _ =>
      if reported = scope then inputRows else 0
  | _ => 0

/-- All input rows which the calls of a query have recorded. -/
def rowsIn (scope : ℕ) (log : FunctionLog ι) : ℕ :=
  Log.weigh (weighBoth (fun _ => 0) fun event => event.1.inputRows scope) log

namespace QueryCounts

/-- Rows cover what is counted about judgments, and judgments cover what is
counted about requests. -/
structure Covered (counts : QueryCounts) : Prop where
  judgments : counts.deduplicatedRows + counts.uniqueJudgments ≤
    counts.validRows
  sent : counts.cacheHitJudgments +
      Histogram.sumOver (fun size n => size * n) counts.batchSizeHistogram ≤
    counts.uniqueJudgments

/-- All rows and all judgments are accounted for, and so many identities have
been judged. -/
structure Balanced (counts : QueryCounts) (identities : ℕ) : Prop where
  rows : counts.inputRows = counts.nullRows + counts.validRows
  judgments : counts.validRows =
    counts.uniqueJudgments + counts.deduplicatedRows
  unique : counts.uniqueJudgments = identities
  sent : counts.cacheHitJudgments +
      Histogram.sumOver (fun size n => size * n) counts.batchSizeHistogram =
    counts.uniqueJudgments
  invocations : counts.providerInvocations = counts.externalRequests
  requests : counts.externalRequests =
    Histogram.sumOver (fun _ n => n) counts.batchSizeHistogram
  batched : counts.batchedRequests =
    Histogram.sumOver (fun size n => if 1 < size then n else 0)
      counts.batchSizeHistogram

end QueryCounts

section Balance

variable {counts : QueryCounts} {a : Account}

theorem Account.Requests.card_le (h : a.Requests) : a.2.card ≤ a.2.sum := by
  have hle := Multiset.card_nsmul_le_sum (a := 1) fun size hsize =>
    h.positive size hsize
  rwa [smul_eq_mul, Nat.mul_one] at hle

/-- Nothing is counted more often than there are input rows. -/
theorem Account.Within.le_input (h : a.Within) (item : CountItem) :
    a.1 item ≤ a.1 .input := by
  obtain ⟨hrows, hjudgments, hrequests⟩ := h
  have hsent := hrequests.sent
  have hcard := hrequests.card_le
  have hbatched : a.1 .batched ≤ a.2.card := by
    rw [hrequests.batched]
    exact Multiset.card_le_card (Multiset.filter_le _ _)
  have hinvocations := hrequests.invocations
  have hexternal := hrequests.external
  cases item with
  | _ => omega

/-- As long as the input rows have not saturated, the counters are exact. -/
theorem QueryCounts.Totals.exact (h : counts.Totals a) (hwithin : a.Within)
    (hrows : a.1 .input ≤ usizeMax) :
    (∀ item, counts.item item = a.1 item) ∧
      Histogram.Of a.2 counts.batchSizeHistogram := by
  constructor
  · intro item
    rw [h.items, capped_of_le ((hwithin.le_input item).trans hrows)]
  · intro size
    have hcount : a.2.count size ≤ a.1 .external := by
      rw [hwithin.requests.external]
      exact Multiset.count_le_card size a.2
    have hle := (hcount.trans (hwithin.le_input .external)).trans hrows
    exact (h.sizes size).trans (capped_of_le hle)

theorem QueryCounts.Totals.covered (h : counts.Totals a) (hwithin : a.Within)
    (hrows : a.1 .input ≤ usizeMax) : counts.Covered := by
  obtain ⟨hitems, hhistogram⟩ := h.exact hwithin hrows
  have hjudgments := hwithin.judgments
  have hsent := hwithin.requests.sent
  have hunique := hitems .unique
  have hdeduplicated := hitems .deduplicated
  have hvalid := hitems .valid
  have hhits := hitems .hits
  simp only [QueryCounts.item] at hunique hdeduplicated hvalid hhits
  constructor
  · omega
  · rw [hhistogram.sum]
    omega

theorem QueryCounts.Totals.balanced (h : counts.Totals a)
    (hsettled : a.Settled) (hrows : a.1 .input ≤ usizeMax) {identities : ℕ}
    (hidentities : a.1 .unique = identities) : counts.Balanced identities := by
  obtain ⟨hitems, hhistogram⟩ := h.exact hsettled.within hrows
  have hrequests := hsettled.within.requests
  have hinput := hitems .input
  have hnulls := hitems .nulls
  have hvalid := hitems .valid
  have hunique := hitems .unique
  have hdeduplicated := hitems .deduplicated
  have hhits := hitems .hits
  have hinvocations := hitems .invocations
  have hexternal := hitems .external
  have hbatched := hitems .batched
  simp only [QueryCounts.item] at hinput hnulls hvalid hunique
  simp only [QueryCounts.item] at hdeduplicated hhits hinvocations
  simp only [QueryCounts.item] at hexternal hbatched
  constructor
  · rw [hinput, hnulls, hvalid, hsettled.rows_eq]
  · rw [hvalid, hunique, hdeduplicated, hsettled.judgments_eq]
  · rw [hunique, hidentities]
  · rw [hhistogram.sum, hhits, hunique, hsettled.sent_eq]
  · rw [hinvocations, hexternal, hrequests.invocations, hrequests.external]
  · rw [hhistogram.card, hexternal, hrequests.external]
  · rw [hhistogram.card_filter, hbatched, hrequests.batched]

end Balance

theorem weigh_input (scope : ℕ) (log : FunctionLog ι) :
    (Log.weigh (functionAccount scope) log).1 .input = rowsIn scope log := by
  induction log with
  | nil => rfl
  | cons entry log ih =>
      obtain ⟨i, op, r⟩ := entry
      rw [rowsIn, Log.weigh_cons, Log.weigh_cons, Prod.fst_add, Pi.add_apply,
        ih]
      refine congrArg (· + rowsIn scope log) ?_
      cases op with
      | inl op =>
          have hrowless : (weigh (ExecEvent.account scope) [⟨op, r⟩]).Rowless :=
            account_rowless [⟨op, r⟩]
          exact hrowless.input_eq
      | inr op =>
          cases op with
          | recordOptimizedRows reported inputRows nullRows validRows groups =>
              simp only [functionAccount, weighBoth, FunctionOp.account,
                FunctionOp.inputRows]
              split
              · rfl
              · rfl
          | _ => rfl

/-! ## Chunks in turn -/

section Chunks

/-- A call about a chunk of NULL rows. -/
def nullsCall (rowCount : ℕ) : FunctionCall :=
  { textsCall with
    rowCount := rowCount
    read := fun _ => .ok none }

/-- The surroundings after such a call. -/
def Surroundings.recordNulls (s : Surroundings) (queryScope rowCount : ℕ) :
    Surroundings :=
  { s with
    connection :=
      (s.connection.recordOptimizedRows queryScope rowCount 0 0 0
        ).recordOptimizedRows queryScope 0 rowCount 0 0
    nextInvocation := (s.nextInvocation + 1) % 2 ^ 64
    nextChunk := (s.nextChunk + 1) % 2 ^ 64 }

theorem collect_nulls (rowCount : ℕ) (context : JudgmentIdentityContext)
    (invocation chunk nullRows : ℕ) (rows : List ℕ) :
    (nullsCall rowCount).collect context invocation chunk [] nullRows rows =
      .ok ([], nullRows + rows.length) := by
  induction rows generalizing nullRows with
  | nil => rfl
  | cons row rest ih =>
      have hread : (nullsCall rowCount).read row = .ok none := rfl
      rw [FunctionCall.collect, hread]
      dsimp only
      rw [ih, List.length_cons, Nat.add_assoc, Nat.add_comm 1]

/-- NULL rows are written without a record. -/
theorem run_writeRows_nulls (env : Environment) (kind : FunctionKind)
    (scope n first : ℕ) (s : Surroundings × ℕ) :
    ∃ h, (writeRows kind first (List.replicate n none)).run env.around s =
        some ((), s, h) ∧ weigh (functionAccount scope) h = 0 := by
  induction n generalizing first with
  | zero => exact ⟨[], rfl, rfl⟩
  | succ n ih =>
      obtain ⟨h, hrun, hweigh⟩ := ih (first + 1)
      refine ⟨_, Prog.run_call (r := ()) rfl hrun, ?_⟩
      rw [weigh_append, hweigh]
      rfl

/-- In an active query a call about NULL rows records them, and returns. -/
theorem run_nulls (env : Environment) (rowCount : ℕ) {s s' : Surroundings}
    {queryScope credentialScope : ℕ}
    (henter : s.enterQuery none = (.ok (queryScope, credentialScope), s')) :
    ∃ h, (runOptimized (nullsCall rowCount)).run.run env.around (s, 0) =
        some (.ok (), (s'.recordNulls queryScope rowCount, 0), h) ∧
      weigh (functionAccount queryScope) h =
        Account.chunk rowCount rowCount 0 0 := by
  have hcall : ∀ {op : FunctionOp} {r : FunctionRes op}
      {k : FunctionRes op → FunctionRun (Except JudgmentError Unit)}
      {s s' last : Surroundings} {a : Account}, s.perform op = (r, s') →
      (∃ h, (k r).run env.around (s', 0) = some (.ok (), (last, 0), h) ∧
        weigh (functionAccount queryScope) h = a) →
      ∃ h, Prog.run env.around (.call (.inr op) k) (s, 0) =
          some (.ok (), (last, 0), h) ∧
        weigh (functionAccount queryScope) h =
          a + op.account queryScope := by
    rintro op r k s s' last a hop ⟨h, hrun, rfl⟩
    have hstep : env.around (s, 0) (.inr op) = some (r, (s', 0)) := by
      rw [Environment.around, hop]
    refine ⟨_, Prog.run_call hstep hrun, ?_⟩
    rw [weigh_append, weigh_cons, weigh_nil, add_zero]
    rfl
  have hcollect : ∀ context invocation chunk,
      (nullsCall rowCount).collect context invocation chunk [] 0
        (List.range (nullsCall rowCount).rowCount) = .ok ([], rowCount) := by
    intro context invocation chunk
    rw [collect_nulls, List.length_range, Nat.zero_add]
    rfl
  obtain ⟨h, hrun, hweigh⟩ := run_writeRows_nulls env .prob queryScope rowCount
    0 (s'.recordNulls queryScope rowCount, 0)
  have hwrite : ((writeRows .prob 0 (List.replicate rowCount none)) >>=
      fun _ => .ret (.ok ())).run env.around
        (s'.recordNulls queryScope rowCount, 0) =
      some ((.ok () : Except JudgmentError Unit),
        (s'.recordNulls queryScope rowCount, 0), h) := by
    rw [Prog.run_bind, hrun]
    rfl
  have hprogram : ∃ h,
      (runOptimized (nullsCall rowCount)).run.run env.around (s, 0) =
          some (.ok (), (s'.recordNulls queryScope rowCount, 0), h) ∧
        weigh (functionAccount queryScope) h =
          0 +
            (FunctionOp.recordOptimizedRows queryScope 0 rowCount 0 []).account
              queryScope + 0 + 0 +
            (FunctionOp.recordOptimizedRows queryScope rowCount 0 0 []).account
              queryScope + 0 := by
    unfold runOptimized
    simp only [hcollect]
    exact hcall henter (hcall rfl (hcall rfl (hcall rfl (hcall rfl
      ⟨h, hwrite, hweigh⟩))))
  obtain ⟨h, hrun, hweigh⟩ := hprogram
  refine ⟨h, hrun, hweigh.trans ?_⟩
  simp [FunctionOp.account, Account.chunk]

/-- Whoever enters an active query gets its scope. -/
theorem enterQuery_active {s : Surroundings} {scope : ℕ} {query : ActiveQuery}
    (hquery : s.connection.activeFor scope = some query)
    (credential : Option String) : ∃ credentialScope,
      (s.enterQuery credential).1 = .ok (scope, credentialScope) := by
  obtain ⟨hactive, rfl⟩ := activeFor_some hquery
  have hscope : s.connection.identityScopes.2 = query.queryId := by
    rw [identityScopes, hactive]
    rfl
  have hentered : (s.enterQuery credential).1 =
      (s.connection.credentialScopeFor s.hash s.nextScope
        s.connection.identityScopes.2 credential).1.map fun credentialScope =>
          (s.connection.identityScopes.2, credentialScope) := rfl
  rw [hentered, hscope, ConnectionRuntime.credentialScopeFor, hquery]
  dsimp only
  split
  · exact ⟨_, rfl⟩
  · exact ⟨_, rfl⟩

/-- A connection before its first query. -/
def freshSurroundings : Surroundings :=
  { firstSurroundings with connection := ConnectionRuntime.init 1 }

/-- A chunk of texts, and then chunks of NULL rows. -/
def chunkCalls : ℕ → FunctionCall
  | 0 => textsCall
  | _ + 1 => nullsCall 2048

theorem chunkCalls_external : AllExternal chunkCalls := by
  intro i provider hprovider
  cases i with
  | zero =>
      obtain rfl := Except.ok.inj hprovider
      rfl
  | succ i =>
      obtain rfl := Except.ok.inj hprovider
      rfl

/-- The chunks can be evaluated one after the other. -/
theorem chunks_evaluated (k : ℕ) : ∃ p : FunctionPool ℕ,
    FunctionPool.Reach (BesideQuery freshSurroundings.connection.nextQueryId)
      (FunctionPool.start (freshSurroundings.beginQuery 0) chunkCalls) p ∧
    (∀ i ≤ k, p.thread i = .ret (.ok ())) ∧
    (∀ i, k < i → p.thread i = (runOptimized (chunkCalls i)).run ∧
      p.log.of i = []) ∧
    (Log.weigh (functionAccount 0) p.log).1 .input = 3 + 2048 * k ∧
    (Log.weigh (functionAccount 0) p.log).1 .nulls = 1 + 2048 * k ∧
    (Log.weigh (functionAccount 0) p.log).1 .valid = 2 := by
  induction k with
  | zero =>
      have hrun : ((runOptimized textsCall).run.run halfEnvironment.around
          (firstSurroundings, 0)).map (fun last => (last.1,
            (weigh (functionAccount 0) last.2.2).1 .input,
            (weigh (functionAccount 0) last.2.2).1 .nulls,
            (weigh (functionAccount 0) last.2.2).1 .valid)) =
          some (.ok (), 3, 1, 2) := by
        decide
      obtain ⟨⟨answer, s', h⟩, hrun, heq⟩ := Option.map_eq_some_iff.mp hrun
      simp only [Prod.mk.injEq] at heq
      obtain ⟨rfl, hinput, hnulls, hvalid⟩ := heq
      have hreach : FunctionPool.Reach
          (BesideQuery freshSurroundings.connection.nextQueryId)
          (FunctionPool.start (freshSurroundings.beginQuery 0) chunkCalls) _ :=
        Prog.run_reachable (π := Prod.fst) (i := 0)
          halfEnvironment.around_step hrun rfl
      refine ⟨_, hreach, ?_, ?_, ?_⟩
      · intro i hi
        obtain rfl : i = 0 := Nat.le_zero.mp hi
        dsimp only
        rw [Function.update_self]
      · intro i hi
        have hne : i ≠ 0 := Nat.ne_of_gt hi
        dsimp only
        rw [Function.update_of_ne hne]
        exact ⟨rfl, by simp [Log.of, Ne.symm hne]⟩
      · rw [Log.weigh_thread, Log.weigh_nil, add_zero]
        exact ⟨hinput, hnulls, hvalid⟩
  | succ k ih =>
      obtain ⟨p, hreach, hdone, hwaiting, hinput, hnulls, hvalid⟩ := ih
      obtain ⟨⟨query, hquery, -⟩, -⟩ := FunctionPool.tracked hreach
      obtain ⟨credentialScope, henter⟩ := enterQuery_active hquery none
      obtain ⟨h, hrun, hweigh⟩ := run_nulls halfEnvironment 2048
        (s := p.shared) (Prod.ext henter rfl)
      obtain ⟨hthread, hlog⟩ := hwaiting (k + 1) (Nat.lt_succ_self k)
      have hnext : FunctionPool.Reach
          (BesideQuery freshSurroundings.connection.nextQueryId) p _ :=
        Prog.run_reachable (π := Prod.fst) (i := k + 1)
          halfEnvironment.around_step hrun hthread
      refine ⟨_, hreach.trans hnext, ?_, ?_, ?_⟩
      · intro i hi
        dsimp only
        by_cases hlast : i = k + 1
        · subst hlast
          rw [Function.update_self]
        · rw [Function.update_of_ne hlast]
          exact hdone i (by omega)
      · intro i hi
        have hne : i ≠ k + 1 := Nat.ne_of_gt hi
        obtain ⟨hother, hnone⟩ := hwaiting i (by omega)
        dsimp only
        rw [Function.update_of_ne hne, Log.of_append, hnone]
        exact ⟨hother, by simp [Log.of, Ne.symm hne]⟩
      · have hscope : freshSurroundings.connection.nextQueryId = 0 := rfl
        rw [hscope] at hweigh
        obtain ⟨hinputs, hnullRows, hvalids, -⟩ := Account.chunk_add 2048 2048 0
          0 (Log.weigh (functionAccount 0) p.log)
        rw [Log.weigh_thread, hweigh, hinputs, hnullRows, hvalids, hinput,
          hnulls, hvalid]
        omega

end Chunks

/-! ## Conservation of counts -/

/-- In a query which is made of calls of the optimized functions over
providers with external requests, and has counted fewer than 2^64 input rows,
the counters are covered at every moment.  They balance when each call has
either done nothing yet or returned well. -/
theorem counts_balanced [DecidableEq ι] {s : Surroundings} {now : ℕ}
    {calls : ι → FunctionCall} (hexternal : AllExternal calls)
    {p : FunctionPool ι}
    (hreach : FunctionPool.Reach (BesideQuery s.connection.nextQueryId)
      (FunctionPool.start (s.beginQuery now) calls) p)
    (hrows : rowsIn s.connection.nextQueryId p.log < 2 ^ 64) :
    ∃ query,
      p.shared.connection.activeFor s.connection.nextQueryId = some query ∧
      query.counts.Covered ∧
      ((∀ i, p.log.of i = [] ∨ p.thread i = .ret (.ok ())) →
        query.counts.Balanced
          (identitiesIn s.connection.nextQueryId p.log).toFinset.card) := by
  obtain ⟨⟨query, hquery, htotals⟩, hunique, hclaimed⟩ :=
    FunctionPool.tracked hreach
  have hwithin := FunctionPool.total_within hexternal hreach
    s.connection.nextQueryId
  have hinput : (Log.weigh (functionAccount s.connection.nextQueryId)
      p.log).1 .input ≤ usizeMax := by
    rw [weigh_input]
    exact Nat.le_of_lt_succ hrows
  refine ⟨query, hquery, htotals.covered hwithin hinput, fun hdone => ?_⟩
  -- the entries of the query are its identities
  have hidentities : p.shared.connection.queryEntries.keys.toFinset =
      (identitiesIn s.connection.nextQueryId p.log).toFinset := by
    ext identity
    rw [List.mem_toFinset, List.mem_toFinset, ← AList.mem_keys, hclaimed]
    constructor
    · exact FunctionPool.claimed_collected hexternal hreach
    · exact FunctionPool.collected_claimed hexternal hreach hdone
  have hnodup : p.shared.connection.queryEntries.keys.Nodup :=
    AList.keys_nodup _
  refine htotals.balanced
    (FunctionPool.total_settled hexternal hreach s.connection.nextQueryId hdone)
    hinput ?_
  rw [hunique, ← hidentities, List.toFinset_card_of_nodup hnodup]

theorem counts_balanced_chunks : ∃ (p : FunctionPool ℕ) (query : ActiveQuery),
    p.thread 0 = .ret (.ok ()) ∧ p.thread 1 = .ret (.ok ()) ∧
    p.shared.connection.activeFor freshSurroundings.connection.nextQueryId =
      some query ∧
    query.counts.Covered ∧
    query.counts.Balanced (identitiesIn
      freshSurroundings.connection.nextQueryId p.log).toFinset.card := by
  obtain ⟨p, hreach, hdone, hwaiting, hinput, -⟩ := chunks_evaluated 1
  have hrows :
      rowsIn freshSurroundings.connection.nextQueryId p.log < 2 ^ 64 := by
    rw [← weigh_input]
    exact hinput.trans_lt (by decide)
  obtain ⟨query, hquery, hcovered, hbalanced⟩ :=
    counts_balanced chunkCalls_external hreach hrows
  refine ⟨p, query, hdone 0 (Nat.zero_le 1), hdone 1 (Nat.le_refl 1), hquery,
    hcovered, hbalanced fun i => ?_⟩
  by_cases hi : i ≤ 1
  · exact Or.inr (hdone i hi)
  · exact Or.inl (hwaiting i (Nat.lt_of_not_le hi)).2

/-- In a query over 2^53 chunks of NULL rows, and a few rows more, the input
rows have saturated. -/
theorem counts_saturated : ∃ (p : FunctionPool ℕ) (query : ActiveQuery),
    AllExternal chunkCalls ∧ (∀ i, (chunkCalls i).rowCount ≤ 2048) ∧
    FunctionPool.Reach (BesideQuery freshSurroundings.connection.nextQueryId)
      (FunctionPool.start (freshSurroundings.beginQuery 0) chunkCalls) p ∧
    (∀ i, p.log.of i = [] ∨ p.thread i = .ret (.ok ())) ∧
    p.shared.connection.activeFor freshSurroundings.connection.nextQueryId =
      some query ∧
    query.counts.inputRows ≠
      query.counts.nullRows + query.counts.validRows := by
  obtain ⟨p, hreach, hdone, hwaiting, hinput, hnulls, hvalid⟩ :=
    chunks_evaluated (2 ^ 53)
  obtain ⟨⟨query, hquery, htotals⟩, -⟩ := FunctionPool.tracked hreach
  refine ⟨p, query, chunkCalls_external, ?_, hreach, ?_, hquery, ?_⟩
  · intro i
    cases i with
    | zero => exact Nat.le_of_ble_eq_true rfl
    | succ i => exact Nat.le_refl 2048
  · intro i
    by_cases hi : i ≤ 2 ^ 53
    · exact Or.inr (hdone i hi)
    · exact Or.inl (hwaiting i (Nat.lt_of_not_le hi)).2
  · have hinputs : query.counts.inputRows = capped (3 + 2048 * 2 ^ 53) :=
      (htotals.items .input).trans (congrArg capped hinput)
    have hnullRows : query.counts.nullRows = capped (1 + 2048 * 2 ^ 53) :=
      (htotals.items .nulls).trans (congrArg capped hnulls)
    have hvalids : query.counts.validRows = capped 2 :=
      (htotals.items .valid).trans (congrArg capped hvalid)
    rw [hinputs, hnullRows, hvalids]
    decide

end DuckJeu
