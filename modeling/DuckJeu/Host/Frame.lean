import DuckJeu.Executor.Operations

/-!
# What the operations leave alone

Recording and caching touch nothing which the interplay of workers depends
on: the slots, the entries and flags of the query, and the permits.  The few
operations which do are described here one by one.
-/

namespace DuckJeu

namespace ConnectionRuntime

variable {c c' : ConnectionRuntime}

/-- The two states differ in counters and in the cache only. -/
structure Frame (c c' : ConnectionRuntime) : Prop where
  slots : c'.slots = c.slots
  entries : c'.queryEntries = c.queryEntries
  flags : c'.flags = c.flags
  inflight : c'.inflight = c.inflight
  cancellation : ∀ scope,
    c'.queryCancellation scope = c.queryCancellation scope

theorem Frame.refl (c : ConnectionRuntime) : Frame c c :=
  ⟨rfl, rfl, rfl, rfl, fun _ => rfl⟩

theorem Frame.slot (h : Frame c c') (entry : ℕ) :
    c'.slot entry = c.slot entry := by
  rw [ConnectionRuntime.slot, h.slots, ConnectionRuntime.slot]

/-- The query is active and not cancelled. -/
def Running (c : ConnectionRuntime) (scope : ℕ) : Prop :=
  ∃ flag, c.queryCancellation scope = .ok flag ∧ c.flagged flag = false

theorem Frame.running (h : Frame c c') {scope : ℕ} :
    c'.Running scope ↔ c.Running scope := by
  simp only [Running, h.cancellation, flagged, h.flags]

/-! ## Recording -/

/-- Changes of an active query which keep its id and its flag. -/
theorem activeQuery_frame {query query' : ActiveQuery}
    (hactive : c.activeQuery = some query)
    (hid : query'.queryId = query.queryId)
    (hflag : query'.cancelled = query.cancelled) :
    Frame c { c with activeQuery := some query' } where
  slots := rfl
  entries := rfl
  flags := rfl
  inflight := rfl
  cancellation := by
    intro scope
    simp only [queryCancellation, activeFor, hactive, Option.filter_some, hid]
    split <;> simp_all

theorem activeFor_some {scope : ℕ} {query : ActiveQuery}
    (h : c.activeFor scope = some query) :
    c.activeQuery = some query ∧ query.queryId = scope := by
  simpa [activeFor, Option.filter_eq_some_iff] using h

theorem count_frame (c : ConnectionRuntime) (scope : ℕ)
    (f : QueryCounts → QueryCounts) : Frame c (c.count scope f) := by
  unfold count
  split
  · exact Frame.refl c
  · rename_i query hquery
    exact activeQuery_frame (activeFor_some hquery).1 rfl rfl

theorem recordProfileContext_frame (c : ConnectionRuntime) (scope : ℕ)
    (provider requestedModel : String) (detailedTiming : Bool) :
    Frame c (c.recordProfileContext scope provider requestedModel
      detailedTiming) := by
  unfold recordProfileContext
  split
  · exact Frame.refl c
  · rename_i query hquery
    exact activeQuery_frame (activeFor_some hquery).1 rfl rfl

theorem recordProviderResponse_frame (c : ConnectionRuntime) (scope : ℕ)
    (metadata : ProviderMetadata) (elapsed : ℕ) (external : Bool) :
    Frame c (c.recordProviderResponse scope metadata elapsed external) := by
  unfold recordProviderResponse
  split
  · exact Frame.refl c
  · exact count_frame c scope _

theorem recordProviderFailure_frame (c : ConnectionRuntime)
    (scope elapsed : ℕ) (external : Bool) :
    Frame c (c.recordProviderFailure scope elapsed external) := by
  unfold recordProviderFailure
  split
  · exact Frame.refl c
  · exact count_frame c scope _

/-! ## Caching -/

theorem cache_frame (c : ConnectionRuntime) (cache : JudgmentCache) :
    Frame c { c with cache := cache } :=
  ⟨rfl, rfl, rfl, rfl, fun _ => rfl⟩

theorem cacheLookup_frame (c : ConnectionRuntime)
    (identity : Option JudgmentIdentity) (now : ℕ) (policy : CachePolicy) :
    Frame c (c.cacheLookup identity now policy).2 := by
  unfold cacheLookup
  split
  · exact cache_frame c _
  · split
    · exact cache_frame c _
    · exact cache_frame c _

theorem cacheInsert_frame (c : ConnectionRuntime)
    (identity : JudgmentIdentity) (result : JudgmentResult) (now : ℕ)
    (policy : CachePolicy) :
    Frame c (c.cacheInsert identity result now policy).2 :=
  cache_frame c _

/-! ## Entries -/

/-- What a claim can do: be refused, find an entry, or make one. -/
theorem claimQueryEntry_cases {scope : ℕ} {identity : JudgmentIdentity}
    {r : Except JudgmentError (ℕ × Bool)}
    (h : c.claimQueryEntry scope identity = (r, c')) :
    (∃ error, r = .error error ∧ c' = c ∧ ¬ c.Running scope) ∨
      (∃ entry, r = .ok (entry, false) ∧ c.Running scope ∧
        c.queryEntries.lookup identity = some entry ∧ Frame c c') ∨
      (r = .ok (c.slots.length, true) ∧ c.Running scope ∧
        c.queryEntries.lookup identity = none ∧
        Frame (c.addEntry identity) c') := by
  unfold claimQueryEntry at h
  have hrunning : c.Running scope ↔ ∃ query, c.activeFor scope = some query ∧
      c.flagged query.cancelled = false := by
    unfold Running queryCancellation
    cases c.activeFor scope <;> simp
  split at h
  · rename_i hactive
    obtain ⟨rfl, rfl⟩ := Prod.mk.inj h
    exact Or.inl ⟨_, rfl, rfl, by simp [hrunning, hactive]⟩
  rename_i query hactive
  split at h
  · rename_i hcancelled
    obtain ⟨rfl, rfl⟩ := Prod.mk.inj h
    exact Or.inl ⟨_, rfl, rfl, by simp [hrunning, hactive, hcancelled]⟩
  rename_i hcancelled
  have hopen : c.Running scope :=
    hrunning.mpr ⟨query, hactive, by simpa using hcancelled⟩
  split at h
  · rename_i entry hentry
    obtain ⟨rfl, rfl⟩ := Prod.mk.inj h
    exact Or.inr (Or.inl ⟨entry, rfl, hopen, hentry, count_frame c scope _⟩)
  · rename_i hnone
    obtain ⟨rfl, rfl⟩ := Prod.mk.inj h
    have hframe := count_frame c scope fun counts =>
      { counts with uniqueJudgments := satAdd counts.uniqueJudgments 1 }
    refine Or.inr (Or.inr ⟨by rw [hframe.slots], hopen, hnone, ?_⟩)
    exact
      { slots := by simp [addEntry, hframe.slots]
        entries := by simp [addEntry, hframe.slots, hframe.entries]
        flags := hframe.flags
        inflight := hframe.inflight
        cancellation := hframe.cancellation }

theorem addEntry_slot (c : ConnectionRuntime) (identity : JudgmentIdentity)
    (entry : ℕ) : (c.addEntry identity).slot entry = c.slot entry := by
  simp only [slot, addEntry, List.getD_eq_getElem?_getD]
  by_cases hlt : entry < c.slots.length
  · rw [List.getElem?_append_left hlt]
  · rw [List.getElem?_append_right (Nat.le_of_not_lt hlt),
      List.getElem?_eq_none (Nat.le_of_not_lt hlt)]
    cases hk : entry - c.slots.length <;> simp

theorem complete_slot_of_ne (c : ConnectionRuntime) {entry other : ℕ}
    (outcome : Outcome) (hne : other ≠ entry) :
    (c.complete entry outcome).slot other = c.slot other := by
  unfold complete
  split
  · rfl
  · simp [slot, List.getElem?_set_ne hne.symm]

/-- What is in a slot stays there. -/
theorem complete_slot_stays (c : ConnectionRuntime) {entry other : ℕ}
    {outcome present : Outcome} (hslot : c.slot other = some present) :
    (c.complete entry outcome).slot other = some present := by
  by_cases hne : other = entry
  · subst hne
    simp only [complete, hslot]
  · rwa [complete_slot_of_ne c outcome hne]

/-- A completion fills its own slot, unless something is there. -/
theorem complete_slot (c : ConnectionRuntime) {entry : ℕ} (outcome : Outcome)
    (hlt : entry < c.slots.length) (other : ℕ) :
    (c.complete entry outcome).slot other =
      if other = entry then (c.slot entry).or (some outcome)
      else c.slot other := by
  split
  · rename_i hother
    subst hother
    cases hslot : c.slot other with
    | some present => exact complete_slot_stays c hslot
    | none =>
        simp only [complete, hslot, Option.none_or]
        simp [slot, hlt]
  · rename_i hne
    exact complete_slot_of_ne c outcome hne

theorem complete_length (c : ConnectionRuntime) (entry : ℕ)
    (outcome : Outcome) :
    (c.complete entry outcome).slots.length = c.slots.length := by
  unfold complete
  split
  · rfl
  · simp

/-- A completion touches nothing but slots. -/
theorem complete_frame (c : ConnectionRuntime) (entry : ℕ)
    (outcome : Outcome) :
    (c.complete entry outcome).queryEntries = c.queryEntries ∧
      (c.complete entry outcome).flags = c.flags ∧
      (c.complete entry outcome).inflight = c.inflight ∧
      (c.complete entry outcome).cache = c.cache ∧
      ∀ scope, (c.complete entry outcome).queryCancellation scope =
        c.queryCancellation scope := by
  unfold complete
  split
  · exact ⟨rfl, rfl, rfl, rfl, fun _ => rfl⟩
  · exact ⟨rfl, rfl, rfl, rfl, fun _ => rfl⟩

/-! ## Permits -/

/-- What taking a permit can do: fail, or count one more. -/
theorem acquirePermit_cases {maxInflight flag : ℕ}
    {r : Except JudgmentError Unit}
    (h : c.acquirePermit maxInflight flag = some (r, c')) :
    (∃ error, r = .error error ∧ c' = c ∧
        (maxInflight = 0 ∨ c.flagged flag = true)) ∨
      (r = .ok () ∧ c' =
        { c with
          inflight :=
            { active := c.inflight.active + 1
              peak := max c.inflight.peak (c.inflight.active + 1) } }) := by
  unfold acquirePermit at h
  split at h
  · rename_i hzero
    obtain ⟨rfl, rfl⟩ := Prod.mk.inj (Option.some.inj h)
    exact Or.inl ⟨_, rfl, rfl, Or.inl hzero⟩
  split at h
  · rename_i hflag
    obtain ⟨rfl, rfl⟩ := Prod.mk.inj (Option.some.inj h)
    exact Or.inl ⟨_, rfl, rfl, Or.inr hflag⟩
  split at h
  · obtain ⟨rfl, rfl⟩ := Prod.mk.inj (Option.some.inj h)
    exact Or.inr ⟨rfl, rfl⟩
  · cases h

end ConnectionRuntime

open ConnectionRuntime

/-! ## One step of the executor -/

/-- The operations which do more than record and cache. -/
def Op.Touches : Op → Prop
  | .claimQueryEntry _ _ => True
  | .complete _ _ => True
  | .acquirePermit _ _ => True
  | .dropPermit => True
  | _ => False

/-- All other operations keep the frame. -/
theorem step_frame {c c' : ConnectionRuntime} {op : Op} {r : Res op}
    (hop : ¬ op.Touches) (h : step c op r c') : Frame c c' := by
  cases op with
  | claimQueryEntry scope identity => exact absurd trivial hop
  | complete entry outcome => exact absurd trivial hop
  | acquirePermit maxInflight flag => exact absurd trivial hop
  | dropPermit => exact absurd trivial hop
  | queryCancellation scope => exact h.2 ▸ Frame.refl c
  | recordCacheHit scope => exact h ▸ count_frame c scope _
  | recordProviderAttempt scope requests external =>
      exact h ▸ count_frame c scope _
  | recordFailedRequest scope => exact h ▸ count_frame c scope _
  | recordProviderResponse scope metadata elapsed external =>
      exact h ▸ recordProviderResponse_frame c scope metadata elapsed external
  | recordProviderFailure scope elapsed external =>
      exact h ▸ recordProviderFailure_frame c scope elapsed external
  | cacheLookup identity now policy =>
      have hframe := cacheLookup_frame c identity now policy
      rwa [show (c.cacheLookup identity now policy).2 = c' from
        congrArg Prod.snd h] at hframe
  | cacheInsert identity result now policy =>
      have hframe := cacheInsert_frame c identity result now policy
      rwa [show (c.cacheInsert identity result now policy).2 = c' from
        congrArg Prod.snd h] at hframe
  | wait entry flag => exact h.2 ▸ Frame.refl c
  | judge method carried requests => exact h ▸ Frame.refl c
  | instantNow => exact h ▸ Frame.refl c

/-- No step of the executor touches a query or its flag. -/
theorem step_query {c c' : ConnectionRuntime} {op : Op} {r : Res op}
    (h : step c op r c') : c'.flags = c.flags ∧
      ∀ scope, c'.queryCancellation scope = c.queryCancellation scope := by
  by_cases hop : op.Touches
  · cases op with
    | claimQueryEntry claimScope identity =>
        rcases claimQueryEntry_cases h with ⟨error, -, rfl, -⟩ |
          ⟨entry, -, -, -, hframe⟩ | ⟨-, -, -, hframe⟩
        · exact ⟨rfl, fun _ => rfl⟩
        · exact ⟨hframe.flags, hframe.cancellation⟩
        · exact ⟨hframe.flags, hframe.cancellation⟩
    | complete entry outcome =>
        obtain rfl : c' = _ := h
        obtain ⟨-, hflags, -, -, hcancellation⟩ :=
          c.complete_frame entry outcome
        exact ⟨hflags, hcancellation⟩
    | acquirePermit maxInflight flag =>
        rcases acquirePermit_cases h with ⟨error, -, rfl, -⟩ | ⟨-, rfl⟩
        · exact ⟨rfl, fun _ => rfl⟩
        · exact ⟨rfl, fun _ => rfl⟩
    | dropPermit =>
        obtain rfl : c' = _ := h
        exact ⟨rfl, fun _ => rfl⟩
    | _ => exact hop.elim
  · exact ⟨(step_frame hop h).flags, (step_frame hop h).cancellation⟩

/-- No step of the executor starts or stops a query. -/
theorem step_running {c c' : ConnectionRuntime} {op : Op} {r : Res op}
    (h : step c op r c') (scope : ℕ) : c'.Running scope ↔ c.Running scope := by
  obtain ⟨hflags, hcancellation⟩ := step_query h
  simp only [Running, flagged, hflags, hcancellation]

/-- Only a claim makes entries. -/
theorem step_entries {c c' : ConnectionRuntime} {op : Op} {r : Res op}
    (h : step c op r c') (hop : ∀ scope identity,
      op ≠ .claimQueryEntry scope identity) :
    c'.queryEntries = c.queryEntries := by
  by_cases htouches : op.Touches
  · cases op with
    | claimQueryEntry scope identity => exact absurd rfl (hop scope identity)
    | complete entry outcome =>
        obtain rfl : c' = _ := h
        exact (c.complete_frame entry outcome).1
    | acquirePermit maxInflight flag =>
        rcases acquirePermit_cases h with ⟨error, -, rfl, -⟩ | ⟨-, rfl⟩
        · rfl
        · rfl
    | dropPermit =>
        obtain rfl : c' = _ := h
        rfl
    | _ => exact htouches.elim
  · exact (step_frame htouches h).entries

theorem count_cache (c : ConnectionRuntime) (scope : ℕ)
    (f : QueryCounts → QueryCounts) : (c.count scope f).cache = c.cache := by
  unfold count
  split
  · rfl
  · rfl

theorem claimQueryEntry_cache (c : ConnectionRuntime) (scope : ℕ)
    (identity : JudgmentIdentity) :
    (c.claimQueryEntry scope identity).2.cache = c.cache := by
  unfold ConnectionRuntime.claimQueryEntry
  split
  · rfl
  split
  · rfl
  split
  · exact count_cache c scope _
  · exact count_cache c scope _

/-- Only the cache operations touch the cache. -/
theorem step_cache {c c' : ConnectionRuntime} {op : Op} {r : Res op}
    (h : step c op r c')
    (hlookup : ∀ identity now policy, op ≠ .cacheLookup identity now policy)
    (hinsert : ∀ identity result now policy,
      op ≠ .cacheInsert identity result now policy) : c'.cache = c.cache := by
  cases op with
  | cacheLookup identity now policy => exact absurd rfl (hlookup _ _ _)
  | cacheInsert identity result now policy => exact absurd rfl (hinsert _ _ _ _)
  | claimQueryEntry scope identity =>
      have hcache := claimQueryEntry_cache c scope identity
      rwa [show (c.claimQueryEntry scope identity).2 = c' from
        congrArg Prod.snd h] at hcache
  | complete entry outcome =>
      obtain rfl : c' = _ := h
      exact (c.complete_frame entry outcome).2.2.2.1
  | acquirePermit maxInflight flag =>
      rcases acquirePermit_cases h with ⟨error, -, rfl, -⟩ | ⟨-, rfl⟩
      · rfl
      · rfl
  | queryCancellation scope => exact congrArg cache h.2
  | wait entry flag => exact congrArg cache h.2
  | recordProviderResponse scope metadata elapsed external =>
      obtain rfl : c' = _ := h
      unfold recordProviderResponse
      split
      · rfl
      · exact count_cache c scope _
  | recordProviderFailure scope elapsed external =>
      obtain rfl : c' = _ := h
      unfold recordProviderFailure
      split
      · rfl
      · exact count_cache c scope _
  | dropPermit =>
      obtain rfl : c' = _ := h
      rfl
  | judge method carried requests => exact congrArg cache h
  | instantNow => exact congrArg cache h
  | _ =>
      obtain rfl : c' = _ := h
      exact count_cache c _ _

/-- What is in a slot stays there. -/
theorem step_slot {c c' : ConnectionRuntime} {op : Op} {r : Res op}
    (h : step c op r c') {entry : ℕ} {outcome : Outcome}
    (hslot : c.slot entry = some outcome) : c'.slot entry = some outcome := by
  by_cases htouches : op.Touches
  · cases op with
    | claimQueryEntry scope identity =>
        rcases claimQueryEntry_cases h with ⟨error, -, rfl, -⟩ |
          ⟨entry, -, -, -, hframe⟩ | ⟨-, -, -, hframe⟩
        · exact hslot
        · rwa [hframe.slot]
        · rwa [hframe.slot, addEntry_slot]
    | complete other later =>
        obtain rfl : c' = _ := h
        exact complete_slot_stays c hslot
    | acquirePermit maxInflight flag =>
        rcases acquirePermit_cases h with ⟨error, -, rfl, -⟩ | ⟨-, rfl⟩
        · exact hslot
        · exact hslot
    | dropPermit =>
        obtain rfl : c' = _ := h
        exact hslot
    | _ => exact htouches.elim
  · rwa [(step_frame htouches h).slot]

/-! ## Steps of the host -/

/-- What the host may do in the middle of a query: other functions record on
the connection, ask for the scope of a credential, or clear the cache. -/
inductive QuietStep : ConnectionRuntime → ConnectionRuntime → Prop where
  | profileContext (c : ConnectionRuntime) (scope : ℕ)
      (provider requestedModel : String) (detailedTiming : Bool) :
      QuietStep c
        (c.recordProfileContext scope provider requestedModel detailedTiming)
  | optimizedRows (c : ConnectionRuntime)
      (scope inputRows nullRows validRows uniqueJudgments : ℕ) :
      QuietStep c
        (c.recordOptimizedRows scope inputRows nullRows validRows
          uniqueJudgments)
  | rowInput (c : ConnectionRuntime) (scope : ℕ) :
      QuietStep c (c.recordRowInput scope)
  | rowResult (c : ConnectionRuntime) (scope : ℕ) (isNull : Bool) :
      QuietStep c (c.recordRowResult scope isNull)
  | credentialScope (c : ConnectionRuntime) (hash : String → UInt64)
      (next scope : ℕ) (credential : Option String) :
      QuietStep c (c.credentialScopeFor hash next scope credential).2.1
  | clearCache (c : ConnectionRuntime) :
      QuietStep c { c with cache := c.cache.clear.2 }

theorem QuietStep.frame {c c' : ConnectionRuntime} (h : QuietStep c c') :
    Frame c c' := by
  cases h with
  | profileContext => exact recordProfileContext_frame c _ _ _ _
  | optimizedRows => exact count_frame c _ _
  | rowInput => exact count_frame c _ _
  | rowResult => exact count_frame c _ _
  | credentialScope hash next scope credential =>
      unfold credentialScopeFor
      split
      · exact Frame.refl c
      · dsimp only
        split
        · exact ⟨rfl, rfl, rfl, rfl, fun _ => rfl⟩
        · exact Frame.refl c
  | clearCache => exact cache_frame c _

/-- What the host may do while it still runs workers of one query. -/
inductive QueryStep : ConnectionRuntime → ConnectionRuntime → Prop where
  | quiet {c c' : ConnectionRuntime} (h : QuietStep c c') : QueryStep c c'
  | endQuery (c : ConnectionRuntime) (now interrupt errorType : ℕ) :
      QueryStep c (c.endQuery now interrupt errorType)

/-- What the host may do at all. -/
inductive HostStep : ConnectionRuntime → ConnectionRuntime → Prop where
  | query {c c' : ConnectionRuntime} (h : QueryStep c c') : HostStep c c'
  | beginQuery (c : ConnectionRuntime) (now : ℕ) :
      HostStep c (c.beginQuery now)

theorem endQuery_slots (c : ConnectionRuntime)
    (now interrupt errorType : ℕ) :
    (c.endQuery now interrupt errorType).slots = c.slots ∧
      (c.endQuery now interrupt errorType).inflight = c.inflight ∧
      (c.endQuery now interrupt errorType).cache = c.cache := by
  unfold endQuery
  split
  · exact ⟨rfl, rfl, rfl⟩
  · exact ⟨rfl, rfl, rfl⟩

/-- After its end no query is active. -/
theorem endQuery_not_running (c : ConnectionRuntime)
    (now interrupt errorType scope : ℕ) :
    ¬ (c.endQuery now interrupt errorType).Running scope := by
  unfold endQuery
  split
  · rename_i hnone
    simp [Running, ConnectionRuntime.queryCancellation, activeFor, hnone]
  · simp [Running, ConnectionRuntime.queryCancellation, activeFor]

theorem QueryStep.slots {c c' : ConnectionRuntime} (h : QueryStep c c') :
    c'.slots = c.slots ∧ c'.inflight = c.inflight := by
  cases h with
  | quiet h => exact ⟨h.frame.slots, h.frame.inflight⟩
  | endQuery =>
      exact ⟨(endQuery_slots c _ _ _).1, (endQuery_slots c _ _ _).2.1⟩

/-- A query runs from its start on. -/
theorem beginQuery_running (c : ConnectionRuntime) (now : ℕ) :
    (c.beginQuery now).Running c.nextQueryId := by
  have hcancel : c.cancelActive.nextQueryId = c.nextQueryId := by
    unfold cancelActive
    split
    · rfl
    · rfl
  refine ⟨c.cancelActive.flags.length, ?_, ?_⟩
  · simp [ConnectionRuntime.queryCancellation, activeFor, beginQuery, hcancel,
      Option.filter_some]
  · simp [flagged, beginQuery]

/-- The host touches neither slots nor permits. -/
theorem HostStep.slots {c c' : ConnectionRuntime} (h : HostStep c c') :
    c'.slots = c.slots ∧ c'.inflight = c.inflight := by
  cases h with
  | query h => exact h.slots
  | beginQuery now =>
      change c.cancelActive.slots = c.slots ∧
        c.cancelActive.inflight = c.inflight
      unfold cancelActive
      split
      · exact ⟨rfl, rfl⟩
      · exact ⟨rfl, rfl⟩

end DuckJeu
