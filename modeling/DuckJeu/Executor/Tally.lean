import DuckJeu.Executor.Alone

/-!
# The counters of a query

Each operation adds to the counters of the query in whose name it is performed
and leaves those of any other query alone.  What a run has added can therefore
be read off its history.

The last section executes programs of the executor symbolically.
-/

namespace DuckJeu

open Effects ConnectionRuntime

/-- The query on which an operation reports. -/
def Op.reportsOn : Op → Option ℕ
  | .claimQueryEntry scope _ => some scope
  | .recordCacheHit scope => some scope
  | .recordProviderAttempt scope _ _ => some scope
  | .recordFailedRequest scope => some scope
  | .recordProviderResponse scope _ _ _ => some scope
  | .recordProviderFailure scope _ _ => some scope
  | _ => none

/-- What an event adds to the counters of its query. -/
def ExecEvent.tally (detailedTiming : Bool) (counts : QueryCounts) :
    ExecEvent → QueryCounts
  | ⟨.claimQueryEntry _ _, .ok (_, true)⟩ =>
      { counts with uniqueJudgments := satAdd counts.uniqueJudgments 1 }
  | ⟨.claimQueryEntry _ _, .ok (_, false)⟩ =>
      { counts with deduplicatedRows := satAdd counts.deduplicatedRows 1 }
  | ⟨.recordCacheHit _, _⟩ =>
      { counts with cacheHitJudgments := satAdd counts.cacheHitJudgments 1 }
  | ⟨.recordProviderAttempt _ requests external, _⟩ =>
      counts.attempt requests.length external
  | ⟨.recordFailedRequest _, _⟩ =>
      { counts with failedRequests := satAdd counts.failedRequests 1 }
  | ⟨.recordProviderResponse _ metadata elapsed external, _⟩ =>
      counts.response detailedTiming metadata elapsed external
  | ⟨.recordProviderFailure _ elapsed external, _⟩ =>
      counts.failure detailedTiming elapsed external
  | _ => counts

/-- The counters of a query after one event. -/
def ExecEvent.count (detailedTiming : Bool) (scope : ℕ) (event : ExecEvent)
    (counts : QueryCounts) : QueryCounts :=
  if event.1.reportsOn = some scope then
    ExecEvent.tally detailedTiming counts event
  else counts

/-- The counters of a query after a history. -/
def counted (detailedTiming : Bool) (scope : ℕ) (h : History)
    (counts : QueryCounts) : QueryCounts :=
  h.foldr (ExecEvent.count detailedTiming scope) counts

/-! ## One operation -/

theorem count_of_none {c : ConnectionRuntime} {scope : ℕ}
    (h : c.activeFor scope = none) (f : QueryCounts → QueryCounts) :
    c.count scope f = c := by
  simp only [count, h]

theorem count_of_some {c : ConnectionRuntime} {scope : ℕ} {query : ActiveQuery}
    (h : c.activeFor scope = some query) (f : QueryCounts → QueryCounts) :
    c.count scope f =
      { c with
        activeQuery := some { query with counts := f query.counts } } := by
  simp only [count, h]

theorem count_activeFor (c : ConnectionRuntime) (reported scope : ℕ)
    (f : QueryCounts → QueryCounts) :
    (c.count reported f).activeFor scope =
      (c.activeFor scope).map fun query =>
        { query with
          counts := if some reported = some scope then f query.counts
            else query.counts } := by
  cases hreported : c.activeFor reported with
  | none =>
      rw [count_of_none hreported]
      cases hscope : c.activeFor scope with
      | none => rfl
      | some query =>
          have hne : reported ≠ scope := by
            rintro rfl
            rw [hreported] at hscope
            cases hscope
          simp [hne]
  | some query =>
      obtain ⟨hactive, rfl⟩ := activeFor_some hreported
      rw [count_of_some hreported]
      by_cases hscope : query.queryId = scope
      · simp [activeFor, hactive, Option.filter_some, hscope]
      · simp [activeFor, hactive, Option.filter_some, hscope]

/-- What a response or a failure adds depends on the timing of the query. -/
theorem count_timed (c : ConnectionRuntime) (reported scope : ℕ)
    (f : Bool → QueryCounts → QueryCounts) :
    (match c.activeFor reported with
      | none => c
      | some query => c.count reported (f query.detailedTiming)).activeFor
        scope =
      (c.activeFor scope).map fun query =>
        { query with
          counts := if some reported = some scope then
              f query.detailedTiming query.counts
            else query.counts } := by
  cases hreported : c.activeFor reported with
  | none =>
      have h := count_activeFor c reported scope (f true)
      rw [count_of_none hreported] at h
      cases hscope : c.activeFor scope with
      | none => rfl
      | some query =>
          have hne : reported ≠ scope := by
            rintro rfl
            rw [hreported] at hscope
            cases hscope
          simp [hne]
  | some query =>
      dsimp only
      rw [count_activeFor]
      obtain ⟨hactive, rfl⟩ := activeFor_some hreported
      by_cases hscope : query.queryId = scope
      · simp [activeFor, hactive, Option.filter_some, hscope]
      · simp [activeFor, hactive, Option.filter_some, hscope]

/-- In a query which has just begun nothing has been counted. -/
theorem beginQuery_activeFor (c : ConnectionRuntime) (now : ℕ) :
    ∃ query, (c.beginQuery now).activeFor c.nextQueryId = some query ∧
      query.counts = {} := by
  have hid : c.cancelActive.nextQueryId = c.nextQueryId := by
    unfold ConnectionRuntime.cancelActive
    split
    · rfl
    · rfl
  refine ⟨{ queryId := c.nextQueryId
            startedAt := now
            cancelled := c.cancelActive.flags.length }, ?_, rfl⟩
  simp [activeFor, ConnectionRuntime.beginQuery, hid]

theorem complete_activeQuery (c : ConnectionRuntime) (entry : ℕ)
    (outcome : Outcome) :
    (c.complete entry outcome).activeQuery = c.activeQuery := by
  unfold complete
  split
  · rfl
  · rfl

theorem cacheLookup_activeQuery (c : ConnectionRuntime)
    (key : Option JudgmentIdentity) (now : ℕ) (policy : CachePolicy) :
    (c.cacheLookup key now policy).2.activeQuery = c.activeQuery := by
  unfold cacheLookup
  split
  · rfl
  split
  · rfl
  · rfl

theorem claimQueryEntry_activeFor {c c' : ConnectionRuntime}
    {claimed : ℕ} {identity : JudgmentIdentity}
    {r : Except JudgmentError (ℕ × Bool)}
    (h : c.claimQueryEntry claimed identity = (r, c')) (scope : ℕ) :
    c'.activeFor scope = (c.activeFor scope).map fun query =>
      { query with
        counts := ExecEvent.count query.detailedTiming scope
          ⟨.claimQueryEntry claimed identity, r⟩ query.counts } := by
  have hrefused : ∀ error, (c.activeFor scope).map (fun query =>
      { query with
        counts := ExecEvent.count query.detailedTiming scope
          ⟨.claimQueryEntry claimed identity, .error error⟩ query.counts }) =
      c.activeFor scope := by
    intro error
    simp [ExecEvent.count, ExecEvent.tally]
  unfold ConnectionRuntime.claimQueryEntry at h
  split at h
  · obtain ⟨rfl, rfl⟩ := Prod.mk.inj h
    exact (hrefused _).symm
  split at h
  · obtain ⟨rfl, rfl⟩ := Prod.mk.inj h
    exact (hrefused _).symm
  split at h
  · obtain ⟨rfl, rfl⟩ := Prod.mk.inj h
    exact count_activeFor c claimed scope _
  · obtain ⟨rfl, rfl⟩ := Prod.mk.inj h
    exact count_activeFor c claimed scope _

/-- An operation changes the counters of the query it reports on, and nothing
else about a query. -/
theorem step_activeFor {c c' : ConnectionRuntime} {op : Op} {r : Res op}
    (h : step c op r c') (scope : ℕ) :
    c'.activeFor scope = (c.activeFor scope).map fun query =>
      { query with
        counts := ExecEvent.count query.detailedTiming scope ⟨op, r⟩
          query.counts } := by
  have hquiet : ∀ {c' : ConnectionRuntime}, c'.activeFor scope =
      c.activeFor scope → op.reportsOn ≠ some scope →
      c'.activeFor scope = (c.activeFor scope).map fun query =>
        { query with
          counts := ExecEvent.count query.detailedTiming scope ⟨op, r⟩
            query.counts } := by
    intro c' hsame hother
    simp [hsame, ExecEvent.count, hother]
  cases op with
  | claimQueryEntry claimed identity =>
      exact claimQueryEntry_activeFor h scope
  | recordCacheHit reported =>
      obtain rfl : c' = _ := h
      exact count_activeFor c reported scope _
  | recordProviderAttempt reported requests external =>
      obtain rfl : c' = _ := h
      exact count_activeFor c reported scope _
  | recordFailedRequest reported =>
      obtain rfl : c' = _ := h
      exact count_activeFor c reported scope _
  | recordProviderResponse reported metadata elapsed external =>
      obtain rfl : c' = _ := h
      exact count_timed c reported scope fun detailedTiming counts =>
        counts.response detailedTiming metadata elapsed external
  | recordProviderFailure reported elapsed external =>
      obtain rfl : c' = _ := h
      exact count_timed c reported scope fun detailedTiming counts =>
        counts.failure detailedTiming elapsed external
  | queryCancellation reported =>
      exact hquiet (by rw [h.2]) (by simp [Op.reportsOn])
  | cacheLookup key now policy =>
      refine hquiet ?_ (by simp [Op.reportsOn])
      have hc : (c.cacheLookup key now policy).2 = c' := congrArg Prod.snd h
      rw [← hc, activeFor, activeFor, cacheLookup_activeQuery]
  | cacheInsert key result now policy =>
      obtain rfl : (c.cacheInsert key result now policy).2 = c' :=
        congrArg Prod.snd h
      exact hquiet rfl (by simp [Op.reportsOn])
  | acquirePermit maxInflight flag =>
      refine hquiet ?_ (by simp [Op.reportsOn])
      rcases acquirePermit_cases h with ⟨_, -, rfl, -⟩ | ⟨-, rfl⟩
      · rfl
      · rfl
  | dropPermit =>
      obtain rfl : c' = _ := h
      exact hquiet rfl (by simp [Op.reportsOn])
  | complete entry outcome =>
      obtain rfl : c' = _ := h
      refine hquiet ?_ (by simp [Op.reportsOn])
      rw [activeFor, activeFor, complete_activeQuery]
  | wait entry flag => exact hquiet (by rw [h.2]) (by simp [Op.reportsOn])
  | judge method carried requests =>
      obtain rfl : c' = _ := h
      exact hquiet rfl (by simp [Op.reportsOn])
  | instantNow =>
      obtain rfl : c' = _ := h
      exact hquiet rfl (by simp [Op.reportsOn])

/-- A run alone has added to the counters what its history says. -/
theorem Environment.run_activeFor {α : Type} (env : Environment) {p : Run α}
    {c : ConnectionRuntime} {a : α} {s : Alone} {h : History}
    (hrun : env.run p c = some (a, s, h)) (scope : ℕ) :
    s.1.activeFor scope = (c.activeFor scope).map fun query =>
      { query with
        counts := counted query.detailedTiming scope h query.counts } := by
  have hstart : c.activeFor scope = (c.activeFor scope).map fun query =>
      { query with
        counts := counted query.detailedTiming scope [] query.counts } := by
    simp [counted]
  have hend := Prog.run_invariant (I := fun s h =>
    s.1.activeFor scope = (c.activeFor scope).map fun query =>
      { query with
        counts := counted query.detailedTiming scope h query.counts })
    ?_ hrun hstart
  · rwa [List.append_nil] at hend
  · intro s older op r s' hinv hhandle
    rw [step_activeFor (env.handle_step s op r s' hhandle) scope, hinv,
      Option.map_map]
    rfl

/-! ## Programs which may raise errors -/

namespace Environment

variable {α β : Type} (env : Environment)

/-- Run a program of the executor alone. -/
def exec (x : Exec α) (s : Alone) :
    Option (Except JudgmentError α × Alone × History) :=
  Prog.run env.handle x.run s

theorem exec_pure (a : α) (s : Alone) :
    env.exec (pure a) s = some (.ok a, s, []) := rfl

theorem exec_throw (error : JudgmentError) (s : Alone) :
    env.exec (throw error : Exec α) s = some (.error error, s, []) := rfl

theorem exec_mk (p : Run (Except JudgmentError α)) (s : Alone) :
    env.exec (ExceptT.mk p) s = Prog.run env.handle p s := rfl

theorem exec_lift (p : Run α) (s : Alone) :
    env.exec (ExceptT.lift p) s =
      (Prog.run env.handle p s).map fun next => (.ok next.1, next.2) := by
  have hlift : env.exec (ExceptT.lift p) s =
      Prog.run env.handle (p >>= fun a => .ret (Except.ok a)) s := rfl
  rw [hlift, Prog.run_bind]
  cases Prog.run env.handle p s with
  | none => rfl
  | some next => rfl

theorem exec_bind (x : Exec α) (f : α → Exec β) (s : Alone) :
    env.exec (x >>= f) s = (env.exec x s).bind fun first =>
      match first.1 with
      | .error error => some (.error error, first.2)
      | .ok a => (env.exec (f a) first.2.1).map fun next =>
          (next.1, next.2.1, next.2.2 ++ first.2.2) := by
  change Prog.run env.handle (x.run >>= fun outcome => _) s = _
  rw [Prog.run_bind]
  unfold exec
  cases Prog.run env.handle x.run s with
  | none => rfl
  | some first =>
      obtain ⟨outcome, s', h⟩ := first
      cases outcome with
      | error error => rfl
      | ok a => rfl

end Environment

end DuckJeu
