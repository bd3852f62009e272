import DuckJeu.Executor.Completion

/-!
# Where cached results come from

Over all queries of a connection, whatever is in the cache was stored by some
worker right after a response which was accepted.  So a hit is an answer to
the same judgment.  It need not be an answer in the same context: the key does
not say whether the request carried other judgments as well.
-/

namespace DuckJeu

open Effects ConnectionRuntime

variable {ι : Type} [DecidableEq ι]

/-! ## The last insertion under a key -/

/-- What an event has stored in the cache. -/
def ExecEvent.stored? : ExecEvent → Option (JudgmentIdentity × JudgmentResult)
  | ⟨.cacheInsert key result _ _, true⟩ => some (key, result)
  | _ => none

/-- After the log `older`, the worker stored the result under the key, and
nobody has stored anything there since. -/
def LastStored (log : WorkerLog ι) (key : JudgmentIdentity) (i : ι)
    (older : WorkerLog ι) (result : JudgmentResult) : Prop :=
  ∃ newer now policy,
    log = newer ++ (i, ⟨.cacheInsert key result now policy, true⟩) :: older ∧
      ∀ entry ∈ newer, ∀ later, ExecEvent.stored? entry.2 ≠ some (key, later)

omit [DecidableEq ι] in
theorem LastStored.cons {log older : WorkerLog ι} {key : JudgmentIdentity}
    {i j : ι} {result : JudgmentResult} {event : ExecEvent}
    (h : LastStored log key i older result)
    (hevent : ∀ later, ExecEvent.stored? event ≠ some (key, later)) :
    LastStored ((j, event) :: log) key i older result := by
  obtain ⟨newer, now, policy, rfl, hnewer⟩ := h
  refine ⟨(j, event) :: newer, now, policy, rfl, ?_⟩
  intro entry hentry
  rcases List.mem_cons.mp hentry with rfl | hentry
  · exact hevent
  · exact hnewer entry hentry

omit [DecidableEq ι] in
theorem LastStored.suffix {log older : WorkerLog ι} {key : JudgmentIdentity}
    {i : ι} {result : JudgmentResult}
    (h : LastStored log key i older result) : older <:+ log := by
  obtain ⟨newer, now, policy, rfl, -⟩ := h
  exact (List.suffix_cons _ _).trans (List.suffix_append _ _)

/-- Every entry of the cache is what was stored last under its key, and its
worker had a response which allowed that. -/
def Justified (calls : ι → Call) (c : ConnectionRuntime)
    (log : WorkerLog ι) : Prop :=
  ∀ key entry, c.cache.entries.lookup key = some entry →
    ∃ i older, LastStored log key i older entry.result ∧
      (calls i).Validated (older.of i) key entry.result

/-- What was served, was in the cache and is justified. -/
def ServesJustified (calls : ι → Call) (log : WorkerLog ι) : Prop :=
  ∀ i key now policy result earlier,
    (i, ⟨.cacheLookup key now policy, some result⟩) :: earlier <:+ log →
      ∃ identity, key = some identity ∧ ∃ j older,
        LastStored earlier identity j older result ∧
          (calls j).Validated (older.of j) identity result

/-- Only accepted results were stored. -/
def StoresValidated (calls : ι → Call) (log : WorkerLog ι) : Prop :=
  ∀ i key result now policy earlier,
    (i, ⟨.cacheInsert key result now policy, true⟩) :: earlier <:+ log →
      (calls i).Validated (Log.of earlier i) key result

section Justified

variable {calls : ι → Call} {c c' : ConnectionRuntime} {log : WorkerLog ι}
  {i : ι}

/-- After a step, a result in the cache has just been stored, or was there
before and nothing has been stored under its key. -/
theorem step_entry {op : Op} {r : Res op} (hstep : step c op r c')
    {key : JudgmentIdentity} {entry : CacheEntry}
    (hentry : c'.cache.entries.lookup key = some entry) :
    ExecEvent.stored? ⟨op, r⟩ = some (key, entry.result) ∨
      (∀ later, ExecEvent.stored? ⟨op, r⟩ ≠ some (key, later)) ∧
        ∃ older, c.cache.entries.lookup key = some older ∧
          older.result = entry.result := by
  cases op with
  | cacheInsert inserted result now policy =>
      have hr : (c.cacheInsert inserted result now policy).1 = r :=
        congrArg Prod.fst hstep
      rw [← show (c.cacheInsert inserted result now policy).2 = c' from
        congrArg Prod.snd hstep] at hentry
      rcases c.cacheInsert_ages hentry with ⟨hstored, rfl, hresult⟩ |
        ⟨hother, older, holder, hages⟩
      · obtain rfl : r = true := hr.symm.trans hstored
        exact Or.inl (by rw [hresult]; rfl)
      · refine Or.inr ⟨?_, older, holder, hages.result_eq.symm⟩
        intro later hevent
        cases r with
        | false => cases hevent
        | true =>
            obtain ⟨rfl, -⟩ := Prod.mk.inj (Option.some.inj hevent)
            exact hother hr rfl
  | cacheLookup identity now policy =>
      rw [← show (c.cacheLookup identity now policy).2 = c' from
        congrArg Prod.snd hstep] at hentry
      obtain ⟨older, holder, hages⟩ := c.cacheLookup_ages hentry
      exact Or.inr ⟨by simp [ExecEvent.stored?], older, holder,
        hages.result_eq.symm⟩
  | _ =>
      rw [step_cache hstep (by simp) (by simp)] at hentry
      exact Or.inr ⟨by simp [ExecEvent.stored?], entry, hentry, rfl⟩

/-- What has been stored was inserted. -/
theorem ExecEvent.stored_eq {op : Op} {r : Res op} {key : JudgmentIdentity}
    {result : JudgmentResult}
    (h : ExecEvent.stored? ⟨op, r⟩ = some (key, result)) :
    ∃ now policy, (⟨op, r⟩ : ExecEvent) =
      ⟨.cacheInsert key result now policy, true⟩ := by
  unfold ExecEvent.stored? at h
  split at h
  · rename_i key' result' now policy heq
    obtain ⟨rfl, rfl⟩ := Prod.mk.inj (Option.some.inj h)
    exact ⟨now, policy, heq⟩
  · cases h

theorem Justified.step (hjustified : Justified calls c log) {op : Op}
    {r : Res op} (hallowed : (calls i).Allowed (log.of i) op)
    (hstep : step c op r c') : Justified calls c' ((i, ⟨op, r⟩) :: log) := by
  intro key entry hentry
  rcases step_entry hstep hentry with hnew | ⟨hevent, older, holder, hresult⟩
  · obtain ⟨now, policy, hinsert⟩ := ExecEvent.stored_eq hnew
    cases hinsert
    exact ⟨i, log, ⟨[], now, policy, rfl, by simp⟩, hallowed⟩
  · obtain ⟨j, earlier, hstored, hvalidated⟩ := hjustified key older holder
    rw [hresult] at hstored hvalidated
    exact ⟨j, earlier, hstored.cons hevent, hvalidated⟩

theorem ServesJustified.step (hserves : ServesJustified calls log)
    (hjustified : Justified calls c log) {op : Op} {r : Res op}
    (hstep : step c op r c') :
    ServesJustified calls ((i, ⟨op, r⟩) :: log) := by
  intro j key now policy result earlier hsuffix
  rcases List.suffix_cons_iff.mp hsuffix with hnow | hbefore
  · obtain ⟨hevent, rfl⟩ := List.cons.inj hnow
    obtain ⟨rfl, hevent⟩ := Prod.mk.inj hevent
    cases hevent
    obtain ⟨identity, entry, rfl, hentry, rfl, -⟩ :=
      c.cacheLookup_served (congrArg Prod.fst hstep)
    exact ⟨identity, rfl, hjustified identity entry hentry⟩
  · exact hserves j key now policy result earlier hbefore

theorem StoresValidated.step (hstores : StoresValidated calls log) {op : Op}
    (r : Res op) (hallowed : (calls i).Allowed (log.of i) op) :
    StoresValidated calls ((i, ⟨op, r⟩) :: log) := by
  intro j key result now policy earlier hsuffix
  rcases List.suffix_cons_iff.mp hsuffix with hnow | hbefore
  · obtain ⟨hevent, rfl⟩ := List.cons.inj hnow
    obtain ⟨rfl, hevent⟩ := Prod.mk.inj hevent
    cases hevent
    exact hallowed
  · exact hstores j key result now policy earlier hbefore

/-- The host only ever clears the cache. -/
theorem HostStep.cache (h : HostStep c c') {key : JudgmentIdentity}
    {entry : CacheEntry} (hentry : c'.cache.entries.lookup key = some entry) :
    c.cache.entries.lookup key = some entry := by
  cases h with
  | query h =>
      cases h with
      | endQuery now interrupt errorType =>
          rwa [(endQuery_slots c now interrupt errorType).2.2] at hentry
      | quiet h =>
          cases h with
          | profileContext scope provider requestedModel detailedTiming =>
              unfold recordProfileContext at hentry
              split at hentry
              · exact hentry
              · exact hentry
          | optimizedRows =>
              unfold recordOptimizedRows at hentry
              rwa [count_cache] at hentry
          | rowInput =>
              unfold recordRowInput at hentry
              rwa [count_cache] at hentry
          | rowResult =>
              unfold recordRowResult at hentry
              rwa [count_cache] at hentry
          | credentialScope hash next scope credential =>
              unfold credentialScopeFor at hentry
              split at hentry
              · exact hentry
              · dsimp only at hentry
                split at hentry
                · simp [JudgmentCache.clear] at hentry
                · exact hentry
          | clearCache => simp [JudgmentCache.clear] at hentry
  | beginQuery now =>
      change c.cancelActive.cache.entries.lookup key = some entry at hentry
      unfold cancelActive at hentry
      split at hentry
      · exact hentry
      · exact hentry

/-- Over all queries, the cache holds, stores and serves justified results
only. -/
theorem Workers.cache_justified (hempty : c.cache.entries = ∅)
    {p : Workers ι}
    (hreach : Workers.Reach HostStep (Workers.start c calls) p) :
    Justified calls p.shared p.log ∧ StoresValidated calls p.log ∧
      ServesJustified calls p.log := by
  have h : (Justified calls p.shared p.log ∧ StoresValidated calls p.log ∧
      ServesJustified calls p.log) ∧ Bookkept p.shared p.log ∧ ∀ i,
        Follows (calls i).protocol (p.thread i) (calls i).Post
          (p.log.of i) := by
    refine Workers.invariant (fun c log => Justified calls c log ∧
      StoresValidated calls log ∧ ServesJustified calls log) hreach
      (fun _ _ h => h.slots.1) ⟨?_, ?_, ?_⟩ ?_ ?_
    · intro key entry hentry
      simp [hempty] at hentry
    · intro i key result now policy earlier hsuffix
      simp at hsuffix
    · intro i key now policy result earlier hsuffix
      simp at hsuffix
    · rintro c₁ c₂ log i op r - ⟨hjustified, hstores, hserves⟩ hallowed hstep
      exact ⟨hjustified.step hallowed hstep, hstores.step r hallowed,
        hserves.step hjustified hstep⟩
    · rintro c₁ c₂ log ⟨hjustified, hstores, hserves⟩ hhost
      exact ⟨fun key entry hentry => hjustified key entry (hhost.cache hentry),
        hstores, hserves⟩
  exact h.1

theorem Workers.justified (hempty : c.cache.entries = ∅) {p : Workers ι}
    (hreach : Workers.Reach HostStep (Workers.start c calls) p) :
    StoresValidated calls p.log ∧ ServesJustified calls p.log :=
  (Workers.cache_justified hempty hreach).2

/-! ## The contents of the cache -/

/-- All results in the cache are so. -/
def CacheAll (P : JudgmentIdentity → JudgmentResult → Prop)
    (c : ConnectionRuntime) : Prop :=
  ∀ key entry, c.cache.entries.lookup key = some entry → P key entry.result

theorem CacheAll.of_empty {P : JudgmentIdentity → JudgmentResult → Prop}
    (hempty : c.cache.entries = ∅) : CacheAll P c := by
  intro key entry hentry
  simp [hempty] at hentry

/-- What holds of the cache at the start and of whatever is stored, holds of
the cache over all queries, and of whatever it serves. -/
theorem Workers.cache_all {P : JudgmentIdentity → JudgmentResult → Prop}
    (hstart : CacheAll P c) {p : Workers ι}
    (hreach : Workers.Reach HostStep (Workers.start c calls) p)
    (hstored : ∀ i key result now policy,
      (i, ⟨.cacheInsert key result now policy, true⟩) ∈ p.log →
        P key result) :
    CacheAll P p.shared ∧ ∀ i key now policy result,
      (i, ⟨.cacheLookup key now policy, some result⟩) ∈ p.log →
        ∃ identity, key = some identity ∧ P identity result := by
  refine Pool.Reachable.invariant hreach (fun q =>
    (∀ i key result now policy,
      (i, ⟨.cacheInsert key result now policy, true⟩) ∈ q.log →
        P key result) →
    CacheAll P q.shared ∧ ∀ i key now policy result,
      (i, ⟨.cacheLookup key now policy, some result⟩) ∈ q.log →
        ∃ identity, key = some identity ∧ P identity result) ?_ ?_ hstored
  · exact fun _ => ⟨hstart, by simp [Workers.start]⟩
  intro q q' ih hlast hlog
  cases hlast with
  | @thread j op k r s hnext hstep =>
      obtain ⟨hall, hserved⟩ := ih fun i key result now policy hmem =>
        hlog i key result now policy (List.mem_cons_of_mem _ hmem)
      refine ⟨?_, ?_⟩
      · intro key entry hentry
        rcases step_entry hstep hentry with hnew | ⟨-, older, holder, hresult⟩
        · obtain ⟨now, policy, hinsert⟩ := ExecEvent.stored_eq hnew
          refine hlog j key entry.result now policy ?_
          rw [← hinsert]
          exact List.mem_cons_self ..
        · rw [← hresult]
          exact hall key older holder
      · intro i key now policy result hmem
        rcases List.mem_cons.mp hmem with hnew | hmem
        · obtain ⟨-, hevent⟩ := Prod.mk.inj hnew
          cases hevent
          obtain ⟨identity, entry, hkey, hentry, hresult, -⟩ :=
            ConnectionRuntime.cacheLookup_served q.shared
              (congrArg Prod.fst hstep)
          refine ⟨identity, hkey, ?_⟩
          rw [← hresult]
          exact hall identity entry hentry
        · exact hserved i key now policy result hmem
  | host hhost =>
      obtain ⟨hall, hserved⟩ := ih hlog
      exact ⟨fun key entry hentry => hall key entry (hhost.cache hentry),
        hserved⟩

end Justified

/-! ## Hits answer the same judgment -/

/-- Two groups ask the same question about the same state, of the same model
at the same place, under one credential. -/
structure SameJudgment (a b : JudgmentGroup) : Prop where
  kind : a.request.kind = b.request.kind
  canonicalVersion :
    a.request.state.canonicalVersion = b.request.state.canonicalVersion
  stateKind : a.request.state.kind = b.request.state.kind
  canonical : a.request.state.canonical = b.request.state.canonical
  criterion : a.request.criterion = b.request.criterion
  question : a.request.question = b.request.question
  choices : a.request.choices = b.request.choices
  providerNamespace :
    a.identity.providerNamespace = b.identity.providerNamespace
  endpoint : a.identity.endpoint = b.identity.endpoint
  requestedModel : a.identity.requestedModel = b.identity.requestedModel
  credentialScope : a.identity.credentialScope = b.identity.credentialScope

/-- Groups with one cache key ask for the same judgment, if their identities
are those of their requests. -/
theorem sameJudgment_of_key {a b : JudgmentGroup}
    {provider provider' : Provider} {key : JudgmentIdentity}
    (ha : ∃ context, a.identity = .new a.request context)
    (hb : ∃ context, b.identity = .new b.request context)
    (hakey : cacheIdentityFor a provider = some key)
    (hbkey : cacheIdentityFor b provider' = some key) : SameJudgment a b := by
  obtain ⟨model, -, hakey⟩ := cacheIdentityFor_model hakey
  obtain ⟨model', -, hbkey⟩ := cacheIdentityFor_model hbkey
  obtain ⟨context, ha⟩ := ha
  obtain ⟨context', hb⟩ := hb
  have hkeys := hakey.symm.trans hbkey
  simp only [JudgmentIdentity.mk.injEq] at hkeys
  obtain ⟨hversion, hstate, hbytes, hkind, hcriterion, hquestion, hchoices,
    hnamespace, hendpoint, hmodel, -, hscope, -⟩ := hkeys
  simp only [ha, hb, JudgmentIdentity.new] at hversion hstate hbytes hkind
  simp only [ha, hb, JudgmentIdentity.new] at hcriterion hquestion hchoices
  exact ⟨hkind, hversion, hstate, hbytes, hcriterion, hquestion, hchoices,
    hnamespace, hendpoint, hmodel, hscope⟩

theorem Call.cacheKey_some {call : Call} {group : JudgmentGroup}
    {key : JudgmentIdentity} (h : call.cacheKey group = some key) :
    cacheIdentityFor group call.provider = some key := by
  unfold Call.cacheKey at h
  cases hpolicy : call.cachePolicy with
  | none => simp [hpolicy] at h
  | some policy => simpa [hpolicy] using h

/-- A validated result is valid for every request of the same judgment. -/
theorem Dispatch.Answers.validFor {d : Dispatch} {request : JudgmentRequest}
    {result : JudgmentResult} {model : Option String}
    (h : d.Answers request result model) {other : JudgmentRequest}
    (hkind : request.kind = other.kind)
    (hchoices : request.choices = other.choices) : ValidFor other result := by
  obtain ⟨response, requestKey, -, hvalid, hmem, hanswer, -⟩ := h
  obtain ⟨hkeys, -, -, -, hanswers⟩ := validateBatchResult_ok hvalid
  obtain ⟨request', hmem', hkey', hvalidFor⟩ := hanswers _ hanswer
  obtain rfl : request' = { request with requestKey := requestKey } :=
    List.inj_on_of_nodup_map hkeys hmem' hmem hkey'
  unfold ValidFor validateJudgmentResult at hvalidFor ⊢
  simpa only [← hkind, ← hchoices] using hvalidFor

/-- Only accepted results are stored.  And whatever is served from the cache
for a group was an accepted answer to the same judgment earlier on, from a
response which reported the model that the provider names for the requested
one; it is valid for the group. -/
theorem cache_serves_validated (c : ConnectionRuntime)
    (hempty : c.cache.entries = ∅) (calls : ι → Call)
    (hidentities : ∀ i, ∀ group ∈ (calls i).groups,
      ∃ context, group.identity = .new group.request context) {p : Workers ι}
    (hreach : Workers.Reach HostStep (Workers.start c calls) p) :
    StoresValidated calls p.log ∧
      ∀ i, ∀ group ∈ (calls i).groups, ∀ now policy result earlier,
        (i, ⟨.cacheLookup ((calls i).cacheKey group) now policy,
          some result⟩) :: earlier <:+ p.log →
        (∃ j, ∃ source ∈ (calls j).groups, SameJudgment source group ∧
          ∃ model,
            (calls j).provider.cacheModelIdentity
              source.identity.requestedModel = some model ∧
            (calls i).provider.cacheModelIdentity
              group.identity.requestedModel = some model ∧
            ∃ d ∈ dispatches (Log.of earlier j),
              d.Answers source.request result (some model)) ∧
          ValidFor group.request result := by
  obtain ⟨hstores, hserves⟩ := Workers.justified hempty hreach
  refine ⟨hstores, ?_⟩
  intro i group hgroup now policy result earlier hsuffix
  obtain ⟨key, hkey, j, older, hstored, source, hsource, hsourceKey, d, hd,
    hanswers⟩ := hserves i _ now policy result earlier hsuffix
  have hgroupKey := Call.cacheKey_some hkey
  have hsourceKey := Call.cacheKey_some hsourceKey
  have hsame := sameJudgment_of_key (hidentities j source hsource)
    (hidentities i group hgroup) hsourceKey hgroupKey
  obtain ⟨model, hmodel, rfl⟩ := cacheIdentityFor_model hgroupKey
  obtain ⟨model', hmodel', heq⟩ := cacheIdentityFor_model hsourceKey
  obtain rfl : model = model' :=
    Option.some.inj (congrArg JudgmentIdentity.effectiveModel heq)
  refine ⟨⟨j, source, hsource, hsame, model, hmodel', hmodel, d, ?_, hanswers⟩,
    hanswers.validFor hsame.kind hsame.choices⟩
  obtain ⟨newer, hnewer⟩ := hstored.suffix
  rw [← hnewer, Log.of_append]
  exact dispatches_subset (List.suffix_append _ _) (lastDispatch_mem hd)

/-! ## Two queries -/

/-- One call in the first query, the other one in the second. -/
def queryCalls (first second : Mode) : Bool → Call := fun isSecond =>
  if isSecond then textCall 1 second (some ⟨10, 100000, 1000⟩)
  else textCall 0 first (some ⟨10, 100000, 1000⟩)

/-- The calls go to one provider, and their judgments share everything but the
query; the cache is on. -/
def OneModel (provider : Provider) (context : JudgmentIdentityContext)
    (calls : ι → Call) : Prop :=
  (∀ i, (calls i).provider = provider ∧ (calls i).cachePolicy.isSome) ∧
    ∀ i, ∀ group ∈ (calls i).groups, ∃ query, group.identity =
      .new group.request { context with modelBindingScope := query }

theorem queryCalls_oneModel (first second : Mode) :
    OneModel plainProvider aliasContext (queryCalls first second) := by
  refine ⟨fun i => by cases i <;> exact ⟨rfl, rfl⟩, ?_⟩
  have htext : ∀ query, ∀ group ∈
      [textGroup query "a" [0, 2], textGroup query "b" [1]],
      group.identity =
        .new group.request
          { aliasContext with modelBindingScope := query } := by
    intro query group hgroup
    rcases List.mem_cons.mp hgroup with rfl | hgroup
    · rfl
    · rw [List.mem_singleton.mp hgroup]
      rfl
  intro i group hgroup
  cases i with
  | false => exact ⟨0, htext 0 group hgroup⟩
  | true => exact ⟨1, htext 1 group hgroup⟩

/-- The end of one query and the start of the next. -/
def nextQuery (c : ConnectionRuntime) : ConnectionRuntime :=
  (c.endQuery 0 1 0).beginQuery 0

/-- The histories of the two calls. -/
def queryHistories (first second : Mode) : Option (History × History) :=
  (halfEnvironment.run (queryCalls first second false).program firstQuery).bind
    fun x => (halfEnvironment.run (queryCalls first second true).program
      (nextQuery x.2.1.1)).map fun y => (x.2.2, y.2.2)

/-- The two calls, one after the other, are a schedule. -/
theorem queries_reach {first second : Mode} {history history' : History}
    (h : queryHistories first second = some (history, history')) :
    ∃ p : Workers Bool, Workers.Reach HostStep
      (Workers.start firstQuery (queryCalls first second)) p ∧
        p.log = history'.map (fun event => (true, event)) ++
          history.map fun event => (false, event) := by
  obtain ⟨⟨answer, s, events⟩, hfirst, hrest⟩ := Option.bind_eq_some_iff.mp h
  obtain ⟨⟨answer', s', events'⟩, hsecond, heq⟩ :=
    Option.map_eq_some_iff.mp hrest
  obtain ⟨rfl, rfl⟩ := Prod.mk.inj heq
  have hreach₁ := Workers.reach_of_run HostStep halfEnvironment
    (p := Workers.start firstQuery (queryCalls first second)) (i := false)
    hfirst
  have hreach₂ := (hreach₁.tail (.host (.query (.endQuery s.1 0 1 0)))).tail
    (.host (.beginQuery _ 0))
  have hreach₃ := Workers.reach_of_run HostStep halfEnvironment
    (p := ⟨nextQuery s.1, Function.update (Workers.start firstQuery
      (queryCalls first second)).thread false (.ret answer),
        events.map (fun event => (false, event)) ++ []⟩) (i := true) hsecond
  exact ⟨_, hreach₂.trans hreach₃, by simp⟩

/-- The key and the result of a hit. -/
def ExecEvent.hit? :
    ExecEvent → Option (Option JudgmentIdentity × JudgmentResult)
  | ⟨.cacheLookup key _ _, some result⟩ => some (key, result)
  | _ => none

/-- A hit in a history is a step of the run. -/
theorem exists_hit {log : WorkerLog ι} {i : ι} {history : History}
    (hhistory : Log.of log i = history) {key : Option JudgmentIdentity}
    {result : JudgmentResult}
    (h : (key, result) ∈ history.filterMap ExecEvent.hit?) :
    ∃ now policy earlier,
      (i, ⟨.cacheLookup key now policy, some result⟩) :: earlier <:+ log := by
  obtain ⟨⟨op, r⟩, hmem, hhit⟩ := List.mem_filterMap.mp h
  unfold ExecEvent.hit? at hhit
  split at hhit
  · rename_i key' now policy result' heq
    obtain ⟨rfl, rfl⟩ := Prod.mk.inj (Option.some.inj hhit)
    rw [heq, ← hhistory, Log.mem_of] at hmem
    obtain ⟨newer, earlier, rfl⟩ := List.mem_iff_append.mp hmem
    exact ⟨now, policy, earlier, List.suffix_append _ _⟩
  · cases hhit

/-- Some run has a hit in its second query, which is without batches, and
sends all its requests with this many judgments. -/
def HitAfter (first : Mode) (size : ℕ) : Prop :=
  ∃ p : Workers Bool, Workers.Reach HostStep
      (Workers.start firstQuery (queryCalls first .single)) p ∧
    (∃ now policy earlier, (true, ⟨.cacheLookup
      ((queryCalls first .single true).cacheKey
        (textGroup 1 "a" [0, 2])) now policy,
      some (.noul .half)⟩) :: earlier <:+ p.log) ∧
    ∀ i, ∀ d ∈ dispatches (p.log.of i), d.requests.length = size

theorem hitAfter_of_run {first : Mode} {size : ℕ}
    (hrun : (queryHistories first .single).any (fun x =>
      ((queryCalls first .single true).cacheKey
        (textGroup 1 "a" [0, 2]), .noul .half) ∈
          x.2.filterMap ExecEvent.hit? ∧
        (∀ d ∈ dispatches x.1, d.requests.length = size) ∧
          ∀ d ∈ dispatches x.2, d.requests.length = size) = true) :
    HitAfter first size := by
  obtain ⟨⟨history, history'⟩, hhistories, hfacts⟩ :=
    (Option.any_eq_true ..).mp hrun
  obtain ⟨hhit, hfirst, hsecond⟩ := of_decide_eq_true hfacts
  obtain ⟨p, hreach, hlog⟩ := queries_reach hhistories
  have hof : Log.of p.log true = history' ∧ Log.of p.log false = history := by
    rw [hlog]
    simp [Log.of]
  refine ⟨p, hreach, exists_hit hof.1 hhit, ?_⟩
  rintro (_ | _) d hd
  · rw [hof.2] at hd
    exact hfirst d hd
  · rw [hof.1] at hd
    exact hsecond d hd

theorem hitAfter_batched : HitAfter (.batched 2 insertionOrder) 2 :=
  hitAfter_of_run (by decide)

theorem cache_serves_validated_twice :
    ∃ p : Workers Bool,
      StoresValidated (queryCalls (.batched 2 insertionOrder) .single) p.log ∧
        ∃ (earlier : WorkerLog Bool) (j : Bool),
          ∃ d ∈ dispatches (Log.of earlier j), ∃ request,
            request.state.canonical = (textRequest "a").state.canonical ∧
              d.Answers request (.noul .half) (some "jev-latest") := by
  obtain ⟨p, hreach, ⟨now, policy, earlier, hsuffix⟩, -⟩ := hitAfter_batched
  have hidentities : ∀ i, ∀ group ∈
      (queryCalls (.batched 2 insertionOrder) .single i).groups,
      ∃ context, group.identity = .new group.request context := by
    intro i group hgroup
    obtain ⟨query, hidentity⟩ := (queryCalls_oneModel _ _).2 i group hgroup
    exact ⟨_, hidentity⟩
  obtain ⟨hstores, hserves⟩ := cache_serves_validated firstQuery rfl
    (queryCalls (.batched 2 insertionOrder) .single) hidentities hreach
  obtain ⟨⟨j, source, hsource, hsame, model, -, hmodel, d, hd, hanswers⟩, -⟩ :=
    hserves true (textGroup 1 "a" [0, 2])
      (List.mem_cons_self ..) now policy (.noul .half) earlier hsuffix
  obtain rfl : "jev-latest" = model := Option.some.inj hmodel
  exact ⟨p, hstores, earlier, j, d, hd, source.request, hsame.canonical,
    hanswers⟩

end DuckJeu
