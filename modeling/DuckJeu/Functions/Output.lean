import DuckJeu.Executor.Results
import DuckJeu.Functions.Gate
import DuckJeu.Functions.Script

/-!
# The output of the optimized functions

Calls of the three functions run over one connection, in any number of
queries and under any schedule.  A call which ends well has written each of
its rows once, and has written what the row may have; a call which fails has
written nothing.

Seen from the executor, such a schedule is one of workers.  So what is known
about the results of workers holds for the rows of the output.
-/

namespace DuckJeu

open Effects ConnectionRuntime

variable {ι : Type} [DecidableEq ι]

/-! ## Pools of functions -/

/-- The calls of functions on one connection. -/
abbrev FunctionPool (ι : Type) :=
  Pool ι Surroundings (Op ⊕ FunctionOp) (SumRes Res FunctionRes)
    (Except JudgmentError Unit)

abbrev FunctionLog (ι : Type) :=
  Log ι (Op ⊕ FunctionOp) (SumRes Res FunctionRes)

/-- The calls before they have done anything. -/
def FunctionPool.start (s : Surroundings) (calls : ι → FunctionCall) :
    FunctionPool ι where
  shared := s
  thread := fun i => (runOptimized (calls i)).run
  log := []

/-- What may happen in between: steps of the host, and other connections of
the process, which take scopes and numbers. -/
inductive SurroundingsStep
    (host : ConnectionRuntime → ConnectionRuntime → Prop) :
    Surroundings → Surroundings → Prop where
  | connection (s : Surroundings) {c : ConnectionRuntime}
      (h : host s.connection c) :
      SurroundingsStep host s { s with connection := c }
  | process (s : Surroundings) (nextScope nextInvocation nextChunk : ℕ) :
      SurroundingsStep host s
        { s with
          nextScope := nextScope
          nextInvocation := nextInvocation
          nextChunk := nextChunk }

abbrev FunctionPool.Reach
    (host : ConnectionRuntime → ConnectionRuntime → Prop) :
    FunctionPool ι → FunctionPool ι → Prop :=
  Pool.Reachable functionStep (SurroundingsStep host)

/-! ## One call alone -/

/-- Perform one operation of a function alone. -/
def Environment.around (env : Environment) : Surroundings × ℕ →
    (op : Op ⊕ FunctionOp) →
      Option (SumRes Res FunctionRes op × (Surroundings × ℕ))
  | (s, t), .inl op => (env.handle (s.connection, t) op).map fun next =>
      (next.1, { s with connection := next.2.1 }, next.2.2)
  | (s, t), .inr op => some ((s.perform op).1, (s.perform op).2, t)

theorem Environment.around_step (env : Environment) (s : Surroundings × ℕ)
    (op : Op ⊕ FunctionOp) (r : SumRes Res FunctionRes op)
    (s' : Surroundings × ℕ) (h : env.around s op = some (r, s')) :
    functionStep s.1 op r s'.1 := by
  obtain ⟨s, t⟩ := s
  cases op with
  | inl op =>
      obtain ⟨⟨r', c, t'⟩, hhandle, heq⟩ := Option.map_eq_some_iff.mp h
      obtain ⟨rfl, rfl⟩ := Prod.mk.inj heq
      exact ⟨c, env.handle_step _ _ _ _ hhandle, rfl⟩
  | inr op =>
      obtain ⟨rfl, rfl⟩ := Prod.mk.inj (Option.some.inj h)
      rfl

/-- A call alone is a schedule. -/
theorem FunctionPool.run_alone
    (host : ConnectionRuntime → ConnectionRuntime → Prop) (env : Environment)
    {call : FunctionCall} {s : Surroundings}
    {answer : Except JudgmentError Unit} {s' : Surroundings × ℕ}
    {h : FunctionHistory}
    (hrun : (runOptimized call).run.run env.around (s, 0) =
      some (answer, s', h)) :
    ∃ p : FunctionPool Unit,
      FunctionPool.Reach host (FunctionPool.start s fun _ => call) p ∧
      p.shared = s'.1 ∧ p.thread () = .ret answer ∧ p.log.of () = h := by
  have hreach : FunctionPool.Reach host
      (FunctionPool.start s fun _ : Unit => call) _ :=
    Prog.run_reachable (π := Prod.fst) (i := ()) env.around_step hrun rfl
  refine ⟨_, hreach, rfl, ?_, ?_⟩
  · simp
  · simp [Log.of]

/-! ## The workers behind the calls -/

/-- A call without groups. -/
def idleCall : Call where
  groups := []
  provider := plainProvider
  limits := { queryScope := 0, maxInflight := 1, maxRequestBytes := 0 }
  cachePolicy := none
  mode := .single

/-- The calls of the executor which have begun. -/
def innerCall (calls : ι → FunctionCall) (log : FunctionLog ι) (i : ι) : Call :=
  ((calls i).begunCall (outerOf (log.of i))).getD idleCall

/-- Outside the executor, a call does what the host may do as well. -/
theorem perform_quiet (s : Surroundings) (op : FunctionOp) :
    (s.perform op).2.connection = s.connection ∨
      QuietStep s.connection (s.perform op).2.connection := by
  cases op with
  | enterQuery credential =>
      exact Or.inr (.credentialScope s.connection s.hash s.nextScope
        s.connection.identityScopes.2 credential)
  | recordOptimizedRows scope inputRows nullRows validRows groups =>
      exact Or.inr (.optimizedRows s.connection scope inputRows nullRows
        validRows groups.length)
  | _ => exact Or.inl rfl

section Inner

variable {host : ConnectionRuntime → ConnectionRuntime → Prop}
  {s₀ : Surroundings} {calls : ι → FunctionCall} {p : FunctionPool ι}

/-- A schedule of functions is a schedule of workers. -/
theorem FunctionPool.inner (hquiet : ∀ c c', QuietStep c c' → host c c')
    (hreach : FunctionPool.Reach host (FunctionPool.start s₀ calls) p) :
    (∃ thread : ι → Run Answer,
      (∀ i, (innerCall calls p.log i).program.After
        (innerOf (p.log.of i)) (thread i)) ∧
      Workers.Reach host (Workers.start s₀.connection (innerCall calls p.log))
        ⟨p.shared.connection, thread, p.log.inner⟩) ∧
    (∀ i, (calls i).begunCall (outerOf (p.log.of i)) = none →
      innerOf (p.log.of i) = []) ∧
    ∀ i, Follows (calls i).script (p.thread i) (calls i).Post
      (p.log.of i) := by
  have hinner := Pool.Reachable.inner Surroundings.connection step host
    ?_ ?_ ?_ (fun i => FunctionCall.begun_cons) hreach rfl
    (fun i => runOptimized_follows (calls i))
  · refine ⟨hinner.1 (fun i => (innerCall calls p.log i).program) ?_, ?_,
      hinner.2⟩
    · intro i q hq
      obtain ⟨inner, hcall, rfl⟩ := Option.map_eq_some_iff.mp hq
      rw [innerCall, hcall, Option.getD_some]
    · intro i hnone
      obtain ⟨thread, hthreads, -⟩ := hinner.1 (fun j =>
        ((calls j).begun (outerOf (p.log.of j))).getD (.ret (.ok [])))
        fun j q hq => by rw [hq, Option.getD_some]
      have hi := hthreads i
      rw [FunctionCall.begun, hnone] at hi
      exact hi.of_ret.1
  · rintro s op r s' ⟨c, hstep, rfl⟩
    exact hstep
  · intro s op r s' hstep
    have hsame : s' = (s.perform op).2 := (congrArg Prod.snd hstep).symm
    rw [hsame]
    rcases perform_quiet s op with hconnection | hstep
    · rw [hconnection]
    · exact Relation.ReflTransGen.single (hquiet _ _ hstep)
  · intro s s' hstep
    cases hstep with
    | connection hhost => exact Relation.ReflTransGen.single hhost
    | process => exact Relation.ReflTransGen.refl

/-- A call has recorded all of its rows, and then what it has collected. -/
theorem FunctionPool.recorded
    (hreach : FunctionPool.Reach host (FunctionPool.start s₀ calls) p) (i : ι) :
    (calls i).Recorded (outerOf (p.log.of i))
      (records (outerOf (p.log.of i))) :=
  Pool.Reachable.outside
    (fun i h => (calls i).Recorded h (records h)) (fun _ => .none)
    (fun _ _ _ r hrecorded hallowed => hrecorded.cons r hallowed) hreach rfl
    (fun i => runOptimized_follows (calls i)) i

/-- What has begun is about the rows which the call has collected. -/
theorem FunctionPool.begun_groups
    (hreach : FunctionPool.Reach host (FunctionPool.start s₀ calls) p) {i : ι}
    {inner : Call}
    (hbegun : (calls i).begunCall (outerOf (p.log.of i)) = some inner) :
    ∃ context work nullRows, (calls i).Collected context work nullRows
        (List.range (calls i).rowCount) ∧
      inner.groups = groupByIdentity work := by
  have hrecorded := FunctionPool.recorded hreach i
  obtain ⟨scope, inputRows, nullRows, validRows, hmem, hne, -⟩ :=
    FunctionCall.begunCall_recorded hbegun
  have hrecord : FunctionOp.recordOptimizedRows scope inputRows nullRows
      validRows inner.groups ∈ records (outerOf (p.log.of i)) :=
    mem_records.mpr ⟨⟨_, hmem⟩, rfl⟩
  generalize records (outerOf (p.log.of i)) = made at hrecorded hrecord
  cases hrecorded with
  | none => cases hrecord
  | input hentered =>
      obtain ⟨-, -, -, -, hnil⟩ :=
        FunctionOp.recordOptimizedRows.inj (List.mem_singleton.mp hrecord)
      exact absurd hnil hne
  | collected hentered hcollect =>
      rcases List.mem_pair.mp hrecord with hwork | hinput
      · obtain ⟨-, -, -, -, hgroups⟩ := FunctionOp.recordOptimizedRows.inj hwork
        exact ⟨_, _, _, FunctionCall.collected hcollect, hgroups⟩
      · obtain ⟨-, -, -, -, hnil⟩ := FunctionOp.recordOptimizedRows.inj hinput
        exact absurd hnil hne

/-- The groups of the workers have the identities of their requests. -/
theorem FunctionPool.identities
    (hreach : FunctionPool.Reach host (FunctionPool.start s₀ calls) p) (i : ι) :
    ∀ group ∈ (innerCall calls p.log i).groups,
      ∃ context, group.identity = .new group.request context := by
  intro group hgroup
  rw [innerCall] at hgroup
  cases hbegun : (calls i).begunCall (outerOf (p.log.of i)) with
  | none =>
      rw [hbegun] at hgroup
      cases hgroup
  | some inner =>
      rw [hbegun, Option.getD_some] at hgroup
      obtain ⟨context, work, nullRows, hcollected, hgroups⟩ :=
        FunctionPool.begun_groups hreach hbegun
      rw [hgroups] at hgroup
      obtain ⟨grouping, hgrouping, hsound⟩ := groupByIdentity_sound work
      rw [← hgrouping] at hgroup
      obtain ⟨item, hitem, hidentity, hrequest⟩ := hsound.source group hgroup
      refine ⟨context, ?_⟩
      rw [← hidentity, ← hrequest]
      exact (hcollected.items item hitem).2

/-- The rows of all groups have one result each, and it is one which the
worker has for the identity of the group. -/
theorem FunctionPool.executed_groups
    (hquiet : ∀ c c', QuietStep c c' → host c c')
    (hslots : ∀ c c', host c c' → c'.slots = c.slots)
    (hreach : FunctionPool.Reach host (FunctionPool.start s₀ calls) p)
    {i : ι} {groups : List JudgmentGroup}
    {executed : List (RowTarget × JudgmentResult)}
    (hexecuted : (calls i).Executed groups executed (p.log.of i)) :
    (executed.map Prod.fst).Perm (groups.flatMap JudgmentGroup.targets) ∧
      ∀ pair ∈ executed, ∃ group ∈ groups, pair.1 ∈ group.targets ∧
        group ∈ (innerCall calls p.log i).groups ∧
        Answered (innerOf (p.log.of i)) group.identity pair.2 := by
  rcases hexecuted with ⟨rfl, rfl⟩ | ⟨inner, hbegun, rfl, hafter⟩
  · exact ⟨List.Perm.refl _, by simp⟩
  obtain ⟨⟨thread, hthreads, hinner⟩, -, -⟩ := FunctionPool.inner hquiet hreach
  have hcall : innerCall calls p.log i = inner := by
    rw [innerCall, hbegun, Option.getD_some]
  -- the worker has returned what the call has got
  have hreturned : thread i = .ret (.ok executed) := by
    refine (hthreads i).unique ?_
    rwa [hcall]
  have hworkers := Workers.invariant (fun _ _ => True) hinner hslots trivial
    (fun _ _ _ _ _ _ _ _ _ _ => trivial) fun _ _ _ _ _ => trivial
  have hpost := hworkers.2.2 i
  dsimp only at hpost
  rw [hreturned, Log.inner_of] at hpost
  obtain ⟨-, -, ⟨assigned, rfl, hperm, hanswered⟩, -⟩ := hpost
  rw [hcall] at hperm
  refine ⟨?_, ?_⟩
  · have htargets : (assigned.flatMap fun a => a.1.expand a.2).map Prod.fst =
        (assigned.map Prod.fst).flatMap JudgmentGroup.targets := by
      simp [List.map_flatMap, List.flatMap_map, JudgmentGroup.expand,
        Function.comp_def]
    rw [htargets]
    exact hperm.flatMap_right _
  · intro pair hpair
    obtain ⟨a, ha, hpair⟩ := List.mem_flatMap.mp hpair
    obtain ⟨target, htarget, rfl⟩ := List.mem_map.mp hpair
    have hgroup : a.1 ∈ inner.groups :=
      hperm.mem_iff.mp (List.mem_map_of_mem ha)
    exact ⟨a.1, hgroup, htarget, hcall ▸ hgroup, hanswered a ha⟩

/-- Every collected row has one result, which is valid for its request. -/
theorem FunctionPool.executed (hempty : s₀.connection.cache.entries = ∅)
    (hentries : s₀.connection.queryEntries = ∅)
    (hreach : FunctionPool.Reach HostStep (FunctionPool.start s₀ calls) p)
    {i : ι} {context : JudgmentIdentityContext} {work : List JudgmentWork}
    {nullRows : ℕ} {executed : List (RowTarget × JudgmentResult)}
    (hcollected : (calls i).Collected context work nullRows
      (List.range (calls i).rowCount))
    (hexecuted : (calls i).Executed (groupByIdentity work) executed
      (p.log.of i)) :
    (executed.map Prod.fst).Perm (work.map JudgmentWork.target) ∧
      ∀ pair ∈ executed, ∃ item ∈ work, item.target = pair.1 ∧
        ValidFor item.request pair.2 := by
  have hquiet : ∀ c c', QuietStep c c' → HostStep c c' :=
    fun _ _ h => .query (.quiet h)
  have hidentities := FunctionPool.identities hreach
  obtain ⟨⟨thread, -, hinner⟩, -, -⟩ := FunctionPool.inner hquiet hreach
  obtain ⟨htargets, hanswered⟩ := FunctionPool.executed_groups hquiet
    (fun _ _ h => h.slots.1) hreach hexecuted
  refine ⟨htargets.trans (targets_groupByIdentity work), ?_⟩
  intro pair hpair
  obtain ⟨group, hgroup, htarget, hmine, hknown⟩ := hanswered pair hpair
  obtain ⟨item, hitem, hitemTarget, hidentity⟩ :=
    mem_targets_groupByIdentity hgroup htarget
  have hvalid : ValidFor group.request pair.2 := by
    refine Workers.answered_valid hempty hentries hidentities hinner hmine ?_
    rwa [Log.inner_of]
  obtain ⟨context', hgroupIdentity⟩ := hidentities i group hmine
  rw [(hcollected.items item hitem).2, hgroupIdentity] at hidentity
  exact ⟨item, hitem, hitemTarget, hvalid.of_identity hidentity.symm⟩

end Inner

/-! ## Covered output -/

/-- The cell which a row may have: NULL without a request, and otherwise a
value of the function for this request. -/
def FunctionKind.CellFor (kind : FunctionKind) :
    Option JudgmentRequest → Option OutputValue → Prop
  | none, cell => cell = none
  | some request, cell => ∃ value, cell = some value ∧
      kind.OwnValue request value

/-- Each row of the call was read and has been written once, as it may be. -/
def FunctionCall.Covered (call : FunctionCall) (h : FunctionHistory) : Prop :=
  ∀ row < call.rowCount, ∃ read cell, call.read row = .ok read ∧
    writtenTo row (outerOf h) = [cell] ∧ call.kind.CellFor read cell

/-- The requests which are read are of the kind of the function. -/
def FunctionCall.OwnKind (call : FunctionCall) : Prop :=
  ∀ row request, call.read row = .ok (some request) →
    request.kind = call.kind.questionKind

/-- `read_request` reads requests of the kind of the function. -/
theorem ownKind_of_readRequest {W : WireText} {call : FunctionCall}
    {rows : ℕ → InputRow}
    (h : ∀ row, call.read row = readRequest W call.kind (rows row)) :
    call.OwnKind := by
  intro row request hrequest
  rw [h row] at hrequest
  exact (readRequest_wellFormed hrequest).2

/-- The results, once placed, stand in the rows with requests. -/
theorem placed_of_executed {call : FunctionCall}
    {Q : JudgmentRequest → JudgmentResult → Prop}
    {context : JudgmentIdentityContext} {work : List JudgmentWork}
    {nullRows : ℕ} {executed : List (RowTarget × JudgmentResult)}
    (hcollected : call.Collected context work nullRows
      (List.range call.rowCount))
    (htargets : (executed.map Prod.fst).Perm (work.map JudgmentWork.target))
    (hresults : ∀ pair ∈ executed, ∃ item ∈ work, item.target = pair.1 ∧
      Q item.request pair.2) {row : ℕ} (hrow : row < call.rowCount)
    {result : Option JudgmentResult}
    (hplaced : (placeResults (List.replicate call.rowCount none) executed)[row]?
      = some result) :
    (call.read row = .ok none ∧ result = none) ∨
      ∃ request value, call.read row = .ok (some request) ∧
        result = some value ∧ Q request value := by
  have hrows : (executed.map fun pair => pair.1.row).Perm
      (work.map fun item => item.target.row) := by
    simpa [Function.comp_def] using htargets.map RowTarget.row
  obtain ⟨read, hread⟩ := hcollected.read row (List.mem_range.mpr hrow)
  cases read with
  | none =>
      -- no result stands in a row without a request
      have hfree : ∀ pair ∈ executed, pair.1.row ≠ row := by
        rintro pair hpair rfl
        obtain ⟨item, hitem, htarget, -⟩ := hresults pair hpair
        have hsome := (hcollected.items item hitem).1
        rw [htarget, hread] at hsome
        cases hsome
      rw [placeResults_of_notMem hfree, List.getElem?_replicate,
        if_pos hrow] at hplaced
      exact Or.inl ⟨hread, (Option.some.inj hplaced).symm⟩
  | some request =>
      obtain ⟨item, hitem, hitemRow⟩ :=
        hcollected.covered row (List.mem_range.mpr hrow) request hread
      have hmem : item.target ∈ executed.map Prod.fst :=
        htargets.mem_iff.mpr (List.mem_map_of_mem hitem)
      obtain ⟨⟨target, found⟩, hpair, rfl⟩ := List.mem_map.mp hmem
      have hnodup : (executed.map fun pair => pair.1.row).Nodup :=
        hrows.nodup_iff.mpr hcollected.rows_nodup
      have hwithin : item.target.row < (List.replicate call.rowCount
          (none : Option JudgmentResult)).length := by
        rwa [hitemRow, List.length_replicate]
      have hfound := placeResults_of_mem hnodup hpair hwithin
      rw [hitemRow, hplaced] at hfound
      obtain ⟨source, hsource, htarget, hresult⟩ := hresults _ hpair
      have hrequest : source.request = request := by
        have hsome := (hcollected.items source hsource).1
        rw [htarget, hitemRow, hread] at hsome
        exact (Option.some.inj (Except.ok.inj hsome)).symm
      rw [hrequest] at hresult
      exact Or.inr ⟨request, found, hread, Option.some.inj hfound, hresult⟩

/-- The results, once placed, cover the rows. -/
theorem covered_of_executed {call : FunctionCall} (hkind : call.OwnKind)
    {context : JudgmentIdentityContext} {work : List JudgmentWork}
    {nullRows : ℕ} {executed : List (RowTarget × JudgmentResult)}
    (hcollected : call.Collected context work nullRows
      (List.range call.rowCount))
    (htargets : (executed.map Prod.fst).Perm (work.map JudgmentWork.target))
    (hvalid : ∀ pair ∈ executed, ∃ item ∈ work, item.target = pair.1 ∧
      ValidFor item.request pair.2) {row : ℕ} (hrow : row < call.rowCount)
    {result : Option JudgmentResult}
    (hplaced : (placeResults (List.replicate call.rowCount none) executed)[row]?
      = some result) :
    ∃ read cell, call.read row = .ok read ∧ call.kind.cells result = [cell] ∧
      call.kind.CellFor read cell := by
  rcases placed_of_executed hcollected htargets hvalid hrow hplaced with
    ⟨hread, rfl⟩ | ⟨request, found, hread, rfl, hfound⟩
  · exact ⟨none, none, hread, rfl, rfl⟩
  · obtain ⟨value, hvalue, hown⟩ :=
      FunctionKind.ownValue (hkind row request hread) hfound
    refine ⟨some request, some value, hread, ?_, value, rfl, hown⟩
    rw [FunctionKind.cells, hvalue]
    rfl

/-- Over all queries of a connection, a call which ends well has covered its
rows, a call which fails has written none, and a call which cannot read all
its rows neither claims nor asks. -/
theorem output_covered {s₀ : Surroundings}
    (hempty : s₀.connection.cache.entries = ∅)
    (hentries : s₀.connection.queryEntries = ∅) {calls : ι → FunctionCall}
    {p : FunctionPool ι}
    (hreach : FunctionPool.Reach HostStep (FunctionPool.start s₀ calls) p)
    (i : ι) (hkind : (calls i).OwnKind) :
    (p.thread i = .ret (.ok ()) → (calls i).Covered (p.log.of i)) ∧
      (∀ error, p.thread i = .ret (.error error) →
        ∀ row, writtenTo row (outerOf (p.log.of i)) = []) ∧
      ((calls i).ReadFails → innerOf (p.log.of i) = []) := by
  obtain ⟨-, hunbegun, hfollows⟩ := FunctionPool.inner
    (fun _ _ h => HostStep.query (.quiet h)) hreach
  have hpost := hfollows i
  refine ⟨?_, ?_, ?_⟩
  · intro hreturned
    rw [hreturned] at hpost
    obtain ⟨context, invocation, chunk, work, nullRows, executed, scope,
      hcollect, -, hexecuted, hwritten⟩ := hpost
    have hcollected := FunctionCall.collected hcollect
    obtain ⟨htargets, hvalid⟩ :=
      FunctionPool.executed hempty hentries hreach hcollected hexecuted
    intro row hrow
    obtain ⟨result, hplaced, hcells⟩ := hwritten row hrow
    obtain ⟨read, cell, hread, hcell, hfor⟩ :=
      covered_of_executed hkind hcollected htargets hvalid hrow hplaced
    exact ⟨read, cell, hread, hcells.trans hcell, hfor⟩
  · intro error hreturned
    rw [hreturned] at hpost
    exact hpost
  · intro hfails
    cases hbegun : (calls i).begunCall (outerOf (p.log.of i)) with
    | none => exact hunbegun i hbegun
    | some inner =>
        obtain ⟨_, _, _, hcollected, -⟩ :=
          FunctionPool.begun_groups hreach hbegun
        exact absurd hfails hcollected.not_fails

/-- A connection with its first query, in a process of its own. -/
def firstSurroundings : Surroundings where
  connection := firstQuery
  hash := fun _ => 0
  nextScope := 2
  nextInvocation := 0
  nextChunk := 0

def optimizedState : ExecutionState where
  context :=
    { provider := "typesafe"
      apiUrl := "https://api.typesafe.ai"
      model := "jev-latest"
      credential := none }
  provider := .ok plainProvider
  connected := true
  runtimeConfig := .ok
    { mode := .optimized
      batchEnabled := false
      batchMaxJudgments := 16
      maxRequestBytes := 1000
      maxInflight := 1
      cacheEnabled := false
      cacheMaxEntries := 10000
      cacheMaxBytes := 67108864
      cacheTtlMs := 60000 }

/-- A call about two texts in three rows, of which one is NULL. -/
def textsCall : FunctionCall where
  kind := .prob
  state := optimizedState
  order := insertionOrder
  rowCount := 3
  read := fun row => .ok (([some "a", none, some "b"].getD row none).map
    textRequest)

theorem output_covered_texts :
    ∃ p : FunctionPool Unit,
      FunctionPool.Reach HostStep
        (FunctionPool.start firstSurroundings fun _ => textsCall) p ∧
      p.thread () = .ret (.ok ()) ∧ textsCall.Covered (p.log.of ()) := by
  have hrun : ((runOptimized textsCall).run.run halfEnvironment.around
      (firstSurroundings, 0)).map Prod.fst = some (.ok ()) := by decide
  obtain ⟨⟨answer, s', h⟩, hrun, rfl⟩ := Option.map_eq_some_iff.mp hrun
  obtain ⟨p, hreach, -, hreturned, -⟩ :=
    FunctionPool.run_alone HostStep halfEnvironment hrun
  have hkind : textsCall.OwnKind := by
    intro row request hread
    obtain ⟨text, -, rfl⟩ :=
      Option.map_eq_some_iff.mp (Except.ok.inj hread)
    rfl
  exact ⟨p, hreach, hreturned,
    (output_covered rfl rfl hreach () hkind).1 hreturned⟩

/-- A probability function which has read a request with choices. -/
def strayCall : FunctionCall :=
  { textsCall with read := fun _ => .ok (some (labelRequest "a")) }

/-- The label which answers the request is not written at all. -/
theorem stray_unwritten :
    ∃ p : FunctionPool Unit,
      FunctionPool.Reach HostStep
        (FunctionPool.start firstSurroundings fun _ => strayCall) p ∧
      p.thread () = .ret (.ok ()) ∧
      strayCall.read 0 = .ok (some (labelRequest "a")) ∧
      writtenTo 0 (outerOf (p.log.of ())) = [] ∧
      ¬ strayCall.Covered (p.log.of ()) := by
  have hrun : ((runOptimized strayCall).run.run labelEnvironment.around
      (firstSurroundings, 0)).map (fun last =>
        (last.1, writtenTo 0 (outerOf last.2.2))) = some (.ok (), []) := by
    decide
  obtain ⟨⟨answer, s', h⟩, hrun, heq⟩ := Option.map_eq_some_iff.mp hrun
  obtain ⟨rfl, hwritten⟩ := Prod.mk.inj heq
  obtain ⟨p, hreach, -, hreturned, rfl⟩ :=
    FunctionPool.run_alone HostStep labelEnvironment hrun
  refine ⟨p, hreach, hreturned, rfl, hwritten, ?_⟩
  intro hcovered
  obtain ⟨_, _, -, hcell, -⟩ := hcovered 0 (by decide)
  rw [hwritten] at hcell
  cases hcell

end DuckJeu
