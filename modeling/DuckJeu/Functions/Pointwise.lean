import DuckJeu.Core.JsonString
import DuckJeu.Executor.Verdicts
import DuckJeu.Functions.Output

/-!
# Functions compute row by row

If the models judge, a function which ends well has written into each row the
value of the judgment of that row.  Nothing of how it got there can be told
from the output: which rows shared a request, what was asked in one batch with
what, what came out of the cache, and what other calls have asked for.
-/

namespace DuckJeu

open Effects ConnectionRuntime

/-! ## The identities of a call -/

namespace FunctionCall

variable (call : FunctionCall)

/-- The groups have identities of the query and the credential scope which the
call has entered. -/
def Situated (h : OuterHistory) (scope : ℕ) (groups : List JudgmentGroup) :
    Prop :=
  ∃ credentialScope,
    (⟨.enterQuery call.state.context.credential,
      .ok (scope, credentialScope)⟩ : Event FunctionOp FunctionRes) ∈ h ∧
    ∀ group ∈ groups, group.identity =
      .new group.request (call.identityContext scope credentialScope)

/-- Only situated groups are recorded. -/
def RecordsSituated (h : OuterHistory) (op : FunctionOp) : Prop :=
  ∀ scope inputRows nullRows validRows groups,
    op = .recordOptimizedRows scope inputRows nullRows validRows groups →
      call.Situated h scope groups

/-- What a call does outside the executor, as far as situations go. -/
abbrev recordingProtocol :
    Protocol (Op ⊕ FunctionOp) (SumRes Res FunctionRes) OuterHistory :=
  Protocol.outside call.RecordsSituated

variable {call}

theorem recordsSituated_unrecorded {h : OuterHistory} {op : FunctionOp}
    (hop : op.IsRecord = false) : call.RecordsSituated h op := by
  rintro scope inputRows nullRows validRows groups rfl
  cases hop

theorem Situated.mono {h h' : OuterHistory} {scope : ℕ}
    {groups : List JudgmentGroup} (hsituated : call.Situated h scope groups)
    (hsubset : h ⊆ h') : call.Situated h' scope groups := by
  obtain ⟨credentialScope, hmem, hgroups⟩ := hsituated
  exact ⟨credentialScope, hsubset hmem, hgroups⟩

/-- What is collected is grouped under its own identities. -/
theorem Collected.situated {work : List JudgmentWork} {nullRows : ℕ}
    {context : JudgmentIdentityContext} {rows : List ℕ}
    (hcollected : call.Collected context work nullRows rows)
    {group : JudgmentGroup} (hgroup : group ∈ groupByIdentity work) :
    group.identity = .new group.request context := by
  obtain ⟨grouping, hgroups, hsound⟩ := groupByIdentity_sound work
  obtain ⟨item, hitem, hidentity, hrequest⟩ :=
    hsound.source group (hgroups.symm ▸ hgroup)
  rw [← hidentity, ← hrequest]
  exact (hcollected.items item hitem).2

end FunctionCall

section Follows

variable {call : FunctionCall}

theorem writeRows_situated (kind : FunctionKind) (first : ℕ)
    (results : List (Option JudgmentResult)) (h : OuterHistory) :
    Follows call.recordingProtocol
      (writeRows kind first results) (fun _ _ => True) h := by
  induction results generalizing first h with
  | nil => exact trivial
  | cons result rest ih =>
      unfold writeRows
      cases result with
      | none =>
          exact ⟨FunctionCall.recordsSituated_unrecorded rfl,
            fun r _ => ih (first + 1) _⟩
      | some result =>
          simp only [writeResult, follows_bind]
          cases kind.value result with
          | none => exact ih (first + 1) h
          | some value =>
              exact ⟨FunctionCall.recordsSituated_unrecorded rfl,
                fun r _ => ih (first + 1) _⟩

theorem execute_situated (config : RuntimeConfig) (queryScope : ℕ)
    (groups : List JudgmentGroup) (h : OuterHistory) :
    Secures call.recordingProtocol
      (call.execute config queryScope groups) (fun _ _ => True)
      (fun _ _ => True) h := by
  unfold FunctionCall.execute
  split
  · exact trivial
  split
  · exact trivial
  · rw [secures_mk]
    refine follows_outside_embed _ ?_
    rintro (error | executed)
    · exact trivial
    · exact trivial

/-- A call records situated groups only. -/
theorem runOptimized_situated (call : FunctionCall) :
    Follows call.recordingProtocol
      (runOptimized call).run (fun _ _ => True) [] := by
  suffices h : Secures call.recordingProtocol
      (runOptimized call) (fun _ _ => True) (fun _ _ => True) [] by
    refine Follows.mono h ?_
    exact fun _ _ _ => trivial
  unfold runOptimized
  split
  · exact trivial
  split
  · exact trivial
  split
  · exact trivial
  rw [secures_bind, secures_mk, follows_perform]
  refine ⟨FunctionCall.recordsSituated_unrecorded rfl, ?_⟩
  rintro (error | ⟨queryScope, credentialScope⟩) -
  · exact trivial
  dsimp only
  rw [secures_bind, secures_lift, follows_perform]
  refine ⟨?_, fun _ _ => ?_⟩
  · rintro _ _ _ _ _ ⟨⟩
    exact ⟨credentialScope, List.mem_cons_self .., by simp⟩
  rw [secures_bind, secures_lift, follows_perform]
  refine ⟨FunctionCall.recordsSituated_unrecorded rfl, fun invocation _ => ?_⟩
  rw [secures_bind, secures_lift, follows_perform]
  refine ⟨FunctionCall.recordsSituated_unrecorded rfl, fun chunk _ => ?_⟩
  split
  · exact trivial
  rename_i work nullRows hcollect
  rw [secures_bind, secures_lift, follows_perform]
  refine ⟨?_, fun _ _ => ?_⟩
  · rintro _ _ _ _ _ ⟨⟩
    refine ⟨credentialScope, .tail _ (.tail _ (.tail _ (.head _))),
      fun group hgroup => ?_⟩
    exact (FunctionCall.collected hcollect).situated hgroup
  rw [secures_bind]
  refine (execute_situated _ _ _ _).mono (fun executed h _ => ?_)
    fun _ _ _ => trivial
  rw [secures_lift]
  exact writeRows_situated call.kind 0 _ h

end Follows

variable {ι : Type} [DecidableEq ι]

section Pools

variable {host : ConnectionRuntime → ConnectionRuntime → Prop}
  {s₀ : Surroundings} {calls : ι → FunctionCall} {p : FunctionPool ι}

/-- Wherever the calls get, what they have recorded is situated. -/
theorem FunctionPool.situated
    (hreach : FunctionPool.Reach host (FunctionPool.start s₀ calls) p) (i : ι)
    {scope inputRows nullRows validRows : ℕ} {groups : List JudgmentGroup}
    {r : Unit}
    (hmem : (⟨.recordOptimizedRows scope inputRows nullRows validRows groups,
      r⟩ : Event FunctionOp FunctionRes) ∈ outerOf (p.log.of i)) :
    (calls i).Situated (outerOf (p.log.of i)) scope groups := by
  have hrecords := (Pool.Reachable.after hreach rfl i).outside
    (P := fun h => ∀ op r, (⟨op, r⟩ : Event FunctionOp FunctionRes) ∈ h →
      (calls i).RecordsSituated h op) (by simp) ?_
    (runOptimized_situated (calls i))
  · exact hrecords _ r hmem _ _ _ _ _ rfl
  intro h op r hbefore hallowed op' r' hmem' scope inputRows nullRows
    validRows groups hop
  refine FunctionCall.Situated.mono ?_ (List.subset_cons_self _ _)
  rcases List.mem_cons.mp hmem' with heq | hmem'
  · cases heq
    exact hallowed _ _ _ _ _ hop
  · exact hbefore op' r' hmem' _ _ _ _ _ hop

/-- The worker behind a call asks for well-formed requests at one venue. -/
theorem FunctionPool.formedAt {W : WireText}
    (hformed : ∀ i row request, (calls i).read row = .ok (some request) →
      WellFormed W request)
    (hreach : FunctionPool.Reach host (FunctionPool.start s₀ calls) p) (i : ι) :
    ∃ venue, (innerCall calls p.log i).FormedAt W venue := by
  cases hbegun : (calls i).begunCall (outerOf (p.log.of i)) with
  | none =>
      refine ⟨aliasContext.venue, ?_⟩
      rw [innerCall, hbegun]
      exact fun group hgroup => by cases hgroup
  | some inner =>
      obtain ⟨context, work, nullRows, hcollected, hgroups⟩ :=
        FunctionPool.begun_groups hreach hbegun
      refine ⟨context.venue, ?_⟩
      rw [innerCall, hbegun, Option.getD_some]
      intro group hgroup
      rw [hgroups] at hgroup
      obtain ⟨grouping, hgrouping, hsound⟩ := groupByIdentity_sound work
      obtain ⟨item, hitem, -, hrequest⟩ :=
        hsound.source group (hgrouping.symm ▸ hgroup)
      refine ⟨?_, context, rfl, hcollected.situated hgroup⟩
      rw [← hrequest]
      exact hformed i _ _ (hcollected.items item hitem).1

end Pools

/-! ## The result -/

/-- The cell of a row, if its judgment has its value. -/
def FunctionKind.cellOf (kind : FunctionKind) (f : Judge) :
    Option JudgmentRequest → Option OutputValue
  | none => none
  | some request => kind.value (f.of request)

/-- Every row is read, and has been written once, with the value of its own
judgment at the venue which the call has entered. -/
def FunctionCall.Computes (call : FunctionCall) (judges : Venue → Judge)
    (h : FunctionHistory) : Prop :=
  ∃ queryScope credentialScope,
    (⟨.enterQuery call.state.context.credential,
      .ok (queryScope, credentialScope)⟩ : Event FunctionOp FunctionRes) ∈
        outerOf h ∧
    ∀ row < call.rowCount, ∃ read, call.read row = .ok read ∧
      writtenTo row (outerOf h) = [call.kind.cellOf (judges
        (call.identityContext queryScope credentialScope).venue) read]

omit [DecidableEq ι] in
/-- What is read is well-formed and of the kind of the function. -/
theorem formed_of_readRequest {W : WireText} {calls : ι → FunctionCall}
    {rows : ι → ℕ → InputRow}
    (hread : ∀ i row, (calls i).read row =
      readRequest W (calls i).kind (rows i row)) (i : ι) (row : ℕ)
    (request : JudgmentRequest)
    (hrequest : (calls i).read row = .ok (some request)) :
    WellFormed W request ∧ request.kind = (calls i).kind.questionKind := by
  rw [hread] at hrequest
  exact readRequest_wellFormed hrequest

section Truth

variable {W : WireText} {s₀ : Surroundings} {calls : ι → FunctionCall}
  {p : FunctionPool ι}

/-- Each result has the value of the judgment of its own row. -/
theorem FunctionPool.executed_truth {judges : Venue → Judge}
    (hcache : CacheRight W judges s₀.connection)
    (hentries : s₀.connection.queryEntries = ∅)
    (hformed : ∀ i row request, (calls i).read row = .ok (some request) →
      WellFormed W request)
    (hreach : FunctionPool.Reach HostStep (FunctionPool.start s₀ calls) p)
    (htruthful : ∀ i, ∀ d ∈ dispatches (innerOf (p.log.of i)),
      d.TruthfulTo judges) {i : ι} {context : JudgmentIdentityContext}
    {work : List JudgmentWork} {nullRows scope credentialScope : ℕ}
    {executed : List (RowTarget × JudgmentResult)}
    (hcollected : (calls i).Collected context work nullRows
      (List.range (calls i).rowCount))
    (hsituated : ∀ group ∈ groupByIdentity work, group.identity =
      .new group.request ((calls i).identityContext scope credentialScope))
    (hexecuted : (calls i).Executed (groupByIdentity work) executed
      (p.log.of i)) :
    ∀ pair ∈ executed, ∃ item ∈ work, item.target = pair.1 ∧
      (ValidFor item.request pair.2 ∧
        pair.2 = (judges ((calls i).identityContext scope
          credentialScope).venue).of item.request) := by
  have hquiet : ∀ c c', QuietStep c c' → HostStep c c' :=
    fun _ _ h => .query (.quiet h)
  choose venues hvenues using FunctionPool.formedAt hformed hreach
  obtain ⟨⟨thread, -, hinner⟩, -, -⟩ := FunctionPool.inner hquiet hreach
  obtain ⟨-, hanswered⟩ := FunctionPool.executed_groups hquiet
    (fun _ _ h => h.slots.1) hreach hexecuted
  intro pair hpair
  obtain ⟨group, hgroup, htarget, hmine, hknown⟩ := hanswered pair hpair
  obtain ⟨item, hitem, hitemTarget, hidentity⟩ :=
    mem_targets_groupByIdentity hgroup htarget
  have hvenue : venues i =
      ((calls i).identityContext scope credentialScope).venue := by
    rw [← (hvenues i).venue_eq hmine, hsituated group hgroup, venue_new]
  -- the group has the value, and the item the same judgment as the group
  have hright : ValidFor group.request pair.2 ∧
      pair.2 = (judges (venues i)).of group.request := by
    refine Workers.answered_right hcache hentries hvenues hinner
      (fun j d hd => htruthful j d ?_) hmine ?_
    · rwa [Log.inner_of] at hd
    · rwa [Log.inner_of]
  obtain ⟨hread, hitemIdentity⟩ := hcollected.items item hitem
  refine ⟨item, hitem, hitemTarget, ?_, ?_⟩
  · have hsame := hidentity
    rw [hitemIdentity, hsituated group hgroup] at hsame
    exact hright.1.of_identity hsame.symm
  · rw [hright.2, hvenue]
    exact Judge.of_eq_of_identity _ (a := group)
      (b := ⟨item.identity, item.request, []⟩) ((hvenues i) group hmine).1
      (hformed i _ _ hread) ⟨_, hsituated group hgroup⟩ ⟨_, hitemIdentity⟩
      hidentity.symm

/-- The cells of a call which has ended well are those of its own rows. -/
theorem FunctionPool.computed {judges : Venue → Judge}
    (hcache : CacheRight W judges s₀.connection)
    (hentries : s₀.connection.queryEntries = ∅)
    (hformed : ∀ i row request, (calls i).read row = .ok (some request) →
      WellFormed W request ∧ request.kind = (calls i).kind.questionKind)
    (hreach : FunctionPool.Reach HostStep (FunctionPool.start s₀ calls) p)
    (htruthful : ∀ i, ∀ d ∈ dispatches (innerOf (p.log.of i)),
      d.TruthfulTo judges) {i : ι} (hreturned : p.thread i = .ret (.ok ())) :
    ∃ queryScope credentialScope,
      (⟨.enterQuery (calls i).state.context.credential,
        .ok (queryScope, credentialScope)⟩ : Event FunctionOp FunctionRes) ∈
          outerOf (p.log.of i) ∧
      ∀ row < (calls i).rowCount, ∃ read, (calls i).read row = .ok read ∧
        writtenTo row (outerOf (p.log.of i)) = [(calls i).kind.cellOf (judges
          ((calls i).identityContext queryScope credentialScope).venue)
            read] := by
  have hquiet : ∀ c c', QuietStep c c' → HostStep c c' :=
    fun _ _ h => .query (.quiet h)
  obtain ⟨-, -, hfollows⟩ := FunctionPool.inner hquiet hreach
  have hpost := hfollows i
  rw [hreturned] at hpost
  obtain ⟨context, invocation, chunk, work, nullRows, executed, scope,
    hcollect, hrecords, hexecuted, hwritten⟩ := hpost
  have hcollected := FunctionCall.collected hcollect
  -- the record of the work tells the venue
  have hrecord : FunctionCall.workRecord scope nullRows work ∈
      records (outerOf (p.log.of i)) := by
    rw [hrecords]
    exact List.mem_cons_self ..
  obtain ⟨⟨r, hmem⟩, -⟩ := mem_records.mp hrecord
  obtain ⟨credentialScope, hentered, hsituated⟩ :=
    FunctionPool.situated hreach i hmem
  refine ⟨scope, credentialScope, hentered, fun row hrow => ?_⟩
  obtain ⟨htargets, -⟩ := FunctionPool.executed_groups hquiet
    (fun _ _ h => h.slots.1) hreach hexecuted
  have hvalues := FunctionPool.executed_truth hcache hentries
    (fun i row request hrequest => (hformed i row request hrequest).1) hreach
    htruthful hcollected hsituated hexecuted
  obtain ⟨result, hplaced, hcells⟩ := hwritten row hrow
  rcases placed_of_executed (Q := fun request result =>
      ValidFor request result ∧ result = (judges ((calls i).identityContext
        scope credentialScope).venue).of request) hcollected
    (htargets.trans (targets_groupByIdentity work)) hvalues hrow hplaced with
    ⟨hnull, rfl⟩ | ⟨request, found, hrequest, rfl, hfound, rfl⟩
  · exact ⟨none, hnull, hcells⟩
  · refine ⟨some request, hrequest, ?_⟩
    obtain ⟨value, hvalue, -⟩ :=
      FunctionKind.ownValue (hformed i row request hrequest).2 hfound
    rw [hcells, FunctionKind.cells, FunctionKind.cellOf, hvalue]
    rfl

end Truth

/-- Over all queries of a connection and under any schedule: if whatever the
providers say is the value of the judgment at its venue, then a function which
ends well has computed each row from this row alone. -/
theorem output_pointwise {W : WireText} {s₀ : Surroundings}
    (hempty : s₀.connection.cache.entries = ∅)
    (hentries : s₀.connection.queryEntries = ∅) {calls : ι → FunctionCall}
    {rows : ι → ℕ → InputRow}
    (hread : ∀ i row, (calls i).read row =
      readRequest W (calls i).kind (rows i row))
    {p : FunctionPool ι}
    (hreach : FunctionPool.Reach HostStep (FunctionPool.start s₀ calls) p)
    (judges : Venue → Judge)
    (htruthful : ∀ i, ∀ d ∈ dispatches (innerOf (p.log.of i)),
      d.TruthfulTo judges)
    (i : ι) (hreturned : p.thread i = .ret (.ok ())) :
    (calls i).Computes judges (p.log.of i) :=
  FunctionPool.computed (.of_empty hempty) hentries
    (formed_of_readRequest hread) hreach htruthful hreturned

/-- A request of a call alone is answered by its environment. -/
theorem Environment.around_judge {env : Environment} {P : Dispatch → Prop}
    (hresponse : ∀ t method carried requests,
      P ⟨carried, requests, env.judge t method requests⟩)
    {s s' : Surroundings × ℕ} {method : ProviderCall} {d : Dispatch}
    (hhandle : env.around s (.inl (.judge method d.carried d.requests)) =
      some (d.response, s')) : P d := by
  obtain ⟨connection, t⟩ := s
  obtain ⟨hanswer, -⟩ := Prod.mk.inj (Option.some.inj hhandle)
  obtain ⟨carried, requests, response⟩ := d
  obtain rfl : env.judge t method requests = response := hanswer
  exact hresponse t method carried requests

/-- What a call alone is told, its environment says. -/
theorem Environment.dispatched {env : Environment} {P : Dispatch → Prop}
    (hresponse : ∀ t method carried requests,
      P ⟨carried, requests, env.judge t method requests⟩)
    {α : Type} {program : FunctionRun α} {s s' : Surroundings × ℕ} {a : α}
    {h : FunctionHistory}
    (hrun : program.run env.around s = some (a, s', h)) :
    ∀ d ∈ dispatches (innerOf h), P d := by
  intro d hd
  obtain ⟨method, hmem⟩ := mem_dispatches.mp hd
  obtain ⟨before, after, hhandle⟩ :=
    Prog.run_handled hrun _ (mem_innerOf.mp hmem)
  exact env.around_judge hresponse hhandle

/-- Every judgment has the value one half. -/
def halfJudge : Venue → Judge := fun _ => ⟨fun _ _ _ _ _ => .noul .half⟩

theorem halfEnvironment_truthful (t : ℕ) (method : ProviderCall)
    (carried : List JudgmentIdentity) (requests : List JudgmentRequest) :
    (⟨carried, requests, halfEnvironment.judge t method requests⟩ :
      Dispatch).TruthfulTo halfJudge := by
  rintro response hresponse asked - answer hanswer -
  obtain rfl := Except.ok.inj hresponse
  obtain ⟨request, -, rfl⟩ := List.mem_map.mp hanswer
  rfl

/-- The rows behind the call about two texts. -/
def textsRows (row : ℕ) : InputRow where
  state := ([some "a", none, some "b"].getD row none).map .varchar
  text := some "the text is a complaint"
  choices := none

theorem textsCall_read (row : ℕ) :
    textsCall.read row =
      readRequest literalText textsCall.kind (textsRows row) := by
  unfold textsCall textsRows
  dsimp only
  cases [some "a", none, some "b"].getD row none with
  | none => rfl
  | some text => rfl

theorem output_pointwise_texts :
    ∃ p : FunctionPool Unit, p.thread () = .ret (.ok ()) ∧
      textsCall.Computes halfJudge (p.log.of ()) := by
  have hrun : ((runOptimized textsCall).run.run halfEnvironment.around
      (firstSurroundings, 0)).map Prod.fst = some (.ok ()) := by decide
  obtain ⟨⟨answer, s', h⟩, hrun, rfl⟩ := Option.map_eq_some_iff.mp hrun
  obtain ⟨p, hreach, -, hreturned, rfl⟩ :=
    FunctionPool.run_alone HostStep halfEnvironment hrun
  exact ⟨p, hreturned, output_pointwise rfl rfl (fun _ => textsCall_read) hreach
    halfJudge (fun _ => Environment.dispatched halfEnvironment_truthful hrun) ()
    hreturned⟩

end DuckJeu
