import DuckJeu.Functions.Optimized

/-!
# What a call of an optimized function may do

A call records its rows, first all of them and then those it has collected.
The second record tells which groups the executor is called with, and from
then on the call does what the executor does.  It writes its output at the
end, when the executor has returned with all results.
-/

namespace DuckJeu

open Effects

/-- What a call has done outside the executor, the newest event first. -/
abbrev OuterHistory := List (Event FunctionOp FunctionRes)

abbrev FunctionHistory := List (SumEvent Res FunctionRes)

/-! ## Cells of the output -/

/-- The cell which an event writes in a row, where NULL is `none`. -/
def written? (row : ℕ) :
    Event FunctionOp FunctionRes → Option (Option OutputValue)
  | ⟨.writeValue other value, _⟩ =>
      if other = row then some (some value) else none
  | ⟨.setOutputNull other, _⟩ => if other = row then some none else none
  | _ => none

/-- All that was written in a row, the newest first. -/
def writtenTo (row : ℕ) (h : OuterHistory) : List (Option OutputValue) :=
  h.filterMap (written? row)

theorem writtenTo_append (row : ℕ) (newer older : OuterHistory) :
    writtenTo row (newer ++ older) =
      writtenTo row newer ++ writtenTo row older := by
  rw [writtenTo, List.filterMap_append, writtenTo, writtenTo]

/-- What the loop over the output writes for a result. -/
def FunctionKind.cells (kind : FunctionKind) :
    Option JudgmentResult → List (Option OutputValue)
  | none => [none]
  | some result => (kind.value result).toList.map some

/-! ## Records of rows -/

def FunctionOp.IsRecord : FunctionOp → Bool
  | .recordOptimizedRows _ _ _ _ _ => true
  | _ => false

/-- The records of rows, the newest first. -/
def records (h : OuterHistory) : List FunctionOp :=
  (h.map Sigma.fst).filter FunctionOp.IsRecord

theorem records_append (newer older : OuterHistory) :
    records (newer ++ older) = records newer ++ records older := by
  rw [records, List.map_append, List.filter_append, records, records]

theorem mem_records {h : OuterHistory} {op : FunctionOp} :
    op ∈ records h ↔ (∃ r, (⟨op, r⟩ : Event FunctionOp FunctionRes) ∈ h) ∧
      op.IsRecord = true := by
  simp [records]

/-! ## The script -/

/-- The query and the groups for the executor, if an event tells them. -/
def recorded? :
    Event FunctionOp FunctionRes → Option (ℕ × List JudgmentGroup)
  | ⟨.recordOptimizedRows scope _ _ _ (group :: groups), _⟩ =>
      some (scope, group :: groups)
  | _ => none

namespace FunctionCall

variable (call : FunctionCall)

/-- The call of the executor which has begun. -/
def begunCall (h : OuterHistory) : Option Call :=
  (h.reverse.findSome? recorded?).bind fun recorded =>
    match call.state.runtimeConfig, call.state.provider with
    | .ok config, .ok provider =>
        some (call.executorCall config provider recorded.1 recorded.2)
    | _, _ => none

def begun (h : OuterHistory) : Option (Run Answer) :=
  (call.begunCall h).map Call.program

/-- The call has entered the query. -/
def Entered (h : OuterHistory) (scope : ℕ) : Prop :=
  ∃ credential credentialScope,
    (⟨.enterQuery credential, .ok (scope, credentialScope)⟩ :
      Event FunctionOp FunctionRes) ∈ h

/-- The record of all rows of a call. -/
def inputRecord (scope : ℕ) : FunctionOp :=
  .recordOptimizedRows scope call.rowCount 0 0 []

/-- The record of the rows which were collected. -/
def workRecord (scope nullRows : ℕ) (work : List JudgmentWork) : FunctionOp :=
  .recordOptimizedRows scope 0 nullRows work.length (groupByIdentity work)

/-- The rows which a call may record: all of them when it has entered a query,
and then those which it has collected. -/
inductive Counted (h : OuterHistory) : FunctionOp → Prop where
  | input {scope : ℕ} (hentered : Entered h scope) (hfirst : records h = []) :
      Counted h (call.inputRecord scope)
  | collected {scope nullRows invocation chunk : ℕ}
      {context : JudgmentIdentityContext} {work : List JudgmentWork}
      (hinput : records h = [call.inputRecord scope])
      (hcollect : call.collect context invocation chunk [] 0
        (List.range call.rowCount) = .ok (work, nullRows)) :
      Counted h (workRecord scope nullRows work)

/-- What a call may do outside the executor. -/
def AllowedOutside (h : OuterHistory) (op : FunctionOp) : Prop :=
  op.IsRecord = true → call.Counted h op

abbrev script :
    Protocol (Op ⊕ FunctionOp) (SumRes Res FunctionRes) FunctionHistory :=
  Protocol.scripted call.begun call.AllowedOutside

/-- The call has executed these groups with these results. -/
def Executed (groups : List JudgmentGroup)
    (executed : List (RowTarget × JudgmentResult)) (h : FunctionHistory) :
    Prop :=
  (groups = [] ∧ executed = []) ∨
    ∃ inner, call.begunCall (outerOf h) = some inner ∧
      inner.groups = groups ∧
      inner.program.After (innerOf h) (.ret (.ok executed))

/-- How a call leaves its history when it returns. -/
def Post : Except JudgmentError Unit → FunctionHistory → Prop
  | .error _, h => ∀ row, writtenTo row (outerOf h) = []
  | .ok (), h => ∃ context invocation chunk work nullRows executed scope,
      call.collect context invocation chunk [] 0 (List.range call.rowCount) =
        .ok (work, nullRows) ∧
      records (outerOf h) =
        [workRecord scope nullRows work, call.inputRecord scope] ∧
      call.Executed (groupByIdentity work) executed h ∧
      ∀ row < call.rowCount, ∃ result,
        (placeResults (List.replicate call.rowCount none) executed)[row]? =
          some result ∧
        writtenTo row (outerOf h) = call.kind.cells result

section Begun

variable {call : FunctionCall} {h : OuterHistory}

theorem allowedOutside_unrecorded {op : FunctionOp}
    (hop : op.IsRecord = false) : call.AllowedOutside h op := by
  intro hrecord
  rw [hop] at hrecord
  cases hrecord

/-- What has begun goes on. -/
theorem begunCall_append {inner : Call} (newer : OuterHistory)
    (hbegun : call.begunCall h = some inner) :
    call.begunCall (newer ++ h) = some inner := by
  unfold begunCall at hbegun ⊢
  obtain ⟨recorded, hrecorded, hinner⟩ := Option.bind_eq_some_iff.mp hbegun
  rw [List.reverse_append, List.findSome?_append, hrecorded]
  exact hinner

theorem begun_cons (event : Event FunctionOp FunctionRes) (older : OuterHistory)
    (p : Run Answer) (hbegun : call.begun older = some p) :
    call.begun (event :: older) = some p := by
  unfold begun at hbegun ⊢
  obtain ⟨inner, hinner, rfl⟩ := Option.map_eq_some_iff.mp hbegun
  rw [← List.singleton_append, begunCall_append [event] hinner]
  rfl

/-- What a call has recorded at any moment. -/
inductive Recorded (call : FunctionCall) (h : OuterHistory) :
    List FunctionOp → Prop where
  | none : Recorded call h []
  | input {scope : ℕ} (hentered : Entered h scope) :
      Recorded call h [call.inputRecord scope]
  | collected {scope nullRows invocation chunk : ℕ}
      {context : JudgmentIdentityContext} {work : List JudgmentWork}
      (hentered : Entered h scope)
      (hcollect : call.collect context invocation chunk [] 0
        (List.range call.rowCount) = .ok (work, nullRows)) :
      Recorded call h [workRecord scope nullRows work, call.inputRecord scope]

theorem Entered.cons {scope : ℕ} (hentered : Entered h scope)
    (event : Event FunctionOp FunctionRes) : Entered (event :: h) scope := by
  obtain ⟨credential, credentialScope, hmem⟩ := hentered
  exact ⟨credential, credentialScope, List.mem_cons_of_mem _ hmem⟩

/-- Whoever has recorded its rows has entered the query. -/
theorem Recorded.entered {scope : ℕ}
    (hrecorded : call.Recorded h [call.inputRecord scope]) :
    Entered h scope := by
  generalize hmade : [call.inputRecord scope] = made at hrecorded
  cases hrecorded with
  | none => cases hmade
  | input hentered =>
      obtain ⟨hsame, -⟩ := List.cons.inj hmade
      obtain ⟨rfl, -⟩ := FunctionOp.recordOptimizedRows.inj hsame
      exact hentered
  | collected hentered hcollect => cases (List.cons.inj hmade).2

/-- The records are kept by what is allowed. -/
theorem Recorded.cons (hrecorded : call.Recorded h (records h))
    {op : FunctionOp} (r : FunctionRes op)
    (hallowed : call.AllowedOutside h op) :
    call.Recorded (⟨op, r⟩ :: h) (records (⟨op, r⟩ :: h)) := by
  cases hop : op.IsRecord with
  | false =>
      have hsame : records (⟨op, r⟩ :: h) = records h := by
        simp [records, hop]
      rw [hsame]
      generalize records h = made at hrecorded ⊢
      cases hrecorded with
      | none => exact .none
      | input hentered => exact .input (hentered.cons _)
      | collected hentered hcollect =>
          exact .collected (hentered.cons _) hcollect
  | true =>
      have hmore : records (⟨op, r⟩ :: h) = op :: records h := by
        simp [records, hop]
      rw [hmore]
      cases hallowed hop with
      | input hentered hfirst =>
          rw [hfirst]
          exact .input (hentered.cons _)
      | collected hinput hcollect =>
          rw [hinput] at hrecorded ⊢
          exact .collected (hrecorded.entered.cons _) hcollect

/-- The groups of what has begun were recorded. -/
theorem begunCall_recorded {inner : Call}
    (hbegun : call.begunCall h = some inner) :
    ∃ scope inputRows nullRows validRows,
      (⟨.recordOptimizedRows scope inputRows nullRows validRows inner.groups,
        ()⟩ : Event FunctionOp FunctionRes) ∈ h ∧
      inner.groups ≠ [] ∧ inner.limits.queryScope = scope := by
  unfold begunCall at hbegun
  obtain ⟨recorded, hrecorded, hinner⟩ := Option.bind_eq_some_iff.mp hbegun
  obtain ⟨event, hmem, hevent⟩ := List.exists_of_findSome?_eq_some hrecorded
  have hcall : ∃ config provider, inner =
      call.executorCall config provider recorded.1 recorded.2 := by
    split at hinner
    · exact ⟨_, _, (Option.some.inj hinner).symm⟩
    · cases hinner
  obtain ⟨config, provider, rfl⟩ := hcall
  obtain ⟨op, r⟩ := event
  cases op with
  | recordOptimizedRows scope inputRows nullRows validRows groups =>
      cases groups with
      | nil => cases hevent
      | cons group groups =>
          obtain rfl := Option.some.inj hevent
          exact ⟨scope, inputRows, nullRows, validRows,
            List.mem_reverse.mp hmem, by simp [executorCall], rfl⟩
  | _ => cases hevent

end Begun

end FunctionCall

/-! ## Calls follow their scripts -/

section Follows

variable {call : FunctionCall}

/-- The loop over the output writes the cells of its rows. -/
theorem writeRows_follows (kind : FunctionKind) (first : ℕ)
    (results : List (Option JudgmentResult)) (h : FunctionHistory) :
    Follows call.script (writeRows kind first results)
      (fun _ h' => innerOf h' = innerOf h ∧
        ∃ newer, outerOf h' = newer ++ outerOf h ∧ records newer = [] ∧
          (∀ k, writtenTo (first + k) newer =
            (results[k]?.map kind.cells).getD []) ∧
          ∀ row < first, writtenTo row newer = []) h := by
  induction results generalizing first h with
  | nil => exact ⟨rfl, [], rfl, rfl, fun _ => rfl, fun _ _ => rfl⟩
  | cons result rest ih =>
      -- the events of the first row, if any, and then those of the rest
      have hrest : ∀ (h' : FunctionHistory) (events : OuterHistory),
          innerOf h' = innerOf h → outerOf h' = events ++ outerOf h →
          records events = [] → writtenTo first events = kind.cells result →
          (∀ row, row ≠ first → writtenTo row events = []) →
          Follows call.script (writeRows kind (first + 1) rest)
            (fun _ h' => innerOf h' = innerOf h ∧
              ∃ newer, outerOf h' = newer ++ outerOf h ∧ records newer = [] ∧
                (∀ k, writtenTo (first + k) newer =
                  ((result :: rest)[k]?.map kind.cells).getD []) ∧
                ∀ row < first, writtenTo row newer = []) h' := by
        intro h' events hinner houter hrecords hcells hother
        refine (ih (first + 1) h').mono ?_
        rintro _ h'' ⟨hinner', newer, houter', hrecords', hnewer, hbefore⟩
        refine ⟨hinner'.trans hinner, newer ++ events, ?_, ?_, ?_, ?_⟩
        · rw [houter', houter, List.append_assoc]
        · rw [records_append, hrecords', hrecords]
          rfl
        · intro k
          rw [writtenTo_append]
          cases k with
          | zero =>
              rw [hbefore (first + 0) (by omega), Nat.add_zero, hcells]
              simp
          | succ k =>
              rw [hother (first + (k + 1)) (by omega), List.append_nil,
                ← Nat.add_assoc, Nat.add_right_comm, hnewer]
              simp
        · intro row hrow
          rw [writtenTo_append, hbefore row (by omega),
            hother row (by omega)]
          rfl
      unfold writeRows
      cases result with
      | none =>
          refine ⟨FunctionCall.allowedOutside_unrecorded rfl, fun r _ => ?_⟩
          refine hrest _ [⟨.setOutputNull first, r⟩] rfl rfl rfl ?_ ?_
          · simp [writtenTo, written?, FunctionKind.cells]
          · intro row hrow
            simp [writtenTo, written?, Ne.symm hrow]
      | some result =>
          simp only [writeResult, follows_bind]
          cases hvalue : kind.value result with
          | none =>
              refine hrest h [] rfl rfl rfl ?_ fun _ _ => rfl
              simp [writtenTo, FunctionKind.cells, hvalue]
          | some value =>
              refine ⟨FunctionCall.allowedOutside_unrecorded rfl, fun r _ => ?_⟩
              refine hrest _ [⟨.writeValue first value, r⟩] rfl rfl rfl ?_ ?_
              · simp [writtenTo, written?, FunctionKind.cells, hvalue]
              · intro row hrow
                simp [writtenTo, written?, Ne.symm hrow]

/-- The groups are executed by the call which their record has begun. -/
theorem execute_secures {config : RuntimeConfig} {queryScope : ℕ}
    {groups : List JudgmentGroup} {h : FunctionHistory}
    {record : Event FunctionOp FunctionRes} {inputRows nullRows validRows : ℕ}
    (hconfig : call.state.runtimeConfig = .ok config)
    (hrecord : record = ⟨.recordOptimizedRows queryScope inputRows nullRows
      validRows groups, ()⟩)
    (hnone : (outerOf h).reverse.findSome? recorded? = none)
    (hinner : innerOf h = []) :
    Secures call.script (call.execute config queryScope groups)
      (fun executed h' => call.Executed groups executed h' ∧
        outerOf h' = record :: outerOf h)
      (fun _ h' => outerOf h' = record :: outerOf h)
      (⟨.inr record.1, record.2⟩ :: h) := by
  subst hrecord
  unfold FunctionCall.execute
  by_cases hempty : groups = []
  · subst hempty
    rw [List.isEmpty_nil, if_pos rfl, secures_pure]
    exact ⟨Or.inl ⟨rfl, rfl⟩, rfl⟩
  rw [List.isEmpty_eq_false_iff.mpr hempty, if_neg Bool.false_ne_true]
  cases hprovider : call.state.provider with
  | error message => rfl
  | ok provider =>
      obtain ⟨group, rest, rfl⟩ := List.exists_cons_of_ne_nil hempty
      have hcall : call.begunCall (⟨.recordOptimizedRows queryScope inputRows
          nullRows validRows (group :: rest), ()⟩ :: outerOf h) =
          some (call.executorCall config provider queryScope
            (group :: rest)) := by
        rw [FunctionCall.begunCall, List.reverse_cons, List.findSome?_append,
          hnone]
        simp [recorded?, hconfig, hprovider]
      dsimp only
      rw [secures_mk]
      have hbegun : call.begun (outerOf (⟨.inr (.recordOptimizedRows queryScope
          inputRows nullRows validRows (group :: rest)), ()⟩ :: h)) =
          some (call.executorCall config provider queryScope
            (group :: rest)).program := by
        rw [outerOf_inr, FunctionCall.begun, hcall]
        rfl
      refine (follows_embed _ hbegun ?_).mono ?_
      · rw [innerOf_inr, hinner]
        rfl
      · rintro (error | executed) h' ⟨hafter, houter⟩
        · exact houter
        · refine ⟨Or.inr ⟨_, ?_, rfl, hafter⟩, houter⟩
          rw [houter, outerOf_inr, hcall]

/-- A call follows its script. -/
theorem runOptimized_follows (call : FunctionCall) :
    Follows call.script (runOptimized call).run call.Post [] := by
  suffices h : Secures call.script (runOptimized call)
      (fun a => call.Post (.ok a)) (fun e => call.Post (.error e)) [] by
    refine Follows.mono h ?_
    rintro (error | _) _ hpost
    · exact hpost
    · exact hpost
  unfold runOptimized
  cases hconfig : call.state.runtimeConfig with
  | error message => exact fun _ => rfl
  | ok config =>
      dsimp only
      split
      · exact fun _ => rfl
      split
      · exact fun _ => rfl
      rw [secures_bind, secures_mk, follows_perform]
      refine ⟨FunctionCall.allowedOutside_unrecorded rfl, ?_⟩
      rintro (error | ⟨queryScope, credentialScope⟩) -
      · exact fun _ => rfl
      dsimp only
      rw [secures_bind, secures_lift, follows_perform]
      have hentered : FunctionCall.Entered
          [⟨.enterQuery call.state.context.credential,
            .ok (queryScope, credentialScope)⟩] queryScope :=
        ⟨_, credentialScope, List.mem_cons_self ..⟩
      refine ⟨fun _ => .input hentered rfl, fun _ _ => ?_⟩
      rw [secures_bind, secures_lift, follows_perform]
      refine ⟨FunctionCall.allowedOutside_unrecorded rfl,
        fun invocation _ => ?_⟩
      rw [secures_bind, secures_lift, follows_perform]
      refine ⟨FunctionCall.allowedOutside_unrecorded rfl, fun chunk _ => ?_⟩
      split
      · exact fun _ => rfl
      rename_i work nullRows hcollect
      rw [secures_bind, secures_lift, follows_perform]
      refine ⟨fun _ => .collected rfl hcollect, fun _ _ => ?_⟩
      rw [secures_bind]
      refine (execute_secures hconfig rfl rfl rfl).mono ?_ ?_
      · rintro executed h ⟨hexecuted, houter⟩
        rw [secures_lift]
        refine (writeRows_follows call.kind 0 _ h).mono ?_
        rintro _ h' ⟨hinner, newer, houter', hrecords, hnewer, -⟩
        refine ⟨_, _, _, work, nullRows, executed, queryScope, hcollect, ?_, ?_,
          ?_⟩
        · rw [houter', records_append, hrecords, houter]
          rfl
        · rcases hexecuted with hnone | ⟨inner, hcall, hgroups, hafter⟩
          · exact Or.inl hnone
          · refine Or.inr ⟨inner, ?_, hgroups, hinner ▸ hafter⟩
            rw [houter']
            exact FunctionCall.begunCall_append newer hcall
        · intro row hrow
          have hlt : row < (placeResults (List.replicate call.rowCount none)
              executed).length := by
            rwa [length_placeResults, List.length_replicate]
          have hbefore : writtenTo row (outerOf h) = [] := by
            rw [houter]
            rfl
          have hcells := hnewer row
          rw [Nat.zero_add, List.getElem?_eq_getElem hlt] at hcells
          refine ⟨_, List.getElem?_eq_getElem hlt, ?_⟩
          rw [houter', writtenTo_append, hbefore, List.append_nil]
          exact hcells
      · intro _ h houter row
        rw [houter]
        rfl

end Follows

end DuckJeu
