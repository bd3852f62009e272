import DuckJeu.Effects.Extension
import DuckJeu.Executor.Execute
import DuckJeu.Functions.Row

/-!
# The optimized functions

This module follows `run_optimized`, which evaluates a chunk of rows at once:
it reads all rows, executes their groups, and only then writes the output.

What `read_request` returns for each row is part of the call.  The operations
outside the executor touch the connection, two counters of the process, and
the output vector.  The operation which records rows takes the groups, of
which the source passes on the number.
-/

namespace DuckJeu

open Effects

/-! ## Values -/

/-- `bool_from_probability`. -/
def boolFromProbability (probability : F64) : Bool := F64.le .half probability

/-- A value in an output vector. -/
inductive OutputValue where
  | double (probability : F64)
  | boolean (b : Bool)
  | varchar (label : String)
  deriving DecidableEq

/-- What `write_result` writes, if it writes anything. -/
def FunctionKind.value (kind : FunctionKind) (result : JudgmentResult) :
    Option OutputValue :=
  match kind, result with
  | .prob, .noul probability => some (.double probability)
  | .bool, .noul probability =>
      some (.boolean (boolFromProbability probability))
  | .choice, .choice label => some (.varchar label)
  | _, _ => none

/-! ## Operations -/

inductive FunctionOp where
  | enterQuery (credential : Option String)
  | recordOptimizedRows (scope inputRows nullRows validRows : ℕ)
      (groups : List JudgmentGroup)
  | nextFunctionInvocation
  | nextDataChunk
  | writeValue (row : ℕ) (value : OutputValue)
  | setOutputNull (row : ℕ)

abbrev FunctionRes : FunctionOp → Type
  | .enterQuery _ => Except JudgmentError (ℕ × ℕ)
  | .recordOptimizedRows _ _ _ _ _ => Unit
  | .nextFunctionInvocation => ℕ
  | .nextDataChunk => ℕ
  | .writeValue _ _ => Unit
  | .setOutputNull _ => Unit

/-- A connection and the process around it.  `hash` is the hasher of the
connection. -/
structure Surroundings where
  connection : ConnectionRuntime
  hash : String → UInt64
  nextScope : ℕ
  nextInvocation : ℕ
  nextChunk : ℕ

namespace Surroundings

variable (s : Surroundings)

/-- The scope of the query and that of the credential, under one lock. -/
def enterQuery (credential : Option String) :
    Except JudgmentError (ℕ × ℕ) × Surroundings :=
  let queryScope := s.connection.identityScopes.2
  let (credentialScope, connection, nextScope) :=
    s.connection.credentialScopeFor s.hash s.nextScope queryScope credential
  (credentialScope.map fun credentialScope => (queryScope, credentialScope),
    { s with
      connection := connection
      nextScope := nextScope })

/-- What an operation outside the executor does.  The output vector belongs to
the caller, and is told by the history. -/
def perform : (op : FunctionOp) → FunctionRes op × Surroundings
  | .enterQuery credential => s.enterQuery credential
  | .recordOptimizedRows scope inputRows nullRows validRows groups =>
      ((), { s with
        connection := s.connection.recordOptimizedRows scope inputRows nullRows
          validRows groups.length })
  | .nextFunctionInvocation =>
      (s.nextInvocation,
        { s with nextInvocation := (s.nextInvocation + 1) % 2 ^ 64 })
  | .nextDataChunk =>
      (s.nextChunk, { s with nextChunk := (s.nextChunk + 1) % 2 ^ 64 })
  | .writeValue _ _ => ((), s)
  | .setOutputNull _ => ((), s)

end Surroundings

/-- What an operation does to the connection and the process. -/
def functionStep (s : Surroundings) :
    (op : Op ⊕ FunctionOp) → SumRes Res FunctionRes op → Surroundings → Prop
  | .inl op, r, s' => ∃ c, step s.connection op r c ∧
      s' = { s with connection := c }
  | .inr op, r, s' => s.perform op = (r, s')

/-- A program of a function which raises no errors. -/
abbrev FunctionRun (α : Type) :=
  Prog (Op ⊕ FunctionOp) (SumRes Res FunctionRes) α

/-- A program of a function. -/
abbrev FunctionExec (α : Type) :=
  ExceptT JudgmentError (Prog (Op ⊕ FunctionOp) (SumRes Res FunctionRes)) α

/-- Perform one operation outside the executor. -/
abbrev FunctionOp.invoke (op : FunctionOp) : FunctionRun (FunctionRes op) :=
  Prog.perform (Sum.inr op)

abbrev FunctionOp.perform (op : FunctionOp) : FunctionExec (FunctionRes op) :=
  ExceptT.lift op.invoke

/-! ## Rows -/

structure ProviderContext where
  provider : String
  apiUrl : String
  model : String
  credential : Option String

/-- The state of one execution of a function.  `connected` says whether it has
got a connection. -/
structure ExecutionState where
  context : ProviderContext
  provider : Except String Provider
  connected : Bool
  runtimeConfig : Except String RuntimeConfig

/-- One call of `run_optimized`.  `order` is the order in which the batched
execution yields its leaders. -/
structure FunctionCall where
  kind : FunctionKind
  state : ExecutionState
  order : LeaderOrder
  rowCount : ℕ
  read : ℕ → Except JudgmentError (Option JudgmentRequest)

namespace FunctionCall

variable (call : FunctionCall)

def identityContext (queryScope credentialScope : ℕ) :
    JudgmentIdentityContext where
  providerNamespace := call.state.context.provider
  endpoint := call.state.context.apiUrl
  requestedModel := call.state.context.model
  effectiveModel := none
  credentialScope := credentialScope
  modelBindingScope := queryScope

/-- The work of a row with a request. -/
def item (context : JudgmentIdentityContext) (invocation chunk row : ℕ)
    (request : JudgmentRequest) : JudgmentWork where
  identity := .new request context
  request := request
  target := ⟨invocation, chunk, row⟩

/-- The loop over the rows; `work` and `nullRows` are what it has filled so
far. -/
def collect (context : JudgmentIdentityContext) (invocation chunk : ℕ)
    (work : List JudgmentWork) (nullRows : ℕ) :
    List ℕ → Except JudgmentError (List JudgmentWork × ℕ)
  | [] => .ok (work, nullRows)
  | row :: rest =>
      match call.read row with
      | .error error => .error error
      | .ok none =>
          collect context invocation chunk work (nullRows + 1) rest
      | .ok (some request) =>
          collect context invocation chunk
            (work ++ [item context invocation chunk row request]) nullRows rest

/-- The call of the executor for the groups of a chunk. -/
def executorCall (config : RuntimeConfig) (provider : Provider)
    (queryScope : ℕ) (groups : List JudgmentGroup) : Call where
  groups := groups
  provider := provider
  limits :=
    { queryScope := queryScope
      maxInflight := config.maxInflight
      maxRequestBytes := config.maxRequestBytes }
  cachePolicy :=
    if config.cacheEnabled then some
      { maxEntries := config.cacheMaxEntries
        maxBytes := config.cacheMaxBytes
        ttl := config.cacheTtlMs * 10 ^ 6 }
    else none
  mode :=
    if config.batchEnabled then .batched config.batchMaxJudgments call.order
    else .single

/-- Execute the groups, if there are any. -/
def execute (config : RuntimeConfig) (queryScope : ℕ)
    (groups : List JudgmentGroup) :
    FunctionExec (List (RowTarget × JudgmentResult)) :=
  if groups.isEmpty then pure []
  else
    match call.state.provider with
    | .error message => throw (.configuration message)
    | .ok provider =>
        ExceptT.mk
          (call.executorCall config provider queryScope groups).program.embed

end FunctionCall

/-- Put each result into its row. -/
def placeResults (results : List (Option JudgmentResult)) :
    List (RowTarget × JudgmentResult) → List (Option JudgmentResult)
  | [] => results
  | (target, result) :: rest =>
      placeResults (results.set target.row (some result)) rest

def writeResult (kind : FunctionKind) (row : ℕ) (result : JudgmentResult) :
    FunctionRun Unit :=
  match kind.value result with
  | some value => (FunctionOp.writeValue row value).invoke
  | none => pure ()

/-- The loop over the output, from a row on. -/
def writeRows (kind : FunctionKind) :
    ℕ → List (Option JudgmentResult) → FunctionRun Unit
  | _, [] => pure ()
  | row, result :: rest => do
      match result with
      | some result => writeResult kind row result
      | none => (FunctionOp.setOutputNull row).invoke
      writeRows kind (row + 1) rest

/-- Evaluate a chunk of rows. -/
def runOptimized (call : FunctionCall) : FunctionExec Unit :=
  match call.state.runtimeConfig with
  | .error message => throw (.configuration message)
  | .ok config =>
      if config.mode ≠ .optimized then
        throw (.configuration
          "internal error: optimized execution has row configuration")
      else if !call.state.connected then
        throw (.configuration
          "optimized execution requires the DuckDB v1.5.5 connection bridge")
      else do
        let (queryScope, credentialScope) ← ExceptT.mk
          (FunctionOp.enterQuery call.state.context.credential).invoke
        (FunctionOp.recordOptimizedRows queryScope call.rowCount 0 0 []).perform
        let invocation ← FunctionOp.nextFunctionInvocation.perform
        let chunk ← FunctionOp.nextDataChunk.perform
        match call.collect (call.identityContext queryScope credentialScope)
            invocation chunk [] 0 (List.range call.rowCount) with
        | .error error => throw error
        | .ok (work, nullRows) => do
            let groups := groupByIdentity work
            (FunctionOp.recordOptimizedRows queryScope 0 nullRows work.length
              groups).perform
            let executed ← call.execute config queryScope groups
            ExceptT.lift (writeRows call.kind 0
              (placeResults (List.replicate call.rowCount none) executed))

/-! ## What is collected -/

section Collect

variable {call : FunctionCall} {context : JudgmentIdentityContext}
  {invocation chunk : ℕ}

/-- Some row has no request, by an error. -/
def FunctionCall.ReadFails (call : FunctionCall) : Prop :=
  ∃ row < call.rowCount, ∃ error, call.read row = .error error

/-- What the loop over the rows has filled: every row was read, and every row
with a request has its work. -/
structure FunctionCall.Collected (call : FunctionCall)
    (context : JudgmentIdentityContext) (work : List JudgmentWork)
    (nullRows : ℕ) (rows : List ℕ) : Prop where
  read : ∀ row ∈ rows, ∃ request, call.read row = .ok request
  items : ∀ item ∈ work, call.read item.target.row = .ok (some item.request) ∧
    item.identity = .new item.request context
  sublist : (work.map fun item => item.target.row).Sublist rows
  covered : ∀ row ∈ rows, ∀ request, call.read row = .ok (some request) →
    ∃ item ∈ work, item.target.row = row
  length : work.length + nullRows = rows.length

theorem FunctionCall.collect_ok {work work' : List JudgmentWork}
    {nullRows nullRows' : ℕ} {seen rows : List ℕ}
    (hseen : call.Collected context work nullRows seen)
    (h : call.collect context invocation chunk work nullRows rows =
      .ok (work', nullRows')) :
    call.Collected context work' nullRows' (seen ++ rows) := by
  induction rows generalizing seen work nullRows with
  | nil =>
      obtain ⟨rfl, rfl⟩ := Prod.mk.inj (Except.ok.inj h)
      rwa [List.append_nil]
  | cons row rest ih =>
      rw [FunctionCall.collect] at h
      rw [List.append_cons]
      split at h
      · cases h
      · rename_i hnull
        refine ih ⟨?_, hseen.items, ?_, ?_, ?_⟩ h
        · intro other hother
          rcases List.mem_append.mp hother with hold | hnew
          · exact hseen.read other hold
          · rw [List.mem_singleton.mp hnew]
            exact ⟨none, hnull⟩
        · exact hseen.sublist.trans (List.sublist_append_left _ _)
        · intro other hother request hrequest
          rcases List.mem_append.mp hother with hold | hnew
          · exact hseen.covered other hold request hrequest
          · rw [List.mem_singleton.mp hnew, hnull] at hrequest
            cases hrequest
        · rw [List.length_append, List.length_singleton, ← hseen.length]
          omega
      · rename_i request hrequest
        refine ih ⟨?_, ?_, ?_, ?_, ?_⟩ h
        · intro other hother
          rcases List.mem_append.mp hother with hold | hnew
          · exact hseen.read other hold
          · rw [List.mem_singleton.mp hnew]
            exact ⟨some request, hrequest⟩
        · intro item hitem
          rcases List.mem_append.mp hitem with hold | hnew
          · exact hseen.items item hold
          · rw [List.mem_singleton.mp hnew]
            exact ⟨hrequest, rfl⟩
        · rw [List.map_append]
          exact hseen.sublist.append (List.Sublist.refl _)
        · intro other hother otherRequest hotherRequest
          rcases List.mem_append.mp hother with hold | hnew
          · obtain ⟨item, hitem, hrow⟩ :=
              hseen.covered other hold otherRequest hotherRequest
            exact ⟨item, List.mem_append_left _ hitem, hrow⟩
          · refine ⟨FunctionCall.item context invocation chunk row request,
              by simp, (List.mem_singleton.mp hnew).symm⟩
        · rw [List.length_append, List.length_append, List.length_singleton,
            List.length_singleton, ← hseen.length]
          omega

theorem FunctionCall.collected {work : List JudgmentWork} {nullRows : ℕ}
    (h : call.collect context invocation chunk [] 0
      (List.range call.rowCount) = .ok (work, nullRows)) :
    call.Collected context work nullRows (List.range call.rowCount) := by
  have hnil : call.Collected context [] 0 [] :=
    ⟨by simp, by simp, by simp, by simp, rfl⟩
  exact FunctionCall.collect_ok hnil h

theorem FunctionCall.Collected.not_fails {work : List JudgmentWork}
    {nullRows : ℕ} (h : call.Collected context work nullRows
      (List.range call.rowCount)) : ¬ call.ReadFails := by
  rintro ⟨row, hrow, error, herror⟩
  obtain ⟨request, hrequest⟩ := h.read row (List.mem_range.mpr hrow)
  rw [herror] at hrequest
  cases hrequest

/-- No two items stand in one row. -/
theorem FunctionCall.Collected.rows_nodup {work : List JudgmentWork}
    {nullRows : ℕ} (h : call.Collected context work nullRows
      (List.range call.rowCount)) :
    (work.map fun item => item.target.row).Nodup :=
  h.sublist.nodup List.nodup_range

end Collect

/-! ## What is placed -/

section Place

variable {results : List (Option JudgmentResult)}
  {executed : List (RowTarget × JudgmentResult)}

theorem length_placeResults :
    (placeResults results executed).length = results.length := by
  induction executed generalizing results with
  | nil => rfl
  | cons first rest ih => rw [placeResults, ih, List.length_set]

/-- Rows without a target stay as they are. -/
theorem placeResults_of_notMem {row : ℕ}
    (h : ∀ pair ∈ executed, pair.1.row ≠ row) :
    (placeResults results executed)[row]? = results[row]? := by
  induction executed generalizing results with
  | nil => rfl
  | cons first rest ih =>
      have hrest : (placeResults (results.set first.1.row (some first.2))
          rest)[row]? = (results.set first.1.row (some first.2))[row]? :=
        ih fun pair hpair => h pair (List.mem_cons_of_mem _ hpair)
      rw [placeResults, hrest,
        List.getElem?_set_ne (h first (List.mem_cons_self ..))]

/-- A row with one target has its result. -/
theorem placeResults_of_mem {target : RowTarget} {result : JudgmentResult}
    (hnodup : (executed.map fun pair => pair.1.row).Nodup)
    (hmem : (target, result) ∈ executed) (hrow : target.row < results.length) :
    (placeResults results executed)[target.row]? = some (some result) := by
  induction executed generalizing results with
  | nil => cases hmem
  | cons first rest ih =>
      obtain ⟨hfirst, hrest⟩ := List.nodup_cons.mp hnodup
      rw [placeResults]
      rcases List.mem_cons.mp hmem with rfl | hmem
      · rw [placeResults_of_notMem, List.getElem?_set_self hrow]
        intro pair hpair heq
        exact hfirst (List.mem_map.mpr ⟨pair, hpair, heq⟩)
      · exact ih hrest hmem (by rwa [List.length_set])

end Place

/-! ## Values of the own kind -/

/-- A number in `[0,1]`. -/
def F64.InUnit (p : F64) : Prop := F64.le .zero p = true ∧ F64.le p .one = true

/-- The value is one which the function may have for the request. -/
def FunctionKind.OwnValue (kind : FunctionKind) (request : JudgmentRequest)
    (value : OutputValue) : Prop :=
  match kind with
  | .prob => ∃ p, p.InUnit ∧ value = .double p
  | .bool => ∃ p, p.InUnit ∧ value = .boolean (boolFromProbability p)
  | .choice => ∃ label ∈ request.choices, value = .varchar label

/-- A valid result of the kind of the function is written, as its own value. -/
theorem FunctionKind.ownValue {kind : FunctionKind} {request : JudgmentRequest}
    {result : JudgmentResult} (hkind : request.kind = kind.questionKind)
    (hvalid : ValidFor request result) :
    ∃ value, kind.value result = some value ∧ kind.OwnValue request value := by
  have hdomain := validFor_iff.mp hvalid
  cases kind with
  | prob =>
      cases result with
      | noul p => exact ⟨_, rfl, p, hdomain.2.2, rfl⟩
      | choice label => cases hkind.symm.trans hdomain.1
  | bool =>
      cases result with
      | noul p => exact ⟨_, rfl, p, hdomain.2.2, rfl⟩
      | choice label => cases hkind.symm.trans hdomain.1
  | choice =>
      cases result with
      | noul p => cases hkind.symm.trans hdomain.1
      | choice label => exact ⟨_, rfl, label, hdomain.2, rfl⟩

end DuckJeu
