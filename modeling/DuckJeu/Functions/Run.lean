import DuckJeu.Executor.History
import DuckJeu.Functions.Script

/-!
# The body of the functions

This module follows `run`, the body which the three functions share.  In
optimized mode it hands the chunk over to `run_optimized`.  Otherwise it goes
through the rows one by one, counts them, and stops at the first error.

The error which DuckDB is told of belongs to the caller, and is told by the
history.
-/

namespace DuckJeu

open Effects

/-! ## Operations -/

inductive RunOp where
  | identityScopes
  | recordRowInput (queryScope : ℕ)
  | recordRowResult (queryScope : ℕ) (isNull : Bool)
  | setError (message : String)

abbrev RunRes : RunOp → Type
  | .identityScopes => ℕ × ℕ
  | .recordRowInput _ => Unit
  | .recordRowResult _ _ => Unit
  | .setError _ => Unit

/-- What an operation of the body does. -/
def Surroundings.performRun (s : Surroundings) :
    (op : RunOp) → RunRes op × Surroundings
  | .identityScopes => (s.connection.identityScopes, s)
  | .recordRowInput queryScope =>
      ((), { s with connection := s.connection.recordRowInput queryScope })
  | .recordRowResult queryScope isNull =>
      ((), { s with
        connection := s.connection.recordRowResult queryScope isNull })
  | .setError _ => ((), s)

abbrev RunResult : (Op ⊕ FunctionOp) ⊕ RunOp → Type :=
  SumRes (SumRes Res FunctionRes) RunRes

/-- What an operation does to the connection and the process. -/
def runStep (s : Surroundings) :
    (op : (Op ⊕ FunctionOp) ⊕ RunOp) → RunResult op → Surroundings → Prop
  | .inl op, r, s' => functionStep s op r s'
  | .inr op, r, s' => s.performRun op = (r, s')

/-- The body of a function. -/
abbrev RunProg (α : Type) := Prog ((Op ⊕ FunctionOp) ⊕ RunOp) RunResult α

abbrev RunOp.invoke (op : RunOp) : RunProg (RunRes op) :=
  Prog.perform (Sum.inr op)

/-! ## The body -/

/-- What is left of a message in a C string. -/
def sanitized (message : String) : String :=
  message.map fun c => if c = '\x00' then ' ' else c

def setError (message : String) : RunProg Unit :=
  (RunOp.setError (sanitized message)).invoke

/-- Write a record, if there is a connection. -/
def recordRow (queryScope : Option ℕ) (write : ℕ → RunProg Unit) :
    RunProg Unit :=
  match queryScope with
  | none => pure ()
  | some queryScope => write queryScope

namespace FunctionCall

variable (call : FunctionCall)

/-- The settings have been read, and ask for optimized execution. -/
def optimized : Bool :=
  match call.state.runtimeConfig with
  | .ok config => config.mode = .optimized
  | .error _ => false

/-- The value of a row, in the body. -/
def evaluate (queryScope : Option ℕ) (row : ℕ) :
    RunProg (Except JudgmentError (Option JudgmentResult)) :=
  (evaluateRow call.state.provider call.state.runtimeConfig queryScope
    (call.read row)).run.embed.embed

/-- The loop over the rows. -/
def runRows (queryScope : Option ℕ) : List ℕ → RunProg Unit
  | [] => pure ()
  | row :: rest => do
      recordRow queryScope fun queryScope =>
        (RunOp.recordRowInput queryScope).invoke
      match ← call.evaluate queryScope row with
      | .ok none => do
          recordRow queryScope fun queryScope =>
            (RunOp.recordRowResult queryScope true).invoke
          (FunctionOp.setOutputNull row).invoke.embed
          runRows queryScope rest
      | .ok (some result) => do
          recordRow queryScope fun queryScope =>
            (RunOp.recordRowResult queryScope false).invoke
          (writeResult call.kind row result).embed
          runRows queryScope rest
      | .error error => setError error.message

/-- The query of the connection, if there is one. -/
def queryScope : RunProg (Option ℕ) :=
  if call.state.connected then do
    let scopes ← RunOp.identityScopes.invoke
    pure (some scopes.2)
  else pure none

def run : RunProg Unit :=
  if call.optimized then do
    match ← (runOptimized call).run.embed with
    | .error error => setError error.message
    | .ok () => pure ()
  else do
    let queryScope ← call.queryScope
    call.runRows queryScope (List.range call.rowCount)

end FunctionCall

/-! ## Pools -/

/-- The bodies of functions on one connection. -/
abbrev RunPool (ι : Type) :=
  Pool ι Surroundings ((Op ⊕ FunctionOp) ⊕ RunOp) RunResult Unit

/-- What a body has done, the newest event first. -/
abbrev RunHistory := List (SumEvent (SumRes Res FunctionRes) RunRes)

/-- The bodies before they have done anything. -/
def RunPool.start {ι : Type} (s : Surroundings) (calls : ι → FunctionCall) :
    RunPool ι where
  shared := s
  thread := fun i => (calls i).run
  log := []

/-! ## What can be seen of a body -/

/-- The cells which a body has written, the newest first. -/
def cell? : Event FunctionOp FunctionRes → Option (ℕ × Option OutputValue)
  | ⟨.writeValue row value, _⟩ => some (row, some value)
  | ⟨.setOutputNull row, _⟩ => some (row, none)
  | _ => none

def error? : Event RunOp RunRes → Option String
  | ⟨.setError message, _⟩ => some message
  | _ => none

namespace RunHistory

variable (h : RunHistory)

/-- The requests sent to the provider, the newest first. -/
def asked : List Dispatch := dispatches (innerOf (innerOf h))

/-- The cells written, the newest first. -/
def cells : List (ℕ × Option OutputValue) :=
  (outerOf (innerOf h)).filterMap cell?

/-- The errors which DuckDB has been told of, the newest first. -/
def errors : List String := (outerOf h).filterMap error?

end RunHistory

end DuckJeu
