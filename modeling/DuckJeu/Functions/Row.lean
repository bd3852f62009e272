import DuckJeu.Executor.Execute
import DuckJeu.Functions.Input

/-!
# The row evaluator

This module follows `evaluate_row`, which judges one row with one request.
The evaluator is given what `read_request` has returned for its row.  The
connection and the query scope of the source are there together or not at
all: `scope` stands for both.
-/

namespace DuckJeu

open Effects

/-! ## Configuration -/

inductive ExecutionMode where
  | row
  | optimized
  deriving DecidableEq

structure RuntimeConfig where
  mode : ExecutionMode
  batchEnabled : Bool
  batchMaxJudgments : ℕ
  maxRequestBytes : ℕ
  maxInflight : ℕ
  cacheEnabled : Bool
  cacheMaxEntries : ℕ
  cacheMaxBytes : ℕ
  cacheTtlMs : ℕ

/-! ## The evaluator -/

/-- Act on the connection, if there is one. -/
def onConnection (scope : Option ℕ) (act : ℕ → Exec Unit) : Exec Unit :=
  match scope with
  | none => pure ()
  | some queryScope => act queryScope

def acquireRequestPermit (maxInflight queryScope : ℕ) : Exec Unit := do
  let flag ← queryCancellation queryScope
  ExceptT.mk (invoke (.acquirePermit maxInflight flag))

/-- The first answer of a response which passes validation. -/
def rowAnswer (request : JudgmentRequest) (response : ProviderBatchResult) :
    Except JudgmentError JudgmentResult :=
  match validateBatchResult [request] response with
  | .error error => .error error
  | .ok () =>
      match response.answers with
      | [] => .error (.invalidResponse "provider returned no answer")
      | answer :: _ => .ok answer.result

/-- The request of a row.  The permit lives until the end of the function, on
every path; both records of a failure are made under one lock. -/
def judgeRow (provider : Provider) (maxInflight : ℕ) (scope : Option ℕ)
    (request : JudgmentRequest) : Exec JudgmentResult := do
  let external := provider.makesExternalRequest
  onConnection scope (acquireRequestPermit maxInflight)
  onConnection scope fun queryScope =>
    perform (.recordProviderAttempt queryScope [request] external)
  let started ← perform .instantNow
  let response ← perform (.judge .judgeWithMetadata [] [request])
  let ended ← perform .instantNow
  match response with
  | .ok response => do
      onConnection scope fun queryScope =>
        perform (.recordProviderResponse queryScope response.metadata
          (ended - started) external)
      onConnection scope fun _ => perform .dropPermit
      ExceptT.mk (pure (rowAnswer request response))
  | .error error => do
      if external then
        onConnection scope fun queryScope => do
          perform (.recordFailedRequest queryScope)
          perform (.recordProviderFailure queryScope (ended - started) external)
      else pure ()
      onConnection scope fun _ => perform .dropPermit
      throw error

/-- The value of one row.  Errors of the configuration and of the provider are
seen only by rows which need a judgment. -/
def evaluateRow (provider : Except String Provider)
    (runtimeConfig : Except String RuntimeConfig) (scope : Option ℕ)
    (read : Except JudgmentError (Option JudgmentRequest)) :
    Exec (Option JudgmentResult) :=
  match read with
  | .error error => throw error
  | .ok none => pure none
  | .ok (some request) =>
      match runtimeConfig with
      | .error message => throw (.configuration message)
      | .ok runtimeConfig =>
          if runtimeConfig.mode ≠ .row then
            throw (.configuration
              "internal error: optimized execution reached the row evaluator")
          else
            match provider with
            | .error message => throw (.configuration message)
            | .ok provider =>
                if provider.capabilities.supports request.kind ≠ .verified then
                  throw (.configuration
                    "provider does not verify support for this judgment type")
                else if request.kind = .choice ∧
                    ¬ provider.withinChoiceLimit request.choices.length then
                  throw (.configuration
                    "choice count exceeds the verified provider limit")
                else do
                  let result ←
                    judgeRow provider runtimeConfig.maxInflight scope request
                  pure (some result)

end DuckJeu
