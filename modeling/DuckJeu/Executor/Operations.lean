import DuckJeu.Effects.Sequential
import DuckJeu.Host.Connection

/-!
# The operations of the executor

The executor works on the connection through the `ExecutionRuntime` trait, on
query entries through `complete` and `wait`, and on the provider through its
two calls.  Each of these is one operation: it takes a lock, does its work and
releases the lock, so that between two of them anything may happen.

An answer of the provider, and the time on the clock, may be anything.  Two
operations have more than the source passes on: the provider calls carry the
identities for which they are made, and a cache insertion answers whether the
entry was stored.  No program looks at either.
-/

namespace DuckJeu

open Effects

/-- The two calls of a provider. -/
inductive ProviderCall where
  | judgeWithMetadata
  | judgeMany
  deriving DecidableEq

inductive Op where
  | claimQueryEntry (scope : ℕ) (identity : JudgmentIdentity)
  | queryCancellation (scope : ℕ)
  | recordCacheHit (scope : ℕ)
  | recordProviderAttempt (scope : ℕ) (requests : List JudgmentRequest)
      (external : Bool)
  | recordFailedRequest (scope : ℕ)
  | recordProviderResponse (scope : ℕ) (metadata : ProviderMetadata)
      (elapsed : ℕ) (external : Bool)
  | recordProviderFailure (scope elapsed : ℕ) (external : Bool)
  | cacheLookup (identity : Option JudgmentIdentity) (now : ℕ)
      (policy : CachePolicy)
  | cacheInsert (identity : JudgmentIdentity) (result : JudgmentResult)
      (now : ℕ) (policy : CachePolicy)
  | acquirePermit (maxInflight flag : ℕ)
  | dropPermit
  | complete (entry : ℕ) (outcome : Outcome)
  | wait (entry flag : ℕ)
  | judge (method : ProviderCall) (carried : List JudgmentIdentity)
      (requests : List JudgmentRequest)
  | instantNow

/-- The result type of an operation. -/
abbrev Res : Op → Type
  | .claimQueryEntry _ _ => Except JudgmentError (ℕ × Bool)
  | .queryCancellation _ => Except JudgmentError ℕ
  | .recordCacheHit _ => Unit
  | .recordProviderAttempt _ _ _ => Unit
  | .recordFailedRequest _ => Unit
  | .recordProviderResponse _ _ _ _ => Unit
  | .recordProviderFailure _ _ _ => Unit
  | .cacheLookup _ _ _ => Option JudgmentResult
  | .cacheInsert _ _ _ _ => Bool
  | .acquirePermit _ _ => Except JudgmentError Unit
  | .dropPermit => Unit
  | .complete _ _ => Unit
  | .wait _ _ => Outcome
  | .judge _ _ _ => Except JudgmentError ProviderBatchResult
  | .instantNow => ℕ

/-- What an operation does to the connection.  Without a result it blocks. -/
def step (c : ConnectionRuntime) :
    (op : Op) → Res op → ConnectionRuntime → Prop
  | .claimQueryEntry scope identity, r, c' =>
      c.claimQueryEntry scope identity = (r, c')
  | .queryCancellation scope, r, c' => c.queryCancellation scope = r ∧ c' = c
  | .recordCacheHit scope, _, c' => c' = c.recordCacheHit scope
  | .recordProviderAttempt scope requests external, _, c' =>
      c' = c.recordProviderAttempt scope requests.length external
  | .recordFailedRequest scope, _, c' => c' = c.recordFailedRequest scope
  | .recordProviderResponse scope metadata elapsed external, _, c' =>
      c' = c.recordProviderResponse scope metadata elapsed external
  | .recordProviderFailure scope elapsed external, _, c' =>
      c' = c.recordProviderFailure scope elapsed external
  | .cacheLookup identity now policy, r, c' =>
      c.cacheLookup identity now policy = (r, c')
  | .cacheInsert identity result now policy, r, c' =>
      c.cacheInsert identity result now policy = (r, c')
  | .acquirePermit maxInflight flag, r, c' =>
      c.acquirePermit maxInflight flag = some (r, c')
  | .dropPermit, _, c' => c' = c.dropPermit
  | .complete entry outcome, _, c' => c' = c.complete entry outcome
  | .wait entry flag, r, c' => c.wait entry flag = some r ∧ c' = c
  | .judge _ _ _, _, c' => c' = c
  | .instantNow, _, c' => c' = c

/-- A program of the executor which raises no errors. -/
abbrev Run (α : Type) := Prog Op Res α

/-- A program of the executor. -/
abbrev Exec (α : Type) := ExceptT JudgmentError (Prog Op Res) α

/-- Perform one operation. -/
abbrev invoke (op : Op) : Run (Res op) := Prog.perform op

/-- Perform one operation within a program which may raise errors. -/
abbrev perform (op : Op) : Exec (Res op) := ExceptT.lift (invoke op)

/-- One performed operation of the executor. -/
abbrev ExecEvent := Event Op Res

/-- What one call has performed, the newest first. -/
abbrev History := List ExecEvent

end DuckJeu
