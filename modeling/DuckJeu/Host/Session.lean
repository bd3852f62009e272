import DuckJeu.Host.Credential
import DuckJeu.Host.Frame

/-!
# Sessions of one connection

A session is everything that happens on one connection: queries begin and
end, and workers of any query, also of one that is over, call the runtime in
any order.  Taking a permit has two parts.  The cancellation flag of the query
is looked up first; after that the attempt looks at the pool, again and again
while it has to wait.
-/

namespace DuckJeu

/-! ## Operations -/

/-- The `record_*` operations. -/
inductive Recording where
  | profileContext (provider requestedModel : String) (detailedTiming : Bool)
  | optimizedRows (inputRows nullRows validRows uniqueJudgments : ℕ)
  | rowInput
  | rowResult (isNull : Bool)
  | cacheHit
  | providerAttempt (batchSize : ℕ) (external : Bool)
  | providerResponse (metadata : ProviderMetadata) (elapsed : ℕ)
      (external : Bool)
  | providerFailure (elapsed : ℕ) (external : Bool)
  | failedRequest

def ConnectionRuntime.record (c : ConnectionRuntime) (scope : ℕ) :
    Recording → ConnectionRuntime
  | .profileContext provider requestedModel detailedTiming =>
      c.recordProfileContext scope provider requestedModel detailedTiming
  | .optimizedRows inputRows nullRows validRows uniqueJudgments =>
      c.recordOptimizedRows scope inputRows nullRows validRows uniqueJudgments
  | .rowInput => c.recordRowInput scope
  | .rowResult isNull => c.recordRowResult scope isNull
  | .cacheHit => c.recordCacheHit scope
  | .providerAttempt batchSize external =>
      c.recordProviderAttempt scope batchSize external
  | .providerResponse metadata elapsed external =>
      c.recordProviderResponse scope metadata elapsed external
  | .providerFailure elapsed external =>
      c.recordProviderFailure scope elapsed external
  | .failedRequest => c.recordFailedRequest scope

/-- A call of `acquire_request_permit` which has looked up its flag. -/
structure PermitCall where
  maxInflight : ℕ
  flag : ℕ
  /-- How many queries had begun by then. -/
  begun : ℕ

/-- A connection with the calls in progress on it. -/
structure Session where
  runtime : ConnectionRuntime
  /-- The process-wide scope counter. -/
  nextScope : ℕ
  /-- How many queries have begun. -/
  begun : ℕ := 0
  waiting : List PermitCall := []
  /-- Permits which were granted and not yet dropped. -/
  held : List PermitCall := []

/-- What may happen in a session.  Attempts and permits are named by their
positions. -/
inductive SessionOp where
  | beginQuery (now : ℕ)
  | endQuery (now interrupt errorType : ℕ)
  | claimQueryEntry (scope : ℕ) (identity : JudgmentIdentity)
  | queryCancellation (scope : ℕ)
  | credentialScope (scope : ℕ) (credential : Option String)
  | acquireRequestPermit (scope maxInflight : ℕ)
  | checkPermit (i : ℕ)
  | dropPermit (i : ℕ)
  | record (scope : ℕ) (recording : Recording)

inductive SessionReply where
  | done
  /-- There is no attempt or permit at this position. -/
  | absent
  | claimed (answer : Except JudgmentError (ℕ × Bool))
  | flag (answer : Except JudgmentError ℕ)
  | scope (answer : Except JudgmentError ℕ)
  | permit (answer : Except JudgmentError Unit)
  | waiting

abbrev SessionEvent := SessionOp × SessionReply

namespace Session

variable (hash : String → UInt64)

/-- One operation; `hash` is the hasher of the connection. -/
def apply (s : Session) : SessionOp → SessionReply × Session
  | .beginQuery now =>
      (.done,
        { s with runtime := s.runtime.beginQuery now, begun := s.begun + 1 })
  | .endQuery now interrupt errorType =>
      (.done, { s with runtime := s.runtime.endQuery now interrupt errorType })
  | .claimQueryEntry scope identity =>
      let (answer, runtime) := s.runtime.claimQueryEntry scope identity
      (.claimed answer, { s with runtime := runtime })
  | .queryCancellation scope => (.flag (s.runtime.queryCancellation scope), s)
  | .credentialScope scope credential =>
      let (answer, runtime, next) :=
        s.runtime.credentialScopeFor hash s.nextScope scope credential
      (.scope answer, { s with runtime := runtime, nextScope := next })
  | .acquireRequestPermit scope maxInflight =>
      match s.runtime.queryCancellation scope with
      | .error e => (.permit (.error e), s)
      | .ok flag =>
          (.waiting,
            { s with waiting := s.waiting ++ [⟨maxInflight, flag, s.begun⟩] })
  | .checkPermit i =>
      match s.waiting[i]? with
      | none => (.absent, s)
      | some attempt =>
          match s.runtime.acquirePermit attempt.maxInflight attempt.flag with
          | none => (.waiting, s)
          | some (.error e, runtime) =>
              (.permit (.error e),
                { s with runtime := runtime, waiting := s.waiting.eraseIdx i })
          | some (.ok (), runtime) =>
              (.permit (.ok ()),
                { s with
                  runtime := runtime
                  waiting := s.waiting.eraseIdx i
                  held := s.held ++ [attempt] })
  | .dropPermit i =>
      match s.held[i]? with
      | none => (.absent, s)
      | some _ =>
          (.done,
            { s with
              runtime := s.runtime.dropPermit
              held := s.held.eraseIdx i })
  | .record scope recording =>
      (.done, { s with runtime := s.runtime.record scope recording })

/-- Perform a sequence of operations on a new connection, newest first; the
scope counter stands at `scope`. -/
def run (scope : ℕ) : List SessionOp → List SessionEvent × Session
  | [] => ([], { runtime := .init scope, nextScope := (scope + 1) % 2 ^ 64 })
  | op :: earlier =>
      let (events, s) := run scope earlier
      let (reply, s') := s.apply hash op
      ((op, reply) :: events, s')

end Session

/-! ## What one operation does -/

open ConnectionRuntime

theorem record_frame (c : ConnectionRuntime) (scope : ℕ)
    (recording : Recording) : Frame c (c.record scope recording) := by
  cases recording with
  | profileContext => exact recordProfileContext_frame c _ _ _ _
  | providerResponse => exact recordProviderResponse_frame c _ _ _ _
  | providerFailure => exact recordProviderFailure_frame c _ _ _
  | _ =>
      dsimp only [ConnectionRuntime.record]
      exact count_frame c scope _

theorem record_nextQueryId (c : ConnectionRuntime) (scope : ℕ)
    (recording : Recording) :
    (c.record scope recording).nextQueryId = c.nextQueryId := by
  have hcount : ∀ f, (c.count scope f).nextQueryId = c.nextQueryId := by
    intro f
    unfold ConnectionRuntime.count
    split
    · rfl
    · rfl
  cases recording with
  | profileContext =>
      dsimp only [ConnectionRuntime.record]
      unfold ConnectionRuntime.recordProfileContext
      split
      · rfl
      · rfl
  | providerResponse =>
      dsimp only [ConnectionRuntime.record]
      unfold ConnectionRuntime.recordProviderResponse
      split
      · rfl
      · exact hcount _
  | providerFailure =>
      dsimp only [ConnectionRuntime.record]
      unfold ConnectionRuntime.recordProviderFailure
      split
      · rfl
      · exact hcount _
  | _ =>
      dsimp only [ConnectionRuntime.record]
      exact hcount _

/-- The operation begins or ends a query. -/
def SessionOp.Lifecycle : SessionOp → Prop
  | .beginQuery _ => True
  | .endQuery _ _ _ => True
  | _ => False

/-- A permit was granted. -/
def SessionEvent.Granted : SessionEvent → Prop
  | (.checkPermit _, .permit (.ok ())) => True
  | _ => False

/-- A permit was dropped. -/
def SessionEvent.Dropped : SessionEvent → Prop
  | (.dropPermit _, .done) => True
  | _ => False

instance : DecidablePred SessionEvent.Granted := fun event => by
  unfold SessionEvent.Granted
  split <;> infer_instance

instance : DecidablePred SessionEvent.Dropped := fun event => by
  unfold SessionEvent.Dropped
  split <;> infer_instance

/-- The effect of one operation on queries, entries and permits. -/
inductive SessionStep (s s' : Session) : SessionEvent → Prop
  | beginQuery (now : ℕ)
      (hruntime : s'.runtime = s.runtime.beginQuery now)
      (hbegun : s'.begun = s.begun + 1) (hwaiting : s'.waiting = s.waiting)
      (hheld : s'.held = s.held) : SessionStep s s' (.beginQuery now, .done)
  | endQuery (now interrupt errorType : ℕ)
      (hruntime : s'.runtime = s.runtime.endQuery now interrupt errorType)
      (hbegun : s'.begun = s.begun) (hwaiting : s'.waiting = s.waiting)
      (hheld : s'.held = s.held) :
      SessionStep s s' (.endQuery now interrupt errorType, .done)
  | newEntry {scope : ℕ} {identity : JudgmentIdentity}
      (hrunning : s.runtime.Running scope)
      (hnew : s.runtime.queryEntries.lookup identity = none)
      (hframe : Frame (s.runtime.addEntry identity) s'.runtime)
      (hnext : s'.runtime.nextQueryId = s.runtime.nextQueryId)
      (hbegun : s'.begun = s.begun) (hwaiting : s'.waiting = s.waiting)
      (hheld : s'.held = s.held) :
      SessionStep s s' (.claimQueryEntry scope identity,
        .claimed (.ok (s.runtime.slots.length, true)))
  | enter {scope maxInflight flag : ℕ}
      (hflag : s.runtime.queryCancellation scope = .ok flag)
      (hruntime : s'.runtime = s.runtime) (hbegun : s'.begun = s.begun)
      (hwaiting : s'.waiting = s.waiting ++ [⟨maxInflight, flag, s.begun⟩])
      (hheld : s'.held = s.held) :
      SessionStep s s' (.acquireRequestPermit scope maxInflight, .waiting)
  | granted {i : ℕ} {attempt : PermitCall}
      (hattempt : s.waiting[i]? = some attempt)
      (hgrant : s.runtime.acquirePermit attempt.maxInflight attempt.flag =
        some (.ok (), s'.runtime))
      (hbegun : s'.begun = s.begun)
      (hwaiting : s'.waiting = s.waiting.eraseIdx i)
      (hheld : s'.held = s.held ++ [attempt]) :
      SessionStep s s' (.checkPermit i, .permit (.ok ()))
  | refused {i : ℕ} {error : JudgmentError} (hruntime : s'.runtime = s.runtime)
      (hbegun : s'.begun = s.begun)
      (hwaiting : s'.waiting = s.waiting.eraseIdx i)
      (hheld : s'.held = s.held) :
      SessionStep s s' (.checkPermit i, .permit (.error error))
  | dropped {i : ℕ} {attempt : PermitCall}
      (hattempt : s.held[i]? = some attempt)
      (hruntime : s'.runtime = s.runtime.dropPermit)
      (hbegun : s'.begun = s.begun) (hwaiting : s'.waiting = s.waiting)
      (hheld : s'.held = s.held.eraseIdx i) :
      SessionStep s s' (.dropPermit i, .done)
  | quiet {event : SessionEvent} (hop : ¬ event.1.Lifecycle)
      (hgranted : ¬ event.Granted) (hdropped : ¬ event.Dropped)
      (hframe : Frame s.runtime s'.runtime)
      (hnext : s'.runtime.nextQueryId = s.runtime.nextQueryId)
      (hbegun : s'.begun = s.begun) (hwaiting : s'.waiting = s.waiting)
      (hheld : s'.held = s.held) : SessionStep s s' event

theorem claimQueryEntry_nextQueryId (c : ConnectionRuntime) (scope : ℕ)
    (identity : JudgmentIdentity) :
    (c.claimQueryEntry scope identity).2.nextQueryId = c.nextQueryId := by
  unfold ConnectionRuntime.claimQueryEntry ConnectionRuntime.count
    ConnectionRuntime.addEntry
  split
  · rfl
  split
  · rfl
  split <;> split <;> rfl

theorem Session.apply_step (hash : String → UInt64) (s : Session)
    (op : SessionOp) :
    SessionStep s (s.apply hash op).2 (op, (s.apply hash op).1) := by
  cases op with
  | beginQuery now => exact .beginQuery now rfl rfl rfl rfl
  | endQuery now interrupt errorType =>
      exact .endQuery now interrupt errorType rfl rfl rfl rfl
  | claimQueryEntry scope identity =>
      have hnext := claimQueryEntry_nextQueryId s.runtime scope identity
      cases hclaim : s.runtime.claimQueryEntry scope identity with
      | mk answer runtime =>
          rw [hclaim] at hnext
          have happly : s.apply hash (.claimQueryEntry scope identity) =
              (.claimed answer, { s with runtime := runtime }) := by
            simp only [apply, hclaim]
          rw [happly]
          rcases claimQueryEntry_cases hclaim with
              ⟨error, -, hsame, -⟩ | ⟨entry, -, -, -, hframe⟩ |
                ⟨hanswer, hrunning, hnew, hframe⟩
          · exact .quiet id id id (hsame ▸ Frame.refl s.runtime) hnext rfl rfl
              rfl
          · exact .quiet id id id hframe hnext rfl rfl rfl
          · rw [hanswer]
            exact .newEntry hrunning hnew hframe hnext rfl rfl rfl
  | queryCancellation scope =>
      exact .quiet id id id (Frame.refl s.runtime) rfl rfl rfl rfl
  | credentialScope scope credential =>
      have hframe : Frame s.runtime (s.runtime.credentialScopeFor hash
          s.nextScope scope credential).2.1 :=
        (QuietStep.credentialScope s.runtime hash s.nextScope scope
          credential).frame
      refine .quiet id id id hframe ?_ rfl rfl rfl
      change (s.runtime.credentialScopeFor hash s.nextScope scope
        credential).2.1.nextQueryId = s.runtime.nextQueryId
      rcases credentialScopeFor_cases s.runtime hash s.nextScope scope
        credential with h | ⟨-, h⟩ | ⟨-, h⟩ <;> rw [h]
  | acquireRequestPermit scope maxInflight =>
      cases hflag : s.runtime.queryCancellation scope with
      | error e =>
          have happly : s.apply hash (.acquireRequestPermit scope maxInflight) =
              (.permit (.error e), s) := by
            simp only [apply, hflag]
          rw [happly]
          exact .quiet id id id (Frame.refl s.runtime) rfl rfl rfl rfl
      | ok flag =>
          have happly : s.apply hash (.acquireRequestPermit scope maxInflight) =
              (.waiting, { s with
                waiting := s.waiting ++ [⟨maxInflight, flag, s.begun⟩] }) := by
            simp only [apply, hflag]
          rw [happly]
          exact .enter hflag rfl rfl rfl rfl
  | checkPermit i =>
      cases hattempt : s.waiting[i]? with
      | none =>
          have happly : s.apply hash (.checkPermit i) = (.absent, s) := by
            simp only [apply, hattempt]
          rw [happly]
          exact .quiet id id id (Frame.refl s.runtime) rfl rfl rfl rfl
      | some attempt =>
          cases hlook : s.runtime.acquirePermit attempt.maxInflight
              attempt.flag with
          | none =>
              have happly : s.apply hash (.checkPermit i) = (.waiting, s) := by
                simp only [apply, hattempt, hlook]
              rw [happly]
              exact .quiet id id id (Frame.refl s.runtime) rfl rfl rfl rfl
          | some look =>
              obtain ⟨answer, runtime⟩ := look
              cases answer with
              | error e =>
                  have happly : s.apply hash (.checkPermit i) =
                      (.permit (.error e), { s with
                        runtime := runtime
                        waiting := s.waiting.eraseIdx i }) := by
                    simp only [apply, hattempt, hlook]
                  rw [happly]
                  rcases acquirePermit_cases hlook with
                      ⟨error, -, hsame, -⟩ | ⟨hok, -⟩
                  · exact .refused hsame rfl rfl rfl
                  · cases hok
              | ok u =>
                  have happly : s.apply hash (.checkPermit i) =
                      (.permit (.ok ()), { s with
                        runtime := runtime
                        waiting := s.waiting.eraseIdx i
                        held := s.held ++ [attempt] }) := by
                    simp only [apply, hattempt, hlook]
                  rw [happly]
                  exact .granted hattempt hlook rfl rfl rfl
  | dropPermit i =>
      cases hattempt : s.held[i]? with
      | none =>
          have happly : s.apply hash (.dropPermit i) = (.absent, s) := by
            simp only [apply, hattempt]
          rw [happly]
          exact .quiet id id id (Frame.refl s.runtime) rfl rfl rfl rfl
      | some attempt =>
          have happly : s.apply hash (.dropPermit i) =
              (.done, { s with
                runtime := s.runtime.dropPermit
                held := s.held.eraseIdx i }) := by
            simp only [apply, hattempt]
          rw [happly]
          exact .dropped hattempt rfl rfl rfl rfl
  | record scope recording =>
      exact .quiet id id id (record_frame s.runtime scope recording)
        (record_nextQueryId s.runtime scope recording) rfl rfl rfl

end DuckJeu
