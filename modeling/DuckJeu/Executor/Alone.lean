import DuckJeu.Executor.Workers

/-!
# One worker alone

An environment says what the clock and the provider answer, each time they are
asked.  Under it a worker which runs alone is a function of the connection,
and each of its runs is a schedule of any pool in which it takes part.
-/

namespace DuckJeu

open Effects ConnectionRuntime

/-- The answers of the clock and of the provider.  The first argument counts
the questions so far. -/
structure Environment where
  now : ℕ → ℕ
  judge : ℕ → ProviderCall → List JudgmentRequest →
    Except JudgmentError ProviderBatchResult

/-- A connection with the number of questions asked so far. -/
abbrev Alone := ConnectionRuntime × ℕ

namespace Environment

variable (env : Environment)

/-- Perform one operation.  Nobody would end a wait. -/
def handle : Alone → (op : Op) → Option (Res op × Alone)
  | (c, t), .claimQueryEntry scope identity =>
      let (r, c') := c.claimQueryEntry scope identity
      some (r, c', t)
  | (c, t), .queryCancellation scope =>
      some (c.queryCancellation scope, c, t)
  | (c, t), .recordCacheHit scope => some ((), c.recordCacheHit scope, t)
  | (c, t), .recordProviderAttempt scope requests external =>
      some ((), c.recordProviderAttempt scope requests.length external, t)
  | (c, t), .recordFailedRequest scope =>
      some ((), c.recordFailedRequest scope, t)
  | (c, t), .recordProviderResponse scope metadata elapsed external =>
      some ((), c.recordProviderResponse scope metadata elapsed external, t)
  | (c, t), .recordProviderFailure scope elapsed external =>
      some ((), c.recordProviderFailure scope elapsed external, t)
  | (c, t), .cacheLookup identity now policy =>
      let (r, c') := c.cacheLookup identity now policy
      some (r, c', t)
  | (c, t), .cacheInsert identity result now policy =>
      let (r, c') := c.cacheInsert identity result now policy
      some (r, c', t)
  | (c, t), .acquirePermit maxInflight flag =>
      (c.acquirePermit maxInflight flag).map fun (r, c') => (r, c', t)
  | (c, t), .dropPermit => some ((), c.dropPermit, t)
  | (c, t), .complete entry outcome => some ((), c.complete entry outcome, t)
  | (c, t), .wait entry flag => (c.wait entry flag).map fun r => (r, c, t)
  | (c, t), .judge method _ requests =>
      some (env.judge t method requests, c, t + 1)
  | (c, t), .instantNow => some (env.now t, c, t + 1)

/-- Run a program alone, from the first question on. -/
def run {α : Type} (p : Run α) (c : ConnectionRuntime) :
    Option (α × Alone × History) :=
  p.run env.handle (c, 0)

/-- Run a program alone for at most `n` operations. -/
def advance {α : Type} (n : ℕ) (p : Run α) (c : ConnectionRuntime) :
    Option (Run α × Alone × History) :=
  p.advance env.handle n (c, 0)

/-- What an environment does is a step of the connection. -/
theorem handle_step (s : Alone) (op : Op) (r : Res op) (s' : Alone)
    (h : env.handle s op = some (r, s')) : step s.1 op r s'.1 := by
  obtain ⟨c, t⟩ := s
  cases op with
  | acquirePermit maxInflight flag =>
      obtain ⟨⟨r', c'⟩, hacquire, heq⟩ := Option.map_eq_some_iff.mp h
      obtain ⟨rfl, rfl⟩ := Prod.mk.inj heq
      exact hacquire
  | wait entry flag =>
      obtain ⟨r', hwait, heq⟩ := Option.map_eq_some_iff.mp h
      obtain ⟨rfl, rfl⟩ := Prod.mk.inj heq
      exact ⟨hwait, rfl⟩
  | queryCancellation scope =>
      obtain ⟨rfl, rfl⟩ := Prod.mk.inj (Option.some.inj h)
      exact ⟨rfl, rfl⟩
  | _ =>
      obtain ⟨rfl, rfl⟩ := Prod.mk.inj (Option.some.inj h)
      rfl

end Environment

/-- A run alone is a schedule of the workers. -/
theorem Workers.reach_of_run {ι : Type} [DecidableEq ι]
    (host : ConnectionRuntime → ConnectionRuntime → Prop) (env : Environment)
    {p : Workers ι} {i : ι} {answer : Answer} {s : Alone} {events : History}
    (hrun : env.run (p.thread i) p.shared = some (answer, s, events)) :
    Workers.Reach host p
      ⟨s.1, Function.update p.thread i (.ret answer),
        events.map (fun event => (i, event)) ++ p.log⟩ :=
  Prog.run_reachable (π := Prod.fst) env.handle_step hrun rfl

/-- So is a run which is left in the middle. -/
theorem Workers.reach_of_advance {ι : Type} [DecidableEq ι]
    (host : ConnectionRuntime → ConnectionRuntime → Prop) (env : Environment)
    {n : ℕ} {p : Workers ι} {i : ι} {thread : Run Answer} {s : Alone}
    {events : History}
    (hrun : env.advance n (p.thread i) p.shared = some (thread, s, events)) :
    Workers.Reach host p
      ⟨s.1, Function.update p.thread i thread,
        events.map (fun event => (i, event)) ++ p.log⟩ :=
  Prog.advance_reachable (π := Prod.fst) env.handle_step hrun rfl

/-- A call alone on a connection. -/
theorem Workers.run_alone (host : ConnectionRuntime → ConnectionRuntime → Prop)
    (env : Environment) {call : Call} {c : ConnectionRuntime} {answer : Answer}
    {s : Alone} {events : History}
    (hrun : env.run call.program c = some (answer, s, events)) :
    ∃ p : Workers Unit, Workers.Reach host (Workers.start c fun _ => call) p ∧
      p.shared = s.1 ∧ p.thread () = .ret answer ∧ p.log.of () = events := by
  refine ⟨_, Workers.reach_of_run host (p := Workers.start c fun _ => call)
    (i := ()) env hrun, rfl, ?_, ?_⟩
  · simp
  · simp [Workers.start, Log.of]

/-! ## A small example -/

/-- A provider without limits, whose model names are stable. -/
def plainProvider : Provider where
  capabilities :=
    { protocolVersion := "1"
      noul := .verified
      choice := .verified
      multiStateBatch := .verified
      maxBatchJudgments := none
      maxChoices := none }
  makesExternalRequest := true
  cacheModelIdentity := some
  estimateRequestBytes := fun requests => 100 * requests.length

/-- Every noul request gets the probability one half. -/
def halfAnswers (requests : List JudgmentRequest) : ProviderBatchResult where
  answers := requests.map fun request => ⟨request.requestKey, .noul .half⟩
  metadata := { effectiveModel := some "jev-latest" }

def halfEnvironment : Environment where
  now := id
  judge := fun _ _ requests => .ok (halfAnswers requests)

/-- The context of a query, in which the effective model is not known. -/
def queryContext (query : ℕ) : JudgmentIdentityContext :=
  { aliasContext with modelBindingScope := query }

/-- The group of a text, which stands in these rows. -/
def textGroup (query : ℕ) (text : String) (rows : List ℕ) : JudgmentGroup where
  identity := .new (textRequest text) (queryContext query)
  request := textRequest text
  targets := rows.map fun row => ⟨0, 0, row⟩

/-- A call about two texts in three rows. -/
def textCall (query : ℕ) (mode : Mode) (cachePolicy : Option CachePolicy) :
    Call where
  groups := [textGroup query "a" [0, 2], textGroup query "b" [1]]
  provider := plainProvider
  limits := { queryScope := query, maxInflight := 1, maxRequestBytes := 1000 }
  cachePolicy := cachePolicy
  mode := mode

/-- A connection with its first query. -/
def firstQuery : ConnectionRuntime := (ConnectionRuntime.init 1).beginQuery 0

example : ((halfEnvironment.run (textCall 0 .single none).program
    firstQuery).map Prod.fst) = some (.ok [(⟨0, 0, 0⟩, .noul .half),
      (⟨0, 0, 2⟩, .noul .half), (⟨0, 0, 1⟩, .noul .half)]) := by
  decide

end DuckJeu
