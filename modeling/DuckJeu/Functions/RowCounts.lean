import DuckJeu.Functions.Bodies
import DuckJeu.Functions.Conservation
import Mathlib.Tactic.Abel

/-!
# The counters of row mode

A query whose bodies all run row by row counts each row twice, when it begins
and when it is done, and each request once.  Nothing is deduplicated, cached or
batched.  So the counters tell the rows exactly when the bodies have ended
without an error, and at any other moment what is counted later is covered by
what was counted before.
-/

namespace DuckJeu

open Effects ConnectionRuntime

/-! ## Accounts of rows -/

/-- A row has begun. -/
def inputAccount : Account :=
  (fun item =>
    match item with
    | .input => 1
    | _ => 0, 0)

/-- A row is done. -/
def resultAccount (isNull : Bool) : Account :=
  (fun item =>
    match item with
    | .nulls => isNull.toNat
    | .valid => (!isNull).toNat
    | .unique => (!isNull).toNat
    | _ => 0, 0)

/-- What an operation of the body adds to the account of a query. -/
def RunOp.account (scope : ℕ) : RunOp → Account
  | .recordRowInput reported => if reported = scope then inputAccount else 0
  | .recordRowResult reported isNull =>
      if reported = scope then resultAccount isNull else 0
  | _ => 0

def runAccount (scope : ℕ) :
    SumEvent (SumRes Res FunctionRes) RunRes → Account :=
  weighBoth (functionAccount scope) fun event => event.1.account scope

/-- The account of a query whose bodies run row by row. -/
structure Account.ByRows (a : Account) : Prop where
  unique_eq : a.1 .unique = a.1 .valid
  deduplicated_eq : a.1 .deduplicated = 0
  hits_eq : a.1 .hits = 0
  batched_eq : a.1 .batched = 0
  rows : a.1 .nulls + a.1 .invocations ≤ a.1 .input
  judged : a.1 .valid ≤ a.1 .invocations
  external : a.1 .external ≤ a.1 .invocations
  sizes_eq : a.2 = Multiset.replicate (a.1 .external) 1

namespace Account

section ByRows

variable {a b : Account}

theorem byRows_zero : ByRows 0 := by
  constructor <;> rfl

theorem ByRows.add (ha : a.ByRows) (hb : b.ByRows) : (a + b).ByRows where
  unique_eq := congrArg₂ (· + ·) ha.unique_eq hb.unique_eq
  deduplicated_eq := congrArg₂ (· + ·) ha.deduplicated_eq hb.deduplicated_eq
  hits_eq := congrArg₂ (· + ·) ha.hits_eq hb.hits_eq
  batched_eq := congrArg₂ (· + ·) ha.batched_eq hb.batched_eq
  rows := by
    have hrows := ha.rows
    have hrows' := hb.rows
    simp only [Prod.fst_add, Pi.add_apply]
    omega
  judged := add_le_add ha.judged hb.judged
  external := add_le_add ha.external hb.external
  sizes_eq := by
    rw [Prod.snd_add, ha.sizes_eq, hb.sizes_eq, ← Multiset.replicate_add]
    rfl

theorem ByRows.input (h : a.ByRows) : (inputAccount + a).ByRows := by
  obtain ⟨hunique, hdeduplicated, hhits, hbatched, hrows, hjudged, hexternal,
    hsizes⟩ := h
  constructor
  all_goals
    simp only [inputAccount, Prod.fst_add, Prod.snd_add, Pi.add_apply, zero_add]
  all_goals first | assumption | omega

/-- A row is only done when it has begun, and been judged unless it is NULL. -/
theorem ByRows.result (h : a.ByRows) {isNull : Bool}
    (hbegun : isNull = true → a.1 .nulls + a.1 .invocations < a.1 .input)
    (hjudged : isNull = false → a.1 .valid < a.1 .invocations) :
    (resultAccount isNull + a).ByRows := by
  obtain ⟨hunique, hdeduplicated, hhits, hbatched, hrows, hcovered, hexternal,
    hsizes⟩ := h
  cases isNull with
  | true =>
      have hroom := hbegun rfl
      constructor
      all_goals
        simp only [resultAccount, Prod.fst_add, Prod.snd_add, Pi.add_apply,
          zero_add, Bool.toNat_true, Bool.not_true, Bool.toNat_false]
      all_goals first | assumption | omega
  | false =>
      have hroom := hjudged rfl
      constructor
      all_goals
        simp only [resultAccount, Prod.fst_add, Prod.snd_add, Pi.add_apply,
          zero_add, Bool.toNat_true, Bool.not_false, Bool.toNat_false]
      all_goals first | assumption | omega

theorem ByRows.attempt (h : a.ByRows) (external : Bool)
    (hbegun : a.1 .nulls + a.1 .invocations < a.1 .input) :
    (attemptAccount 1 external + a).ByRows := by
  obtain ⟨hunique, hdeduplicated, hhits, hbatched, hrows, hjudged, hexternal,
    hsizes⟩ := h
  cases external with
  | false =>
      constructor
      all_goals
        simp only [attemptAccount, Prod.fst_add, Prod.snd_add, Pi.add_apply,
          zero_add, if_false, Bool.false_eq_true, false_and]
      all_goals first | assumption | omega
  | true =>
      constructor
      case sizes_eq =>
        simp only [attemptAccount, Prod.fst_add, Prod.snd_add, Pi.add_apply,
          if_true]
        rw [Multiset.singleton_add, hsizes, Nat.add_comm 1,
          Multiset.replicate_succ]
      all_goals
        simp only [attemptAccount, Prod.fst_add, Pi.add_apply, zero_add,
          if_true, lt_irrefl, and_false, if_false]
      all_goals first | assumption | omega

end ByRows

end Account

/-! ## The books of a body -/

/-- What a body has added to the account of its query, and whether an error
has stopped it. -/
structure RowBook where
  account : Account
  stopped : Bool

/-- The records which a body may make while it runs row by row. -/
def RowBook.Allowed (scope : ℕ) (g : RowBook) :
    (Op ⊕ FunctionOp) ⊕ RunOp → Prop
  | .inl (.inl (.claimQueryEntry _ _)) => False
  | .inl (.inl (.recordCacheHit _)) => False
  | .inl (.inl (.recordProviderAttempt reported requests _)) =>
      reported = scope ∧ requests.length = 1 ∧
        g.account.1 .nulls + g.account.1 .invocations < g.account.1 .input
  | .inl (.inr (.recordOptimizedRows _ _ _ _ _)) => False
  | .inr (.recordRowInput reported) => reported = scope
  | .inr (.recordRowResult reported isNull) => reported = scope ∧
      (isNull = true →
        g.account.1 .nulls + g.account.1 .invocations < g.account.1 .input) ∧
      (isNull = false → g.account.1 .valid < g.account.1 .invocations)
  | _ => True

/-- The bodies of a query report to it. -/
def countingRows (scope : ℕ) :
    Protocol ((Op ⊕ FunctionOp) ⊕ RunOp) RunResult RowBook where
  note := fun g op r =>
    { account := runAccount scope ⟨op, r⟩ + g.account
      stopped :=
        match op with
        | .inr (.setError _) => true
        | _ => g.stopped }
  Allowed := RowBook.Allowed scope
  Admits := fun _ op =>
    match op with
    | .inr .identityScopes => fun r => r.2 = scope
    | _ => fun _ => True

section Books

variable {scope : ℕ} {call : FunctionCall}

theorem countingRows_replay (g : RowBook) (h : RunHistory) :
    ((countingRows scope).replay g h).account =
      weigh (runAccount scope) h + g.account := by
  induction h with
  | nil => rw [weigh_nil, zero_add, Protocol.replay_nil]
  | cons event h ih =>
      rw [Protocol.replay_cons, weigh_cons, add_assoc, ← ih]
      rfl

/-- What a body may record keeps the order of its records. -/
theorem RowBook.Allowed.byRows {g : RowBook} (hrows : g.account.ByRows)
    {op : (Op ⊕ FunctionOp) ⊕ RunOp} (hallowed : g.Allowed scope op)
    (r : RunResult op) :
    ((countingRows scope).note g op r).account.ByRows := by
  have hnothing : (0 + g.account).ByRows := by rwa [zero_add]
  change (runAccount scope ⟨op, r⟩ + g.account).ByRows
  rcases op with (op | op) | op
  · cases op with
    | claimQueryEntry reported identity => exact hallowed.elim
    | recordCacheHit reported => exact hallowed.elim
    | recordProviderAttempt reported requests external =>
        obtain ⟨rfl, hone, hbegun⟩ := hallowed
        have haccount : runAccount reported
            ⟨.inl (.inl (.recordProviderAttempt reported requests external)),
              r⟩ = attemptAccount 1 external := by
          rw [← hone]
          exact if_pos rfl
        rw [haccount]
        exact hrows.attempt external hbegun
    | _ => exact hnothing
  · cases op with
    | recordOptimizedRows => exact hallowed.elim
    | _ => exact hnothing
  · cases op with
    | recordRowInput reported =>
        obtain rfl : reported = scope := hallowed
        have haccount : runAccount reported
            ⟨.inr (.recordRowInput reported), r⟩ = inputAccount := if_pos rfl
        rw [haccount]
        exact hrows.input
    | recordRowResult reported isNull =>
        obtain ⟨rfl, hbegun, hjudged⟩ := hallowed
        have haccount : runAccount reported
            ⟨.inr (.recordRowResult reported isNull), r⟩ =
              resultAccount isNull := if_pos rfl
        rw [haccount]
        exact hrows.result hbegun hjudged
    | _ => exact hnothing

/-! ### One row -/

/-- The evaluator, seen by the books. -/
abbrev countingEvaluator (scope : ℕ) : Protocol Op Res RowBook :=
  (countingRows scope).within.within

/-- The books ignore what is no record of a claim, a hit or an attempt. -/
theorem countingEvaluator_ignores {op : Op} (hop : op.Accounts = false) :
    (countingEvaluator scope).Ignores op := by
  intro g
  have hnote : ∀ r, (countingEvaluator scope).note g op r =
      ⟨ExecEvent.account scope ⟨op, r⟩ + g.account, g.stopped⟩ := fun _ => rfl
  have hzero : ∀ r, ExecEvent.account scope ⟨op, r⟩ = 0 := by
    intro r
    cases op with
    | claimQueryEntry | recordCacheHit | recordProviderAttempt => cases hop
    | _ => rfl
  refine ⟨?_, fun r => ?_⟩
  · cases op with
    | claimQueryEntry | recordCacheHit | recordProviderAttempt => cases hop
    | _ => trivial
  · rw [hnote, hzero, zero_add]

theorem secures_quiet {op : Op} (hop : op.Accounts = false) {g : RowBook}
    {Q : Res op → RowBook → Prop} {E : JudgmentError → RowBook → Prop}
    (hnext : ∀ r, Q r g) :
    Secures (countingEvaluator scope) (perform op) Q E g := by
  obtain ⟨hallowed, hnote⟩ := countingEvaluator_ignores hop g
  rw [secures_lift, follows_perform]
  refine ⟨hallowed, fun r _ => ?_⟩
  rw [hnote r]
  exact hnext r

/-- Permits are not counted. -/
theorem acquireRequestPermit_books (maxInflight : ℕ) (g : RowBook) :
    Secures (countingEvaluator scope) (acquireRequestPermit maxInflight scope)
      (fun _ g' => g' = g) (fun _ _ => True) g := by
  have hsame : ∀ {op : Op}, op.Accounts = false →
      Follows (countingEvaluator scope) (invoke op) (fun _ g' => g' = g) g :=
    fun hop => (countingEvaluator_ignores hop).follows rfl
  unfold acquireRequestPermit queryCancellation
  rw [secures_bind, secures_mk]
  refine (hsame rfl).mono fun outcome g' hg' => ?_
  cases outcome with
  | error error => exact trivial
  | ok flag =>
      rw [hg']
      dsimp only
      rw [secures_mk]
      refine (hsame rfl).mono fun outcome g' hg' => ?_
      cases outcome with
      | error error => exact trivial
      | ok _ => exact hg'

/-- The request of a row is counted once. -/
theorem judgeRow_books (provider : Provider) (maxInflight : ℕ)
    (request : JudgmentRequest) {g : RowBook}
    (hbegun : g.account.1 .nulls + g.account.1 .invocations <
      g.account.1 .input) :
    Secures (countingEvaluator scope)
      (judgeRow provider maxInflight (some scope) request)
      (fun _ g' => g' = ⟨attemptAccount 1 provider.makesExternalRequest +
        g.account, g.stopped⟩) (fun _ _ => True) g := by
  let g₁ : RowBook := ⟨attemptAccount 1 provider.makesExternalRequest +
    g.account, g.stopped⟩
  have hattempt : (countingEvaluator scope).note g (.recordProviderAttempt scope
      [request] provider.makesExternalRequest) () = g₁ :=
    congrArg (RowBook.mk · g.stopped)
      (congrArg (· + g.account) (if_pos rfl))
  unfold judgeRow
  dsimp only [onConnection]
  rw [secures_bind]
  refine (acquireRequestPermit_books maxInflight g).mono ?_ fun _ _ _ => trivial
  intro _ g' hg'
  rw [hg', secures_bind, secures_lift, follows_perform]
  refine ⟨⟨rfl, rfl, hbegun⟩, fun r _ => ?_⟩
  rw [hattempt, secures_bind]
  refine secures_quiet rfl fun started => ?_
  rw [secures_bind]
  refine secures_quiet rfl fun response => ?_
  rw [secures_bind]
  refine secures_quiet rfl fun ended => ?_
  cases response with
  | ok response =>
      dsimp only
      rw [secures_bind]
      refine secures_quiet rfl fun _ => ?_
      rw [secures_bind]
      refine secures_quiet rfl fun _ => ?_
      rw [secures_mk, follows_pure]
      cases rowAnswer request response with
      | ok result => exact rfl
      | error error => exact trivial
  | error error =>
      dsimp only
      split
      · rw [secures_bind, secures_bind]
        refine secures_quiet rfl fun _ => secures_quiet rfl fun _ => ?_
        rw [secures_bind]
        exact secures_quiet rfl fun _ => trivial
      · rw [secures_bind]
        exact secures_quiet rfl fun _ => trivial

/-- Whether the requests of a call leave the process. -/
def FunctionCall.external (call : FunctionCall) : Bool :=
  match call.state.provider with
  | .ok provider => provider.makesExternalRequest
  | .error _ => false

/-- What the evaluator adds to the account. -/
def FunctionCall.Booked (call : FunctionCall) (row : ℕ) (g : RowBook) :
    Except JudgmentError (Option JudgmentResult) → RowBook → Prop
  | .ok none, g' => call.read row = .ok none ∧ g' = g
  | .ok (some _), g' => (∃ request, call.read row = .ok (some request)) ∧
      g' = ⟨attemptAccount 1 call.external + g.account, g.stopped⟩
  | .error _, _ => True

theorem evaluate_books (row : ℕ) {g : RowBook}
    (hbegun : g.account.1 .nulls + g.account.1 .invocations <
      g.account.1 .input) :
    Follows (countingRows scope) (call.evaluate (some scope) row)
      (call.Booked row g) g := by
  unfold FunctionCall.evaluate
  rw [follows_embed_iff, follows_embed_iff]
  suffices h : Secures (countingEvaluator scope)
      (evaluateRow call.state.provider call.state.runtimeConfig (some scope)
        (call.read row))
      (fun result => call.Booked row g (.ok result)) (fun _ _ => True) g by
    refine Follows.mono h fun outcome g' houtcome => ?_
    cases outcome with
    | ok result => exact houtcome
    | error error => exact trivial
  cases hread : call.read row with
  | error error => exact trivial
  | ok read =>
      cases read with
      | none => exact ⟨hread, rfl⟩
      | some request =>
          unfold evaluateRow
          dsimp only
          split
          · exact trivial
          split
          · exact trivial
          split
          · exact trivial
          rename_i provider hprovider
          split
          · exact trivial
          split
          · exact trivial
          have hexternal :
              call.external = provider.makesExternalRequest := by
            rw [FunctionCall.external, hprovider]
          rw [secures_bind]
          refine (judgeRow_books provider _ request hbegun).mono ?_
            fun _ _ _ => trivial
          intro result g' hg'
          exact ⟨⟨request, hread⟩, hexternal ▸ hg'⟩

/-! ### All rows -/

/-- What a row which is done has added to the account. -/
def FunctionCall.rowAccount (call : FunctionCall) (row : ℕ) : Account :=
  match call.read row with
  | .ok (some _) =>
      resultAccount false + (attemptAccount 1 call.external + inputAccount)
  | _ => resultAccount true + inputAccount

theorem recordInput_books {g : RowBook} {Q : Unit → RowBook → Prop}
    (hnext : Q () ⟨inputAccount + g.account, g.stopped⟩) :
    Follows (countingRows scope) (recordRow (some scope) fun queryScope =>
      (RunOp.recordRowInput queryScope).invoke) Q g := by
  refine ⟨rfl, fun _ _ => ?_⟩
  have hnote : (countingRows scope).note g (.inr (.recordRowInput scope)) () =
      ⟨inputAccount + g.account, g.stopped⟩ :=
    congrArg (RowBook.mk · g.stopped) (congrArg (· + g.account) (if_pos rfl))
  rwa [hnote]

theorem recordResult_books {isNull : Bool} {g : RowBook}
    {Q : Unit → RowBook → Prop}
    (hbegun : isNull = true →
      g.account.1 .nulls + g.account.1 .invocations < g.account.1 .input)
    (hjudged : isNull = false →
      g.account.1 .valid < g.account.1 .invocations)
    (hnext : Q () ⟨resultAccount isNull + g.account, g.stopped⟩) :
    Follows (countingRows scope) (recordRow (some scope) fun queryScope =>
      (RunOp.recordRowResult queryScope isNull).invoke) Q g := by
  refine ⟨⟨rfl, hbegun, hjudged⟩, fun _ _ => ?_⟩
  have hnote : (countingRows scope).note g
      (.inr (.recordRowResult scope isNull)) () =
        ⟨resultAccount isNull + g.account, g.stopped⟩ :=
    congrArg (RowBook.mk · g.stopped) (congrArg (· + g.account) (if_pos rfl))
  rwa [hnote]

/-- The output is not counted. -/
theorem write_books (kind : FunctionKind) (row : ℕ)
    (result : Option JudgmentResult) {g : RowBook}
    {Q : Unit → RowBook → Prop} (hnext : Q () g) :
    Follows (countingRows scope)
      (result.elim (FunctionOp.setOutputNull row).invoke
        (writeResult kind row)).embed Q g := by
  have hnote : ∀ stopped, (⟨0 + g.account, stopped⟩ : RowBook) =
      ⟨g.account, stopped⟩ := fun stopped => by rw [zero_add]
  cases result with
  | none =>
      refine ⟨trivial, fun _ _ => ?_⟩
      change Q () ⟨0 + g.account, g.stopped⟩
      rwa [hnote]
  | some result =>
      dsimp only [Option.elim_some, writeResult]
      split
      · refine ⟨trivial, fun _ _ => ?_⟩
        change Q () ⟨0 + g.account, g.stopped⟩
        rwa [hnote]
      · exact hnext

/-- The loop adds the accounts of its rows, unless an error stops it. -/
theorem runRows_books (rows : List ℕ) {g : RowBook}
    (hrows : g.account.ByRows) (hfresh : g.stopped = false) :
    Follows (countingRows scope) (call.runRows (some scope) rows)
      (fun _ g' => g'.stopped = false →
        g'.account = (rows.map call.rowAccount).sum + g.account) g := by
  induction rows generalizing g with
  | nil =>
      rw [List.map_nil, List.sum_nil, zero_add]
      exact fun _ => rfl
  | cons row rest ih =>
      -- the row has begun
      let g₁ : RowBook := ⟨inputAccount + g.account, g.stopped⟩
      have hrows₁ : g₁.account.ByRows := hrows.input
      have hbegun : g₁.account.1 .nulls + g₁.account.1 .invocations <
          g₁.account.1 .input := by
        have hbefore := hrows.rows
        simp only [g₁, inputAccount, Prod.fst_add, Pi.add_apply, zero_add]
        omega
      rw [FunctionCall.runRows, follows_bind]
      refine recordInput_books ?_
      rw [follows_bind]
      refine (evaluate_books (g := g₁) row hbegun).mono ?_
      intro outcome g' hbooked
      rw [List.map_cons, List.sum_cons, FunctionCall.rowAccount]
      cases outcome with
      | error error =>
          refine ⟨trivial, fun _ _ hnever => ?_⟩
          cases hnever
      | ok result =>
          cases result with
          | none =>
              obtain ⟨hread, rfl⟩ := hbooked
              dsimp only
              rw [follows_bind]
              refine recordResult_books (fun _ => hbegun) (by simp) ?_
              rw [follows_bind]
              refine write_books call.kind row none ?_
              have hdone : (resultAccount true + g₁.account).ByRows :=
                hrows₁.result (fun _ => hbegun) (by simp)
              refine (ih (g := ⟨_, g₁.stopped⟩) hdone hfresh).mono ?_
              intro _ g' hend hgo
              rw [hend hgo, hread]
              simp only [g₁]
              abel
          | some result =>
              obtain ⟨⟨request, hread⟩, rfl⟩ := hbooked
              have hjudged := hrows₁.attempt call.external hbegun
              have hroom : (attemptAccount 1 call.external + g₁.account).1
                  .valid < (attemptAccount 1 call.external + g₁.account).1
                    .invocations := by
                have hbefore := hrows₁.judged
                simp only [attemptAccount, Prod.fst_add, Pi.add_apply]
                omega
              dsimp only
              rw [follows_bind]
              refine recordResult_books (by simp) (fun _ => hroom) ?_
              rw [follows_bind]
              refine write_books call.kind row (some result) ?_
              have hdone : (resultAccount false + (attemptAccount 1
                  call.external + g₁.account)).ByRows :=
                hjudged.result (by simp) fun _ => hroom
              refine (ih (g := ⟨_, g₁.stopped⟩) hdone hfresh).mono ?_
              intro _ g' hend hgo
              rw [hend hgo, hread]
              simp only [g₁]
              abel

/-- The account of a body which has done all of its rows. -/
def FunctionCall.bodyAccount (call : FunctionCall) : Account :=
  ((List.range call.rowCount).map call.rowAccount).sum

theorem run_books (hmode : call.optimized = false)
    (hconnected : call.state.connected = true) :
    Follows (countingRows scope) call.run
      (fun _ g => g.stopped = false → g.account = call.bodyAccount)
      ⟨0, false⟩ := by
  unfold FunctionCall.run
  rw [if_neg (by simp [hmode]), follows_bind, FunctionCall.queryScope,
    if_pos hconnected, follows_bind]
  refine ⟨trivial, fun scopes hscope => ?_⟩
  have hnote : (countingRows scope).note ⟨0, false⟩ (.inr .identityScopes)
      scopes = ⟨0, false⟩ := congrArg (RowBook.mk · false) (zero_add 0)
  obtain rfl : scopes.2 = scope := hscope
  rw [hnote]
  refine (runRows_books (List.range call.rowCount) Account.byRows_zero
    rfl).mono ?_
  intro _ g hend hgo
  rw [hend hgo, add_zero]
  rfl

/-- Without a reported error nothing has stopped the body. -/
theorem countingRows_stopped {h : RunHistory} (hsilent : h.errors = []) :
    ((countingRows scope).replay ⟨0, false⟩ h).stopped = false := by
  induction h with
  | nil => rfl
  | cons event h ih =>
      obtain ⟨op, r⟩ := event
      rcases op with op | op
      · exact ih hsilent
      · cases op with
        | setError message => cases hsilent
        | _ => exact ih hsilent

end Books

/-! ## A query -/

section Query

variable {ι : Type} [DecidableEq ι] {s : Surroundings} {now scope : ℕ}
  {calls : ι → FunctionCall} {p : RunPool ι}

omit [DecidableEq ι] in
/-- What is counted in a query shows in its account. -/
theorem ShowsAccount.count {c : ConnectionRuntime} {a b : Account}
    (h : ShowsAccount c scope a) (reported : ℕ)
    {f : QueryCounts → QueryCounts}
    (hf : ∀ counts : QueryCounts, counts.Totals a → (f counts).Totals (b + a)) :
    ShowsAccount (c.count reported f) scope
      ((if reported = scope then b else 0) + a) := by
  obtain ⟨query, hquery, htotals⟩ := h
  refine ⟨_, (count_activeFor c reported scope f).trans
    (by rw [hquery]; rfl), ?_⟩
  dsimp only
  by_cases hreported : reported = scope
  · subst hreported
    rw [if_pos rfl, if_pos rfl]
    exact hf _ htotals
  · have hne : some reported ≠ some scope :=
      fun hsame => hreported (Option.some.inj hsame)
    rw [if_neg hne, if_neg hreported, zero_add]
    exact htotals

omit [DecidableEq ι] in
theorem ShowsAccount.performRun {a : Account}
    (h : ShowsAccount s.connection scope a) (op : RunOp) :
    ShowsAccount (s.performRun op).2.connection scope
      (op.account scope + a) := by
  have hnothing : ShowsAccount s.connection scope (0 + a) := by rwa [zero_add]
  cases op with
  | recordRowInput reported =>
      refine h.count reported fun counts htotals => ?_
      refine htotals.add (fun item => ?_) fun _ => Or.inl ⟨rfl, rfl⟩
      cases item with
      | input => exact Or.inr rfl
      | _ => exact Or.inl ⟨rfl, rfl⟩
  | recordRowResult reported isNull =>
      refine h.count reported fun counts htotals => ?_
      cases isNull with
      | true =>
          refine htotals.add (fun item => ?_) fun _ => Or.inl ⟨rfl, rfl⟩
          cases item with
          | nulls => exact Or.inr rfl
          | _ => exact Or.inl ⟨rfl, rfl⟩
      | false =>
          refine htotals.add (fun item => ?_) fun _ => Or.inl ⟨rfl, rfl⟩
          cases item with
          | valid => exact Or.inr rfl
          | unique => exact Or.inr rfl
          | _ => exact Or.inl ⟨rfl, rfl⟩
  | _ => exact hnothing

omit [DecidableEq ι] in
/-- Whatever a body does shows in the account of its query. -/
theorem ShowsAccount.run {a : Account} {s s' : Surroundings}
    (h : ShowsAccount s.connection scope a)
    {op : (Op ⊕ FunctionOp) ⊕ RunOp} {r : RunResult op}
    (hstep : runStep s op r s') :
    ShowsAccount s'.connection scope (runAccount scope ⟨op, r⟩ + a) := by
  rcases op with (op | op) | op
  · obtain ⟨c, hstep, rfl⟩ := hstep
    exact h.step hstep
  · obtain rfl : (s.perform op).2 = s' := congrArg Prod.snd hstep
    exact h.perform op
  · obtain rfl : (s.performRun op).2 = s' := congrArg Prod.snd hstep
    exact h.performRun op

omit [DecidableEq ι] in
/-- The query which is active is that of new identities. -/
theorem identityScopes_active {c : ConnectionRuntime} {query : ActiveQuery}
    (h : c.activeFor scope = some query) : c.identityScopes.2 = scope := by
  obtain ⟨hactive, hscope⟩ := activeFor_some h
  rw [ConnectionRuntime.identityScopes, hactive]
  exact hscope

/-- The counters show the account of the bodies, each of which keeps the order
of its records, and is left with its books. -/
theorem RunPool.counted
    (hmode : ∀ i, (calls i).optimized = false)
    (hconnected : ∀ i, (calls i).state.connected = true)
    (hreach : RunPool.Reach (BesideQuery s.connection.nextQueryId)
      (RunPool.start (s.beginQuery now) calls) p) :
    (ShowsAccount p.shared.connection s.connection.nextQueryId
        (Log.weigh (runAccount s.connection.nextQueryId) p.log) ∧
      ∀ i, (weigh (runAccount s.connection.nextQueryId) (p.log.of i)).ByRows) ∧
    ∀ i, p.thread i = .ret () → RunHistory.errors (p.log.of i) = [] →
      weigh (runAccount s.connection.nextQueryId) (p.log.of i) =
        (calls i).bodyAccount := by
  have haccount : ∀ h : RunHistory,
      ((countingRows s.connection.nextQueryId).replay ⟨0, false⟩ h).account =
        weigh (runAccount s.connection.nextQueryId) h := by
    intro h
    rw [countingRows_replay, add_zero]
  have hall := hreach.follows
    (P := fun _ => countingRows s.connection.nextQueryId)
    (Q := fun i _ g => g.stopped = false → g.account = (calls i).bodyAccount)
    (g := fun _ => ⟨0, false⟩)
    (fun s' log => ShowsAccount s'.connection s.connection.nextQueryId
        (Log.weigh (runAccount s.connection.nextQueryId) log) ∧
      ∀ i, (weigh (runAccount s.connection.nextQueryId) (Log.of log i)).ByRows)
    ?_ ?_ ?_ ?_
  · obtain ⟨hinv, hfollows⟩ := hall
    refine ⟨hinv, fun i hreturned hsilent => ?_⟩
    have hend := hfollows i
    rw [hreturned] at hend
    rw [← haccount]
    exact hend (countingRows_stopped hsilent)
  · intro s₁ log i op r s₂ hinv hallowed hstep
    obtain ⟨hshows, hrows⟩ := hinv
    have hbook := hallowed.byRows ((haccount (log.of i)).symm ▸ hrows i) r
    refine ⟨?_, hshows.run hstep, fun j => ?_⟩
    · rcases op with op | op
      · exact trivial
      · cases op with
        | identityScopes =>
            obtain ⟨query, hquery, -⟩ := hshows
            obtain rfl : s₁.connection.identityScopes = r :=
              congrArg Prod.fst hstep
            exact identityScopes_active hquery
        | _ => exact trivial
    · by_cases hij : i = j
      · subst hij
        rw [Log.of_cons_self, ← haccount]
        exact hbook
      · rw [Log.of_cons_ne hij]
        exact hrows j
  · intro s₁ s₂ log hinv hhost
    obtain ⟨hshows, hrows⟩ := hinv
    refine ⟨?_, hrows⟩
    cases hhost with
    | connection h => exact hshows.beside h
    | process => exact hshows
  · obtain ⟨query, hquery, hcounts⟩ := beginQuery_activeFor s.connection now
    exact ⟨⟨query, hquery, hcounts ▸ totals_zero⟩,
      fun _ => Account.byRows_zero⟩
  · exact fun i => run_books (hmode i) (hconnected i)

/-- The bodies which have done something. -/
def RunPool.started (p : RunPool ι) : Finset ι :=
  (p.log.map Prod.fst).toFinset

/-- The rows which the bodies of a query have begun. -/
def RunPool.rowsBegun (p : RunPool ι) (scope : ℕ) : ℕ :=
  (Log.weigh (runAccount scope) p.log).1 .input

/-- Whether a row has a request. -/
def FunctionCall.judges (call : FunctionCall) (row : ℕ) : Bool :=
  match call.read row with
  | .ok (some _) => true
  | _ => false

/-- The number of rows with a request. -/
def FunctionCall.judgedRows (call : FunctionCall) : ℕ :=
  (List.range call.rowCount).countP call.judges

/-- The counters of a query which runs row by row. -/
structure QueryCounts.ByRows (counts : QueryCounts) : Prop where
  unique : counts.uniqueJudgments = counts.validRows
  deduplicated : counts.deduplicatedRows = 0
  hits : counts.cacheHitJudgments = 0
  batched : counts.batchedRequests = 0
  rows : counts.nullRows + counts.providerInvocations ≤ counts.inputRows
  judged : counts.validRows ≤ counts.providerInvocations
  external : counts.externalRequests ≤ counts.providerInvocations
  sizes : ∀ size, counts.sized size =
    if size = 1 then counts.externalRequests else 0

/-- The counters tell so many rows, judgments and external requests. -/
structure QueryCounts.Tells (counts : QueryCounts)
    (rows judgments external : ℕ) : Prop where
  input : counts.inputRows = rows
  split : counts.nullRows + counts.validRows = rows
  valid : counts.validRows = judgments
  invocations : counts.providerInvocations = judgments
  external : counts.externalRequests = external

omit [DecidableEq ι] in
/-- While the input rows have not saturated, the counters are exact. -/
theorem Account.ByRows.exact {counts : QueryCounts} {a : Account}
    (h : a.ByRows) (htotals : counts.Totals a) (hroom : a.1 .input < 2 ^ 64) :
    (∀ item, counts.item item = a.1 item) ∧ counts.ByRows := by
  obtain ⟨hunique, hdeduplicated, hhits, hbatched, hrows, hjudged, hexternal,
    hsizes⟩ := h
  have hle : ∀ item, a.1 item ≤ usizeMax := by
    intro item
    have hmax : usizeMax = 2 ^ 64 - 1 := rfl
    cases item with
    | _ => omega
  have hitems : ∀ item, counts.item item = a.1 item := by
    intro item
    rw [htotals.items, capped_of_le (hle item)]
  have hsized : ∀ size, counts.sized size =
      if size = 1 then a.1 .external else 0 := by
    intro size
    rw [htotals.sizes, hsizes, Multiset.count_replicate]
    by_cases hone : size = 1
    · rw [if_pos hone, if_pos hone.symm, capped_of_le (hle .external)]
    · rw [if_neg hone, if_neg (Ne.symm hone)]
      exact capped_of_le (Nat.zero_le _)
  refine ⟨hitems, ?_⟩
  have hcounted : ∀ item n, counts.item item = n → n = a.1 item :=
    fun item n hn => hn.symm.trans (hitems item)
  have h₁ := hcounted .input _ rfl
  have h₂ := hcounted .nulls _ rfl
  have h₃ := hcounted .valid _ rfl
  have h₄ := hcounted .unique _ rfl
  have h₅ := hcounted .deduplicated _ rfl
  have h₆ := hcounted .hits _ rfl
  have h₇ := hcounted .invocations _ rfl
  have h₈ := hcounted .external _ rfl
  have h₉ := hcounted .batched _ rfl
  simp only [QueryCounts.item] at h₁ h₂ h₃ h₄ h₅ h₆ h₇ h₈ h₉
  constructor
  case sizes => exact fun size => (hsized size).trans (by rw [h₈])
  all_goals omega

/-- What so many rows, judgments and external requests add up to. -/
structure Account.Sums (a : Account) (rows judgments external : ℕ) : Prop where
  input : a.1 .input = rows
  split : a.1 .nulls + a.1 .valid = rows
  valid : a.1 .valid = judgments
  invocations : a.1 .invocations = judgments
  external : a.1 .external = external

omit [DecidableEq ι] in
theorem Account.Sums.add {a b : Account} {m n k m' n' k' : ℕ}
    (ha : a.Sums m n k) (hb : b.Sums m' n' k') :
    (a + b).Sums (m + m') (n + n') (k + k') where
  input := congrArg₂ (· + ·) ha.input hb.input
  split := by
    rw [← ha.split, ← hb.split]
    exact Nat.add_add_add_comm ..
  valid := congrArg₂ (· + ·) ha.valid hb.valid
  invocations := congrArg₂ (· + ·) ha.invocations hb.invocations
  external := congrArg₂ (· + ·) ha.external hb.external

omit [DecidableEq ι] in
theorem FunctionCall.rowAccount_sums (call : FunctionCall) (row : ℕ) :
    (call.rowAccount row).Sums 1 (call.judges row).toNat
      (if call.external then (call.judges row).toNat else 0) := by
  have hnull : (resultAccount true + inputAccount).Sums 1 0
      (if call.external then 0 else 0) := by
    constructor
    case external => simp [resultAccount, inputAccount]
    all_goals rfl
  unfold FunctionCall.rowAccount FunctionCall.judges
  cases call.read row with
  | error error => exact hnull
  | ok read =>
      cases read with
      | none => exact hnull
      | some request =>
          cases call.external with
          | true => constructor <;> rfl
          | false => constructor <;> rfl

omit [DecidableEq ι] in
theorem FunctionCall.sum_rowAccount (call : FunctionCall) (rows : List ℕ) :
    ((rows.map call.rowAccount).sum).Sums rows.length
      (rows.countP call.judges)
      (if call.external then rows.countP call.judges else 0) := by
  induction rows with
  | nil =>
      constructor
      case external => simp
      all_goals rfl
  | cons row rest ih =>
      have hcount : (row :: rest).countP call.judges =
          (call.judges row).toNat + rest.countP call.judges := by
        rw [List.countP_cons, Nat.add_comm]
        cases call.judges row with
        | true => rfl
        | false => rfl
      have hsplit : (if call.external then
            (row :: rest).countP call.judges else 0) =
          (if call.external then (call.judges row).toNat else 0) +
            (if call.external then rest.countP call.judges else 0) := by
        split
        · exact hcount
        · rfl
      rw [List.map_cons, List.sum_cons, hsplit, hcount, List.length_cons,
        Nat.add_comm rest.length]
      exact (call.rowAccount_sums row).add ih

/-- What the bodies have added up to. -/
theorem sums_finset (w : ι → Account) (rows judgments external : ι → ℕ)
    (bodies : Finset ι)
    (h : ∀ i ∈ bodies, (w i).Sums (rows i) (judgments i) (external i)) :
    (∑ i ∈ bodies, w i).Sums (∑ i ∈ bodies, rows i)
      (∑ i ∈ bodies, judgments i) (∑ i ∈ bodies, external i) := by
  induction bodies using Finset.induction_on with
  | empty => constructor <;> rfl
  | insert i bodies hi ih =>
      rw [Finset.sum_insert hi, Finset.sum_insert hi, Finset.sum_insert hi,
        Finset.sum_insert hi]
      exact (h i (Finset.mem_insert_self i bodies)).add
        (ih fun j hj => h j (Finset.mem_insert_of_mem hj))

/-- A query whose bodies all run row by row counts in order at every moment.
When all bodies which have begun have ended without an error, its counters tell
their rows, one request for each row which has one, and nothing else. -/
theorem rows_counted (hmode : ∀ i, (calls i).optimized = false)
    (hconnected : ∀ i, (calls i).state.connected = true)
    (hreach : RunPool.Reach (BesideQuery s.connection.nextQueryId)
      (RunPool.start (s.beginQuery now) calls) p)
    (hroom : p.rowsBegun s.connection.nextQueryId < 2 ^ 64) :
    ∃ query,
      p.shared.connection.activeFor s.connection.nextQueryId = some query ∧
      query.counts.ByRows ∧
      ((∀ i ∈ p.started, p.thread i = .ret () ∧
          RunHistory.errors (p.log.of i) = []) →
        query.counts.Tells (∑ i ∈ p.started, (calls i).rowCount)
          (∑ i ∈ p.started, (calls i).judgedRows)
          (∑ i ∈ p.started,
            if (calls i).external then (calls i).judgedRows else 0)) := by
  obtain ⟨⟨hshows, hrows⟩, hended⟩ := RunPool.counted hmode hconnected hreach
  obtain ⟨query, hquery, htotals⟩ := hshows
  have hall : (Log.weigh (runAccount s.connection.nextQueryId) p.log).ByRows :=
    Log.weigh_induction _ _ Account.byRows_zero
      (fun _ _ ha hb => ha.add hb) hrows
  obtain ⟨hitems, hcounts⟩ := hall.exact htotals hroom
  refine ⟨query, hquery, hcounts, fun hdone => ?_⟩
  have hsum : ∑ i ∈ p.started,
      weigh (runAccount s.connection.nextQueryId) (p.log.of i) =
        Log.weigh (runAccount s.connection.nextQueryId) p.log :=
    Log.sum_weigh_of _ _ _ fun entry hentry =>
      List.mem_toFinset.mpr (List.mem_map_of_mem hentry)
  have hsums := sums_finset
    (fun i => weigh (runAccount s.connection.nextQueryId) (p.log.of i))
    (fun i => (calls i).rowCount) (fun i => (calls i).judgedRows)
    (fun i => if (calls i).external then (calls i).judgedRows else 0)
    p.started fun i hi => by
      obtain ⟨hreturned, hsilent⟩ := hdone i hi
      rw [hended i hreturned hsilent]
      have hbody := (calls i).sum_rowAccount (List.range (calls i).rowCount)
      rwa [List.length_range] at hbody
  rw [hsum] at hsums
  obtain ⟨hinput, hsplit, hvalid, hinvocations, hexternal⟩ := hsums
  constructor
  · exact (hitems .input).trans hinput
  · exact (congrArg₂ (· + ·) (hitems .nulls) (hitems .valid)).trans hsplit
  · exact (hitems .valid).trans hvalid
  · exact (hitems .invocations).trans hinvocations
  · exact (hitems .external).trans hexternal

end Query

theorem rows_counted_texts : ∃ (p : RunPool Unit) (query : ActiveQuery),
    p.thread () = .ret () ∧
    p.shared.connection.activeFor freshSurroundings.connection.nextQueryId =
      some query ∧
    query.counts.ByRows ∧
    query.counts.Tells (∑ _ ∈ p.started, textsByRow.rowCount)
      (∑ _ ∈ p.started, textsByRow.judgedRows)
      (∑ _ ∈ p.started,
        if textsByRow.external then textsByRow.judgedRows else 0) := by
  have hrun : (textsByRow.run.run halfEnvironment.beside
      (freshSurroundings.beginQuery 0, 0)).map (fun last =>
        (RunHistory.errors last.2.2, (weigh (runAccount
          freshSurroundings.connection.nextQueryId) last.2.2).1 .input)) =
        some ([], 3) := by decide
  obtain ⟨⟨_, s', h⟩, hrun, hends⟩ := Option.map_eq_some_iff.mp hrun
  obtain ⟨hsilent, hinput⟩ := Prod.mk.inj hends
  obtain ⟨p, hreach, -, hreturned, rfl, -⟩ := RunPool.run_alone
    (P := fun _ => True) (BesideQuery freshSurroundings.connection.nextQueryId)
    (fun _ _ _ _ => trivial) hrun
  have hsum := Log.sum_weigh_of
    (runAccount freshSurroundings.connection.nextQueryId) p.log {()}
    fun _ _ => by simp
  rw [Finset.sum_singleton] at hsum
  have hroom :
      p.rowsBegun freshSurroundings.connection.nextQueryId < 2 ^ 64 := by
    rw [RunPool.rowsBegun, ← hsum, hinput]
    decide
  obtain ⟨query, hquery, hrows, htells⟩ := rows_counted (fun _ => rfl)
    (fun _ => rfl) hreach hroom
  exact ⟨p, query, hreturned, hquery, hrows,
    htells fun _ _ => ⟨hreturned, hsilent⟩⟩

end DuckJeu
