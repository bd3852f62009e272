import DuckJeu.Functions.Pointwise
import DuckJeu.Functions.RowAccount
import DuckJeu.Functions.Run

/-!
# Row mode

In row mode the rows are judged one after the other: each row with a request
is one dispatch, and its cell is written before the next row begins.  This
module states what that means as a derivation of its own, and shows that the
body derives nothing else, at every moment and under any schedule.
-/

namespace DuckJeu

open Effects

variable {call : FunctionCall}

/-! ## Rows one by one -/

/-- The first rows are done: what was asked for them, and what was written
into them, the newest first. -/
inductive FunctionCall.Rowwise (call : FunctionCall) :
    ℕ → List Dispatch → List (ℕ × Option OutputValue) → Prop where
  | start : call.Rowwise 0 [] []
  | null {row : ℕ} {asked : List Dispatch}
      {cells : List (ℕ × Option OutputValue)}
      (hbefore : call.Rowwise row asked cells)
      (hread : call.read row = .ok none) :
      call.Rowwise (row + 1) asked ((row, none) :: cells)
  | value {row : ℕ} {asked : List Dispatch}
      {cells : List (ℕ × Option OutputValue)} {request : JudgmentRequest}
      {response : ProviderBatchResult} {result : JudgmentResult}
      {value : OutputValue} (hbefore : call.Rowwise row asked cells)
      (hread : call.read row = .ok (some request))
      (hanswer : rowAnswer request response = .ok result)
      (hvalue : call.kind.value result = some value) :
      call.Rowwise (row + 1) (⟨[], [request], .ok response⟩ :: asked)
        ((row, some value) :: cells)

theorem FunctionCall.Rowwise.length_cells {row : ℕ} {asked : List Dispatch}
    {cells : List (ℕ × Option OutputValue)}
    (h : call.Rowwise row asked cells) : cells.length = row := by
  induction h with
  | start => rfl
  | null _ _ ih => exact congrArg (· + 1) ih
  | value _ _ _ _ ih => exact congrArg (· + 1) ih

/-- Where row mode stands: the rows which are done, what the provider has said
about the next one, and the error which has been reported. -/
structure Sheet where
  done : ℕ
  response : Option (Except JudgmentError ProviderBatchResult)
  error : Option String

namespace Sheet

/-- The sheet before a row is evaluated. -/
def before (row : ℕ) : Sheet := ⟨row, none, none⟩

def note (s : Sheet) :
    (op : (Op ⊕ FunctionOp) ⊕ RunOp) → RunResult op → Sheet
  | .inl (.inl (.judge _ _ _)), response =>
      { s with response := some response }
  | .inl (.inr (.writeValue _ _)), _ =>
      { s with
        done := s.done + 1
        response := none }
  | .inl (.inr (.setOutputNull _)), _ =>
      { s with
        done := s.done + 1
        response := none }
  | .inr (.setError message), _ => { s with error := some message }
  | _, _ => s

end Sheet

namespace FunctionCall

variable (call)

/-- The error stops the row which is next: either it cannot be read, or what
the provider has said does not give it a value, or nothing was asked. -/
def Stops (s : Sheet) (error : JudgmentError) : Prop :=
  (s.response = none ∧ call.read s.done = .error error) ∨
    ∃ request, call.read s.done = .ok (some request) ∧
      ∀ response ∈ s.response, answered request response = .error error

/-- The request of the next row is sent, and nothing else. -/
def Asks (s : Sheet) : Op → Prop
  | .judge method carried requests =>
      s.error = none ∧ s.response = none ∧ s.done < call.rowCount ∧
        method = .judgeWithMetadata ∧ carried = [] ∧
        ∃ request, call.read s.done = .ok (some request) ∧
          requests = [request]
  | _ => True

/-- The next row gets its own value, or NULL if it has no request. -/
def Writes (s : Sheet) : FunctionOp → Prop
  | .writeValue row value => s.error = none ∧ row = s.done ∧
      row < call.rowCount ∧ ∃ request response result,
        call.read row = .ok (some request) ∧
        s.response = some (.ok response) ∧
        rowAnswer request response = .ok result ∧
        call.kind.value result = some value
  | .setOutputNull row => s.error = none ∧ row = s.done ∧
      row < call.rowCount ∧ s.response = none ∧ call.read row = .ok none
  | _ => True

/-- The error of the next row is reported. -/
def Reports (s : Sheet) : RunOp → Prop
  | .setError message => s.error = none ∧ s.done < call.rowCount ∧
      ∃ error, call.Stops s error ∧ message = sanitized error.message
  | _ => True

/-- The discipline of row mode. -/
def sheetProtocol : Protocol ((Op ⊕ FunctionOp) ⊕ RunOp) RunResult Sheet where
  note := Sheet.note
  Allowed := fun s op =>
    match op with
    | .inl (.inl op) => call.Asks s op
    | .inl (.inr op) => call.Writes s op
    | .inr op => call.Reports s op
  Admits := fun _ _ _ => True

end FunctionCall

/-! ## One row -/

section Follows

/-- The evaluator, seen by the sheet. -/
abbrev FunctionCall.evaluatorProtocol (call : FunctionCall) :
    Protocol Op Res Sheet :=
  call.sheetProtocol.within.within

theorem secures_onConnection {act : ℕ → Exec Unit} {queryScope : Option ℕ}
    {Q : Unit → Sheet → Prop} {E : JudgmentError → Sheet → Prop} {s : Sheet}
    (hnext : Q () s)
    (hact : ∀ queryScope, Q () s →
      Secures call.evaluatorProtocol (act queryScope) Q E s) :
    Secures call.evaluatorProtocol (onConnection queryScope act) Q E s := by
  cases queryScope with
  | none => exact hnext
  | some queryScope => exact hact queryScope hnext

/-- The query or the pool of permits may refuse the row. -/
theorem acquireRequestPermit_sheet (maxInflight queryScope : ℕ)
    {Q : Unit → Sheet → Prop} {E : JudgmentError → Sheet → Prop} {s : Sheet}
    (hgranted : Q () s) (hrefused : ∀ error, E error s) :
    Secures call.evaluatorProtocol
      (acquireRequestPermit maxInflight queryScope) Q E s := by
  unfold acquireRequestPermit
  rw [secures_bind]
  refine ⟨trivial, fun outcome _ => ?_⟩
  cases outcome with
  | error error => exact hrefused error
  | ok flag =>
      refine ⟨trivial, fun outcome _ => ?_⟩
      cases outcome with
      | error error => exact hrefused error
      | ok _ => exact hgranted

/-- The request of a row is sent once, if at all. -/
theorem judgeRow_sheet {row : ℕ} (hrow : row < call.rowCount)
    {request : JudgmentRequest} (hread : call.read row = .ok (some request))
    (provider : Provider) (maxInflight : ℕ) (queryScope : Option ℕ) :
    Secures call.evaluatorProtocol
      (judgeRow provider maxInflight queryScope request)
      (fun result s => ∃ response, rowAnswer request response = .ok result ∧
        s = ⟨row, some (.ok response), none⟩)
      (fun error s => s.done = row ∧ s.error = none ∧
        ∀ response ∈ s.response, answered request response = .error error)
      (.before row) := by
  have hrefused : ∀ error, ((Sheet.before row).done = row ∧
      (Sheet.before row).error = none ∧
      ∀ response ∈ (Sheet.before row).response,
        answered request response = .error error) :=
    fun error => ⟨rfl, rfl, by simp [Sheet.before]⟩
  unfold judgeRow
  rw [secures_bind]
  refine secures_onConnection ?_ fun _ hnext =>
    acquireRequestPermit_sheet _ _ hnext hrefused
  rw [secures_bind]
  refine secures_onConnection ?_ fun _ hnext => ⟨trivial, fun _ _ => hnext⟩
  rw [secures_bind, secures_lift, follows_perform]
  refine ⟨trivial, fun started _ => ?_⟩
  rw [secures_bind, secures_lift, follows_perform]
  refine ⟨⟨rfl, rfl, hrow, rfl, rfl, request, hread, rfl⟩, fun response _ => ?_⟩
  rw [secures_bind, secures_lift, follows_perform]
  refine ⟨trivial, fun ended _ => ?_⟩
  cases response with
  | ok response =>
      change Secures _ _ _ _ (Sheet.mk row (some (.ok response)) none)
      dsimp only
      rw [secures_bind]
      refine secures_onConnection ?_ fun _ hnext =>
        ⟨trivial, fun _ _ => hnext⟩
      rw [secures_bind]
      refine secures_onConnection ?_ fun _ hnext =>
        ⟨trivial, fun _ _ => hnext⟩
      rw [secures_mk, follows_pure]
      cases hanswer : rowAnswer request response with
      | ok result => exact ⟨response, hanswer, rfl⟩
      | error error => exact ⟨rfl, rfl, by simpa [answered] using hanswer⟩
  | error error =>
      have hdropped : Secures call.evaluatorProtocol (do
          onConnection queryScope fun _ => perform .dropPermit
          throw error : Exec JudgmentResult)
          (fun result s => ∃ response, rowAnswer request response = .ok result ∧
            s = ⟨row, some (.ok response), none⟩)
          (fun error s => s.done = row ∧ s.error = none ∧
            ∀ response ∈ s.response, answered request response = .error error)
          ⟨row, some (.error error), none⟩ := by
        rw [secures_bind]
        refine secures_onConnection ?_ fun _ hnext =>
          ⟨trivial, fun _ _ => hnext⟩
        exact ⟨rfl, rfl, by simp [answered]⟩
      change Secures _ _ _ _ (Sheet.mk row (some (.error error)) none)
      dsimp only
      split
      · rw [secures_bind]
        refine secures_onConnection hdropped fun _ hnext => ?_
        rw [secures_bind]
        exact ⟨trivial, fun _ _ => ⟨trivial, fun _ _ => hnext⟩⟩
      · exact hdropped

/-- What the evaluator says about a row. -/
def FunctionCall.Evaluated (call : FunctionCall) (row : ℕ) :
    Except JudgmentError (Option JudgmentResult) → Sheet → Prop
  | .ok none, s => call.read row = .ok none ∧ s = .before row
  | .ok (some result), s => ∃ request response,
      call.read row = .ok (some request) ∧
        rowAnswer request response = .ok result ∧
        s = ⟨row, some (.ok response), none⟩
  | .error error, s => s.done = row ∧ s.error = none ∧ call.Stops s error

theorem evaluate_sheet {row : ℕ} (hrow : row < call.rowCount)
    (queryScope : Option ℕ) :
    Follows call.sheetProtocol (call.evaluate queryScope row)
      (call.Evaluated row) (.before row) := by
  unfold FunctionCall.evaluate
  rw [follows_embed_iff, follows_embed_iff]
  suffices h : Secures call.evaluatorProtocol
      (evaluateRow call.state.provider call.state.runtimeConfig queryScope
        (call.read row))
      (fun result s => call.Evaluated row (.ok result) s)
      (fun error s => call.Evaluated row (.error error) s) (.before row) by
    refine Follows.mono h fun outcome s houtcome => ?_
    cases outcome with
    | ok result => exact houtcome
    | error error => exact houtcome
  cases hread : call.read row with
  | error error => exact ⟨rfl, rfl, .inl ⟨rfl, hread⟩⟩
  | ok read =>
      cases read with
      | none => exact ⟨hread, rfl⟩
      | some request =>
          -- the settings and the provider may refuse the row
          have hrefused : ∀ error : JudgmentError,
              call.Evaluated row (.error error) (.before row) :=
            fun error => ⟨rfl, rfl, .inr ⟨request, hread, by
              simp [Sheet.before]⟩⟩
          unfold evaluateRow
          dsimp only
          split
          · exact hrefused _
          split
          · exact hrefused _
          split
          · exact hrefused _
          split
          · exact hrefused _
          split
          · exact hrefused _
          rw [secures_bind]
          refine (judgeRow_sheet hrow hread _ _ _).mono ?_ ?_
          · rintro result s ⟨response, hanswer, rfl⟩
            exact ⟨request, response, hread, hanswer, rfl⟩
          · rintro error s ⟨hdone, herror, hanswer⟩
            exact ⟨hdone, herror, .inr ⟨request, hdone ▸ hread, hanswer⟩⟩

/-! ## All rows -/

/-- An accepted answer has a value for the function. -/
theorem rowAnswer_value (hkind : call.OwnKind) {row : ℕ}
    {request : JudgmentRequest} (hread : call.read row = .ok (some request))
    {response : ProviderBatchResult} {result : JudgmentResult}
    (hanswer : rowAnswer request response = .ok result) :
    ∃ value, call.kind.value result = some value := by
  have hvalid : ValidFor request result := by
    have haccepted := rowAnswer_ok_iff.mp ⟨result, hanswer⟩
    obtain ⟨found, hanswers, hfound⟩ := validateBatchResult_singleton haccepted
    simp only [rowAnswer, haccepted, hanswers] at hanswer
    rwa [← Except.ok.inj hanswer]
  obtain ⟨value, hvalue, -⟩ :=
    FunctionKind.ownValue (hkind row request hread) hvalid
  exact ⟨value, hvalue⟩

/-- Row mode has come to its end: all rows are done, or the next one has
stopped it, and its error has been reported. -/
def FunctionCall.Finished (call : FunctionCall) (s : Sheet) : Prop :=
  (s.done = call.rowCount ∧ s.error = none) ∨
    (s.done < call.rowCount ∧ ∃ error, call.Stops s error ∧
      s.error = some (sanitized error.message))

theorem recordRow_sheet {write : ℕ → RunProg Unit}
    (queryScope : Option ℕ) {Q : Unit → Sheet → Prop} {s : Sheet}
    (hnext : Q () s)
    (hwrite : ∀ queryScope, Q () s →
      Follows call.sheetProtocol (write queryScope) Q s) :
    Follows call.sheetProtocol (recordRow queryScope write) Q s := by
  cases queryScope with
  | none => exact hnext
  | some queryScope => exact hwrite queryScope hnext

/-- The loop, from a row on. -/
theorem runRows_sheet (hkind : call.OwnKind) (queryScope : Option ℕ)
    (row n : ℕ) (hn : row + n = call.rowCount) :
    Follows call.sheetProtocol (call.runRows queryScope (List.range' row n))
      (fun _ s => call.Finished s) (.before row) := by
  induction n generalizing row with
  | zero => exact Or.inl ⟨hn, rfl⟩
  | succ n ih =>
      rw [List.range'_succ, FunctionCall.runRows, follows_bind]
      refine recordRow_sheet queryScope ?_ fun _ hnext =>
        ⟨trivial, fun _ _ => hnext⟩
      rw [follows_bind]
      refine (evaluate_sheet (by omega) queryScope).mono
        fun outcome s hrow => ?_
      cases outcome with
      | error error =>
          obtain ⟨hdone, herror, hstops⟩ := hrow
          have hless : s.done < call.rowCount := by omega
          exact ⟨⟨herror, hless, error, hstops, rfl⟩,
            fun _ _ => Or.inr ⟨hless, error, hstops, rfl⟩⟩
      | ok result =>
          cases result with
          | none =>
              obtain ⟨hread, rfl⟩ := hrow
              dsimp only
              rw [follows_bind]
              refine recordRow_sheet queryScope ?_ fun _ hnext =>
                ⟨trivial, fun _ _ => hnext⟩
              rw [follows_bind]
              have hrow : row < call.rowCount := by omega
              exact ⟨⟨rfl, rfl, hrow, rfl, hread⟩,
                fun _ _ => ih (row + 1) (by omega)⟩
          | some result =>
              obtain ⟨request, response, hread, hanswer, rfl⟩ := hrow
              obtain ⟨value, hvalue⟩ := rowAnswer_value hkind hread hanswer
              dsimp only
              rw [follows_bind]
              refine recordRow_sheet queryScope ?_ fun _ hnext =>
                ⟨trivial, fun _ _ => hnext⟩
              rw [follows_bind]
              simp only [writeResult, hvalue]
              have hrow : row < call.rowCount := by omega
              exact ⟨⟨rfl, rfl, hrow, request, response, result, hread, rfl,
                hanswer, hvalue⟩, fun _ _ => ih (row + 1) (by omega)⟩

/-- The body follows the sheet in row mode. -/
theorem run_sheet (hmode : call.optimized = false) (hkind : call.OwnKind) :
    Follows call.sheetProtocol call.run (fun _ s => call.Finished s)
      (.before 0) := by
  have hrows : ∀ queryScope, Follows call.sheetProtocol
      (call.runRows queryScope (List.range call.rowCount))
      (fun _ s => call.Finished s) (.before 0) := by
    intro queryScope
    rw [List.range_eq_range']
    exact runRows_sheet hkind queryScope 0 call.rowCount (by omega)
  unfold FunctionCall.run
  rw [if_neg (by simp [hmode]), follows_bind]
  unfold FunctionCall.queryScope
  split
  · exact ⟨trivial, fun scopes _ => hrows _⟩
  · exact hrows none

end Follows

/-! ## At every moment -/

/-- What a body has done is what its sheet says: the rows which are done have
been derived one by one, at most one request more is under way, and it is that
of the next row. -/
structure FunctionCall.Tells (call : FunctionCall) (h : RunHistory)
    (s : Sheet) : Prop where
  within : s.done ≤ call.rowCount
  rows : ∃ asked, call.Rowwise s.done asked h.cells ∧
    ((s.response = none ∧ h.asked = asked) ∨
      ∃ request response, call.read s.done = .ok (some request) ∧
        s.response = some response ∧
        h.asked = ⟨[], [request], response⟩ :: asked)
  errors : h.errors = s.error.toList

/-- Whatever the discipline allows is told by the sheet. -/
theorem FunctionCall.Tells.step {h : RunHistory} {s : Sheet}
    (htells : call.Tells h s) {op : (Op ⊕ FunctionOp) ⊕ RunOp}
    (hallowed : call.sheetProtocol.Allowed s op) (r : RunResult op) :
    call.Tells (⟨op, r⟩ :: h) (s.note op r) := by
  obtain ⟨hwithin, ⟨asked, hrows, hasked⟩, herrors⟩ := htells
  rcases op with (op | op) | op
  · cases op with
    | judge method carried requests =>
        obtain ⟨-, hnone, -, -, rfl, request, hread, rfl⟩ := hallowed
        refine ⟨hwithin, ⟨asked, hrows, .inr ⟨request, r, hread, rfl, ?_⟩⟩,
          herrors⟩
        rcases hasked with ⟨-, hasked⟩ | ⟨_, _, -, hsome, -⟩
        · rw [← hasked]
          rfl
        · cases hnone.symm.trans hsome
    | _ => exact ⟨hwithin, ⟨asked, hrows, hasked⟩, herrors⟩
  · cases op with
    | writeValue row value =>
        obtain ⟨-, rfl, hless, request, response, result, hread, hresponse,
          hanswer, hvalue⟩ := hallowed
        rcases hasked with ⟨hnone, -⟩ | ⟨request', response', hread', hsome,
          hasked⟩
        · cases hnone.symm.trans hresponse
        obtain rfl := Option.some.inj (hsome.symm.trans hresponse)
        obtain rfl := Option.some.inj (Except.ok.inj (hread'.symm.trans hread))
        exact ⟨hless, ⟨_, hrows.value hread hanswer hvalue, .inl ⟨rfl, hasked⟩⟩,
          herrors⟩
    | setOutputNull row =>
        obtain ⟨-, rfl, hless, hnone, hread⟩ := hallowed
        rcases hasked with ⟨-, hasked⟩ | ⟨_, _, -, hsome, -⟩
        · exact ⟨hless, ⟨asked, hrows.null hread, .inl ⟨rfl, hasked⟩⟩, herrors⟩
        · cases hnone.symm.trans hsome
    | _ => exact ⟨hwithin, ⟨asked, hrows, hasked⟩, herrors⟩
  · cases op with
    | setError message =>
        obtain ⟨hnone, -⟩ := hallowed
        refine ⟨hwithin, ⟨asked, hrows, hasked⟩, ?_⟩
        rw [hnone] at herrors
        exact congrArg (message :: ·) herrors
    | _ => exact ⟨hwithin, ⟨asked, hrows, hasked⟩, herrors⟩

/-- Wherever a body in row mode gets, its sheet tells. -/
theorem FunctionCall.after_sheet (hmode : call.optimized = false)
    (hkind : call.OwnKind) {h : RunHistory} {q : RunProg Unit}
    (hafter : call.run.After h q) :
    ∃ s, call.Tells h s ∧ (q = .ret () → call.Finished s) := by
  have hstart : call.Tells [] (.before 0) :=
    ⟨Nat.zero_le _, ⟨[], .start, .inl ⟨rfl, rfl⟩⟩, rfl⟩
  obtain ⟨htells, hfollows⟩ := hafter.follows
    (I := fun h s => call.Tells h s) (fun _ _ _ => trivial) hstart
    (fun _ _ _ r htells hallowed => htells.step hallowed r)
    (run_sheet hmode hkind)
  refine ⟨_, htells, fun hreturned => ?_⟩
  rwa [hreturned] at hfollows

/-! ## One body alone -/

abbrev RunPool.Reach {ι : Type} [DecidableEq ι]
    (host : ConnectionRuntime → ConnectionRuntime → Prop) :
    RunPool ι → RunPool ι → Prop :=
  Pool.Reachable runStep (SurroundingsStep host)

/-- Perform one operation of a body alone. -/
def Environment.beside (env : Environment) : Surroundings × ℕ →
    (op : (Op ⊕ FunctionOp) ⊕ RunOp) →
      Option (RunResult op × (Surroundings × ℕ))
  | s, .inl op => env.around s op
  | (s, t), .inr op => some ((s.performRun op).1, (s.performRun op).2, t)

theorem Environment.beside_step (env : Environment) (s : Surroundings × ℕ)
    (op : (Op ⊕ FunctionOp) ⊕ RunOp) (r : RunResult op)
    (s' : Surroundings × ℕ) (h : env.beside s op = some (r, s')) :
    runStep s.1 op r s'.1 := by
  cases op with
  | inl op => exact env.around_step s op r s' h
  | inr op =>
      obtain ⟨rfl, rfl⟩ := Prod.mk.inj (Option.some.inj h)
      rfl

/-- A body alone is a schedule, and is told what its environment says. -/
theorem RunPool.run_alone
    (host : ConnectionRuntime → ConnectionRuntime → Prop) {env : Environment}
    {P : Dispatch → Prop} (hresponse : ∀ t method carried requests,
      P ⟨carried, requests, env.judge t method requests⟩)
    {call : FunctionCall} {s : Surroundings} {s' : Surroundings × ℕ}
    {h : RunHistory}
    (hrun : call.run.run env.beside (s, 0) = some ((), s', h)) :
    ∃ p : RunPool Unit, RunPool.Reach host (RunPool.start s fun _ => call) p ∧
      p.shared = s'.1 ∧ p.thread () = .ret () ∧ p.log.of () = h ∧
      ∀ d ∈ RunHistory.asked h, P d := by
  have hreach : RunPool.Reach host (RunPool.start s fun _ : Unit => call) _ :=
    Prog.run_reachable (π := Prod.fst) (i := ()) env.beside_step hrun rfl
  refine ⟨_, hreach, rfl, by simp, by simp [Log.of], fun d hd => ?_⟩
  obtain ⟨method, hmem⟩ := mem_dispatches.mp hd
  obtain ⟨before, after, hhandle⟩ :=
    Prog.run_handled hrun _ (mem_innerOf.mp (mem_innerOf.mp hmem))
  exact env.around_judge hresponse hhandle

/-- The call about two texts, in row mode. -/
def textsByRow : FunctionCall :=
  { textsCall with
    state := { optimizedState with runtimeConfig := .ok rowConfig } }

/-- In row mode, at every moment and under any schedule, a body has derived
its rows one by one.  When it has ended, all of them are done, or the next one
has stopped it and its error is the only one reported. -/
theorem run_rowwise {ι : Type} [DecidableEq ι]
    {host : Surroundings → Surroundings → Prop} {s₀ : Surroundings}
    {calls : ι → FunctionCall} {p : RunPool ι}
    (hreach : Pool.Reachable runStep host (RunPool.start s₀ calls) p) (i : ι)
    (hmode : (calls i).optimized = false) (hkind : (calls i).OwnKind) :
    ∃ s, (calls i).Tells (p.log.of i) s ∧
      (p.thread i = .ret () → (calls i).Finished s) :=
  FunctionCall.after_sheet hmode hkind (Pool.Reachable.after hreach rfl i)

/-- A provider which answers the first request, at the first reading of the
clock, and the others under a key of its own. -/
def turningEnvironment : Environment where
  now := id
  judge := fun t method requests =>
    if t ≤ 1 then halfEnvironment.judge t method requests
    else strayEnvironment.judge t method requests

/-- The first text is judged, the NULL is passed on, and the second text stops
the body. -/
theorem run_rowwise_texts :
    ∃ (p : RunPool Unit) (s : Sheet), textsByRow.Tells (p.log.of ()) s ∧
      s.done = 2 ∧ ∃ error, textsByRow.Stops s error ∧
        RunHistory.errors (p.log.of ()) = [sanitized error.message] := by
  have hrun : (textsByRow.run.run turningEnvironment.beside
      (firstSurroundings, 0)).map (fun last =>
        ((RunHistory.errors last.2.2).length,
          (RunHistory.cells last.2.2).length)) = some (1, 2) := by decide
  obtain ⟨⟨_, s', h⟩, hrun, hcounts⟩ := Option.map_eq_some_iff.mp hrun
  obtain ⟨herrors, hcells⟩ := Prod.mk.inj hcounts
  obtain ⟨p, hreach, -, hreturned, rfl, -⟩ := RunPool.run_alone
    (P := fun _ => True) HostStep (fun _ _ _ _ => trivial) hrun
  have hkind : textsByRow.OwnKind := ownKind_of_readRequest textsCall_read
  obtain ⟨s, htells, hfinished⟩ := run_rowwise hreach () rfl hkind
  obtain ⟨asked, hrows, -⟩ := htells.rows
  have hdone : s.done = 2 := hrows.length_cells.symm.trans hcells
  refine ⟨p, s, htells, hdone, ?_⟩
  rcases hfinished hreturned with ⟨-, hnone⟩ | ⟨-, error, hstops, herror⟩
  · rw [htells.errors, hnone] at herrors
    cases herrors
  · refine ⟨error, hstops, ?_⟩
    rw [htells.errors, herror]
    rfl

end DuckJeu
