import DuckJeu.Functions.Rowwise

/-!
# Both modes of the body

The bodies of a query run all in one mode.  If the provider judges, it does
not matter in which: without an error, each row has the value of its own
judgment, and with one, a body in row mode has written the rows before the one
which stopped it, and an optimized body none.
-/

namespace DuckJeu

open Effects ConnectionRuntime

/-! ## Sincere responses -/

/-- Whatever a response says about a request is its value. -/
def Dispatch.SincereTo (d : Dispatch) (f : Judge) : Prop :=
  ∀ response, d.response = .ok response → ∀ request ∈ d.requests,
    ∀ answer ∈ response.answers, answer.requestKey = request.requestKey →
      answer.result = f.of request

/-- A row which is answered has the value of its request. -/
theorem rowAnswer_sincere {f : Judge} {carried : List JudgmentIdentity}
    {request : JudgmentRequest} {response : ProviderBatchResult}
    {result : JudgmentResult}
    (hsincere : (⟨carried, [request], .ok response⟩ : Dispatch).SincereTo f)
    (hanswer : rowAnswer request response = .ok result) :
    result = f.of request := by
  have haccepted := rowAnswer_ok_iff.mp ⟨result, hanswer⟩
  obtain ⟨found, hanswers, -⟩ := validateBatchResult_singleton haccepted
  simp only [rowAnswer, haccepted, hanswers] at hanswer
  rw [← Except.ok.inj hanswer]
  exact hsincere response rfl request (by simp) ⟨request.requestKey, found⟩
    (by simp [hanswers]) rfl

/-! ## Cells of row mode -/

/-- What stands in a row, the newest first. -/
def cellsIn (row : ℕ) (cells : List (ℕ × Option OutputValue)) :
    List (Option OutputValue) :=
  cells.filterMap fun cell => if cell.1 = row then some cell.2 else none

theorem RunHistory.cellsIn_cells (h : RunHistory) (row : ℕ) :
    cellsIn row h.cells = writtenTo row (outerOf (innerOf h)) := by
  unfold cellsIn RunHistory.cells writtenTo
  rw [List.filterMap_filterMap]
  congr 1
  funext event
  obtain ⟨op, r⟩ := event
  cases op with
  | writeValue other value => rfl
  | setOutputNull other => rfl
  | _ => rfl

/-- The rows of a call up to one of them have been computed, and none of the
others has been written. -/
structure FunctionCall.ComputedUpTo (call : FunctionCall) (f : Judge)
    (done : ℕ) (written : ℕ → List (Option OutputValue)) : Prop where
  within : done ≤ call.rowCount
  computed : ∀ row < done, ∃ read, call.read row = .ok read ∧
    written row = [call.kind.cellOf f read]
  untouched : ∀ row, done ≤ row → row < call.rowCount → written row = []

section Cells

variable {call : FunctionCall} {f : Judge} {done : ℕ} {asked : List Dispatch}
  {cells : List (ℕ × Option OutputValue)}

/-- One more row. -/
theorem cellsIn_step {P : ℕ → List (Option OutputValue) → Prop}
    {cell : Option OutputValue}
    (hcomputed : ∀ row < done, P row (cellsIn row cells))
    (huntouched : ∀ row, done ≤ row → cellsIn row cells = [])
    (hcell : P done [cell]) :
    (∀ row < done + 1, P row (cellsIn row ((done, cell) :: cells))) ∧
      ∀ row, done + 1 ≤ row → cellsIn row ((done, cell) :: cells) = [] := by
  have hother : ∀ row, row ≠ done →
      cellsIn row ((done, cell) :: cells) = cellsIn row cells := by
    intro row hrow
    simp [cellsIn, Ne.symm hrow]
  refine ⟨fun row hrow => ?_, fun row hrow => ?_⟩
  · by_cases hdone : row = done
    · subst hdone
      have hsame : cellsIn row ((row, cell) :: cells) = [cell] := by
        have hnone := huntouched row le_rfl
        unfold cellsIn at hnone ⊢
        simp [hnone]
      rwa [hsame]
    · rw [hother row hdone]
      exact hcomputed row (by omega)
  · rw [hother row (by omega)]
    exact huntouched row (by omega)

theorem FunctionCall.Rowwise.written (hrows : call.Rowwise done asked cells)
    (hsincere : ∀ d ∈ asked, d.SincereTo f) :
    (∀ row < done, ∃ read, call.read row = .ok read ∧
      cellsIn row cells = [call.kind.cellOf f read]) ∧
      ∀ row, done ≤ row → cellsIn row cells = [] := by
  induction hrows with
  | start => exact ⟨fun row hrow => absurd hrow (Nat.not_lt_zero row),
      fun _ _ => rfl⟩
  | null hbefore hread ih =>
      obtain ⟨hcomputed, huntouched⟩ := ih hsincere
      exact cellsIn_step (P := fun row written => ∃ read,
        call.read row = .ok read ∧ written = [call.kind.cellOf f read])
        hcomputed huntouched ⟨none, hread, rfl⟩
  | value hbefore hread hanswer hvalue ih =>
      obtain ⟨hfirst, hrest⟩ := List.forall_mem_cons.mp hsincere
      obtain ⟨hcomputed, huntouched⟩ := ih hrest
      rw [rowAnswer_sincere hfirst hanswer] at hvalue
      exact cellsIn_step (P := fun row written => ∃ read,
        call.read row = .ok read ∧ written = [call.kind.cellOf f read])
        hcomputed huntouched ⟨_, hread, by rw [FunctionKind.cellOf, hvalue]⟩

/-- What the sheet tells has been computed. -/
theorem FunctionCall.Tells.computed {h : RunHistory} {s : Sheet}
    (htells : call.Tells h s) (hsincere : ∀ d ∈ h.asked, d.SincereTo f) :
    call.ComputedUpTo f s.done
      fun row => writtenTo row (outerOf (innerOf h)) := by
  obtain ⟨asked, hrows, hasked⟩ := htells.rows
  have hrest : ∀ d ∈ asked, d.SincereTo f := by
    rcases hasked with ⟨-, rfl⟩ | ⟨_, _, -, -, heq⟩
    · exact hsincere
    · rw [heq] at hsincere
      exact (List.forall_mem_cons.mp hsincere).2
  obtain ⟨hcomputed, huntouched⟩ := hrows.written hrest
  refine ⟨htells.within, fun row hrow => ?_, fun row hrow _ => ?_⟩
  · rw [← RunHistory.cellsIn_cells]
    exact hcomputed row hrow
  · rw [← RunHistory.cellsIn_cells]
    exact huntouched row hrow

end Cells

/-! ## Optimized bodies -/

/-- The errors which are reported for the outcome of an optimized call. -/
def reported : Except JudgmentError Unit → List String
  | .ok () => []
  | .error error => [sanitized error.message]

/-- An optimized body runs its call, and then reports its error. -/
theorem run_optimized_script {call : FunctionCall}
    (hmode : call.optimized = true) :
    Follows (Protocol.scripted (fun _ => some (runOptimized call).run)
        fun _ _ => True) call.run
      (fun _ (h : RunHistory) => ∃ outcome,
        (runOptimized call).run.After (innerOf h) (.ret outcome) ∧
          h.errors = reported outcome) [] := by
  unfold FunctionCall.run
  rw [if_pos hmode, follows_bind]
  refine (follows_embed (h := []) (runOptimized call).run rfl rfl).mono ?_
  rintro outcome h ⟨hafter, houter⟩
  have hsilent : RunHistory.errors h = [] := by
    rw [RunHistory.errors, houter]
    rfl
  cases outcome with
  | ok _ => exact ⟨.ok (), hafter, hsilent⟩
  | error error =>
      refine ⟨trivial, fun _ _ => ⟨.error error, hafter, ?_⟩⟩
      exact congrArg (sanitized error.message :: ·) hsilent

section Pools

variable {ι : Type} [DecidableEq ι] {s₀ : Surroundings}
  {calls : ι → FunctionCall} {p : RunPool ι}

/-- A schedule of optimized bodies is a schedule of their calls. -/
theorem RunPool.functions
    {host : ConnectionRuntime → ConnectionRuntime → Prop}
    (hquiet : ∀ c c', QuietStep c c' → host c c')
    (hreach : RunPool.Reach host (RunPool.start s₀ calls) p)
    (hmode : ∀ i, (calls i).optimized = true) :
    ∃ q : FunctionPool ι,
      FunctionPool.Reach host (FunctionPool.start s₀ calls) q ∧
      q.shared = p.shared ∧
      (∀ i, q.log.of i = innerOf (p.log.of i)) ∧
      ∀ i, p.thread i = .ret () → ∃ outcome, q.thread i = .ret outcome ∧
        RunHistory.errors (p.log.of i) = reported outcome := by
  have hout : ∀ (s : Surroundings) (op : RunOp) (r : RunRes op)
      (s' : Surroundings), runStep s (.inr op) r s' →
        Relation.ReflTransGen (SurroundingsStep host) s s' := by
    intro s op r s' hstep
    obtain rfl : (s.performRun op).2 = s' := congrArg Prod.snd hstep
    cases op with
    | recordRowInput queryScope =>
        exact Relation.ReflTransGen.single
          (.connection s (hquiet _ _ (.rowInput s.connection queryScope)))
    | recordRowResult queryScope isNull =>
        exact Relation.ReflTransGen.single (.connection s
          (hquiet _ _ (.rowResult s.connection queryScope isNull)))
    | _ => exact Relation.ReflTransGen.refl
  -- the call has begun from the start
  let begun : ι → List (Event RunOp RunRes) →
      Option (FunctionRun (Except JudgmentError Unit)) :=
    fun i _ => some (runOptimized (calls i)).run
  have hmono : ∀ i event older q, begun i older = some q →
      begun i (event :: older) = some q := fun _ _ _ _ hbegun => hbegun
  obtain ⟨hinner, hfollows⟩ := Pool.Reachable.inner id functionStep
    (SurroundingsStep host) (fun _ _ _ _ hstep => hstep) hout
    (fun _ _ hstep => Relation.ReflTransGen.single hstep) hmono hreach rfl
    (fun i => run_optimized_script (hmode i))
  obtain ⟨thread, hthreads, hpool⟩ := hinner
    (fun i => (runOptimized (calls i)).run)
    (fun _ _ hbegun => Option.some.inj hbegun)
  refine ⟨_, hpool, rfl, fun i => Log.inner_of p.log i,
    fun i hreturned => ?_⟩
  have hpost := hfollows i
  rw [hreturned] at hpost
  obtain ⟨outcome, hafter, herrors⟩ := hpost
  exact ⟨outcome, (hthreads i).unique hafter, herrors⟩

/-! ## Judges at their places -/

/-- Whatever an optimized call sends, it sends for groups of its own place. -/
theorem FunctionPool.venue {host : ConnectionRuntime → ConnectionRuntime → Prop}
    {q : FunctionPool ι}
    (hreach : FunctionPool.Reach host (FunctionPool.start s₀ calls) q) (i : ι) :
    ∀ group ∈ (innerCall calls q.log i).groups, ∃ scope credentialScope,
      group.identity.venue =
        ((calls i).identityContext scope credentialScope).venue := by
  intro group hgroup
  rw [innerCall] at hgroup
  cases hbegun : (calls i).begunCall (outerOf (q.log.of i)) with
  | none =>
      rw [hbegun] at hgroup
      cases hgroup
  | some inner =>
      rw [hbegun, Option.getD_some] at hgroup
      obtain ⟨scope, inputRows, nullRows, validRows, hmem, -, -⟩ :=
        FunctionCall.begunCall_recorded hbegun
      obtain ⟨credentialScope, -, hsituated⟩ :=
        FunctionPool.situated hreach i hmem
      exact ⟨scope, credentialScope, by rw [hsituated group hgroup, venue_new]⟩

/-- Responses which are sincere to the judges of the calls are truthful to
judges at the places of the calls. -/
theorem FunctionPool.truthful {q : FunctionPool ι}
    (hreach : FunctionPool.Reach HostStep (FunctionPool.start s₀ calls) q)
    {f : ι → Judge} {judges : Venue → Judge}
    (hplaces : ∀ j scope credentialScope,
      judges ((calls j).identityContext scope credentialScope).venue = f j)
    (hsincere : ∀ j, ∀ d ∈ dispatches (innerOf (q.log.of j)), d.SincereTo (f j))
    (i : ι) : ∀ d ∈ dispatches (innerOf (q.log.of i)), d.TruthfulTo judges := by
  obtain ⟨⟨thread, -, hinner⟩, -, -⟩ := FunctionPool.inner
    (fun _ _ h => HostStep.query (.quiet h)) hreach
  intro d hd response hresponse asked hasked answer hanswer hkey
  have hcarries : (innerCall calls q.log i).Carries d.carried d.requests := by
    refine Workers.carried hinner i d ?_
    rwa [Log.inner_of]
  obtain ⟨group, hgroup, hidentity, -⟩ :=
    (List.forall₂_iff_zip.mp hcarries).2 hasked
  obtain ⟨scope, credentialScope, hvenue⟩ :=
    FunctionPool.venue hreach i group hgroup
  rw [← hidentity, hvenue, hplaces]
  exact hsincere i d hd response hresponse asked.2 (List.of_mem_zip hasked).2
    answer hanswer hkey

/-! ## The result -/

/-- The body has either computed all of its rows and reported nothing, or
reported one error: then it has computed the rows before the one which stopped
it if it runs row by row, and written none if it is optimized. -/
def FunctionCall.Ended (call : FunctionCall) (f : Judge) (h : RunHistory) :
    Prop :=
  ∃ done, call.ComputedUpTo f done
      (fun row => writtenTo row (outerOf (innerOf h))) ∧
    ((done = call.rowCount ∧ RunHistory.errors h = []) ∨
      (∃ error : JudgmentError,
        RunHistory.errors h = [sanitized error.message]) ∧
        (call.optimized = true → done = 0) ∧
        (call.optimized = false → done < call.rowCount))

/-- Bodies end so, if the calls at one place have one judge. -/
theorem RunPool.ended {W : WireText}
    (f : ι → Judge) (judges : Venue → Judge) (rows : ι → ℕ → InputRow)
    (hcache : CacheRight W judges s₀.connection)
    (hentries : s₀.connection.queryEntries = ∅)
    (hread : ∀ i row, (calls i).read row =
      readRequest W (calls i).kind (rows i row))
    (hreach : RunPool.Reach HostStep (RunPool.start s₀ calls) p)
    (hplaces : ∀ j scope credentialScope,
      judges ((calls j).identityContext scope credentialScope).venue = f j)
    (hsincere : ∀ j, ∀ d ∈ RunHistory.asked (p.log.of j), d.SincereTo (f j))
    {i : ι} (hmode : (calls i).optimized = true →
      ∀ j, (calls j).optimized = true) (hreturned : p.thread i = .ret ()) :
    (calls i).Ended (f i) (p.log.of i) := by
  have hformed := formed_of_readRequest hread
  cases hi : (calls i).optimized with
  | false =>
      have hkind : (calls i).OwnKind :=
        fun row request hrequest => (hformed i row request hrequest).2
      obtain ⟨s, htells, hend⟩ := FunctionCall.after_sheet hi hkind
        (Pool.Reachable.after hreach rfl i)
      refine ⟨s.done, htells.computed (hsincere i), ?_⟩
      rw [hi]
      rcases hend hreturned with ⟨hdone, hnone⟩ | ⟨hless, error, -, herror⟩
      · exact Or.inl ⟨hdone, by rw [htells.errors, hnone]; rfl⟩
      · refine Or.inr ⟨⟨error, by rw [htells.errors, herror]; rfl⟩, by simp,
          fun _ => hless⟩
  | true =>
      obtain ⟨q, hpool, -, hlogs, houtcomes⟩ :=
        RunPool.functions (fun _ _ h => .query (.quiet h)) hreach (hmode hi)
      obtain ⟨outcome, hq, herrors⟩ := houtcomes i hreturned
      have htruthful := FunctionPool.truthful hpool hplaces fun j d hd => by
        rw [hlogs j] at hd
        exact hsincere j d hd
      obtain ⟨-, -, hfollows⟩ := FunctionPool.inner
        (fun _ _ h => HostStep.query (.quiet h)) hpool
      have hpost := hfollows i
      rw [hq, hlogs i] at hpost
      unfold FunctionCall.Ended
      rw [hi]
      cases outcome with
      | ok _ =>
          obtain ⟨scope, credentialScope, -, hcells⟩ :=
            FunctionPool.computed hcache hentries hformed hpool htruthful hq
          rw [hlogs i, hplaces] at hcells
          exact ⟨_, ⟨le_rfl, hcells,
            fun row hle hrow => absurd hrow (by omega)⟩,
            Or.inl ⟨rfl, herrors⟩⟩
      | error error =>
          refine ⟨0, ⟨Nat.zero_le _, by simp, fun row _ _ => hpost row⟩, ?_⟩
          exact Or.inr ⟨⟨error, herrors⟩, fun _ => rfl, by simp⟩

/-- Optimized bodies leave a cache of right results behind, if they have found
one. -/
theorem RunPool.cache_right {W : WireText}
    (f : ι → Judge) (judges : Venue → Judge) (rows : ι → ℕ → InputRow)
    (hcache : CacheRight W judges s₀.connection)
    (hread : ∀ i row, (calls i).read row =
      readRequest W (calls i).kind (rows i row))
    (hreach : RunPool.Reach HostStep (RunPool.start s₀ calls) p)
    (hplaces : ∀ j scope credentialScope,
      judges ((calls j).identityContext scope credentialScope).venue = f j)
    (hsincere : ∀ j, ∀ d ∈ RunHistory.asked (p.log.of j), d.SincereTo (f j))
    (hmode : ∀ j, (calls j).optimized = true) :
    CacheRight W judges p.shared.connection := by
  have hquiet : ∀ c c', QuietStep c c' → HostStep c c' :=
    fun _ _ h => .query (.quiet h)
  obtain ⟨q, hpool, hshared, hlogs, -⟩ :=
    RunPool.functions hquiet hreach hmode
  have htruthful := FunctionPool.truthful hpool hplaces fun j d hd => by
    rw [hlogs j] at hd
    exact hsincere j d hd
  obtain ⟨⟨thread, -, hinner⟩, -, -⟩ := FunctionPool.inner hquiet hpool
  choose venues hvenues using FunctionPool.formedAt (W := W)
    (fun i row request hrequest =>
      (formed_of_readRequest hread i row request hrequest).1) hpool
  rw [← hshared]
  refine (Workers.cache_right hcache hvenues hinner fun i d hd => ?_).1
  rw [Log.inner_of] at hd
  exact htruthful i d hd

/-- Optimized bodies run beside optimized ones only.  If every response says
of each request its value, then a body which has ended has either computed all
of its rows and reported nothing, or reported one error: then it has computed
the rows before the one which stopped it if it runs row by row, and written
none if it is optimized. -/
theorem run_pointwise {W : WireText}
    (hempty : s₀.connection.cache.entries = ∅)
    (hentries : s₀.connection.queryEntries = ∅) {rows : ι → ℕ → InputRow}
    (hread : ∀ i row, (calls i).read row =
      readRequest W (calls i).kind (rows i row))
    (hreach : RunPool.Reach HostStep (RunPool.start s₀ calls) p) (f : Judge)
    (hsincere : ∀ i, ∀ d ∈ RunHistory.asked (p.log.of i), d.SincereTo f)
    (i : ι) (hmode : (calls i).optimized = true →
      ∀ j, (calls j).optimized = true) (hreturned : p.thread i = .ret ()) :
    ∃ done, (calls i).ComputedUpTo f done
        (fun row => writtenTo row (outerOf (innerOf (p.log.of i)))) ∧
      ((done = (calls i).rowCount ∧ RunHistory.errors (p.log.of i) = []) ∨
        (∃ error : JudgmentError, RunHistory.errors (p.log.of i) =
          [sanitized error.message]) ∧
          ((calls i).optimized = true → done = 0) ∧
          ((calls i).optimized = false → done < (calls i).rowCount)) :=
  RunPool.ended (fun _ => f) (fun _ => f) rows (.of_empty hempty) hentries hread
    hreach (fun _ _ _ => rfl) hsincere hmode hreturned

end Pools

/-! ## Texts in both modes -/

theorem halfEnvironment_sincere (t : ℕ) (method : ProviderCall)
    (carried : List JudgmentIdentity) (requests : List JudgmentRequest) :
    (⟨carried, requests, halfEnvironment.judge t method requests⟩ :
      Dispatch).SincereTo (halfJudge aliasContext.venue) := by
  rintro response hresponse request - answer hanswer -
  obtain rfl := Except.ok.inj hresponse
  obtain ⟨request, -, rfl⟩ := List.mem_map.mp hanswer
  rfl

/-- The call alone ends without an error, and each row has its own value. -/
def FunctionCall.ComputesTexts (call : FunctionCall) : Prop :=
  ∃ p : RunPool Unit, p.thread () = .ret () ∧
    RunHistory.errors (p.log.of ()) = [] ∧
      call.ComputedUpTo (halfJudge aliasContext.venue) 3
        fun row => writtenTo row (outerOf (innerOf (p.log.of ())))

theorem run_pointwise_texts :
    textsByRow.ComputesTexts ∧ textsCall.ComputesTexts := by
  suffices h : ∀ call ∈ [textsByRow, textsCall], call.ComputesTexts from
    ⟨h _ (List.mem_pair.mpr (Or.inl rfl)), h _ (List.mem_pair.mpr (Or.inr rfl))⟩
  intro call hcall
  have hrun : (call.run.run halfEnvironment.beside (firstSurroundings, 0)).map
      (fun last => RunHistory.errors last.2.2) = some [] := by
    rcases List.mem_pair.mp hcall with rfl | rfl
    · decide
    · decide
  have hread : ∀ (_ : Unit) row, call.read row =
      readRequest literalText call.kind (textsRows row) := by
    rcases List.mem_pair.mp hcall with rfl | rfl
    · exact fun _ => textsCall_read
    · exact fun _ => textsCall_read
  have hrows : call.rowCount = 3 := by
    rcases List.mem_pair.mp hcall with rfl | rfl
    · rfl
    · rfl
  obtain ⟨⟨_, s', h⟩, hrun, hsilent⟩ := Option.map_eq_some_iff.mp hrun
  obtain ⟨p, hreach, -, hreturned, rfl, hsincere⟩ := RunPool.run_alone
    (P := fun d => d.SincereTo (halfJudge aliasContext.venue)) HostStep
    halfEnvironment_sincere hrun
  obtain ⟨done, hcomputed, ⟨hdone, -⟩ | ⟨⟨error, herror⟩, -⟩⟩ :=
    run_pointwise rfl rfl hread hreach (halfJudge aliasContext.venue)
      (fun _ => hsincere) () (fun h _ => h) hreturned
  · rw [hdone, hrows] at hcomputed
    exact ⟨p, hreturned, hsilent, hcomputed⟩
  · cases herror.symm.trans hsilent

end DuckJeu
