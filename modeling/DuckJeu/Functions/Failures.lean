import DuckJeu.Executor.Culprit
import DuckJeu.Functions.Bodies
import DuckJeu.Functions.Conservation

/-!
# Where the errors of functions come from

While its query runs, an optimized body which reports an error has one of its
own: of its settings, of a row which it cannot read, or of the executor.
Behind an error of the executor there are again settings, or a failed request,
of this body or of one whose entry it has found.
-/

namespace DuckJeu

open Effects ConnectionRuntime

/-! ## One call -/

namespace FunctionCall

variable (call : FunctionCall)

/-- The errors which a call has of itself. -/
inductive Faults : JudgmentError → Prop
  | settings {message : String}
      (hconfig : call.state.runtimeConfig = .error message) :
      Faults (.configuration message)
  | rowConfig {config : RuntimeConfig}
      (hconfig : call.state.runtimeConfig = .ok config)
      (hmode : config.mode ≠ .optimized) :
      Faults (.configuration
        "internal error: optimized execution has row configuration")
  | bridge (hconnected : call.state.connected = false) :
      Faults (.configuration
        "optimized execution requires the DuckDB v1.5.5 connection bridge")
  | provider {message : String}
      (hprovider : call.state.provider = .error message) :
      Faults (.configuration message)
  | row {row : ℕ} {error : JudgmentError} (hrow : row < call.rowCount)
      (hbefore : ∀ earlier < row, ∃ request, call.read earlier = .ok request)
      (hread : call.read row = .error error) : Faults error

/-- The reasons for which a call fails: its own errors, a query which it cannot
enter, and errors of the executor. -/
inductive Reason (h : FunctionHistory) (error : JudgmentError) : Prop
  | own (hfaults : call.Faults error)
  | query {credential : Option String}
      (hentry : (⟨.enterQuery credential, .error error⟩ :
        Event FunctionOp FunctionRes) ∈ outerOf h)
  | executor {inner : Call} (hbegun : call.begunCall (outerOf h) = some inner)
      (hafter : inner.program.After (innerOf h) (.ret (.error error)))

variable {call : FunctionCall}

/-- The loop over the rows stops at the first row which cannot be read. -/
theorem collect_error {context : JudgmentIdentityContext}
    {invocation chunk nullRows : ℕ} {work : List JudgmentWork} {rows : List ℕ}
    {error : JudgmentError}
    (h : call.collect context invocation chunk work nullRows rows =
      .error error) :
    ∃ before row after, rows = before ++ row :: after ∧
      (∀ earlier ∈ before, ∃ request, call.read earlier = .ok request) ∧
      call.read row = .error error := by
  induction rows generalizing work nullRows with
  | nil => cases h
  | cons row rest ih =>
      have hlater : ∀ {request}, call.read row = .ok request →
          (∃ before other after, rest = before ++ other :: after ∧
            (∀ earlier ∈ before, ∃ request, call.read earlier = .ok request) ∧
            call.read other = .error error) →
          ∃ before other after, row :: rest = before ++ other :: after ∧
            (∀ earlier ∈ before, ∃ request, call.read earlier = .ok request) ∧
            call.read other = .error error := by
        rintro request hread ⟨before, other, after, rfl, hbefore, herror⟩
        exact ⟨row :: before, other, after, rfl,
          List.forall_mem_cons.mpr ⟨⟨request, hread⟩, hbefore⟩, herror⟩
      rw [collect] at h
      split at h
      · rename_i hread
        obtain rfl := Except.error.inj h
        exact ⟨[], row, rest, rfl, List.forall_mem_nil _, hread⟩
      · rename_i hread
        exact hlater hread (ih h)
      · rename_i hread
        exact hlater hread (ih h)

/-- The first row which cannot be read, among all rows. -/
theorem Faults.of_collect {context : JudgmentIdentityContext}
    {invocation chunk : ℕ} {error : JudgmentError}
    (h : call.collect context invocation chunk [] 0
      (List.range call.rowCount) = .error error) : call.Faults error := by
  obtain ⟨before, row, after, hrows, hbefore, hread⟩ := collect_error h
  have hlength : before.length < call.rowCount := by
    have hlengths := congrArg List.length hrows
    rw [List.length_range, List.length_append, List.length_cons] at hlengths
    omega
  have hrow : row = before.length := by
    have hget := congrArg (fun rows => rows[before.length]?) hrows
    simpa [hlength] using hget.symm
  refine .row (hrow ▸ hlength) (fun earlier hearlier => hbefore earlier ?_)
    hread
  have htake : before = List.range before.length := by
    have htaken := congrArg (List.take before.length) hrows
    rw [List.take_left, List.take_range, min_eq_left hlength.le] at htaken
    exact htaken.symm
  rw [htake, List.mem_range]
  omega

end FunctionCall

section Follows

variable {call : FunctionCall}

/-- The executor fails for reasons of its own. -/
theorem execute_reasons {config : RuntimeConfig} {queryScope : ℕ}
    {groups : List JudgmentGroup} {h : FunctionHistory}
    {inputRows nullRows validRows : ℕ}
    (hconfig : call.state.runtimeConfig = .ok config)
    (hnone : (outerOf h).reverse.findSome? recorded? = none)
    (hinner : innerOf h = []) :
    Secures call.script (call.execute config queryScope groups)
      (fun _ _ => True) (fun error h' => call.Reason h' error)
      (⟨.inr (.recordOptimizedRows queryScope inputRows nullRows validRows
        groups), ()⟩ :: h) := by
  unfold FunctionCall.execute
  split
  · trivial
  rename_i hgroups
  split
  · rename_i message hprovider
    exact .own (.provider hprovider)
  rename_i provider hprovider
  obtain ⟨group, rest, rfl⟩ := List.exists_cons_of_ne_nil
    (fun hnil => hgroups (List.isEmpty_iff.mpr hnil))
  have hcall : call.begunCall (⟨.recordOptimizedRows queryScope inputRows
      nullRows validRows (group :: rest), ()⟩ :: outerOf h) =
      some (call.executorCall config provider queryScope (group :: rest)) := by
    rw [FunctionCall.begunCall, List.reverse_cons, List.findSome?_append, hnone]
    simp [recorded?, hconfig, hprovider]
  have hbegun : call.begun (outerOf (⟨.inr (.recordOptimizedRows queryScope
      inputRows nullRows validRows (group :: rest)), ()⟩ :: h)) =
      some (call.executorCall config provider queryScope
        (group :: rest)).program := by
    rw [outerOf_inr, FunctionCall.begun, hcall]
    rfl
  rw [secures_mk]
  refine (follows_embed _ hbegun ?_).mono ?_
  · rw [innerOf_inr, hinner]
    rfl
  · rintro (error | executed) h' ⟨hafter, houter⟩
    · rw [outerOf_inr] at houter
      exact .executor (houter ▸ hcall) hafter
    · trivial

/-- A call fails for a reason. -/
theorem runOptimized_reasons (call : FunctionCall) :
    Follows call.script (runOptimized call).run
      (fun outcome h => ∀ error, outcome = .error error → call.Reason h error)
      [] := by
  suffices h : Secures call.script (runOptimized call) (fun _ _ => True)
      (fun error h => call.Reason h error) [] by
    refine Follows.mono h ?_
    rintro outcome h' hpost error rfl
    exact hpost
  have hoperation : ∀ {op : FunctionOp}, op.IsRecord = false →
      ∀ (h : FunctionHistory), call.script.Allowed h (.inr op) :=
    fun hop _ => FunctionCall.allowedOutside_unrecorded hop
  unfold runOptimized
  split
  · rename_i message hconfig
    exact .own (.settings hconfig)
  rename_i config hconfig
  split
  · rename_i hmode
    exact .own (.rowConfig hconfig hmode)
  split
  · rename_i hconnected
    exact .own (.bridge (by simpa using hconnected))
  rw [secures_bind, secures_mk, follows_perform]
  refine ⟨hoperation rfl _, ?_⟩
  rintro (error | ⟨queryScope, credentialScope⟩) -
  · exact .query (List.mem_cons_self ..)
  dsimp only
  rw [secures_bind, secures_lift, follows_perform]
  have hentered : FunctionCall.Entered
      [⟨.enterQuery call.state.context.credential,
        .ok (queryScope, credentialScope)⟩] queryScope :=
    ⟨_, credentialScope, List.mem_cons_self ..⟩
  refine ⟨fun _ => .input hentered rfl, fun _ _ => ?_⟩
  rw [secures_bind, secures_lift, follows_perform]
  refine ⟨hoperation rfl _, fun invocation _ => ?_⟩
  rw [secures_bind, secures_lift, follows_perform]
  refine ⟨hoperation rfl _, fun chunk _ => ?_⟩
  split
  · rename_i error hcollect
    exact .own (.of_collect hcollect)
  rename_i work nullRows hcollect
  rw [secures_bind, secures_lift, follows_perform]
  refine ⟨fun _ => .collected rfl hcollect, fun _ _ => ?_⟩
  rw [secures_bind]
  refine (execute_reasons hconfig rfl rfl).mono (fun executed h _ => ?_)
    fun _ _ hreason => hreason
  rw [secures_lift]
  exact (writeRows_follows call.kind 0 _ h).mono fun _ _ _ => trivial

end Follows

/-! ## Pools -/

/-- The error is one which the call has of itself, or is to be blamed on the
settings and requests of a call of the executor: its own, or one whose entry it
has found. -/
def BlamedIn {ι : Type} (calls : ι → FunctionCall)
    (log : ι → FunctionHistory) (i : ι) (error : JudgmentError) : Prop :=
  (calls i).Faults error ∨ ∃ j inner,
    (calls j).begunCall (outerOf (log j)) = some inner ∧
      (j = i ∨ Joins (innerOf (log i)) (innerOf (log j))) ∧
      inner.Blamed (innerOf (log j)) error

section Pools

variable {ι : Type} [DecidableEq ι] {s₀ : Surroundings}
  {calls : ι → FunctionCall} {q : FunctionPool ι} {i : ι} {scope : ℕ}

theorem onward_perform (s : Surroundings) (op : FunctionOp) :
    Onward s.connection (s.perform op).2.connection := by
  rcases perform_quiet s op with hsame | hquiet
  · rw [hsame]
    exact ⟨fun _ hrunning => ⟨hrunning, rfl⟩, fun _ _ hslot => hslot⟩
  · exact onward_query (.quiet hquiet)

/-- Whoever enters while a query runs enters this query. -/
theorem enterQuery_running {s : Surroundings} {credential : Option String}
    (hrunning : (s.enterQuery credential).2.connection.Running scope) :
    ∃ credentialScope,
      (s.enterQuery credential).1 = .ok (scope, credentialScope) := by
  obtain ⟨flag, hflag, -⟩ :=
    ((onward_perform s (.enterQuery credential)).running scope hrunning).1
  obtain ⟨query, hactive, hscope, -⟩ := queryCancellation_ok_iff.mp hflag
  have hquery : s.connection.activeFor scope = some query := by
    rw [activeFor, hactive]
    simp [hscope]
  exact enterQuery_active hquery credential

/-- The calls of a running query have all entered it. -/
theorem FunctionPool.entered
    (hreach : FunctionPool.Reach QueryStep (FunctionPool.start s₀ calls) q)
    (i : ι) {credential : Option String} {r : Except JudgmentError (ℕ × ℕ)}
    (hentry : (⟨.enterQuery credential, r⟩ :
      Event FunctionOp FunctionRes) ∈ outerOf (q.log.of i))
    (hrunning : q.shared.connection.Running scope) :
    ∃ credentialScope, r = .ok (scope, credentialScope) := by
  refine hreach.invariant (fun q => ∀ scope,
    q.shared.connection.Running scope → ∀ i credential r,
      (⟨.enterQuery credential, r⟩ : Event FunctionOp FunctionRes) ∈
        outerOf (q.log.of i) → ∃ credentialScope,
          r = .ok (scope, credentialScope)) ?_ ?_ scope hrunning i credential r
      hentry
  · intro scope _ i credential r hmem
    cases hmem
  rintro q q' hall (⟨hnext, hstep⟩ | hhost) scope hrunning j credential r hmem
  · rename_i k op m r' s'
    cases op with
    | inl op =>
        obtain ⟨c, hstep, rfl⟩ := hstep
        refine hall scope ((onward_step hstep).running scope hrunning).1 j
          credential r ?_
        by_cases hkj : k = j
        · subst hkj
          rwa [Log.of_cons_self, outerOf_inl] at hmem
        · rwa [Log.of_cons_ne hkj] at hmem
    | inr op =>
        obtain ⟨rfl, rfl⟩ :=
          Prod.mk.inj (show q.shared.perform op = _ from hstep)
        have hbefore :=
          ((onward_perform q.shared op).running scope hrunning).1
        by_cases hkj : k = j
        · subst hkj
          rw [Log.of_cons_self, outerOf_inr] at hmem
          rcases List.mem_cons.mp hmem with hnew | hmem
          · obtain ⟨rfl, hr⟩ := Sigma.mk.inj hnew
            obtain rfl := eq_of_heq hr
            exact enterQuery_running hrunning
          · exact hall scope hbefore k credential r hmem
        · rw [Log.of_cons_ne hkj] at hmem
          exact hall scope hbefore j credential r hmem
  · refine hall scope ?_ j credential r hmem
    cases hhost with
    | connection hhost =>
        exact ((onward_query hhost).running scope hrunning).1
    | process => exact hrunning

/-- What runs in the executor belongs to the running query. -/
theorem FunctionPool.begun_scope
    (hreach : FunctionPool.Reach QueryStep (FunctionPool.start s₀ calls) q)
    {inner : Call}
    (hbegun : (calls i).begunCall (outerOf (q.log.of i)) = some inner)
    (hrunning : q.shared.connection.Running scope) :
    inner.limits.queryScope = scope := by
  obtain ⟨recorded, inputRows, nullRows, validRows, hmem, -, hscope⟩ :=
    FunctionCall.begunCall_recorded hbegun
  obtain ⟨credentialScope, hentry, -⟩ := FunctionPool.situated hreach i hmem
  obtain ⟨other, hentered⟩ := FunctionPool.entered hreach i hentry hrunning
  obtain ⟨rfl, -⟩ := Prod.mk.inj (Except.ok.inj hentered)
  exact hscope

/-- While the query runs, there is somebody to blame for every failure. -/
theorem FunctionPool.blamed (hentries : s₀.connection.queryEntries = ∅)
    (hrange : FlagInRange s₀.connection)
    (hreach : FunctionPool.Reach QueryStep (FunctionPool.start s₀ calls) q)
    (hrunning : q.shared.connection.Running scope) {error : JudgmentError}
    (hreturned : q.thread i = .ret (.error error)) :
    BlamedIn calls (fun j => q.log.of j) i error := by
  have hreason := ((Pool.Reachable.after hreach rfl i).follows
    (I := fun h g => g = h) (fun _ _ _ => trivial) rfl ?_
    (runOptimized_reasons (calls i)))
  · obtain ⟨hsame, hfollows⟩ := hreason
    rw [hsame, hreturned] at hfollows
    rcases hfollows error rfl with hfaults | hentry | ⟨hbegun, hafter⟩
    · exact Or.inl hfaults
    · obtain ⟨_, hentered⟩ := FunctionPool.entered hreach i hentry hrunning
      cases hentered
    · rename_i inner
      obtain ⟨⟨thread, hthreads, hinner⟩, hidle, -⟩ :=
        FunctionPool.inner (fun _ _ h => .quiet h) hreach
      have hcall : innerCall calls q.log i = inner := by
        rw [innerCall, hbegun, Option.getD_some]
      have hworker : thread i = .ret (.error error) := by
        refine (hthreads i).unique ?_
        rwa [hcall]
      have hscope : (innerCall calls q.log i).limits.queryScope = scope := by
        rw [hcall]
        exact FunctionPool.begun_scope hreach hbegun hrunning
      obtain ⟨j, hjoins, hblamed⟩ := Workers.culprit hentries hrange hinner
        (by rwa [hscope]) hworker
      simp only [Log.inner_of] at hjoins hblamed
      refine Or.inr ⟨j, innerCall calls q.log j, ?_, hjoins, hblamed⟩
      cases hother : (calls j).begunCall (outerOf (q.log.of j)) with
      | some other => rw [innerCall, hother, Option.getD_some]
      | none =>
          -- whoever is joined has begun
          rcases hjoins with rfl | ⟨identity, entry, -, hclaim⟩
          · rw [hbegun] at hother
            cases hother
          · rw [hidle j hother] at hclaim
            cases hclaim
  · rintro h _ op r rfl _
    rfl

/-- While their query runs, optimized bodies report only errors for which there
is somebody to blame. -/
theorem errors_blamed {p : RunPool ι}
    (hentries : s₀.connection.queryEntries = ∅)
    (hrange : FlagInRange s₀.connection)
    (hreach : RunPool.Reach QueryStep (RunPool.start s₀ calls) p)
    (hmode : ∀ i, (calls i).optimized = true)
    (hrunning : p.shared.connection.Running scope) (i : ι)
    (hreturned : p.thread i = .ret ()) {text : String}
    (htext : text ∈ RunHistory.errors (p.log.of i)) :
    ∃ error : JudgmentError, text = sanitized error.message ∧
      BlamedIn calls (fun j => innerOf (p.log.of j)) i error := by
  obtain ⟨q, hpool, hshared, hlogs, houtcomes⟩ :=
    RunPool.functions (fun _ _ h => .quiet h) hreach hmode
  obtain ⟨outcome, houtcome, herrors⟩ := houtcomes i hreturned
  rw [herrors] at htext
  cases outcome with
  | ok _ => cases htext
  | error error =>
      rw [← hshared] at hrunning
      have hblamed :=
        FunctionPool.blamed hentries hrange hpool hrunning houtcome
      simp only [hlogs] at hblamed
      exact ⟨error, List.mem_singleton.mp htext, hblamed⟩

end Pools

/-! ## A service which is down -/

theorem running_of_toOption {c : ConnectionRuntime} {scope flag : ℕ}
    (hgiven : (c.queryCancellation scope).toOption = some flag)
    (hdown : c.flagged flag = false) : c.Running scope := by
  cases hcancellation : c.queryCancellation scope with
  | error error =>
      rw [hcancellation] at hgiven
      cases hgiven
  | ok given =>
      rw [hcancellation] at hgiven
      obtain rfl := Option.some.inj hgiven
      exact ⟨_, hcancellation, hdown⟩

/-- A provider which answers nothing. -/
def failingEnvironment : Environment where
  now := id
  judge := fun _ _ _ => .error (.provider "service\x00unavailable")

theorem errors_blamed_texts :
    ∃ (p : RunPool Unit) (error : JudgmentError),
      p.thread () = .ret () ∧
      "service unavailable" = sanitized error.message ∧
      BlamedIn (fun _ => textsCall) (fun j => innerOf (p.log.of j)) ()
        error := by
  have hrun : (textsCall.run.run failingEnvironment.beside
      (firstSurroundings, 0)).map (fun last =>
        (RunHistory.errors last.2.2,
          (last.2.1.1.connection.queryCancellation 0).toOption,
          last.2.1.1.connection.flagged 0)) =
        some (["service unavailable"], some 0, false) := by
    decide +kernel
  obtain ⟨⟨_, s', h⟩, hrun, hlast⟩ := Option.map_eq_some_iff.mp hrun
  obtain ⟨herrors, hgiven, hdown⟩ : RunHistory.errors h =
      ["service unavailable"] ∧
      (s'.1.connection.queryCancellation 0).toOption = some 0 ∧
      s'.1.connection.flagged 0 = false := by
    simpa using hlast
  obtain ⟨p, hreach, hshared, hreturned, rfl, -⟩ := RunPool.run_alone
    (P := fun _ => True) QueryStep (fun _ _ _ _ => trivial) hrun
  have hrunning : p.shared.connection.Running 0 := by
    rw [hshared]
    exact running_of_toOption hgiven hdown
  have hfirst : firstSurroundings.connection.Running 0 := ⟨0, rfl, rfl⟩
  have htext : "service unavailable" ∈ RunHistory.errors (p.log.of ()) := by
    rw [herrors]
    exact List.mem_singleton_self _
  obtain ⟨error, hsame, hblamed⟩ := errors_blamed rfl
    (FlagInRange.of_running hfirst) hreach (fun _ => rfl) hrunning () hreturned
    htext
  exact ⟨p, error, hreturned, hsame, hblamed⟩

end DuckJeu
