import DuckJeu.Core.Exactness
import DuckJeu.Executor.Undisturbed
import DuckJeu.Functions.RowAccount

/-!
# Row mode and the optimized modes

Against a provider which judges, all ways of running a function give the same
values.  Rows with one identity share a request, and the value of a row is that
of its own request all the same: within one context an identity tells the
request.
-/

namespace DuckJeu

open Effects ConnectionRuntime

/-! ## Work and its groups -/

/-- Well-formed requests, with the identities of one context. -/
def WorkIn (W : WireText) (context : JudgmentIdentityContext)
    (work : List JudgmentWork) : Prop :=
  ∀ item ∈ work, WellFormed W item.request ∧
    item.identity = .new item.request context

section Groups

variable {W : WireText} {context : JudgmentIdentityContext}
  {work : List JudgmentWork}

/-- A group has the identity and the request of an item. -/
theorem WorkIn.source (hwork : WorkIn W context work) {group : JudgmentGroup}
    (hgroup : group ∈ groupByIdentity work) :
    (∃ item ∈ work, item.request = group.request) ∧
      WellFormed W group.request ∧
        group.identity = .new group.request context := by
  obtain ⟨grouping, hgroups, hsound⟩ := groupByIdentity_sound work
  obtain ⟨item, hitem, hidentity, hrequest⟩ :=
    hsound.source group (hgroups.symm ▸ hgroup)
  obtain ⟨hformed, hnew⟩ := hwork item hitem
  exact ⟨⟨item, hitem, hrequest⟩, hrequest ▸ hformed,
    hidentity.symm.trans (hrequest ▸ hnew)⟩

/-- The groups expand to the rows, each with the value of its own request. -/
theorem WorkIn.rows (hwork : WorkIn W context work) (f : Judge) :
    ((groupByIdentity work).flatMap fun group =>
      group.expand (f.of group.request)).Perm
        (work.map fun item => (item.target, f.of item.request)) := by
  -- within the context, the identity of an item decides its value
  let items := {item // item ∈ work}
  have hfactors : Function.FactorsThrough
      (fun item : items => f.of item.1.request)
      (fun item : items => item.1.identity) := by
    rintro ⟨item, hitem⟩ ⟨item', hitem'⟩ hidentity
    obtain ⟨hformed, hnew⟩ := hwork item hitem
    obtain ⟨hformed', hnew'⟩ := hwork item' hitem'
    have hsame : item.request = item'.request :=
      hformed.eq_of_identity hformed' (hnew.symm.trans (hidentity.trans hnew'))
    exact congrArg f.of hsame
  let value : JudgmentIdentity → JudgmentResult :=
    Function.extend (fun item : items => item.1.identity)
      (fun item : items => f.of item.1.request) fun _ => .noul .zero
  have hvalue : ∀ item ∈ work, value item.identity = f.of item.request :=
    fun item hitem => hfactors.extend_apply _ ⟨item, hitem⟩
  obtain ⟨grouping, hgroups, hsound⟩ := groupByIdentity_sound work
  have hrows := hsound.rows value
  rw [hgroups] at hrows
  have hitems : (work.map fun item => (item.target, value item.identity)) =
      work.map fun item => (item.target, f.of item.request) :=
    List.map_congr_left fun item hitem => by rw [hvalue item hitem]
  have hexpand : ((groupByIdentity work).flatMap fun group =>
        group.expand (value group.identity)) =
      (groupByIdentity work).flatMap fun group =>
        group.expand (f.of group.request) := by
    refine List.flatMap_congr fun group hgroup => ?_
    obtain ⟨item, hitem, hidentity, hrequest⟩ :=
      hsound.source group (hgroups.symm ▸ hgroup)
    rw [← hidentity, hvalue item hitem, hrequest]
  rwa [hitems, hexpand] at hrows

end Groups

/-! ## Providers without limits -/

/-- All capabilities are verified, and the choices are not limited. -/
structure Provider.Unrestricted (provider : Provider) : Prop where
  noul : provider.capabilities.noul = .verified
  choice : provider.capabilities.choice = .verified
  multiStateBatch : provider.capabilities.multiStateBatch = .verified
  maxChoices : provider.capabilities.maxChoices = none

theorem Provider.Unrestricted.gate {provider : Provider}
    (h : provider.Unrestricted) (request : JudgmentRequest) :
    provider.gate request = true := by
  have hkind : provider.capabilities.supports request.kind = .verified := by
    cases request.kind with
    | noul => exact h.noul
    | choice => exact h.choice
  simp [Provider.gate, Provider.withinChoiceLimit, hkind, h.maxChoices]

/-- In row mode the value of a row is that of its request. -/
theorem evaluateRow_judged {env : Environment} {f : Judge}
    (henv : env.Judges f) {provider : Provider} {config : RuntimeConfig}
    {request : JudgmentRequest} (hgate : provider.gate request = true)
    (hmode : config.mode = .row) (hvalid : ValidFor request (f.of request))
    {c : ConnectionRuntime} {scope : ℕ} (hrunning : c.Running scope)
    (hfree : c.inflight.active < config.maxInflight) :
    ∃ s h, env.run (evaluateRow (.ok provider) (.ok config) (some scope)
      (.ok (some request))).run c = some (.ok (some (f.of request)), s, h) := by
  obtain ⟨flag, hcancel, hdown⟩ := hrunning
  have hpositive : config.maxInflight ≠ 0 := by omega
  have hacquire : ∃ c', c.acquirePermit config.maxInflight flag =
      some (.ok (), c') := by
    rw [acquirePermit, if_neg hpositive, hdown, if_neg (by simp), if_pos hfree]
    exact ⟨_, rfl⟩
  obtain ⟨c', hacquire⟩ := hacquire
  have hgranted : ∃ s h, env.exec (judgeRow provider config.maxInflight
      (some scope) request) (c, 0) = some (answered request
        (env.judge 1 .judgeWithMetadata [request]), s, h) := by
    obtain ⟨s, h, hrow, -⟩ := judgeRow_granted env hcancel hacquire
    exact ⟨s, h, hrow⟩
  obtain ⟨s, h, hrow⟩ := hgranted
  obtain ⟨response, hresponse, hanswers⟩ :=
    henv 1 .judgeWithMetadata [request]
  have haccepted : validateBatchResult [request] response = .ok () :=
    hanswers.accepted (by simp) (by simpa using hvalid)
  have hanswer : response.answers = [⟨request.requestKey, f.of request⟩] :=
    List.perm_singleton.mp hanswers
  refine ⟨s, h, ?_⟩
  rw [evaluateRow_admitted env hgate hmode, hrow, hresponse]
  simp only [answered, rowAnswer, haccepted, hanswer]
  rfl

/-! ## Agreement -/

/-- Alone in a fresh query, against a provider which judges, both optimized
modes return each row with the value of its request, and so does row mode. -/
theorem modes_agree (W : WireText) (f : Judge) (hvalues : f.Valid W)
    (env : Environment) (henv : env.Judges f)
    (context : JudgmentIdentityContext) (work : List JudgmentWork)
    (hwork : WorkIn W context work) (provider : Provider)
    (hprovider : provider.Unrestricted)
    (hservice : provider.capabilities.maxBatchJudgments ≠ some 0)
    (limits : ExecutionLimits) (hbytes : 0 < limits.maxRequestBytes)
    (hfits : ∀ item ∈ work, provider.estimateRequestBytes [item.request] ≤
      limits.maxRequestBytes)
    (cachePolicy : Option CachePolicy)
    (hpolicy : ∀ policy ∈ cachePolicy, policy.validate = .ok ())
    (maxJudgments : ℕ) (hmax : 1 ≤ maxJudgments) (order : LeaderOrder)
    (c : ConnectionRuntime) (now : ℕ)
    (hcache : cachePolicy = none ∨ UsedWith W f c)
    (hscope : limits.queryScope = c.nextQueryId)
    (hfree : c.inflight.active < limits.maxInflight) :
    (∃ output s h, env.run (executeGroups (groupByIdentity work) provider
        limits cachePolicy).run (c.beginQuery now) = some (.ok output, s, h) ∧
      output.Perm (work.map fun item => (item.target, f.of item.request))) ∧
    (∃ output s h, env.run (executeBatchGroups (groupByIdentity work) provider
        maxJudgments order limits cachePolicy).run (c.beginQuery now) =
          some (.ok output, s, h) ∧
      output.Perm (work.map fun item => (item.target, f.of item.request))) ∧
    ∀ config : RuntimeConfig, config.mode = .row → ∀ item ∈ work,
      ∀ (c' : ConnectionRuntime) (scope : ℕ), c'.Running scope →
        c'.inflight.active < config.maxInflight →
        ∃ s h, env.run (evaluateRow (.ok provider) (.ok config) (some scope)
          (.ok (some item.request))).run c' =
            some (.ok (some (f.of item.request)), s, h) := by
  have hcall : ∀ mode, (∀ maxJudgments order, mode = .batched maxJudgments
      order → 1 ≤ maxJudgments) →
      ∃ output s h, env.run (Call.program ⟨groupByIdentity work, provider,
        limits, cachePolicy, mode⟩) (c.beginQuery now) =
          some (.ok output, s, h) ∧
      output.Perm (work.map fun item => (item.target, f.of item.request)) := by
    intro mode hmode
    let call : Call :=
      ⟨groupByIdentity work, provider, limits, cachePolicy, mode⟩
    have hformed : call.Formed W := fun group hgroup =>
      ⟨(hwork.source hgroup).2.1, context, (hwork.source hgroup).2.2⟩
    have hsound : call.Sound := by
      refine ⟨?_, fun _ _ _ group _ => hprovider.gate group.request, hpolicy,
        ?_⟩
      · cases mode with
        | single => exact hbytes.ne'
        | batched maxJudgments order =>
            have hpositive := hmode maxJudgments order rfl
            rintro (hbatch | hzero | hzero | hzero)
            · exact hbatch hprovider.multiStateBatch
            · omega
            · exact hbytes.ne' hzero
            · unfold batchLimit at hzero
              cases hlimit : provider.capabilities.maxBatchJudgments with
              | none =>
                  rw [hlimit] at hzero
                  exact absurd hzero (by simp; omega)
              | some serviceLimit =>
                  rw [hlimit] at hzero hservice
                  have hne : serviceLimit ≠ 0 := fun h => hservice (by rw [h])
                  simp only [Option.elim_some] at hzero
                  omega
      · intro group hgroup
        obtain ⟨⟨item, hitem, hrequest⟩, hgroupFormed, -⟩ :=
          hwork.source hgroup
        have halone : call.aloneRequest group = group.request := by
          cases mode with
          | single => rfl
          | batched maxJudgments order =>
              have hkey : group.request.requestKey = "r" ++ toString 0 :=
                hgroupFormed.requestKey
              exact (congrArg (fun key =>
                { group.request with requestKey := key }) hkey).symm
        rw [Call.TooLarge, halone, ← hrequest, Nat.not_lt]
        exact hfits item hitem
    have hfilled : call.Filled f (c.beginQuery now) := by
      intro group hgroup key entry hkey hentry
      rcases hcache with hoff | hused
      · simp [Call.cacheKey, call, hoff] at hkey
      · exact hused.filled hformed group hgroup key entry hkey
          ((HostStep.beginQuery c now).cache hentry)
    have hinflight := (HostStep.beginQuery c now).slots.2
    obtain ⟨output, s, h, hrun, hperm⟩ := hsound.judged henv
      (hformed.suits hvalues) (hscope ▸ beginQuery_running c now) rfl hfilled
      (hinflight.symm ▸ hfree)
    exact ⟨output, s, h, hrun, hperm.trans (hwork.rows f)⟩
  refine ⟨hcall .single (by simp), hcall (.batched maxJudgments order) ?_, ?_⟩
  · rintro maxJudgments' order' heq
    obtain ⟨rfl, -⟩ := Mode.batched.inj heq
    exact hmax
  · intro config hmode item hitem c' scope hrunning hfree'
    exact evaluateRow_judged henv (hprovider.gate item.request) hmode
      (hvalues item.request (hwork item hitem).1) hrunning hfree'

/-! ## Three rows about two texts -/

/-- One half for every noul question, and the first label of every choice. -/
def leadingJudge : Judge where
  value := fun kind _ _ _ choices =>
    match kind with
    | .noul => .noul .half
    | .choice => .choice (choices.headD "")

theorem leadingJudge_valid (W : WireText) : leadingJudge.Valid W := by
  rintro request ⟨state, -, ⟨criterion, hnoul⟩ | ⟨question, choices, hchoice⟩⟩
  · rw [noul_ok hnoul]
    rfl
  · have hlong : choices ≠ [] := by
      rintro rfl
      unfold JudgmentRequest.choice at hchoice
      split at hchoice
      · cases hchoice
      · cases hchoice
    obtain ⟨label, rest, rfl⟩ := List.exists_cons_of_ne_nil hlong
    rw [choice_ok hchoice]
    simp [ValidFor, validateJudgmentResult, validateLabel, Judge.of,
      leadingJudge]

/-- A provider which answers by a judge, in the order of the requests. -/
def Judge.environment (f : Judge) : Environment where
  now := id
  judge := fun _ _ requests => .ok
    { answers := requests.map fun request =>
        ⟨request.requestKey, f.of request⟩
      metadata := { effectiveModel := some "jev-latest" } }

theorem Judge.environment_judges (f : Judge) : f.environment.Judges f :=
  fun _ _ _ => ⟨_, rfl, List.Perm.refl _⟩

/-- The rows of some texts. -/
def textWork (texts : List String) : List JudgmentWork :=
  texts.mapIdx fun row text =>
    { identity := textIdentity text
      request := textRequest text
      target := ⟨0, 0, row⟩ }

theorem textWork_in (W : WireText) (texts : List String) :
    WorkIn W aliasContext (textWork texts) := by
  intro item hitem
  obtain ⟨row, hrow, rfl⟩ := List.mem_mapIdx.mp hitem
  exact ⟨wellFormed_textRequest _, rfl⟩

/-- A new connection has not been used for anything else. -/
theorem usedWith_init (W : WireText) (f : Judge) (scope : ℕ) :
    UsedWith W f (ConnectionRuntime.init scope) :=
  ⟨Unit, inferInstance, ConnectionRuntime.init scope,
    fun _ => { textCall 0 .single none with groups := [] }, _, rfl,
    by simp [Call.Formed], Relation.ReflTransGen.refl,
    by simp [Workers.start, dispatches], rfl⟩

theorem modes_agree_texts :
    ∃ output s h, leadingJudge.environment.run
        (executeBatchGroups (groupByIdentity (textWork ["a", "b", "a"]))
          plainProvider 2 insertionOrder rowLimits
          (some ⟨10, 100000, 1000⟩)).run
        ((ConnectionRuntime.init 1).beginQuery 0) = some (.ok output, s, h) ∧
      output.Perm ((textWork ["a", "b", "a"]).map fun item =>
        (item.target, leadingJudge.of item.request)) :=
  (modes_agree literalText leadingJudge (leadingJudge_valid literalText)
    leadingJudge.environment leadingJudge.environment_judges aliasContext
    (textWork ["a", "b", "a"]) (textWork_in literalText _) plainProvider
    ⟨rfl, rfl, rfl, rfl⟩ (by decide) rowLimits (by decide)
    (fun _ _ => (by decide : 100 * 1 ≤ 1000)) (some ⟨10, 100000, 1000⟩)
    (by decide) 2 (by decide)
    insertionOrder (ConnectionRuntime.init 1) 0
    (Or.inr (usedWith_init literalText leadingJudge 1)) rfl (by decide)).2.1

/-- A provider whose service admits no judgment at all in a batch. -/
def zeroBatchProvider : Provider :=
  { plainProvider with
    capabilities :=
      { plainProvider.capabilities with maxBatchJudgments := some 0 } }

/-- All capabilities are verified and every request fits, and still the
batched mode returns an error. -/
theorem zeroBatch_refused :
    leadingJudge.Valid literalText ∧
      leadingJudge.environment.Judges leadingJudge ∧
      WorkIn literalText aliasContext (textWork ["a"]) ∧
      zeroBatchProvider.Unrestricted ∧
      (∀ item ∈ textWork ["a"], zeroBatchProvider.estimateRequestBytes
        [item.request] ≤ rowLimits.maxRequestBytes) ∧
      (leadingJudge.environment.run
        (executeBatchGroups (groupByIdentity (textWork ["a"]))
          zeroBatchProvider 1 insertionOrder rowLimits none).run
        ((ConnectionRuntime.init 1).beginQuery 0)).map Prod.fst =
          some (.error (.configuration
            "provider advertises a zero judgment batch limit")) := by
  refine ⟨leadingJudge_valid literalText, leadingJudge.environment_judges,
    textWork_in literalText _, ⟨rfl, rfl, rfl, rfl⟩,
    fun _ _ => (by decide : 100 * 1 ≤ 1000), rfl⟩

end DuckJeu
