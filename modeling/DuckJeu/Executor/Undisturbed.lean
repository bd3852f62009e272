import DuckJeu.Executor.Grouping
import DuckJeu.Executor.Results
import Mathlib.Logic.Function.Basic

/-!
# Undisturbed calls

A provider which judges gives each judgment a value of its own, whatever the
key of the request and whatever else is asked with it.  A call which runs
alone against such a provider, in a fresh query, returns the value of every
group: nothing on its way can fail, and all its sources agree.
-/

namespace DuckJeu

open Effects ConnectionRuntime

/-! ## Providers which judge -/

/-- The value of every judgment. -/
structure Judge where
  value : QuestionKind → CanonicalState → Option String → Option String →
    List String → JudgmentResult

namespace Judge

variable (f : Judge)

def of (request : JudgmentRequest) : JudgmentResult :=
  f.value request.kind request.state request.criterion request.question
    request.choices

/-- The response answers each request under its own key by its value. -/
def Answers (requests : List JudgmentRequest)
    (response : ProviderBatchResult) : Prop :=
  response.answers.Perm
    (requests.map fun request => ⟨request.requestKey, f.of request⟩)

/-- The values are valid. -/
def Valid (W : WireText) : Prop :=
  ∀ request, WellFormed W request → ValidFor request (f.of request)

end Judge

/-- The provider answers every question by the values of the judge. -/
def Environment.Judges (env : Environment) (f : Judge) : Prop :=
  ∀ t method requests, ∃ response,
    env.judge t method requests = .ok response ∧ f.Answers requests response

/-- The request was answered by the judge, if it was answered. -/
def Dispatch.JudgedBy (d : Dispatch) (f : Judge) : Prop :=
  ∀ response, d.response = .ok response → f.Answers d.requests response

theorem Dispatch.Answers.value {d : Dispatch} {request : JudgmentRequest}
    {result : JudgmentResult} {model : Option String} {f : Judge}
    (h : d.Answers request result model) (hjudged : d.JudgedBy f) :
    result = f.of request := by
  obtain ⟨response, key, hresponse, hvalid, hmem, hanswer, -⟩ := h
  obtain ⟨hkeys, -⟩ := validateBatchResult_ok hvalid
  have hvalue := (hjudged response hresponse).mem_iff.mp hanswer
  obtain ⟨request', hmem', hsame⟩ := List.mem_map.mp hvalue
  obtain ⟨hkey, rfl⟩ := ProviderAnswer.mk.inj hsame
  obtain rfl : request' = { request with requestKey := key } :=
    List.inj_on_of_nodup_map hkeys hmem' hmem hkey
  rfl

/-! ## Groups of one context -/

variable {W : WireText}

/-- The groups have the identities of their requests, in some context each,
and the requests come from the constructors. -/
def Call.Formed (W : WireText) (call : Call) : Prop :=
  ∀ group ∈ call.groups, WellFormed W group.request ∧
    ∃ context, group.identity = .new group.request context

/-- Well-formed requests with the same question have the same value. -/
theorem Judge.of_congr (f : Judge) {request request' : JudgmentRequest}
    (hrequest : WellFormed W request) (hrequest' : WellFormed W request')
    (context context' : JudgmentIdentityContext)
    (hstate : (JudgmentIdentity.new request context).stateKind =
      (JudgmentIdentity.new request' context').stateKind)
    (hbytes : (JudgmentIdentity.new request context).canonicalBytes =
      (JudgmentIdentity.new request' context').canonicalBytes)
    (hkind : request.kind = request'.kind)
    (hcriterion : request.criterion = request'.criterion)
    (hquestion : request.question = request'.question)
    (hchoices : request.choices = request'.choices) :
    f.of request = f.of request' := by
  have hsame : request.state = request'.state :=
    hrequest.encoded.eq_of_canonical hrequest'.encoded hstate hbytes
  rw [Judge.of, Judge.of, hkind, hsame, hcriterion, hquestion, hchoices]

/-- Groups with one cache key have one value. -/
theorem Judge.of_eq_of_key (f : Judge) {a b : JudgmentGroup}
    {provider provider' : Provider} {key : JudgmentIdentity}
    (hrequest : WellFormed W a.request) (hrequest' : WellFormed W b.request)
    (ha : ∃ context, a.identity = .new a.request context)
    (hb : ∃ context, b.identity = .new b.request context)
    (hakey : cacheIdentityFor a provider = some key)
    (hbkey : cacheIdentityFor b provider' = some key) :
    f.of a.request = f.of b.request := by
  have hsame := sameJudgment_of_key ha hb hakey hbkey
  exact f.of_congr hrequest hrequest' aliasContext aliasContext
    hsame.stateKind hsame.canonical hsame.kind hsame.criterion hsame.question
    hsame.choices

/-- Groups with one identity have one value. -/
theorem Judge.of_eq_of_identity (f : Judge) {a b : JudgmentGroup}
    (hrequest : WellFormed W a.request) (hrequest' : WellFormed W b.request)
    (ha : ∃ context, a.identity = .new a.request context)
    (hb : ∃ context, b.identity = .new b.request context)
    (hidentity : a.identity = b.identity) :
    f.of a.request = f.of b.request := by
  obtain ⟨context, ha⟩ := ha
  obtain ⟨context', hb⟩ := hb
  rw [ha, hb] at hidentity
  exact f.of_congr hrequest hrequest' _ _
    (congrArg JudgmentIdentity.stateKind hidentity)
    (congrArg JudgmentIdentity.canonicalBytes hidentity)
    (congrArg JudgmentIdentity.questionKind hidentity)
    (congrArg JudgmentIdentity.criterion hidentity)
    (congrArg JudgmentIdentity.question hidentity)
    (congrArg JudgmentIdentity.choices hidentity)

/-- The values of the judge are valid for the groups of the call, and groups
with one key or one identity have one value. -/
structure Judge.Suits (f : Judge) (call : Call) : Prop where
  valid : ∀ group ∈ call.groups, ValidFor group.request (f.of group.request)
  key : ∀ a ∈ call.groups, ∀ b ∈ call.groups, ∀ key,
    call.cacheKey a = some key → call.cacheKey b = some key →
      f.of a.request = f.of b.request
  identity : ∀ a ∈ call.groups, ∀ b ∈ call.groups, a.identity = b.identity →
    f.of a.request = f.of b.request

theorem Call.Formed.suits {call : Call} (hformed : call.Formed W) {f : Judge}
    (hvalues : f.Valid W) : f.Suits call where
  valid := fun group hgroup => hvalues group.request (hformed group hgroup).1
  key := by
    intro a ha b hb key hakey hbkey
    obtain ⟨haFormed, haIdentity⟩ := hformed a ha
    obtain ⟨hbFormed, hbIdentity⟩ := hformed b hb
    exact f.of_eq_of_key haFormed hbFormed haIdentity hbIdentity
      (Call.cacheKey_some hakey) (Call.cacheKey_some hbkey)
  identity := by
    intro a ha b hb hsame
    obtain ⟨haFormed, haIdentity⟩ := hformed a ha
    obtain ⟨hbFormed, hbIdentity⟩ := hformed b hb
    exact f.of_eq_of_identity haFormed hbFormed haIdentity hbIdentity hsame

/-! ## The cache -/

/-- What the cache holds for the groups of the call are their values. -/
def Call.Filled (call : Call) (f : Judge) (c : ConnectionRuntime) : Prop :=
  ∀ group ∈ call.groups, ∀ key entry, call.cacheKey group = some key →
    c.cache.entries.lookup key = some entry →
      entry.result = f.of group.request

/-- The connection has been used for calls against this judge only. -/
def UsedWith (W : WireText) (f : Judge) (c : ConnectionRuntime) : Prop :=
  ∃ (ι : Type) (_ : DecidableEq ι) (start : ConnectionRuntime)
    (calls : ι → Call) (p : Workers ι), start.cache.entries = ∅ ∧
      (∀ i, (calls i).Formed W) ∧
      Workers.Reach HostStep (Workers.start start calls) p ∧
      (∀ i, ∀ d ∈ dispatches (p.log.of i), d.JudgedBy f) ∧ p.shared = c

theorem UsedWith.filled {f : Judge} {c : ConnectionRuntime}
    (hused : UsedWith W f c) {call : Call} (hformed : call.Formed W) :
    call.Filled f c := by
  obtain ⟨ι, _, start, calls, p, hempty, hcalls, hreach, hjudged, rfl⟩ := hused
  intro group hgroup key entry hkey hentry
  obtain ⟨i, older, hstored, source, hsource, hsourceKey, d, hd, hanswers⟩ :=
    (Workers.cache_justified hempty hreach).1 key entry hentry
  have hmem : d ∈ dispatches (p.log.of i) := by
    obtain ⟨newer, hnewer⟩ := hstored.suffix
    rw [← hnewer, Log.of_append]
    exact dispatches_subset (List.suffix_append _ _) (lastDispatch_mem hd)
  obtain ⟨hsourceFormed, hsourceIdentity⟩ := hcalls i source hsource
  obtain ⟨hgroupFormed, hgroupIdentity⟩ := hformed group hgroup
  rw [hanswers.value (hjudged i d hmem)]
  exact f.of_eq_of_key hsourceFormed hgroupFormed hsourceIdentity
    hgroupIdentity (Call.cacheKey_some hsourceKey) (Call.cacheKey_some hkey)

/-! ## The state of an undisturbed call -/

/-- The log of a worker which is alone. -/
abbrev aloneLog (h : History) : WorkerLog Unit :=
  h.map fun event => ((), event)

@[simp] theorem of_aloneLog (h : History) : Log.of (aloneLog h) () = h := by
  simp [Log.of]

/-- The query runs, other calls hold `busy` permits, nothing has gone wrong,
and all values which the call can come across are those of the judge. -/
structure Undisturbed (call : Call) (f : Judge) (busy : ℕ)
    (c : ConnectionRuntime) (h : History) : Prop where
  running : c.Running call.limits.queryScope
  flags : ∀ flag, (⟨.queryCancellation call.limits.queryScope, .ok flag⟩ :
    ExecEvent) ∈ h → c.queryCancellation call.limits.queryScope = .ok flag
  permits : c.inflight.active = busy + permits h
  calm : ¬ Troubled h
  filled : call.Filled f c
  hits : ∀ group ∈ call.groups, ∀ result, call.Hit h group result →
    result = f.of group.request
  judged : ∀ d ∈ dispatches h, d.JudgedBy f
  books : Bookkept c (aloneLog h)
  owned : EntriesOwned c (aloneLog h)

section Undisturbed

variable {call : Call} {f : Judge} {busy : ℕ} {c c' : ConnectionRuntime}
  {h : History} {op : Op} {r : Res op}

theorem undisturbed_start (hrunning : c.Running call.limits.queryScope)
    (hentries : c.queryEntries = ∅) (hfilled : call.Filled f c) :
    Undisturbed call f c.inflight.active c [] where
  running := hrunning
  flags := by simp
  permits := rfl
  calm := by simp [Troubled]
  filled := hfilled
  hits := by simp [Call.Hit]
  judged := by simp [dispatches]
  books := bookkept_nil c
  owned := entriesOwned_nil hentries

/-! ### What may happen -/

/-- The entry for which the call waits is one of its own, and completed. -/
theorem Undisturbed.awaited (hstate : Undisturbed call f busy c h)
    {entry flag : ℕ} (hallowed : call.Allowed h (.wait entry flag)) :
    ∃ result, c.slot entry = some (.ok result) := by
  obtain ⟨-, hcompleted, hsucceeded, identity, hclaim⟩ := hallowed
  obtain ⟨_, howner⟩ := hstate.owned.claims () _
    ((of_aloneLog h).symm ▸ hclaim)
  rw [of_aloneLog] at howner
  have hmine := mem_ownedClaims.mpr ⟨howner, rfl⟩
  have hcontents := hstate.books.contents () _ ((of_aloneLog h).symm ▸ hmine)
  rw [of_aloneLog] at hcontents
  cases hfirst : firstCompletion h entry with
  | none =>
      exact absurd (hcompleted _ hmine) (firstCompletion_eq_none.mp hfirst)
  | some outcome =>
      obtain ⟨result, rfl⟩ := hsucceeded _ (firstCompletion_mem hfirst)
      exact ⟨result, hcontents.trans hfirst⟩

/-- A response of the judge is accepted. -/
theorem Judge.Answers.accepted {requests : List JudgmentRequest}
    {response : ProviderBatchResult} (hanswers : f.Answers requests response)
    (hkeys : (requests.map JudgmentRequest.requestKey).Nodup)
    (hvalid : ∀ request ∈ requests, ValidFor request (f.of request)) :
    validateBatchResult requests response = .ok () := by
  refine validateBatchResult_of hkeys ?_ ?_
  · have hmap := hanswers.map ProviderAnswer.requestKey
    rwa [List.map_map] at hmap
  · intro answer hanswer request hrequest hkey
    obtain ⟨request', hrequest', rfl⟩ :=
      List.mem_map.mp (hanswers.mem_iff.mp hanswer)
    obtain rfl : request = request' :=
      List.inj_on_of_nodup_map hkeys hrequest hrequest' hkey
    exact hvalid request hrequest

/-- The requests of a call have valid values. -/
theorem Call.Carries.valid (hsuits : f.Suits call)
    {carried : List JudgmentIdentity} {requests : List JudgmentRequest}
    (hcarries : call.Carries carried requests) :
    ∀ request ∈ requests, ValidFor request (f.of request) := by
  induction hcarries with
  | nil => simp
  | cons hhead hrest ih =>
      obtain ⟨group, hgroup, -, key, rfl⟩ := hhead
      refine List.forall_mem_cons.mpr ⟨?_, ih⟩
      exact (hsuits.valid group hgroup).congr rfl rfl

/-- Every allowed operation is possible and goes well. -/
theorem Undisturbed.possible {env : Environment} (henv : env.Judges f)
    (hsuits : f.Suits call) (hfree : busy < call.limits.maxInflight) {s : Alone}
    (hstate : Undisturbed call f busy s.1 h) (hallowed : call.Allowed h op) :
    ∃ r s', env.handle s op = some (r, s') ∧
      ¬ ExecEvent.Troubles ⟨op, r⟩ ∧
      ∀ d, ExecEvent.dispatch? ⟨op, r⟩ = some d → d.JudgedBy f := by
  obtain ⟨c, t⟩ := s
  cases op with
  | claimQueryEntry scope identity =>
      obtain ⟨rfl, -⟩ := hallowed
      cases hclaim : c.claimQueryEntry call.limits.queryScope identity with
      | mk r c' =>
          refine ⟨r, (c', t), by simp [Environment.handle, hclaim], ?_,
            by simp [ExecEvent.dispatch?]⟩
          rcases claimQueryEntry_cases hclaim with ⟨error, -, -, hclosed⟩ |
            ⟨entry, rfl, -⟩ | ⟨rfl, -⟩
          · exact absurd hstate.running hclosed
          · exact id
          · exact id
  | queryCancellation scope =>
      obtain rfl : scope = call.limits.queryScope := hallowed
      obtain ⟨flag, hflag, -⟩ := hstate.running
      exact ⟨.ok flag, (c, t), by simp [Environment.handle, hflag], id,
        by simp [ExecEvent.dispatch?]⟩
  | acquirePermit maxInflight flag =>
      obtain ⟨rfl, hzero, hasked⟩ := hallowed
      obtain ⟨flag', hflag, hdown⟩ := hstate.running
      obtain rfl : flag = flag' :=
        Except.ok.inj ((hstate.flags flag hasked).symm.trans hflag)
      have hactive : c.inflight.active < call.limits.maxInflight := by
        rw [hstate.permits, hzero]
        exact hfree
      have hpositive : call.limits.maxInflight ≠ 0 := by omega
      refine ⟨.ok (), ?_, ?_, id, by simp [ExecEvent.dispatch?]⟩
      rotate_left
      · simp only [Environment.handle, acquirePermit, hpositive, if_false,
          show c.flagged flag = false from hdown, Bool.false_eq_true, hactive,
          if_true, Option.map_some]
        rfl
  | wait entry flag =>
      obtain ⟨result, hslot⟩ := hstate.awaited hallowed
      exact ⟨.ok result, (c, t), by
        simp [Environment.handle, ConnectionRuntime.wait, hslot], id,
        by simp [ExecEvent.dispatch?]⟩
  | judge method carried requests =>
      obtain ⟨response, hresponse, hanswers⟩ := henv t method requests
      refine ⟨.ok response, (c, t + 1), by
        simp [Environment.handle, hresponse], ?_, ?_⟩
      · exact not_not.mpr (hanswers.accepted hallowed.keys
          (hallowed.carries.valid hsuits))
      · rintro d hd response' hresponse'
        obtain rfl := Option.some.inj hd
        obtain rfl : response = response' := Except.ok.inj hresponse'
        exact hanswers
  | _ => exact ⟨_, _, rfl, id, by simp [ExecEvent.dispatch?]⟩

/-! ### What it leaves -/

theorem Call.Filled.step (hfilled : call.Filled f c)
    (hjudged : ∀ d ∈ dispatches h, d.JudgedBy f) (hsuits : f.Suits call)
    (hallowed : call.Allowed h op) (hstep : step c op r c') :
    call.Filled f c' := by
  intro group hgroup key entry hkey hentry
  rcases step_entry hstep hentry with hnew | ⟨-, older, holder, hresult⟩
  · obtain ⟨now, policy, hinsert⟩ := ExecEvent.stored_eq hnew
    cases hinsert
    obtain ⟨source, hsource, hsourceKey, d, hd, hanswers⟩ := hallowed
    rw [hanswers.value (hjudged d (lastDispatch_mem hd))]
    exact hsuits.key source hsource group hgroup key hsourceKey hkey
  · rw [← hresult]
    exact hfilled group hgroup key older hkey holder

/-- The permits in use after a step. -/
theorem Undisturbed.permits_step (hstate : Undisturbed call f busy c h)
    (hallowed : call.Allowed h op) (hstep : step c op r c')
    (hcalm : ¬ ExecEvent.Troubles ⟨op, r⟩) :
    c'.inflight.active = busy + DuckJeu.permits (⟨op, r⟩ :: h) := by
  have hpermits := hstate.permits
  by_cases hacquire : ∃ maxInflight flag, op = .acquirePermit maxInflight flag
  · obtain ⟨maxInflight, flag, rfl⟩ := hacquire
    rcases acquirePermit_cases hstep with ⟨error, rfl, -, -⟩ | ⟨rfl, rfl⟩
    · exact absurd trivial hcalm
    · rw [DuckJeu.permits]
      dsimp only
      omega
  by_cases hdrop : op = .dropPermit
  · subst hdrop
    obtain rfl : c' = _ := hstep
    have hone : DuckJeu.permits h = 1 := hallowed
    rw [DuckJeu.permits, ConnectionRuntime.dropPermit]
    dsimp only
    omega
  · have hother : ∀ maxInflight flag, op ≠ .acquirePermit maxInflight flag :=
      fun maxInflight flag heq => hacquire ⟨maxInflight, flag, heq⟩
    rw [permits_cons r h hother hdrop, step_inflight hstep hother hdrop]
    exact hpermits

theorem Undisturbed.step (hstate : Undisturbed call f busy c h)
    (hsuits : f.Suits call) (hallowed : call.Allowed h op)
    (hstep : step c op r c') (hcalm : ¬ ExecEvent.Troubles ⟨op, r⟩)
    (hjudged : ∀ d, ExecEvent.dispatch? ⟨op, r⟩ = some d → d.JudgedBy f) :
    Admitted h op r ∧ Undisturbed call f busy c' (⟨op, r⟩ :: h) := by
  have hlogged : call.Allowed ((aloneLog h).of ()) op :=
    (of_aloneLog h).symm ▸ hallowed
  have hbooks := hstate.books.step hlogged hstep
  rw [of_aloneLog] at hbooks
  refine ⟨hbooks.1, ?_⟩
  refine
    { running := (step_running hstep _).mpr hstate.running
      flags := ?_
      permits := hstate.permits_step hallowed hstep hcalm
      calm := ?_
      filled := hstate.filled.step hstate.judged hsuits hallowed hstep
      hits := ?_
      judged := ?_
      books := hbooks.2
      owned := hstate.owned.step hstep }
  · intro flag hmem
    rw [(step_query hstep).2]
    rcases List.mem_cons.mp hmem with heq | hmem
    · cases heq
      exact hstep.1
    · exact hstate.flags flag hmem
  · rintro ⟨event, hmem, htroubles⟩
    rcases List.mem_cons.mp hmem with rfl | hmem
    · exact hcalm htroubles
    · exact hstate.calm ⟨event, hmem, htroubles⟩
  · rintro group hgroup result ⟨now, policy, hmem⟩
    rcases List.mem_cons.mp hmem with heq | hmem
    · cases heq
      obtain ⟨key, entry, hkey, hentry, hresult, -⟩ :=
        c.cacheLookup_served (congrArg Prod.fst hstep)
      rw [← hresult]
      exact hstate.filled group hgroup key entry hkey hentry
    · exact hstate.hits group hgroup result ⟨now, policy, hmem⟩
  · intro d hd
    rw [((Grown.refl h).event ⟨op, r⟩).dispatches_eq, List.append_nil,
      List.mem_append, Option.mem_toList] at hd
    rcases hd with hnew | hold
    · exact hjudged d hnew
    · exact hstate.judged d hold

end Undisturbed

/-! ## The whole call -/

/-- Nothing about a call can make it fail, but for the surroundings. -/
structure Call.Sound (call : Call) : Prop where
  accepted : ¬ call.Rejected
  cleared : call.Cleared
  policy : call.PolicyValid
  fits : ∀ group ∈ call.groups, ¬ call.TooLarge group

/-- Alone against a judge, in a query without entries and with a permit free,
a sound call returns the values of its groups. -/
theorem Call.Sound.judged {call : Call} (hsound : call.Sound) {f : Judge}
    {env : Environment} (henv : env.Judges f) (hsuits : f.Suits call)
    {c : ConnectionRuntime}
    (hrunning : c.Running call.limits.queryScope)
    (hentries : c.queryEntries = ∅) (hfilled : call.Filled f c)
    (hfree : c.inflight.active < call.limits.maxInflight) :
    ∃ output s h, env.run call.program c = some (.ok output, s, h) ∧
      output.Perm (call.groups.flatMap fun group =>
        group.expand (f.of group.request)) := by
  let Inv (s : Alone) (h : History) : Prop :=
    Undisturbed call f c.inflight.active s.1 h
  have hstart : Inv (c, 0) [] := undisturbed_start hrunning hentries hfilled
  have hpossible : ∀ s h op, Inv s h → call.Allowed h op → ∃ r s',
      env.handle s op = some (r, s') ∧ Admitted h op r ∧
        Inv s' (⟨op, r⟩ :: h) := by
    intro s h op hstate hallowed
    obtain ⟨r, s', hhandle, hcalm, hjudged⟩ :=
      hstate.possible henv hsuits hfree hallowed
    obtain ⟨hadmits, hstate'⟩ := hstate.step hsuits hallowed
      (env.handle_step s op r s' hhandle) hcalm hjudged
    exact ⟨r, s', hhandle, hadmits, hstate'⟩
  obtain ⟨answer, s, h, hrun, hpost, hstate⟩ :=
    Prog.run_of_follows env.handle (s := (c, 0)) hpossible call.follows hstart
  rw [Protocol.ofHistory_replay] at hpost hstate
  cases answer with
  | error error =>
      exfalso
      rcases hpost.2.2 with hrejected | hgates | hpolicy |
        ⟨group, hgroup, hlarge⟩ | htroubled
      · exact hsound.accepted hrejected
      · exact hgates hsound.cleared
      · exact hpolicy hsound.policy
      · exact hsound.fits group hgroup hlarge
      · exact hstate.calm htroubled
  | ok output =>
      refine ⟨output, s, h, hrun, ?_⟩
      refine Call.Served.perm_groups hpost.2.2.1
        (fun group => f.of group.request) ?_
      intro group hgroup result hanswered
      obtain ⟨p, hreach, -, -, rfl⟩ := Workers.run_alone HostStep env hrun
      obtain ⟨_, source, hsource, hidentity, hresult⟩ :=
        Workers.sourced hentries hreach hanswered
      have hvalue : result = f.of source.request := by
        rcases hresult with hhit | ⟨d, hd, model, hanswers⟩
        · exact hstate.hits source hsource result hhit
        · exact hanswers.value (hstate.judged d hd)
      exact hvalue.trans
        (hsuits.identity source hsource group hgroup hidentity)

end DuckJeu
