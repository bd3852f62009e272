import DuckJeu.Functions.Failures
import DuckJeu.Functions.Gate
import DuckJeu.Functions.Served
import DuckJeu.Provider.Replies

/-!
# Functions which do not fail

Settings which have been accepted are not at fault by themselves, and what the
executor sends, the provider of the settings can answer.  So while their query
runs, optimized functions in front of replying services compute all of their
rows, provided that these can be read and fit the limits.
-/

namespace DuckJeu

open Effects ConnectionRuntime

/-! ## Nothing to blame -/

/-- The provider has answered, and the response was accepted. -/
def Dispatch.Accepted (d : Dispatch) : Prop :=
  ∃ response, d.response = .ok response ∧
    validateBatchResult d.requests response = .ok ()

theorem Dispatch.Accepted.not_fails {d : Dispatch} (h : d.Accepted)
    (error : JudgmentError) : ¬ d.Fails error := by
  obtain ⟨response, hresponse, hvalid⟩ := h
  rintro (hfailed | ⟨other, hother, hinvalid⟩)
  · rw [hresponse] at hfailed
    cases hfailed
  · rw [hresponse] at hother
    obtain rfl := Except.ok.inj hother
    rw [hvalid] at hinvalid
    cases hinvalid

/-! ## Accepted settings -/

/-- The provider has the capabilities which the settings and the requests ask
for, and each request alone fits the byte limit. -/
structure Provider.Suits (provider : Provider) (config : RuntimeConfig)
    (asked : JudgmentRequest → Prop) : Prop where
  unlimited : provider.capabilities.maxBatchJudgments = none
  verified : config.batchEnabled = true →
    provider.capabilities.multiStateBatch = .verified
  gate : ∀ request, asked request → provider.gate request = true
  fits : ∀ request, asked request →
    provider.estimateRequestBytes [request] ≤ config.maxRequestBytes

section Settings

variable {call : FunctionCall} {config : RuntimeConfig} {provider : Provider}
  {scope : ℕ} {groups : List JudgmentGroup}

theorem executorCall_mode {maxJudgments : ℕ} {order : LeaderOrder}
    (hmode : (call.executorCall config provider scope groups).mode =
      .batched maxJudgments order) :
    config.batchEnabled = true ∧ maxJudgments = config.batchMaxJudgments := by
  have hchoice : (if config.batchEnabled then
      Mode.batched config.batchMaxJudgments call.order else .single) =
        .batched maxJudgments order := hmode
  split at hchoice
  · rename_i henabled
    exact ⟨henabled, (Mode.batched.inj hchoice).1.symm⟩
  · cases hchoice

theorem executorCall_policy (hsound : config.Sound) {policy : CachePolicy}
    (hpolicy : (call.executorCall config provider scope groups).cachePolicy =
      some policy) : policy.validate = .ok () := by
  have hchoice : (if config.cacheEnabled then
      some ⟨config.cacheMaxEntries, config.cacheMaxBytes,
        config.cacheTtlMs * 10 ^ 6⟩ else none) = some policy := hpolicy
  split at hchoice
  · obtain rfl := Option.some.inj hchoice
    have hentries := hsound.cacheMaxEntries_pos
    have hbytes := hsound.cacheMaxBytes_pos
    have httl := hsound.cacheTtlMs_pos
    unfold CachePolicy.validate
    rw [if_neg]
    dsimp only
    omega
  · cases hchoice

/-- A request under the default key is tested alone as it is. -/
theorem aloneRequest_eq {inner : Call} {group : JudgmentGroup}
    (hkey : group.request.requestKey = defaultRequestKey) :
    inner.aloneRequest group = group.request := by
  unfold Call.aloneRequest
  split
  · rfl
  · have hfirst : "r" ++ toString 0 = defaultRequestKey := by decide
    rw [hfirst, ← hkey]

/-- Sound settings and a provider which suits them are not at fault. -/
theorem executorCall_faults (hsound : config.Sound)
    {asked : JudgmentRequest → Prop} (hsuits : provider.Suits config asked)
    (hgroups : ∀ group ∈ groups, asked group.request ∧
      group.request.requestKey = defaultRequestKey) (error : JudgmentError) :
    ¬ (call.executorCall config provider scope groups).Faults error := by
  have hbytes := hsound.maxRequestBytes_pos
  have hjudgments := hsound.batchMaxJudgments_pos
  have hsmall : ∀ group ∈ groups,
      ¬ (call.executorCall config provider scope groups).TooLarge group := by
    intro group hgroup hlarge
    obtain ⟨hasked, hkey⟩ := hgroups group hgroup
    unfold Call.TooLarge at hlarge
    rw [aloneRequest_eq hkey] at hlarge
    exact absurd (hsuits.fits _ hasked) (Nat.not_le.mpr hlarge)
  have hgate : ∀ group ∈ groups,
      provider.capabilities.supports group.request.kind = .verified ∧
        provider.withinChoiceLimit group.request.choices.length = true := by
    intro group hgroup
    have hgate := hsuits.gate _ (hgroups group hgroup).1
    simpa [Provider.gate] using hgate
  intro hfaults
  cases hfaults with
  | inflight hzero => exact absurd hzero hsound.maxInflight_pos.ne'
  | singleBytes hmode hzero => exact absurd hzero hbytes.ne'
  | unverified hmode hunverified =>
      exact hunverified (hsuits.verified (executorCall_mode hmode).1)
  | batchLimits hmode hzero =>
      rw [(executorCall_mode hmode).2] at hzero
      rcases hzero with hzero | hzero
      · exact absurd hzero hjudgments.ne'
      · exact absurd hzero hbytes.ne'
  | serviceLimit hmode hzero =>
      have hlimit : batchLimit provider config.batchMaxJudgments = 0 := by
        rwa [(executorCall_mode hmode).2] at hzero
      unfold batchLimit at hlimit
      rw [hsuits.unlimited] at hlimit
      exact absurd hlimit hjudgments.ne'
  | kind hmode hgroup hkind => exact hkind (hgate _ hgroup).1
  | choices hmode hgroup hchoices =>
      cases (hgate _ hgroup).2.symm.trans hchoices
  | policy hpolicy hinvalid =>
      rw [executorCall_policy hsound hpolicy] at hinvalid
      cases hinvalid
  | tooLarge hgroup hlarge => exact hsmall _ hgroup hlarge
  | batchTooLarge hmode hgroup hlarge => exact hsmall _ hgroup hlarge

end Settings

/-! ## Services which attend -/

/-- The requests were answered through an adapter of the service, and the
service has replied. -/
def TypesafeAdapter.Attends (toVec : Wire → Option (List UInt8))
    (a : TypesafeAdapter) (J : WireJudge) (http : HttpProvider)
    (d : Dispatch) : Prop :=
  ∃ method post h, http.call method d.requests = some post ∧
    post.run.After h (.ret d.response) ∧ a.RepliedIn toVec J d.requests h

/-- The requests were answered by the provider, and this service behind it has
replied to whatever was sent. -/
def Service.Attends (toVec : Wire → Option (List UInt8)) (J : WireJudge)
    (d : Dispatch) : Service → Prop
  | .mock =>
      ∃ method, MockProvider.call method d.requests = some d.response
  | .typesafe a => a.Attends toVec J (a.httpProvider toVec) d
  | .selfHosted p => p.inner.Attends toVec J (p.httpProvider toVec) d

section Attends

variable {toVec : Wire → Option (List UInt8)} {J : WireJudge} {d : Dispatch}

theorem TypesafeAdapter.Attends.relays {a : TypesafeAdapter}
    {http : HttpProvider} (h : a.Attends toVec J http d) :
    a.Relays toVec J http d := by
  obtain ⟨method, post, events, hcall, hafter, hreplied⟩ := h
  exact ⟨method, post, events, hcall, hafter, hreplied.judgedIn⟩

theorem Service.Attends.serves {service : Service}
    (h : service.Attends toVec J d) : service.Serves toVec J d := by
  cases service with
  | mock => exact h
  | typesafe a => exact TypesafeAdapter.Attends.relays h
  | selfHosted p => exact TypesafeAdapter.Attends.relays h

/-- The executor sends only what its provider can answer. -/
structure Provider.Sendable (provider : Provider) (W : WireText)
    (requests : List JudgmentRequest) : Prop where
  keys : (requests.map JudgmentRequest.requestKey).Nodup
  formed : ∀ request ∈ requests, ∃ key,
    WellFormed W { request with requestKey := key }
  gate : ∀ request ∈ requests, provider.gate request = true
  verified : 1 < requests.length →
    provider.capabilities.multiStateBatch = .verified
  bytes : provider.estimateRequestBytes requests < usizeMax

theorem capable_of_gate {a : TypesafeAdapter} {provider : Provider}
    (hchoices : provider.capabilities.maxChoices = a.maxChoices)
    {request : JudgmentRequest} (hgate : provider.gate request = true) :
    a.checkRequestCapabilities request = .ok () := by
  refine TypesafeProvider.checkRequestCapabilities_eq ?_
  intro _ maximum hmaximum
  have hwithin : provider.withinChoiceLimit request.choices.length = true := by
    unfold Provider.gate at hgate
    exact (Bool.and_eq_true_iff.mp hgate).2
  unfold Provider.withinChoiceLimit at hwithin
  rw [hchoices, hmaximum] at hwithin
  simpa using hwithin

theorem sends_of_sendable {a : TypesafeAdapter} {W : WireText}
    {provider : Provider}
    (hcapabilities : provider.capabilities = a.capabilities)
    (hestimate : provider.estimateRequestBytes = a.estimateRequestBytes toVec)
    {requests : List JudgmentRequest}
    (h : provider.Sendable W requests) : a.Sends toVec requests := by
  refine ⟨?_, ?_, fun request hrequest =>
    capable_of_gate (by rw [hcapabilities]; rfl) (h.gate request hrequest)⟩
  · have hbytes := h.bytes
    rw [hestimate] at hbytes
    unfold TypesafeAdapter.estimateRequestBytes at hbytes
    split at hbytes
    · exact absurd hbytes (Nat.lt_irrefl _)
    rename_i body hbody
    split at hbytes
    · exact absurd hbytes (Nat.lt_irrefl _)
    rename_i bytes hserialized
    exact ⟨body, bytes, hbody, hserialized⟩
  · intro hseveral
    have hverified := h.verified hseveral
    rwa [hcapabilities] at hverified

theorem Service.Attends.accepted {W : WireText} {service : Service}
    (hsendable : (service.declared toVec).Sendable W d.requests)
    (h : service.Attends toVec J d) : d.Accepted := by
  have hadapter : ∀ {a : TypesafeAdapter} {http : HttpProvider},
      a.Sends toVec d.requests → http.Fronts toVec a →
      a.Attends toVec J http d → d.Accepted := by
    rintro a http hsends hfronts ⟨method, post, events, hcall, hafter, hreplied⟩
    obtain ⟨response, hresponse, -, hvalid⟩ :=
      hfronts.replied hsends hcall hafter hreplied
    exact ⟨response, hresponse, hvalid⟩
  cases service with
  | mock =>
      obtain ⟨method, hcall⟩ := h
      exact MockProvider.call_accepted hsendable.keys hsendable.formed hcall
  | typesafe a =>
      exact hadapter (sends_of_sendable rfl rfl hsendable) (a.fronts toVec) h
  | selfHosted p =>
      exact hadapter (sends_of_sendable rfl rfl hsendable) (p.fronts toVec) h

end Attends

/-! ## Executions -/

/-- The requests which the execution reads. -/
def Execution.Reads (W : WireText) (e : Execution)
    (request : JudgmentRequest) : Prop :=
  ∃ row < e.rowCount, readRequest W e.kind (e.rows row) = .ok (some request)

/-- The execution has accepted settings for optimized execution, with a
provider which suits them and its rows, and all rows can be read. -/
structure Execution.Ready (W : WireText) (toVec : Wire → Option (List UInt8))
    (e : Execution) : Prop where
  connected : e.connected = true
  settings : ∃ context service config,
    readProviderContext e.env e.options = .ok context ∧
      providerFor context = .ok service ∧
      readRuntimeConfig e.options = .ok config ∧ config.mode = .optimized ∧
      (service.declared toVec).Suits config.toRuntimeConfig (e.Reads W)
  rows : ∀ row < e.rowCount, ∃ request,
    readRequest W e.kind (e.rows row) = .ok request

/-- The requests were answered by the provider which the settings select, and
its service has replied to whatever was sent. -/
def Execution.Attends (toVec : Wire → Option (List UInt8))
    (services : Services) (e : Execution) (d : Dispatch) : Prop :=
  ∃ context service, readProviderContext e.env e.options = .ok context ∧
    providerFor context = .ok service ∧
    service.Attends toVec (services context.apiUrl) d

theorem Execution.Attends.serves {toVec : Wire → Option (List UInt8)}
    {services : Services} {e : Execution} {d : Dispatch}
    (h : e.Attends toVec services d) : e.Serves toVec services d := by
  obtain ⟨context, service, hcontext, hservice, hattends⟩ := h
  exact ⟨context, service, hcontext, hservice, hattends.serves⟩

section Ready

variable {W : WireText} {toVec : Wire → Option (List UInt8)} {e : Execution}

theorem Execution.state_connected (toVec : Wire → Option (List UInt8))
    (e : Execution) : (e.state toVec).connected = e.connected := by
  unfold Execution.state init
  dsimp only
  split
  · rfl
  · rfl

/-- The state of an execution which is ready. -/
theorem Execution.Ready.state (h : e.Ready W toVec) :
    ∃ context service config,
      readProviderContext e.env e.options = .ok context ∧
      providerFor context = .ok service ∧
      (e.state toVec).provider = .ok (service.declared toVec) ∧
      (e.state toVec).runtimeConfig = .ok config ∧ config.Sound ∧
      config.mode = .optimized ∧
      (service.declared toVec).Suits config (e.Reads W) := by
  obtain ⟨context, service, config, hcontext, hservice, hconfig, hmode,
    hsuits⟩ := h.settings
  refine ⟨context, service, config.toRuntimeConfig, hcontext, hservice, ?_, ?_,
    readRuntimeConfig_sound hconfig, hmode, hsuits⟩
  · unfold Execution.state init
    dsimp only
    rw [hcontext]
    dsimp only
    rw [hservice]
  · unfold Execution.state init
    dsimp only
    rw [hcontext, hconfig]

theorem Execution.Ready.optimized (h : e.Ready W toVec) :
    (e.call W toVec).optimized = true := by
  obtain ⟨-, -, config, -, -, -, hconfig, -, hmode, -⟩ := h.state
  unfold FunctionCall.optimized
  rw [show (e.call W toVec).state.runtimeConfig = .ok config from hconfig]
  simpa using hmode

/-- It has no errors of itself. -/
theorem Execution.Ready.not_faults (h : e.Ready W toVec)
    (error : JudgmentError) : ¬ (e.call W toVec).Faults error := by
  obtain ⟨-, service, config, -, -, hprovider, hconfig, -, hmode, -⟩ := h.state
  intro hfaults
  cases hfaults with
  | settings hother => cases hconfig.symm.trans hother
  | rowConfig hother hrow =>
      obtain rfl := Except.ok.inj (hconfig.symm.trans hother)
      exact hrow hmode
  | bridge hconnected =>
      have hsame := Execution.state_connected toVec e
      rw [h.connected] at hsame
      cases hconnected.symm.trans hsame
  | provider hother => cases hprovider.symm.trans hother
  | row hrow _ hread =>
      obtain ⟨request, hrequest⟩ := h.rows _ hrow
      cases hrequest.symm.trans hread

/-- What it begins in the executor has its settings, and no errors either. -/
theorem Execution.Ready.begun (h : e.Ready W toVec) {outer : OuterHistory}
    {inner : Call} (hbegun : (e.call W toVec).begunCall outer = some inner)
    (hgroups : ∀ group ∈ inner.groups, e.Reads W group.request) :
    (∀ error, ¬ inner.Faults error) ∧ ∃ context service,
      readProviderContext e.env e.options = .ok context ∧
      providerFor context = .ok service ∧
      inner.provider = service.declared toVec ∧
      inner.limits.maxRequestBytes < usizeMax ∧
      ∀ group ∈ inner.groups, inner.provider.gate group.request = true := by
  obtain ⟨context, service, config, hcontext, hservice, hprovider, hconfig,
    hsound, -, hsuits⟩ := h.state
  obtain ⟨recorded, -, hinner⟩ := Option.bind_eq_some_iff.mp hbegun
  rw [show (e.call W toVec).state.runtimeConfig = .ok config from hconfig,
    show (e.call W toVec).state.provider = .ok (service.declared toVec) from
      hprovider] at hinner
  obtain rfl := Option.some.inj hinner
  refine ⟨executorCall_faults hsound hsuits fun group hgroup => ?_, context,
    service, hcontext, hservice, rfl, hsound.maxRequestBytes_lt,
    fun group hgroup => hsuits.gate _ (hgroups group hgroup)⟩
  obtain ⟨row, hrow, hread⟩ := hgroups group hgroup
  exact ⟨⟨row, hrow, hread⟩, (readRequest_wellFormed hread).1.requestKey⟩

end Ready

/-! ## Pools of executions -/

section Pools

variable {ι : Type} [DecidableEq ι] {W : WireText} {s₀ : Surroundings}
  {calls : ι → FunctionCall} {q : FunctionPool ι} {i : ι}

/-- What has begun is about requests which the call has read. -/
theorem FunctionPool.begun_read
    {host : ConnectionRuntime → ConnectionRuntime → Prop}
    (hreach : FunctionPool.Reach host (FunctionPool.start s₀ calls) q)
    {inner : Call}
    (hbegun : (calls i).begunCall (outerOf (q.log.of i)) = some inner) :
    ∀ group ∈ inner.groups, ∃ row < (calls i).rowCount,
      (calls i).read row = .ok (some group.request) := by
  intro group hgroup
  obtain ⟨context, work, nullRows, hcollected, hgroups⟩ :=
    FunctionPool.begun_groups hreach hbegun
  rw [hgroups] at hgroup
  obtain ⟨grouping, hgrouping, hsound⟩ := groupByIdentity_sound work
  obtain ⟨item, hitem, -, hrequest⟩ :=
    hsound.source group (hgrouping.symm ▸ hgroup)
  have hrow : item.target.row ∈ List.range (calls i).rowCount :=
    hcollected.sublist.subset (List.mem_map_of_mem hitem)
  rw [← hrequest]
  exact ⟨_, List.mem_range.mp hrow, (hcollected.items item hitem).1⟩

omit [DecidableEq ι] in
/-- Whatever is sent is the request of a group up to its key. -/
theorem Call.Carries.source {call : Call} {carried : List JudgmentIdentity}
    {requests : List JudgmentRequest} (h : call.Carries carried requests) :
    ∀ request ∈ requests, ∃ group ∈ call.groups, ∃ key,
      request = { group.request with requestKey := key } := by
  induction h with
  | nil => simp
  | cons hhead hrest ih =>
      obtain ⟨group, hgroup, -, hkey⟩ := hhead
      exact List.forall_mem_cons.mpr ⟨⟨group, hgroup, hkey⟩, ih⟩

/-- Whatever a call of the executor sends, its provider can answer, if it can
answer for each of its groups. -/
theorem Workers.sendable {c : ConnectionRuntime} {inner : ι → Call}
    {p : Workers ι} {W : WireText}
    (hreach : Workers.Reach QueryStep (Workers.start c inner) p) {i : ι}
    {venue : Venue} (hformed : (inner i).FormedAt W venue)
    (hgate : ∀ group ∈ (inner i).groups,
      (inner i).provider.gate group.request = true)
    (hbytes : (inner i).limits.maxRequestBytes < usizeMax) {d : Dispatch}
    (hd : d ∈ dispatches (p.log.of i)) :
    (inner i).provider.Sendable W d.requests := by
  obtain ⟨method, hevent⟩ := mem_dispatches.mp hd
  obtain ⟨older, -, hsends⟩ :=
    Workers.allowed (fun _ _ h => h.slots.1) hreach hevent
  obtain ⟨hcap, hsingle⟩ :=
    Call.withinCap (Pool.Reachable.after hreach rfl i) _ hevent
  refine ⟨hsends.keys, ?_, hsends.carries.gate hgate, ?_,
    lt_of_le_of_lt hcap hbytes⟩
  · intro request hrequest
    obtain ⟨group, hgroup, key, rfl⟩ :=
      hsends.carries.source request hrequest
    exact ⟨group.request.requestKey, (hformed group hgroup).1⟩
  · intro hseveral
    have hmethod := hsends.method_eq
    have haccepted := hsends.admissible.accepted
    unfold Call.method at hmethod
    unfold Call.Rejected at haccepted
    cases hmode : (inner i).mode with
    | single =>
        rw [hmode] at hmethod
        obtain ⟨request, hrequests⟩ := hsingle hmethod
        rw [show d.requests = [request] from hrequests] at hseveral
        exact absurd hseveral (by simp)
    | batched maxJudgments order =>
        rw [hmode] at haccepted
        exact not_not.mp (not_or.mp haccepted).1

end Pools

section Executions

variable {ι : Type} [DecidableEq ι] {W : WireText}
  {toVec : Wire → Option (List UInt8)} {services : Services}
  {executions : ι → Execution} {s₀ : Surroundings} {q : FunctionPool ι}

/-- Behind a service which attends, there is nobody to blame. -/
theorem FunctionPool.blameless
    (hreach : FunctionPool.Reach QueryStep
      (FunctionPool.start s₀ fun i => (executions i).call W toVec) q)
    (hready : ∀ i, (executions i).Ready W toVec)
    (hattended : ∀ i, ∀ d ∈ dispatches (innerOf (q.log.of i)),
      (executions i).Attends toVec services d) (i : ι)
    (error : JudgmentError) :
    ¬ BlamedIn (fun i => (executions i).call W toVec) (fun j => q.log.of j) i
      error := by
  rintro (hfaults | ⟨j, inner, hbegun, -, hblamed⟩)
  · exact (hready i).not_faults error hfaults
  obtain ⟨hsettings, context, service, hcontext, hservice, hprovider, hbytes,
    hgate⟩ := (hready j).begun hbegun (FunctionPool.begun_read hreach hbegun)
  rcases hblamed with hfaults | ⟨d, hd, hfails⟩
  · exact hsettings error hfaults
  obtain ⟨⟨thread, -, hinner⟩, -, -⟩ :=
    FunctionPool.inner (fun _ _ h => .quiet h) hreach
  obtain ⟨venue, hformed⟩ := FunctionPool.formedAt (W := W)
    (fun i row request hread => (readRequest_wellFormed hread).1) hreach j
  have hcall : innerCall (fun i => (executions i).call W toVec) q.log j =
      inner := by
    rw [innerCall, hbegun, Option.getD_some]
  have hsendable := Workers.sendable hinner hformed (by rwa [hcall])
    (by rwa [hcall]) (d := d) (by rwa [Log.inner_of])
  rw [hcall, hprovider] at hsendable
  obtain ⟨context', service', hcontext', hservice', hattends⟩ :=
    hattended j d hd
  obtain rfl := Except.ok.inj (hcontext.symm.trans hcontext')
  obtain rfl := Except.ok.inj (hservice.symm.trans hservice')
  exact (hattends.accepted hsendable).not_fails error hfails

/-- Optimized functions with accepted settings run beside each other, each in
front of the service which its settings select, and the results in the cache
are right at the start.  While their query runs, a function which has ended has
computed all of its rows, as this service judges them, and reported nothing. -/
theorem functions_complete (executions : ι → Execution)
    (hcache : CacheRight W services.judges s₀.connection)
    (hentries : s₀.connection.queryEntries = ∅)
    (hrange : FlagInRange s₀.connection) {p : RunPool ι}
    (hreach : RunPool.Reach QueryStep
      (RunPool.start s₀ fun i => (executions i).call W toVec) p)
    (hready : ∀ i, (executions i).Ready W toVec)
    (hattended : ∀ i, ∀ d ∈ RunHistory.asked (p.log.of i),
      (executions i).Attends toVec services d)
    {scope : ℕ} (hrunning : p.shared.connection.Running scope) (i : ι)
    (hreturned : p.thread i = .ret ()) :
    RunHistory.errors (p.log.of i) = [] ∧
      ((executions i).call W toVec).ComputedUpTo
        (services.judgeAt ((executions i).state toVec).context)
        (executions i).rowCount
        fun row => writtenTo row (outerOf (innerOf (p.log.of i))) := by
  have hmode : ∀ i, ((executions i).call W toVec).optimized = true :=
    fun i => (hready i).optimized
  obtain ⟨q, hpool, hshared, hlogs, houtcomes⟩ :=
    RunPool.functions (fun _ _ h => .quiet h) hreach hmode
  obtain ⟨outcome, houtcome, herrors⟩ := houtcomes i hreturned
  have hsilent : RunHistory.errors (p.log.of i) = [] := by
    cases outcome with
    | ok _ => exact herrors
    | error error =>
        rw [← hshared] at hrunning
        have hblamed :=
          FunctionPool.blamed hentries hrange hpool hrunning houtcome
        have hdispatched : ∀ j, ∀ d ∈ dispatches (innerOf (q.log.of j)),
            (executions j).Attends toVec services d := by
          intro j d hd
          rw [hlogs] at hd
          exact hattended j d hd
        exact absurd hblamed
          (FunctionPool.blameless hpool hready hdispatched i error)
  have hmono : ∀ s s', SurroundingsStep QueryStep s s' →
      SurroundingsStep HostStep s s' := by
    rintro s s' (hstep | _)
    · exact .connection s (.query hstep)
    · exact .process s _ _ _
  obtain ⟨done, hcomputed, ⟨rfl, -⟩ | ⟨⟨error, herror⟩, -⟩⟩ :=
    RunPool.ended
      (fun j => services.judgeAt ((executions j).state toVec).context)
      services.judges (fun j => (executions j).rows) hcache hentries
      (fun _ _ => rfl) (hreach.mono_host hmono) (fun _ _ _ => rfl)
      (fun j d hd => (hattended j d hd).serves.sincere) (fun _ => hmode)
      hreturned
  · exact ⟨hsilent, hcomputed⟩
  · cases herror.symm.trans hsilent

end Executions

/-! ## Texts in two queries -/

/-- The rows with these texts, NULL where there is none. -/
def textRows (texts : List (Option String)) (row : ℕ) : InputRow where
  state := (texts.getD row none).map .varchar
  text := some "the text is a complaint"
  choices := none

/-- The texts in optimized mode before the TypeSafe service, with batches and
the cache. -/
def batchedTexts (texts : List (Option String)) : Execution where
  env := fun name => if name = "TYPESAFE_API_KEY" then some "key" else none
  options := some
    { registerConfigOptions with
      provider := some "typesafe"
      model := some verifiedBatchEffectiveModel
      executionMode := some "optimized"
      batchEnabled := some true
      cacheEnabled := some true }
  connected := true
  kind := .prob
  order := insertionOrder
  rowCount := texts.length
  rows := textRows texts

/-- The provider of the texts. -/
def batchedAdapter : TypesafeAdapter := .new verifiedBatchEffectiveModel

theorem textRows_read (texts : List (Option String)) (row : ℕ) :
    readRequest literalText .prob (textRows texts row) =
      .ok ((texts.getD row none).map textRequest) := by
  unfold textRows readRequest
  cases texts.getD row none with
  | none => rfl
  | some text => rfl

def shortTexts : List (Option String) := [none, some "a", some "b", some "c"]

theorem batchedTexts_reads {texts : List (Option String)}
    (hshort : texts ⊆ shortTexts) {request : JudgmentRequest}
    (h : (batchedTexts texts).Reads literalText request) :
    request ∈ shortTexts.filterMap (Option.map textRequest) := by
  obtain ⟨row, hrow, hread⟩ := h
  have hrow : row < texts.length := hrow
  rw [show readRequest literalText (batchedTexts texts).kind
      ((batchedTexts texts).rows row) = _ from textRows_read texts row,
    List.getD_eq_getElem _ _ hrow] at hread
  exact List.mem_filterMap.mpr
    ⟨_, hshort (List.getElem_mem hrow), Except.ok.inj hread⟩

theorem shortTexts_bytes :
    ∀ request ∈ shortTexts.filterMap (Option.map textRequest),
      ((Service.typesafe batchedAdapter).declared
        literalBytes).estimateRequestBytes [request] ≤ 1000 := by
  decide +kernel

theorem batchedTexts_ready {texts : List (Option String)}
    (hshort : texts ⊆ shortTexts) :
    (batchedTexts texts).Ready literalText literalBytes where
  connected := rfl
  settings := by
    refine ⟨_, _, _, rfl, rfl, rfl, rfl, rfl, fun _ => rfl, ?_, ?_⟩
    · intro request hrequest
      obtain ⟨read, -, htext⟩ :=
        List.mem_filterMap.mp (batchedTexts_reads hshort hrequest)
      obtain ⟨text, -, rfl⟩ := Option.map_eq_some_iff.mp htext
      rfl
    · intro request hrequest
      exact (shortTexts_bytes _ (batchedTexts_reads hshort hrequest)).trans
        (Nat.le_of_ble_eq_true rfl)
  rows := fun row _ => ⟨_, textRows_read texts row⟩

/-- The service answers whatever it is sent with even odds. -/
def evenEnvironment : Environment where
  now := id
  judge := fun _ _ requests =>
    ((batchedAdapter.judgeMany literalBytes requests).run.run
      (replyingAgent requests) ()).elim (.error (.provider "")) Prod.fst

theorem evenEnvironment_attends (texts : List (Option String)) (t : ℕ)
    (method : ProviderCall) (carried : List JudgmentIdentity)
    (requests : List JudgmentRequest)
    (hnoul : ∀ request ∈ requests, request.kind = .noul) :
    (batchedTexts texts).Attends literalBytes (fun _ => evenWire)
      ⟨carried, requests, evenEnvironment.judge t method requests⟩ := by
  obtain ⟨outcome, s', h, hrun⟩ := Prog.run_total
    (replyingAgent_total requests)
    (batchedAdapter.judgeMany literalBytes requests).run ()
  have hjudge : evenEnvironment.judge t method requests = outcome := by
    unfold evenEnvironment
    dsimp only
    rw [hrun]
    rfl
  rw [hjudge]
  exact ⟨_, .typesafe batchedAdapter, rfl, rfl, .judgeMany, _, h, rfl,
    Prog.After.of_run hrun, replyingAgent_replied hnoul hrun⟩

/-- The surroundings after a query about the texts, and what it did. -/
def textsQuery (texts : List (Option String)) (s : Surroundings) :
    Option (Surroundings × RunHistory) :=
  (((batchedTexts texts).call literalText literalBytes).run.run
    evenEnvironment.beside (s, 0)).map fun last => (last.2.1.1, last.2.2)

/-- The kinds of the requests in each batch. -/
def askedKinds (h : RunHistory) : List (List QuestionKind) :=
  (RunHistory.asked h).map fun d => d.requests.map JudgmentRequest.kind

/-- Such a query is a schedule, and its service attends. -/
theorem textsQuery_reach
    (host : ConnectionRuntime → ConnectionRuntime → Prop)
    {texts : List (Option String)} {s s' : Surroundings} {h : RunHistory}
    (hquery : textsQuery texts s = some (s', h))
    (hkinds : ∀ kinds ∈ askedKinds h, ∀ kind ∈ kinds, kind = .noul) :
    ∃ p : RunPool Unit, RunPool.Reach host
        (RunPool.start s fun _ =>
          (batchedTexts texts).call literalText literalBytes) p ∧
      p.shared = s' ∧ p.thread () = .ret () ∧ p.log.of () = h ∧
      ∀ d ∈ RunHistory.asked h,
        (batchedTexts texts).Attends literalBytes (fun _ => evenWire) d := by
  obtain ⟨⟨_, s', h⟩, hrun, heq⟩ := Option.map_eq_some_iff.mp hquery
  obtain ⟨rfl, rfl⟩ := Prod.mk.inj heq
  obtain ⟨p, hreach, hshared, hreturned, hlog, hattended⟩ := RunPool.run_alone
    (P := fun d => (∀ request ∈ d.requests, request.kind = .noul) →
      (batchedTexts texts).Attends literalBytes (fun _ => evenWire) d) host
    (evenEnvironment_attends texts) hrun
  refine ⟨p, hreach, hshared, hreturned, hlog, fun d hd => ?_⟩
  exact hattended d hd fun request hrequest =>
    hkinds _ (List.mem_map_of_mem hd) _ (List.mem_map_of_mem hrequest)

/-- The end of one query and the start of the next. -/
def nextSurroundings (s : Surroundings) : Surroundings :=
  { s with connection := nextQuery s.connection }

theorem functions_complete_texts :
    ∃ p : RunPool Unit, p.thread () = .ret () ∧
      askedKinds (p.log.of ()) = [[.noul]] ∧
      RunHistory.errors (p.log.of ()) = [] ∧
      ((batchedTexts [some "b", some "c", none, some "a"]).call literalText
        literalBytes).ComputedUpTo
          (evenWire.judge verifiedBatchEffectiveModel) 4
          fun row => writtenTo row (outerOf (innerOf (p.log.of ()))) := by
  -- the first query asks for two texts, and the second one has to ask for the
  -- third text only
  have hrun : ((textsQuery [some "a", none, some "b"] firstSurroundings).bind
      fun first => (textsQuery [some "b", some "c", none, some "a"]
        (nextSurroundings first.1)).map fun second =>
          (askedKinds first.2, askedKinds second.2,
            (second.1.connection.queryCancellation 1).toOption,
            second.1.connection.flagged 1)) =
        some ([[.noul, .noul]], [[.noul]], some 1, false) := by
    decide +kernel
  obtain ⟨⟨s₁, h₁⟩, hfirst, hrest⟩ := Option.bind_eq_some_iff.mp hrun
  obtain ⟨⟨s₂, h₂⟩, hsecond, hfacts⟩ := Option.map_eq_some_iff.mp hrest
  obtain ⟨hkinds₁, hkinds₂, hgiven, hdown⟩ :
      askedKinds h₁ = [[.noul, .noul]] ∧ askedKinds h₂ = [[.noul]] ∧
        (s₂.connection.queryCancellation 1).toOption = some 1 ∧
        s₂.connection.flagged 1 = false := by
    simpa using hfacts
  obtain ⟨p₁, hreach₁, rfl, -, rfl, hattended₁⟩ :=
    textsQuery_reach HostStep hfirst (by rw [hkinds₁]; decide)
  have hnext := (hreach₁.tail
    (.host (.connection _ (.query (.endQuery _ 0 1 0))))).tail
      (.host (.connection _ (.beginQuery _ 0)))
  have hcache : CacheRight literalText
      (Services.judges fun _ => evenWire)
      (nextSurroundings p₁.shared).connection :=
    cacheRight_of_served (fun _ => batchedTexts [some "a", none, some "b"])
      (.of_empty rfl) hnext (fun _ d hd => (hattended₁ d hd).serves)
      fun _ => (batchedTexts_ready (by decide)).optimized
  obtain ⟨p₂, hreach₂, rfl, hreturned, rfl, hattended₂⟩ :=
    textsQuery_reach QueryStep hsecond (by rw [hkinds₂]; decide)
  obtain ⟨hsilent, hcomputed⟩ :=
    functions_complete
      (fun _ => batchedTexts [some "b", some "c", none, some "a"]) hcache rfl
      (flagInRange_beginQuery _ 0) hreach₂
      (fun _ => batchedTexts_ready (by decide))
      (fun _ d hd => hattended₂ d hd) (running_of_toOption hgiven hdown) ()
      hreturned
  exact ⟨p₂, hreturned, hkinds₂, hsilent, hcomputed⟩

end DuckJeu
