import DuckJeu.Functions.Bodies
import DuckJeu.Functions.Config
import DuckJeu.Provider.Service

/-!
# From settings to cells

An execution of a function is initialized with the options of its session and
the environment.  Its requests go to the provider which these select: to the
mock provider, or through an adapter to the service at its endpoint, under the
model of the execution.  What it writes is then the judgment of that service,
or of the mock provider, of each row.
-/

namespace DuckJeu

open Effects ConnectionRuntime Json

/-! ## Services -/

/-- The services, by their endpoints. -/
abbrev Services := String → WireJudge

/-- A service as a judge of requests which ask for a model. -/
def WireJudge.judge (J : WireJudge) (model : String) : Judge where
  value := fun kind state criterion question choices =>
    J (TypesafeProvider.questionOf ⟨model, none⟩
      ⟨kind, state, criterion, question, choices, ""⟩)

/-- The judge of a function: the mock provider, or the service at its
endpoint. -/
def Services.judgeAt (services : Services) (context : ProviderContext) :
    Judge :=
  if context.provider = ProviderKind.mock.asStr then MockProvider.verdicts
  else (services context.apiUrl).judge context.model

/-- The requests were answered through an adapter of the service. -/
def TypesafeAdapter.Relays (toVec : Wire → Option (List UInt8))
    (a : TypesafeAdapter) (J : WireJudge) (http : HttpProvider)
    (d : Dispatch) : Prop :=
  ∃ method post h, http.call method d.requests = some post ∧
    post.run.After h (.ret d.response) ∧ a.JudgedIn toVec J d.requests h

/-- The requests were answered by the provider, with this service behind it. -/
def Service.Serves (toVec : Wire → Option (List UInt8)) (J : WireJudge)
    (d : Dispatch) : Service → Prop
  | .mock =>
      ∃ method, MockProvider.call method d.requests = some d.response
  | .typesafe a => a.Relays toVec J (a.httpProvider toVec) d
  | .selfHosted p => p.inner.Relays toVec J (p.httpProvider toVec) d

section Sincere

variable {toVec : Wire → Option (List UInt8)} {J : WireJudge} {d : Dispatch}

/-- Both adapters relay the judgments of the service for their model. -/
theorem TypesafeAdapter.Relays.sincere {a : TypesafeAdapter}
    {http : HttpProvider} (h : a.Relays toVec J http d)
    (hmany : http.judgeMany = a.judgeMany toVec)
    (hsingle : http.judgeWithMetadata = a.judgeWithMetadata toVec) :
    d.SincereTo (J.judge a.model) := by
  obtain ⟨method, post, events, hpost, hafter, hjudged⟩ := h
  intro response hresponse request hrequest answer hanswer hkey
  rw [hresponse] at hafter
  suffices hreceived : a.Received toVec d.requests response events from
    hreceived.judged hjudged hrequest hanswer hkey
  cases method with
  | judgeMany =>
      obtain rfl := Option.some.inj hpost
      rw [hmany] at hafter
      exact received_of_after (a.judgeMany_received toVec _) hafter
  | judgeWithMetadata =>
      unfold HttpProvider.call at hpost
      split at hpost
      · rename_i hmethod
        cases hmethod
      · rename_i judgment _ hrequests
        obtain rfl := Option.some.inj hpost
        rw [hsingle] at hafter
        rw [hrequests]
        exact received_of_after (a.postSingle_received toVec judgment) hafter
      · cases hpost

/-- The mock provider answers by its own verdicts. -/
theorem MockProvider.call_sincere {method : ProviderCall}
    (h : MockProvider.call method d.requests = some d.response) :
    d.SincereTo MockProvider.verdicts := by
  intro response hresponse request hrequest answer hanswer hkey
  rw [hresponse] at h
  obtain ⟨hnodup, hanswers⟩ := MockProvider.call_ok h
  rw [hanswers] at hanswer
  obtain ⟨asked, hasked, rfl⟩ := List.mem_map.mp hanswer
  obtain rfl : asked = request :=
    List.inj_on_of_nodup_map hnodup hasked hrequest hkey
  rfl

/-- The mock provider decides by its hash alone: no rounding moves a
probability across the threshold. -/
theorem MockProvider.value_bool {request : JudgmentRequest}
    (hkind : request.kind = .noul) :
    FunctionKind.value .bool (MockProvider.verdict request) =
      some (.boolean
        (decide (500000 ≤ (deriveHash request).toNat % 1000001))) := by
  have hless : (deriveHash request).toNat % 1000001 < 1000001 :=
    Nat.mod_lt _ (by decide)
  have hhalf := F64.half_le_quotient (n := (deriveHash request).toNat % 1000001)
    (d := 1000000) (by decide) (by decide) (by omega)
  unfold MockProvider.verdict
  rw [hkind]
  unfold FunctionKind.value boolFromProbability MockProvider.probability
  dsimp only
  rw [hhalf]
  congr 2
  exact decide_eq_decide.mpr (by omega)

end Sincere

/-! ## Executions -/

/-- One execution of a function, with what it is initialized from and the rows
which it is given. -/
structure Execution where
  env : Variables
  options : Option SessionOptions
  connected : Bool
  kind : FunctionKind
  order : LeaderOrder
  rowCount : ℕ
  rows : ℕ → InputRow

namespace Execution

def state (toVec : Wire → Option (List UInt8)) (e : Execution) :
    ExecutionState :=
  init toVec e.env e.options e.connected

def call (W : WireText) (toVec : Wire → Option (List UInt8)) (e : Execution) :
    FunctionCall where
  kind := e.kind
  state := e.state toVec
  order := e.order
  rowCount := e.rowCount
  read := fun row => readRequest W e.kind (e.rows row)

/-- The requests were answered by the provider which the settings select. -/
def Serves (toVec : Wire → Option (List UInt8)) (services : Services)
    (e : Execution) (d : Dispatch) : Prop :=
  ∃ context service, readProviderContext e.env e.options = .ok context ∧
    providerFor context = .ok service ∧
    service.Serves toVec (services context.apiUrl) d

variable {toVec : Wire → Option (List UInt8)} {services : Services}
  {e : Execution} {d : Dispatch}

theorem context_eq {context : SessionContext}
    (h : readProviderContext e.env e.options = .ok context) :
    (e.state toVec).context = context.narrow := by
  unfold state init
  dsimp only
  rw [h]

/-- A provider is selected for its kind, and an adapter for the model. -/
theorem Serves.sincere (h : e.Serves toVec services d) :
    d.SincereTo (services.judgeAt (e.state toVec).context) := by
  obtain ⟨context, service, hcontext, hservice, hserves⟩ := h
  rw [context_eq hcontext]
  unfold providerFor at hservice
  unfold Services.judgeAt
  cases hkind : context.provider with
  | mock =>
      rw [hkind] at hservice
      obtain rfl := Except.ok.inj hservice
      obtain ⟨method, hcall⟩ := hserves
      rw [if_pos (by rw [SessionContext.narrow, hkind])]
      exact MockProvider.call_sincere hcall
  | typesafe =>
      rw [hkind] at hservice
      dsimp only at hservice
      split at hservice
      · obtain rfl := Except.ok.inj hservice
        have hother : context.narrow.provider ≠ ProviderKind.mock.asStr := by
          rw [SessionContext.narrow, hkind]
          exact of_decide_eq_true rfl
        rw [if_neg hother]
        exact TypesafeAdapter.Relays.sincere hserves rfl rfl
      · cases hservice
  | selfHosted =>
      rw [hkind] at hservice
      obtain rfl := Except.ok.inj hservice
      have hother : context.narrow.provider ≠ ProviderKind.mock.asStr := by
        rw [SessionContext.narrow, hkind]
        exact of_decide_eq_true rfl
      rw [if_neg hother]
      exact TypesafeAdapter.Relays.sincere hserves rfl rfl

end Execution

/-- The judge at the place of an identity. -/
def Services.judges (services : Services) (venue : Venue) : Judge :=
  services.judgeAt
    { provider := venue.providerNamespace
      apiUrl := venue.endpoint
      model := venue.requestedModel
      credential := none }

/-! ## The result -/

/-- Functions are initialized from whatever settings and run under any
schedule, optimized ones beside optimized ones only.  If the services judge,
then what a function has written is the judgment, by the provider which its own
settings select, of each row alone. -/
theorem cells_of_settings {ι : Type} [DecidableEq ι] {W : WireText}
    {toVec : Wire → Option (List UInt8)} {services : Services}
    (executions : ι → Execution) {s₀ : Surroundings}
    (hempty : s₀.connection.cache.entries = ∅)
    (hentries : s₀.connection.queryEntries = ∅) {p : RunPool ι}
    (hreach : RunPool.Reach HostStep
      (RunPool.start s₀ fun i => (executions i).call W toVec) p)
    (hserved : ∀ i, ∀ d ∈ RunHistory.asked (p.log.of i),
      (executions i).Serves toVec services d)
    (i : ι)
    (hmode : ((executions i).call W toVec).optimized = true →
      ∀ j, ((executions j).call W toVec).optimized = true)
    (hreturned : p.thread i = .ret ()) :
    ((executions i).call W toVec).Ended
      (services.judgeAt ((executions i).state toVec).context)
      (p.log.of i) :=
  RunPool.ended
    (fun j => services.judgeAt ((executions j).state toVec).context)
    services.judges (fun j => (executions j).rows) (.of_empty hempty) hentries
    (fun _ _ => rfl) hreach (fun _ _ _ => rfl)
    (fun j d hd => (hserved j d hd).sincere) hmode hreturned

/-- Optimized functions leave a cache of right results behind, if they have
found one. -/
theorem cacheRight_of_served {ι : Type} [DecidableEq ι] {W : WireText}
    {toVec : Wire → Option (List UInt8)} {services : Services}
    (executions : ι → Execution) {s₀ : Surroundings}
    (hcache : CacheRight W services.judges s₀.connection) {p : RunPool ι}
    (hreach : RunPool.Reach HostStep
      (RunPool.start s₀ fun i => (executions i).call W toVec) p)
    (hserved : ∀ i, ∀ d ∈ RunHistory.asked (p.log.of i),
      (executions i).Serves toVec services d)
    (hmode : ∀ i, ((executions i).call W toVec).optimized = true) :
    CacheRight W services.judges p.shared.connection :=
  RunPool.cache_right
    (fun j => services.judgeAt ((executions j).state toVec).context)
    services.judges (fun j => (executions j).rows) hcache (fun _ _ => rfl)
    hreach (fun _ _ _ => rfl) (fun j d hd => (hserved j d hd).sincere) hmode

/-! ## Texts before a service -/

/-- A service of one's own, in row mode. -/
def selfHostedTexts : Execution where
  env := fun _ => none
  options := some { registerConfigOptions with provider := some " SelfHosted" }
  connected := true
  kind := .prob
  order := insertionOrder
  rowCount := 3
  rows := textsRows

/-- A response to any single request. -/
def halfBody : Wire :=
  .object [("answers", .object
    [(defaultRequestKey, TypesafeProvider.noulAnswer .half)])]

def halfServices : Services := fun _ _ => .noul .half

theorem judged_halfBody (body : Wire) :
    TypesafeProvider.Judged (halfServices "") body halfBody := by
  rintro key asked result - ⟨answers, members, value, ⟨outer, houter, hanswers⟩,
    hmem, htype, hvalue, hreads⟩
  obtain rfl := Value.object.inj houter
  obtain ⟨-, hanswers⟩ := Prod.mk.inj (List.mem_singleton.mp hanswers)
  obtain rfl := Value.object.inj hanswers
  obtain ⟨-, hmembers⟩ := Prod.mk.inj (List.mem_singleton.mp hmem)
  obtain rfl := Value.object.inj hmembers
  cases hkind : asked.kind with
  | noul =>
      rw [hkind] at hvalue hreads
      obtain ⟨number, rfl, rfl⟩ := hreads
      simp [TypesafeProvider.typeName] at hvalue
      rw [hvalue]
      rfl
  | choice =>
      rw [hkind] at htype
      simp [TypesafeProvider.typeName] at htype

/-- The agent always brings the response, and the clock stands. -/
def halfAgent (_ : Unit) : (op : HttpOp) → Option (HttpRes op × Unit)
  | .send _ => some (.ok ⟨200, none, .ok (some halfBody)⟩, ())
  | .now => some (0, ())

/-- The provider of the texts. -/
def selfHostedProvider : LocalJevProvider := .new defaultLocalJevModel

def relayedEnvironment : Environment where
  now := id
  judge := fun _ _ requests =>
    (((selfHostedProvider.httpProvider literalBytes).judgeMany requests).run.run
      halfAgent ()).elim (.error (.provider "")) Prod.fst

theorem relayedEnvironment_serves (t : ℕ) (method : ProviderCall)
    (carried : List JudgmentIdentity) (requests : List JudgmentRequest) :
    selfHostedTexts.Serves literalBytes halfServices
      ⟨carried, requests, relayedEnvironment.judge t method requests⟩ := by
  have hagent : ∀ s op, ∃ r s', halfAgent s op = some (r, s') := by
    intro s op
    cases op with
    | send bytes => exact ⟨_, _, rfl⟩
    | now => exact ⟨_, _, rfl⟩
  obtain ⟨outcome, s', h, hrun⟩ := Prog.run_total hagent
    ((selfHostedProvider.httpProvider literalBytes).judgeMany requests).run ()
  refine ⟨_, .selfHosted selfHostedProvider, rfl, rfl, .judgeMany, _, h, rfl,
    ?_, ?_⟩
  · have hjudge : relayedEnvironment.judge t method requests = outcome := by
      unfold relayedEnvironment
      dsimp only
      rw [hrun]
      rfl
    rw [hjudge]
    exact Prog.After.of_run hrun
  · rintro body bytes response tree - - hsent htrusts
    obtain ⟨before, after, hhandled⟩ := Prog.run_handled hrun _ hsent
    obtain ⟨hresponse, -⟩ := Prod.mk.inj (Option.some.inj hhandled)
    obtain rfl := Except.ok.inj hresponse
    obtain rfl := Option.some.inj (Except.ok.inj htrusts.body)
    exact judged_halfBody body

theorem cells_of_settings_texts :
    ∃ p : RunPool Unit, p.thread () = .ret () ∧
      RunHistory.errors (p.log.of ()) = [] ∧
      (selfHostedTexts.call literalText literalBytes).Ended
        (halfServices.judgeAt (selfHostedTexts.state literalBytes).context)
        (p.log.of ()) := by
  have hrun : ((selfHostedTexts.call literalText literalBytes).run.run
      relayedEnvironment.beside (firstSurroundings, 0)).map
        (fun last => RunHistory.errors last.2.2) = some [] := by
    decide +kernel
  obtain ⟨⟨_, s', h⟩, hrun, hsilent⟩ := Option.map_eq_some_iff.mp hrun
  obtain ⟨p, hreach, -, hreturned, rfl, hserved⟩ := RunPool.run_alone
    HostStep relayedEnvironment_serves hrun
  have hmode : (selfHostedTexts.call literalText literalBytes).optimized ≠
      true := by
    decide
  exact ⟨p, hreturned, hsilent,
    cells_of_settings (fun _ => selfHostedTexts) rfl rfl hreach
      (fun _ => hserved) () (fun h => absurd h hmode) hreturned⟩

end DuckJeu
