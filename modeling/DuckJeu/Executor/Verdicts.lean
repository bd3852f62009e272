import DuckJeu.Executor.Undisturbed

/-!
# Verdicts

Suppose that each model at each place judges: it gives every judgment a value
of its own, whenever it answers at all.  Then whatever a worker knows about a
group is the value of that group, whoever has asked for it, in whatever
request, and in whatever query.  A cache which holds such values goes on
holding them.
-/

namespace DuckJeu

open Effects ConnectionRuntime

/-! ## Places of judgments -/

/-- Where a judgment is made. -/
structure Venue where
  providerNamespace : String
  endpoint : String
  requestedModel : String
  credentialScope : ℕ

def JudgmentIdentity.venue (identity : JudgmentIdentity) : Venue where
  providerNamespace := identity.providerNamespace
  endpoint := identity.endpoint
  requestedModel := identity.requestedModel
  credentialScope := identity.credentialScope

def JudgmentIdentityContext.venue (context : JudgmentIdentityContext) :
    Venue where
  providerNamespace := context.providerNamespace
  endpoint := context.endpoint
  requestedModel := context.requestedModel
  credentialScope := context.credentialScope

theorem venue_new (request : JudgmentRequest)
    (context : JudgmentIdentityContext) :
    (JudgmentIdentity.new request context).venue = context.venue := rfl

theorem SameJudgment.venue {a b : JudgmentGroup} (h : SameJudgment a b) :
    a.identity.venue = b.identity.venue := by
  simp only [JudgmentIdentity.venue, h.providerNamespace, h.endpoint,
    h.requestedModel, h.credentialScope]

/-- Whatever a response says about a judgment is its value at its venue.  The
response may say too little or too much. -/
def Dispatch.TruthfulTo (d : Dispatch) (judges : Venue → Judge) : Prop :=
  ∀ response, d.response = .ok response →
    ∀ asked ∈ d.carried.zip d.requests, ∀ answer ∈ response.answers,
      answer.requestKey = asked.2.requestKey →
        answer.result = (judges asked.1.venue).of asked.2

/-- The groups have well-formed requests, and their identities at one venue. -/
def Call.FormedAt (W : WireText) (call : Call) (venue : Venue) : Prop :=
  ∀ group ∈ call.groups, WellFormed W group.request ∧
    ∃ context, context.venue = venue ∧
      group.identity = .new group.request context

section Venues

variable {W : WireText} {call : Call} {venue : Venue}

theorem Call.FormedAt.formed (h : call.FormedAt W venue) : call.Formed W := by
  intro group hgroup
  obtain ⟨hformed, context, -, hidentity⟩ := h group hgroup
  exact ⟨hformed, context, hidentity⟩

theorem Call.FormedAt.venue_eq (h : call.FormedAt W venue)
    {group : JudgmentGroup} (hgroup : group ∈ call.groups) :
    group.identity.venue = venue := by
  obtain ⟨-, context, hvenue, hidentity⟩ := h group hgroup
  rw [hidentity, venue_new, hvenue]

/-- A request which is sent is carried for a group at the venue of the call. -/
theorem Call.FormedAt.carried (h : call.FormedAt W venue)
    {carried : List JudgmentIdentity} {requests : List JudgmentRequest}
    (hcarries : call.Carries carried requests) {request : JudgmentRequest}
    (hrequest : request ∈ requests) :
    ∃ identity, (identity, request) ∈ carried.zip requests ∧
      identity.venue = venue := by
  obtain ⟨n, hn, rfl⟩ := List.getElem_of_mem hrequest
  have hlength := hcarries.length_eq
  have hn' : n < carried.length := hlength.symm ▸ hn
  obtain ⟨group, hgroup, hidentity, -⟩ := hcarries.get hn' hn
  refine ⟨carried[n], ?_, ?_⟩
  · rw [← List.getElem_zip (h := by rw [List.length_zip]; omega)]
    exact List.getElem_mem _
  · rw [← h.venue_eq hgroup, hidentity]
    rfl

/-- An accepted answer of a truthful response is the value of the group. -/
theorem Dispatch.Answers.truth {d : Dispatch} {judges : Venue → Judge}
    {request : JudgmentRequest} {result : JudgmentResult}
    {model : Option String} (hanswers : d.Answers request result model)
    (htruthful : d.TruthfulTo judges) (hformed : call.FormedAt W venue)
    (hcarries : call.Carries d.carried d.requests) :
    result = (judges venue).of request := by
  obtain ⟨response, key, hresponse, -, hmem, hanswer, -⟩ := hanswers
  obtain ⟨identity, hasked, hvenue⟩ := hformed.carried hcarries hmem
  have hvalue := htruthful response hresponse _ hasked _ hanswer rfl
  rw [hvenue] at hvalue
  exact hvalue

end Venues

/-! ## Right results -/

/-- The result is valid for every group with this key in the cache, and its
value. -/
def RightFor (W : WireText) (judges : Venue → Judge) (key : JudgmentIdentity)
    (result : JudgmentResult) : Prop :=
  ∀ (group : JudgmentGroup) (provider : Provider), WellFormed W group.request →
    (∃ context, group.identity = .new group.request context) →
      cacheIdentityFor group provider = some key →
        ValidFor group.request result ∧
          result = (judges group.identity.venue).of group.request

/-- Whatever is in the cache is right. -/
def CacheRight (W : WireText) (judges : Venue → Judge)
    (c : ConnectionRuntime) : Prop :=
  CacheAll (RightFor W judges) c

/-! ## What workers know -/

section Workers

variable {ι : Type} [DecidableEq ι] {W : WireText} {calls : ι → Call}
  {venues : ι → Venue} {judges : Venue → Judge} {c : ConnectionRuntime}

theorem Workers.carried {p : Workers ι}
    (hreach : Workers.Reach HostStep (Workers.start c calls) p) :
    Carried calls p.log := by
  refine (Workers.invariant (fun _ log => Carried calls log) hreach
    (fun _ _ h => h.slots.1) (by simp [Carried, dispatches]) ?_
    fun _ _ _ h _ => h).1
  exact fun _ _ _ i op r _ hcarries hallowed _ => hcarries.step r hallowed

/-- A validated result is right for every group with its key. -/
theorem Workers.validated_right
    (hformed : ∀ i, (calls i).FormedAt W (venues i)) {p : Workers ι}
    (hreach : Workers.Reach HostStep (Workers.start c calls) p)
    (htruthful : ∀ i, ∀ d ∈ dispatches (p.log.of i), d.TruthfulTo judges)
    {i : ι} {older : History} (holder : older <:+ p.log.of i)
    {key : JudgmentIdentity} {result : JudgmentResult}
    (h : (calls i).Validated older key result) :
    RightFor W judges key result := by
  obtain ⟨source, hsource, hsourceKey, d, hlast, hanswers⟩ := h
  intro group provider hrequest hidentity hkey
  have hsourceIdentity : ∃ context,
      source.identity = .new source.request context :=
    ((hformed i).formed source hsource).2
  have hsourceKey := Call.cacheKey_some hsourceKey
  have hd : d ∈ dispatches (p.log.of i) :=
    dispatches_subset holder (lastDispatch_mem hlast)
  have hsame := sameJudgment_of_key hsourceIdentity hidentity hsourceKey hkey
  refine ⟨hanswers.validFor hsame.kind hsame.choices, ?_⟩
  rw [hanswers.truth (htruthful i d hd) (hformed i)
    (Workers.carried hreach i d hd), ← (hformed i).venue_eq hsource,
    hsame.venue]
  exact Judge.of_eq_of_key _ (hformed i source hsource).1 hrequest
    hsourceIdentity hidentity hsourceKey hkey

/-- Over all queries, a cache of right results stays one, and serves right
results only. -/
theorem Workers.cache_right (hcache : CacheRight W judges c)
    (hformed : ∀ i, (calls i).FormedAt W (venues i)) {p : Workers ι}
    (hreach : Workers.Reach HostStep (Workers.start c calls) p)
    (htruthful : ∀ i, ∀ d ∈ dispatches (p.log.of i), d.TruthfulTo judges) :
    CacheRight W judges p.shared ∧ ∀ i key now policy result,
      (i, ⟨.cacheLookup key now policy, some result⟩) ∈ p.log →
        ∃ identity, key = some identity ∧
          RightFor W judges identity result := by
  refine Workers.cache_all hcache hreach ?_
  intro i key result now policy hmem
  obtain ⟨older, holder, hvalidated⟩ := Workers.allowed
    (fun _ _ h => h.slots.1) hreach (Log.mem_of.mpr hmem)
  exact Workers.validated_right hformed hreach htruthful holder hvalidated

/-- Over all queries of a connection, whatever a worker knows about a group is
valid for the group and its value. -/
theorem Workers.answered_right (hcache : CacheRight W judges c)
    (hentries : c.queryEntries = ∅)
    (hformed : ∀ i, (calls i).FormedAt W (venues i)) {p : Workers ι}
    (hreach : Workers.Reach HostStep (Workers.start c calls) p)
    (htruthful : ∀ i, ∀ d ∈ dispatches (p.log.of i), d.TruthfulTo judges)
    {i : ι} {group : JudgmentGroup} (hgroup : group ∈ (calls i).groups)
    {result : JudgmentResult}
    (h : Answered (p.log.of i) group.identity result) :
    ValidFor group.request result ∧
      result = (judges (venues i)).of group.request := by
  have hcontext : ∀ j, ∀ other ∈ (calls j).groups,
      ∃ context, other.identity = .new other.request context :=
    fun j other hother => ((hformed j).formed other hother).2
  obtain ⟨j, source, hsource, hidentity, hresult⟩ :=
    Workers.sourced hentries hreach h
  -- the source knows the value of its own group
  have hright : ValidFor source.request result ∧
      result = (judges (venues j)).of source.request := by
    rcases hresult with ⟨now, policy, hmem⟩ | ⟨d, hd, model, hanswers⟩
    · obtain ⟨key, hkey, hright⟩ :=
        (Workers.cache_right hcache hformed hreach htruthful).2 j _ now policy
          result (Log.mem_of.mp hmem)
      have hvalue := hright source _ (hformed j source hsource).1
        (hcontext j source hsource) (Call.cacheKey_some hkey)
      rwa [(hformed j).venue_eq hsource] at hvalue
    · exact ⟨hanswers.validFor rfl rfl, hanswers.truth (htruthful j d hd)
        (hformed j) (Workers.carried hreach j d hd)⟩
  obtain ⟨context, hgroupIdentity⟩ := hcontext i group hgroup
  obtain ⟨context', hsourceIdentity⟩ := hcontext j source hsource
  refine ⟨?_, ?_⟩
  · have hsame := hidentity
    rw [hsourceIdentity, hgroupIdentity] at hsame
    exact hright.1.of_identity hsame
  · rw [hright.2, ← (hformed j).venue_eq hsource, hidentity,
      (hformed i).venue_eq hgroup]
    exact Judge.of_eq_of_identity _ (hformed j source hsource).1
      (hformed i group hgroup).1 (hcontext j source hsource)
      (hcontext i group hgroup) hidentity

end Workers

end DuckJeu
