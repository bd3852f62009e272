import DuckJeu.Executor.Alone
import DuckJeu.Executor.Requests
import DuckJeu.Effects.Extension

/-!
# All or nothing

A batch is accepted when the response answers each of its requests, in
whatever order.  Then every group gets its own answer.  Otherwise no answer is
used: the entries of the batch fail with one error, nothing is cached, and
nothing is put out.
-/

namespace DuckJeu

open Effects

/-! ## Complete responses -/

/-- These results as answers to the requests. -/
def answersFor (requests : List JudgmentRequest)
    (results : List JudgmentResult) : List ProviderAnswer :=
  (requests.zip results).map fun pair => ⟨pair.1.requestKey, pair.2⟩

/-- The response answers every request exactly once, under its key and with
these results, which are valid for the requests.  The answers may stand in any
order. -/
structure AnswersAll (requests : List JudgmentRequest)
    (response : ProviderBatchResult) (results : List JudgmentResult) :
    Prop where
  valid : List.Forall₂ ValidFor requests results
  answers : response.answers.Perm (answersFor requests results)

theorem answersFor_requestKey {requests : List JudgmentRequest}
    {results : List JudgmentResult}
    (hlength : requests.length = results.length) :
    (answersFor requests results).map ProviderAnswer.requestKey =
      requests.map JudgmentRequest.requestKey := by
  have hfst := List.map_fst_zip hlength.le
  calc (answersFor requests results).map ProviderAnswer.requestKey
      = ((requests.zip results).map Prod.fst).map
          JudgmentRequest.requestKey := by
        rw [answersFor, List.map_map, List.map_map]
        rfl
    _ = requests.map JudgmentRequest.requestKey := by rw [hfst]

theorem AnswersAll.requestKeys {requests : List JudgmentRequest}
    {response : ProviderBatchResult} {results : List JudgmentResult}
    (h : AnswersAll requests response results) :
    (response.answers.map ProviderAnswer.requestKey).Perm
      (requests.map JudgmentRequest.requestKey) := by
  rw [← answersFor_requestKey h.valid.length_eq]
  exact h.answers.map _

/-- A complete response is accepted. -/
theorem AnswersAll.accepted {requests : List JudgmentRequest}
    {response : ProviderBatchResult} {results : List JudgmentResult}
    (hnodup : (requests.map JudgmentRequest.requestKey).Nodup)
    (h : AnswersAll requests response results) :
    validateBatchResult requests response = .ok () := by
  refine validateBatchResult_of hnodup h.requestKeys ?_
  intro answer hanswer request hrequest hkey
  obtain ⟨⟨known, result⟩, hpair, rfl⟩ :=
    List.mem_map.mp (h.answers.mem_iff.mp hanswer)
  have hknown : known = request :=
    List.inj_on_of_nodup_map hnodup (List.of_mem_zip hpair).1 hrequest hkey.symm
  subst hknown
  exact List.forall₂_zip h.valid hpair

/-- Each of the requests finds its answer in an accepted response. -/
theorem exists_results {requests : List JudgmentRequest}
    {response : ProviderBatchResult}
    (hcovered : ∀ request ∈ requests, ∃ result,
      ⟨request.requestKey, result⟩ ∈ response.answers ∧
        ValidFor request result) :
    ∃ results, List.Forall₂ (fun request result =>
      ⟨request.requestKey, result⟩ ∈ response.answers ∧
        ValidFor request result) requests results := by
  induction requests with
  | nil => exact ⟨[], .nil⟩
  | cons request rest ih =>
      obtain ⟨result, hresult⟩ := hcovered request (List.mem_cons_self ..)
      obtain ⟨results, hresults⟩ := ih fun other hother =>
        hcovered other (List.mem_cons_of_mem _ hother)
      exact ⟨result :: results, .cons hresult hresults⟩

/-- A response is accepted exactly if it is complete. -/
theorem accepted_iff_answersAll {requests : List JudgmentRequest}
    {response : ProviderBatchResult}
    (hnodup : (requests.map JudgmentRequest.requestKey).Nodup) :
    validateBatchResult requests response = .ok () ↔
      ∃ results, AnswersAll requests response results := by
  constructor
  · intro haccepted
    obtain ⟨-, hkeys, hlength, hcovered, hvalid⟩ :=
      validateBatchResult_ok haccepted
    have hfound : ∀ request ∈ requests, ∃ result,
        ⟨request.requestKey, result⟩ ∈ response.answers ∧
          ValidFor request result := by
      intro request hrequest
      obtain ⟨answer, hanswer, hkey⟩ := hcovered request hrequest
      obtain ⟨known, hknown, hsame, hfits⟩ := hvalid answer hanswer
      obtain rfl : known = request :=
        List.inj_on_of_nodup_map hnodup hknown hrequest (hsame.trans hkey)
      exact ⟨answer.result, hkey ▸ hanswer, hfits⟩
    obtain ⟨results, hresults⟩ := exists_results hfound
    refine ⟨results, hresults.imp fun _ _ h => h.2, ?_⟩
    have hsubset : answersFor requests results ⊆ response.answers := by
      intro answer hanswer
      obtain ⟨⟨request, result⟩, hpair, rfl⟩ := List.mem_map.mp hanswer
      exact (List.forall₂_zip hresults hpair).1
    have hdistinct : (answersFor requests results).Nodup := by
      refine List.Nodup.of_map ProviderAnswer.requestKey ?_
      rw [answersFor_requestKey hresults.length_eq]
      exact hnodup
    have hcount : response.answers.length ≤
        (answersFor requests results).length := by
      rw [hlength, answersFor, List.length_map, List.length_zip,
        ← hresults.length_eq, min_self]
    exact ((List.subperm_of_subset hdistinct hsubset).perm_of_length_le
      hcount).symm
  · rintro ⟨results, hanswers⟩
    exact hanswers.accepted hnodup

/-- The answer with a key is found from either end. -/
theorem find?_requestKey {answers : List ProviderAnswer}
    (hkeys : (answers.map ProviderAnswer.requestKey).Nodup)
    {answer : ProviderAnswer} (hmem : answer ∈ answers) :
    answers.reverse.find? (fun other =>
      other.requestKey == answer.requestKey) = some answer := by
  cases hfind : answers.reverse.find? (fun other =>
      other.requestKey == answer.requestKey) with
  | none =>
      have hnone := List.find?_eq_none.mp hfind answer
        (List.mem_reverse.mpr hmem)
      simp at hnone
  | some other =>
      have hother : other ∈ answers :=
        List.mem_reverse.mp (List.mem_of_find?_eq_some hfind)
      have hkey : other.requestKey = answer.requestKey := by
        simpa using List.find?_some hfind
      rw [List.inj_on_of_nodup_map hkeys hother hmem hkey]

/-- Every leader is given the result for its own request. -/
theorem collectResults_eq {answers : List ProviderAnswer}
    (hkeys : (answers.map ProviderAnswer.requestKey).Nodup)
    {leaders : List Leader} {requests : List JudgmentRequest}
    {results : List JudgmentResult} (hlength : leaders.length = requests.length)
    (hresults : List.Forall₂ (fun request result =>
      ⟨request.requestKey, result⟩ ∈ answers ∧ ValidFor request result)
      requests results) :
    collectResults answers (leaders.zip requests) =
      .ok (leaders.zip results) := by
  induction hresults generalizing leaders with
  | nil =>
      rw [List.zip_nil_right, List.zip_nil_right]
      rfl
  | @cons request result requests results hresult hrest ih =>
      cases leaders with
      | nil => cases hlength
      | cons leader leaders =>
          obtain ⟨hanswer, hvalid⟩ := hresult
          have hfind := find?_requestKey hkeys hanswer
          have hlater := ih (Nat.succ.inj hlength)
          unfold ValidFor at hvalid
          simp only [List.zip_cons_cons, collectResults, hfind, hvalid,
            hlater]

/-- Each request finds its own result in a complete response. -/
theorem AnswersAll.found {requests : List JudgmentRequest}
    {response : ProviderBatchResult} {results : List JudgmentResult}
    (h : AnswersAll requests response results) :
    List.Forall₂ (fun request result =>
      ⟨request.requestKey, result⟩ ∈ response.answers ∧
        ValidFor request result) requests results := by
  refine List.forall₂_iff_zip.mpr ⟨h.valid.length_eq, ?_⟩
  intro request result hpair
  refine ⟨h.answers.mem_iff.mpr ?_, List.forall₂_zip h.valid hpair⟩
  exact List.mem_map.mpr ⟨_, hpair, rfl⟩

/-- What a complete response gives to a batch. -/
theorem finishBatch_of_answersAll {batch : List Leader}
    {response : ProviderBatchResult} {results : List JudgmentResult}
    (h : AnswersAll (requestsForGroups batch) response results) :
    finishBatch batch (requestsForGroups batch) response =
      pure (batch.zip results, response.metadata.effectiveModel) := by
  have hnodup := requestsForGroups_keys batch
  have hkeys : (response.answers.map ProviderAnswer.requestKey).Nodup :=
    h.requestKeys.nodup_iff.mpr hnodup
  unfold finishBatch
  rw [h.accepted hnodup]
  dsimp only
  rw [collectResults_eq hkeys (requestsForGroups_length batch).symm h.found]

/-- A response which is not complete gives nothing. -/
theorem finishBatch_of_not {batch : List Leader}
    {response : ProviderBatchResult}
    (h : ¬ ∃ results, AnswersAll (requestsForGroups batch) response results) :
    ∃ error, finishBatch batch (requestsForGroups batch) response =
      throw error := by
  rw [← accepted_iff_answersAll (requestsForGroups_keys batch)] at h
  unfold finishBatch
  cases hvalid : validateBatchResult (requestsForGroups batch) response with
  | error error => exact ⟨error, rfl⟩
  | ok _ => exact absurd hvalid h

theorem results_unique {answers : List ProviderAnswer}
    (hkeys : (answers.map ProviderAnswer.requestKey).Nodup)
    {requests : List JudgmentRequest} {results results' : List JudgmentResult}
    (h : List.Forall₂ (fun request result =>
      ⟨request.requestKey, result⟩ ∈ answers ∧ ValidFor request result)
      requests results)
    (h' : List.Forall₂ (fun request result =>
      ⟨request.requestKey, result⟩ ∈ answers ∧ ValidFor request result)
      requests results') : results = results' := by
  induction h generalizing results' with
  | nil => cases h' with | nil => rfl
  | @cons request result _ _ hfirst _ ih =>
      cases h' with
      | @cons _ result' _ _ hfirst' hrest' =>
          have hsame := List.inj_on_of_nodup_map hkeys hfirst.1 hfirst'.1 rfl
          have hresult : result = result' :=
            congrArg ProviderAnswer.result hsame
          rw [hresult, ih hrest']

/-- A response answers a batch in one way only. -/
theorem AnswersAll.unique {batch : List Leader}
    {response : ProviderBatchResult} {results results' : List JudgmentResult}
    (h : AnswersAll (requestsForGroups batch) response results)
    (h' : AnswersAll (requestsForGroups batch) response results') :
    results = results' :=
  results_unique (h.requestKeys.nodup_iff.mpr (requestsForGroups_keys batch))
    h.found h'.found

/-! ## The operations of a dispatch -/

/-- The event is an operation on the cache. -/
def ExecEvent.Caches : ExecEvent → Bool
  | ⟨.cacheLookup _ _ _, _⟩ => true
  | ⟨.cacheInsert _ _ _ _, _⟩ => true
  | _ => false

theorem step_cache_of_not_caches {event : ExecEvent}
    (hevent : event.Caches = false) {c c' : ConnectionRuntime}
    (h : step c event.1 event.2 c') : c'.cache = c.cache := by
  obtain ⟨op, r⟩ := event
  refine step_cache h ?_ ?_
  · rintro key now policy rfl
    cases hevent
  · rintro key result now policy rfl
    cases hevent

theorem ExecEvent.not_caches_of_attends {event : ExecEvent}
    (hevent : event.1.Attends = true) : event.Caches = false := by
  obtain ⟨op, r⟩ := event
  cases op with
  | cacheLookup => cases hevent
  | cacheInsert => cases hevent
  | _ => rfl

/-- The protocol which notes everything but what attends a request. -/
def delivering : Protocol Op Res History where
  note := fun g op r => if op.Attends then g else ⟨op, r⟩ :: g
  Allowed := fun _ _ => True
  Admits := fun _ _ _ => True

theorem delivering_ignores (op : Op) (hop : op.Attends = true) :
    delivering.Ignores op := by
  intro g
  exact ⟨trivial, fun r => if_pos hop⟩

/-- The noted history has the same completions and requests. -/
structure Notes (h g : History) : Prop where
  completions_eq : completions g = completions h
  dispatches_eq : dispatches g = dispatches h
  noted : ∀ event ∈ h, event.1.Attends = true ∨ event ∈ g

theorem notes_nil : Notes [] [] where
  completions_eq := rfl
  dispatches_eq := rfl
  noted := by simp

theorem Notes.event {h g : History} (hnotes : Notes h g) (op : Op)
    (r : Res op) : Notes (⟨op, r⟩ :: h) (delivering.note g op r) := by
  have hnoted : ∀ {g' : History}, g ⊆ g' →
      (op.Attends = true ∨ (⟨op, r⟩ : ExecEvent) ∈ g') →
      ∀ event ∈ (⟨op, r⟩ : ExecEvent) :: h,
        event.1.Attends = true ∨ event ∈ g' := by
    intro g' hsubset hnew event hevent
    rcases List.mem_cons.mp hevent with rfl | hevent
    · exact hnew
    · exact (hnotes.noted event hevent).imp_right fun hmem => hsubset hmem
  by_cases hop : op.Attends = true
  · have hquiet : ExecEvent.completion? ⟨op, r⟩ = none ∧
        ExecEvent.dispatch? ⟨op, r⟩ = none := by
      cases op with
      | complete => cases hop
      | judge => cases hop
      | _ => exact ⟨rfl, rfl⟩
    have hnote : delivering.note g op r = g := if_pos hop
    rw [hnote]
    refine ⟨?_, ?_, hnoted (List.Subset.refl g) (Or.inl hop)⟩
    · rw [hnotes.completions_eq, completions, completions,
        List.filterMap_cons_none hquiet.1]
    · rw [hnotes.dispatches_eq, dispatches, dispatches,
        List.filterMap_cons_none hquiet.2]
  · have hnote : delivering.note g op r = ⟨op, r⟩ :: g := if_neg hop
    rw [hnote]
    have hcompletions := hnotes.completions_eq
    have hdispatches := hnotes.dispatches_eq
    unfold completions at hcompletions
    unfold dispatches at hdispatches
    refine ⟨?_, ?_, hnoted (List.subset_cons_self _ g)
      (Or.inr (List.mem_cons_self ..))⟩
    · rw [completions, completions, List.filterMap_cons, List.filterMap_cons,
        hcompletions]
    · rw [dispatches, dispatches, List.filterMap_cons, List.filterMap_cons,
        hdispatches]

section Dispatch

variable {provider : Provider} {limits : ExecutionLimits}
  {cachePolicy : Option CachePolicy}

theorem cacheValidated_delivers {group : JudgmentGroup}
    {cacheIdentity : Option JudgmentIdentity} {model : Option String}
    {result : JudgmentResult} (g : History) :
    Secures delivering
      (cacheValidated provider group cacheIdentity cachePolicy model result)
      (fun _ g' => completions g' = completions g ∧
        dispatches g' = dispatches g) (fun _ _ => False) g := by
  unfold cacheValidated
  split
  · split
    · rw [secures_bind, secures_lift]
      refine ((delivering_ignores _ rfl).follows rfl).mono ?_
      rintro now _ rfl
      rw [secures_bind, secures_lift, follows_perform]
      exact ⟨trivial, fun stored _ => ⟨rfl, rfl⟩⟩
    · exact ⟨rfl, rfl⟩
  · exact ⟨rfl, rfl⟩

/-- Publishing completes every entry with its own result. -/
theorem publish_delivers {model : Option String}
    (output : List (RowTarget × JudgmentResult))
    (results : List (Leader × JudgmentResult)) (g : History) :
    Secures delivering
      (publish provider cachePolicy model output results)
      (fun output' g' =>
        output' = output ++
            results.flatMap (fun a => a.1.group.expand a.2) ∧
          (completions g').reverse = (completions g).reverse ++
            results.map (fun a => (a.1.entry, .ok a.2)) ∧
          dispatches g' = dispatches g) (fun _ _ => False) g := by
  induction results generalizing output g with
  | nil => exact ⟨by simp, by simp, rfl⟩
  | cons first rest ih =>
      obtain ⟨leader, result⟩ := first
      rw [publish, secures_bind]
      refine (cacheValidated_delivers g).mono ?_ (fun _ _ h => h)
      rintro _ g₁ ⟨hcompletions, hdispatches⟩
      rw [secures_bind, secures_lift, follows_perform]
      refine ⟨trivial, fun _ _ => ?_⟩
      refine (ih _ _).mono ?_ (fun _ _ h => h)
      rintro output' g' ⟨houtput, hcompleted, hsent⟩
      have hnew : completions (delivering.note g₁
          (.complete leader.entry (.ok result)) ()) =
            (leader.entry, .ok result) :: completions g₁ := rfl
      refine ⟨by simp [houtput], ?_, hsent.trans hdispatches⟩
      rw [hcompleted, hnew, hcompletions]
      simp

/-- Failing entries only completes them. -/
theorem failEntries_delivers (error : JudgmentError) (leaders : List Leader)
    {g : History} (hcaches : ∀ event ∈ g, ExecEvent.Caches event = false) :
    Secures delivering (failEntries error leaders)
      (fun _ g' =>
        (completions g').reverse = (completions g).reverse ++
            leaders.map (fun leader => (leader.entry, .error error)) ∧
          dispatches g' = dispatches g ∧
          ∀ event ∈ g', ExecEvent.Caches event = false)
      (fun _ _ => False) g := by
  induction leaders generalizing g with
  | nil => exact ⟨by simp, rfl, hcaches⟩
  | cons leader rest ih =>
      rw [failEntries, secures_bind, secures_lift, follows_perform]
      refine ⟨trivial, fun _ _ => ?_⟩
      have hnew : completions (delivering.note g
          (.complete leader.entry (.error error)) ()) =
            (leader.entry, .error error) :: completions g := rfl
      refine (ih ?_).mono ?_ (fun _ _ h => h)
      · intro event hevent
        rcases List.mem_cons.mp hevent with rfl | hevent
        · rfl
        · exact hcaches event hevent
      · rintro _ g' ⟨hcompleted, hsent, hquiet⟩
        refine ⟨?_, hsent, hquiet⟩
        rw [hcompleted, hnew]
        simp

/-! ## The dispatch -/

/-- The provider has answered the batch completely, with these results. -/
def Delivered (batch : List Leader) (h : History)
    (results : List JudgmentResult) : Prop :=
  ∃ d ∈ dispatches h, d.requests = requestsForGroups batch ∧
    ∃ response, d.response = .ok response ∧
      AnswersAll (requestsForGroups batch) response results

/-- The batch has got these results: each group its own, with its rows in the
output, and nothing else. -/
structure Accepted (batch : List Leader)
    (output : List (RowTarget × JudgmentResult)) (h : History)
    (results : List JudgmentResult) (outcome : Answer) : Prop where
  outcome_eq : outcome = .ok (output ++
    (batch.zip results).flatMap fun a => a.1.group.expand a.2)
  completions_eq : (completions h).reverse =
    (batch.zip results).map fun a => (a.1.entry, .ok a.2)

/-- The batch has failed with an error, which is that of all its entries, and
has left the cache alone. -/
structure Rejected (batch : List Leader) (h : History) (outcome : Answer)
    (error : JudgmentError) : Prop where
  outcome_eq : outcome = .error error
  completions_eq : (completions h).reverse =
    batch.map fun leader => (leader.entry, .error error)
  cache_eq : ∀ event ∈ h, ∀ c c' : ConnectionRuntime,
    step c event.1 event.2 c' → c'.cache = c.cache

/-- What a dispatch leaves in the noted history. -/
def Dispatched (batch : List Leader)
    (output : List (RowTarget × JudgmentResult)) (outcome : Answer)
    (g : History) : Prop :=
  (∃ results, Delivered batch g results ∧ (dispatches g).length = 1 ∧
      Accepted batch output g results outcome) ∨
    (∃ error, outcome = .error error ∧
      (∀ d ∈ dispatches g, ∀ response, d.response = .ok response →
        ¬ ∃ results, AnswersAll (requestsForGroups batch) response results) ∧
      (completions g).reverse =
        batch.map (fun leader => (leader.entry, .error error)) ∧
      ∀ event ∈ g, ExecEvent.Caches event = false)

theorem dispatch_delivers (batch : List Leader)
    (output : List (RowTarget × JudgmentResult)) :
    Follows delivering
      (dispatch provider limits cachePolicy batch output).run
      (Dispatched batch output) [] := by
  have hfinish : ∀ response (g : History), Secures delivering
      (finishBatch batch (requestsForGroups batch) response)
      (fun a g' => g' = g ∧ ∃ results,
        AnswersAll (requestsForGroups batch) response results ∧
          a.1 = batch.zip results)
      (fun _ g' => g' = g ∧ ¬ ∃ results,
        AnswersAll (requestsForGroups batch) response results) g := by
    intro response g
    by_cases hcomplete : ∃ results,
        AnswersAll (requestsForGroups batch) response results
    · obtain ⟨results, hresults⟩ := hcomplete
      rw [finishBatch_of_answersAll hresults]
      exact ⟨rfl, results, hresults, rfl⟩
    · obtain ⟨error, herror⟩ := finishBatch_of_not hcomplete
      rw [herror]
      exact ⟨rfl, hcomplete⟩
  have hdispatch : Secures delivering
      (dispatch provider limits cachePolicy batch output)
      (fun output' => Dispatched batch output (.ok output'))
      (fun error => Dispatched batch output (.error error)) [] := by
    unfold dispatch
    dsimp only
    rw [secures_bind, secures_lift]
    refine Follows.mono (attemptRecorded_asks delivering_ignores trivial
      hfinish) ?_
    rintro (error | ⟨results, model⟩) g hasked
    · have hquiet : (∀ event ∈ g, ExecEvent.Caches event = false) ∧
          completions g = [] ∧
          ∀ d ∈ dispatches g, ∀ response, d.response = .ok response →
            ¬ ∃ results,
              AnswersAll (requestsForGroups batch) response results := by
        rcases hasked with rfl | rfl | ⟨response, hincomplete, rfl⟩
        · exact ⟨by simp, rfl, by simp [dispatches]⟩
        · refine ⟨?_, rfl, ?_⟩
          · intro event hevent
            obtain rfl := List.mem_singleton.mp hevent
            rfl
          · intro d hd response hresponse
            obtain rfl := List.mem_singleton.mp hd
            cases hresponse
        · refine ⟨?_, rfl, ?_⟩
          · intro event hevent
            obtain rfl := List.mem_singleton.mp hevent
            rfl
          · intro d hd other hother
            obtain rfl := List.mem_singleton.mp hd
            obtain rfl := Except.ok.inj hother
            exact hincomplete
      obtain ⟨hcaches, hcompletions, hincomplete⟩ := hquiet
      dsimp only
      rw [secures_bind]
      refine (failEntries_delivers error batch hcaches).mono ?_
        (fun _ _ h => h.elim)
      rintro _ g' ⟨hcompleted, hsent, hcaches'⟩
      refine Or.inr ⟨error, rfl, ?_, ?_, hcaches'⟩
      · rw [hsent]
        exact hincomplete
      · rw [hcompleted, hcompletions]
        simp
    · obtain ⟨response, ⟨given, hgiven, hresults⟩, rfl⟩ := hasked
      dsimp only at hresults
      subst hresults
      dsimp only
      refine (publish_delivers output _ _).mono ?_ (fun _ _ h => h.elim)
      rintro output' g' ⟨houtput, hcompleted, hsent⟩
      have hone : dispatches g' = [⟨batch.map fun leader =>
          leader.group.identity, requestsForGroups batch, .ok response⟩] :=
        hsent
      refine Or.inl ⟨given, ⟨_, by rw [hone]; exact List.mem_singleton_self _,
        rfl, response, rfl, hgiven⟩, by rw [hone]; rfl, ?_, ?_⟩
      · rw [houtput]
      · have hbefore : completions (delivering.note [] (.judge .judgeMany
            (batch.map fun leader => leader.group.identity)
            (requestsForGroups batch)) (.ok response)) = [] := rfl
        rw [hcompleted, hbefore]
        simp
  refine Follows.mono hdispatch ?_
  rintro (error | output') g hpost
  · exact hpost
  · exact hpost

/-- Whatever the provider does: a batch which is answered completely gives
every group its own answer, and any other batch fails as a whole and changes
neither the output nor the cache. -/
theorem dispatch_all_or_nothing (batch : List Leader)
    (output : List (RowTarget × JudgmentResult)) {h : History}
    {outcome : Answer}
    (hafter : (dispatch provider limits cachePolicy batch output).run.After h
      (.ret outcome)) :
    (∀ results, Delivered batch h results →
        Accepted batch output h results outcome) ∧
      ((¬ ∃ results, Delivered batch h results) →
        ∃ error, Rejected batch h outcome error) := by
  obtain ⟨hnotes, hdispatched⟩ := hafter.follows (fun _ _ _ => trivial)
    notes_nil (fun _ _ op r hnotes _ => hnotes.event op r)
    (dispatch_delivers batch output)
  obtain ⟨hcompletions, hdispatches, hnoted⟩ := hnotes
  rcases hdispatched with ⟨results, hdelivered, hone, haccepted⟩ |
      ⟨error, hfailed, hincomplete, hcompleted, hcaches⟩
  · rw [Delivered, hdispatches] at hdelivered
    rw [hdispatches] at hone
    obtain ⟨hreturned, hown⟩ := haccepted
    rw [hcompletions] at hown
    refine ⟨?_, fun hnot => absurd ⟨results, hdelivered⟩ hnot⟩
    rintro results' ⟨d', hd', -, response', hresponse', hanswers'⟩
    obtain ⟨d, hd, -, response, hresponse, hanswers⟩ := hdelivered
    have hsame : d' = d := by
      obtain ⟨only, honly⟩ := List.length_eq_one_iff.mp hone
      rw [honly, List.mem_singleton] at hd hd'
      exact hd'.trans hd.symm
    rw [hsame, hresponse] at hresponse'
    obtain rfl := Except.ok.inj hresponse'
    rw [← hanswers.unique hanswers']
    exact ⟨hreturned, hown⟩
  · rw [hdispatches] at hincomplete
    rw [hcompletions] at hcompleted
    constructor
    · rintro results ⟨d, hd, -, response, hresponse, hanswers⟩
      exact absurd ⟨results, hanswers⟩ (hincomplete d hd response hresponse)
    · intro _
      refine ⟨error, hfailed, hcompleted, ?_⟩
      intro event hevent c c' hstep
      refine step_cache_of_not_caches ?_ hstep
      rcases hnoted event hevent with hattends | hmem
      · exact ExecEvent.not_caches_of_attends hattends
      · exact hcaches event hmem

end Dispatch

/-! ## A batch of two -/

/-- Two texts in one batch. -/
def textBatch : List Leader :=
  [⟨textGroup 0 "a" [0, 2], 0, none⟩, ⟨textGroup 0 "b" [1], 1, none⟩]

/-- A connection on which the entries of the two texts are claimed. -/
def claimedTexts : ConnectionRuntime :=
  textBatch.foldl (fun c leader =>
    (c.claimQueryEntry 0 leader.group.identity).2) firstQuery

theorem dispatch_all_or_nothing_two :
    ∃ (h : History) (outcome : Answer), outcome.toBool = true ∧
      (∀ results, Delivered textBatch h results →
        Accepted textBatch [] h results outcome) ∧
      ((¬ ∃ results, Delivered textBatch h results) →
        ∃ error, Rejected textBatch h outcome error) := by
  have hrun : (halfEnvironment.run (dispatch plainProvider ⟨0, 1, 1000⟩ none
      textBatch []).run claimedTexts).map (fun x => x.1.toBool) =
        some true := by
    decide
  obtain ⟨⟨outcome, s, events⟩, hrun, hok⟩ := Option.map_eq_some_iff.mp hrun
  have hreach := Workers.reach_of_run QueryStep halfEnvironment
    (p := ⟨claimedTexts, fun _ => (dispatch plainProvider ⟨0, 1, 1000⟩ none
      textBatch []).run, []⟩) (i := ()) hrun
  have hafter := hreach.after rfl ()
  dsimp only at hafter
  rw [Function.update_self] at hafter
  exact ⟨_, outcome, hok, dispatch_all_or_nothing textBatch [] hafter⟩

end DuckJeu
