import DuckJeu.Executor.Claims
import Mathlib.Data.List.Forall2

/-!
# The requests of a batch

After the claim loop the leaders are sent in batches.  A batch which succeeds
completes its leaders with their results.  A batch which fails, or a leader
which fits no batch, makes all leaders of the call fail.  Only then does the
call wait for its followers.
-/

namespace DuckJeu

open Effects

variable {call : Call}

/-! ## Requests and answers by position -/

/-- The requests of a batch are those of its groups up to their keys. -/
theorem requestsForGroups_forall₂ (leaders : List Leader) :
    List.Forall₂ (fun leader request =>
      ∃ key, request = { leader.group.request with requestKey := key })
      leaders (requestsForGroups leaders) := by
  have hkeyed : ∀ (leaders : List Leader) (key : ℕ → String),
      List.Forall₂ (fun leader request =>
        ∃ key, request = { leader.group.request with requestKey := key })
        leaders (leaders.mapIdx fun index (leader : Leader) =>
          { leader.group.request with requestKey := key index }) := by
    intro leaders
    induction leaders with
    | nil => exact fun _ => List.Forall₂.nil
    | cons leader leaders ih =>
        intro key
        rw [List.mapIdx_cons]
        exact List.Forall₂.cons ⟨_, rfl⟩ (ih fun index => key (index + 1))
  exact hkeyed leaders fun index => "r" ++ toString index

/-- The keys of a batch count its positions. -/
theorem requestsForGroups_requestKey (leaders : List Leader) :
    (requestsForGroups leaders).map JudgmentRequest.requestKey =
      (List.range leaders.length).map fun index => "r" ++ toString index := by
  refine List.ext_getElem (by simp [requestsForGroups]) fun index _ _ => ?_
  simp [requestsForGroups]

@[simp] theorem requestsForGroups_length (leaders : List Leader) :
    (requestsForGroups leaders).length = leaders.length :=
  List.length_mapIdx

/-- The keys of a batch are distinct. -/
theorem requestsForGroups_keys (leaders : List Leader) :
    ((requestsForGroups leaders).map JudgmentRequest.requestKey).Nodup := by
  rw [requestsForGroups_requestKey]
  refine List.Nodup.map ?_ List.nodup_range
  intro m n h
  exact natText_injective (by simpa [String.ext_iff] using h)

/-- After validation every request finds its answer. -/
theorem collectResults_ok {requests : List JudgmentRequest}
    {response : ProviderBatchResult}
    (hvalid : validateBatchResult requests response = .ok ())
    (pairs : List (Leader × JudgmentRequest))
    (hmem : ∀ pair ∈ pairs, pair.2 ∈ requests) :
    ∃ results, collectResults response.answers pairs = .ok results ∧
      results.map Prod.fst = pairs.map Prod.fst ∧
      ∀ result ∈ results, ∃ request, (result.1, request) ∈ pairs ∧
        ⟨request.requestKey, result.2⟩ ∈ response.answers := by
  induction pairs with
  | nil => exact ⟨[], rfl, rfl, by simp⟩
  | cons pair rest ih =>
      obtain ⟨leader, request⟩ := pair
      obtain ⟨results, hresults, hleaders, hanswered⟩ :=
        ih fun pair hpair => hmem pair (List.mem_cons_of_mem _ hpair)
      obtain ⟨hkeys, -, -, hcomplete, hanswers⟩ := validateBatchResult_ok hvalid
      have hrequest : request ∈ requests := hmem _ (List.mem_cons_self ..)
      have hfound : (response.answers.reverse.find? fun answer =>
          answer.requestKey == request.requestKey).isSome := by
        obtain ⟨answer, hanswer, hkey⟩ := hcomplete request hrequest
        simp only [List.find?_isSome, List.mem_reverse]
        exact ⟨answer, hanswer, by simp [hkey]⟩
      obtain ⟨answer, hfind⟩ := Option.isSome_iff_exists.mp hfound
      have hanswer : answer ∈ response.answers :=
        List.mem_reverse.mp (List.mem_of_find?_eq_some hfind)
      have hkey : answer.requestKey = request.requestKey := by
        simpa using List.find?_some hfind
      -- the answer was validated for the request with its key, and the keys
      -- of the requests are distinct
      obtain ⟨request', hmem', hkey', hvalidFor⟩ := hanswers answer hanswer
      obtain rfl : request' = request :=
        List.inj_on_of_nodup_map hkeys hmem' hrequest (hkey'.trans hkey)
      unfold ValidFor at hvalidFor
      refine ⟨(leader, answer.result) :: results, ?_, by simp [hleaders], ?_⟩
      · simp only [collectResults, hfind, hvalidFor, hresults]
      · intro result hresult
        rcases List.mem_cons.mp hresult with rfl | hresult
        · exact ⟨request', List.mem_cons_self .., hkey ▸ hanswer⟩
        · obtain ⟨other, hother, hmem⟩ := hanswered result hresult
          exact ⟨other, List.mem_cons_of_mem _ hother, hmem⟩

/-- The response to a batch gives every leader an answer. -/
theorem finishBatch_secures {h : History} {batch : List Leader}
    {carried : List JudgmentIdentity} {response : ProviderBatchResult} :
    Secures call.protocol (finishBatch batch (requestsForGroups batch) response)
      (fun a h' => permits h' = permits h ∧ Grown h h' [] [] [] ∧
        a.1.map Prod.fst = batch ∧ ∀ result ∈ a.1, Dispatch.Answers
          ⟨carried, requestsForGroups batch, .ok response⟩
          result.1.group.request result.2 a.2)
      (fun _ h' => permits h' = permits h ∧ Grown h h' [] [] [] ∧
        validateBatchResult (requestsForGroups batch) response ≠ .ok ()) h := by
  unfold finishBatch
  split
  · rename_i error hinvalid
    exact ⟨rfl, Grown.refl h, by simp [hinvalid]⟩
  rename_i hvalid
  have hrequests := requestsForGroups_forall₂ batch
  obtain ⟨results, hresults, hleaders, hanswered⟩ := collectResults_ok hvalid
    (batch.zip (requestsForGroups batch))
    fun pair hpair => (List.of_mem_zip hpair).2
  rw [hresults]
  refine ⟨rfl, Grown.refl h, ?_, ?_⟩
  · rw [hleaders, List.map_fst_zip hrequests.length_eq.le]
  · intro result hresult
    obtain ⟨request, hpair, hanswer⟩ := hanswered result hresult
    obtain ⟨key, rfl⟩ := List.forall₂_zip hrequests hpair
    exact ⟨response, key, rfl, hvalid, (List.of_mem_zip hpair).2, hanswer, rfl⟩

/-! ## Results and failures -/

/-- Publishing completes the leaders with their results. -/
theorem publish_secures {h : History}
    {done : List (JudgmentGroup × JudgmentResult)}
    {results : List (Leader × JudgmentResult)} {later : List Leader}
    {followers : List Follower} {model : Option String} {d : Dispatch}
    (hd : lastDispatch h = some d)
    (hanswers : ∀ result ∈ results,
      d.Answers result.1.group.request result.2 model)
    (hpending : call.Pending h done (results.map Prod.fst ++ later) followers)
    (hunsent : Unsent h later) :
    Secures call.protocol
      (publish call.provider call.cachePolicy model
        (done.flatMap fun a => a.1.expand a.2) results)
      (fun output h' => ∃ done',
        output = done'.flatMap (fun a => a.1.expand a.2) ∧
          done'.map Prod.fst =
            done.map Prod.fst ++ results.map (fun r => r.1.group) ∧
          call.Pending h' done' later followers ∧ Unsent h' later ∧ h <:+ h')
      (fun _ _ => False) h := by
  induction results generalizing h done with
  | nil =>
      exact ⟨done, rfl, by simp, hpending, hunsent, List.suffix_refl _⟩
  | cons result rest ih =>
      obtain ⟨leader, result⟩ := result
      have hleads := hpending.leads leader (by simp)
      rw [publish, secures_bind, hleads.key]
      refine (cacheValidated_secures hleads.mem hd
        (hanswers _ (List.mem_cons_self ..))).mono ?_
        (fun _ _ hfalse => hfalse)
      rintro _ h₁ ⟨hsame, hgrown₁⟩
      have hzero := hsame.trans hpending.permits_zero
      simp only [secures_bind, secures_lift, follows_perform,
        Protocol.ofHistory_allowed, Protocol.ofHistory_note]
      have hd₁ := hgrown₁.lastDispatch_eq.trans hd
      refine ⟨⟨leader.group.identity,
        claims_subset hgrown₁.suffix hleads.claim, ?_⟩, fun r _ => ?_⟩
      · rintro _ ⟨⟩
        exact ⟨leader.group, hleads.mem, rfl, Or.inr ⟨d, lastDispatch_mem hd₁,
          model, hanswers _ (List.mem_cons_self ..)⟩⟩
      · have hgrown₂ := (Grown.refl h₁).event
          ⟨.complete leader.entry (.ok result), r⟩
        have hpending₂ := (hpending.grown hgrown₁ (by simp) hzero).complete
          result hgrown₂ hzero
        have hrest := ih (hgrown₂.lastDispatch_eq.trans hd₁)
          (fun r hr => hanswers r (List.mem_cons_of_mem _ hr)) hpending₂
          ((hunsent.grown hgrown₁).grown hgrown₂)
        rw [List.flatMap_append, List.flatMap_singleton] at hrest
        refine hrest.mono ?_ (fun _ _ hfalse => hfalse)
        rintro output h' ⟨done', houtput, hdone, hpending', hunsent', hsuffix⟩
        exact ⟨done', houtput, by simp [hdone], hpending', hunsent',
          (hgrown₁.trans hgrown₂).suffix.trans hsuffix⟩

/-- Failing entries completes them. -/
theorem failEntries_secures {h : History} {error : JudgmentError}
    {leaders : List Leader} (hleads : ∀ leader ∈ leaders, call.Leads h leader) :
    Secures call.protocol (failEntries error leaders)
      (fun _ h' => permits h' = permits h ∧ ∃ completed,
        Grown h h' [] completed [] ∧ ∀ leader ∈ leaders,
          ∃ outcome, (leader.entry, outcome) ∈ completed)
      (fun _ _ => False) h := by
  induction leaders generalizing h with
  | nil => exact ⟨rfl, [], Grown.refl h, by simp⟩
  | cons leader leaders ih =>
      simp only [failEntries, secures_bind, secures_lift, follows_perform,
        Protocol.ofHistory_allowed, Protocol.ofHistory_note]
      refine ⟨⟨leader.group.identity,
        (hleads leader (List.mem_cons_self ..)).claim, by simp⟩, fun r _ => ?_⟩
      have hgrown₁ := (Grown.refl h).event
        ⟨.complete leader.entry (.error error), r⟩
      refine (ih fun l hl =>
        (hleads l (List.mem_cons_of_mem _ hl)).mono hgrown₁.suffix).mono ?_
        (fun _ _ hfalse => hfalse)
      rintro _ h' ⟨hsame, completed, hgrown, hall⟩
      refine ⟨hsame, _, hgrown₁.trans hgrown, ?_⟩
      intro l hl
      rcases List.mem_cons.mp hl with rfl | hl
      · exact ⟨.error error, by simp [ExecEvent.completion?]⟩
      · obtain ⟨outcome, hmem⟩ := hall l hl
        exact ⟨outcome, List.mem_append_left _ hmem⟩

/-- When all leaders have failed, nothing owned stays open. -/
theorem failLeaders_secures {α : Type} {order : LeaderOrder}
    {leaders : List Leader} {error : JudgmentError} {h : History}
    (hpermits : permits h = 0)
    (hleads : ∀ leader ∈ leaders, call.Leads h leader)
    (hcovered : ∀ claim ∈ ownedClaims h,
      Completed h claim.entry ∨ claim.entry ∈ leaders.map Leader.entry)
    (hcause : ∀ h', h <:+ h' → call.Cause h') :
    Secures call.protocol (failLeaders order leaders error : Exec α)
      (fun _ _ => False) (fun error h' => call.Post (.error error) h') h := by
  unfold failLeaders
  rw [secures_bind]
  refine (failEntries_secures fun leader hl =>
    hleads leader ((order.perm leaders).mem_iff.mp hl)).mono ?_
    (fun _ _ hfalse => hfalse.elim)
  rintro _ h' ⟨hsame, completed, hgrown, hall⟩
  refine ⟨hsame.trans hpermits, Or.inl ?_, hcause h' hgrown.suffix⟩
  intro claim hclaim
  rw [hgrown.completed_iff]
  have hold : claim ∈ ownedClaims h := by
    simpa [hgrown.ownedClaims_eq] using hclaim
  rcases hcovered claim hold with hcompleted | hopen
  · exact Or.inr hcompleted
  · obtain ⟨leader, hl, hentry⟩ := List.mem_map.mp hopen
    exact Or.inl (hentry ▸ hall leader ((order.perm leaders).mem_iff.mpr hl))

/-! ## Batches -/

/-- What holds between two batches: the leaders of the call, those of them
which are still open, and the output so far. -/
structure Call.Dispatching (call : Call) (h : History) (leaders : List Leader)
    (done : List (JudgmentGroup × JudgmentResult)) (pending : List Leader)
    (followers : List Follower) (output : List (RowTarget × JudgmentResult)) :
    Prop where
  open_leaders : call.Pending h done pending followers
  unsent : Unsent h pending
  output_eq : output = done.flatMap fun a => a.1.expand a.2
  leads : ∀ leader ∈ leaders, call.Leads h leader
  subset : pending ⊆ leaders

section Dispatch

variable {h : History} {order : LeaderOrder} {leaders later : List Leader}
  {done : List (JudgmentGroup × JudgmentResult)} {followers : List Follower}
  {output : List (RowTarget × JudgmentResult)}

/-- All leaders fail between two batches. -/
theorem Call.Dispatching.failLeaders {α : Type} {pending : List Leader}
    (hdispatching :
      call.Dispatching h leaders done pending followers output)
    {error : JudgmentError} (hcause : ∀ h', h <:+ h' → call.Cause h') :
    Secures call.protocol (failLeaders order leaders error : Exec α)
      (fun _ _ => False) (fun error h' => call.Post (.error error) h') h := by
  refine failLeaders_secures hdispatching.open_leaders.permits_zero
    hdispatching.leads ?_ hcause
  intro claim hclaim
  exact (hdispatching.open_leaders.covered claim hclaim).imp_right fun hopen =>
    List.map_subset _ hdispatching.subset hopen

/-- One batch: its leaders are completed, or the request was in trouble. -/
theorem dispatch_secures (hmethod : call.method = .judgeMany)
    (hadmissible : call.Admissible) {batch : List Leader}
    (hdispatching :
      call.Dispatching h leaders done (batch ++ later) followers output) :
    Secures call.protocol
      (dispatch call.provider call.limits call.cachePolicy batch output)
      (fun output' h' => ∃ done',
        call.Dispatching h' leaders done' later followers output' ∧
          done'.map Prod.fst = done.map Prod.fst ++ batch.map Leader.group)
      (fun _ h' => permits h' = 0 ∧ Troubled h' ∧
        ∃ completed ds, Grown h h' [] completed ds) h := by
  obtain ⟨hpending, hunsent, rfl, hleads, hsubset⟩ := hdispatching
  unfold dispatch
  dsimp only
  rw [secures_bind, secures_lift, ← hmethod]
  have hcarries : call.Carries
      (batch.map fun leader => leader.group.identity)
      (requestsForGroups batch) := by
    refine List.forall₂_map_left_iff.mpr (List.forall₂_iff_zip.mpr
      ⟨(requestsForGroups_forall₂ batch).length_eq, ?_⟩)
    intro leader request hpair
    have hmem := (List.of_mem_zip hpair).1
    exact ⟨leader.group,
      (hpending.leads leader (List.mem_append_left _ hmem)).mem, rfl,
      List.forall₂_zip (requestsForGroups_forall₂ batch) hpair⟩
  have hcarry : (carriedIn h ++
      batch.map fun leader => leader.group.identity).Subperm
        (ownedIdentities h) := by
    refine (List.Sublist.append_left ?_ _).subperm.trans hunsent
    exact (List.sublist_append_left batch later).map _
  refine (attemptRecorded_follows hpending.permits_zero hadmissible hcarries
    (requestsForGroups_keys batch) hcarry
    (Q := fun response a => a.1.map Prod.fst = batch ∧
      ∀ result ∈ a.1, Dispatch.Answers
        ⟨batch.map fun leader => leader.group.identity,
          requestsForGroups batch, .ok response⟩
        result.1.group.request result.2 a.2)
    fun response h₁ _ => finishBatch_secures).mono ?_
  rintro (error | ⟨results, model⟩) h₁ ⟨hzero, hattempt⟩
  · obtain ⟨⟨ds, hgrown₁⟩, event, hmem, htroubles⟩ := hattempt
    rw [secures_bind]
    refine (failEntries_secures fun leader hl => (hpending.leads leader
      (List.mem_append_left _ hl)).mono hgrown₁.suffix).mono ?_
      (fun _ _ hfalse => hfalse.elim)
    rintro _ h₂ ⟨hsame, completed, hgrown₂, -⟩
    exact ⟨hsame.trans hzero, ⟨event, hgrown₂.suffix.subset hmem, htroubles⟩,
      _, _, hgrown₁.trans hgrown₂⟩
  · obtain ⟨response, hgrown₁, hfst, hanswers⟩ := hattempt
    have hunsent₁ : Unsent h₁ later := by
      unfold Unsent at hunsent ⊢
      rw [hgrown₁.carriedIn_eq, ownedIdentities, hgrown₁.ownedClaims_eq]
      refine List.Perm.subperm ?_ |>.trans hunsent
      simpa using List.perm_append_comm_assoc _ _ _
    have hpending₁ := hpending.grown hgrown₁ (by simp) hzero
    dsimp only at hfst
    rw [← hfst] at hpending₁
    refine (publish_secures (by simp [lastDispatch, hgrown₁.dispatches_eq])
      hanswers
      hpending₁ hunsent₁).mono ?_ (fun _ _ hfalse => hfalse.elim)
    rintro output' h₂ ⟨done', houtput, hdone, hpending₂, hunsent₂, hsuffix⟩
    refine ⟨done', ⟨hpending₂, hunsent₂, houtput, fun leader hl =>
      (hleads leader hl).mono (hgrown₁.suffix.trans hsuffix),
      fun leader hl => hsubset (List.mem_append_right _ hl)⟩, ?_⟩
    rw [hdone, ← hfst, List.map_map]
    rfl

/-- A batch which fails makes all leaders fail. -/
theorem dispatchOrFail_secures (hmethod : call.method = .judgeMany)
    (hadmissible : call.Admissible) {batch : List Leader}
    (hdispatching :
      call.Dispatching h leaders done (batch ++ later) followers output) :
    Secures call.protocol
      (dispatchOrFail call.provider call.limits call.cachePolicy order leaders
        batch output)
      (fun output' h' => ∃ done',
        call.Dispatching h' leaders done' later followers output' ∧
          done'.map Prod.fst = done.map Prod.fst ++ batch.map Leader.group)
      (fun error h' => call.Post (.error error) h') h := by
  unfold dispatchOrFail
  rw [secures_bind, secures_lift]
  refine Follows.mono (dispatch_secures hmethod hadmissible hdispatching) ?_
  rintro (error | output') h₁ hpost
  · obtain ⟨hzero, ⟨event, hmem, htroubles⟩, completed, ds, hgrown⟩ := hpost
    refine (failLeaders_secures hzero
      (fun leader hl => (hdispatching.leads leader hl).mono hgrown.suffix)
      ?_ ?_).mono (fun _ _ hfalse => hfalse.elim) (fun _ _ hpost => hpost)
    · intro claim hclaim
      have hold : claim ∈ ownedClaims h := by
        simpa [hgrown.ownedClaims_eq] using hclaim
      exact (hdispatching.open_leaders.covered claim hold).imp
        (fun hcompleted => hcompleted.mono hgrown.suffix)
        (fun hopen => List.map_subset _ hdispatching.subset hopen)
    · intro h₂ hsuffix
      exact Or.inr (Or.inr (Or.inr (Or.inr
        ⟨event, hsuffix.subset hmem, htroubles⟩)))
  · exact hpost

/-- A leader beyond the limits when it is alone is beyond the byte limit. -/
theorem tooLarge_of_exceedsLimits {maxJudgments limit : ℕ}
    (hmode : call.mode = .batched maxJudgments order) (hlimit : limit ≠ 0)
    {leader : Leader}
    (hexceeds : exceedsLimits call.provider call.limits limit
      (requestsForGroups [leader]) = true) : call.TooLarge leader.group := by
  simp only [exceedsLimits, requestsForGroups, List.mapIdx_cons,
    List.mapIdx_nil, List.length_singleton, Bool.or_eq_true,
    decide_eq_true_eq] at hexceeds
  rcases hexceeds with hcount | hbytes
  · omega
  · simpa [Call.TooLarge, Call.aloneRequest, hmode] using hbytes

/-- The batches of one partition. -/
theorem executePartition_secures {maxJudgments limit : ℕ}
    (hmode : call.mode = .batched maxJudgments order) (hlimit : limit ≠ 0)
    (hadmissible : call.Admissible) (current : List Leader)
    {rest : List Leader} (hdispatching : call.Dispatching h leaders done
      (current ++ (rest ++ later)) followers output) :
    Secures call.protocol
      (executePartition call.provider call.limits call.cachePolicy order
        leaders limit current output rest)
      (fun output' h' => ∃ done',
        call.Dispatching h' leaders done' later followers output' ∧
          done'.map Prod.fst =
            done.map Prod.fst ++ (current ++ rest).map Leader.group)
      (fun error h' => call.Post (.error error) h') h := by
  have hmethod : call.method = .judgeMany := by simp [Call.method, hmode]
  have hfails : ∀ {h : History} {done : List (JudgmentGroup × JudgmentResult)}
      {pending : List Leader} {output : List (RowTarget × JudgmentResult)}
      {leader : Leader} {error : JudgmentError},
      call.Dispatching h leaders done (leader :: pending) followers output →
      exceedsLimits call.provider call.limits limit
        (requestsForGroups [leader]) = true →
      Secures call.protocol
        (failLeaders order leaders error :
          Exec (List (RowTarget × JudgmentResult)))
        (fun _ _ => False) (fun error h' => call.Post (.error error) h') h := by
    intro h done pending output leader error hdispatching hexceeds
    refine hdispatching.failLeaders fun h' _ => ?_
    have hleads :=
      hdispatching.open_leaders.leads leader (List.mem_cons_self ..)
    exact Or.inr (Or.inr (Or.inr (Or.inl ⟨leader.group, hleads.mem,
      tooLarge_of_exceedsLimits hmode hlimit hexceeds⟩)))
  induction rest generalizing current output done h with
  | nil =>
      rw [executePartition]
      split
      · rename_i hempty
        obtain rfl := List.isEmpty_iff.mp hempty
        exact ⟨done, hdispatching, by simp⟩
      · simpa using dispatchOrFail_secures hmethod hadmissible hdispatching
  | cons leader rest ih =>
      rw [executePartition]
      split
      · rename_i hexceeds
        split
        · rename_i hempty
          obtain rfl := List.isEmpty_iff.mp hempty
          exact (hfails hdispatching hexceeds).mono
            (fun _ _ hfalse => hfalse.elim) (fun _ _ hpost => hpost)
        · rw [secures_bind]
          refine (dispatchOrFail_secures hmethod hadmissible
            hdispatching).mono ?_ (fun _ _ hpost => hpost)
          rintro output₁ h₁ ⟨done₁, hdispatching₁, hdone₁⟩
          split
          · rename_i halone
            exact (hfails hdispatching₁ halone).mono
              (fun _ _ hfalse => hfalse.elim) (fun _ _ hpost => hpost)
          · refine (ih [leader] hdispatching₁).mono ?_
              (fun _ _ hpost => hpost)
            rintro output₂ h₂ ⟨done₂, hdispatching₂, hdone₂⟩
            exact ⟨done₂, hdispatching₂, by simp [hdone₂, hdone₁]⟩
      · refine (ih (current ++ [leader])
          (by simpa using hdispatching)).mono ?_ (fun _ _ hpost => hpost)
        rintro output₁ h₁ ⟨done₁, hdispatching₁, hdone₁⟩
        exact ⟨done₁, hdispatching₁, by simp [hdone₁]⟩

/-- The batches of all partitions. -/
theorem executePartitions_secures {maxJudgments limit : ℕ}
    (hmode : call.mode = .batched maxJudgments order) (hlimit : limit ≠ 0)
    (hadmissible : call.Admissible) {partitions : List (List Leader)}
    (hdispatching : call.Dispatching h leaders done partitions.flatten
      followers output) :
    Secures call.protocol
      (executePartitions call.provider call.limits call.cachePolicy order
        leaders limit output partitions)
      (fun output' h' => ∃ done',
        call.Dispatching h' leaders done' [] followers output' ∧
          done'.map Prod.fst =
            done.map Prod.fst ++ partitions.flatten.map Leader.group)
      (fun error h' => call.Post (.error error) h') h := by
  induction partitions generalizing output done h with
  | nil => exact ⟨done, hdispatching, by simp⟩
  | cons partition rest ih =>
      rw [executePartitions, secures_bind]
      refine (executePartition_secures hmode hlimit hadmissible []
        hdispatching).mono ?_ (fun _ _ hpost => hpost)
      rintro output₁ h₁ ⟨done₁, hdispatching₁, hdone₁⟩
      refine (ih hdispatching₁).mono ?_ (fun _ _ hpost => hpost)
      rintro output₂ h₂ ⟨done₂, hdispatching₂, hdone₂⟩
      exact ⟨done₂, hdispatching₂, by simp [hdone₂, hdone₁]⟩

end Dispatch

/-! ## Followers -/

/-- Waiting for all followers. -/
theorem awaitFollowers_secures {h : History}
    (done : List (JudgmentGroup × JudgmentResult))
    {followers : List Follower} (hready : Ready h)
    (hanswered : ∀ a ∈ done, Answered h a.1.identity a.2)
    (hshared : ∀ follower ∈ followers,
      ⟨follower.group.identity, follower.entry, false⟩ ∈ claims h) :
    Secures call.protocol
      (awaitFollowers (done.flatMap fun a => a.1.expand a.2) followers)
      (fun output h' => Ready h' ∧
        ∃ done' : List (JudgmentGroup × JudgmentResult),
        output = done'.flatMap (fun a => a.1.expand a.2) ∧
          done'.map Prod.fst =
            done.map Prod.fst ++ followers.map Follower.group ∧
          ∀ a ∈ done', Answered h' a.1.identity a.2)
      (fun error h' => call.Post (.error error) h') h := by
  induction followers generalizing h done with
  | nil => exact ⟨hready, done, rfl, by simp, hanswered⟩
  | cons follower rest ih =>
      rw [awaitFollowers, secures_bind]
      refine (waitEntry_secures hready
        (hshared follower (List.mem_cons_self ..))).mono ?_ ?_
      · rintro result h₁ ⟨hready₁, hsuffix, hresult⟩
        have hrest := ih (done ++ [(follower.group, result)]) hready₁
          ?_ fun f hf => claims_subset hsuffix
            (hshared f (List.mem_cons_of_mem _ hf))
        · rw [List.flatMap_append, List.flatMap_singleton] at hrest
          refine hrest.mono ?_ (fun _ _ hpost => hpost)
          rintro output h₂ ⟨hready₂, done', houtput, hdone, hanswered'⟩
          exact ⟨hready₂, done', houtput, by simp [hdone], hanswered'⟩
        · intro a ha
          rcases List.mem_append.mp ha with ha | ha
          · exact (hanswered a ha).mono hsuffix
          · obtain rfl := List.mem_singleton.mp ha
            exact hresult
      · rintro error h₁ ⟨hready₁, htroubled⟩
        exact ⟨hready₁.permits_zero, Or.inl hready₁.completed,
          Or.inr (Or.inr (Or.inr (Or.inr htroubled)))⟩

/-! ## The whole call -/

/-- A call which executes its groups in batches follows its protocol. -/
theorem batched_follows {maxJudgments : ℕ} {order : LeaderOrder}
    (hmode : call.mode = .batched maxJudgments order) :
    Follows call.protocol call.program call.Post [] := by
  have hrejected : ∀ {error : JudgmentError}, call.Rejected →
      call.Post (.error error) [] :=
    fun hrejected => ⟨rfl, Or.inl ready_nil.completed, Or.inl hrejected⟩
  unfold Call.program Call.exec
  rw [hmode]
  unfold executeBatchGroups
  dsimp only
  split
  · rename_i hunverified
    refine hrejected ?_
    simp [Call.Rejected, hmode, hunverified]
  split
  · rename_i hzero
    refine hrejected ?_
    simp only [Call.Rejected, hmode]
    exact Or.inr (hzero.imp_right Or.inl)
  split
  · rename_i hlimit
    refine hrejected ?_
    simp only [Call.Rejected, hmode]
    exact Or.inr (Or.inr (Or.inr hlimit))
  rename_i hverified hpositive hlimit
  have hnot : ¬ call.Rejected := by
    simp only [Call.Rejected, hmode]
    tauto
  suffices hbatched : Secures call.protocol
      (do
        let claimed ← claimGroups call.provider call.limits call.cachePolicy {}
          call.groups
        let output ← executePartitions call.provider call.limits
          call.cachePolicy order claimed.leaders
          (batchLimit call.provider maxJudgments) claimed.output
          claimed.partitions
        awaitFollowers output claimed.followers)
      (fun output h' => call.Post (.ok output) h')
      (fun error h' => call.Post (.error error) h') [] by
    refine Follows.mono hbatched ?_
    rintro (error | output) h' hpost
    · exact hpost
    · exact hpost
  rw [secures_bind]
  refine (claimGroups_secures claiming_nil ⟨_, _, hmode⟩ hnot
    (List.nil_append _).symm).mono ?_ (fun _ _ hpost => hpost)
  rintro claimed h₁ ⟨done₁, hclaiming⟩
  have hadmissible : call.Admissible := ⟨hnot, fun _ _ _ => hclaiming.gates⟩
  rw [secures_bind]
  refine (executePartitions_secures hmode hlimit hadmissible
    ⟨hclaiming.pending.perm hclaiming.partitions.symm,
      hclaiming.unsent.perm hclaiming.partitions.symm, hclaiming.output,
      hclaiming.pending.leads, hclaiming.partitions.subset⟩).mono ?_
    (fun _ _ hpost => hpost)
  rintro output h₂ ⟨done₂, hdispatching, hdone₂⟩
  rw [hdispatching.output_eq]
  refine (awaitFollowers_secures _
    (hdispatching.open_leaders.ready hdispatching.unsent)
    hdispatching.open_leaders.answered hdispatching.open_leaders.shared).mono ?_
    (fun _ _ hpost => hpost)
  rintro output₃ h₃ ⟨hready, done₃, houtput, hdone₃, hanswered⟩
  refine ⟨hready.permits_zero, hready.completed,
    ⟨done₃, houtput, ?_, hanswered⟩, hadmissible⟩
  rw [hdone₃, hdone₂, List.append_assoc]
  refine List.Perm.trans ?_ hclaiming.grouped
  exact List.Perm.append_left _ (List.Perm.append_right _
    (hclaiming.partitions.map _))

end DuckJeu
