import DuckJeu.Core.Judgment
import Mathlib.Data.List.Nodup

/-!
# The provider protocol

This module follows `provider.rs`: capability declarations, the answers of a
provider, and the check which associates a response with its requests.

The trait has two sorts of methods.  What an adapter declares about itself is
part of `Provider`.  What it answers is not: `judge_with_metadata` and
`judge_many` are operations of the executor, and may answer anything.
-/

namespace DuckJeu

inductive CapabilityStatus where
  | verified
  | unsupported
  | unknown
  deriving DecidableEq

structure ProviderCapabilities where
  protocolVersion : String
  noul : CapabilityStatus
  choice : CapabilityStatus
  multiStateBatch : CapabilityStatus
  maxBatchJudgments : Option ℕ
  maxChoices : Option ℕ

def ProviderCapabilities.supports (capabilities : ProviderCapabilities) :
    QuestionKind → CapabilityStatus
  | .noul => capabilities.noul
  | .choice => capabilities.choice

structure ProviderUsage where
  inputTokens : Option ℕ := none
  outputTokens : Option ℕ := none
  deriving DecidableEq

structure ProviderMetadata where
  requestedModel : Option String := none
  effectiveModel : Option String := none
  usage : Option ProviderUsage := none
  inferenceTimeMs : Option ℕ := none
  serializationTimeNs : Option ℕ := none
  externalRoundtripNs : Option ℕ := none
  deriving DecidableEq

structure ProviderAnswer where
  requestKey : String
  result : JudgmentResult
  deriving DecidableEq

structure ProviderBatchResult where
  answers : List ProviderAnswer
  metadata : ProviderMetadata
  deriving DecidableEq

/-- What an adapter declares about itself. -/
structure Provider where
  capabilities : ProviderCapabilities
  makesExternalRequest : Bool
  cacheModelIdentity : String → Option String
  estimateRequestBytes : List JudgmentRequest → ℕ

/-! ## Capability limits -/

/-- The declared choice limit admits this many choices. -/
def Provider.withinChoiceLimit (provider : Provider) (choices : ℕ) : Bool :=
  provider.capabilities.maxChoices.all fun limit => choices ≤ limit

/-- The capability gate: the question kind is verified and the choices are
within the declared limit. -/
def Provider.gate (provider : Provider) (request : JudgmentRequest) : Bool :=
  decide (provider.capabilities.supports request.kind = .verified) &&
    provider.withinChoiceLimit request.choices.length

/-! ## Validation of a response -/

/-- The check of one answer in the loop of `validate_batch_result`; `seen`
holds the keys of the answers before it. -/
def validateAnswer (requests : List JudgmentRequest) (seen : List String)
    (answer : ProviderAnswer) : Except JudgmentError Unit :=
  if seen.contains answer.requestKey then
    .error (.invalidResponse "provider batch contains duplicate answer keys")
  else
    match requests.find? fun request =>
        request.requestKey == answer.requestKey with
    | none =>
        .error (.invalidResponse
          "provider batch contains an unknown answer key")
    | some request =>
        match request.kind, answer.result with
        | .noul, .noul probability =>
            match validateProbability probability with
            | .error e => .error e
            | .ok _ => .ok ()
        | .choice, .choice label =>
            match validateLabel label request.choices with
            | .error e => .error e
            | .ok _ => .ok ()
        | _, _ =>
            .error (.invalidResponse
              "provider batch answer type does not match the request")

/-- The loop over the answers; it returns the keys seen. -/
def validateAnswers (requests : List JudgmentRequest) (seen : List String) :
    List ProviderAnswer → Except JudgmentError (List String)
  | [] => .ok seen
  | answer :: rest =>
      match validateAnswer requests seen answer with
      | .error e => .error e
      | .ok () => validateAnswers requests (answer.requestKey :: seen) rest

/-- Exact validation of a response against its requests. -/
def validateBatchResult (requests : List JudgmentRequest)
    (response : ProviderBatchResult) : Except JudgmentError Unit :=
  let expected := requests.map JudgmentRequest.requestKey
  if ¬ expected.Nodup then
    .error (.invalidResponse "provider batch contains duplicate request keys")
  else if response.answers.length ≠ requests.length then
    .error (.invalidResponse
      "provider batch answer count does not match the request count")
  else
    match validateAnswers requests [] response.answers with
    | .error e => .error e
    | .ok seen =>
        if seen.all expected.contains && expected.all seen.contains then
          .ok ()
        else
          .error (.invalidResponse
            "provider batch answer keys do not match the request keys")

/-- An accepted answer is valid for the request with its key. -/
theorem validateAnswer_ok {requests : List JudgmentRequest}
    {seen : List String} {answer : ProviderAnswer}
    (h : validateAnswer requests seen answer = .ok ()) :
    answer.requestKey ∉ seen ∧ ∃ request ∈ requests,
      request.requestKey = answer.requestKey ∧
        ValidFor request answer.result := by
  unfold validateAnswer at h
  split at h
  · cases h
  rename_i hseen
  split at h
  · cases h
  rename_i request hfind
  refine ⟨by simpa using hseen, request, List.mem_of_find?_eq_some hfind,
    by simpa using List.find?_some hfind, ?_⟩
  unfold ValidFor validateJudgmentResult
  cases hkind : request.kind with
  | noul =>
      cases hresult : answer.result with
      | noul probability =>
          rw [hkind, hresult] at h
          exact h
      | choice label =>
          rw [hkind, hresult] at h
          cases h
  | choice =>
      cases hresult : answer.result with
      | noul probability =>
          rw [hkind, hresult] at h
          cases h
      | choice label =>
          rw [hkind, hresult] at h
          exact h

/-- Accepted answers are valid, and their keys are those seen. -/
theorem validateAnswers_ok {requests : List JudgmentRequest}
    {answers : List ProviderAnswer} {seen seen' : List String}
    (h : validateAnswers requests seen answers = .ok seen') :
    seen' = (answers.map ProviderAnswer.requestKey).reverse ++ seen ∧
      (answers.map ProviderAnswer.requestKey).Nodup ∧
      ∀ answer ∈ answers, answer.requestKey ∉ seen ∧
        ∃ request ∈ requests, request.requestKey = answer.requestKey ∧
          ValidFor request answer.result := by
  induction answers generalizing seen with
  | nil =>
      obtain rfl := Except.ok.inj h
      simp
  | cons answer rest ih =>
      rw [validateAnswers] at h
      split at h
      · cases h
      rename_i hanswer
      obtain ⟨hfresh, hvalid⟩ := validateAnswer_ok hanswer
      obtain ⟨hseen, hnodup, hrest⟩ := ih h
      refine ⟨by simp [hseen], ?_, ?_⟩
      · refine List.nodup_cons.mpr ⟨?_, hnodup⟩
        intro hmem
        obtain ⟨later, hlater, hkey⟩ := List.mem_map.mp hmem
        exact (hrest later hlater).1 (by simp [hkey])
      · intro later hlater
        rcases List.mem_cons.mp hlater with rfl | hlater
        · exact ⟨hfresh, hvalid⟩
        · obtain ⟨hnot, hreq⟩ := hrest later hlater
          exact ⟨fun hmem => hnot (List.mem_cons_of_mem _ hmem), hreq⟩

/-- What an accepted response is: distinct keys on both sides, the same keys,
and every answer in the domain of its request. -/
theorem validateBatchResult_ok {requests : List JudgmentRequest}
    {response : ProviderBatchResult}
    (h : validateBatchResult requests response = .ok ()) :
    (requests.map JudgmentRequest.requestKey).Nodup ∧
      (response.answers.map ProviderAnswer.requestKey).Nodup ∧
      response.answers.length = requests.length ∧
      (∀ request ∈ requests, ∃ answer ∈ response.answers,
        answer.requestKey = request.requestKey) ∧
      ∀ answer ∈ response.answers, ∃ request ∈ requests,
        request.requestKey = answer.requestKey ∧
          ValidFor request answer.result := by
  unfold validateBatchResult at h
  dsimp only at h
  split at h
  · cases h
  rename_i hexpected
  split at h
  · cases h
  rename_i hlength
  split at h
  · cases h
  rename_i seen hanswers
  obtain ⟨hseen, hnodup, hvalid⟩ := validateAnswers_ok hanswers
  split at h
  · rename_i hkeys
    refine ⟨not_not.mp hexpected, hnodup, not_not.mp hlength, ?_,
      fun answer hmem => (hvalid answer hmem).2⟩
    intro request hrequest
    simp only [Bool.and_eq_true, List.all_eq_true, List.mem_map,
      List.contains_iff_mem] at hkeys
    have hmem := hkeys.2 request.requestKey ⟨request, hrequest, rfl⟩
    rw [hseen, List.append_nil, List.mem_reverse] at hmem
    exact List.mem_map.mp hmem
  · cases h

/-! ## Acceptance of a response -/

/-- An answer to a fresh key is accepted when it is valid for the requests
with that key. -/
theorem validateAnswer_of {requests : List JudgmentRequest}
    {seen : List String} {answer : ProviderAnswer}
    (hfresh : answer.requestKey ∉ seen)
    (hknown : answer.requestKey ∈ requests.map JudgmentRequest.requestKey)
    (hvalid : ∀ request ∈ requests,
      request.requestKey = answer.requestKey →
        ValidFor request answer.result) :
    validateAnswer requests seen answer = .ok () := by
  obtain ⟨known, hmem, hkey⟩ := List.mem_map.mp hknown
  obtain ⟨request, hfind⟩ : ∃ request, requests.find? (fun request =>
      request.requestKey == answer.requestKey) = some request := by
    rw [← Option.isSome_iff_exists, List.find?_isSome]
    exact ⟨known, hmem, by simpa using hkey⟩
  have hrequest : ValidFor request answer.result :=
    hvalid request (List.mem_of_find?_eq_some hfind)
      (by simpa using List.find?_some hfind)
  have hcontains : seen.contains answer.requestKey ≠ true := by
    simpa using hfresh
  unfold validateAnswer
  rw [if_neg hcontains, hfind]
  dsimp only
  unfold ValidFor validateJudgmentResult at hrequest
  cases hkind : request.kind with
  | noul =>
      cases hresult : answer.result with
      | noul probability =>
          rw [hkind, hresult] at hrequest
          exact hrequest
      | choice label =>
          rw [hkind, hresult] at hrequest
          cases hrequest
  | choice =>
      cases hresult : answer.result with
      | noul probability =>
          rw [hkind, hresult] at hrequest
          cases hrequest
      | choice label =>
          rw [hkind, hresult] at hrequest
          exact hrequest

theorem validateAnswers_of {requests : List JudgmentRequest}
    {answers : List ProviderAnswer} {seen : List String}
    (hfresh : ∀ answer ∈ answers, answer.requestKey ∉ seen)
    (hnodup : (answers.map ProviderAnswer.requestKey).Nodup)
    (hknown : ∀ answer ∈ answers,
      answer.requestKey ∈ requests.map JudgmentRequest.requestKey)
    (hvalid : ∀ answer ∈ answers, ∀ request ∈ requests,
      request.requestKey = answer.requestKey →
        ValidFor request answer.result) :
    validateAnswers requests seen answers =
      .ok ((answers.map ProviderAnswer.requestKey).reverse ++ seen) := by
  induction answers generalizing seen with
  | nil => rfl
  | cons answer rest ih =>
      obtain ⟨hanswer, hrest⟩ := List.nodup_cons.mp hnodup
      have hmem : answer ∈ answer :: rest := List.mem_cons_self ..
      have hfirst := validateAnswer_of (hfresh answer hmem)
        (hknown answer hmem) (hvalid answer hmem)
      have hlater : ∀ other ∈ rest,
          other.requestKey ∉ answer.requestKey :: seen := by
        intro other hother hkey
        rcases List.mem_cons.mp hkey with heq | hkey
        · exact hanswer (List.mem_map.mpr ⟨other, hother, heq⟩)
        · exact hfresh other (List.mem_cons_of_mem _ hother) hkey
      have htail := ih hlater hrest
        (fun other h => hknown other (List.mem_cons_of_mem _ h))
        (fun other h => hvalid other (List.mem_cons_of_mem _ h))
      rw [validateAnswers, hfirst]
      simpa using htail

/-- A response is accepted when its keys are the distinct keys of the
requests and its answers are valid. -/
theorem validateBatchResult_of {requests : List JudgmentRequest}
    {response : ProviderBatchResult}
    (hnodup : (requests.map JudgmentRequest.requestKey).Nodup)
    (hkeys : (response.answers.map ProviderAnswer.requestKey).Perm
      (requests.map JudgmentRequest.requestKey))
    (hvalid : ∀ answer ∈ response.answers, ∀ request ∈ requests,
      request.requestKey = answer.requestKey →
        ValidFor request answer.result) :
    validateBatchResult requests response = .ok () := by
  have hlength : response.answers.length = requests.length := by
    simpa using hkeys.length_eq
  have hanswers := @validateAnswers_of requests response.answers []
    (fun _ _ => List.not_mem_nil) (hkeys.symm.nodup hnodup)
    (fun answer hmem => hkeys.mem_iff.mp (List.mem_map_of_mem hmem)) hvalid
  have hsame : ∀ key, key ∈ (response.answers.map
      ProviderAnswer.requestKey).reverse ++ [] ↔
        key ∈ requests.map JudgmentRequest.requestKey := by
    intro key
    rw [List.append_nil, List.mem_reverse, hkeys.mem_iff]
  unfold validateBatchResult
  dsimp only
  rw [if_neg (not_not.mpr hnodup), if_neg (not_not.mpr hlength), hanswers]
  dsimp only
  rw [if_pos]
  simp only [Bool.and_eq_true, List.all_eq_true, List.contains_iff_mem]
  exact ⟨fun key hmem => (hsame key).mp hmem,
    fun key hmem => (hsame key).mpr hmem⟩

/-- A response is accepted exactly if the keys of the answers are a
permutation of the distinct keys of the requests, and every answer is in the
domain of the request with its key. -/
theorem validateBatchResult_iff (requests : List JudgmentRequest)
    (response : ProviderBatchResult) :
    validateBatchResult requests response = .ok () ↔
      (requests.map JudgmentRequest.requestKey).Nodup ∧
        (response.answers.map ProviderAnswer.requestKey).Perm
          (requests.map JudgmentRequest.requestKey) ∧
        ∀ answer ∈ response.answers, ∀ request ∈ requests,
          request.requestKey = answer.requestKey →
            request.InDomain answer.result := by
  constructor
  · intro h
    obtain ⟨hexpected, hnodup, hlength, hcovered, hvalid⟩ :=
      validateBatchResult_ok h
    refine ⟨hexpected, ?_, ?_⟩
    · refine (List.perm_ext_iff_of_nodup hnodup hexpected).mpr fun key => ?_
      constructor
      · intro hkey
        obtain ⟨answer, hanswer, rfl⟩ := List.mem_map.mp hkey
        obtain ⟨request, hrequest, hsame, -⟩ := hvalid answer hanswer
        exact List.mem_map.mpr ⟨request, hrequest, hsame⟩
      · intro hkey
        obtain ⟨request, hrequest, rfl⟩ := List.mem_map.mp hkey
        obtain ⟨answer, hanswer, hsame⟩ := hcovered request hrequest
        exact List.mem_map.mpr ⟨answer, hanswer, hsame⟩
    · intro answer hanswer request hrequest hkey
      obtain ⟨known, hknown, hsame, hfits⟩ := hvalid answer hanswer
      obtain rfl : known = request :=
        List.inj_on_of_nodup_map hexpected hknown hrequest
          (hsame.trans hkey.symm)
      exact validFor_iff.mp hfits
  · rintro ⟨hexpected, hperm, hdomain⟩
    refine validateBatchResult_of hexpected hperm ?_
    intro answer hanswer request hrequest hkey
    exact validFor_iff.mpr (hdomain answer hanswer request hrequest hkey)

end DuckJeu
