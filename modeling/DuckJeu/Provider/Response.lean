import DuckJeu.Provider.Composite
import Mathlib.Data.List.Perm.Subperm

/-!
# Responses of the TypeSafe adapter

This module follows `parse_batch_response` of `typesafe.rs`.  A response body
is a JSON text which `serde_json` accepts, given by its syntax tree: in an
object of the tree a name may be repeated.  Parsing into a `Value` keeps the
last of repeated members, so the checks of the adapter see each name once.
-/

namespace DuckJeu

open Json (Members Value)

namespace TypesafeProvider

/-! ## Parsing -/

/-- The value of an answer object of the expected type. -/
def typedAnswerValue (answer : Wire) (expectedType valueField : String) :
    Except JudgmentError Wire :=
  match answer.asObject with
  | none =>
      .error (.invalidResponse "provider answer is not a typed answer object")
  | some members =>
      if (members.get? "type").bind Value.asString ≠ some expectedType then
        .error (.invalidResponse
          ("provider answer type does not match the requested " ++
            expectedType ++ " question"))
      else
        match members.get? valueField with
        | none =>
            .error (.invalidResponse
              ("provider " ++ expectedType ++ " answer is missing the '" ++
                valueField ++ "' field"))
        | some value => .ok value

def parseNoul (answer : Wire) : Except JudgmentError JudgmentResult :=
  match typedAnswerValue answer "noul" "noul" with
  | .error e => .error e
  | .ok value =>
      match value.asNumber with
      | none =>
          .error (.invalidResponse "provider noul answer is not a number")
      | some number =>
          match validateProbability number.asF64 with
          | .error e => .error e
          | .ok probability => .ok (.noul probability)

def parseChoice (choices : List String) (answer : Wire) :
    Except JudgmentError JudgmentResult :=
  match typedAnswerValue answer "choice" "choice" with
  | .error e => .error e
  | .ok value =>
      match value.asString with
      | none =>
          .error (.invalidResponse "provider choice answer is not a string")
      | some label =>
          match validateLabel label choices with
          | .error e => .error e
          | .ok label => .ok (.choice label)

def parseAnswer (request : JudgmentRequest) (answer : Wire) :
    Except JudgmentError JudgmentResult :=
  match request.kind with
  | .noul => parseNoul answer
  | .choice => parseChoice request.choices answer

/-- The answers in request order.  Every key is present when the loop
runs. -/
def parseAnswers (answers : Members Wire) :
    List JudgmentRequest → Except JudgmentError (List ProviderAnswer)
  | [] => .ok []
  | request :: rest =>
      match parseAnswer request
          ((answers.get? request.requestKey).getD .null) with
      | .error e => .error e
      | .ok result =>
          match parseAnswers answers rest with
          | .error e => .error e
          | .ok parsed => .ok (⟨request.requestKey, result⟩ :: parsed)

/-- What a response says about itself. -/
def responseMetadata (p : TypesafeProvider) (parsed : Wire) :
    ProviderMetadata where
  requestedModel := some p.model
  effectiveModel := (parsed.get "model").bind Value.asString
  usage := ((parsed.get "usage").bind Value.asObject).map fun usage =>
    { inputTokens :=
        ((usage.get? "input_tokens").bind Value.asNumber).bind Number.asU64
      outputTokens :=
        ((usage.get? "output_tokens").bind Value.asNumber).bind Number.asU64 }

/-- Parse a body against its requests.  A body is the syntax tree of the text,
or `none` for a text which `serde_json::from_str` refuses: one which is not
JSON, but also JSON nested too deeply, with a number out of range or with a
lone surrogate. -/
def parseBatchResponse (p : TypesafeProvider)
    (requests : List JudgmentRequest) (body : Option Wire) :
    Except JudgmentError ProviderBatchResult :=
  match body with
  | none =>
      .error (.invalidResponse
        "provider returned a body that is not valid JSON")
  | some tree =>
      let parsed := tree.collapse
      match (parsed.get "answers").bind Value.asObject with
      | none =>
          .error (.invalidResponse
            "provider response is missing the 'answers' object")
      | some answers =>
          if answers.length ≠ requests.length ∨
              ∃ request ∈ requests, (answers.get? request.requestKey).isNone
          then
            .error (.invalidResponse
              ("provider response answers do not match the requested " ++
                "question keys"))
          else
            match parseAnswers answers requests with
            | .error e => .error e
            | .ok parsedAnswers =>
                let response : ProviderBatchResult :=
                  { answers := parsedAnswers
                    metadata := p.responseMetadata parsed }
                match validateBatchResult requests response with
                | .error e => .error e
                | .ok () => .ok response

/-! ## What the checks of an answer accept -/

/-- A result which a JSON value denotes for a question of this kind. -/
def Reads (kind : QuestionKind) (value : Wire) (result : JudgmentResult) :
    Prop :=
  match kind with
  | .noul => ∃ number, value = .number number ∧ result = .noul number.asF64
  | .choice => ∃ label, value = .string label ∧ result = .choice label

theorem asString_eq_some {value : Wire} {s : String} :
    value.asString = some s ↔ value = .string s := by
  cases value <;> simp [Value.asString]

theorem asNumber_eq_some {value : Wire} {number : Number} :
    value.asNumber = some number ↔ value = .number number := by
  cases value <;> simp [Value.asNumber]

theorem typedAnswerValue_ok_iff {answer value : Wire}
    {expectedType valueField : String} :
    typedAnswerValue answer expectedType valueField = .ok value ↔
      answer.get "type" = some (.string expectedType) ∧
        answer.get valueField = some value := by
  cases answer with
  | object members =>
      simp only [typedAnswerValue, Value.asObject, Value.get]
      by_cases htype : Members.get? "type" members =
          some (Value.string expectedType)
      · have hmatch : ¬ (Members.get? "type" members).bind Value.asString ≠
            some expectedType := by
          rw [htype, not_not]
          rfl
        rw [if_neg hmatch]
        cases hget : Members.get? valueField members with
        | none => simp
        | some present => simp [htype]
      · have hmatch : (Members.get? "type" members).bind Value.asString ≠
            some expectedType := by
          intro hbind
          obtain ⟨present, hpresent, hstring⟩ :=
            Option.bind_eq_some_iff.mp hbind
          exact htype (by rw [hpresent, asString_eq_some.mp hstring])
        rw [if_pos hmatch]
        simp [htype]
  | _ => simp [typedAnswerValue, Value.asObject, Value.get]

theorem validateProbability_eq {p q : F64}
    (h : validateProbability p = .ok q) : q = p := by
  unfold validateProbability at h
  split at h
  · cases h
  split at h
  · cases h
  · exact (Except.ok.inj h).symm

theorem validateLabel_eq {label label' : String} {choices : List String}
    (h : validateLabel label choices = .ok label') : label' = label := by
  unfold validateLabel at h
  split at h
  · exact (Except.ok.inj h).symm
  · cases h

theorem parseNoul_ok_iff {request : JudgmentRequest}
    (hkind : request.kind = .noul) {answer : Wire} {result : JudgmentResult} :
    parseNoul answer = .ok result ↔
      ∃ value, typedAnswerValue answer "noul" "noul" = .ok value ∧
        Reads .noul value result ∧ ValidFor request result := by
  constructor
  · intro h
    unfold parseNoul at h
    split at h
    · cases h
    rename_i value hvalue
    split at h
    · cases h
    rename_i number hnumber
    split at h
    · cases h
    rename_i probability hprobability
    obtain rfl := Except.ok.inj h
    obtain rfl := validateProbability_eq hprobability
    refine ⟨value, hvalue, ⟨number, asNumber_eq_some.mp hnumber, rfl⟩, ?_⟩
    simp only [ValidFor, validateJudgmentResult, hkind, hprobability]
  · rintro ⟨value, hvalue, ⟨number, rfl, rfl⟩, hvalid⟩
    simp only [ValidFor, validateJudgmentResult, hkind] at hvalid
    simp only [parseNoul, hvalue, Value.asNumber]
    cases hprobability : validateProbability number.asF64 with
    | error e =>
        rw [hprobability] at hvalid
        cases hvalid
    | ok probability => rw [validateProbability_eq hprobability]

theorem parseChoice_ok_iff {request : JudgmentRequest}
    (hkind : request.kind = .choice) {answer : Wire}
    {result : JudgmentResult} :
    parseChoice request.choices answer = .ok result ↔
      ∃ value, typedAnswerValue answer "choice" "choice" = .ok value ∧
        Reads .choice value result ∧ ValidFor request result := by
  constructor
  · intro h
    unfold parseChoice at h
    split at h
    · cases h
    rename_i value hvalue
    split at h
    · cases h
    rename_i label hlabel
    split at h
    · cases h
    rename_i checked hchecked
    obtain rfl := Except.ok.inj h
    obtain rfl := validateLabel_eq hchecked
    refine ⟨value, hvalue, ⟨checked, asString_eq_some.mp hlabel, rfl⟩, ?_⟩
    simp only [ValidFor, validateJudgmentResult, hkind, hchecked]
  · rintro ⟨value, hvalue, ⟨label, rfl, rfl⟩, hvalid⟩
    simp only [ValidFor, validateJudgmentResult, hkind] at hvalid
    simp only [parseChoice, hvalue, Value.asString]
    cases hlabel : validateLabel label request.choices with
    | error e =>
        rw [hlabel] at hvalid
        cases hvalid
    | ok checked => rw [validateLabel_eq hlabel]

/-- An answer is parsed when it has the type of the question, and under the
name of the type a value in the domain of the request. -/
theorem parseAnswer_ok_iff {request : JudgmentRequest} {answer : Wire}
    {result : JudgmentResult} :
    parseAnswer request answer = .ok result ↔
      answer.get "type" = some (.string (typeName request.kind)) ∧
        ∃ value, answer.get (typeName request.kind) = some value ∧
          Reads request.kind value result ∧ ValidFor request result := by
  cases hkind : request.kind with
  | noul =>
      simp only [parseAnswer, hkind, parseNoul_ok_iff hkind, typeName,
        typedAnswerValue_ok_iff, and_assoc, exists_and_left]
  | choice =>
      simp only [parseAnswer, hkind, parseChoice_ok_iff hkind, typeName,
        typedAnswerValue_ok_iff, and_assoc, exists_and_left]

/-- What the loop over the answers returns. -/
theorem parseAnswers_ok {answers : Members Wire}
    {requests : List JudgmentRequest} {parsed : List ProviderAnswer}
    (h : parseAnswers answers requests = .ok parsed) :
    parsed.map ProviderAnswer.requestKey =
        requests.map JudgmentRequest.requestKey ∧
      (∀ request ∈ requests, ∃ result, parseAnswer request
        ((answers.get? request.requestKey).getD .null) = .ok result) ∧
      ∀ answer ∈ parsed, ∃ request ∈ requests,
        request.requestKey = answer.requestKey ∧
          ValidFor request answer.result := by
  induction requests generalizing parsed with
  | nil =>
      obtain rfl := Except.ok.inj h
      simp
  | cons request rest ih =>
      rw [parseAnswers] at h
      split at h
      · cases h
      rename_i result hresult
      split at h
      · cases h
      rename_i later hlater
      obtain rfl := Except.ok.inj h
      obtain ⟨hkeys, hresults, hvalid⟩ := ih hlater
      refine ⟨by rw [List.map_cons, List.map_cons, hkeys], ?_, ?_⟩
      · rw [List.forall_mem_cons]
        exact ⟨⟨result, hresult⟩, hresults⟩
      · intro answer hanswer
        rcases List.mem_cons.mp hanswer with rfl | hanswer
        · have hfirst := (parseAnswer_ok_iff.mp hresult).2
          obtain ⟨-, -, -, hrequest⟩ := hfirst
          exact ⟨request, List.mem_cons_self .., rfl, hrequest⟩
        · obtain ⟨other, hother, hkey⟩ := hvalid answer hanswer
          exact ⟨other, List.mem_cons_of_mem _ hother, hkey⟩

theorem parseAnswers_total {answers : Members Wire}
    {requests : List JudgmentRequest}
    (h : ∀ request ∈ requests, ∃ result, parseAnswer request
      ((answers.get? request.requestKey).getD .null) = .ok result) :
    ∃ parsed, parseAnswers answers requests = .ok parsed := by
  induction requests with
  | nil => exact ⟨[], rfl⟩
  | cons request rest ih =>
      obtain ⟨⟨result, hresult⟩, hrest⟩ := List.forall_mem_cons.mp h
      obtain ⟨later, hlater⟩ := ih hrest
      exact ⟨⟨request.requestKey, result⟩ :: later,
        by rw [parseAnswers, hresult, hlater]⟩

/-! ## What the checks of a body accept -/

/-- The syntax tree of an answer fits its request. -/
def AnswerFits (request : JudgmentRequest) (answer : Wire) : Prop :=
  answer.last? "type" = some (.string (typeName request.kind)) ∧
    ∃ value result, answer.last? (typeName request.kind) = some value ∧
      Reads request.kind value result ∧ ValidFor request result

/-- The last answer under each name fits: the names are the distinct keys of
the requests. -/
def LastAnswersFit (requests : List JudgmentRequest) (body : Wire) : Prop :=
  ∃ answers : Members Wire, body.last? "answers" = some (.object answers) ∧
    (requests.map JudgmentRequest.requestKey).Nodup ∧
    (∀ name, name ∈ answers.names ↔
      name ∈ requests.map JudgmentRequest.requestKey) ∧
    ∀ request ∈ requests, ∃ answer,
      (Value.object answers).last? request.requestKey = some answer ∧
        AnswerFits request answer

/-- Some name occurs more than once among the answers. -/
def RepeatedAnswers (body : Wire) : Prop :=
  ∃ answers : Members Wire, body.last? "answers" = some (.object answers) ∧
    ¬ answers.names.Nodup

theorem reads_collapse {kind : QuestionKind} {value : Wire}
    {result : JudgmentResult} :
    Reads kind value.collapse result ↔ Reads kind value result := by
  cases kind with
  | noul => simp only [Reads, Value.collapse_eq_number]
  | choice => simp only [Reads, Value.collapse_eq_string]

theorem get_collapse_eq_string {name s : String} {tree : Wire} :
    tree.collapse.get name = some (.string s) ↔
      tree.last? name = some (.string s) := by
  rw [Value.get_collapse, Option.map_eq_some_iff]
  constructor
  · rintro ⟨value, hvalue, hcollapse⟩
    rw [hvalue, Value.collapse_eq_string.mp hcollapse]
  · intro h
    exact ⟨_, h, rfl⟩

theorem answerFits_iff {request : JudgmentRequest} {answer : Wire} :
    AnswerFits request answer ↔
      ∃ result, parseAnswer request answer.collapse = .ok result := by
  simp only [parseAnswer_ok_iff, get_collapse_eq_string]
  constructor
  · rintro ⟨htype, value, result, hvalue, hreads, hvalid⟩
    refine ⟨result, htype, value.collapse, ?_, reads_collapse.mpr hreads,
      hvalid⟩
    rw [Value.get_collapse, hvalue, Option.map_some]
  · rintro ⟨result, htype, collapsed, hget, hreads, hvalid⟩
    rw [Value.get_collapse] at hget
    obtain ⟨value, hvalue, rfl⟩ := Option.map_eq_some_iff.mp hget
    exact ⟨htype, value, result, hvalue, reads_collapse.mp hreads, hvalid⟩

/-- The answers as the adapter sees them. -/
def collapsed (answers : Members Wire) : Members Wire :=
  Members.ofEntries (Value.collapseMembers answers)

theorem get?_collapsed (answers : Members Wire) (name : String) :
    (collapsed answers).get? name =
      ((Value.object answers).last? name).map Value.collapse :=
  Value.get_collapse name (.object answers)

theorem mem_names_collapsed {answers : Members Wire} {name : String} :
    name ∈ (collapsed answers).names ↔ name ∈ answers.names := by
  rw [collapsed, Members.mem_names_ofEntries, Value.collapseMembers_eq_map]
  simp [Members.names, Function.comp_def]

/-- The count and the presence of the keys mean that the names are the
keys. -/
theorem names_perm_of_counts {answers : Members Wire}
    {requests : List JudgmentRequest}
    (hlength : (collapsed answers).length = requests.length)
    (hpresent : ∀ request ∈ requests,
      ((collapsed answers).get? request.requestKey).isSome)
    (hnodup : (requests.map JudgmentRequest.requestKey).Nodup) :
    (requests.map JudgmentRequest.requestKey).Perm
      (collapsed answers).names := by
  have hsubset : requests.map JudgmentRequest.requestKey ⊆
      (collapsed answers).names := by
    intro key hkey
    obtain ⟨request, hmem, rfl⟩ := List.mem_map.mp hkey
    exact Members.get?_isSome.mp (hpresent request hmem)
  have hsubperm := List.subperm_of_subset hnodup hsubset
  refine hsubperm.perm_of_length_le ?_
  rw [Members.names, List.length_map, List.length_map, hlength]

/-- What acceptance of a body means for the loop over its answers. -/
theorem parseBatchResponse_ok {p : TypesafeProvider}
    {requests : List JudgmentRequest} {body : Wire}
    {response : ProviderBatchResult}
    (h : p.parseBatchResponse requests (some body) = .ok response) :
    ∃ answers, body.last? "answers" = some (.object answers) ∧
      (collapsed answers).length = requests.length ∧
      (∀ request ∈ requests,
        ((collapsed answers).get? request.requestKey).isSome) ∧
      parseAnswers (collapsed answers) requests = .ok response.answers ∧
      validateBatchResult requests response = .ok () := by
  unfold parseBatchResponse at h
  dsimp only at h
  split at h
  · cases h
  rename_i seen hseen
  obtain ⟨tree, htree, hobject⟩ := Option.bind_eq_some_iff.mp hseen
  rw [Value.get_collapse] at htree
  obtain ⟨raw, hraw, rfl⟩ := Option.map_eq_some_iff.mp htree
  obtain ⟨answers, rfl, rfl⟩ : ∃ answers, raw = .object answers ∧
      seen = collapsed answers := by
    cases raw <;> simp [Value.collapse, Value.asObject] at hobject
    exact ⟨_, rfl, hobject.symm⟩
  split at h
  · cases h
  rename_i hcounts
  obtain ⟨hlength, hmissing⟩ := not_or.mp hcounts
  split at h
  · cases h
  rename_i parsed hparsed
  split at h
  · cases h
  rename_i hvalidated
  obtain rfl := Except.ok.inj h
  refine ⟨answers, hraw, not_not.mp hlength, ?_, hparsed, hvalidated⟩
  intro request hmem
  by_contra hnone
  exact hmissing ⟨request, hmem, by simpa using hnone⟩

/-- A body is accepted when the last answer under each name fits. -/
theorem parseBatchResponse_ok_iff (p : TypesafeProvider)
    (requests : List JudgmentRequest) (body : Wire) :
    (∃ response, p.parseBatchResponse requests (some body) = .ok response) ↔
      LastAnswersFit requests body := by
  constructor
  · rintro ⟨response, h⟩
    obtain ⟨answers, hraw, hlength, hpresent, hparsed, hvalidated⟩ :=
      parseBatchResponse_ok h
    have hnodup := (validateBatchResult_ok hvalidated).1
    have hperm := names_perm_of_counts hlength hpresent hnodup
    refine ⟨answers, hraw, hnodup, ?_, ?_⟩
    · intro name
      rw [hperm.mem_iff, mem_names_collapsed]
    · intro request hmem
      obtain ⟨value, hvalue⟩ :=
        Option.isSome_iff_exists.mp (hpresent request hmem)
      have hget := hvalue
      rw [get?_collapsed] at hget
      obtain ⟨answer, hanswer, rfl⟩ := Option.map_eq_some_iff.mp hget
      obtain ⟨result, hresult⟩ := (parseAnswers_ok hparsed).2.1 request hmem
      rw [hvalue, Option.getD_some] at hresult
      exact ⟨answer, hanswer, answerFits_iff.mpr ⟨_, hresult⟩⟩
  · rintro ⟨answers, hanswers, hnodup, hnames, hfits⟩
    have hseen : (body.collapse.get "answers").bind Value.asObject =
        some (collapsed answers) := by
      rw [Value.get_collapse, hanswers]
      rfl
    have hperm : (requests.map JudgmentRequest.requestKey).Perm
        (collapsed answers).names := by
      refine (List.perm_ext_iff_of_nodup hnodup
        (Members.sorted_ofEntries _).nodup).mpr fun name => ?_
      rw [← hnames name]
      exact mem_names_collapsed.symm
    have hlength : (collapsed answers).length = requests.length := by
      simpa [Members.names] using hperm.length_eq.symm
    have hresults : ∀ request ∈ requests, ∃ result, parseAnswer request
        (((collapsed answers).get? request.requestKey).getD .null) =
          .ok result := by
      intro request hmem
      obtain ⟨answer, hanswer, hfit⟩ := hfits request hmem
      rw [get?_collapsed, hanswer]
      exact answerFits_iff.mp hfit
    have hcounts : ¬ ((collapsed answers).length ≠ requests.length ∨
        ∃ request ∈ requests,
          ((collapsed answers).get? request.requestKey).isNone) := by
      rintro (hne | ⟨request, hmem, hnone⟩)
      · exact hne hlength
      · obtain ⟨answer, hanswer, -⟩ := hfits request hmem
        rw [get?_collapsed, hanswer] at hnone
        cases hnone
    obtain ⟨parsed, hparsed⟩ := parseAnswers_total hresults
    obtain ⟨hkeys, -, hvalid⟩ := parseAnswers_ok hparsed
    have hvalidated : validateBatchResult requests
        { answers := parsed
          metadata := p.responseMetadata body.collapse } = .ok () := by
      refine validateBatchResult_of hnodup (by rw [hkeys]) ?_
      intro answer hanswer request hmem hkey
      obtain ⟨known, hknown, hsame, hfit⟩ := hvalid answer hanswer
      obtain rfl : known = request :=
        List.inj_on_of_nodup_map hnodup hknown hmem (hsame.trans hkey.symm)
      exact hfit
    refine ⟨{ answers := parsed
              metadata := p.responseMetadata body.collapse }, ?_⟩
    unfold parseBatchResponse
    dsimp only
    rw [hseen]
    dsimp only
    rw [if_neg hcounts, hparsed]
    dsimp only
    rw [hvalidated]

/-- Repeated answers are rejected unless the last ones fit. -/
theorem repeated_answers_error_iff (p : TypesafeProvider)
    (requests : List JudgmentRequest) {body : Wire}
    (_ : RepeatedAnswers body) :
    (∃ error, p.parseBatchResponse requests (some body) = .error error) ↔
      ¬ LastAnswersFit requests body := by
  rw [← p.parseBatchResponse_ok_iff requests body]
  cases p.parseBatchResponse requests (some body) with
  | error error => simp
  | ok response => simp

/-! ## One question answered twice -/

def noulAnswer (probability : F64) : Wire :=
  .object [("type", .string "noul"), ("noul", .number (.float probability))]

/-- A body which answers one question with two probabilities. -/
def conflictingBody (first second : F64) : Wire :=
  .object [("answers", .object
    [("r0", noulAnswer first), ("r0", noulAnswer second)])]

theorem repeatedAnswers_conflictingBody (first second : F64) :
    RepeatedAnswers (conflictingBody first second) := by
  refine ⟨[("r0", noulAnswer first), ("r0", noulAnswer second)], rfl, ?_⟩
  simp [Members.names]

theorem conflicting_answers_error_iff :
    (∃ error, parseBatchResponse ⟨"jev-latest", none⟩ [textRequest "a"]
        (some (conflictingBody .zero .half)) = .error error) ↔
      ¬ LastAnswersFit [textRequest "a"] (conflictingBody .zero .half) :=
  repeated_answers_error_iff ⟨"jev-latest", none⟩ [textRequest "a"]
    (repeatedAnswers_conflictingBody .zero .half)

theorem lastAnswersFit_conflictingBody :
    LastAnswersFit [textRequest "a"] (conflictingBody .zero .half) := by
  refine ⟨[("r0", noulAnswer .zero), ("r0", noulAnswer .half)], rfl,
    List.nodup_singleton _, ?_, ?_⟩
  · intro name
    simp [Members.names, textRequest, defaultRequestKey]
  · rw [List.forall_mem_singleton]
    exact ⟨noulAnswer .half, rfl, rfl, .number (.float .half), .noul .half,
      rfl, ⟨.float .half, rfl, rfl⟩, by decide⟩

/-- A question answered twice is not always rejected. -/
theorem repeated_answers_accepted :
    ¬ ∀ (p : TypesafeProvider) (requests : List JudgmentRequest) (body : Wire),
      RepeatedAnswers body →
        ∃ error, p.parseBatchResponse requests (some body) = .error error := by
  intro hrejects
  obtain ⟨error, herror⟩ := hrejects ⟨"jev-latest", none⟩ [textRequest "a"]
    (conflictingBody .zero .half) (repeatedAnswers_conflictingBody .zero .half)
  obtain ⟨response, hok⟩ := (parseBatchResponse_ok_iff ⟨"jev-latest", none⟩
    [textRequest "a"] (conflictingBody .zero .half)).mpr
    lastAnswersFit_conflictingBody
  rw [hok] at herror
  cases herror

end TypesafeProvider

end DuckJeu
