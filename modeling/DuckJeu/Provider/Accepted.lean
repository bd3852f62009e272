import DuckJeu.Json.Members
import DuckJeu.Provider.Response
import Mathlib.Data.List.Forall2

/-!
# The response format

Bodies whose objects repeat no name are accepted exactly if they have the
format of the protocol.  What is accepted, and every error, depends on the
members which the protocol names, and not on their order.
-/

namespace DuckJeu

open Json (Members Value)

namespace TypesafeProvider

/-! ## The format -/

/-- An answer object of the type of the question, with a value in the domain
of the request under the name of the type. -/
def Answers (request : JudgmentRequest) (answer : Wire)
    (result : JudgmentResult) : Prop :=
  ∃ members value, answer = .object members ∧
    ("type", .string (typeName request.kind)) ∈ members ∧
    (typeName request.kind, value) ∈ members ∧
    Reads request.kind value result ∧ request.InDomain result

/-- The answers of a body. -/
def HasAnswers (body : Wire) (answers : Members Wire) : Prop :=
  ∃ members, body = .object members ∧ ("answers", .object answers) ∈ members

/-- The format of a response: the names of the answers are the keys of the
requests, and every request is answered under its key. -/
def WellAnswered (requests : List JudgmentRequest) (body : Wire) : Prop :=
  ∃ answers, HasAnswers body answers ∧
    answers.names.Perm (requests.map JudgmentRequest.requestKey) ∧
    ∀ request ∈ requests, ∃ answer result,
      (request.requestKey, answer) ∈ answers ∧ Answers request answer result

/-- The answer to a request is the one under its key. -/
def AnswerTo (body : Wire) (request : JudgmentRequest)
    (answer : ProviderAnswer) : Prop :=
  answer.requestKey = request.requestKey ∧
    ∃ answers tree, HasAnswers body answers ∧
      (request.requestKey, tree) ∈ answers ∧
      Answers request tree answer.result

section Distinct

variable {body : Wire} {answers : Members Wire}

theorem hasAnswers_iff (hbody : body.DistinctNames) :
    HasAnswers body answers ↔
      body.last? "answers" = some (.object answers) := by
  cases hbody with
  | object hnames hmembers =>
      rw [Value.last?_eq_some_iff hnames]
      constructor
      · rintro ⟨members, hobject, hmem⟩
        rw [Value.object.inj hobject]
        exact hmem
      · intro hmem
        exact ⟨_, rfl, hmem⟩
  | _ => simp [HasAnswers, Value.last?]

theorem HasAnswers.distinct (hbody : body.DistinctNames)
    (h : HasAnswers body answers) :
    answers.names.Nodup ∧ ∀ answer ∈ answers, answer.2.DistinctNames := by
  obtain ⟨members, rfl, hmem⟩ := h
  have hanswers := (Value.distinctNames_object.mp hbody).2 _ hmem
  exact Value.distinctNames_object.mp hanswers

/-- An answer of the format is one which the adapter parses. -/
theorem answers_iff {request : JudgmentRequest} {answer : Wire}
    {result : JudgmentResult} (hanswer : answer.DistinctNames) :
    Answers request answer result ↔
      parseAnswer request answer.collapse = .ok result := by
  have hdenotes : Answers request answer result ↔
      answer.last? "type" = some (.string (typeName request.kind)) ∧
        ∃ value, answer.last? (typeName request.kind) = some value ∧
          Reads request.kind value result ∧ request.InDomain result := by
    cases hanswer with
    | object hnames hmembers =>
        simp only [Value.last?_eq_some_iff hnames]
        constructor
        · rintro ⟨members, value, hobject, htype, hvalue, hreads⟩
          rw [Value.object.inj hobject]
          exact ⟨htype, value, hvalue, hreads⟩
        · rintro ⟨htype, value, hvalue, hreads⟩
          exact ⟨_, value, rfl, htype, hvalue, hreads⟩
    | _ => simp [Answers, Value.last?]
  rw [hdenotes, parseAnswer_ok_iff, get_collapse_eq_string]
  constructor
  · rintro ⟨htype, value, hvalue, hreads, hdomain⟩
    refine ⟨htype, value.collapse, ?_, reads_collapse.mpr hreads,
      validFor_iff.mpr hdomain⟩
    rw [Value.get_collapse, hvalue, Option.map_some]
  · rintro ⟨htype, collapsed, hget, hreads, hvalid⟩
    rw [Value.get_collapse] at hget
    obtain ⟨value, hvalue, rfl⟩ := Option.map_eq_some_iff.mp hget
    exact ⟨htype, value, hvalue, reads_collapse.mp hreads,
      validFor_iff.mp hvalid⟩

theorem answerFits_iff_answers {request : JudgmentRequest} {answer : Wire}
    (hanswer : answer.DistinctNames) :
    AnswerFits request answer ↔ ∃ result, Answers request answer result := by
  rw [answerFits_iff]
  simp only [answers_iff hanswer]

theorem lastAnswersFit_iff {requests : List JudgmentRequest}
    (hkeys : (requests.map JudgmentRequest.requestKey).Nodup)
    (hbody : body.DistinctNames) :
    LastAnswersFit requests body ↔ WellAnswered requests body := by
  constructor
  · rintro ⟨answers, hanswers, -, hnames, hfits⟩
    have hhas := (hasAnswers_iff hbody).mpr hanswers
    obtain ⟨hnodup, hdistinct⟩ := hhas.distinct hbody
    refine ⟨answers, hhas,
      (List.perm_ext_iff_of_nodup hnodup hkeys).mpr hnames, ?_⟩
    intro request hmem
    obtain ⟨answer, hlast, hfit⟩ := hfits request hmem
    have hanswer := (Value.last?_eq_some_iff hnodup).mp hlast
    obtain ⟨result, hresult⟩ :=
      (answerFits_iff_answers (hdistinct _ hanswer)).mp hfit
    exact ⟨answer, result, hanswer, hresult⟩
  · rintro ⟨answers, hhas, hnames, hfits⟩
    obtain ⟨hnodup, hdistinct⟩ := hhas.distinct hbody
    refine ⟨answers, (hasAnswers_iff hbody).mp hhas, hkeys,
      fun name => hnames.mem_iff, ?_⟩
    intro request hmem
    obtain ⟨answer, result, hanswer, hresult⟩ := hfits request hmem
    exact ⟨answer, (Value.last?_eq_some_iff hnodup).mpr hanswer,
      (answerFits_iff_answers (hdistinct _ hanswer)).mpr ⟨result, hresult⟩⟩

end Distinct

/-! ## The answers of an accepted response -/

theorem parseAnswers_forall₂ {answers : Members Wire}
    {requests : List JudgmentRequest} {parsed : List ProviderAnswer}
    (h : parseAnswers answers requests = .ok parsed) :
    List.Forall₂ (fun request answer =>
      answer.requestKey = request.requestKey ∧
        parseAnswer request ((answers.get? request.requestKey).getD .null) =
          .ok answer.result) requests parsed := by
  induction requests generalizing parsed with
  | nil =>
      obtain rfl := Except.ok.inj h
      exact .nil
  | cons request rest ih =>
      rw [parseAnswers] at h
      split at h
      · cases h
      rename_i result hresult
      split at h
      · cases h
      rename_i later hlater
      obtain rfl := Except.ok.inj h
      exact .cons ⟨rfl, hresult⟩ (ih hlater)

theorem answerTo_of_ok {p : TypesafeProvider}
    {requests : List JudgmentRequest} {body : Wire}
    {response : ProviderBatchResult} (hbody : body.DistinctNames)
    (h : p.parseBatchResponse requests (some body) = .ok response) :
    List.Forall₂ (AnswerTo body) requests response.answers := by
  obtain ⟨answers, hanswers, -, hpresent, hparsed, -⟩ := parseBatchResponse_ok h
  have hhas := (hasAnswers_iff hbody).mpr hanswers
  obtain ⟨hnodup, hdistinct⟩ := hhas.distinct hbody
  have hstep : ∀ request ∈ requests, ∀ answer : ProviderAnswer,
      answer.requestKey = request.requestKey ∧
        parseAnswer request
          (((collapsed answers).get? request.requestKey).getD .null) =
            .ok answer.result → AnswerTo body request answer := by
    intro request hmem answer hanswer
    obtain ⟨hkey, hresult⟩ := hanswer
    obtain ⟨value, hvalue⟩ :=
      Option.isSome_iff_exists.mp (hpresent request hmem)
    have hget := hvalue
    rw [get?_collapsed] at hget
    obtain ⟨tree, htree, rfl⟩ := Option.map_eq_some_iff.mp hget
    rw [hvalue, Option.getD_some] at hresult
    have hmember := (Value.last?_eq_some_iff hnodup).mp htree
    exact ⟨hkey, answers, tree, hhas, hmember,
      (answers_iff (hdistinct _ hmember)).mpr hresult⟩
  have hmembers : List.Forall₂ (fun request answer => request ∈ requests ∧
      answer.requestKey = request.requestKey ∧
        parseAnswer request
          (((collapsed answers).get? request.requestKey).getD .null) =
            .ok answer.result) requests response.answers :=
    (List.forall₂_and_left requests response.answers).mpr
      ⟨fun _ hmem => hmem, parseAnswers_forall₂ hparsed⟩
  exact hmembers.imp fun request answer h => hstep request h.1 answer h.2

/-! ## Unknown members -/

/-- A value without the members of other names. -/
def restrict (known : List String) : Wire → Wire
  | .object members => .object (Members.restrict known members)
  | value => value

/-- The answers with the members which the protocol names. -/
def knownAnswers : Wire → Wire
  | .object answers => .object (Members.mapValues
      (fun _ answer => restrict ["type", "noul", "choice"] answer) answers)
  | value => value

/-- A body with the members which the protocol names. -/
def knownMembers : Wire → Wire
  | .object members => .object (Members.mapValues
      (fun name value =>
        if name = "answers" then knownAnswers value
        else if name = "usage" then
          restrict ["input_tokens", "output_tokens"] value
        else value)
      (Members.restrict ["answers", "model", "usage"] members))
  | value => value

theorem asObject_restrict (known : List String) (value : Wire) :
    (restrict known value).asObject =
      value.asObject.map (Members.restrict known) := by
  cases value <;> rfl

theorem collapse_restrict (known : List String) (value : Wire) :
    (restrict known value).collapse = restrict known value.collapse := by
  cases value with
  | object members =>
      have hmembers : Value.collapseMembers (Members.restrict known members) =
          Members.restrict known (Value.collapseMembers members) := by
        rw [Value.collapseMembers_eq_map, Value.collapseMembers_eq_map,
          Members.restrict, Members.restrict, List.filter_map]
        rfl
      simp only [restrict, Value.collapse, hmembers,
        Members.ofEntries_restrict]
  | _ => rfl

/-- Changes which commute with reading texts as maps may be made before. -/
theorem collapse_mapValues {f : String → Wire → Wire}
    (hf : ∀ name value, (f name value).collapse = f name value.collapse)
    (members : Members Wire) :
    (Value.object (Members.mapValues f members)).collapse =
      .object (Members.mapValues f
        (Members.ofEntries (Value.collapseMembers members))) := by
  have hmembers : Value.collapseMembers (Members.mapValues f members) =
      Members.mapValues f (Value.collapseMembers members) := by
    rw [Value.collapseMembers_eq_map, Value.collapseMembers_eq_map,
      Members.mapValues, Members.mapValues, List.map_map, List.map_map]
    refine List.map_congr_left fun member _ => ?_
    simp [hf]
  rw [Value.collapse, hmembers, Members.ofEntries_mapValues]

theorem collapse_knownAnswers (value : Wire) :
    (knownAnswers value).collapse = knownAnswers value.collapse := by
  cases value with
  | object answers =>
      exact collapse_mapValues (fun _ answer => collapse_restrict _ answer)
        answers
  | _ => rfl

theorem collapse_knownMembers (value : Wire) :
    (knownMembers value).collapse = knownMembers value.collapse := by
  cases value with
  | object members =>
      have hrestrict := collapse_restrict ["answers", "model", "usage"]
        (.object members)
      simp only [restrict, Value.collapse, Value.object.injEq] at hrestrict
      unfold knownMembers
      dsimp only
      rw [collapse_mapValues, hrestrict]
      · rfl
      · intro name value
        split
        · exact collapse_knownAnswers value
        split
        · exact collapse_restrict _ value
        · rfl
  | _ => rfl

/-! ### What the checks look at -/

theorem get_answers_knownMembers (value : Wire) :
    (knownMembers value).get "answers" =
      (value.get "answers").map knownAnswers := by
  cases value with
  | object members =>
      simp [knownMembers, Value.get, Members.get?_mapValues,
        Members.get?_restrict]
  | _ => rfl

theorem get_model_knownMembers (value : Wire) :
    (knownMembers value).get "model" = value.get "model" := by
  cases value with
  | object members =>
      simp [knownMembers, Value.get, Members.get?_mapValues,
        Members.get?_restrict]
  | _ => rfl

theorem get_usage_knownMembers (value : Wire) :
    (knownMembers value).get "usage" =
      (value.get "usage").map
        (restrict ["input_tokens", "output_tokens"]) := by
  cases value with
  | object members =>
      simp [knownMembers, Value.get, Members.get?_mapValues,
        Members.get?_restrict]
  | _ => rfl

theorem responseMetadata_knownMembers (p : TypesafeProvider) (value : Wire) :
    p.responseMetadata (knownMembers value) = p.responseMetadata value := by
  unfold responseMetadata
  rw [get_model_knownMembers, get_usage_knownMembers]
  cases value.get "usage" with
  | none => rfl
  | some usage =>
      simp only [Option.map_some, Option.bind_some, asObject_restrict,
        Option.map_map]
      cases usage.asObject with
      | none => rfl
      | some members => simp [Members.get?_restrict]

theorem typedAnswerValue_restrict {known : List String}
    {expectedType valueField : String} (htype : "type" ∈ known)
    (hfield : valueField ∈ known) (answer : Wire) :
    typedAnswerValue (restrict known answer) expectedType valueField =
      typedAnswerValue answer expectedType valueField := by
  cases answer with
  | object members =>
      simp only [typedAnswerValue, restrict, Value.asObject,
        Members.get?_restrict htype, Members.get?_restrict hfield]
  | _ => rfl

theorem parseAnswer_restrict (request : JudgmentRequest) (answer : Wire) :
    parseAnswer request (restrict ["type", "noul", "choice"] answer) =
      parseAnswer request answer := by
  cases hkind : request.kind with
  | noul =>
      simp only [parseAnswer, hkind, parseNoul]
      rw [typedAnswerValue_restrict (by simp) (by simp)]
  | choice =>
      simp only [parseAnswer, hkind, parseChoice]
      rw [typedAnswerValue_restrict (by simp) (by simp)]

theorem parseAnswers_knownAnswers (answers : Members Wire)
    (requests : List JudgmentRequest) :
    parseAnswers (Members.mapValues
        (fun _ answer => restrict ["type", "noul", "choice"] answer) answers)
        requests =
      parseAnswers answers requests := by
  induction requests with
  | nil => rfl
  | cons request rest ih =>
      have hanswer : parseAnswer request (((Members.mapValues
          (fun _ answer => restrict ["type", "noul", "choice"] answer)
          answers).get? request.requestKey).getD .null) =
        parseAnswer request
          ((answers.get? request.requestKey).getD .null) := by
        rw [Members.get?_mapValues]
        cases answers.get? request.requestKey with
        | none => rfl
        | some answer => exact parseAnswer_restrict request answer
      rw [parseAnswers, parseAnswers, hanswer, ih]

/-- Unknown members change nothing, neither answers nor errors. -/
theorem parseBatchResponse_knownMembers (p : TypesafeProvider)
    (requests : List JudgmentRequest) (body : Wire) :
    p.parseBatchResponse requests (some (knownMembers body)) =
      p.parseBatchResponse requests (some body) := by
  have hobject : ∀ value : Option Wire,
      (value.map knownAnswers).bind Value.asObject =
        (value.bind Value.asObject).map (Members.mapValues
          fun _ answer => restrict ["type", "noul", "choice"] answer) := by
    intro value
    cases value with
    | none => rfl
    | some value => cases value <;> rfl
  unfold parseBatchResponse
  simp only [collapse_knownMembers, get_answers_knownMembers, hobject,
    responseMetadata_knownMembers]
  cases (body.collapse.get "answers").bind Value.asObject with
  | none => rfl
  | some answers =>
      simp only [Option.map_some, Members.length_mapValues,
        Members.get?_mapValues, Option.isNone_map, parseAnswers_knownAnswers]

/-- The order of the members changes nothing. -/
theorem parseBatchResponse_reordered (p : TypesafeProvider)
    (requests : List JudgmentRequest) {body body' : Wire}
    (hbody : body.DistinctNames) (h : Value.Reordered body body') :
    p.parseBatchResponse requests (some body') =
      p.parseBatchResponse requests (some body) := by
  unfold parseBatchResponse
  simp only [(h.collapse_eq hbody).2]

/-- A body is the syntax tree of a text which `serde_json::from_str` reads;
the texts which it refuses have no tree, and are turned down.  A body without
repeated names is accepted exactly if it has the format of a response, and
then the answers are, in request order, those under the keys of the requests.
Neither the order of the members nor members of other names change the
outcome. -/
theorem parseBatchResponse_exact (p : TypesafeProvider)
    (requests : List JudgmentRequest)
    (hkeys : (requests.map JudgmentRequest.requestKey).Nodup) (body : Wire)
    (hbody : body.DistinctNames) :
    ((∃ response, p.parseBatchResponse requests (some body) = .ok response) ↔
        WellAnswered requests body) ∧
      (∀ response, p.parseBatchResponse requests (some body) = .ok response →
        List.Forall₂ (AnswerTo body) requests response.answers) ∧
      (∀ body', Value.Reordered body body' →
        p.parseBatchResponse requests (some body') =
          p.parseBatchResponse requests (some body)) ∧
      ∀ body', knownMembers body' = knownMembers body →
        p.parseBatchResponse requests (some body') =
          p.parseBatchResponse requests (some body) := by
  refine ⟨?_, ?_, ?_, ?_⟩
  · rw [p.parseBatchResponse_ok_iff, lastAnswersFit_iff hkeys hbody]
  · intro response h
    exact answerTo_of_ok hbody h
  · intro body' h
    exact p.parseBatchResponse_reordered requests hbody h
  · intro body' h
    rw [← p.parseBatchResponse_knownMembers requests body', h,
      p.parseBatchResponse_knownMembers]

/-- A body with one answer and a member which the protocol does not name. -/
def annotatedBody : Wire :=
  .object [("note", .null), ("answers", .object [("r0", noulAnswer .half)])]

theorem annotatedBody_distinctNames : annotatedBody.DistinctNames := by
  simp [annotatedBody, noulAnswer, Value.distinctNames_object, Members.names,
    Value.DistinctNames.null, Value.DistinctNames.string,
    Value.DistinctNames.number]

theorem parseBatchResponse_exact_annotated :
    ((∃ response, parseBatchResponse ⟨"jev-latest", none⟩ [textRequest "a"]
          (some annotatedBody) = .ok response) ↔
        WellAnswered [textRequest "a"] annotatedBody) ∧
      parseBatchResponse ⟨"jev-latest", none⟩ [textRequest "a"]
          (some (.object [("answers", .object [("r0", noulAnswer .half)])])) =
        parseBatchResponse ⟨"jev-latest", none⟩ [textRequest "a"]
          (some annotatedBody) := by
  obtain ⟨haccepted, -, -, hknown⟩ :=
    parseBatchResponse_exact ⟨"jev-latest", none⟩ [textRequest "a"]
      (List.nodup_singleton _) annotatedBody annotatedBody_distinctNames
  exact ⟨haccepted, hknown _ rfl⟩

end TypesafeProvider

end DuckJeu
