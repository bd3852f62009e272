import DuckJeu.Core.Canonical

/-!
# Judgments

This module follows `judgment.rs`: judgment requests and their validation,
the semantic identity of a judgment, and the checks made on a result before
it is reused or written.
-/

namespace DuckJeu

/-! ## Errors -/

inductive ErrorKind where
  | invalidInput
  | invalidResponse
  | provider
  | configuration
  deriving DecidableEq

structure JudgmentError where
  kind : ErrorKind
  message : String
  deriving DecidableEq

namespace JudgmentError

def invalidInput (message : String) : JudgmentError :=
  ⟨.invalidInput, message⟩

def invalidResponse (message : String) : JudgmentError :=
  ⟨.invalidResponse, message⟩

def provider (message : String) : JudgmentError :=
  ⟨.provider, message⟩

def configuration (message : String) : JudgmentError :=
  ⟨.configuration, message⟩

end JudgmentError

/-! ## Requests -/

/-- The request key of a request which carries a single question. -/
def defaultRequestKey : String := "r0"

inductive QuestionKind where
  | noul
  | choice
  deriving DecidableEq

structure JudgmentRequest where
  kind : QuestionKind
  state : CanonicalState
  criterion : Option String
  question : Option String
  choices : List String
  requestKey : String

/-- `char::is_whitespace`: the Unicode property White_Space. -/
def isWhitespace (c : Char) : Bool :=
  (0x09 ≤ c.toNat && c.toNat ≤ 0x0D) || (0x2000 ≤ c.toNat && c.toNat ≤ 0x200A)
    || c.toNat ∈ [0x20, 0x85, 0xA0, 0x1680, 0x2028, 0x2029, 0x202F, 0x205F,
      0x3000]

/-- `s.trim().is_empty()`. -/
def isBlank (s : String) : Bool := s.toList.all isWhitespace

namespace JudgmentRequest

/-- A noul request. -/
def noul (state : CanonicalState) (criterion : String) :
    Except JudgmentError JudgmentRequest :=
  if isBlank criterion then
    .error (.invalidInput "criterion must not be empty or whitespace")
  else .ok
    { kind := .noul
      state := state
      criterion := some criterion
      question := none
      choices := []
      requestKey := defaultRequestKey }

/-- The loop over the labels; `seen` holds the labels before the current
one. -/
def checkLabels (seen : List String) : List String → Except JudgmentError Unit
  | [] => .ok ()
  | label :: rest =>
      if isBlank label then
        .error (.invalidInput
          "choices must not contain empty or whitespace labels")
      else if seen.contains label then
        .error (.invalidInput "choices must not contain duplicate labels")
      else checkLabels (seen ++ [label]) rest

/-- A choice request. -/
def choice (state : CanonicalState) (question : String)
    (choices : List String) : Except JudgmentError JudgmentRequest :=
  if isBlank question then
    .error (.invalidInput "question must not be empty or whitespace")
  else if choices.length < 2 then
    .error (.invalidInput "choices must contain at least two labels")
  else
    match checkLabels [] choices with
    | .error e => .error e
    | .ok () => .ok
        { kind := .choice
          state := state
          criterion := none
          question := some question
          choices := choices
          requestKey := defaultRequestKey }

end JudgmentRequest

/-! ## Identities -/

/-- Non-secret provider context which scopes an identity. -/
structure JudgmentIdentityContext where
  providerNamespace : String
  endpoint : String
  requestedModel : String
  effectiveModel : Option String
  credentialScope : ℕ
  modelBindingScope : ℕ

/-- Complete semantic identity of a judgment. -/
structure JudgmentIdentity where
  canonicalVersion : ℕ
  stateKind : StateKind
  canonicalBytes : List UInt8
  questionKind : QuestionKind
  criterion : Option String
  question : Option String
  choices : List String
  providerNamespace : String
  endpoint : String
  requestedModel : String
  effectiveModel : Option String
  credentialScope : ℕ
  unresolvedModelScope : Option ℕ
  deriving DecidableEq

namespace JudgmentIdentity

def new (request : JudgmentRequest) (context : JudgmentIdentityContext) :
    JudgmentIdentity where
  canonicalVersion := request.state.canonicalVersion
  stateKind := request.state.kind
  canonicalBytes := request.state.canonical
  questionKind := request.kind
  criterion := request.criterion
  question := request.question
  choices := request.choices
  providerNamespace := context.providerNamespace
  endpoint := context.endpoint
  requestedModel := context.requestedModel
  effectiveModel := context.effectiveModel
  credentialScope := context.credentialScope
  unresolvedModelScope :=
    if context.effectiveModel.isNone then some context.modelBindingScope
    else none

/-- Whether two identities may share one provider batch. -/
def sameBatchContext (a b : JudgmentIdentity) : Bool :=
  decide (a.canonicalVersion = b.canonicalVersion) &&
    decide (a.questionKind = b.questionKind) &&
    decide (a.criterion = b.criterion) &&
    decide (a.question = b.question) &&
    decide (a.choices = b.choices) &&
    decide (a.providerNamespace = b.providerNamespace) &&
    decide (a.endpoint = b.endpoint) &&
    decide (a.requestedModel = b.requestedModel) &&
    decide (a.effectiveModel = b.effectiveModel) &&
    decide (a.credentialScope = b.credentialScope) &&
    decide (a.unresolvedModelScope = b.unresolvedModelScope)

end JudgmentIdentity

/-! ## Results -/

inductive JudgmentResult where
  | noul (p : F64)
  | choice (label : String)
  deriving DecidableEq

/-- A probability is a finite value in `[0,1]`. -/
def validateProbability (value : F64) : Except JudgmentError F64 :=
  if !value.isFinite then
    .error (.invalidResponse "provider returned a non-finite probability")
  else if !(F64.le .zero value && F64.le value .one) then
    .error (.invalidResponse
      "provider returned a probability outside [0,1]")
  else .ok value

/-- A label is an exact member of the candidate set. -/
def validateLabel (label : String) (choices : List String) :
    Except JudgmentError String :=
  if choices.any (fun c => c == label) then .ok label
  else
    .error (.invalidResponse
      "provider returned a label outside the candidate set")

/-- Validate an adapter result before it is reused or written. -/
def validateJudgmentResult (request : JudgmentRequest)
    (result : JudgmentResult) : Except JudgmentError Unit :=
  match request.kind, result with
  | .noul, .noul probability =>
      match validateProbability probability with
      | .error e => .error e
      | .ok _ => .ok ()
  | .choice, .choice label =>
      match validateLabel label request.choices with
      | .error e => .error e
      | .ok _ => .ok ()
  | _, _ =>
      .error (.invalidResponse
        "provider result type does not match the requested judgment")

/-- The result lies in the domain of the request. -/
def ValidFor (request : JudgmentRequest) (result : JudgmentResult) : Prop :=
  validateJudgmentResult request result = .ok ()

instance (request : JudgmentRequest) (result : JudgmentResult) :
    Decidable (ValidFor request result) :=
  inferInstanceAs (Decidable (_ = _))

/-- Validation looks at the kind and the choices of a request only. -/
theorem validateJudgmentResult_congr {request request' : JudgmentRequest}
    (hkind : request.kind = request'.kind)
    (hchoices : request.choices = request'.choices)
    (result : JudgmentResult) :
    validateJudgmentResult request result =
      validateJudgmentResult request' result := by
  simp only [validateJudgmentResult, hkind, hchoices]

theorem ValidFor.congr {request request' : JudgmentRequest}
    {result : JudgmentResult} (h : ValidFor request result)
    (hkind : request.kind = request'.kind)
    (hchoices : request.choices = request'.choices) :
    ValidFor request' result := by
  unfold ValidFor
  rw [← validateJudgmentResult_congr hkind hchoices]
  exact h

/-- The result is of the kind of the request and in its domain: a finite
number from zero to one, or a candidate label. -/
def JudgmentRequest.InDomain (request : JudgmentRequest) :
    JudgmentResult → Prop
  | .noul p => request.kind = .noul ∧ p.isFinite = true ∧
      F64.le .zero p = true ∧ F64.le p .one = true
  | .choice label => request.kind = .choice ∧ label ∈ request.choices

theorem validateProbability_isOk {value : F64} :
    (∃ p, validateProbability value = .ok p) ↔ value.isFinite = true ∧
      F64.le .zero value = true ∧ F64.le value .one = true := by
  unfold validateProbability
  by_cases hfinite : value.isFinite = true
  · by_cases hrange : F64.le .zero value = true ∧ F64.le value .one = true
    · simp [hfinite, hrange]
    · have hout : (F64.le .zero value && F64.le value .one) = false := by
        simpa using hrange
      simp [hfinite, hrange, hout]
  · simp [hfinite]

theorem validateLabel_isOk {label : String} {choices : List String} :
    (∃ l, validateLabel label choices = .ok l) ↔ label ∈ choices := by
  unfold validateLabel
  by_cases hmem : label ∈ choices
  · simp [hmem]
  · simp [hmem]

theorem validFor_iff {request : JudgmentRequest} {result : JudgmentResult} :
    ValidFor request result ↔ request.InDomain result := by
  cases result with
  | noul p =>
      cases hkind : request.kind with
      | choice =>
          simp [ValidFor, validateJudgmentResult, JudgmentRequest.InDomain,
            hkind]
      | noul =>
          simp only [ValidFor, validateJudgmentResult,
            JudgmentRequest.InDomain, hkind, true_and,
            ← validateProbability_isOk]
          cases validateProbability p with
          | error e => simp
          | ok q => simp
  | choice label =>
      cases hkind : request.kind with
      | noul =>
          simp [ValidFor, validateJudgmentResult, JudgmentRequest.InDomain,
            hkind]
      | choice =>
          simp only [ValidFor, validateJudgmentResult,
            JudgmentRequest.InDomain, hkind, true_and,
            ← validateLabel_isOk]
          cases validateLabel label request.choices with
          | error e => simp
          | ok l => simp

/-! ## Well-formed requests -/

/-- The requests which the constructors build over encoded states. -/
def WellFormed (W : WireText) (request : JudgmentRequest) : Prop :=
  ∃ state, Encoded W state ∧
    ((∃ criterion, JudgmentRequest.noul state criterion = .ok request) ∨
      ∃ question choices,
        JudgmentRequest.choice state question choices = .ok request)

theorem noul_ok {state : CanonicalState} {criterion : String}
    {request : JudgmentRequest}
    (h : JudgmentRequest.noul state criterion = .ok request) :
    request =
      { kind := .noul
        state := state
        criterion := some criterion
        question := none
        choices := []
        requestKey := defaultRequestKey } := by
  unfold JudgmentRequest.noul at h
  split at h
  · cases h
  · exact (Except.ok.inj h).symm

theorem choice_ok {state : CanonicalState} {question : String}
    {choices : List String} {request : JudgmentRequest}
    (h : JudgmentRequest.choice state question choices = .ok request) :
    request =
      { kind := .choice
        state := state
        criterion := none
        question := some question
        choices := choices
        requestKey := defaultRequestKey } := by
  unfold JudgmentRequest.choice at h
  split at h
  · cases h
  split at h
  · cases h
  split at h
  · cases h
  · exact (Except.ok.inj h).symm

theorem WellFormed.encoded {W : WireText} {request : JudgmentRequest}
    (h : WellFormed W request) : Encoded W request.state := by
  obtain ⟨state, hstate, ⟨criterion, hreq⟩ | ⟨question, choices, hreq⟩⟩ := h
  · rw [noul_ok hreq]
    exact hstate
  · rw [choice_ok hreq]
    exact hstate

theorem WellFormed.requestKey {W : WireText} {request : JudgmentRequest}
    (h : WellFormed W request) : request.requestKey = defaultRequestKey := by
  obtain ⟨state, -, ⟨criterion, hreq⟩ | ⟨question, choices, hreq⟩⟩ := h
  · rw [noul_ok hreq]
  · rw [choice_ok hreq]

/-- What is valid for a request, is valid for all requests with its
identity. -/
theorem ValidFor.of_identity {request request' : JudgmentRequest}
    {context context' : JudgmentIdentityContext} {result : JudgmentResult}
    (h : ValidFor request result)
    (hidentity : JudgmentIdentity.new request context =
      JudgmentIdentity.new request' context') : ValidFor request' result :=
  h.congr (congrArg JudgmentIdentity.questionKind hidentity)
    (congrArg JudgmentIdentity.choices hidentity)

/-- Within one context, equal identities come from equal requests. -/
theorem WellFormed.eq_of_identity {W : WireText}
    {request request' : JudgmentRequest} {context : JudgmentIdentityContext}
    (hrequest : WellFormed W request) (hrequest' : WellFormed W request')
    (h : JudgmentIdentity.new request context =
      JudgmentIdentity.new request' context) : request = request' := by
  have hstate : request.state = request'.state :=
    hrequest.encoded.eq_of_canonical hrequest'.encoded
      (congrArg JudgmentIdentity.stateKind h)
      (congrArg JudgmentIdentity.canonicalBytes h)
  have hkind : request.kind = request'.kind :=
    congrArg JudgmentIdentity.questionKind h
  have hcriterion : request.criterion = request'.criterion :=
    congrArg JudgmentIdentity.criterion h
  have hquestion : request.question = request'.question :=
    congrArg JudgmentIdentity.question h
  have hchoices : request.choices = request'.choices :=
    congrArg JudgmentIdentity.choices h
  have hkey : request.requestKey = request'.requestKey :=
    hrequest.requestKey.trans hrequest'.requestKey.symm
  cases request
  cases request'
  simp_all

/-! ## Judgments about a text -/

/-- The noul request which asks one fixed question about a text. -/
def textRequest (text : String) : JudgmentRequest where
  kind := .noul
  state := encodeText text
  criterion := some "the text is a complaint"
  question := none
  choices := []
  requestKey := defaultRequestKey

/-- A choice between two labels about a text. -/
def labelRequest (text : String) : JudgmentRequest where
  kind := .choice
  state := encodeText text
  criterion := none
  question := some "which label fits"
  choices := ["x", "y"]
  requestKey := defaultRequestKey

theorem noul_textRequest (text : String) :
    JudgmentRequest.noul (encodeText text) "the text is a complaint" =
      .ok (textRequest text) := by
  rw [JudgmentRequest.noul, if_neg (by decide)]
  rfl

theorem choice_labelRequest (text : String) :
    JudgmentRequest.choice (encodeText text) "which label fits" ["x", "y"] =
      .ok (labelRequest text) := by
  have hlabels : JudgmentRequest.checkLabels [] ["x", "y"] = .ok () := by decide
  rw [JudgmentRequest.choice, if_neg (by decide), if_neg (by decide), hlabels]
  rfl

theorem wellFormed_textRequest {W : WireText} (text : String) :
    WellFormed W (textRequest text) :=
  ⟨encodeText text, Or.inl ⟨text, rfl⟩,
    Or.inl ⟨"the text is a complaint", noul_textRequest text⟩⟩

/-- A context in which the effective model is not known. -/
def aliasContext : JudgmentIdentityContext where
  providerNamespace := "mock"
  endpoint := ""
  requestedModel := "jev-latest"
  effectiveModel := none
  credentialScope := 1
  modelBindingScope := 0

def textIdentity (text : String) : JudgmentIdentity :=
  .new (textRequest text) aliasContext

end DuckJeu
