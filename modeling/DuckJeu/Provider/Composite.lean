import DuckJeu.Provider.Typesafe

/-!
# What a composite body associates with its rows

An answer is tied to its row by the question key, the position of the row in
the state, and the index in the instructions.  Both builders follow one
formula, and in it the three agree: the question under the key of request `i`
is about row `i`.
-/

namespace DuckJeu

open Json (Members Value)

namespace TypesafeProvider

/-! ## One formula for both builders -/

def typeName : QuestionKind → String
  | .noul => "noul"
  | .choice => "choice"

/-- The instructions of a kind about one row. -/
def instructions (request : JudgmentRequest) (row : ℕ) : String :=
  match request.kind with
  | .noul =>
      "Evaluate whether state.condition holds for state.rows[" ++
        toString row ++ "]. Answer with the probability that it holds."
  | .choice =>
      "Caller question: " ++ request.question.getD "" ++
        ("\nSelect the single candidate label that best answers this " ++
          "question for state.rows[") ++
        toString row ++ "]."

def questionMembers (request : JudgmentRequest) (row : ℕ) : Members Wire :=
  (match request.kind with
    | .noul => []
    | .choice => [("criteria", criteria request.choices)]) ++
    [("type", .string (typeName request.kind)),
     ("instructions", .string (instructions request row))]

def questionEntries (row : ℕ) : List JudgmentRequest → Members Wire
  | [] => []
  | request :: rest =>
      (request.requestKey, object (questionMembers request row)) ::
        questionEntries (row + 1) rest

def condition (request : JudgmentRequest) : Members Wire :=
  match request.kind with
  | .noul => [("condition", .string (request.criterion.getD ""))]
  | .choice => []

/-- The body about rows in order, whose condition is that of one request. -/
def compositeBody (p : TypesafeProvider) (first : JudgmentRequest)
    (requests : List JudgmentRequest) : Wire :=
  object
    [("model", .string p.model),
     ("state", object
       (("rows", .array (requests.map stateRow)) :: condition first)),
     ("questions", object (questionEntries 0 requests))]

theorem noul_instructions_zero :
    "Evaluate whether state.condition holds for state.rows[0]. " ++
        "Answer with the probability that it holds." =
      "Evaluate whether state.condition holds for state.rows[" ++
        toString 0 ++ "]. Answer with the probability that it holds." := by
  decide

theorem choice_instructions_zero (question : String) :
    "Caller question: " ++ question ++
        ("\nSelect the single candidate label that best answers this " ++
          "question for state.rows[0].") =
      "Caller question: " ++ question ++
        ("\nSelect the single candidate label that best answers this " ++
          "question for state.rows[") ++
        toString 0 ++ "]." := by
  rw [String.append_assoc, String.append_assoc, String.append_assoc]
  rfl

theorem buildBody_eq_compositeBody (p : TypesafeProvider)
    (request : JudgmentRequest) :
    p.buildBody request = p.compositeBody request [request] := by
  cases hkind : request.kind with
  | noul =>
      simp only [buildBody, compositeBody, condition, questionEntries,
        questionMembers, instructions, typeName, hkind, List.map_cons,
        List.map_nil, List.nil_append, noul_instructions_zero]
  | choice =>
      simp only [buildBody, compositeBody, condition, questionEntries,
        questionMembers, instructions, typeName, hkind, List.map_cons,
        List.map_nil, List.singleton_append, choice_instructions_zero]

theorem batchQuestion_eq {request : JudgmentRequest} (h : Built request)
    (row : ℕ) :
    batchQuestion row request = .ok (object (questionMembers request row)) := by
  rcases h.cases with ⟨hkind, -, -, -⟩ | ⟨hkind, -, ⟨question, hquestion⟩, -⟩
  · simp only [batchQuestion, questionMembers, instructions, typeName, hkind,
      List.nil_append]
  · simp only [batchQuestion, questionMembers, instructions, typeName, hkind,
      hquestion, Option.getD_some, List.singleton_append]

theorem batchQuestions_eq {requests : List JudgmentRequest}
    (h : ∀ request ∈ requests, Built request) (row : ℕ) :
    batchQuestions row requests = .ok (questionEntries row requests) := by
  induction requests generalizing row with
  | nil => rfl
  | cons request rest ih =>
      have hrest : ∀ other ∈ rest, Built other :=
        fun other hother => h other (List.mem_cons_of_mem _ hother)
      rw [batchQuestions, batchQuestion_eq (h request (List.mem_cons_self ..)),
        ih hrest]
      rfl

theorem batchCondition_eq {first : JudgmentRequest} (h : Built first) :
    batchCondition first = .ok (condition first) := by
  rcases h.cases with ⟨hkind, ⟨criterion, hcriterion⟩, -, -⟩ | ⟨hkind, -, -, -⟩
  · simp only [batchCondition, condition, hkind, hcriterion, Option.getD_some]
  · simp only [batchCondition, condition, hkind]

/-- The request has no more choices than the provider admits. -/
def Admits (p : TypesafeProvider) (request : JudgmentRequest) : Prop :=
  request.kind = .choice →
    ∀ maximum, p.maxChoices = some maximum → request.choices.length ≤ maximum

/-- The requests ask one question. -/
def Compatible (request request' : JudgmentRequest) : Prop :=
  request.kind = request'.kind ∧ request.criterion = request'.criterion ∧
    request.question = request'.question ∧ request.choices = request'.choices

theorem checkRequestCapabilities_eq {p : TypesafeProvider}
    {request : JudgmentRequest} (h : p.Admits request) :
    p.checkRequestCapabilities request = .ok () := by
  unfold checkRequestCapabilities
  rw [if_neg]
  intro hany
  obtain ⟨maximum, hmaximum, hover⟩ := (Option.any_eq_true _ _).mp hany
  obtain ⟨hkind, hlt⟩ := (Bool.and_eq_true_iff).mp hover
  have hle := h (of_decide_eq_true hkind) maximum hmaximum
  exact absurd (of_decide_eq_true hlt) (not_lt.mpr hle)

theorem checkBatch_eq {p : TypesafeProvider} {first : JudgmentRequest}
    {keys : List String} {requests : List JudgmentRequest}
    (hadmits : ∀ request ∈ requests, p.Admits request)
    (hcompatible : ∀ request ∈ requests, Compatible request first)
    (hnodup : (requests.map JudgmentRequest.requestKey).Nodup)
    (hfresh : ∀ request ∈ requests, request.requestKey ∉ keys) :
    p.checkBatch first keys requests = .ok () := by
  induction requests generalizing keys with
  | nil => rfl
  | cons request rest ih =>
      obtain ⟨hkey, hrest⟩ := List.nodup_cons.mp hnodup
      have hmem : request ∈ request :: rest := List.mem_cons_self ..
      have hcontains : keys.contains request.requestKey ≠ true := fun h =>
        hfresh request hmem (List.contains_iff_mem.mp h)
      obtain ⟨hkind, hcriterion, hquestion, hchoices⟩ :=
        hcompatible request hmem
      have hsame : ¬ (request.kind ≠ first.kind ∨
          request.criterion ≠ first.criterion ∨
          request.question ≠ first.question ∨
          request.choices ≠ first.choices) := by
        rw [hkind, hcriterion, hquestion, hchoices]
        simp
      rw [checkBatch, checkRequestCapabilities_eq (hadmits request hmem)]
      dsimp only
      rw [if_neg hcontains, if_neg hsame]
      refine ih (fun other h => hadmits other (List.mem_cons_of_mem _ h))
        (fun other h => hcompatible other (List.mem_cons_of_mem _ h)) hrest ?_
      intro other hother hmem
      rcases List.mem_cons.mp hmem with heq | hmem
      · exact hkey (List.mem_map.mpr ⟨other, hother, heq⟩)
      · exact hfresh other (List.mem_cons_of_mem _ hother) hmem

/-- Compatible requests are built into the one formula, alone or together. -/
theorem buildBatchBody_eq_compositeBody {p : TypesafeProvider}
    {first : JudgmentRequest} {rest : List JudgmentRequest}
    (hbuilt : ∀ request ∈ first :: rest, Built request)
    (hnodup : ((first :: rest).map JudgmentRequest.requestKey).Nodup)
    (hcompatible : ∀ request ∈ first :: rest, Compatible request first)
    (hadmits : ∀ request ∈ first :: rest, p.Admits request) :
    p.buildBatchBody (first :: rest) =
      .ok (p.compositeBody first (first :: rest)) := by
  cases rest with
  | nil => rw [buildBatchBody, buildBody_eq_compositeBody]
  | cons second rest =>
      have hchecks := checkBatch_eq hadmits hcompatible hnodup
        (fun request _ => List.not_mem_nil (a := request.requestKey))
      have hfirst : Built first := hbuilt first (List.mem_cons_self ..)
      simp only [buildBatchBody, hchecks, batchCondition_eq hfirst,
        batchQuestions_eq hbuilt, compositeBody]

/-! ## Reading the body -/

/-- What the question about one row says. -/
structure Asks (request : JudgmentRequest) (row : ℕ) (question : Wire) :
    Prop where
  type_eq : question.get "type" = some (.string (typeName request.kind))
  instructions_eq : question.get "instructions" =
    some (.string (instructions request row))
  noul_criteria : request.kind = .noul → question.get "criteria" = none
  choice_criteria : request.kind = .choice →
    ∃ labels : Members Wire, question.get "criteria" = some (.object labels) ∧
      labels.names.Perm request.choices

/-- The wire association of a body with the requests it was built from. -/
structure Associates (requests : List JudgmentRequest) (body : Wire) :
    Prop where
  rows : (body.get "state").bind (Value.get "rows") =
    some (.array (requests.map stateRow))
  noul_condition : ∀ request ∈ requests, request.kind = .noul →
    (body.get "state").bind (Value.get "condition") =
      request.criterion.map Value.string
  choice_condition : ∀ request ∈ requests, request.kind = .choice →
    (body.get "state").bind (Value.get "condition") = none
  questions : ∃ questions : Members Wire,
    body.get "questions" = some (.object questions) ∧
      questions.names.Perm (requests.map JudgmentRequest.requestKey) ∧
      ∀ (row : ℕ) (hrow : row < requests.length), ∃ question,
        Members.get? requests[row].requestKey questions = some question ∧
          Asks requests[row] row question

theorem asks_questionMembers {request : JudgmentRequest} (h : Built request)
    (row : ℕ) : Asks request row (object (questionMembers request row)) := by
  rcases h.cases with ⟨hkind, -, -, -⟩ | ⟨hkind, -, -, hlabels⟩
  · constructor
    · simp [get_object, questionMembers, hkind, Members.get?_cons]
    · simp [get_object, questionMembers, hkind, Members.get?_cons]
    · intro _
      simp [get_object, questionMembers, hkind, Members.get?_cons]
    · intro hchoice
      rw [hkind] at hchoice
      cases hchoice
  · constructor
    · simp [get_object, questionMembers, hkind, Members.get?_cons]
    · simp [get_object, questionMembers, hkind, Members.get?_cons]
    · intro hnoul
      rw [hkind] at hnoul
      cases hnoul
    · intro _
      have hcriteria : (object (questionMembers request row)).get "criteria" =
          some (criteria request.choices) := by
        simp [get_object, questionMembers, hkind, Members.get?_cons]
      refine ⟨Members.ofEntries
        (request.choices.map fun label => (label, .null)), hcriteria, ?_⟩
      · have hnames : Members.names
            (request.choices.map
              fun label => ((label, .null) : String × Wire)) =
              request.choices := by
          simp [Members.names, Function.comp_def]
        have hperm := Members.ofEntries_names_perm (hnames ▸ hlabels)
        rwa [hnames] at hperm

theorem names_questionEntries (row : ℕ) (requests : List JudgmentRequest) :
    (questionEntries row requests).names =
      requests.map JudgmentRequest.requestKey := by
  induction requests generalizing row with
  | nil => rfl
  | cons request rest ih =>
      rw [questionEntries, Members.names_cons, ih, List.map_cons]

theorem mem_questionEntries (row i : ℕ) (requests : List JudgmentRequest)
    (hi : i < requests.length) :
    (requests[i].requestKey,
        object (questionMembers requests[i] (row + i))) ∈
      questionEntries row requests := by
  induction requests generalizing row i with
  | nil => exact absurd hi (Nat.not_lt_zero i)
  | cons request rest ih =>
      cases i with
      | zero => exact List.mem_cons_self ..
      | succ i =>
          have hrest := ih (row + 1) i (Nat.lt_of_succ_lt_succ hi)
          rw [Nat.add_right_comm, Nat.add_assoc] at hrest
          exact List.mem_cons_of_mem _ hrest

theorem associates_compositeBody (p : TypesafeProvider)
    {first : JudgmentRequest} {requests : List JudgmentRequest}
    (hbuilt : ∀ request ∈ requests, Built request)
    (hnodup : (requests.map JudgmentRequest.requestKey).Nodup)
    (hcompatible : ∀ request ∈ requests, Compatible request first) :
    Associates requests (p.compositeBody first requests) := by
  have hstate : (p.compositeBody first requests).get "state" =
      some (object
        (("rows", .array (requests.map stateRow)) :: condition first)) := by
    simp [compositeBody, get_object, Members.get?_cons]
  constructor
  · rw [hstate, Option.bind_some, get_object]
    cases hkind : first.kind with
    | noul => simp [condition, hkind, Members.get?_cons]
    | choice => simp [condition, hkind, Members.get?_cons]
  · intro request hmem hnoul
    obtain ⟨hkind, hcriterion, -, -⟩ := hcompatible request hmem
    rw [hstate, Option.bind_some, get_object, hcriterion]
    rw [hnoul] at hkind
    rcases (hbuilt request hmem).cases with ⟨-, ⟨text, htext⟩, -, -⟩ | ⟨hk, -⟩
    · rw [← hcriterion, htext]
      simp [condition, ← hkind, ← hcriterion, htext, Members.get?_cons]
    · rw [hnoul] at hk
      cases hk
  · intro request hmem hchoice
    obtain ⟨hkind, -, -, -⟩ := hcompatible request hmem
    rw [hstate, Option.bind_some, get_object]
    rw [hchoice] at hkind
    simp [condition, ← hkind, Members.get?_cons]
  · have hnames := names_questionEntries 0 requests
    have hentries : (questionEntries 0 requests).names.Nodup := by
      rw [hnames]
      exact hnodup
    have hquestions : (p.compositeBody first requests).get "questions" =
        some (object (questionEntries 0 requests)) := by
      simp [compositeBody, get_object, Members.get?_cons]
    refine ⟨Members.ofEntries (questionEntries 0 requests), hquestions, ?_, ?_⟩
    · rw [← hnames]
      exact Members.ofEntries_names_perm hentries
    · intro row hrow
      have hmem := mem_questionEntries 0 row requests hrow
      rw [Nat.zero_add] at hmem
      exact ⟨_, Members.get?_ofEntries_of_mem hentries hmem,
        asks_questionMembers (hbuilt _ (List.getElem_mem hrow)) row⟩

/-- A batch of compatible judgments is built into a body in which the key,
the row and the index of every question agree; a batch of one is the body of
the single judgment. -/
theorem buildBatchBody_associates (p : TypesafeProvider)
    {requests : List JudgmentRequest} (hne : requests ≠ [])
    (hbuilt : ∀ request ∈ requests, Built request)
    (hnodup : (requests.map JudgmentRequest.requestKey).Nodup)
    (hcompatible : ∀ request ∈ requests, ∀ request' ∈ requests,
      Compatible request request')
    (hadmits : ∀ request ∈ requests, p.Admits request) :
    ∃ body, p.buildBatchBody requests = .ok body ∧ Associates requests body ∧
      ∀ request, requests = [request] → body = p.buildBody request := by
  cases requests with
  | nil => exact absurd rfl hne
  | cons first rest =>
      have hfirst : ∀ request ∈ first :: rest, Compatible request first :=
        fun request hmem =>
          hcompatible request hmem first (List.mem_cons_self ..)
      refine ⟨p.compositeBody first (first :: rest),
        buildBatchBody_eq_compositeBody hbuilt hnodup hfirst hadmits,
        associates_compositeBody p hbuilt hnodup hfirst, ?_⟩
      intro request hsingle
      obtain ⟨rfl, rfl⟩ := List.cons.inj hsingle
      rw [buildBody_eq_compositeBody]

/-! ## A batch of two rows -/

/-- A choice about a text under a request key. -/
def rowRequest (text key : String) : JudgmentRequest :=
  { labelRequest text with requestKey := key }

theorem built_rowRequest (text key : String) : Built (rowRequest text key) :=
  ⟨encodeText text, labelRequest text,
    Or.inr ⟨"which label fits", ["x", "y"], choice_labelRequest text⟩, rfl⟩

theorem buildBatchBody_associates_rows :
    ∃ body, buildBatchBody ⟨"jev-latest", some 255⟩
        [rowRequest "a" "r0", rowRequest "b" "r1"] = .ok body ∧
      Associates [rowRequest "a" "r0", rowRequest "b" "r1"] body ∧
      ∀ request, [rowRequest "a" "r0", rowRequest "b" "r1"] = [request] →
        body = buildBody ⟨"jev-latest", some 255⟩ request :=
  buildBatchBody_associates ⟨"jev-latest", some 255⟩ (by simp)
    (by simp [built_rowRequest]) (by decide)
    (by simp [Compatible, rowRequest, labelRequest])
    (by simp [Admits, rowRequest, labelRequest])

end TypesafeProvider

end DuckJeu
