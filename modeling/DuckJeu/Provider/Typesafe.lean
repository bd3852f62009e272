import DuckJeu.Core.Provider
import DuckJeu.Core.WireValue

/-!
# Request bodies of the TypeSafe adapter

This module follows `build_body` and `build_batch_body` of `typesafe.rs`.  A
single judgment and a composite batch are built by two functions with texts
of their own.  `compositeBody` is the one formula which both of them follow;
what a body associates with a row is read off it.
-/

namespace DuckJeu

open Json (Members Value)

/-- The fields of the adapter on which its bodies depend. -/
structure TypesafeProvider where
  model : String
  maxChoices : Option ℕ

namespace TypesafeProvider

/-! ## Building -/

/-- A text state is its text, a struct state its node object. -/
def stateRow (request : JudgmentRequest) : Wire :=
  match request.state.value with
  | .text text => .string text
  | other => toJsonValue other

/-- One `null` member for each label. -/
def criteria (choices : List String) : Wire :=
  object (choices.map fun label => (label, .null))

/-- The body of a single judgment. -/
def buildBody (p : TypesafeProvider) (request : JudgmentRequest) : Wire :=
  let row := stateRow request
  let (state, question) : Members Wire × Members Wire :=
    match request.kind with
    | .noul =>
        ([("rows", .array [row]),
          ("condition", .string (request.criterion.getD ""))],
         [("type", .string "noul"),
          ("instructions", .string
            ("Evaluate whether state.condition holds for state.rows[0]. " ++
              "Answer with the probability that it holds."))])
    | .choice =>
        ([("rows", .array [row])],
         [("criteria", criteria request.choices),
          ("type", .string "choice"),
          ("instructions", .string
            ("Caller question: " ++ request.question.getD "" ++
              ("\nSelect the single candidate label that best answers this " ++
                "question for state.rows[0].")))])
  object
    [("model", .string p.model),
     ("state", object state),
     ("questions", object [(request.requestKey, object question)])]

def checkRequestCapabilities (p : TypesafeProvider)
    (request : JudgmentRequest) : Except JudgmentError Unit :=
  if p.maxChoices.any fun maximum =>
      decide (request.kind = .choice) &&
        decide (maximum < request.choices.length)
  then
    .error (.configuration "choice count exceeds the verified provider limit")
  else .ok ()

/-- The checks of a batch in request order; `keys` holds the keys of the
requests before the current one. -/
def checkBatch (p : TypesafeProvider) (first : JudgmentRequest)
    (keys : List String) : List JudgmentRequest → Except JudgmentError Unit
  | [] => .ok ()
  | request :: rest =>
      match p.checkRequestCapabilities request with
      | .error e => .error e
      | .ok () =>
          if keys.contains request.requestKey then
            .error (.configuration
              "TypeSafe batch question keys must be unique")
          else if request.kind ≠ first.kind ∨
              request.criterion ≠ first.criterion ∨
              request.question ≠ first.question ∨
              request.choices ≠ first.choices then
            .error (.configuration
              ("TypeSafe batch judgments must share one compatible " ++
                "question context"))
          else p.checkBatch first (request.requestKey :: keys) rest

/-- The question about one row of a batch. -/
def batchQuestion (rowIndex : ℕ) (request : JudgmentRequest) :
    Except JudgmentError Wire :=
  match request.kind with
  | .noul => .ok (object
      [("type", .string "noul"),
       ("instructions", .string
         ("Evaluate whether state.condition holds for state.rows[" ++
           toString rowIndex ++
           "]. Answer with the probability that it holds."))])
  | .choice =>
      match request.question with
      | none =>
          .error
            (.configuration "TypeSafe choice batch is missing its question")
      | some callerQuestion => .ok (object
          [("criteria", criteria request.choices),
           ("type", .string "choice"),
           ("instructions", .string
             ("Caller question: " ++ callerQuestion ++
               ("\nSelect the single candidate label that best answers this " ++
                 "question for state.rows[") ++
               toString rowIndex ++ "]."))])

/-- The questions of a batch, in the order in which they are inserted. -/
def batchQuestions (rowIndex : ℕ) :
    List JudgmentRequest → Except JudgmentError (Members Wire)
  | [] => .ok []
  | request :: rest =>
      match batchQuestion rowIndex request with
      | .error e => .error e
      | .ok question =>
          match batchQuestions (rowIndex + 1) rest with
          | .error e => .error e
          | .ok questions => .ok ((request.requestKey, question) :: questions)

/-- The state of a batch without its rows. -/
def batchCondition (first : JudgmentRequest) :
    Except JudgmentError (Members Wire) :=
  match first.kind with
  | .noul =>
      match first.criterion with
      | none =>
          .error (.configuration "TypeSafe noul batch is missing its criterion")
      | some condition => .ok [("condition", .string condition)]
  | .choice => .ok []

/-- The body of a composite batch; a single request is delegated. -/
def buildBatchBody (p : TypesafeProvider) :
    List JudgmentRequest → Except JudgmentError Wire
  | [] =>
      .error (.configuration
        "TypeSafe batch must contain at least one judgment")
  | [first] => .ok (p.buildBody first)
  | first :: second :: rest =>
      let requests := first :: second :: rest
      match p.checkBatch first [] requests with
      | .error e => .error e
      | .ok () =>
          match batchCondition first with
          | .error e => .error e
          | .ok condition =>
              match batchQuestions 0 requests with
              | .error e => .error e
              | .ok questions => .ok (object
                  [("model", .string p.model),
                   ("state", object
                     (("rows", .array (requests.map stateRow)) :: condition)),
                   ("questions", object questions)])

end TypesafeProvider

/-! ## Requests with keys of their own -/

/-- A request from a constructor, under any request key. -/
def Built (request : JudgmentRequest) : Prop :=
  ∃ state built,
    ((∃ criterion, JudgmentRequest.noul state criterion = .ok built) ∨
      ∃ question choices,
        JudgmentRequest.choice state question choices = .ok built) ∧
    request = { built with requestKey := request.requestKey }

theorem checkLabels_ok {seen labels : List String}
    (h : JudgmentRequest.checkLabels seen labels = .ok ()) :
    labels.Nodup ∧ ∀ label ∈ labels, label ∉ seen := by
  induction labels generalizing seen with
  | nil => exact ⟨List.nodup_nil, by simp⟩
  | cons label rest ih =>
      rw [JudgmentRequest.checkLabels] at h
      by_cases hblank : isBlank label = true
      · rw [if_pos hblank] at h
        cases h
      rw [if_neg hblank] at h
      by_cases hseen : seen.contains label = true
      · rw [if_pos hseen] at h
        cases h
      rw [if_neg hseen] at h
      obtain ⟨hnodup, hfresh⟩ := ih h
      have hlabel : label ∉ rest := fun hmem =>
        hfresh label hmem (List.mem_append_right _ (List.mem_singleton_self _))
      refine ⟨List.nodup_cons.mpr ⟨hlabel, hnodup⟩, ?_⟩
      intro other hother
      rcases List.mem_cons.mp hother with rfl | hother
      · exact fun hmem => hseen (List.contains_iff_mem.mpr hmem)
      · exact fun hmem => hfresh other hother (List.mem_append_left _ hmem)

/-- The labels of a choice request are distinct. -/
theorem choice_labels {state : CanonicalState} {question : String}
    {choices : List String} {request : JudgmentRequest}
    (h : JudgmentRequest.choice state question choices = .ok request) :
    choices.Nodup := by
  unfold JudgmentRequest.choice at h
  split at h
  · cases h
  split at h
  · cases h
  split at h
  · cases h
  · rename_i hlabels
    exact (checkLabels_ok hlabels).1

/-- What a built request consists of. -/
theorem Built.cases {request : JudgmentRequest} (h : Built request) :
    (request.kind = .noul ∧ (∃ criterion, request.criterion = some criterion) ∧
        request.question = none ∧ request.choices = []) ∨
      (request.kind = .choice ∧ request.criterion = none ∧
        (∃ question, request.question = some question) ∧
        request.choices.Nodup) := by
  obtain ⟨state, built, hbuilt, hrequest⟩ := h
  rcases hbuilt with ⟨criterion, hnoul⟩ | ⟨question, choices, hchoice⟩
  · rw [noul_ok hnoul] at hrequest
    rw [hrequest]
    exact Or.inl ⟨rfl, ⟨criterion, rfl⟩, rfl, rfl⟩
  · rw [choice_ok hchoice] at hrequest
    rw [hrequest]
    exact Or.inr ⟨rfl, rfl, ⟨question, rfl⟩, choice_labels hchoice⟩

end DuckJeu
