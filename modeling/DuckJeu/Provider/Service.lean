import DuckJeu.Provider.Accepted
import DuckJeu.Provider.ByteCap

/-!
# The service behind an adapter

A service sees nothing of a request but the body.  What the body asks under a
key is read off the body alone, and a service judges if whatever it says under
a key is the value of what was asked there.

An adapter need not trust every response.  It refuses responses which do not
report success, those of local-jev about a shortened state, and those to
several rows which do not name the verified model.  So a judging service may
say anything in these.
-/

namespace DuckJeu

open Effects Json

/-! ## Questions on the wire -/

/-- A question about one row, as a service reads it. -/
structure WireQuestion where
  model : String
  kind : QuestionKind
  row : Wire
  text : String
  criteria : Option Wire

/-- The value of every question. -/
abbrev WireJudge := WireQuestion → JudgmentResult

namespace TypesafeProvider

/-- The instructions about a row, and about the text of the caller. -/
def wording (kind : QuestionKind) (text : String) (row : ℕ) : String :=
  match kind with
  | .noul =>
      "Evaluate whether state.condition holds for state.rows[" ++
        toString row ++ "]. Answer with the probability that it holds."
  | .choice =>
      "Caller question: " ++ text ++
        ("\nSelect the single candidate label that best answers this " ++
          "question for state.rows[") ++
        toString row ++ "]."

/-- The body asks this question under this key. -/
structure Poses (body : Wire) (key : String) (asked : WireQuestion) :
    Prop where
  model : body.get "model" = some (.string asked.model)
  question : ∃ question row rows,
    (body.get "questions").bind (Value.get key) = some question ∧
      question.get "type" = some (.string (typeName asked.kind)) ∧
      question.get "instructions" =
        some (.string (wording asked.kind asked.text row)) ∧
      question.get "criteria" = asked.criteria ∧
      (body.get "state").bind (Value.get "rows") = some (.array rows) ∧
      rows[row]? = some asked.row
  condition : asked.kind = .noul →
    (body.get "state").bind (Value.get "condition") =
      some (.string asked.text)

/-- The question which a request becomes. -/
def questionOf (p : TypesafeProvider) (request : JudgmentRequest) :
    WireQuestion where
  model := p.model
  kind := request.kind
  row := stateRow request
  text :=
    match request.kind with
    | .noul => request.criterion.getD ""
    | .choice => request.question.getD ""
  criteria :=
    match request.kind with
    | .noul => none
    | .choice => some (TypesafeProvider.criteria request.choices)

theorem instructions_eq_wording (p : TypesafeProvider)
    (request : JudgmentRequest) (row : ℕ) :
    instructions request row = wording (p.questionOf request).kind
      (p.questionOf request).text row := by
  obtain ⟨kind, state, criterion, question, choices, key⟩ := request
  cases kind with
  | noul => rfl
  | choice => rfl

/-- The requests of a body are asked under their keys. -/
theorem poses_compositeBody (p : TypesafeProvider) {first : JudgmentRequest}
    {requests : List JudgmentRequest}
    (hnodup : (requests.map JudgmentRequest.requestKey).Nodup)
    (hcompatible : ∀ request ∈ requests, Compatible request first)
    {request : JudgmentRequest} (hmem : request ∈ requests) :
    Poses (p.compositeBody first requests) request.requestKey
      (p.questionOf request) := by
  obtain ⟨row, hrow, rfl⟩ := List.getElem_of_mem hmem
  obtain ⟨hkind, hcriterion, -, -⟩ := hcompatible requests[row] hmem
  have hstate : (p.compositeBody first requests).get "state" =
      some (object
        (("rows", .array (requests.map stateRow)) :: condition first)) := by
    simp [compositeBody, get_object, Members.get?_cons]
  constructor
  · simp [compositeBody, get_object, Members.get?_cons, questionOf]
  · have hnames : (questionEntries 0 requests).names.Nodup := by
      rw [names_questionEntries]
      exact hnodup
    have hentry := mem_questionEntries 0 row requests hrow
    rw [Nat.zero_add] at hentry
    refine ⟨object (questionMembers requests[row] row), row,
      requests.map stateRow, ?_, ?_, ?_, ?_, ?_, ?_⟩
    · have hquestions : (p.compositeBody first requests).get "questions" =
          some (object (questionEntries 0 requests)) := by
        simp [compositeBody, get_object, Members.get?_cons]
      rw [hquestions]
      exact Members.get?_ofEntries_of_mem hnames hentry
    · simp [get_object, questionMembers, Members.get?_cons, questionOf]
    · rw [get_object, questionMembers, ← instructions_eq_wording]
      simp [Members.get?_cons]
    · rw [get_object, questionMembers, questionOf]
      cases hchoice : requests[row].kind with
      | noul => simp [Members.get?_cons]
      | choice => simp [Members.get?_cons]
    · rw [hstate, Option.bind_some, get_object]
      cases hfirst : first.kind with
      | noul => simp [condition, hfirst, Members.get?_cons]
      | choice => simp [condition, hfirst, Members.get?_cons]
    · simp [questionOf, hrow]
  · intro hnoul
    have hfirst : first.kind = .noul := hkind.symm.trans hnoul
    rw [hstate, Option.bind_some, get_object]
    have hrow : requests[row].kind = .noul := hnoul
    simp [condition, hfirst, Members.get?_cons, questionOf, hrow, hcriterion]

/-! ## Bodies which are built -/

theorem checkBatch_ok {p : TypesafeProvider} {first : JudgmentRequest}
    {keys : List String} {requests : List JudgmentRequest}
    (h : p.checkBatch first keys requests = .ok ()) :
    (requests.map JudgmentRequest.requestKey).Nodup ∧
      (∀ request ∈ requests, request.requestKey ∉ keys) ∧
      ∀ request ∈ requests, Compatible request first := by
  induction requests generalizing keys with
  | nil => simp
  | cons request rest ih =>
      rw [checkBatch] at h
      split at h
      · cases h
      split at h
      · cases h
      rename_i hcontains
      split at h
      · cases h
      rename_i hsame
      obtain ⟨hnodup, hfresh, hcompatible⟩ := ih h
      have hkey : request.requestKey ∉ keys := fun hmem =>
        hcontains (List.contains_iff_mem.mpr hmem)
      have hcompatible' : Compatible request first := by
        unfold Compatible
        tauto
      refine ⟨?_, ?_, ?_⟩
      · refine List.nodup_cons.mpr ⟨fun hmem => ?_, hnodup⟩
        obtain ⟨other, hother, hkey⟩ := List.mem_map.mp hmem
        exact hfresh other hother (hkey ▸ List.mem_cons_self ..)
      · refine List.forall_mem_cons.mpr ⟨hkey, fun other hother hmem => ?_⟩
        exact hfresh other hother (List.mem_cons_of_mem _ hmem)
      · exact List.forall_mem_cons.mpr ⟨hcompatible', hcompatible⟩

theorem batchQuestions_ok {requests : List JudgmentRequest} {row : ℕ}
    {questions : Members Wire}
    (h : batchQuestions row requests = .ok questions) :
    questions = questionEntries row requests := by
  induction requests generalizing row questions with
  | nil => exact (Except.ok.inj h).symm
  | cons request rest ih =>
      rw [batchQuestions] at h
      split at h
      · cases h
      rename_i question hquestion
      split at h
      · cases h
      rename_i later hlater
      obtain rfl := Except.ok.inj h
      have hfirst : question = object (questionMembers request row) := by
        unfold batchQuestion at hquestion
        split at hquestion
        · rename_i hkind
          obtain rfl := Except.ok.inj hquestion
          simp only [questionMembers, instructions, typeName, hkind,
            List.nil_append]
        · rename_i hkind
          split at hquestion
          · cases hquestion
          rename_i asked hasked
          obtain rfl := Except.ok.inj hquestion
          simp only [questionMembers, instructions, typeName, hkind, hasked,
            Option.getD_some, List.singleton_append]
      rw [hfirst, ih hlater, questionEntries]

theorem batchCondition_ok {first : JudgmentRequest} {members : Members Wire}
    (h : batchCondition first = .ok members) : members = condition first := by
  unfold batchCondition at h
  split at h
  · rename_i hkind
    split at h
    · cases h
    rename_i criterion hcriterion
    obtain rfl := Except.ok.inj h
    simp only [condition, hkind, hcriterion, Option.getD_some]
  · rename_i hkind
    obtain rfl := Except.ok.inj h
    simp only [condition, hkind]

/-- Whatever is built follows the one formula. -/
theorem buildBatchBody_composite {p : TypesafeProvider}
    {requests : List JudgmentRequest} {body : Wire}
    (h : p.buildBatchBody requests = .ok body) :
    (requests.map JudgmentRequest.requestKey).Nodup ∧
      ∃ first, body = p.compositeBody first requests ∧
        ∀ request ∈ requests, Compatible request first := by
  unfold buildBatchBody at h
  split at h
  · cases h
  · rename_i first
    obtain rfl := Except.ok.inj h
    refine ⟨List.nodup_singleton _, first,
      p.buildBody_eq_compositeBody first, ?_⟩
    simp [Compatible]
  · rename_i first second rest
    dsimp only at h
    split at h
    · cases h
    rename_i hchecks
    split at h
    · cases h
    rename_i members hcondition
    split at h
    · cases h
    rename_i questions hquestions
    obtain rfl := Except.ok.inj h
    obtain ⟨hnodup, -, hcompatible⟩ := checkBatch_ok hchecks
    refine ⟨hnodup, first, ?_, hcompatible⟩
    rw [batchCondition_ok hcondition, batchQuestions_ok hquestions,
      compositeBody]

/-- It asks each request under its key. -/
theorem buildBatchBody_poses {p : TypesafeProvider}
    {requests : List JudgmentRequest} {body : Wire}
    (h : p.buildBatchBody requests = .ok body) :
    (requests.map JudgmentRequest.requestKey).Nodup ∧
      ∀ request ∈ requests,
        Poses body request.requestKey (p.questionOf request) := by
  obtain ⟨hnodup, first, rfl, hcompatible⟩ := buildBatchBody_composite h
  exact ⟨hnodup, fun request hmem =>
    p.poses_compositeBody hnodup hcompatible hmem⟩

/-! ## Responses -/

/-- Somewhere under the key, the response says this about a question of the
kind.  Names may be repeated. -/
def Says (tree : Wire) (key : String) (kind : QuestionKind)
    (result : JudgmentResult) : Prop :=
  ∃ answers members value, HasAnswers tree answers ∧
    (key, .object members) ∈ answers ∧
    ("type", .string (typeName kind)) ∈ members ∧
    (typeName kind, value) ∈ members ∧ Reads kind value result

/-- Whatever the response says about a question of the body is its value. -/
def Judged (J : WireJudge) (body tree : Wire) : Prop :=
  ∀ key asked result, Poses body key asked →
    Says tree key asked.kind result → result = J asked

theorem mem_of_last? {name : String} {tree value : Wire}
    (h : tree.last? name = some value) :
    ∃ members, tree = .object members ∧ (name, value) ∈ members := by
  cases tree with
  | object members =>
      exact ⟨members, rfl, List.mem_reverse.mp (Members.get?_mem h)⟩
  | _ => cases h

/-- What is parsed has been said. -/
theorem says_of_parseAnswer {tree answer : Wire} {answers : Members Wire}
    {request : JudgmentRequest} {result : JudgmentResult}
    (hanswers : HasAnswers tree answers)
    (hmem : (request.requestKey, answer) ∈ answers)
    (h : parseAnswer request answer.collapse = .ok result) :
    Says tree request.requestKey request.kind result := by
  obtain ⟨htype, collapsed, hget, hreads, -⟩ := parseAnswer_ok_iff.mp h
  rw [get_collapse_eq_string] at htype
  rw [Value.get_collapse] at hget
  obtain ⟨value, hvalue, rfl⟩ := Option.map_eq_some_iff.mp hget
  obtain ⟨members, rfl, htypeMem⟩ := mem_of_last? htype
  obtain ⟨members', hobject, hvalueMem⟩ := mem_of_last? hvalue
  obtain rfl := Value.object.inj hobject
  exact ⟨answers, members, value, hanswers, hmem, htypeMem, hvalueMem,
    reads_collapse.mp hreads⟩

/-- Each answer of an accepted response has been said about a request. -/
theorem says_of_parseBatchResponse {p : TypesafeProvider}
    {requests : List JudgmentRequest} {tree : Wire}
    {response : ProviderBatchResult}
    (h : p.parseBatchResponse requests (some tree) = .ok response)
    {answer : ProviderAnswer} (hanswer : answer ∈ response.answers) :
    ∃ request ∈ requests, answer.requestKey = request.requestKey ∧
      Says tree request.requestKey request.kind answer.result := by
  obtain ⟨answers, hanswers, -, hpresent, hparsed, -⟩ := parseBatchResponse_ok h
  have hhas : HasAnswers tree answers := mem_of_last? hanswers
  have hloop := parseAnswers_forall₂ hparsed
  obtain ⟨n, hn, rfl⟩ := List.getElem_of_mem hanswer
  have hn' : n < requests.length := hloop.length_eq.symm ▸ hn
  have hmem : requests[n] ∈ requests := List.getElem_mem hn'
  obtain ⟨hkey, hresult⟩ := hloop.get hn' hn
  refine ⟨requests[n], hmem, hkey, ?_⟩
  obtain ⟨value, hvalue⟩ := Option.isSome_iff_exists.mp (hpresent _ hmem)
  rw [List.get_eq_getElem, hvalue, Option.getD_some] at hresult
  rw [get?_collapsed] at hvalue
  obtain ⟨raw, hraw, rfl⟩ := Option.map_eq_some_iff.mp hvalue
  obtain ⟨members, hobject, hrawMem⟩ := mem_of_last? hraw
  obtain rfl := Value.object.inj hobject
  exact says_of_parseAnswer hhas hrawMem hresult

/-- A judged response to the body of the requests answers each of them by the
value of its question. -/
theorem Judged.parsed {p : TypesafeProvider} {requests : List JudgmentRequest}
    {body tree : Wire} {J : WireJudge} {response : ProviderBatchResult}
    (hjudged : Judged J body tree)
    (hbody : p.buildBatchBody requests = .ok body)
    (hresponse : p.parseBatchResponse requests (some tree) = .ok response)
    {request : JudgmentRequest} (hrequest : request ∈ requests)
    {answer : ProviderAnswer} (hanswer : answer ∈ response.answers)
    (hkey : answer.requestKey = request.requestKey) :
    answer.result = J (p.questionOf request) := by
  obtain ⟨hnodup, hposes⟩ := buildBatchBody_poses hbody
  obtain ⟨asked, hasked, hsame, hsays⟩ :=
    says_of_parseBatchResponse hresponse hanswer
  obtain rfl : asked = request :=
    List.inj_on_of_nodup_map hnodup hasked hrequest (hsame.symm.trans hkey)
  exact hjudged _ _ _ (hposes asked hrequest) hsays

end TypesafeProvider

/-! ## Adapters of a service -/

namespace TypesafeAdapter

/-- The response is one on which the adapter has to rely. -/
structure Trusts (a : TypesafeAdapter) (requests : List JudgmentRequest)
    (response : HttpResponse) (tree : Wire) : Prop where
  success : 200 ≤ response.status ∧ response.status < 300
  whole : a.rejectTruncatedHeader = true →
    ∀ value ∈ response.truncatedHeader,
      value.toList.map Char.toLower ≠ "true".toList
  body : response.body = .ok (some tree)
  verified : 1 < requests.length →
    tree.collapse.get "model" = some (.string verifiedBatchEffectiveModel)

/-- What has come back for the body of these requests is judged, as far as the
adapter has to rely on it. -/
def JudgedIn (toVec : Wire → Option (List UInt8)) (a : TypesafeAdapter)
    (J : WireJudge) (requests : List JudgmentRequest)
    (h : List (Event HttpOp HttpRes)) : Prop :=
  ∀ body bytes response tree, a.buildBatchBody requests = .ok body →
    toVec body = some bytes →
    (⟨.send bytes, .ok response⟩ : Event HttpOp HttpRes) ∈ h →
    a.Trusts requests response tree → TypesafeProvider.Judged J body tree

/-- The answers of the result were parsed from a trusted response to the body
of the requests. -/
def Received (toVec : Wire → Option (List UInt8)) (a : TypesafeAdapter)
    (requests : List JudgmentRequest) (result : ProviderBatchResult)
    (h : List (Event HttpOp HttpRes)) : Prop :=
  ∃ body bytes response tree parsed, a.buildBatchBody requests = .ok body ∧
    toVec body = some bytes ∧
    (⟨.send bytes, .ok response⟩ : Event HttpOp HttpRes) ∈ h ∧
    a.Trusts requests response tree ∧
    a.parseBatchResponse requests (some tree) = .ok parsed ∧
    result.answers = parsed.answers

/-- No trusted response to the body of the requests, which can be parsed, has
come back. -/
def Missed (toVec : Wire → Option (List UInt8)) (a : TypesafeAdapter)
    (requests : List JudgmentRequest) (h : List (Event HttpOp HttpRes)) :
    Prop :=
  ∀ body bytes, a.buildBatchBody requests = .ok body →
    toVec body = some bytes → ∃ r,
      (⟨.send bytes, r⟩ : Event HttpOp HttpRes) ∈ h ∧
      ¬ ∃ response tree parsed, r = .ok response ∧
        a.Trusts requests response tree ∧
        a.parseBatchResponse requests (some tree) = .ok parsed

/-- The protocol which only keeps the history. -/
abbrev receipts : Protocol HttpOp HttpRes (List (Event HttpOp HttpRes)) :=
  .ofHistory (fun _ _ => True) fun _ _ _ => True

variable (toVec : Wire → Option (List UInt8)) (a : TypesafeAdapter)

theorem parseBatchResponse_metadata {p : TypesafeProvider}
    {requests : List JudgmentRequest} {tree : Wire}
    {parsed : ProviderBatchResult}
    (h : p.parseBatchResponse requests (some tree) = .ok parsed) :
    parsed.metadata = p.responseMetadata tree.collapse := by
  unfold TypesafeProvider.parseBatchResponse at h
  dsimp only at h
  split at h
  · cases h
  split at h
  · cases h
  split at h
  · cases h
  split at h
  · cases h
  obtain rfl := Except.ok.inj h
  rfl

/-- The model which a response reports. -/
theorem effectiveModel_iff {p : TypesafeProvider}
    {requests : List JudgmentRequest} {tree : Wire}
    {parsed : ProviderBatchResult} {model : String}
    (h : p.parseBatchResponse requests (some tree) = .ok parsed) :
    parsed.metadata.effectiveModel = some model ↔
      tree.collapse.get "model" = some (.string model) := by
  rw [parseBatchResponse_metadata h]
  unfold TypesafeProvider.responseMetadata
  dsimp only
  rw [Option.bind_eq_some_iff]
  constructor
  · rintro ⟨value, hvalue, hstring⟩
    rw [hvalue, TypesafeProvider.asString_eq_some.mp hstring]
  · intro hvalue
    exact ⟨_, hvalue, rfl⟩

theorem postBody_received {requests : List JudgmentRequest} {body : Wire}
    {started : ℕ} (hbody : a.buildBatchBody requests = .ok body)
    (h : List (Event HttpOp HttpRes)) :
    Secures receipts (a.postBody toVec requests body started)
      (a.Received toVec requests) (fun _ => a.Missed toVec requests) h := by
  unfold postBody
  cases hbytes : toVec body with
  | none =>
      intro body' bytes hbody' hbytes'
      obtain rfl := Except.ok.inj (hbody.symm.trans hbody')
      cases hbytes.symm.trans hbytes'
  | some bytes =>
      dsimp only
      rw [secures_bind, secures_lift, follows_perform]
      refine ⟨trivial, fun serialized _ => ?_⟩
      rw [secures_bind, secures_lift, follows_perform]
      refine ⟨trivial, fun roundtripStarted _ => ?_⟩
      rw [secures_bind, secures_lift, follows_perform]
      refine ⟨trivial, fun sent _ => ?_⟩
      -- an error says that this response cannot be relied on
      have hmissed : ∀ {older}, (∀ response tree parsed, sent = .ok response →
          a.Trusts requests response tree →
          a.parseBatchResponse requests (some tree) = .ok parsed → False) →
            a.Missed toVec requests (⟨.send bytes, sent⟩ :: older) := by
        intro older hnone body' bytes' hbody' hbytes'
        obtain rfl := Except.ok.inj (hbody.symm.trans hbody')
        obtain rfl := Option.some.inj (hbytes.symm.trans hbytes')
        refine ⟨sent, .head _, ?_⟩
        rintro ⟨response, tree, parsed, hsame, htrusts, hparsed⟩
        exact hnone response tree parsed hsame htrusts hparsed
      cases sent with
      | error err =>
          refine hmissed fun response tree parsed hsame _ _ => ?_
          cases hsame
      | ok response =>
          have hrefused : ∀ {older}, (∀ tree parsed,
              a.Trusts requests response tree →
              a.parseBatchResponse requests (some tree) = .ok parsed → False) →
                a.Missed toVec requests
                  (⟨.send bytes, .ok response⟩ :: older) := by
            intro older hnone
            refine hmissed fun response' tree parsed hsame htrusts => ?_
            obtain rfl := Except.ok.inj hsame
            exact hnone tree parsed htrusts
          dsimp only
          split
          · rename_i hstatus
            split
            · exact hrefused fun tree parsed htrusts _ =>
                hstatus htrusts.success
            · exact hrefused fun tree parsed htrusts _ =>
                hstatus htrusts.success
          rename_i hstatus
          split
          · rename_i htruncated
            refine hrefused fun tree parsed htrusts _ => ?_
            obtain ⟨hreject, hany⟩ := Bool.and_eq_true_iff.mp htruncated
            cases hheader : response.truncatedHeader with
            | none =>
                rw [hheader] at hany
                cases hany
            | some value =>
                rw [hheader] at hany
                exact htrusts.whole hreject value hheader (beq_iff_eq.mp hany)
          rename_i hwhole
          split
          · rename_i err hread
            refine hrefused fun tree parsed htrusts _ => ?_
            cases hread.symm.trans htrusts.body
          rename_i text htext
          split
          · rename_i error herror
            refine hrefused fun tree parsed htrusts hparsed => ?_
            obtain rfl := Except.ok.inj (htext.symm.trans htrusts.body)
            cases herror.symm.trans hparsed
          rename_i parsed hparsed
          split
          · rename_i hmodel
            obtain ⟨hseveral, hother⟩ := hmodel
            refine hrefused fun tree parsed' htrusts _ => hother ?_
            obtain rfl := Except.ok.inj (htext.symm.trans htrusts.body)
            exact (effectiveModel_iff hparsed).mpr (htrusts.verified hseveral)
          rename_i hmodel
          rw [secures_bind, secures_lift, follows_perform]
          refine ⟨trivial, fun finished _ => ?_⟩
          cases text with
          | none => cases hparsed
          | some tree =>
              refine ⟨body, bytes, response, tree, parsed, hbody, hbytes,
                .tail _ (.head _), ⟨not_not.mp hstatus, ?_, htext, ?_⟩,
                hparsed, rfl⟩
              · intro hreject value hvalue htrue
                refine hwhole ?_
                rw [hreject, Bool.true_and, hvalue, Option.any_some]
                exact beq_iff_eq.mpr htrue
              · intro hseveral
                refine (effectiveModel_iff hparsed).mp ?_
                by_contra hother
                exact hmodel ⟨hseveral, hother⟩

/-- What was secured of a call holds of its outcome. -/
theorem secured_of_after {x : Post ProviderBatchResult}
    {Q : ProviderBatchResult → List (Event HttpOp HttpRes) → Prop}
    {E : JudgmentError → List (Event HttpOp HttpRes) → Prop}
    {h : List (Event HttpOp HttpRes)}
    {outcome : Except JudgmentError ProviderBatchResult}
    (hx : Secures receipts x Q E []) (hafter : x.run.After h (.ret outcome)) :
    Secures receipts (ExceptT.mk (.ret outcome)) Q E h := by
  have hend := (hafter.follows (I := fun _ _ => True) (fun _ _ _ => trivial)
    trivial (fun _ _ _ _ _ _ => trivial) hx).2
  rwa [Protocol.ofHistory_replay] at hend

theorem postSingle_received (judgment : JudgmentRequest) :
    Secures receipts (a.postSingle toVec judgment)
      (a.Received toVec [judgment]) (fun _ _ => True) [] := by
  unfold postSingle
  split
  · exact trivial
  · rw [secures_bind, secures_lift, follows_perform]
    exact ⟨trivial, fun started _ => (a.postBody_received toVec rfl _).mono
      (fun _ _ hreceived => hreceived) fun _ _ _ => trivial⟩

theorem judgeMany_received (requests : List JudgmentRequest) :
    Secures receipts (a.judgeMany toVec requests)
      (a.Received toVec requests) (fun _ _ => True) [] := by
  unfold judgeMany
  split
  · exact a.postSingle_received toVec _
  split
  · exact trivial
  · exact trivial
  · rw [secures_bind, secures_lift, follows_perform]
    refine ⟨trivial, fun started _ => ?_⟩
    cases hbody : a.buildBatchBody requests with
    | error error => exact trivial
    | ok body =>
        exact (a.postBody_received toVec hbody _).mono
          (fun _ _ hreceived => hreceived) fun _ _ _ => trivial

variable {toVec a}

/-- A call which returns has received its answers. -/
theorem received_of_after {requests : List JudgmentRequest}
    {x : Post ProviderBatchResult} {h : List (Event HttpOp HttpRes)}
    {result : ProviderBatchResult}
    (hx : Secures receipts x (a.Received toVec requests) (fun _ _ => True) [])
    (hafter : x.run.After h (.ret (.ok result))) :
    a.Received toVec requests result h :=
  secured_of_after hx hafter

/-- In front of a judging service, a call returns values of questions. -/
theorem Received.judged {J : WireJudge} {requests : List JudgmentRequest}
    {result : ProviderBatchResult} {h : List (Event HttpOp HttpRes)}
    (hreceived : a.Received toVec requests result h)
    (hjudged : a.JudgedIn toVec J requests h) {request : JudgmentRequest}
    (hrequest : request ∈ requests) {answer : ProviderAnswer}
    (hanswer : answer ∈ result.answers)
    (hkey : answer.requestKey = request.requestKey) :
    answer.result = J (a.questionOf request) := by
  obtain ⟨body, bytes, response, tree, parsed, hbody, hbytes, hsent, htrusts,
    hparsed, hanswers⟩ := hreceived
  rw [hanswers] at hanswer
  exact (hjudged body bytes response tree hbody hbytes hsent htrusts).parsed
    hbody hparsed hrequest hanswer hkey

end TypesafeAdapter

end DuckJeu
