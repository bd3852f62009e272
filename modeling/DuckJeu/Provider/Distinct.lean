import DuckJeu.Core.JsonString
import DuckJeu.Provider.Composite

/-!
# Request bodies and identities

The identity of a judgment and its request body are produced by two
encoders.  A body determines everything which the identity compares, with one
exception: the labels of a choice are the names of an ordered map, so that
their order is lost.
-/

namespace DuckJeu

open Json (Members Value Writer)

namespace TypesafeProvider

/-- The bytes which are sent for a single judgment. -/
def requestBytes (p : TypesafeProvider) (w : Writer Number)
    (request : JudgmentRequest) : List UInt8 :=
  asBytes (Value.text w (p.buildBody request))

end TypesafeProvider

/-! ## Comparing judgments -/

/-- Agreement in everything an identity compares but the choices. -/
structure SameContext (request request' : JudgmentRequest) : Prop where
  kind_eq : request.kind = request'.kind
  stateKind_eq : request.state.kind = request'.state.kind
  canonical_eq : request.state.canonical = request'.state.canonical
  criterion_eq : request.criterion = request'.criterion
  question_eq : request.question = request'.question

/-- Agreement in everything an identity compares. -/
def IdentityAgrees (request request' : JudgmentRequest) : Prop :=
  SameContext request request' ∧ request.choices = request'.choices

/-- The same question about the same state, whose candidates stand in another
order. -/
def Reordered (request request' : JudgmentRequest) : Prop :=
  SameContext request request' ∧
    request.choices.Perm request'.choices ∧ request.choices ≠ request'.choices

/-! ## The state on the wire -/

variable {W : WireText}

theorem Encoded.validated {state : CanonicalState} (h : Encoded W state) :
    validateValue state.value = .ok () := by
  rcases h with ⟨text, rfl⟩ | ⟨fields, hfields⟩
  · rfl
  · obtain ⟨hvalid, rfl⟩ := encodeStruct_ok hfields
    exact hvalid

theorem stateRow_eq {request : JudgmentRequest} (h : Encoded W request.state) :
    (∃ text, request.state = encodeText text ∧
        TypesafeProvider.stateRow request = .string text) ∨
      ∃ fields, encodeStruct W fields = .ok request.state ∧
        request.state.value = .struct fields ∧
        TypesafeProvider.stateRow request = toJsonValue (.struct fields) := by
  rcases h with ⟨text, htext⟩ | ⟨fields, hfields⟩
  · exact Or.inl ⟨text, htext, by rw [TypesafeProvider.stateRow, htext]; rfl⟩
  · have hvalue : request.state.value = .struct fields := by
      rw [(encodeStruct_ok hfields).2]
    exact Or.inr ⟨fields, hfields, hvalue,
      by rw [TypesafeProvider.stateRow, hvalue]⟩

/-- Equal rows come from equal states. -/
theorem state_eq_of_stateRow {request request' : JudgmentRequest}
    (h : Encoded W request.state) (h' : Encoded W request'.state)
    (hordered : request.state.value.Ordered)
    (hordered' : request'.state.value.Ordered)
    (hrow : TypesafeProvider.stateRow request =
      TypesafeProvider.stateRow request') : request.state = request'.state := by
  rcases stateRow_eq h with ⟨text, hstate, htext⟩ |
      ⟨fields, hstate, hvalue, hfields⟩
  · rcases stateRow_eq h' with ⟨text', hstate', htext'⟩ |
        ⟨fields', hstate', hvalue', hfields'⟩
    · rw [htext, htext'] at hrow
      rw [hstate, hstate', Value.string.inj hrow]
    · rw [htext, hfields', toJsonValue, object] at hrow
      cases hrow
  · rcases stateRow_eq h' with ⟨text', hstate', htext'⟩ |
        ⟨fields', hstate', hvalue', hfields'⟩
    · rw [hfields, htext', toJsonValue, object] at hrow
      cases hrow
    · rw [hfields, hfields'] at hrow
      have hvalid := h.validated
      have hvalid' := h'.validated
      rw [hvalue] at hvalid hordered
      rw [hvalue'] at hvalid' hordered'
      have hsame : TypedValue.struct fields = .struct fields' :=
        toJsonValue_injective _ _ hordered hordered' hvalid hvalid' hrow
      rw [TypedValue.struct.inj hsame, hstate'] at hstate
      exact (Except.ok.inj hstate).symm

/-! ## Writable bodies -/

variable {w : Writer Number}

theorem writable_object {entries : Members Wire}
    (h : ∀ entry ∈ entries, Value.Writable w entry.2) :
    Value.Writable w (object entries) :=
  Value.writable_ofEntries h

theorem writable_string (s : String) : Value.Writable w (.string s : Wire) :=
  trivial

theorem writable_null : Value.Writable w (.null : Wire) :=
  trivial

theorem writable_node {tag name : String} {payload : Wire}
    (h : Value.Writable w payload) :
    Value.Writable w (object [("t", .string tag), (name, payload)]) := by
  refine writable_object ?_
  rw [List.forall_mem_cons, List.forall_mem_singleton]
  exact ⟨writable_string tag, h⟩

mutual

theorem writable_toJsonValue
    (hfloat : ∀ f : F64, f.isFinite = true → w.Valid (.float f))
    (v : TypedValue) (h : validateValue v = .ok ()) :
    Value.Writable w (toJsonValue v) := by
  match v with
  | .null =>
      refine writable_object ?_
      rw [List.forall_mem_singleton]
      exact writable_string "null"
  | .bool b =>
      have hbool : Value.Writable w (.bool b : Wire) := trivial
      exact writable_node hbool
  | .int i => exact writable_node (writable_string _)
  | .uint u => exact writable_node (writable_string _)
  | .float f =>
      have hfinite := isFinite_of_validateValue h
      refine writable_node ?_
      rw [floatValue, if_pos hfinite, Value.Writable]
      exact hfloat f hfinite
  | .decimal d => exact writable_node (writable_string d)
  | .bigInt d => exact writable_node (writable_string d.text)
  | .uBigInt d => exact writable_node (writable_string d.text)
  | .text s => exact writable_node (writable_string s)
  | .struct fields =>
      exact writable_node
        (writable_object (writable_toJsonFields hfloat fields h))

theorem writable_toJsonFields
    (hfloat : ∀ f : F64, f.isFinite = true → w.Valid (.float f))
    (fields : List (String × TypedValue))
    (h : validateFields fields = .ok ()) :
    ∀ entry ∈ toJsonFields fields, Value.Writable w entry.2 := by
  match fields with
  | [] =>
      rw [toJsonFields]
      exact List.forall_mem_nil _
  | (name, v) :: rest =>
      obtain ⟨hvalue, hrest⟩ := validateFields_cons h
      rw [toJsonFields, List.forall_mem_cons]
      exact ⟨writable_toJsonValue hfloat v hvalue,
        writable_toJsonFields hfloat rest hrest⟩

end

theorem writable_stateRow
    (hfloat : ∀ f : F64, f.isFinite = true → w.Valid (.float f))
    {request : JudgmentRequest} (h : Encoded W request.state) :
    Value.Writable w (TypesafeProvider.stateRow request) := by
  rcases stateRow_eq h with ⟨text, -, hrow⟩ | ⟨fields, -, hvalue, hrow⟩
  · rw [hrow]
    exact writable_string text
  · have hvalid := h.validated
    rw [hvalue] at hvalid
    rw [hrow]
    exact writable_toJsonValue hfloat _ hvalid

namespace TypesafeProvider

theorem writable_questionMembers (request : JudgmentRequest) (row : ℕ) :
    Value.Writable w (object (questionMembers request row)) := by
  refine writable_object ?_
  intro entry hentry
  rcases List.mem_append.mp hentry with hcriteria | hrest
  · cases hkind : request.kind with
    | noul =>
        rw [hkind] at hcriteria
        exact absurd hcriteria List.not_mem_nil
    | choice =>
        rw [hkind] at hcriteria
        obtain rfl := List.mem_singleton.mp hcriteria
        refine writable_object ?_
        intro label hlabel
        obtain ⟨name, -, rfl⟩ := List.mem_map.mp hlabel
        exact writable_null
  · rcases List.mem_cons.mp hrest with rfl | hrest
    · exact writable_string _
    · obtain rfl := List.mem_singleton.mp hrest
      exact writable_string _

theorem writable_condition (request : JudgmentRequest) :
    ∀ entry ∈ condition request, Value.Writable w entry.2 := by
  intro entry hentry
  unfold condition at hentry
  split at hentry
  · obtain rfl := List.mem_singleton.mp hentry
    exact writable_string _
  · exact absurd hentry List.not_mem_nil

theorem writable_buildBody (p : TypesafeProvider)
    (hfloat : ∀ f : F64, f.isFinite = true → w.Valid (.float f))
    {request : JudgmentRequest} (h : Encoded W request.state) :
    Value.Writable w (p.buildBody request) := by
  have hrows : Value.Writable w (.array [stateRow request] : Wire) := by
    rw [Value.Writable, Value.writableItems_iff, List.forall_mem_singleton]
    exact writable_stateRow hfloat h
  have hstate : Value.Writable w (object
      (("rows", .array [stateRow request]) :: condition request)) := by
    refine writable_object ?_
    rw [List.forall_mem_cons]
    exact ⟨hrows, writable_condition request⟩
  have hquestions : Value.Writable w (object
      [(request.requestKey, object (questionMembers request 0))]) := by
    refine writable_object ?_
    rw [List.forall_mem_singleton]
    exact writable_questionMembers request 0
  rw [buildBody_eq_compositeBody]
  refine writable_object ?_
  rw [List.forall_mem_cons, List.forall_mem_cons, List.forall_mem_singleton]
  exact ⟨writable_string p.model, hstate, hquestions⟩

/-! ## What a body determines -/

theorem typeName_injective {kind kind' : QuestionKind}
    (h : typeName kind = typeName kind') : kind = kind' := by
  revert h
  cases kind <;> cases kind' <;> decide

/-- The text around the caller's question determines the question. -/
theorem choice_question_eq {request request' : JudgmentRequest}
    (hkind : request.kind = .choice) (hkind' : request'.kind = .choice)
    (h : instructions request 0 = instructions request' 0) :
    request.question.getD "" = request'.question.getD "" := by
  simp only [instructions, hkind, hkind', String.append_assoc] at h
  have hlist := congrArg String.toList h
  simp only [String.toList_append] at hlist
  have htail := List.append_cancel_left hlist
  exact String.toList_inj.mp (List.append_cancel_right htail)

/-- The single question of a body and what it says. -/
theorem asks_buildBody (p : TypesafeProvider) {request : JudgmentRequest}
    (h : Built request) :
    Associates [request] (p.buildBody request) := by
  rw [buildBody_eq_compositeBody]
  refine associates_compositeBody p ?_ (List.nodup_singleton _) ?_
  · rw [List.forall_mem_singleton]
    exact h
  · rw [List.forall_mem_singleton]
    exact ⟨rfl, rfl, rfl, rfl⟩

/-- Two requests with equal bodies under one key agree but for the order of
their choices. -/
theorem eq_of_buildBody {p : TypesafeProvider}
    {request request' : JudgmentRequest} (hbuilt : Built request)
    (hbuilt' : Built request')
    (hkey : request.requestKey = request'.requestKey)
    (hbody : p.buildBody request = p.buildBody request') :
    stateRow request = stateRow request' ∧ request.kind = request'.kind ∧
      request.criterion = request'.criterion ∧
      request.question = request'.question ∧
      request.choices.Perm request'.choices := by
  have hassoc := p.asks_buildBody hbuilt
  have hassoc' := p.asks_buildBody hbuilt'
  rw [← hbody] at hassoc'
  have hrow : stateRow request = stateRow request' := by
    have hrows := hassoc.rows.symm.trans hassoc'.rows
    exact (List.cons.inj (Value.array.inj (Option.some.inj hrows))).1
  obtain ⟨questions, hquestions, -, hasks⟩ := hassoc.questions
  obtain ⟨questions', hquestions', -, hasks'⟩ := hassoc'.questions
  obtain rfl : questions = questions' :=
    Value.object.inj (Option.some.inj (hquestions.symm.trans hquestions'))
  obtain ⟨question, hget, hask⟩ := hasks 0 Nat.zero_lt_one
  obtain ⟨question', hget', hask'⟩ := hasks' 0 Nat.zero_lt_one
  simp only [List.getElem_cons_zero] at hget hget' hask hask'
  rw [hkey, hget'] at hget
  obtain rfl := Option.some.inj hget
  have hkind : request.kind = request'.kind := by
    have htype := hask.type_eq.symm.trans hask'.type_eq
    exact typeName_injective (Value.string.inj (Option.some.inj htype))
  have hinstructions : instructions request 0 = instructions request' 0 :=
    Value.string.inj
      (Option.some.inj (hask.instructions_eq.symm.trans hask'.instructions_eq))
  refine ⟨hrow, hkind, ?_⟩
  rcases hbuilt.cases with
    ⟨hnoul, ⟨criterion, hcriterion⟩, hquestion, hchoices⟩ |
      ⟨hchoice, hcriterion, ⟨asked, hquestion⟩, -⟩
  · have hnoul' := hkind.symm.trans hnoul
    rcases hbuilt'.cases with
        ⟨-, ⟨criterion', hcriterion'⟩, hquestion', hchoices'⟩ | ⟨hother, -⟩
    · have hsame := (hassoc.noul_condition request
        (List.mem_singleton_self _) hnoul).symm.trans
        (hassoc'.noul_condition request' (List.mem_singleton_self _) hnoul')
      rw [hcriterion, hcriterion'] at hsame ⊢
      have htext := Value.string.inj (Option.some.inj hsame)
      rw [hquestion, hquestion', hchoices, hchoices', htext]
      exact ⟨rfl, rfl, List.Perm.nil⟩
    · rw [hnoul'] at hother
      cases hother
  · have hchoice' := hkind.symm.trans hchoice
    rcases hbuilt'.cases with
        ⟨hother, -⟩ | ⟨-, hcriterion', ⟨asked', hquestion'⟩, -⟩
    · rw [hchoice'] at hother
      cases hother
    · have hasked := choice_question_eq hchoice hchoice' hinstructions
      obtain ⟨labels, hlabels, hperm⟩ := hask.choice_criteria hchoice
      obtain ⟨labels', hlabels', hperm'⟩ := hask'.choice_criteria hchoice'
      obtain rfl : labels = labels' :=
        Value.object.inj (Option.some.inj (hlabels.symm.trans hlabels'))
      rw [hquestion, hquestion', Option.getD_some, Option.getD_some] at hasked
      rw [hquestion, hquestion', hcriterion, hcriterion', hasked]
      exact ⟨rfl, rfl, hperm.symm.trans hperm'⟩

/-- The order of distinct labels does not reach the body. -/
theorem criteria_perm {choices choices' : List String}
    (hnodup : choices.Nodup) (hperm : choices.Perm choices') :
    criteria choices = criteria choices' := by
  have hnames : (choices.map fun label => ((label, .null) : String × Wire)).map
      Prod.fst = choices := by
    simp [Function.comp_def]
  have hentries : Members.names
      (choices.map fun label => ((label, .null) : String × Wire)) |>.Nodup := by
    rw [Members.names, hnames]
    exact hnodup
  rw [criteria, criteria, object, object,
    Members.ofEntries_perm hentries (hperm.map _)]

theorem buildBody_eq {p : TypesafeProvider}
    {request request' : JudgmentRequest}
    (hkey : request.requestKey = request'.requestKey)
    (hstate : request.state = request'.state)
    (hkind : request.kind = request'.kind)
    (hcriterion : request.criterion = request'.criterion)
    (hquestion : request.question = request'.question)
    (hcriteria : criteria request.choices = criteria request'.choices) :
    p.buildBody request = p.buildBody request' := by
  simp only [buildBody, stateRow, hkey, hstate, hkind, hcriterion, hquestion,
    hcriteria]

end TypesafeProvider

theorem WellFormed.built {request : JudgmentRequest}
    (h : WellFormed W request) : Built request := by
  obtain ⟨state, -, hrequest⟩ := h
  exact ⟨state, request, hrequest, rfl⟩

namespace TypesafeProvider

/-- Equal bytes mean equal judgments up to the order of the choices. -/
theorem requestBytes_eq_iff
    (hfloat : ∀ f : F64, f.isFinite = true → w.Valid (.float f))
    (p : TypesafeProvider) {request request' : JudgmentRequest}
    (h : WellFormed W request) (h' : WellFormed W request')
    (hordered : request.state.value.Ordered)
    (hordered' : request'.state.value.Ordered) :
    p.requestBytes w request = p.requestBytes w request' ↔
      SameContext request request' ∧
        request.choices.Perm request'.choices := by
  have hkey : request.requestKey = request'.requestKey :=
    h.requestKey.trans h'.requestKey.symm
  constructor
  · intro hbytes
    have hbody : p.buildBody request = p.buildBody request' :=
      Value.text_injective (p.writable_buildBody hfloat h.encoded)
        (p.writable_buildBody hfloat h'.encoded) (asBytes_injective hbytes)
    obtain ⟨hrow, hkind, hcriterion, hquestion, hperm⟩ :=
      eq_of_buildBody h.built h'.built hkey hbody
    have hstate := state_eq_of_stateRow h.encoded h'.encoded hordered
      hordered' hrow
    exact ⟨⟨hkind, by rw [hstate], by rw [hstate], hcriterion, hquestion⟩,
      hperm⟩
  · rintro ⟨hsame, hperm⟩
    have hstate : request.state = request'.state :=
      h.encoded.eq_of_canonical h'.encoded hsame.stateKind_eq hsame.canonical_eq
    have hcriteria : criteria request.choices = criteria request'.choices := by
      rcases h.built.cases with ⟨-, -, -, hnil⟩ | ⟨-, -, -, hnodup⟩
      · rw [hnil] at hperm ⊢
        rw [hperm.nil_eq]
      · exact criteria_perm hnodup hperm
    rw [requestBytes, requestBytes, buildBody_eq hkey hstate hsame.kind_eq
      hsame.criterion_eq hsame.question_eq hcriteria]

/-- Bytes tell judgments apart except for reordered candidates. -/
theorem requestBytes_exact_iff
    (hfloat : ∀ f : F64, f.isFinite = true → w.Valid (.float f))
    (p : TypesafeProvider) {request request' : JudgmentRequest}
    (h : WellFormed W request) (h' : WellFormed W request')
    (hordered : request.state.value.Ordered)
    (hordered' : request'.state.value.Ordered) :
    (p.requestBytes w request = p.requestBytes w request' ↔
        IdentityAgrees request request') ↔ ¬ Reordered request request' := by
  rw [requestBytes_eq_iff hfloat p h h' hordered hordered']
  constructor
  · rintro hexact ⟨hsame, hperm, hne⟩
    exact hne (hexact.mp ⟨hsame, hperm⟩).2
  · intro hnot
    constructor
    · rintro ⟨hsame, hperm⟩
      by_cases hchoices : request.choices = request'.choices
      · exact ⟨hsame, hchoices⟩
      · exact absurd ⟨hsame, hperm, hchoices⟩ hnot
    · rintro ⟨hsame, hchoices⟩
      rw [hchoices]
      exact ⟨hsame, List.Perm.refl _⟩

/-! ## Two orders of one choice -/

/-- The same choice with its candidates the other way round. -/
def swappedRequest (text : String) : JudgmentRequest :=
  { labelRequest text with choices := ["y", "x"] }

theorem wellFormed_labelRequest (text : String) :
    WellFormed W (labelRequest text) :=
  ⟨encodeText text, Or.inl ⟨text, rfl⟩,
    Or.inr ⟨"which label fits", ["x", "y"], choice_labelRequest text⟩⟩

theorem wellFormed_swappedRequest (text : String) :
    WellFormed W (swappedRequest text) := by
  have hlabels : JudgmentRequest.checkLabels [] ["y", "x"] = .ok () := by decide
  refine ⟨encodeText text, Or.inl ⟨text, rfl⟩,
    Or.inr ⟨"which label fits", ["y", "x"], ?_⟩⟩
  rw [JudgmentRequest.choice, if_neg (by decide), if_neg (by decide), hlabels]
  rfl

theorem requestBytes_exact_iff_text :
    (requestBytes ⟨"jev-latest", none⟩ literalWriter (labelRequest "a") =
        requestBytes ⟨"jev-latest", none⟩ literalWriter (labelRequest "b") ↔
      IdentityAgrees (labelRequest "a") (labelRequest "b")) ↔
      ¬ Reordered (labelRequest "a") (labelRequest "b") :=
  requestBytes_exact_iff (W := literalText) (fun _ hfinite => hfinite) _
    (wellFormed_labelRequest "a") (wellFormed_labelRequest "b") trivial trivial

/-- The order of the candidates is not on the wire. -/
theorem requestBytes_not_exact :
    ¬ ∀ (W : WireText) (w : Writer Number),
      (∀ f : F64, f.isFinite = true → w.Valid (.float f)) →
      ∀ (p : TypesafeProvider) (request request' : JudgmentRequest),
        WellFormed W request → WellFormed W request' →
        request.state.value.Ordered → request'.state.value.Ordered →
        (p.requestBytes w request = p.requestBytes w request' ↔
          IdentityAgrees request request') := by
  intro hexact
  have hlabels := hexact literalText literalWriter
    (fun _ hfinite => hfinite) ⟨"jev-latest", none⟩ (labelRequest "a")
    (swappedRequest "a") (wellFormed_labelRequest "a")
    (wellFormed_swappedRequest "a") trivial trivial
  have hnodup : (labelRequest "a").choices.Nodup := by decide
  have hperm : (labelRequest "a").choices.Perm (swappedRequest "a").choices :=
    List.Perm.swap "y" "x" []
  have hcriteria : criteria (labelRequest "a").choices =
      criteria (swappedRequest "a").choices := criteria_perm hnodup hperm
  have hbody : buildBody ⟨"jev-latest", none⟩ (labelRequest "a") =
      buildBody ⟨"jev-latest", none⟩ (swappedRequest "a") :=
    buildBody_eq rfl rfl rfl rfl rfl hcriteria
  have hbytes : requestBytes ⟨"jev-latest", none⟩ literalWriter
        (labelRequest "a") =
      requestBytes ⟨"jev-latest", none⟩ literalWriter (swappedRequest "a") := by
    rw [requestBytes, requestBytes, hbody]
  have hchoices : ["x", "y"] = ["y", "x"] := (hlabels.mp hbytes).2
  exact absurd hchoices (by decide)

end TypesafeProvider

end DuckJeu
