import DuckJeu.Core.JsonString
import DuckJeu.Core.Judgment

/-!
# The identity of a judgment is exact

States are told apart by their kind and canonical bytes, and identities by
what the requests and their contexts say.  The versioned bytes of a state
carry the length of its payload, so none of them begins another.
-/

namespace DuckJeu

variable {W : WireText}

/-! ## States -/

theorem Encoded.eq_of_value {state state' : CanonicalState}
    (h : Encoded W state) (h' : Encoded W state')
    (hvalue : state.value = state'.value) : state = state' := by
  rcases h with ⟨text, rfl⟩ | ⟨fields, hfields⟩
  · rcases h' with ⟨text', rfl⟩ | ⟨fields', hfields'⟩
    · have htext : text = text' := TypedValue.text.inj hvalue
      rw [htext]
    · obtain ⟨-, rfl⟩ := encodeStruct_ok hfields'
      cases hvalue
  · obtain ⟨-, hstate⟩ := encodeStruct_ok hfields
    rcases h' with ⟨text', rfl⟩ | ⟨fields', hfields'⟩
    · rw [hstate] at hvalue
      cases hvalue
    · obtain ⟨-, hstate'⟩ := encodeStruct_ok hfields'
      rw [hstate, hstate'] at hvalue
      have hsame : fields = fields' := TypedValue.struct.inj hvalue
      rw [hstate, hstate', hsame]

/-- Kind and canonical bytes agree when the typed values do. -/
theorem Encoded.canonical_iff {state state' : CanonicalState}
    (h : Encoded W state) (h' : Encoded W state') :
    state.kind = state'.kind ∧ state.canonical = state'.canonical ↔
      state.value = state'.value := by
  constructor
  · rintro ⟨hkind, hcanonical⟩
    rw [h.eq_of_canonical h' hkind hcanonical]
  · intro hvalue
    rw [h.eq_of_value h' hvalue]
    exact ⟨rfl, rfl⟩

/-! ## Identities -/

/-- The requests agree but for their request keys. -/
structure SameQuestion (request request' : JudgmentRequest) : Prop where
  kind_eq : request.kind = request'.kind
  state_eq : request.state = request'.state
  criterion_eq : request.criterion = request'.criterion
  question_eq : request.question = request'.question
  choices_eq : request.choices = request'.choices

/-- The contexts scope an identity alike: the scope of the model binding
counts while the effective model is not known. -/
structure SameScope (context context' : JudgmentIdentityContext) : Prop where
  namespace_eq : context.providerNamespace = context'.providerNamespace
  endpoint_eq : context.endpoint = context'.endpoint
  requested_eq : context.requestedModel = context'.requestedModel
  effective_eq : context.effectiveModel = context'.effectiveModel
  credential_eq : context.credentialScope = context'.credentialScope
  binding_eq : context.effectiveModel = none →
    context.modelBindingScope = context'.modelBindingScope

theorem unresolvedModelScope_eq_iff {context context' : JudgmentIdentityContext}
    (heffective : context.effectiveModel = context'.effectiveModel) :
    ((if context.effectiveModel.isNone then some context.modelBindingScope
        else none) =
      if context'.effectiveModel.isNone then some context'.modelBindingScope
        else none) ↔
      (context.effectiveModel = none →
        context.modelBindingScope = context'.modelBindingScope) := by
  rw [← heffective]
  cases context.effectiveModel with
  | none => simp
  | some model => simp

theorem WellFormed.identity_eq_iff {request request' : JudgmentRequest}
    {context context' : JudgmentIdentityContext}
    (h : WellFormed W request) (h' : WellFormed W request') :
    JudgmentIdentity.new request context =
        JudgmentIdentity.new request' context' ↔
      SameQuestion request request' ∧ SameScope context context' := by
  constructor
  · intro hidentity
    have hstate : request.state = request'.state :=
      h.encoded.eq_of_canonical h'.encoded
        (congrArg JudgmentIdentity.stateKind hidentity)
        (congrArg JudgmentIdentity.canonicalBytes hidentity)
    have heffective : context.effectiveModel = context'.effectiveModel :=
      congrArg JudgmentIdentity.effectiveModel hidentity
    have hbinding := congrArg JudgmentIdentity.unresolvedModelScope hidentity
    exact ⟨⟨congrArg JudgmentIdentity.questionKind hidentity, hstate,
        congrArg JudgmentIdentity.criterion hidentity,
        congrArg JudgmentIdentity.question hidentity,
        congrArg JudgmentIdentity.choices hidentity⟩,
      ⟨congrArg JudgmentIdentity.providerNamespace hidentity,
        congrArg JudgmentIdentity.endpoint hidentity,
        congrArg JudgmentIdentity.requestedModel hidentity, heffective,
        congrArg JudgmentIdentity.credentialScope hidentity,
        (unresolvedModelScope_eq_iff heffective).mp hbinding⟩⟩
  · rintro ⟨hsame, hscope⟩
    have hbinding := (unresolvedModelScope_eq_iff hscope.effective_eq).mpr
      hscope.binding_eq
    rw [JudgmentIdentity.new, JudgmentIdentity.new, hbinding]
    simp only [hsame.kind_eq, hsame.state_eq, hsame.criterion_eq,
      hsame.question_eq, hsame.choices_eq, hscope.namespace_eq,
      hscope.endpoint_eq, hscope.requested_eq, hscope.credential_eq,
      hscope.effective_eq]

/-! ## Versioned bytes -/

/-- The lowest `width` bytes of a number, the highest one first. -/
def beBytes : ℕ → ℕ → List UInt8
  | 0, _ => []
  | width + 1, n => beBytes width (n / 256) ++ [UInt8.ofNat n]

theorem length_beBytes (width n : ℕ) : (beBytes width n).length = width := by
  induction width generalizing n with
  | zero => rfl
  | succ width ih => rw [beBytes, List.length_append, ih]; rfl

theorem beBytes_injective {width m n : ℕ} (hm : m < 256 ^ width)
    (hn : n < 256 ^ width) (h : beBytes width m = beBytes width n) : m = n := by
  induction width generalizing m n with
  | zero =>
      rw [pow_zero] at hm hn
      omega
  | succ width ih =>
      rw [beBytes, beBytes] at h
      obtain ⟨hhigh, hlow⟩ := List.append_inj h (by simp [length_beBytes])
      have hbyte : m % 256 = n % 256 := by
        have hsame := congrArg UInt8.toNat (List.cons.inj hlow).1
        simpa using hsame
      have hdiv : m / 256 = n / 256 := by
        rw [pow_succ] at hm hn
        exact ih (Nat.div_lt_of_lt_mul (by omega))
          (Nat.div_lt_of_lt_mul (by omega)) hhigh
      omega

def StateKind.byte : StateKind → UInt8
  | .text => 1
  | .struct => 2

theorem StateKind.byte_injective {kind kind' : StateKind}
    (h : kind.byte = kind'.byte) : kind = kind' := by
  revert h
  cases kind <;> cases kind' <;> decide

namespace CanonicalState

/-- Self-describing bytes: magic, version, kind, payload length, payload. -/
def versionedCanonicalBytes (state : CanonicalState) : List UInt8 :=
  asBytes "DJST" ++ (beBytes 4 state.canonicalVersion ++
    state.kind.byte :: (beBytes 8 state.canonical.length ++ state.canonical))

/-- The payload is a `Vec`, which holds at most `isize::MAX` bytes. -/
def Storable (state : CanonicalState) : Prop :=
  state.canonical.length < 2 ^ 63

instance (state : CanonicalState) : Decidable state.Storable :=
  inferInstanceAs (Decidable (_ < _))

end CanonicalState

/-- A state whose versioned bytes begin those of another is that state. -/
theorem Encoded.eq_of_versioned_prefix {state state' : CanonicalState}
    (h : Encoded W state) (h' : Encoded W state') (hstorable : state.Storable)
    (hstorable' : state'.Storable)
    (hfirst : state.versionedCanonicalBytes <+:
      state'.versionedCanonicalBytes) : state = state' := by
  obtain ⟨tail, htail⟩ := hfirst
  simp only [CanonicalState.versionedCanonicalBytes, List.append_assoc,
    List.cons_append, h.canonicalVersion_eq, h'.canonicalVersion_eq] at htail
  have hheader := List.append_cancel_left (List.append_cancel_left htail)
  obtain ⟨hbyte, hpayload⟩ := List.cons.inj hheader
  obtain ⟨hwidth, hcanonical⟩ := List.append_inj hpayload
    (by rw [length_beBytes, length_beBytes])
  have hbound : (2 : ℕ) ^ 63 < 256 ^ 8 := by decide
  have hlength : state.canonical.length = state'.canonical.length :=
    beBytes_injective (hstorable.trans hbound) (hstorable'.trans hbound) hwidth
  have hbytes : state.canonical = state'.canonical :=
    (List.append_inj (hcanonical.trans (List.append_nil _).symm) hlength).1
  exact h.eq_of_canonical h' (StateKind.byte_injective hbyte) hbytes

/-- Kinds and canonical bytes are as exact as typed values, identities as
exact as requests and contexts, and no versioned bytes begin others. -/
theorem identity_exact (W : WireText) :
    (∀ state state', Encoded W state → Encoded W state' →
      (state.kind = state'.kind ∧ state.canonical = state'.canonical ↔
        state.value = state'.value)) ∧
    (∀ request request' context context', WellFormed W request →
      WellFormed W request' →
      (JudgmentIdentity.new request context =
          JudgmentIdentity.new request' context' ↔
        SameQuestion request request' ∧ SameScope context context')) ∧
    ∀ state state', Encoded W state → Encoded W state' → state.Storable →
      state'.Storable →
      state.versionedCanonicalBytes <+: state'.versionedCanonicalBytes →
        state = state' :=
  ⟨fun _ _ h h' => h.canonical_iff h', fun _ _ _ _ h h' => h.identity_eq_iff h',
    fun _ _ h h' hstorable hstorable' => h.eq_of_versioned_prefix h' hstorable
      hstorable'⟩

/-- A number beside a struct of a float, a text with quotes and a wide
integer. -/
def nestedFields (number : TypedValue) : List (String × TypedValue) :=
  [("number", number),
    ("within", .struct [("share", .float .half), ("text", .text "\"x\""),
      ("wide", .bigInt ⟨"-17", by simp⟩)])]

def nestedState (number : TypedValue) : CanonicalState where
  canonicalVersion := canonicalVersion
  kind := .struct
  canonical := asBytes (structText literalText (nestedFields number))
  value := .struct (nestedFields number)

theorem nestedState_encoded {number : TypedValue}
    (h : validateValue number = .ok ()) :
    Encoded literalText (nestedState number) := by
  have hfields : validateFields (nestedFields number) = .ok () := by
    rw [nestedFields, validateFields, h]
    rfl
  refine Or.inr ⟨nestedFields number, ?_⟩
  rw [encodeStruct, validateValue, hfields]
  rfl

/-- The same question as `textRequest`, about a nested state. -/
def nestedRequest (number : TypedValue) : JudgmentRequest :=
  { textRequest "" with state := nestedState number }

theorem wellFormed_nestedRequest {number : TypedValue}
    (h : validateValue number = .ok ()) :
    WellFormed literalText (nestedRequest number) := by
  refine ⟨_, nestedState_encoded h, Or.inl ⟨"the text is a complaint", ?_⟩⟩
  rw [JudgmentRequest.noul, if_neg (by decide)]
  rfl

/-- A signed and an unsigned seven are told apart by the canonical bytes, by
the identities and by the versioned bytes, in nested states. -/
theorem identity_exact_nested :
    (nestedState (.int 7)).canonical ≠ (nestedState (.uint 7)).canonical ∧
      JudgmentIdentity.new (nestedRequest (.int 7)) aliasContext ≠
        JudgmentIdentity.new (nestedRequest (.uint 7)) aliasContext ∧
      ¬(nestedState (.int 7)).versionedCanonicalBytes <+:
        (nestedState (.uint 7)).versionedCanonicalBytes := by
  have hsigned : Encoded literalText (nestedState (.int 7)) :=
    nestedState_encoded rfl
  have hunsigned : Encoded literalText (nestedState (.uint 7)) :=
    nestedState_encoded rfl
  have hvalue : (nestedState (.int 7)).value ≠ (nestedState (.uint 7)).value :=
    fun h => nomatch h
  refine ⟨?_, ?_, ?_⟩
  · intro hcanonical
    exact hvalue
      (((identity_exact literalText).1 _ _ hsigned hunsigned).mp
        ⟨rfl, hcanonical⟩)
  · intro hidentity
    obtain ⟨hquestion, -⟩ := ((identity_exact literalText).2.1 _ _ _ _
      (wellFormed_nestedRequest rfl)
      (wellFormed_nestedRequest rfl)).mp hidentity
    exact hvalue (congrArg CanonicalState.value hquestion.state_eq)
  · intro hfirst
    have hstate := (identity_exact literalText).2.2 _ _ hsigned hunsigned
      (by decide +kernel) (by decide +kernel) hfirst
    exact hvalue (congrArg CanonicalState.value hstate)

end DuckJeu
