import DuckJeu.Executor.Undisturbed
import DuckJeu.Support.Rounding

/-!
# The mock provider

This module follows `mock.rs`.  The provider which is used by default derives
each result from a hash of the state and the question.  Its results are in the
domain of their requests, and do not depend on the request key.
-/

namespace DuckJeu

/-! ## Division of floats -/

/-- The float `n / d`, for integers without rounding and a quotient of at most
one. -/
def F64.quotient (n d : ℕ) : F64 :=
  if n = 0 then .zero
  else
    let s := Rounding.shift 52 n d
    ⟨UInt64.ofNat ((1075 - s) * 2 ^ 52 +
      (Rounding.nearest (n * 2 ^ s) d - 2 ^ 52))⟩

example : F64.quotient 1 2 = .half := by decide

example : F64.quotient 1 3 = ⟨0x3FD5555555555555⟩ := by decide

namespace F64

/-- Bits below the exponent of infinity are those of a finite number, which
stands at their place. -/
theorem ofNat_position (bits : ℕ) (h : bits < 0x7FF0000000000000) :
    (⟨UInt64.ofNat bits⟩ : F64).isFinite = true ∧
      (⟨UInt64.ofNat bits⟩ : F64).isNaN = false ∧
      (⟨UInt64.ofNat bits⟩ : F64).position = bits := by
  have htoNat : (UInt64.ofNat bits).toNat = bits :=
    UInt64.toNat_ofNat_of_lt' (lt_trans h (by decide))
  have hmagnitude : (⟨UInt64.ofNat bits⟩ : F64).magnitude = bits := by
    rw [magnitude, htoNat]
    exact Nat.mod_eq_of_lt (by omega)
  have hsign : (⟨UInt64.ofNat bits⟩ : F64).isNegative = false := by
    rw [isNegative, htoNat]
    exact decide_eq_false (by omega)
  refine ⟨?_, ?_, ?_⟩
  · rw [isFinite, hmagnitude]
    exact decide_eq_true h
  · rw [isNaN, hmagnitude]
    exact decide_eq_false (by omega)
  · rw [position, hsign, hmagnitude]
    rfl

section Quotient

variable {n d : ℕ}

/-- Where a positive quotient stands. -/
theorem quotient_position (hn : 0 < n) (hnd : n ≤ d) :
    ∃ bits, bits ≤ 1023 * 2 ^ 52 ∧ quotient n d = ⟨UInt64.ofNat bits⟩ ∧
      (1022 * 2 ^ 52 ≤ bits ↔
        Rounding.shift 52 n d ≤ 53 ∨
          (Rounding.shift 52 n d = 54 ∧
            Rounding.nearest (n * 2 ^ 54) d = 2 ^ 53)) := by
  have hd : 0 < d := by omega
  obtain ⟨hlow, hhigh⟩ := Rounding.shift_spec 52 hn hnd
  let s := Rounding.shift 52 n d
  have hleast : 2 ^ 52 ≤ Rounding.nearest (n * 2 ^ s) d :=
    Rounding.le_nearest hd hlow
  have hmost : Rounding.nearest (n * 2 ^ s) d ≤ 2 ^ 53 :=
    Rounding.nearest_le hd hhigh.le
  have hshift : 52 ≤ s := by
    by_contra hless
    have hsmall : n * 2 ^ s < 2 ^ 52 * d := by
      calc n * 2 ^ s ≤ d * 2 ^ s := Nat.mul_le_mul_right _ hnd
        _ < d * 2 ^ 52 := Nat.mul_lt_mul_of_pos_left
            (Nat.pow_lt_pow_right (by omega) (by omega)) hd
        _ = 2 ^ 52 * d := Nat.mul_comm ..
    exact absurd hlow (not_le.mpr hsmall)
  -- a quotient which is not shifted further is one
  have hone : s = 52 → Rounding.nearest (n * 2 ^ s) d = 2 ^ 52 := by
    intro hs
    refine le_antisymm (Rounding.nearest_le hd ?_) hleast
    rw [hs, Nat.mul_comm]
    exact Nat.mul_le_mul_left _ hnd
  refine ⟨(1075 - s) * 2 ^ 52 + (Rounding.nearest (n * 2 ^ s) d - 2 ^ 52),
    ?_, ?_, ?_⟩
  · by_cases hs : s = 52
    · rw [hone hs, hs]
      decide
    · omega
  · rw [quotient, if_neg (by omega)]
  · change _ ↔ s ≤ 53 ∨ (s = 54 ∧ Rounding.nearest (n * 2 ^ 54) d = 2 ^ 53)
    by_cases hs : s = 54
    · rw [hs] at hleast hmost ⊢
      omega
    · omega

theorem quotient_inUnit (hnd : n ≤ d) :
    (quotient n d).isFinite = true ∧ F64.le .zero (quotient n d) = true ∧
      F64.le (quotient n d) .one = true := by
  by_cases hn : n = 0
  · rw [quotient, if_pos hn]
    decide
  · obtain ⟨bits, hbits, heq, -⟩ := quotient_position (by omega) hnd
    obtain ⟨hfinite, hnan, hposition⟩ := ofNat_position bits (by omega)
    have hzero : F64.zero.isNaN = false ∧ F64.zero.position = 0 := by decide
    have hone : F64.one.isNaN = false ∧ F64.one.position = 1023 * 2 ^ 52 := by
      decide
    rw [heq]
    refine ⟨hfinite, ?_, ?_⟩
    · rw [F64.le, hnan, hposition, hzero.1, hzero.2]
      simp
    · rw [F64.le, hnan, hposition, hone.1, hone.2]
      simpa using by omega

/-- Rounding does not move a quotient across one half. -/
theorem half_le_quotient (hd : 0 < d) (hsmall : d < 2 ^ 52) (hnd : n ≤ d) :
    F64.le .half (quotient n d) = decide (d ≤ 2 * n) := by
  by_cases hn : n = 0
  · rw [quotient, if_pos hn]
    have hfalse : F64.le .half .zero = false := by decide
    rw [hfalse, eq_comm, decide_eq_false_iff_not]
    omega
  · have hpos : 0 < n := by omega
    obtain ⟨bits, hbits, heq, hhalf⟩ := quotient_position hpos hnd
    obtain ⟨-, hnan, hposition⟩ := ofNat_position bits (by omega)
    have hplace : F64.half.isNaN = false ∧
        F64.half.position = 1022 * 2 ^ 52 := by decide
    have hle : F64.le .half (quotient n d) = decide (1022 * 2 ^ 52 ≤ bits) := by
      rw [heq, F64.le, hnan, hposition, hplace.1, hplace.2]
      simp only [Bool.not_false, Bool.true_and]
      congr 1
      exact propext (by omega)
    rw [hle]
    congr 1
    refine propext (hhalf.trans ?_)
    constructor
    · rintro (hshift | ⟨-, hnearest⟩)
      · by_contra hless
        have hlarge := Rounding.le_shift (p := 52) (k := 1) hpos hnd
          (by omega)
        omega
      · by_contra hless
        have hstrict : Rounding.nearest (n * 2 ^ 54) d < 2 ^ 53 := by
          refine Rounding.nearest_lt hd ?_
          omega
        omega
    · intro hlarge
      exact Or.inl (Rounding.shift_le (p := 52) (k := 1) hpos hnd (by omega))

end Quotient

end F64

/-! ## The provider -/

def mockEffectiveModel : String := "duckjeu-deterministic-mock-v1"

/-- FNV-1a with 64 bits. -/
def fnv1a (bytes : List UInt8) (seed : UInt64) : UInt64 :=
  bytes.foldl (fun hash b => (hash ^^^ b.toUInt64) * 0x100000001b3) seed

def deriveHash (request : JudgmentRequest) : UInt64 :=
  let hash := fnv1a request.state.canonical 0xcbf29ce484222325
  match request.kind with
  | .noul =>
      let hash := fnv1a (asBytes "noul") hash
      match request.criterion with
      | none => hash
      | some criterion => fnv1a (asBytes criterion) hash
  | .choice =>
      let hash := fnv1a (asBytes "choice") hash
      let hash :=
        match request.question with
        | none => hash
        | some question => fnv1a (asBytes question) hash
      request.choices.foldl
        (fun hash label => fnv1a (asBytes label) (fnv1a [0x1f] hash)) hash

namespace MockProvider

def probability (hash : UInt64) : F64 :=
  F64.quotient (hash.toNat % 1000001) 1000000

/-- The candidate at a place given by the hash.  A request for a choice has
candidates. -/
def label (hash : UInt64) (choices : List String) : String :=
  (choices[hash.toNat % choices.length]?).getD ""

def judge (request : JudgmentRequest) :
    Except JudgmentError JudgmentResult :=
  let hash := deriveHash request
  match request.kind with
  | .noul =>
      match validateProbability (probability hash) with
      | .error e => .error e
      | .ok value => .ok (.noul value)
  | .choice =>
      match validateLabel (label hash request.choices) request.choices with
      | .error e => .error e
      | .ok label => .ok (.choice label)

def metadata : ProviderMetadata :=
  { effectiveModel := some mockEffectiveModel }

def judgeWithMetadata (request : JudgmentRequest) :
    Except JudgmentError ProviderBatchResult :=
  match judge request with
  | .error e => .error e
  | .ok result =>
      .ok { answers := [⟨request.requestKey, result⟩], metadata := metadata }

/-- The answers in request order. -/
def answers : List JudgmentRequest → Except JudgmentError (List ProviderAnswer)
  | [] => .ok []
  | request :: rest =>
      match judge request with
      | .error e => .error e
      | .ok result =>
          match answers rest with
          | .error e => .error e
          | .ok later => .ok (⟨request.requestKey, result⟩ :: later)

def judgeMany (requests : List JudgmentRequest) :
    Except JudgmentError ProviderBatchResult :=
  match answers requests with
  | .error e => .error e
  | .ok answers =>
      let response : ProviderBatchResult :=
        { answers := answers, metadata := metadata }
      match validateBatchResult requests response with
      | .error e => .error e
      | .ok () => .ok response

/-- The estimate of the provider interface, for one request more. -/
def estimate (total : ℕ) (request : JudgmentRequest) : ℕ :=
  let length := fun text : Option String => text.elim 0 String.utf8ByteSize
  let textBytes := length request.criterion + length request.question +
    (request.choices.map String.utf8ByteSize).sum
  total + 512 + request.state.canonical.length * 6 + textBytes * 6 +
    request.requestKey.utf8ByteSize * 6

def declared : Provider where
  capabilities :=
    { protocolVersion := "duckjeu-mock/1"
      noul := .verified
      choice := .verified
      multiStateBatch := .verified
      maxBatchJudgments := none
      maxChoices := none }
  makesExternalRequest := false
  cacheModelIdentity := fun _ => some mockEffectiveModel
  estimateRequestBytes := fun requests =>
    min (requests.foldl estimate 1024) usizeMax

/-! ## What it answers -/

/-- The result of every request, which does not depend on its key. -/
def verdict (request : JudgmentRequest) : JudgmentResult :=
  match request.kind with
  | .noul => .noul (probability (deriveHash request))
  | .choice => .choice (label (deriveHash request) request.choices)

def verdicts : Judge where
  value := fun kind state criterion question choices =>
    verdict ⟨kind, state, criterion, question, choices, ""⟩

theorem judge_eq {request : JudgmentRequest} {result : JudgmentResult}
    (h : judge request = .ok result) : result = verdict request := by
  unfold judge at h
  unfold verdict
  cases hkind : request.kind with
  | noul =>
      simp only [hkind] at h
      split at h
      · cases h
      rename_i value hvalue
      unfold validateProbability at hvalue
      split at hvalue
      · cases hvalue
      split at hvalue
      · cases hvalue
      rw [← Except.ok.inj h, ← Except.ok.inj hvalue]
  | choice =>
      simp only [hkind] at h
      split at h
      · cases h
      rename_i checked hchecked
      unfold validateLabel at hchecked
      split at hchecked
      · rw [← Except.ok.inj h, ← Except.ok.inj hchecked]
      · cases hchecked

/-- A result of the provider is in the domain of its request. -/
theorem verdict_inDomain {W : WireText} {request : JudgmentRequest}
    (h : WellFormed W request) : request.InDomain (verdict request) := by
  have hsmall : (deriveHash request).toNat % 1000001 ≤ 1000000 := by omega
  obtain ⟨state, -, ⟨criterion, hnoul⟩ | ⟨question, choices, hchoice⟩⟩ := h
  · have hkind : request.kind = .noul := by rw [noul_ok hnoul]
    rw [verdict, hkind]
    exact ⟨hkind, F64.quotient_inUnit hsmall⟩
  · have hkind : request.kind = .choice := by rw [choice_ok hchoice]
    have hsome : 0 < request.choices.length := by
      rw [choice_ok hchoice]
      unfold JudgmentRequest.choice at hchoice
      split at hchoice
      · cases hchoice
      split at hchoice
      · cases hchoice
      rename_i htwo
      exact lt_of_lt_of_le Nat.two_pos (not_lt.mp htwo)
    rw [verdict, hkind]
    refine ⟨hkind, ?_⟩
    rw [label, List.getElem?_eq_getElem (Nat.mod_lt _ hsome), Option.getD_some]
    exact List.getElem_mem _

theorem judge_ok {W : WireText} {request : JudgmentRequest}
    (h : WellFormed W request) : judge request = .ok (verdict request) := by
  have hsome : ∃ result, judge request = .ok result := by
    have hdomain := verdict_inDomain h
    unfold verdict at hdomain
    unfold judge
    cases hkind : request.kind with
    | noul =>
        simp only [hkind] at hdomain ⊢
        obtain ⟨value, hvalue⟩ := validateProbability_isOk.mpr hdomain.2
        exact ⟨.noul value, by rw [hvalue]⟩
    | choice =>
        simp only [hkind] at hdomain ⊢
        obtain ⟨label, hlabel⟩ := validateLabel_isOk.mpr hdomain.2
        exact ⟨.choice label, by rw [hlabel]⟩
  obtain ⟨result, hresult⟩ := hsome
  rw [hresult, judge_eq hresult]

theorem verdicts_valid (W : WireText) : verdicts.Valid W :=
  fun _ h => validFor_iff.mpr (verdict_inDomain h)

theorem answers_ok {requests : List JudgmentRequest}
    {found : List ProviderAnswer} (h : answers requests = .ok found) :
    found = requests.map
      fun request => ⟨request.requestKey, verdict request⟩ := by
  induction requests generalizing found with
  | nil => exact (Except.ok.inj h).symm
  | cons request rest ih =>
      rw [answers] at h
      split at h
      · cases h
      rename_i result hresult
      split at h
      · cases h
      rename_i later hlater
      rw [← Except.ok.inj h, judge_eq hresult, ih hlater, List.map_cons]

/-- Requests whose results are in their domains are all answered. -/
theorem answers_total {requests : List JudgmentRequest}
    (h : ∀ request ∈ requests, judge request = .ok (verdict request)) :
    answers requests = .ok
      (requests.map fun request => ⟨request.requestKey, verdict request⟩) := by
  induction requests with
  | nil => rfl
  | cons request rest ih =>
      obtain ⟨hfirst, hrest⟩ := List.forall_mem_cons.mp h
      rw [answers, hfirst, ih hrest, List.map_cons]

/-- What the provider does for an operation of the executor. -/
def call : ProviderCall → List JudgmentRequest →
    Option (Except JudgmentError ProviderBatchResult)
  | .judgeMany, requests => some (judgeMany requests)
  | .judgeWithMetadata, [judgment] => some (judgeWithMetadata judgment)
  | .judgeWithMetadata, _ => none

/-- A response answers the requests, whose keys are distinct, in their order
by their results. -/
theorem call_ok {method : ProviderCall} {requests : List JudgmentRequest}
    {response : ProviderBatchResult}
    (h : call method requests = some (.ok response)) :
    (requests.map JudgmentRequest.requestKey).Nodup ∧ response.answers =
      requests.map fun request => ⟨request.requestKey, verdict request⟩ := by
  cases method with
  | judgeMany =>
      have hmany := Option.some.inj h
      unfold judgeMany at hmany
      split at hmany
      · cases hmany
      rename_i found hfound
      dsimp only at hmany
      split at hmany
      · cases hmany
      rename_i haccepted
      rw [← Except.ok.inj hmany, ← answers_ok hfound]
      exact ⟨(validateBatchResult_ok haccepted).1, rfl⟩
  | judgeWithMetadata =>
      unfold call at h
      split at h
      · rename_i hmethod
        cases hmethod
      · rename_i judgment _
        have hsingle := Option.some.inj h
        unfold judgeWithMetadata at hsingle
        split at hsingle
        · cases hsingle
        rename_i result hresult
        rw [← Except.ok.inj hsingle, judge_eq hresult, List.map_cons,
          List.map_nil]
        exact ⟨List.nodup_singleton _, rfl⟩
      · cases h

/-- A request from the constructors is answered, whatever its key, and the
answer is valid for it. -/
theorem judged {W : WireText} {request : JudgmentRequest}
    (hformed : ∃ key, WellFormed W { request with requestKey := key }) :
    judge request = .ok (verdict request) ∧
      ValidFor request (verdicts.of request) := by
  obtain ⟨key, hkey⟩ := hformed
  have hok := judge_ok hkey
  exact ⟨hok, (verdicts_valid W _ hkey).congr rfl rfl⟩

section Accepted

variable {W : WireText} {requests : List JudgmentRequest}
  (hkeys : (requests.map JudgmentRequest.requestKey).Nodup)
  (hformed : ∀ request ∈ requests, ∃ key,
    WellFormed W { request with requestKey := key })

include hkeys hformed

/-- Requests from the constructors, under distinct keys, are answered, and the
answers are accepted. -/
theorem judgeMany_accepted :
    ∃ response, judgeMany requests = .ok response ∧
      validateBatchResult requests response = .ok () := by
  let response : ProviderBatchResult :=
    { answers := requests.map fun request =>
        ⟨request.requestKey, verdict request⟩
      metadata := metadata }
  have hanswers : verdicts.Answers requests response := List.Perm.refl _
  have haccepted := hanswers.accepted hkeys fun request hrequest =>
    (judged (hformed request hrequest)).2
  refine ⟨response, ?_, haccepted⟩
  rw [judgeMany, answers_total fun request hrequest =>
    (judged (hformed request hrequest)).1]
  dsimp only
  rw [haccepted]

/-- Whichever way they are sent. -/
theorem call_accepted {method : ProviderCall}
    {response : Except JudgmentError ProviderBatchResult}
    (h : call method requests = some response) :
    ∃ accepted, response = .ok accepted ∧
      validateBatchResult requests accepted = .ok () := by
  unfold call at h
  split at h
  · obtain ⟨accepted, hmany, haccepted⟩ := judgeMany_accepted hkeys hformed
    rw [hmany] at h
    exact ⟨accepted, (Option.some.inj h).symm, haccepted⟩
  · rename_i judgment
    obtain ⟨hjudge, hvalid⟩ := judged (hformed judgment (by simp))
    let single : ProviderBatchResult :=
      { answers := [⟨judgment.requestKey, verdict judgment⟩]
        metadata := metadata }
    have hanswers : verdicts.Answers [judgment] single := List.Perm.refl _
    refine ⟨single, ?_, hanswers.accepted hkeys (by simpa using hvalid)⟩
    rw [judgeWithMetadata, hjudge] at h
    exact (Option.some.inj h).symm
  · cases h

end Accepted

end MockProvider

end DuckJeu
