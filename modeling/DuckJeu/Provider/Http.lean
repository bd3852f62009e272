import DuckJeu.Core.Cache
import DuckJeu.Effects.Extension
import DuckJeu.Provider.Response

/-!
# HTTP requests of the adapters

This module follows the provider methods of `typesafe.rs`, and `localjev.rs`,
which passes each of them on.  An adapter estimates the size of a request, and
sends it, along different paths.

The serializer of JSON is a parameter.  The HTTP agent and the clock are
operations: the agent takes the bytes of a body and returns a response or the
text of its error, and the clock shows nanoseconds.
-/

namespace DuckJeu

open Effects Json

/-! ## The agent and the clock -/

/-- What the adapters read of a response.  The text of the body is given by
its syntax tree, if `serde_json::from_str` reads it at all. -/
structure HttpResponse where
  status : ℕ
  truncatedHeader : Option String
  body : Except String (Option Wire)

inductive HttpOp where
  | send (body : List UInt8)
  | now

/-- The result type of an operation. -/
abbrev HttpRes : HttpOp → Type
  | .send _ => Except String HttpResponse
  | .now => ℕ

/-- A program of an adapter. -/
abbrev Post (α : Type) := ExceptT JudgmentError (Prog HttpOp HttpRes) α

/-- Perform one operation of the agent or the clock. -/
abbrev request (op : HttpOp) : Post (HttpRes op) :=
  ExceptT.lift (Prog.perform op)

/-- The bodies which have been sent. -/
def bodies (h : List (Event HttpOp HttpRes)) : List (List UInt8) :=
  h.filterMap fun event =>
    match event with
    | ⟨.send body, _⟩ => some body
    | _ => none

/-- A provider which answers over HTTP: what it declares about itself, and its
two calls. -/
structure HttpProvider where
  declared : Provider
  judgeWithMetadata : JudgmentRequest → Post ProviderBatchResult
  judgeMany : List JudgmentRequest → Post ProviderBatchResult

/-! ## The TypeSafe adapter -/

def verifiedBatchEffectiveModel : String := "jev-1.13.0"

def multiStateBatchStatus (model : String) : CapabilityStatus :=
  if model = "jev-latest" ∨ model = verifiedBatchEffectiveModel then .verified
  else .unknown

/-- The adapter with the fields which set its protocols apart. -/
structure TypesafeAdapter extends TypesafeProvider where
  protocolVersion : String
  multiStateBatch : CapabilityStatus
  rejectTruncatedHeader : Bool
  authHint : String
  cacheableModelAliases : Bool

namespace TypesafeAdapter

def new (model : String) : TypesafeAdapter where
  model := model
  maxChoices := none
  protocolVersion := "typesafe-systemone/v1"
  multiStateBatch := multiStateBatchStatus model
  rejectTruncatedHeader := false
  authHint := "check DUCKJEU_API_KEY or TYPESAFE_API_KEY"
  cacheableModelAliases := true

def newLocaljev (model : String) : TypesafeAdapter where
  model := model
  maxChoices := some 255
  protocolVersion := "local-jev/64a0b31"
  multiStateBatch := .unsupported
  rejectTruncatedHeader := true
  authHint := "check DUCKJEU_LOCAL_JEV_API_KEY"
  cacheableModelAliases := false

section Calls

variable (toVec : Wire → Option (List UInt8)) (a : TypesafeAdapter)

/-- Serialize a body, send it, and read the response. -/
def postBody (requests : List JudgmentRequest) (body : Wire)
    (serializationStarted : ℕ) : Post ProviderBatchResult :=
  match toVec body with
  | none => throw (.provider "provider request could not be serialized")
  | some bytes => do
      let serialized ← request .now
      let roundtripStarted ← request .now
      match ← request (.send bytes) with
      | .error err => throw (.provider ("provider request failed: " ++ err))
      | .ok response =>
          if ¬ (200 ≤ response.status ∧ response.status < 300) then
            if response.status = 401 ∨ response.status = 403 then
              throw (.provider ("provider returned HTTP " ++
                toString response.status ++ " (" ++ a.authHint ++ ")."))
            else
              throw (.provider
                ("provider returned HTTP " ++ toString response.status))
          else if a.rejectTruncatedHeader &&
              response.truncatedHeader.any (fun value =>
                value.toList.map Char.toLower == "true".toList) then
            throw (.provider
              ("local-jev truncated the state; " ++
                "refusing a result based on partial input"))
          else
            match response.body with
            | .error err => throw (.provider
                ("provider response could not be read: " ++ err))
            | .ok text =>
                match a.parseBatchResponse requests text with
                | .error error => throw error
                | .ok result =>
                    if 1 < requests.length ∧ result.metadata.effectiveModel ≠
                        some verifiedBatchEffectiveModel then
                      throw (.provider
                        ("provider model does not match the verified " ++
                          "multi-state batch model"))
                    else do
                      let finished ← request .now
                      pure
                        { result with
                          metadata :=
                            { result.metadata with
                              serializationTimeNs := some (min
                                (serialized - serializationStarted) usizeMax)
                              externalRoundtripNs := some (min
                                (finished - roundtripStarted) usizeMax) } }

def postSingle (judgment : JudgmentRequest) : Post ProviderBatchResult :=
  match a.checkRequestCapabilities judgment with
  | .error error => throw error
  | .ok () => do
      let serializationStarted ← request .now
      a.postBody toVec [judgment] (a.buildBody judgment) serializationStarted

def judgeWithMetadata (judgment : JudgmentRequest) :
    Post ProviderBatchResult :=
  a.postSingle toVec judgment

/-- A single request is posted as such; a batch needs the capability. -/
def judgeMany (requests : List JudgmentRequest) : Post ProviderBatchResult :=
  match requests with
  | [judgment] => a.postSingle toVec judgment
  | _ =>
      match a.multiStateBatch with
      | .unknown => throw (.configuration
          "provider multi-state batch capability is not verified")
      | .unsupported => throw (.configuration
          "provider does not support cross-state batch requests")
      | .verified => do
          let serializationStarted ← request .now
          match a.buildBatchBody requests with
          | .error error => throw error
          | .ok body => a.postBody toVec requests body serializationStarted

/-- The size of the serialized body; the largest number when there is none. -/
def estimateRequestBytes (requests : List JudgmentRequest) : ℕ :=
  match a.buildBatchBody requests with
  | .error _ => usizeMax
  | .ok body =>
      match toVec body with
      | none => usizeMax
      | some bytes => bytes.length

end Calls

def capabilities (a : TypesafeAdapter) : ProviderCapabilities where
  protocolVersion := a.protocolVersion
  noul := .verified
  choice := .verified
  multiStateBatch := a.multiStateBatch
  maxBatchJudgments := none
  maxChoices := a.maxChoices

/-- `s.trim() == s`: no white space at either end. -/
def isTrimmed (s : String) : Bool :=
  !(s.toList.head?.any isWhitespace || s.toList.getLast?.any isWhitespace)

/-- The model names under which results are cached: `jev-` and a version of at
least two numbers. -/
def cacheModelIdentity (a : TypesafeAdapter) (requestedModel : String) :
    Option String :=
  if !a.cacheableModelAliases then none
  else if !"jev-".toList.isPrefixOf requestedModel.toList then none
  else
    let components := (requestedModel.toList.drop 4).splitOn '.'
    if !isTrimmed requestedModel || components.length < 2 ||
        components.any (fun part =>
          part.isEmpty || !part.all Char.isDigit) then none
    else some requestedModel

def httpProvider (toVec : Wire → Option (List UInt8)) (a : TypesafeAdapter) :
    HttpProvider where
  declared :=
    { capabilities := a.capabilities
      makesExternalRequest := true
      cacheModelIdentity := a.cacheModelIdentity
      estimateRequestBytes := a.estimateRequestBytes toVec }
  judgeWithMetadata := a.judgeWithMetadata toVec
  judgeMany := a.judgeMany toVec

end TypesafeAdapter

/-! ## The adapter for local-jev -/

/-- The adapter passes every call on to a TypeSafe adapter. -/
structure LocalJevProvider where
  inner : TypesafeAdapter

namespace LocalJevProvider

def new (model : String) : LocalJevProvider := ⟨.newLocaljev model⟩

def httpProvider (toVec : Wire → Option (List UInt8)) (p : LocalJevProvider) :
    HttpProvider where
  declared :=
    { capabilities := p.inner.capabilities
      makesExternalRequest := true
      cacheModelIdentity := p.inner.cacheModelIdentity
      estimateRequestBytes := p.inner.estimateRequestBytes toVec }
  judgeWithMetadata := p.inner.judgeWithMetadata toVec
  judgeMany := p.inner.judgeMany toVec

end LocalJevProvider

/-! ## The size of a body -/

/-- At most one body has been sent, and it has this size. -/
def SentOf (size : ℕ) (sent : List (List UInt8)) : Prop :=
  sent = [] ∨ ∃ body, sent = [body] ∧ body.length = size

/-- The protocol which allows one body, of one size. -/
def sized (size : ℕ) : Protocol HttpOp HttpRes (List (List UInt8)) where
  note := fun g op _ =>
    match op with
    | .send body => body :: g
    | .now => g
  Allowed := fun g op =>
    match op with
    | .send body => g = [] ∧ body.length = size
    | .now => True
  Admits := fun _ _ _ => True

theorem sized_replay (size : ℕ) (h : List (Event HttpOp HttpRes)) :
    (sized size).replay [] h = bodies h := by
  induction h with
  | nil => rfl
  | cons event h ih =>
      obtain ⟨op, r⟩ := event
      rw [Protocol.replay_cons, ih]
      cases op with
      | send body => rfl
      | now => rfl

/-- A program which keeps to a size sends one body of this size, or none. -/
theorem sentOf_of_secures {α : Type} {x : Post α} {size : ℕ}
    (hx : Secures (sized size) x (fun _ _ => True) (fun _ _ => True) [])
    {h : List (Event HttpOp HttpRes)}
    {p : Prog HttpOp HttpRes (Except JudgmentError α)}
    (hafter : x.run.After h p) : SentOf size (bodies h) := by
  have hkeep : ∀ (_ : List (Event HttpOp HttpRes)) (g : List (List UInt8))
      (op : HttpOp) (r : HttpRes op), SentOf size g →
      (sized size).Allowed g op →
      SentOf size ((sized size).note g op r) := by
    intro _ g op r hg hallowed
    cases op with
    | now => exact hg
    | send body =>
        obtain ⟨rfl, hsize⟩ := hallowed
        exact Or.inr ⟨body, rfl, hsize⟩
  have hadmits : ∀ g op r, (sized size).Admits g op r :=
    fun _ _ _ => trivial
  have hinit : (fun (_ : List (Event HttpOp HttpRes)) g => SentOf size g)
      [] [] := Or.inl rfl
  rw [← sized_replay size h]
  exact (hafter.follows hadmits hinit hkeep hx).1

namespace TypesafeAdapter

variable (toVec : Wire → Option (List UInt8)) (a : TypesafeAdapter)

/-- The one body which `postBody` sends is the serialized one. -/
theorem postBody_sized {requests : List JudgmentRequest} {body : Wire}
    {started size : ℕ}
    (hsize : ∀ bytes, toVec body = some bytes → bytes.length = size) :
    Secures (sized size) (a.postBody toVec requests body started)
      (fun _ _ => True) (fun _ _ => True) [] := by
  unfold postBody
  cases hbytes : toVec body with
  | none => exact trivial
  | some bytes =>
      dsimp only
      rw [secures_bind, secures_lift, follows_perform]
      refine ⟨trivial, fun serialized _ => ?_⟩
      rw [secures_bind, secures_lift, follows_perform]
      refine ⟨trivial, fun roundtripStarted _ => ?_⟩
      rw [secures_bind, secures_lift, follows_perform]
      refine ⟨⟨rfl, hsize bytes hbytes⟩, fun sent _ => ?_⟩
      cases sent with
      | error err => exact trivial
      | ok response =>
          dsimp only
          split
          · split
            · exact trivial
            · exact trivial
          split
          · exact trivial
          split
          · exact trivial
          split
          · exact trivial
          split
          · exact trivial
          rw [secures_bind, secures_lift, follows_perform]
          exact ⟨trivial, fun _ _ => trivial⟩

/-- The size of a body is estimated from the body itself. -/
theorem estimateRequestBytes_eq {requests : List JudgmentRequest} {body : Wire}
    (hbody : a.buildBatchBody requests = .ok body) {bytes : List UInt8}
    (hbytes : toVec body = some bytes) :
    bytes.length = a.estimateRequestBytes toVec requests := by
  rw [estimateRequestBytes, hbody]
  dsimp only
  rw [hbytes]

/-- A single request is estimated by the body of a batch, which is its own. -/
theorem postSingle_sized (judgment : JudgmentRequest) :
    Secures (sized (a.estimateRequestBytes toVec [judgment]))
      (a.postSingle toVec judgment) (fun _ _ => True) (fun _ _ => True)
      [] := by
  unfold postSingle
  split
  · exact trivial
  · rw [secures_bind, secures_lift, follows_perform]
    refine ⟨trivial, fun started _ => a.postBody_sized toVec ?_⟩
    intro bytes hbytes
    exact a.estimateRequestBytes_eq toVec rfl hbytes

theorem judgeMany_sized (requests : List JudgmentRequest) :
    Secures (sized (a.estimateRequestBytes toVec requests))
      (a.judgeMany toVec requests) (fun _ _ => True) (fun _ _ => True)
      [] := by
  unfold judgeMany
  split
  · exact a.postSingle_sized toVec _
  split
  · exact trivial
  · exact trivial
  · rw [secures_bind, secures_lift, follows_perform]
    refine ⟨trivial, fun started _ => ?_⟩
    cases hbody : a.buildBatchBody requests with
    | error error => exact trivial
    | ok body =>
        refine a.postBody_sized toVec ?_
        intro bytes hbytes
        exact a.estimateRequestBytes_eq toVec hbody hbytes

end TypesafeAdapter

/-! ## Exact estimates -/

/-- Wherever a call has got, the body it has sent has the size which the
provider estimates for its requests. -/
structure HttpProvider.ExactOnWire (http : HttpProvider) : Prop where
  single : ∀ judgment h p,
    (http.judgeWithMetadata judgment).run.After h p →
      SentOf (http.declared.estimateRequestBytes [judgment]) (bodies h)
  many : ∀ requests h p, (http.judgeMany requests).run.After h p →
    SentOf (http.declared.estimateRequestBytes requests) (bodies h)

theorem TypesafeAdapter.exactOnWire (toVec : Wire → Option (List UInt8))
    (a : TypesafeAdapter) : (a.httpProvider toVec).ExactOnWire where
  single := fun judgment _ _ hafter =>
    sentOf_of_secures (a.postSingle_sized toVec judgment) hafter
  many := fun requests _ _ hafter =>
    sentOf_of_secures (a.judgeMany_sized toVec requests) hafter

theorem LocalJevProvider.exactOnWire (toVec : Wire → Option (List UInt8))
    (p : LocalJevProvider) : (p.httpProvider toVec).ExactOnWire where
  single := fun judgment _ _ hafter =>
    sentOf_of_secures (p.inner.postSingle_sized toVec judgment) hafter
  many := fun requests _ _ hafter =>
    sentOf_of_secures (p.inner.judgeMany_sized toVec requests) hafter

end DuckJeu
