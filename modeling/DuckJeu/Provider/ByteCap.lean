import DuckJeu.Core.JsonString
import DuckJeu.Executor.Limits
import DuckJeu.Provider.Http

/-!
# The byte limit on the wire

The executor compares the limit with an estimate, and the adapters estimate
exactly.  So no body is longer than the limit allows, for a single request as
for a batch, whose requests have got new keys before they were measured.
-/

namespace DuckJeu

open Effects Json

/-! ## The bodies -/

/-- What the provider does for an operation of the executor. -/
def HttpProvider.call (http : HttpProvider) :
    ProviderCall → List JudgmentRequest → Option (Post ProviderBatchResult)
  | .judgeMany, requests => some (http.judgeMany requests)
  | .judgeWithMetadata, [judgment] => some (http.judgeWithMetadata judgment)
  | .judgeWithMetadata, _ => none

/-- One of the two adapters over HTTP. -/
inductive HttpAdapter (toVec : Wire → Option (List UInt8)) :
    HttpProvider → Prop where
  | typesafe (a : TypesafeAdapter) : HttpAdapter toVec (a.httpProvider toVec)
  | localJev (p : LocalJevProvider) : HttpAdapter toVec (p.httpProvider toVec)

theorem HttpAdapter.exactOnWire {toVec : Wire → Option (List UInt8)}
    {http : HttpProvider} (hadapter : HttpAdapter toVec http) :
    http.ExactOnWire := by
  cases hadapter with
  | typesafe a => exact a.exactOnWire toVec
  | localJev p => exact p.exactOnWire toVec

/-- Bodies of exact size within the estimated limit are within the limit. -/
theorem HttpProvider.ExactOnWire.capped {http : HttpProvider}
    (hexact : http.ExactOnWire) {limits : ExecutionLimits}
    {method : ProviderCall} {carried : List JudgmentIdentity}
    {requests : List JudgmentRequest}
    (hcap : Op.WithinCap http.declared limits
      (.judge method carried requests)) :
    ∃ post, http.call method requests = some post ∧
      ∀ h q, post.run.After h q → ∀ body ∈ bodies h,
        body.length ≤ limits.maxRequestBytes := by
  obtain ⟨hbytes, hsingle⟩ := hcap
  have hsize : ∀ sent,
      SentOf (http.declared.estimateRequestBytes requests) sent →
      ∀ body ∈ sent, body.length ≤ limits.maxRequestBytes := by
    rintro sent (rfl | ⟨body, rfl, hlength⟩) other hother
    · cases hother
    · rw [List.mem_singleton.mp hother, hlength]
      exact hbytes
  cases method with
  | judgeMany =>
      refine ⟨http.judgeMany requests, rfl, fun h q hafter => ?_⟩
      exact hsize _ (hexact.many requests h q hafter)
  | judgeWithMetadata =>
      obtain ⟨judgment, rfl⟩ := hsingle rfl
      refine ⟨http.judgeWithMetadata judgment, rfl, fun h q hafter => ?_⟩
      exact hsize _ (hexact.single judgment h q hafter)

/-! ## A small body -/

/-- The text of a body without numbers, as bytes. -/
def literalBytes (body : Wire) : Option (List UInt8) :=
  some (asBytes (Value.text literalWriter body))

def pinnedHttp : HttpProvider :=
  (TypesafeAdapter.new "jev-1.13.0").httpProvider literalBytes

def pinnedCall : Call :=
  { textCall 0 .single none with provider := pinnedHttp.declared }

/-- The body of a small request. -/
def pinnedBytes : List UInt8 :=
  asBytes (Value.text literalWriter
    ((TypesafeAdapter.new "jev-1.13.0").buildBody (textRequest "a")))

theorem pinned_sends : ∃ h q,
    (pinnedHttp.judgeWithMetadata (textRequest "a")).run.After h q ∧
      (bodies h).map List.length = [236] := by
  have hlength : pinnedBytes.length = 236 := by decide +kernel
  obtain ⟨k, hprogram⟩ : ∃ k : ℕ → ℕ → ℕ → HttpRes (.send pinnedBytes) →
        Prog HttpOp HttpRes (Except JudgmentError ProviderBatchResult),
      (pinnedHttp.judgeWithMetadata (textRequest "a")).run =
        .call .now fun started => .call .now fun serialized =>
          .call .now fun sent =>
            .call (.send pinnedBytes) (k started serialized sent) :=
    ⟨_, rfl⟩
  refine ⟨[⟨.send pinnedBytes, .error "unreachable"⟩, ⟨.now, 2⟩, ⟨.now, 1⟩,
    ⟨.now, 0⟩], k 0 1 2 (.error "unreachable"), ?_, ?_⟩
  · exact ⟨_, ⟨_, ⟨_, ⟨_, hprogram.symm, rfl⟩, rfl⟩, rfl⟩, rfl⟩
  · exact congrArg (fun n => [n]) hlength

/-! ## The limit -/

/-- Each adapter sends bodies of exactly the estimated size, and for any
workers, groups and splitting no body is longer than the limit of the call. -/
theorem request_byte_cap {toVec : Wire → Option (List UInt8)}
    {http : HttpProvider} (hadapter : HttpAdapter toVec http) :
    http.ExactOnWire ∧
      ∀ {ι : Type} [DecidableEq ι] {c : ConnectionRuntime} {calls : ι → Call}
        {host : ConnectionRuntime → ConnectionRuntime → Prop} {p : Workers ι},
        Workers.Reach host (Workers.start c calls) p →
        ∀ {i : ι}, (calls i).provider = http.declared →
        ∀ {method carried requests response},
          (i, ⟨.judge method carried requests, response⟩) ∈ p.log →
          ∃ post, http.call method requests = some post ∧
            ∀ h q, post.run.After h q → ∀ body ∈ bodies h,
              body.length ≤ (calls i).limits.maxRequestBytes := by
  refine ⟨hadapter.exactOnWire, ?_⟩
  intro ι _ c calls host p hreach i hprovider method carried requests
    response hmem
  have hafter : (calls i).program.After (p.log.of i) (p.thread i) :=
    hreach.after rfl i
  have hcap := Call.withinCap hafter _ (Log.mem_of.mpr hmem)
  rw [hprovider] at hcap
  exact hadapter.exactOnWire.capped hcap

theorem request_byte_cap_text :
    (∃ h q, (pinnedHttp.judgeWithMetadata (textRequest "a")).run.After h q ∧
        (bodies h).map List.length = [236]) ∧
      ∃ (p : Workers Unit) (method : ProviderCall)
        (carried : List JudgmentIdentity) (requests : List JudgmentRequest)
        (response : Except JudgmentError ProviderBatchResult),
        ((), ⟨.judge method carried requests, response⟩) ∈ p.log ∧
        ∃ post, pinnedHttp.call method requests = some post ∧
          ∀ h q, post.run.After h q →
            ∀ body ∈ bodies h, body.length ≤ 1000 := by
  have hrun : (halfEnvironment.run pinnedCall.program firstQuery).map
      (fun x => (dispatches x.2.2).length) = some 2 := by
    decide +kernel
  obtain ⟨⟨answer, s, events⟩, hrun, hcount⟩ := Option.map_eq_some_iff.mp hrun
  obtain ⟨p, hreach, -, -, hlog⟩ :=
    Workers.run_alone QueryStep halfEnvironment hrun
  have hsome : dispatches events ≠ [] := by
    intro hnone
    simp [hnone] at hcount
  obtain ⟨d, hd⟩ := List.exists_mem_of_ne_nil _ hsome
  obtain ⟨method, hmem⟩ := mem_dispatches.mp hd
  rw [← hlog, Log.mem_of] at hmem
  have hadapter : HttpAdapter literalBytes pinnedHttp := .typesafe _
  obtain ⟨-, hcap⟩ := request_byte_cap hadapter
  exact ⟨pinned_sends, p, method, d.carried, d.requests, d.response,
    hmem, hcap hreach rfl hmem⟩

end DuckJeu
