import DuckJeu.Executor.Limits
import DuckJeu.Executor.Provenance

/-!
# The context of cached results

The key of a cached result does not say whether its request carried other
judgments as well.  So a call without batches may be served a result which was
judged in the context of other rows.  It is not, as long as it shares no key
with a group which a batched call may have combined with others before.
-/

namespace DuckJeu

open Effects ConnectionRuntime

variable {ι : Type} [DecidableEq ι]

/-- The call, if it is without batches, shares no key with a group which the
other call may send together with further groups. -/
def Call.ApartFrom (call other : Call) : Prop :=
  call.mode = .single → ∀ group ∈ call.groups, ∀ source ∈ other.groups,
    ∀ key, call.cacheKey group = some key →
      other.cacheKey source = some key → ¬ other.Combines source

/-- Whenever a call takes a step, it is apart from the calls which have begun
before. -/
def ContextsApart (calls : ι → Call) (log : WorkerLog ι) : Prop :=
  ∀ i event earlier, (i, event) :: earlier <:+ log →
    ∀ j, Log.of earlier j ≠ [] → (calls i).ApartFrom (calls j)

/-- Every result which a call without batches takes from the cache was stored
there last after a request with that one judgment, as the answer to it. -/
def SingleContext (calls : ι → Call) (log : WorkerLog ι) : Prop :=
  ∀ i key now policy result earlier, (calls i).mode = .single →
    (i, ⟨.cacheLookup (some key) now policy, some result⟩) :: earlier <:+ log →
      ∃ j older d, LastStored earlier key j older result ∧
        lastDispatch (Log.of older j) = some d ∧ d.requests.length = 1 ∧
          ∃ source ∈ (calls j).groups, (calls j).cacheKey source = some key ∧
            d.Answers source.request result key.effectiveModel

/-- As long as calls without batches keep apart from those which may combine
their judgments, whatever they take from the cache has their context. -/
theorem single_context_of_apart (c : ConnectionRuntime)
    (hempty : c.cache.entries = ∅) (calls : ι → Call) {p : Workers ι}
    (hreach : Workers.Reach HostStep (Workers.start c calls) p)
    (hapart : ContextsApart calls p.log) : SingleContext calls p.log := by
  intro i key now policy result earlier hsingle hsuffix
  obtain ⟨key', hkey, j, older, hstored, source, hsource, hsourceKey, d, hd,
    hanswers⟩ := (Workers.justified hempty hreach).2 i _ now policy result
      earlier hsuffix
  obtain rfl := Option.some.inj hkey
  refine ⟨j, older, d, hstored, hd, ?_, source, hsource, hsourceKey, hanswers⟩
  have hbefore : d ∈ dispatches (Log.of earlier j) := by
    obtain ⟨newer, hnewer⟩ := hstored.suffix
    rw [← hnewer, Log.of_append]
    exact dispatches_subset (List.suffix_append _ _) (lastDispatch_mem hd)
  have hsent : d ∈ dispatches (p.log.of j) := by
    obtain ⟨newer, hnewer⟩ := (List.suffix_cons _ _).trans hsuffix
    rw [← hnewer, Log.of_append]
    exact dispatches_subset (List.suffix_append _ _) hbefore
  obtain ⟨response, requestKey, -, -, hmem, -⟩ := hanswers
  refine (Workers.alone_or_combines (fun _ _ h => h.slots.1) hreach hsent
    hmem).resolve_right ?_
  -- whoever looks up a key has a group with it
  have hlookup : (⟨.cacheLookup (some key) now policy, some result⟩ :
      ExecEvent) ∈ p.log.of i :=
    Log.mem_of.mpr (hsuffix.subset (List.mem_cons_self ..))
  obtain ⟨_, -, -, group, hgroup, hgroupKey⟩ :=
    Workers.allowed (fun _ _ h => h.slots.1) hreach hlookup
  have hbegun : Log.of earlier j ≠ [] := by
    intro hnone
    rw [hnone] at hbefore
    cases hbefore
  exact hapart i _ earlier hsuffix j hbegun hsingle group hgroup source hsource
    key hgroupKey.symm hsourceKey

/-! ## Batches of one judgment -/

theorem hitAfter_batchedAlone : HitAfter (.batched 1 insertionOrder) 1 :=
  hitAfter_of_run (by decide)

/-- Batches of at most one judgment combine nothing. -/
theorem queryCalls_apart (log : WorkerLog Bool) :
    ContextsApart (queryCalls (.batched 1 insertionOrder) .single) log := by
  rintro i event earlier - j - - group - source - key - - ⟨-, maxJudgments,
    order, batch, hmode, -, hseveral, -, hfits, -⟩
  cases j with
  | true => cases hmode
  | false =>
      obtain ⟨rfl, -⟩ := Mode.batched.inj hmode
      have hlength := (exceeds_eq_false_iff.mp hfits).1
      have hlimit : batchLimit
          (queryCalls (.batched 1 insertionOrder) .single false).provider 1 =
            1 := rfl
      omega

theorem single_context_of_apart_twice :
    ∃ (p : Workers Bool) (key : JudgmentIdentity) (now : ℕ)
      (policy : CachePolicy) (earlier : WorkerLog Bool),
      (true, ⟨.cacheLookup (some key) now policy, some (.noul .half)⟩) ::
          earlier <:+ p.log ∧
        SingleContext (queryCalls (.batched 1 insertionOrder) .single)
          p.log := by
  obtain ⟨p, hreach, ⟨now, policy, earlier, hsuffix⟩, -⟩ :=
    hitAfter_batchedAlone
  exact ⟨p, _, now, policy, earlier, hsuffix,
    single_context_of_apart firstQuery rfl
      (queryCalls (.batched 1 insertionOrder) .single) hreach
      (queryCalls_apart p.log)⟩

/-- With one provider and one model, a call without batches may take a result
from the cache which came out of a request with several judgments. -/
theorem composite_result_served :
    ¬ ∀ (c : ConnectionRuntime), c.cache.entries = ∅ →
      ∀ (provider : Provider) (context : JudgmentIdentityContext)
        (calls : Bool → Call), OneModel provider context calls →
        ∀ p, Workers.Reach HostStep (Workers.start c calls) p →
          SingleContext calls p.log := by
  intro h
  obtain ⟨p, hreach, ⟨now, policy, earlier, hsuffix⟩, hsizes⟩ :=
    hitAfter_batched
  obtain ⟨j, older, d, hstored, hd, hone, -⟩ := h firstQuery rfl _ _ _
    (queryCalls_oneModel _ _) p hreach true _ now policy _ earlier rfl hsuffix
  obtain ⟨newer, hnewer⟩ :=
    hstored.suffix.trans ((List.suffix_cons _ _).trans hsuffix)
  have hmem : d ∈ dispatches (p.log.of j) := by
    rw [← hnewer, Log.of_append]
    exact dispatches_subset (List.suffix_append _ _) (lastDispatch_mem hd)
  rw [hsizes j d hmem] at hone
  cases hone

end DuckJeu
