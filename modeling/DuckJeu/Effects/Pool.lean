import DuckJeu.Effects.Program
import Mathlib.Logic.Function.Basic
import Mathlib.Logic.Relation

/-!
# Pools of interleaved threads

A pool runs any number of programs over one shared state.  In one step either
a single thread performs its next operation atomically, or the host changes
the shared state on its own.  Every schedule is a path of such steps, so a
fact about all reachable pools is a fact about all interleavings.

The main rule turns local reasoning into global reasoning: if each thread
follows its protocol from its own ledger, and an invariant of the shared state
and the log guarantees what the protocols expect from the surroundings, then
both hold in every reachable pool.
-/

namespace Effects

variable {ι σ Op α γ : Type} {Res : Op → Type}

/-- The log of a pool: who performed which operation, the newest first. -/
abbrev Log (ι : Type) (Op : Type) (Res : Op → Type) :=
  List (ι × Event Op Res)

/-- The events of one thread, the newest first. -/
def Log.of [DecidableEq ι] (log : Log ι Op Res) (i : ι) :
    List (Event Op Res) :=
  log.filterMap fun entry => if entry.1 = i then some entry.2 else none

section Log

variable [DecidableEq ι]

@[simp] theorem Log.of_nil (i : ι) :
    Log.of ([] : Log ι Op Res) i = [] := rfl

@[simp] theorem Log.of_cons_self (i : ι) (event : Event Op Res)
    (log : Log ι Op Res) :
    Log.of ((i, event) :: log) i = event :: Log.of log i := by
  simp [Log.of]

theorem Log.of_cons_ne {i j : ι} (hij : j ≠ i) (event : Event Op Res)
    (log : Log ι Op Res) :
    Log.of ((j, event) :: log) i = Log.of log i := by
  simp [Log.of, hij]

theorem Log.of_append (newer older : Log ι Op Res) (i : ι) :
    Log.of (newer ++ older) i = Log.of newer i ++ Log.of older i := by
  simp [Log.of]

theorem Log.mem_of {log : Log ι Op Res} {i : ι} {event : Event Op Res} :
    event ∈ Log.of log i ↔ (i, event) ∈ log := by
  simp only [Log.of, List.mem_filterMap, Option.ite_none_right_eq_some,
    Option.some.injEq]
  constructor
  · rintro ⟨⟨j, event'⟩, hmem, rfl, rfl⟩
    exact hmem
  · intro hmem
    exact ⟨(i, event), hmem, rfl, rfl⟩

end Log

/-- The threads of a pool, their shared state, and what they did so far. -/
structure Pool (ι σ : Type) (Op : Type) (Res : Op → Type) (α : Type) where
  shared : σ
  thread : ι → Prog Op Res α
  log : Log ι Op Res

namespace Pool

/-- One step of a pool.  `step` says what an operation does to the shared
state, `host` what may happen to it between operations. -/
inductive Step [DecidableEq ι]
    (step : σ → (op : Op) → Res op → σ → Prop) (host : σ → σ → Prop) :
    Pool ι σ Op Res α → Pool ι σ Op Res α → Prop where
  | thread {p : Pool ι σ Op Res α} {i : ι} {op : Op}
      {k : Res op → Prog Op Res α} {r : Res op} {s : σ}
      (hnext : p.thread i = .call op k) (hstep : step p.shared op r s) :
      Step step host p
        ⟨s, Function.update p.thread i (k r), (i, ⟨op, r⟩) :: p.log⟩
  | host {p : Pool ι σ Op Res α} {s : σ} (hhost : host p.shared s) :
      Step step host p { p with shared := s }

variable [DecidableEq ι]
  {step : σ → (op : Op) → Res op → σ → Prop} {host : σ → σ → Prop}

/-- Some schedule leads from the first pool to the second. -/
def Reachable (step : σ → (op : Op) → Res op → σ → Prop)
    (host : σ → σ → Prop) :
    Pool ι σ Op Res α → Pool ι σ Op Res α → Prop :=
  Relation.ReflTransGen (Step step host)

/-- A property kept by every step of the threads and of the host holds
wherever a schedule leads. -/
theorem Reachable.invariant {p p' : Pool ι σ Op Res α}
    (h : Reachable step host p p') (Inv : Pool ι σ Op Res α → Prop)
    (hinit : Inv p)
    (hstep : ∀ q q', Inv q → Step step host q q' → Inv q') : Inv p' := by
  induction h with
  | refl => exact hinit
  | tail _ hlast ih => exact hstep _ _ ih hlast

theorem Step.mono_host {host' : σ → σ → Prop}
    (hmono : ∀ s s', host s s' → host' s s') {p p' : Pool ι σ Op Res α}
    (h : Step step host p p') : Step step host' p p' := by
  cases h with
  | thread hnext hs => exact .thread hnext hs
  | host hs => exact .host (hmono _ _ hs)

/-- A host which may do more leaves every schedule possible. -/
theorem Reachable.mono_host {host' : σ → σ → Prop}
    (hmono : ∀ s s', host s s' → host' s s') {p p' : Pool ι σ Op Res α}
    (h : Reachable step host p p') : Reachable step host' p p' := by
  induction h with
  | refl => exact Relation.ReflTransGen.refl
  | tail _ hlast ih => exact ih.tail (hlast.mono_host hmono)

/-- The local-to-global rule.  Here `g i` is the ledger with which thread `i`
starts, and its current ledger replays its part of the log. -/
theorem Reachable.follows
    {P : ι → Protocol Op Res γ} {Q : ι → α → γ → Prop} {g : ι → γ}
    (Inv : σ → Log ι Op Res → Prop)
    (hstep : ∀ s log i op r s', Inv s log →
      (P i).Allowed ((P i).replay (g i) (log.of i)) op → step s op r s' →
        (P i).Admits ((P i).replay (g i) (log.of i)) op r ∧
          Inv s' ((i, ⟨op, r⟩) :: log))
    (hhost : ∀ s s' log, Inv s log → host s s' → Inv s' log)
    {p p' : Pool ι σ Op Res α} (h : Reachable step host p p')
    (hinit : Inv p.shared p.log)
    (hthread : ∀ i,
      Follows (P i) (p.thread i) (Q i) ((P i).replay (g i) (p.log.of i))) :
    Inv p'.shared p'.log ∧ ∀ i,
      Follows (P i) (p'.thread i) (Q i)
        ((P i).replay (g i) (p'.log.of i)) := by
  refine h.invariant
    (fun q => Inv q.shared q.log ∧ ∀ i,
      Follows (P i) (q.thread i) (Q i) ((P i).replay (g i) (q.log.of i)))
    ⟨hinit, hthread⟩ ?_
  rintro q q' ⟨hinv, hfollows⟩ hqq'
  cases hqq' with
  | @thread i op k r s hnext hs =>
      have hi := hfollows i
      rw [hnext, follows_call] at hi
      obtain ⟨hadmits, hinv'⟩ := hstep _ _ _ _ _ _ hinv hi.1 hs
      refine ⟨hinv', fun j => ?_⟩
      by_cases hij : j = i
      · subst hij
        simpa using hi.2 r hadmits
      · have hne : i ≠ j := fun h => hij h.symm
        simpa [Function.update_of_ne hij, Log.of_cons_ne hne]
          using hfollows j
  | host hs => exact ⟨hhost _ _ _ hinv hs, hfollows⟩

end Pool

end Effects
