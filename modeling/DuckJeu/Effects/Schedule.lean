import DuckJeu.Effects.Pool
import Mathlib.Data.Countable.Basic
import Mathlib.Data.Fintype.Order
import Mathlib.Data.Nat.Pairing

/-!
# Infinite schedules and fairness

A schedule is an infinite run of a pool, in which nothing may happen from some
time on.  It is fair to a thread if it does not leave it alone for ever while
its next operation is possible.

Programs are well-founded trees, so every thread performs finitely many
operations, whatever the schedule.  What remains to be shown of a particular
pool is that nobody is stuck: then fairness makes the threads return.
-/

namespace Effects

variable {ι σ Op α : Type} {Res : Op → Type}

namespace Prog

/-- The first program is what is left of the second after one operation. -/
inductive Next : Prog Op Res α → Prog Op Res α → Prop where
  | intro (op : Op) (k : Res op → Prog Op Res α) (r : Res op) :
      Next (k r) (.call op k)

/-- No program goes on for ever. -/
theorem next_wellFounded :
    WellFounded (Next : Prog Op Res α → Prog Op Res α → Prop) := by
  refine ⟨fun p => ?_⟩
  induction p with
  | ret a => exact ⟨_, fun q h => by cases h⟩
  | call op k ih =>
      refine ⟨_, fun q h => ?_⟩
      cases h with
      | intro op k r => exact ih r

end Prog

namespace Pool

/-- The thread can perform its next operation. -/
def Enabled (step : σ → (op : Op) → Res op → σ → Prop)
    (p : Pool ι σ Op Res α) (i : ι) : Prop :=
  ∃ op k r s, p.thread i = .call op k ∧ step p.shared op r s

/-- The thread has performed an operation between the two pools. -/
def Moves (i : ι) (p p' : Pool ι σ Op Res α) : Prop :=
  ∃ event, p'.log = (i, event) :: p.log

variable [DecidableEq ι]

/-- A run of a pool without end. -/
structure Schedule (step : σ → (op : Op) → Res op → σ → Prop)
    (host : σ → σ → Prop) (p : Pool ι σ Op Res α) where
  pool : ℕ → Pool ι σ Op Res α
  start : pool 0 = p
  steps : ∀ n, Step step host (pool n) (pool (n + 1)) ∨
    pool (n + 1) = pool n

variable {step : σ → (op : Op) → Res op → σ → Prop} {host : σ → σ → Prop}
  {p p' : Pool ι σ Op Res α} {i : ι}

/-- What a host may do, a host which may do more may do as well. -/
def Schedule.mono {host' : σ → σ → Prop} (sch : Schedule step host p)
    (hhost : ∀ s s', host s s' → host' s s') : Schedule step host' p where
  pool := sch.pool
  start := sch.start
  steps := fun n => (sch.steps n).imp_left fun h => h.mono_host hhost

/-- The next operation of the thread is not possible for ever without being
performed. -/
def Schedule.Fair (sch : Schedule step host p) (i : ι) : Prop :=
  ∀ n, ∃ m, n ≤ m ∧
    (¬ Enabled step (sch.pool m) i ∨ Moves i (sch.pool m) (sch.pool (m + 1)))

/-- A thread which does not move stays as it is. -/
theorem Step.thread_eq (h : Step step host p p') (hmoves : ¬ Moves i p p') :
    p'.thread i = p.thread i := by
  cases h with
  | @thread j op k r s hnext hs =>
      have hij : i ≠ j := fun hij => hmoves ⟨⟨op, r⟩, by rw [hij]⟩
      exact Function.update_of_ne hij _ _
  | host hs => rfl

/-- A thread which moves has one operation less before it. -/
theorem Step.thread_next (h : Step step host p p') (hmoves : Moves i p p') :
    Prog.Next (p'.thread i) (p.thread i) := by
  obtain ⟨event, hlog⟩ := hmoves
  cases h with
  | @thread j op k r s hnext hs =>
      obtain ⟨rfl, -⟩ := Prod.mk.inj (List.cons.inj hlog).1
      dsimp only
      rw [Function.update_self, hnext]
      exact .intro op k r
  | host hs => exact absurd hlog (List.cons_ne_self _ _).symm

/-- Where nobody moves only the host acts. -/
theorem Step.host_of_still (h : Step step host p p')
    (hstill : ∀ i, ¬ Moves i p p') : host p.shared p'.shared := by
  cases h with
  | @thread i op k r s hnext hs => exact absurd ⟨_, rfl⟩ (hstill i)
  | host hs => exact hs

namespace Schedule

variable (sch : Schedule step host p)

theorem reachable (n : ℕ) : Reachable step host p (sch.pool n) := by
  induction n with
  | zero =>
      rw [sch.start]
      exact Relation.ReflTransGen.refl
  | succ n ih =>
      rcases sch.steps n with hstep | hsame
      · exact ih.tail hstep
      · rwa [hsame]

theorem thread_eq {n : ℕ}
    (hmoves : ¬ Moves i (sch.pool n) (sch.pool (n + 1))) :
    (sch.pool (n + 1)).thread i = (sch.pool n).thread i := by
  rcases sch.steps n with hstep | hsame
  · exact hstep.thread_eq hmoves
  · rw [hsame]

theorem thread_next {n : ℕ}
    (hmoves : Moves i (sch.pool n) (sch.pool (n + 1))) :
    Prog.Next ((sch.pool (n + 1)).thread i) ((sch.pool n).thread i) := by
  rcases sch.steps n with hstep | hsame
  · exact hstep.thread_next hmoves
  · obtain ⟨event, hlog⟩ := hmoves
    rw [hsame] at hlog
    exact absurd hlog (List.cons_ne_self _ _).symm

/-- Every thread moves finitely often. -/
theorem moves_end (i : ι) :
    ∃ N, ∀ n, N ≤ n → ¬ Moves i (sch.pool n) (sch.pool (n + 1)) := by
  classical
  -- by induction on what is left of the thread
  suffices h : ∀ (q : Prog Op Res α) (n : ℕ), (sch.pool n).thread i = q →
      ∃ N, ∀ m, N ≤ m → ¬ Moves i (sch.pool m) (sch.pool (m + 1)) from
    h _ 0 rfl
  intro q
  induction q using Prog.next_wellFounded.induction with
  | _ q ih =>
      intro n hn
      by_cases hstays : ∀ m, n ≤ m →
          ¬ Moves i (sch.pool m) (sch.pool (m + 1))
      · exact ⟨n, hstays⟩
      push Not at hstays
      obtain ⟨hle, hmoves⟩ := Nat.find_spec hstays
      have hfirst : ∀ m, n ≤ m → m ≤ Nat.find hstays →
          (sch.pool m).thread i = q := by
        intro m hm
        induction m, hm using Nat.le_induction with
        | base => exact fun _ => hn
        | succ m hm ih' =>
            intro hlt
            have hstill : ¬ Moves i (sch.pool m) (sch.pool (m + 1)) :=
              fun h => Nat.find_min hstays hlt ⟨hm, h⟩
            rw [sch.thread_eq hstill]
            exact ih' (Nat.le_of_succ_le hlt)
      have hnext := sch.thread_next hmoves
      rw [hfirst _ hle le_rfl] at hnext
      exact ih _ hnext _ rfl

/-- After its last move a thread stays as it is. -/
theorem thread_settled {N : ℕ}
    (hstill : ∀ n, N ≤ n → ¬ Moves i (sch.pool n) (sch.pool (n + 1)))
    {n : ℕ} (hn : N ≤ n) :
    (sch.pool n).thread i = (sch.pool N).thread i := by
  induction n, hn using Nat.le_induction with
  | base => rfl
  | succ n hn ih => rw [sch.thread_eq (hstill n hn), ih]

/-- A thread to which the schedule is fair returns, if from some time on its
next operation is always possible. -/
theorem returns {sch : Schedule step host p} (hfair : sch.Fair i) {N : ℕ}
    (henabled : ∀ n, N ≤ n → (∀ a, (sch.pool n).thread i ≠ .ret a) →
      Enabled step (sch.pool n) i) :
    ∃ n a, (sch.pool n).thread i = .ret a := by
  by_contra hnever
  push Not at hnever
  obtain ⟨M, hstill⟩ := sch.moves_end i
  obtain ⟨m, hm, hnot | hmoves⟩ := hfair (max N M)
  · exact hnot (henabled m (le_of_max_le_left hm) (hnever m))
  · exact hstill m (le_of_max_le_right hm) hmoves

/-- Finitely many threads to which the schedule is fair all return, if
somebody who is not done can always go on, and the host does not stop him. -/
theorem all_return [Finite ι] {sch : Schedule step host p}
    (hfair : ∀ i, sch.Fair i)
    (hprogress : ∀ n, (∃ i, ∀ a, (sch.pool n).thread i ≠ .ret a) →
      ∃ i, Enabled step (sch.pool n) i)
    (hkeep : ∀ s s' op, host s s' → (∃ r t, step s op r t) →
      ∃ r t, step s' op r t) :
    ∃ n, ∀ i, ∃ a, (sch.pool n).thread i = .ret a := by
  choose last hlast using sch.moves_end
  obtain ⟨N, hN⟩ := Finite.exists_le last
  have hstill : ∀ n, N ≤ n → ∀ i, ¬ Moves i (sch.pool n) (sch.pool (n + 1)) :=
    fun n hn i => hlast i n ((hN i).trans hn)
  by_contra hnever
  push Not at hnever
  -- somebody can go on when all have come to rest, and so for ever
  obtain ⟨i, op, k, r, s, hnext, hs⟩ := hprogress N (hnever N)
  have hforever : ∀ n, N ≤ n → ∃ r s, step (sch.pool n).shared op r s := by
    intro n hn
    induction n, hn using Nat.le_induction with
    | base => exact ⟨r, s, hs⟩
    | succ n hn ih =>
        rcases sch.steps n with hstep | hsame
        · exact hkeep _ _ op (hstep.host_of_still (hstill n hn)) ih
        · rwa [hsame]
  obtain ⟨m, hm, hnot | hmoves⟩ := hfair i N
  · obtain ⟨r', s', hs'⟩ := hforever m hm
    refine hnot ⟨op, k, r', s', ?_, hs'⟩
    rw [sch.thread_settled (fun n hn => hstill n hn i) hm, hnext]
  · exact hstill m hm i hmoves

/-- Give every thread its turn again and again. -/
theorem exists_fair [Countable ι] [Nonempty ι]
    (step : σ → (op : Op) → Res op → σ → Prop) (host : σ → σ → Prop)
    (p : Pool ι σ Op Res α) :
    ∃ sch : Schedule step host p, ∀ i, sch.Fair i := by
  obtain ⟨f, hf⟩ := exists_surjective_nat ι
  have hnext : ∀ (q : Pool ι σ Op Res α) (i : ι), ∃ q',
      (Step step host q q' ∧ Moves i q q') ∨
        (q' = q ∧ ¬ Enabled step q i) := by
    intro q i
    by_cases henabled : Enabled step q i
    · obtain ⟨op, k, r, s, hnext, hs⟩ := henabled
      exact ⟨_, Or.inl ⟨.thread hnext hs, ⟨op, r⟩, rfl⟩⟩
    · exact ⟨q, Or.inr ⟨rfl, henabled⟩⟩
  choose next hnext using hnext
  let pool : ℕ → Pool ι σ Op Res α :=
    Nat.rec p fun n q => next q (f n.unpair.1)
  refine ⟨⟨pool, rfl, fun n => ?_⟩, fun i n => ?_⟩
  · rcases hnext (pool n) (f n.unpair.1) with ⟨hstep, -⟩ | ⟨hsame, -⟩
    · exact Or.inl hstep
    · exact Or.inr hsame
  · obtain ⟨a, rfl⟩ := hf i
    refine ⟨Nat.pair a n, Nat.right_le_pair a n, ?_⟩
    have hturn := hnext (pool (Nat.pair a n)) (f (Nat.pair a n).unpair.1)
    rw [Nat.unpair_pair] at hturn
    rcases hturn with ⟨-, hmoves⟩ | ⟨-, hnot⟩
    · refine Or.inr ?_
      change Moves _ _ (next _ (f (Nat.pair a n).unpair.1))
      rw [Nat.unpair_pair]
      exact hmoves
    · exact Or.inl hnot

end Schedule

end Pool

end Effects
