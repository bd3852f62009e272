import DuckJeu.Effects.Extension
import Mathlib.Algebra.BigOperators.Group.Finset.Piecewise

/-!
# Totals over histories and logs

Every event has a weight.  The weight of a log is the sum of the weights of
its threads, so what holds of each thread and is kept by sums holds of the
whole log, however the threads are interleaved.
-/

namespace Effects

variable {ι Op Ext M : Type} {Res : Op → Type} {ResE : Ext → Type}
  [AddCommMonoid M]

/-- The weight of a history. -/
def weigh (w : Event Op Res → M) (h : List (Event Op Res)) : M :=
  (h.map w).sum

@[simp] theorem weigh_nil (w : Event Op Res → M) : weigh w [] = 0 := rfl

@[simp] theorem weigh_cons (w : Event Op Res → M) (event : Event Op Res)
    (h : List (Event Op Res)) :
    weigh w (event :: h) = w event + weigh w h := rfl

theorem weigh_append (w : Event Op Res → M) (h h' : List (Event Op Res)) :
    weigh w (h ++ h') = weigh w h + weigh w h' := by
  rw [weigh, List.map_append, List.sum_append, weigh, weigh]

/-- The weight of a log. -/
def Log.weigh (w : Event Op Res → M) (log : Log ι Op Res) : M :=
  (log.map fun entry => w entry.2).sum

@[simp] theorem Log.weigh_nil (w : Event Op Res → M) :
    Log.weigh w ([] : Log ι Op Res) = 0 := rfl

@[simp] theorem Log.weigh_cons (w : Event Op Res → M) (i : ι)
    (event : Event Op Res) (log : Log ι Op Res) :
    Log.weigh w ((i, event) :: log) = w event + Log.weigh w log := rfl

/-- What one thread adds to a log weighs what its history does. -/
theorem Log.weigh_thread (w : Event Op Res → M) (i : ι)
    (h : List (Event Op Res)) (log : Log ι Op Res) :
    Log.weigh w (h.map (fun event => (i, event)) ++ log) =
      Effects.weigh w h + Log.weigh w log := by
  rw [Log.weigh, List.map_append, List.sum_append, List.map_map, Effects.weigh,
    Log.weigh]
  rfl

/-! ## Two interfaces -/

/-- The weights of the events of two interfaces. -/
def weighBoth (w : Event Op Res → M) (w' : Event Ext ResE → M) :
    SumEvent Res ResE → M
  | ⟨.inl op, r⟩ => w ⟨op, r⟩
  | ⟨.inr op, r⟩ => w' ⟨op, r⟩

theorem weigh_both (w : Event Op Res → M) (w' : Event Ext ResE → M)
    (h : List (SumEvent Res ResE)) :
    weigh (weighBoth w w') h = weigh w (innerOf h) + weigh w' (outerOf h) := by
  induction h with
  | nil => simp [innerOf, outerOf]
  | cons event h ih =>
      obtain ⟨op, r⟩ := event
      cases op with
      | inl op => rw [weigh_cons, ih, innerOf_inl, outerOf_inl, weigh_cons,
          weighBoth, add_assoc]
      | inr op => rw [weigh_cons, ih, innerOf_inr, outerOf_inr, weigh_cons,
          weighBoth, add_left_comm]

/-! ## Threads -/

section Threads

variable [DecidableEq ι] (w : Event Op Res → M) (log : Log ι Op Res)

/-- The weight of a log is the sum of those of its threads. -/
theorem Log.sum_weigh_of (threads : Finset ι)
    (h : ∀ entry ∈ log, entry.1 ∈ threads) :
    ∑ i ∈ threads, Effects.weigh w (log.of i) = Log.weigh w log := by
  induction log with
  | nil => simp
  | cons entry log ih =>
      obtain ⟨j, event⟩ := entry
      obtain ⟨hj, hlog⟩ := List.forall_mem_cons.mp h
      have hsplit : ∀ i, Effects.weigh w (Log.of ((j, event) :: log) i) =
          (if j = i then w event else 0) + Effects.weigh w (Log.of log i) := by
        intro i
        by_cases hji : j = i
        · subst hji
          rw [Log.of_cons_self, Effects.weigh_cons, if_pos rfl]
        · rw [Log.of_cons_ne hji, if_neg hji, zero_add]
      rw [Finset.sum_congr rfl fun i _ => hsplit i, Finset.sum_add_distrib,
        Finset.sum_ite_eq, if_pos hj, ih hlog, Log.weigh_cons]

/-- What is kept by sums holds of a log if it holds of its threads. -/
theorem Log.weigh_induction {P : M → Prop} (hzero : P 0)
    (hadd : ∀ a b, P a → P b → P (a + b))
    (h : ∀ i, P (Effects.weigh w (log.of i))) : P (Log.weigh w log) := by
  rw [← Log.sum_weigh_of w log (log.map Prod.fst).toFinset
    fun entry hentry => List.mem_toFinset.mpr (List.mem_map_of_mem hentry)]
  exact Finset.sum_induction _ P hadd hzero fun i _ => h i

end Threads

end Effects
