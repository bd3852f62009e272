import DuckJeu.Support.Table
import Mathlib.Algebra.BigOperators.Group.Finset.Basic

/-!
# Histograms

A table of numbers is a histogram of a multiset when it holds the multiplicity
of each element, where a missing entry stands for zero.  Sums over the entries
of a histogram are sums over the multiset.
-/

namespace Histogram

variable {κ : Type} [DecidableEq κ]

/-- A sum over the entries of a table. -/
def sumOver (f : κ → ℕ → ℕ) (t : Table.Map κ ℕ) : ℕ :=
  (t.entries.map fun row => f row.1 row.2).sum

/-- The table holds the multiplicities of the multiset. -/
def Of (m : Multiset κ) (t : Table.Map κ ℕ) : Prop :=
  ∀ k, (t.lookup k).getD 0 = m.count k

variable {m : Multiset κ} {t : Table.Map κ ℕ}

theorem sumOver_eq_keys (f : κ → ℕ → ℕ) (t : Table.Map κ ℕ) :
    sumOver f t = ∑ k ∈ t.keys.toFinset, f k ((t.lookup k).getD 0) := by
  have hrows : ∀ row ∈ t.entries,
      f row.1 row.2 = f row.1 ((t.lookup row.1).getD 0) := by
    intro row hrow
    have hlookup : t.lookup row.1 = some row.2 := AList.mem_lookup_iff.mpr hrow
    rw [hlookup, Option.getD_some]
  have hnodup : t.keys.Nodup := t.keys_nodup
  rw [List.sum_toFinset _ hnodup, sumOver, List.map_congr_left hrows,
    AList.keys, List.keys, List.map_map]
  rfl

/-- Entries of zero do not matter. -/
theorem Of.sumOver_eq (h : Of m t) {f : κ → ℕ → ℕ} (hf : ∀ k, f k 0 = 0) :
    sumOver f t = ∑ k ∈ m.toFinset, f k (m.count k) := by
  have hsubset : m.toFinset ⊆ t.keys.toFinset := by
    intro k hk
    by_contra hkey
    have hnone : t.lookup k = none := by
      rw [AList.lookup_eq_none]
      exact fun h => hkey (List.mem_toFinset.mpr (AList.mem_keys.mp h))
    have hcount := h k
    rw [hnone, Option.getD_none] at hcount
    exact Multiset.count_ne_zero.mpr (Multiset.mem_toFinset.mp hk) hcount.symm
  have hzero : ∀ k ∈ t.keys.toFinset, k ∉ m.toFinset → f k (m.count k) = 0 := by
    intro k _ hk
    rw [Multiset.count_eq_zero.mpr (mt Multiset.mem_toFinset.mpr hk), hf]
  rw [sumOver_eq_keys, Finset.sum_congr rfl fun k _ => by rw [h k],
    ← Finset.sum_subset hsubset hzero]

/-- The number of elements. -/
theorem Of.card (h : Of m t) : sumOver (fun _ n => n) t = m.card := by
  rw [h.sumOver_eq fun _ => rfl, Multiset.toFinset_sum_count_eq]

/-- The number of elements with a property. -/
theorem Of.card_filter (h : Of m t) (p : κ → Prop) [DecidablePred p] :
    sumOver (fun k n => if p k then n else 0) t = (m.filter p).card := by
  have hcount : ∀ k ∈ (m.filter p).toFinset, m.count k = (m.filter p).count k :=
    fun k hk => (Multiset.count_filter_of_pos
      (Multiset.of_mem_filter (Multiset.mem_toFinset.mp hk))).symm
  have hzero : ∀ k, (if p k then 0 else 0) = 0 := fun k => ite_self 0
  rw [h.sumOver_eq (f := fun k n => if p k then n else 0) hzero,
    ← Finset.sum_filter, ← Multiset.toFinset_filter,
    Finset.sum_congr rfl hcount, Multiset.toFinset_sum_count_eq]

/-- The sum of the elements, where they are numbers. -/
theorem Of.sum {m : Multiset ℕ} {t : Table.Map ℕ ℕ} (h : Of m t) :
    sumOver (fun k n => k * n) t = m.sum := by
  rw [h.sumOver_eq fun k => Nat.mul_zero k, Finset.sum_multiset_count]
  exact Finset.sum_congr rfl fun k _ => Nat.mul_comm k _

end Histogram
