import Mathlib.Algebra.BigOperators.Group.List.Basic
import Mathlib.Algebra.GroupWithZero.Nat
import Mathlib.Data.List.AList
import Mathlib.Data.List.MinMax

/-!
# Weighted tables

Finite maps are `AList`s with a constant value type.  This module adds two
things to Mathlib's interface: a change of all values at once, and the total
weight of the stored values together with its change under insertion and
removal, beside the greatest of these weights.
-/

namespace Table

variable {κ ν : Type}

/-- A finite map from `κ` to `ν`. -/
abbrev Map (κ ν : Type) := AList fun _ : κ => ν

/-- Apply `f` to every stored value. -/
def mapValues (f : ν → ν) (t : Map κ ν) : Map κ ν where
  entries := t.entries.map fun row => ⟨row.1, f row.2⟩
  nodupKeys := by
    have hkeys : (t.entries.map fun row => (⟨row.1, f row.2⟩ : Σ _ : κ, ν)).keys
        = t.entries.keys := by
      simp [List.keys]
    rw [List.NodupKeys, hkeys]
    exact t.nodupKeys

@[simp] theorem keys_mapValues (f : ν → ν) (t : Map κ ν) :
    (mapValues f t).keys = t.keys := by
  simp [mapValues, AList.keys, List.keys]

/-- The sum of the weights of the stored values. -/
def total (weight : ν → ℕ) (t : Map κ ν) : ℕ :=
  (t.entries.map fun row => weight row.2).sum

@[simp] theorem total_empty (weight : ν → ℕ) :
    total weight (∅ : Map κ ν) = 0 := rfl

theorem total_mapValues {weight : ν → ℕ} {f : ν → ν}
    (hf : ∀ v, weight (f v) = weight v) (t : Map κ ν) :
    total weight (mapValues f t) = total weight t := by
  simp [total, mapValues, Function.comp_def, hf]

variable [DecidableEq κ]

@[simp] theorem lookup_mapValues (f : ν → ν) (t : Map κ ν) (k : κ) :
    (mapValues f t).lookup k = (t.lookup k).map f :=
  List.dlookup_map₂ (γ := fun _ => ν) (δ := fun _ => ν) (f := fun _ => f) k

/-- Removing a stored value takes its weight off the total. -/
theorem total_erase (weight : ν → ℕ) {t : Map κ ν} {k : κ} {v : ν}
    (h : t.lookup k = some v) :
    total weight t = total weight (t.erase k) + weight v := by
  have hmem : k ∈ t.entries.keys := by
    rw [← List.dlookup_isSome]
    exact Option.isSome_iff_exists.mpr ⟨v, h⟩
  obtain ⟨w, before, after, hbefore, hentries, herase⟩ :=
    List.exists_of_kerase hmem
  have hvalue : w = v := by
    have hlookup : t.entries.dlookup k = some w := by
      rw [hentries, List.dlookup_append,
        List.dlookup_eq_none.mpr hbefore]
      simp
    exact Option.some.inj (hlookup.symm.trans h)
  have htable : (t.erase k).entries = before ++ after := herase
  subst hvalue
  unfold total
  rw [htable, hentries]
  simp only [List.map_append, List.map_cons, List.sum_append, List.sum_cons]
  omega

theorem total_insert {weight : ν → ℕ} {t : Map κ ν} {k : κ} (v : ν)
    (h : k ∉ t) :
    total weight (t.insert k v) = total weight t + weight v := by
  unfold total
  rw [AList.entries_insert_of_notMem h, List.map_cons, List.sum_cons,
    Nat.add_comm]

theorem weight_le_total {weight : ν → ℕ} {t : Map κ ν} {k : κ} {v : ν}
    (h : t.lookup k = some v) : weight v ≤ total weight t := by
  rw [total_erase weight h]
  exact Nat.le_add_left _ _

/-- The greatest weight of a stored value. -/
def greatest (weight : ν → ℕ) (t : Map κ ν) : ℕ :=
  (t.entries.map fun row => weight row.2).foldr max 0

theorem weight_le_greatest {weight : ν → ℕ} {t : Map κ ν} {k : κ} {v : ν}
    (h : t.lookup k = some v) : weight v ≤ greatest weight t :=
  List.le_max_of_le' 0
    (List.mem_map_of_mem (List.of_mem_dlookup h)) le_rfl

end Table
