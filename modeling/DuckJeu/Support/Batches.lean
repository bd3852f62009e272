import Mathlib.Algebra.BigOperators.Group.Finset.Basic
import Mathlib.Algebra.Order.Floor.Div
import Mathlib.GroupTheory.GroupAction.Ring

/-!
# Classes and batches

Items arrive one by one.  First fit puts each into the first class whose head
has its key, and finds exactly the classes of the key, whatever the order of
arrival.  Each class is then cut into batches, where a batch is closed as soon
as one more item would exceed it.  With a limit on the count alone, the
batches of a class are as few as they can be.
-/

namespace Batches

/-! ## First fit -/

section Classes

variable {α κ : Type} {key : α → κ}

/-- All items of the class have the key `k`, and there is one. -/
structure ClassOf (key : α → κ) (k : κ) (cls : List α) : Prop where
  nonempty : cls ≠ []
  key_eq : ∀ a ∈ cls, key a = k

/-- Each class has a key of its own. -/
inductive Classified (key : α → κ) : List (List α) → Prop where
  | nil : Classified key []
  | cons {k : κ} {cls : List α} {rest : List (List α)}
      (hclass : ClassOf key k cls) (hfresh : ∀ a ∈ rest.flatten, key a ≠ k)
      (hrest : Classified key rest) : Classified key (cls :: rest)

theorem ClassOf.append {a : α} {cls : List α}
    (hclass : ClassOf key (key a) cls) : ClassOf key (key a) (cls ++ [a]) where
  nonempty := by simp
  key_eq := by
    intro b hb
    rcases List.mem_append.mp hb with hb | hb
    · exact hclass.key_eq b hb
    · rw [List.mem_singleton.mp hb]

theorem classOf_singleton (key : α → κ) (a : α) : ClassOf key (key a) [a] where
  nonempty := List.cons_ne_nil _ _
  key_eq := by simp

/-- The items of one class share their key. -/
theorem Classified.key_eq {classes : List (List α)}
    (h : Classified key classes) {cls : List α} (hmem : cls ∈ classes) {a b : α}
    (ha : a ∈ cls) (hb : b ∈ cls) : key a = key b := by
  induction h with
  | nil => exact absurd hmem List.not_mem_nil
  | cons hclass _ _ ih =>
      rcases List.mem_cons.mp hmem with rfl | hmem
      · exact (hclass.key_eq a ha).trans (hclass.key_eq b hb).symm
      · exact ih hmem

variable [DecidableEq κ]

/-- Put an item into the first class whose head has its key. -/
def insert (key : α → κ) (a : α) : List (List α) → List (List α)
  | [] => [[a]]
  | cls :: rest =>
      if cls.head?.any fun first => key first = key a then
        (cls ++ [a]) :: rest
      else cls :: insert key a rest

/-- The classes of the items in order of arrival. -/
def classify (key : α → κ) (items : List α) : List (List α) :=
  items.foldl (fun classes a => insert key a classes) []

theorem insert_flatten (key : α → κ) (a : α) (classes : List (List α)) :
    (insert key a classes).flatten.Perm (classes.flatten ++ [a]) := by
  induction classes with
  | nil => exact List.Perm.refl _
  | cons cls rest ih =>
      rw [insert]
      split
      · simpa using
          (List.perm_append_singleton a rest.flatten).symm.append_left cls
      · simpa using ih.append_left cls

theorem ClassOf.head?_any {k k' : κ} {cls : List α}
    (hclass : ClassOf key k cls) :
    (cls.head?.any fun first => key first = k') = true ↔ k = k' := by
  cases cls with
  | nil => exact absurd rfl hclass.nonempty
  | cons first rest =>
      have hfirst : key first = k := hclass.key_eq first (List.mem_cons_self ..)
      simp [hfirst]

/-- Inserting an item keeps the keys of the classes apart. -/
theorem Classified.insert {classes : List (List α)}
    (h : Classified key classes) (a : α) :
    Classified key (insert key a classes) := by
  induction h with
  | nil => exact .cons (classOf_singleton key a) (by simp) .nil
  | @cons k cls rest hclass hfresh hrest ih =>
      rw [Batches.insert]
      by_cases hk : k = key a
      · rw [if_pos (hclass.head?_any.mpr hk)]
        subst hk
        exact .cons hclass.append hfresh hrest
      · rw [if_neg (fun hany => hk (hclass.head?_any.mp hany))]
        refine .cons hclass ?_ ih
        intro b hb
        have hmem := (insert_flatten key a rest).mem_iff.mp hb
        rcases List.mem_append.mp hmem with hb | hb
        · exact hfresh b hb
        · rw [List.mem_singleton.mp hb]
          exact Ne.symm hk

theorem foldl_insert (items : List α) {classes : List (List α)}
    (h : Classified key classes) :
    Classified key
        (items.foldl (fun classes a => Batches.insert key a classes) classes) ∧
      (items.foldl (fun classes a => Batches.insert key a classes)
        classes).flatten.Perm (classes.flatten ++ items) := by
  induction items generalizing classes with
  | nil => exact ⟨h, by simp⟩
  | cons a items ih =>
      obtain ⟨hclassified, hperm⟩ := ih (h.insert a)
      refine ⟨hclassified, hperm.trans ?_⟩
      simpa using (insert_flatten key a classes).append_right items

theorem classify_classified (key : α → κ) (items : List α) :
    Classified key (classify key items) :=
  (foldl_insert items .nil).1

theorem classify_flatten (key : α → κ) (items : List α) :
    (classify key items).flatten.Perm items :=
  (foldl_insert items (@Classified.nil α κ key)).2

/-- A sum over the classes runs over the keys of the items. -/
theorem Classified.sum_length {classes : List (List α)}
    (h : Classified key classes) (weight : ℕ → ℕ) :
    (classes.map fun cls => weight cls.length).sum =
      ∑ k ∈ (classes.flatten.map key).toFinset,
        weight ((classes.flatten.map key).count k) := by
  induction h with
  | nil => rfl
  | @cons k cls rest hclass hfresh hrest ih =>
      have hkeys : cls.map key = List.replicate cls.length k :=
        List.eq_replicate_iff.mpr ⟨by simp, by simpa using hclass.key_eq⟩
      have habsent : k ∉ rest.flatten.map key := by
        intro hmem
        obtain ⟨a, ha, hkey⟩ := List.mem_map.mp hmem
        exact hfresh a ha hkey
      have hlength : cls.length ≠ 0 := by
        simpa using hclass.nonempty
      have hset : ((cls :: rest).flatten.map key).toFinset =
          Insert.insert k (rest.flatten.map key).toFinset := by
        ext k'
        simp [hkeys, hlength]
      have hcount : ∀ k' ∈ (rest.flatten.map key).toFinset,
          ((cls :: rest).flatten.map key).count k' =
            (rest.flatten.map key).count k' := by
        intro k' hk'
        have hne : k ≠ k' := by
          rintro rfl
          exact habsent (List.mem_toFinset.mp hk')
        simp [hkeys, List.count_replicate, hne]
      have hself : ((cls :: rest).flatten.map key).count k = cls.length := by
        rw [List.flatten_cons, List.map_append, List.count_append,
          List.count_eq_zero_of_not_mem habsent, hkeys,
          List.count_replicate_self, Nat.add_zero]
      rw [hset, Finset.sum_insert (by simpa using habsent), hself,
        Finset.sum_congr rfl fun k' hk' => congrArg weight (hcount k' hk'),
        List.map_cons, List.sum_cons, ih]

/-- First fit finds the classes of the key. -/
theorem classify_sum_length (key : α → κ) (items : List α) (weight : ℕ → ℕ) :
    ((classify key items).map fun cls => weight cls.length).sum =
      ∑ k ∈ (items.map key).toFinset, weight ((items.map key).count k) := by
  have hperm := (classify_flatten key items).map key
  rw [(classify_classified key items).sum_length,
    List.toFinset_eq_of_perm _ _ hperm]
  exact Finset.sum_congr rfl fun k _ => congrArg weight (hperm.count_eq k)

end Classes

/-! ## Cutting a class -/

section Cutting

variable {α : Type} {exceeds : List α → Bool}

/-- The batches of the items `rest`, where `current` is the open batch. -/
def batches (exceeds : List α → Bool) : List α → List α → List (List α)
  | current, [] => if current.isEmpty then [] else [current]
  | current, a :: rest =>
      if exceeds (current ++ [a]) then
        if current.isEmpty then batches exceeds [a] rest
        else current :: batches exceeds [a] rest
      else batches exceeds (current ++ [a]) rest

/-- The candidates which are tested on the way.  An item which is too large on
its own ends the cutting. -/
def candidates (exceeds : List α → Bool) : List α → List α → List (List α)
  | _, [] => []
  | current, a :: rest =>
      (current ++ [a]) ::
        if exceeds (current ++ [a]) then
          if current.isEmpty then []
          else [a] :: if exceeds [a] then [] else candidates exceeds [a] rest
        else candidates exceeds (current ++ [a]) rest

/-- Cutting loses nothing and keeps the order. -/
theorem batches_flatten (exceeds : List α → Bool) (current rest : List α) :
    (batches exceeds current rest).flatten = current ++ rest := by
  induction rest generalizing current with
  | nil =>
      rw [batches]
      by_cases hempty : current.isEmpty = true
      · simp [List.isEmpty_iff.mp hempty]
      · simp [hempty]
  | cons a rest ih =>
      rw [batches]
      by_cases hexceeds : exceeds (current ++ [a]) = true
      · by_cases hempty : current.isEmpty = true
        · simp [List.isEmpty_iff.mp hempty, ih]
        · simp [hexceeds, hempty, ih]
      · simp [hexceeds, ih]

theorem batches_ne_nil {current rest batch : List α}
    (hmem : batch ∈ batches exceeds current rest) : batch ≠ [] := by
  induction rest generalizing current with
  | nil =>
      rw [batches] at hmem
      by_cases hempty : current.isEmpty = true
      · simp [hempty] at hmem
      · rw [if_neg hempty, List.mem_singleton] at hmem
        rw [hmem]
        simpa using hempty
  | cons a rest ih =>
      rw [batches] at hmem
      by_cases hexceeds : exceeds (current ++ [a]) = true
      · rw [if_pos hexceeds] at hmem
        by_cases hempty : current.isEmpty = true
        · rw [if_pos hempty] at hmem
          exact ih hmem
        · rw [if_neg hempty] at hmem
          rcases List.mem_cons.mp hmem with rfl | hmem
          · simpa using hempty
          · exact ih hmem
      · rw [if_neg hexceeds] at hmem
        exact ih hmem

theorem batches_subset {current rest batch : List α}
    (hmem : batch ∈ batches exceeds current rest) :
    batch ⊆ current ++ rest := by
  intro a ha
  rw [← batches_flatten exceeds current rest]
  exact List.mem_flatten.mpr ⟨batch, hmem, ha⟩

/-- When the count alone decides over the candidates, the batches are as few
as the limit permits. -/
theorem batches_length {limit : ℕ} (hpositive : 0 < limit)
    (hcount : ∀ candidate, limit < candidate.length →
      exceeds candidate = true)
    {current rest : List α} (hcurrent : current.length ≤ limit)
    (hfits : ∀ candidate ∈ candidates exceeds current rest,
      candidate.length ≤ limit → exceeds candidate = false) :
    (batches exceeds current rest).length =
      (current.length + rest.length) ⌈/⌉ limit := by
  induction rest generalizing current with
  | nil =>
      rw [batches]
      by_cases hempty : current.isEmpty = true
      · simp [List.isEmpty_iff.mp hempty]
      · have hlength : current.length ≠ 0 := by simpa using hempty
        rw [if_neg hempty, List.length_singleton, List.length_nil,
          Nat.add_zero, Nat.ceilDiv_eq_add_pred_div]
        refine (Nat.div_eq_of_lt_le ?_ ?_).symm
        · omega
        · omega
  | cons a rest ih =>
      have hsingle : [a].length ≤ limit := hpositive
      by_cases hroom : (current ++ [a]).length ≤ limit
      · have hnot := hfits _ (by rw [candidates]; exact List.mem_cons_self ..)
          hroom
        rw [candidates, if_neg (by simp [hnot])] at hfits
        have hlater := ih hroom fun candidate hmem =>
          hfits candidate (List.mem_cons_of_mem _ hmem)
        rw [batches, if_neg (by simp [hnot]), hlater]
        congr 1
        simp only [List.length_append, List.length_cons, List.length_nil]
        omega
      · have hexceeds := hcount _ (Nat.lt_of_not_le hroom)
        have hfull : current.length = limit := by
          rw [List.length_append, List.length_singleton] at hroom
          omega
        have hempty : ¬ current.isEmpty = true := by
          intro hempty
          rw [List.isEmpty_iff.mp hempty, List.length_nil] at hfull
          omega
        rw [candidates, if_pos hexceeds, if_neg hempty] at hfits
        have hnot := hfits [a] (by simp) hsingle
        rw [if_neg (by simp [hnot])] at hfits
        have hlater := ih hsingle fun candidate hmem =>
          hfits candidate
            (List.mem_cons_of_mem _ (List.mem_cons_of_mem _ hmem))
        rw [batches, if_pos hexceeds, if_neg hempty, List.length_cons, hlater,
          hfull, Nat.ceilDiv_eq_add_pred_div, Nat.ceilDiv_eq_add_pred_div]
        have hsum : limit + (a :: rest).length + limit - 1 =
            [a].length + rest.length + limit - 1 + limit := by
          simp only [List.length_cons, List.length_nil]
          omega
        rw [hsum, Nat.add_div_right _ hpositive]

end Cutting

end Batches
