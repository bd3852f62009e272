import Mathlib.Algebra.BigOperators.Group.List.Basic
import Mathlib.Algebra.GroupWithZero.Nat
import Mathlib.Data.List.Infix

/-!
# Plain LRU lists

A list of items from least to most recently used says all there is to say
about an LRU cache with expiry: which items there are, and in which order they
will be evicted.  Eviction keeps the longest suffix which fits, that is, drops
the shortest front prefix.
-/

namespace Lru

/-! ## Eviction -/

section Eviction

variable {α : Type} {fits : List α → Bool}

/-- The longest suffix which fits. -/
def longestSuffix (fits : List α → Bool) (items : List α) : List α :=
  (items.tails.find? fits).getD []

@[simp] theorem longestSuffix_nil : longestSuffix fits [] = [] := by
  cases hfits : fits [] <;> simp [longestSuffix, hfits]

theorem longestSuffix_of_fits {items : List α} (h : fits items = true) :
    longestSuffix fits items = items := by
  cases items with
  | nil => exact longestSuffix_nil
  | cons item items => simp [longestSuffix, h]

theorem longestSuffix_cons_of_not {item : α} {items : List α}
    (h : fits (item :: items) = false) :
    longestSuffix fits (item :: items) = longestSuffix fits items := by
  simp [longestSuffix, h]

theorem longestSuffix_suffix (items : List α) :
    longestSuffix fits items <:+ items := by
  induction items with
  | nil => simp
  | cons item items ih =>
      by_cases hfits : fits (item :: items) = true
      · rw [longestSuffix_of_fits hfits]
      · rw [longestSuffix_cons_of_not (Bool.eq_false_iff.mpr hfits)]
        exact ih.trans (List.suffix_cons item items)

/-- `kept` is what the shortest eviction from the front leaves of `items`. -/
def ShortestEviction (fits : List α → Bool) (items kept : List α) : Prop :=
  fits kept = true ∧ ∃ evicted, items = evicted ++ kept ∧
    ∀ front back, items = front ++ back → fits back = true →
      evicted.length ≤ front.length

/-- Keeping the longest suffix evicts the shortest prefix. -/
theorem longestSuffix_shortest (hempty : fits [] = true) (items : List α) :
    ShortestEviction fits items (longestSuffix fits items) := by
  induction items with
  | nil => exact ⟨by simpa using hempty, [], by simp, by simp⟩
  | cons item items ih =>
      by_cases hfits : fits (item :: items) = true
      · rw [longestSuffix_of_fits hfits]
        exact ⟨hfits, [], rfl, by simp⟩
      · have hnot := Bool.eq_false_iff.mpr hfits
        rw [longestSuffix_cons_of_not hnot]
        obtain ⟨hkept, evicted, hitems, hshortest⟩ := ih
        refine ⟨hkept, item :: evicted, by rw [List.cons_append, ← hitems], ?_⟩
        intro front back hsplit hback
        cases front with
        | nil =>
            have hwhole : item :: items = back := hsplit
            rw [← hwhole] at hback
            exact absurd hback hfits
        | cons head front =>
            obtain ⟨-, hrest⟩ := List.cons.inj hsplit
            have hle := hshortest front back hrest hback
            simpa using hle

end Eviction

/-! ## Items -/

structure Item (κ ν : Type) where
  key : κ
  value : ν
  insertedAt : ℕ
  expiresAt : ℕ
  size : ℕ
  deriving DecidableEq

section Items

variable {κ ν : Type}

/-- The size of all items together. -/
def bytes (items : List (Item κ ν)) : ℕ := (items.map Item.size).sum

@[simp] theorem bytes_nil : bytes ([] : List (Item κ ν)) = 0 := rfl

@[simp] theorem bytes_append (items items' : List (Item κ ν)) :
    bytes (items ++ items') = bytes items + bytes items' := by
  simp [bytes]

@[simp] theorem bytes_singleton (item : Item κ ν) :
    bytes [item] = item.size := by
  simp [bytes]

/-- The items which have not expired. -/
def live (now : ℕ) (items : List (Item κ ν)) : List (Item κ ν) :=
  items.filter fun item => now < item.expiresAt

structure Limits where
  count : ℕ
  bytes : ℕ

/-- The items are within both limits. -/
def Limits.allow (limits : Limits) (items : List (Item κ ν)) : Bool :=
  items.length ≤ limits.count && Lru.bytes items ≤ limits.bytes

theorem Limits.allow_iff {limits : Limits} {items : List (Item κ ν)} :
    limits.allow items = true ↔
      items.length ≤ limits.count ∧ Lru.bytes items ≤ limits.bytes := by
  simp [Limits.allow]

@[simp] theorem Limits.allow_nil (limits : Limits) :
    limits.allow ([] : List (Item κ ν)) = true := by
  simp [Limits.allow]

/-- There is room for one more item. -/
def Limits.allowWith (limits : Limits) (item : Item κ ν)
    (items : List (Item κ ν)) : Bool :=
  limits.allow (items ++ [item])

theorem Limits.allowWith_iff {limits : Limits} {item : Item κ ν}
    {items : List (Item κ ν)} :
    limits.allowWith item items = true ↔
      items.length + 1 ≤ limits.count ∧
        Lru.bytes items + item.size ≤ limits.bytes := by
  simp [Limits.allowWith, Limits.allow]

variable [DecidableEq κ]

/-- The items of other keys. -/
def without (key : κ) (items : List (Item κ ν)) : List (Item κ ν) :=
  items.filter fun item => item.key ≠ key

/-- Look a key up: an expired item is dropped, any other one moves to the
back. -/
def lookup (key : κ) (now : ℕ) (items : List (Item κ ν)) :
    Option ν × List (Item κ ν) :=
  match items.find? fun item => item.key = key with
  | none => (none, items)
  | some item =>
      if item.expiresAt ≤ now then (none, without key items)
      else (some item.value, without key items ++ [item])

/-- Put an item at the back, in place of an old one with its key, and evict
as many items from the front as that takes.  An item which exceeds the byte
limit by itself is not stored. -/
def put (limits : Limits) (item : Item κ ν) (items : List (Item κ ν)) :
    Bool × List (Item κ ν) :=
  if limits.bytes < item.size then (false, without item.key items)
  else
    (true, longestSuffix (limits.allowWith item) (without item.key items) ++
      [item])

/-- An invariant of single items holds of the items which a lookup leaves. -/
theorem lookup_forall {P : Item κ ν → Prop} {items : List (Item κ ν)}
    (h : ∀ item ∈ items, P item) (key : κ) (now : ℕ) :
    ∀ item ∈ (lookup key now items).2, P item := by
  have hwithout : ∀ item ∈ without key items, P item :=
    fun item hitem => h item (List.mem_of_mem_filter hitem)
  unfold lookup
  split
  · exact h
  rename_i found hfind
  split
  · exact hwithout
  · intro item hitem
    rcases List.mem_append.mp hitem with hitem | hitem
    · exact hwithout item hitem
    · rw [List.mem_singleton.mp hitem]
      exact h found (List.mem_of_find?_eq_some hfind)

theorem put_forall {P : Item κ ν → Prop} {items : List (Item κ ν)}
    (h : ∀ item ∈ items, P item) (limits : Limits) {new : Item κ ν}
    (hnew : P new) : ∀ item ∈ (put limits new items).2, P item := by
  have hwithout : ∀ item ∈ without new.key items, P item :=
    fun item hitem => h item (List.mem_of_mem_filter hitem)
  unfold put
  split
  · exact hwithout
  · intro item hitem
    rcases List.mem_append.mp hitem with hitem | hitem
    · exact hwithout item ((longestSuffix_suffix _).subset hitem)
    · rw [List.mem_singleton.mp hitem]
      exact hnew

end Items

end Lru
