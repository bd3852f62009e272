import Mathlib.Algebra.BigOperators.Group.List.Basic

/-!
# The latest entry under a key

A list of entries with keys, the newest first.  Under each key only the
latest entry may still change.  This file contains what such a change does to
the other entries and to totals over all entries.
-/

namespace Latest

/-! ## Totals -/

section Total

variable {κ α M : Type} [AddCommMonoid M]

/-- The total weight of all entries. -/
def total (w : α → M) (l : List (κ × α)) : M := (l.map fun e => w e.2).sum

@[simp] theorem total_nil (w : α → M) : total w ([] : List (κ × α)) = 0 := rfl

@[simp] theorem total_cons (w : α → M) (e : κ × α) (l : List (κ × α)) :
    total w (e :: l) = w e.2 + total w l := rfl

end Total

/-! ## Changes -/

variable {κ α M : Type} [DecidableEq κ]

/-- The newest entry under a key. -/
def latest (k : κ) : List (κ × α) → Option α
  | [] => none
  | (k', a) :: rest => if k' = k then some a else latest k rest

/-- Change the newest entry under a key. -/
def change (k : κ) (f : α → α) : List (κ × α) → List (κ × α)
  | [] => []
  | (k', a) :: rest =>
      if k' = k then (k', f a) :: rest else (k', a) :: change k f rest

variable {k k' : κ} {f : α → α} {l : List (κ × α)} {a : α}

@[simp] theorem latest_cons_self (k : κ) (a : α) (l : List (κ × α)) :
    latest k ((k, a) :: l) = some a := by
  rw [latest, if_pos rfl]

theorem latest_cons_ne (h : k' ≠ k) (a : α) (l : List (κ × α)) :
    latest k ((k', a) :: l) = latest k l := by
  rw [latest, if_neg h]

theorem latest_change_self (k : κ) (f : α → α) (l : List (κ × α)) :
    latest k (change k f l) = (latest k l).map f := by
  induction l with
  | nil => rfl
  | cons entry rest ih =>
      obtain ⟨k', a⟩ := entry
      by_cases h : k' = k
      · simp [latest, change, h]
      · simp [latest, change, h, ih]

theorem latest_change_ne (h : k' ≠ k) (f : α → α) (l : List (κ × α)) :
    latest k (change k' f l) = latest k l := by
  induction l with
  | nil => rfl
  | cons entry rest ih =>
      obtain ⟨k'', a⟩ := entry
      by_cases h' : k'' = k'
      · subst h'
        simp [latest, change, h]
      · simp [latest, change, h', ih]

/-- Without an entry under the key nothing changes. -/
theorem change_of_none (h : latest k l = none) : change k f l = l := by
  induction l with
  | nil => rfl
  | cons entry rest ih =>
      obtain ⟨k', a⟩ := entry
      by_cases h' : k' = k
      · simp [latest, h'] at h
      · rw [latest, if_neg h'] at h
        rw [change, if_neg h', ih h]

theorem mem_of_latest (h : latest k l = some a) : (k, a) ∈ l := by
  induction l with
  | nil => cases h
  | cons entry rest ih =>
      obtain ⟨k', b⟩ := entry
      by_cases h' : k' = k
      · rw [latest, if_pos h', Option.some.injEq] at h
        simp [h', h]
      · rw [latest, if_neg h'] at h
        exact List.mem_cons_of_mem _ (ih h)

/-- An entry which is not the latest under its key is an old one. -/
theorem mem_change (h : (k', a) ∈ change k f l) :
    (k', a) ∈ l ∨ (k' = k ∧ latest k (change k f l) = some a) := by
  induction l with
  | nil => cases h
  | cons entry rest ih =>
      obtain ⟨k'', b⟩ := entry
      by_cases h' : k'' = k
      · subst h'
        rw [change, if_pos rfl] at h ⊢
        rcases List.mem_cons.mp h with heq | hmem
        · obtain ⟨rfl, rfl⟩ := Prod.mk.inj heq
          exact Or.inr ⟨rfl, latest_cons_self ..⟩
        · exact Or.inl (List.mem_cons_of_mem _ hmem)
      · rw [change, if_neg h'] at h ⊢
        rcases List.mem_cons.mp h with heq | hmem
        · exact Or.inl (heq ▸ List.mem_cons_self ..)
        · rw [latest_cons_ne h']
          exact (ih hmem).imp_left (List.mem_cons_of_mem _)

/-- A change of the latest entry adds its difference to the total. -/
theorem total_change [AddCommMonoid M] {w : α → M} {d : M}
    (h : latest k l = some a) (hd : w (f a) = w a + d) :
    total w (change k f l) = total w l + d := by
  induction l with
  | nil => cases h
  | cons entry rest ih =>
      obtain ⟨k', b⟩ := entry
      by_cases h' : k' = k
      · rw [latest, if_pos h', Option.some.injEq] at h
        subst h
        rw [change, if_pos h', total_cons, total_cons, hd, add_right_comm]
      · rw [latest, if_neg h'] at h
        rw [change, if_neg h', total_cons, total_cons, ih h, add_assoc]

/-! ## Older entries -/

/-- Every entry which has a newer one under its key satisfies `Q`. -/
def Aged (Q : κ → α → Prop) (l : List (κ × α)) : Prop :=
  l.Pairwise fun e e' => e.1 = e'.1 → Q e'.1 e'.2

section Aged

variable {Q : κ → α → Prop}

/-- An entry is the latest one under its key, or it is an older one. -/
theorem Aged.latest_or (h : Aged Q l) (hmem : (k, a) ∈ l) :
    latest k l = some a ∨ Q k a := by
  induction l with
  | nil => cases hmem
  | cons entry rest ih =>
      obtain ⟨k', b⟩ := entry
      obtain ⟨hfirst, hrest⟩ := List.pairwise_cons.mp h
      rcases List.mem_cons.mp hmem with heq | hmem
      · obtain ⟨rfl, rfl⟩ := Prod.mk.inj heq
        exact Or.inl (latest_cons_self ..)
      · by_cases hsame : k' = k
        · exact Or.inr (hfirst _ hmem hsame)
        · rw [latest_cons_ne hsame]
          exact ih hrest hmem

/-- A new entry makes the latest one under its key an older one. -/
theorem Aged.cons (h : Aged Q l) (a : α) (hlatest : ∀ b ∈ latest k l, Q k b) :
    Aged Q ((k, a) :: l) := by
  refine List.pairwise_cons.mpr ⟨?_, h⟩
  rintro ⟨k', b⟩ hmem rfl
  rcases h.latest_or hmem with hb | hb
  · exact hlatest b hb
  · exact hb

theorem Aged.change (h : Aged Q l) : Aged Q (change k f l) := by
  induction l with
  | nil => exact List.Pairwise.nil
  | cons entry rest ih =>
      obtain ⟨k', b⟩ := entry
      obtain ⟨hfirst, hrest⟩ := List.pairwise_cons.mp h
      by_cases hsame : k' = k
      · rw [Latest.change, if_pos hsame]
        exact List.pairwise_cons.mpr ⟨hfirst, hrest⟩
      · rw [Latest.change, if_neg hsame]
        refine List.pairwise_cons.mpr ⟨?_, ih hrest⟩
        rintro ⟨k'', c⟩ hmem hkey
        rcases mem_change hmem with hold | ⟨hk, -⟩
        · exact hfirst _ hold hkey
        · exact absurd (hkey.trans hk) hsame

end Aged

end Latest
