import Mathlib.Data.List.Basic

/-!
# Cutting texts apart

Two texts which agree are cut apart at the same place when the place can be
read off the text: at a terminator which the part before it avoids, or at the
end of a stretch of characters of one sort.
-/

namespace Delimited

variable {χ : Type}

/-- Texts which avoid a terminator are cut apart at their terminators. -/
theorem terminator_cut {c : χ} {u v x y : List χ}
    (hu : c ∉ u) (hv : c ∉ v) (h : u ++ c :: x = v ++ c :: y) :
    u = v ∧ x = y := by
  induction u generalizing v with
  | nil =>
      cases v with
      | nil => simpa using h
      | cons d v =>
          obtain ⟨rfl, -⟩ := List.cons.inj h
          simp at hv
  | cons d u ih =>
      cases v with
      | nil =>
          obtain ⟨rfl, -⟩ := List.cons.inj h
          simp at hu
      | cons d' v =>
          obtain ⟨rfl, htail⟩ := List.cons.inj h
          simp only [List.mem_cons, not_or] at hu hv
          obtain ⟨rfl, hxy⟩ := ih hu.2 hv.2 htail
          exact ⟨rfl, hxy⟩

/-- Stretches of one sort are cut apart where something else follows. -/
theorem stretch_cut {sort : χ → Prop} {u v x y : List χ}
    (hu : ∀ c ∈ u, sort c) (hv : ∀ c ∈ v, sort c)
    (hx : ∀ c ∈ x.head?, ¬ sort c) (hy : ∀ c ∈ y.head?, ¬ sort c)
    (h : u ++ x = v ++ y) : u = v ∧ x = y := by
  induction u generalizing v with
  | nil =>
      cases v with
      | nil => exact ⟨rfl, h⟩
      | cons d v =>
          refine absurd (hv d (List.mem_cons_self ..)) (hx d ?_)
          rw [List.nil_append] at h
          simp [h]
  | cons d u ih =>
      cases v with
      | nil =>
          refine absurd (hu d (List.mem_cons_self ..)) (hy d ?_)
          rw [List.nil_append] at h
          simp [← h]
      | cons d' v =>
          obtain ⟨rfl, htail⟩ := List.cons.inj h
          obtain ⟨rfl, hxy⟩ := ih
            (fun c hc => hu c (List.mem_cons_of_mem _ hc))
            (fun c hc => hv c (List.mem_cons_of_mem _ hc)) htail
          exact ⟨rfl, hxy⟩

/-- Symbols whose codes can be cut apart, and which do not begin like the
terminator, make texts which are cut apart at the terminator. -/
theorem code_cut {α : Type} {code : α → List χ} {c : χ}
    (hcode : ∀ a b x y, code a ++ x = code b ++ y → a = b ∧ x = y)
    (hopen : ∀ a x y, code a ++ x ≠ c :: y) {u v : List α} {x y : List χ}
    (h : u.flatMap code ++ c :: x = v.flatMap code ++ c :: y) :
    u = v ∧ x = y := by
  induction u generalizing v with
  | nil =>
      cases v with
      | nil => simpa using h
      | cons b v =>
          rw [List.flatMap_cons, List.append_assoc] at h
          exact absurd h.symm (hopen b _ _)
  | cons a u ih =>
      cases v with
      | nil =>
          rw [List.flatMap_cons, List.append_assoc] at h
          exact absurd h (hopen a _ _)
      | cons b v =>
          rw [List.flatMap_cons, List.flatMap_cons, List.append_assoc,
            List.append_assoc] at h
          obtain ⟨rfl, htail⟩ := hcode a b _ _ h
          obtain ⟨rfl, hxy⟩ := ih htail
          exact ⟨rfl, hxy⟩

end Delimited
