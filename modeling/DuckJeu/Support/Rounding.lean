import Mathlib.Data.Nat.Log
import Mathlib.Tactic.Positivity
import Mathlib.Tactic.Ring

/-!
# Rounding quotients to binary fractions

A quotient of two integers is rounded to the nearest integer, and of two which
are equally near to the even one.  Quotients of at most one become binary
fractions with a fixed number of significant digits by rounding after a shift.
-/

namespace Rounding

/-! ## The nearest integer -/

/-- The integer nearest to `n / d`, ties to even. -/
def nearest (n d : ℕ) : ℕ :=
  if d < 2 * (n % d) ∨ (2 * (n % d) = d ∧ n / d % 2 = 1) then n / d + 1
  else n / d

section Nearest

variable {n d q : ℕ}

theorem nearest_eq_or (n d : ℕ) : nearest n d = n / d ∨
    (nearest n d = n / d + 1 ∧ d ≤ 2 * (n % d)) := by
  unfold nearest
  split
  · rename_i hup
    exact Or.inr ⟨rfl, by omega⟩
  · exact Or.inl rfl

theorem le_nearest (hd : 0 < d) (h : q * d ≤ n) : q ≤ nearest n d := by
  have hq : q ≤ n / d := (Nat.le_div_iff_mul_le hd).mpr h
  rcases nearest_eq_or n d with heq | ⟨heq, -⟩
  · rwa [heq]
  · omega

theorem nearest_le (hd : 0 < d) (h : n ≤ q * d) : nearest n d ≤ q := by
  have hdiv := Nat.div_add_mod n d
  rcases nearest_eq_or n d with heq | ⟨heq, hrest⟩
  · rw [heq]
    exact Nat.div_le_of_le_mul (by rwa [Nat.mul_comm])
  · -- the remainder is positive, so the quotient is smaller
    rw [heq]
    refine (Nat.div_lt_iff_lt_mul hd).mpr (lt_of_le_of_ne h ?_)
    rintro rfl
    rw [Nat.mul_mod_left] at hrest
    omega

/-- The error is at most one half. -/
theorem nearest_error (hd : 0 < d) :
    2 * (nearest n d * d) ≤ 2 * n + d ∧ 2 * n ≤ 2 * (nearest n d * d) + d := by
  have hdiv : n / d * d + n % d = n := by
    rw [Nat.mul_comm]
    exact Nat.div_add_mod n d
  have hmod := Nat.mod_lt n hd
  unfold nearest
  split
  · rename_i hup
    rw [Nat.add_mul]
    omega
  · rename_i hdown
    omega

theorem nearest_lt (hd : 0 < d) (h : 2 * n + d < 2 * (q * d)) :
    nearest n d < q := by
  have hbound := (nearest_error (n := n) hd).1
  have hprod : nearest n d * d < q * d := by omega
  exact lt_of_mul_lt_mul_right hprod (Nat.zero_le d)

end Nearest

/-! ## The shift -/

/-- The shift which brings `n / d` between `2 ^ p` and `2 ^ (p + 1)`. -/
def shift (p n d : ℕ) : ℕ :=
  let s := p + Nat.log 2 d - Nat.log 2 n
  if n * 2 ^ s < 2 ^ p * d then s + 1 else s

theorem shift_spec (p : ℕ) {n d : ℕ} (hn : 0 < n) (hnd : n ≤ d) :
    2 ^ p * d ≤ n * 2 ^ shift p n d ∧
      n * 2 ^ shift p n d < 2 ^ (p + 1) * d := by
  have hlog : Nat.log 2 n ≤ Nat.log 2 d := Nat.log_mono_right hnd
  have hnle : 2 ^ Nat.log 2 n ≤ n := Nat.pow_log_le_self 2 (by omega)
  have hnlt : n < 2 ^ (Nat.log 2 n + 1) := Nat.lt_pow_succ_log_self (by omega) n
  have hdle : 2 ^ Nat.log 2 d ≤ d := Nat.pow_log_le_self 2 (by omega)
  have hdlt : d < 2 ^ (Nat.log 2 d + 1) := Nat.lt_pow_succ_log_self (by omega) d
  let s := p + Nat.log 2 d - Nat.log 2 n
  have hs : s + Nat.log 2 n = p + Nat.log 2 d := by omega
  have hpow : 2 ^ Nat.log 2 n * 2 ^ s = 2 ^ p * 2 ^ Nat.log 2 d := by
    rw [← pow_add, ← pow_add]
    congr 1
    omega
  have hlow : 2 ^ p * 2 ^ Nat.log 2 d ≤ n * 2 ^ s := by
    rw [← hpow]
    exact Nat.mul_le_mul_right _ hnle
  have hhigh : n * 2 ^ s < 2 ^ (p + 1) * d := by
    calc n * 2 ^ s < 2 ^ (Nat.log 2 n + 1) * 2 ^ s :=
          Nat.mul_lt_mul_of_pos_right hnlt (by positivity)
      _ = 2 ^ (p + 1) * 2 ^ Nat.log 2 d := by
          rw [pow_succ, pow_succ, mul_right_comm, hpow, mul_right_comm]
      _ ≤ 2 ^ (p + 1) * d := Nat.mul_le_mul_left _ hdle
  have hclose : 2 ^ p * d < n * 2 ^ (s + 1) := by
    calc 2 ^ p * d < 2 ^ p * 2 ^ (Nat.log 2 d + 1) :=
          Nat.mul_lt_mul_of_pos_left hdlt (by positivity)
      _ = 2 ^ p * 2 ^ Nat.log 2 d * 2 := by rw [pow_succ, mul_assoc]
      _ ≤ n * 2 ^ s * 2 := Nat.mul_le_mul_right 2 hlow
      _ = n * 2 ^ (s + 1) := by rw [pow_succ, mul_assoc]
  change 2 ^ p * d ≤ n * 2 ^ (if n * 2 ^ s < 2 ^ p * d then s + 1 else s) ∧
    n * 2 ^ (if n * 2 ^ s < 2 ^ p * d then s + 1 else s) < 2 ^ (p + 1) * d
  split
  · rename_i hsmall
    refine ⟨hclose.le, ?_⟩
    calc n * 2 ^ (s + 1) = n * 2 ^ s * 2 := by rw [pow_succ, mul_assoc]
      _ < 2 ^ p * d * 2 := Nat.mul_lt_mul_of_pos_right hsmall (by omega)
      _ = 2 ^ (p + 1) * d := by rw [pow_succ, mul_right_comm]
  · rename_i hlarge
    exact ⟨not_lt.mp hlarge, hhigh⟩

/-- Fractions of at most one are shifted by the digits at least, and by more
if they are smaller. -/
theorem le_shift {p n d k : ℕ} (hn : 0 < n) (hnd : n ≤ d)
    (hk : n * 2 ^ k < d) : p + k < shift p n d := by
  obtain ⟨hlow, -⟩ := shift_spec p hn hnd
  by_contra hle
  have hpow : n * 2 ^ shift p n d ≤ n * 2 ^ (p + k) :=
    Nat.mul_le_mul_left _ (Nat.pow_le_pow_right (by omega) (by omega))
  have hlarge : 2 ^ p * d ≤ 2 ^ p * (n * 2 ^ k) := by
    calc 2 ^ p * d ≤ n * 2 ^ shift p n d := hlow
      _ ≤ n * 2 ^ (p + k) := hpow
      _ = 2 ^ p * (n * 2 ^ k) := by rw [pow_add]; ring
  exact absurd (Nat.le_of_mul_le_mul_left hlarge (by positivity)) (by omega)

theorem shift_le {p n d k : ℕ} (hn : 0 < n) (hnd : n ≤ d)
    (hk : d ≤ n * 2 ^ k) : shift p n d ≤ p + k := by
  obtain ⟨-, hhigh⟩ := shift_spec p hn hnd
  by_contra hlt
  have hpow : n * 2 ^ (p + 1 + k) ≤ n * 2 ^ shift p n d :=
    Nat.mul_le_mul_left _ (Nat.pow_le_pow_right (by omega) (by omega))
  have hlarge : 2 ^ (p + 1) * (n * 2 ^ k) < 2 ^ (p + 1) * d := by
    calc 2 ^ (p + 1) * (n * 2 ^ k) = n * 2 ^ (p + 1 + k) := by
          rw [pow_add]; ring
      _ ≤ n * 2 ^ shift p n d := hpow
      _ < 2 ^ (p + 1) * d := hhigh
  exact absurd (lt_of_mul_lt_mul_left hlarge (Nat.zero_le _)) (by omega)

end Rounding
