import Mathlib.Algebra.Field.Rat
import Mathlib.Data.List.TakeWhile

/-!
# Decimal numerals

A numeral has a sign, digits before the point and digits after it.  The text
of a numeral determines all three, and the number read off a text is the
number which the digits denote.
-/

/-- A decimal numeral without superfluous leading zeros. -/
structure Numeral where
  negative : Bool
  integer : List Char
  fraction : List Char
  digits : ∀ c ∈ integer ++ fraction, c.isDigit = true
  integer_ne_nil : integer ≠ []
  no_leading_zero : integer.head? = some '0' → integer = ['0']

namespace Numeral

/-- The point is only written before digits. -/
def text (n : Numeral) : List Char :=
  (if n.negative then ['-'] else []) ++
    (n.integer ++ if n.fraction = [] then [] else '.' :: n.fraction)

/-- The digits on both sides of the point, as one number. -/
def magnitude (n : Numeral) : ℕ :=
  Nat.ofDigitChars 10 (n.integer ++ n.fraction) 0

/-! ## Reading a text -/

def cutSign : List Char → Bool × List Char
  | '-' :: rest => (true, rest)
  | rest => (false, rest)

def cutPoint (body : List Char) : List Char × List Char :=
  (body.takeWhile (· ≠ '.'), (body.dropWhile (· ≠ '.')).drop 1)

/-- Positional reading of an optional sign, digits, and digits after an
optional point. -/
def read (text : List Char) : ℚ :=
  let (negative, body) := cutSign text
  let (integer, fraction) := cutPoint body
  let magnitude : ℚ :=
    Nat.ofDigitChars 10 (integer ++ fraction) 0 / 10 ^ fraction.length
  if negative then -magnitude else magnitude

theorem cutSign_text (n : Numeral) :
    cutSign n.text = (n.negative,
      n.integer ++ if n.fraction = [] then [] else '.' :: n.fraction) := by
  obtain ⟨c, rest, hinteger⟩ := List.exists_cons_of_ne_nil n.integer_ne_nil
  have hdigit : c.isDigit = true := n.digits c (by simp [hinteger])
  have hminus : c ≠ '-' := by
    intro h
    rw [h] at hdigit
    exact absurd hdigit (by decide)
  cases hnegative : n.negative with
  | true => simp [text, hnegative, cutSign]
  | false =>
      simp only [text, hnegative, hinteger, Bool.false_eq_true, if_false,
        List.nil_append, List.cons_append]
      unfold cutSign
      split
      · rename_i heq
        exact absurd (List.cons.inj heq).1 hminus
      · rfl

theorem cutPoint_body (n : Numeral) :
    cutPoint (n.integer ++ if n.fraction = [] then [] else '.' :: n.fraction) =
      (n.integer, n.fraction) := by
  have hinteger : ∀ c ∈ n.integer, decide (c ≠ '.') = true := by
    intro c hc
    have hdigit := n.digits c (List.mem_append_left _ hc)
    rw [decide_eq_true_eq]
    intro h
    rw [h] at hdigit
    exact absurd hdigit (by decide)
  unfold cutPoint
  by_cases hfraction : n.fraction = []
  · rw [if_pos hfraction, List.append_nil,
      List.takeWhile_eq_self_iff.mpr hinteger,
      List.dropWhile_eq_nil_iff.mpr hinteger, hfraction]
    rfl
  · rw [if_neg hfraction, List.takeWhile_append_of_pos hinteger,
      List.dropWhile_append_of_pos hinteger]
    simp

/-- The text determines sign and digits. -/
theorem eq_of_text_eq {n m : Numeral} (h : n.text = m.text) : n = m := by
  have hsign := cutSign_text n
  rw [h, cutSign_text m] at hsign
  obtain ⟨hnegative, hbody⟩ := Prod.mk.inj hsign
  have hpoint := cutPoint_body n
  rw [← hbody, cutPoint_body m] at hpoint
  obtain ⟨hinteger, hfraction⟩ := Prod.mk.inj hpoint
  cases n
  cases m
  simp only at hnegative hinteger hfraction
  simp only [hnegative, hinteger, hfraction]

/-- A numeral reads as its magnitude, scaled by the digits after the point. -/
theorem read_text (n : Numeral) :
    read n.text =
      if n.negative then -((n.magnitude : ℚ) / 10 ^ n.fraction.length)
      else (n.magnitude : ℚ) / 10 ^ n.fraction.length := by
  have hpoint := cutPoint_body n
  simp only [read, cutSign_text, hpoint, magnitude]

/-! ## Digits of natural numbers -/

theorem ofDigitChars_lt {digits : List Char}
    (h : ∀ c ∈ digits, c.isDigit = true) :
    Nat.ofDigitChars 10 digits 0 < 10 ^ digits.length := by
  induction digits with
  | nil => simp
  | cons c rest ih =>
      have hrest := ih fun d hd => h d (List.mem_cons_of_mem _ hd)
      have hdigit : c.toNat - 48 < 10 := by
        have hc := h c (List.mem_cons_self ..)
        simp only [Char.isDigit, Bool.and_eq_true, decide_eq_true_eq] at hc
        have hle : c.val.toNat ≤ 57 := UInt32.le_iff_toNat_le.mp hc.2
        change c.val.toNat - 48 < 10
        omega
      rw [Nat.ofDigitChars_cons, Nat.ofDigitChars_eq_ofDigitChars_zero,
        List.length_cons, Nat.pow_succ]
      have hhead : 10 * 0 + (c.toNat - '0'.toNat) ≤ 9 := by
        change 10 * 0 + (c.toNat - 48) ≤ 9
        omega
      have hscaled := Nat.mul_le_mul_left (10 ^ rest.length) hhead
      omega

/-- A number with more than one digit does not start with a zero. -/
theorem toDigits_no_leading_zero {n : ℕ}
    (h : (Nat.toDigits 10 n).head? = some '0') :
    Nat.toDigits 10 n = ['0'] := by
  obtain ⟨rest, hdigits⟩ : ∃ rest, Nat.toDigits 10 n = '0' :: rest := by
    cases hdigits : Nat.toDigits 10 n with
    | nil => simp [hdigits] at h
    | cons c rest =>
        rw [hdigits, List.head?_cons, Option.some.injEq] at h
        exact ⟨rest, by rw [h]⟩
  by_cases hrest : rest = []
  · rw [hdigits, hrest]
  · exfalso
    have hread : Nat.ofDigitChars 10 ('0' :: rest) 0 = n := by
      rw [← hdigits]
      exact Nat.ofDigitChars_ten_toDigits
    have hlt : n < 10 ^ rest.length := by
      rw [← hread, Nat.ofDigitChars_cons]
      refine ofDigitChars_lt fun c hc => ?_
      have hmem : c ∈ Nat.toDigits 10 n := by
        rw [hdigits]
        exact List.mem_cons_of_mem _ hc
      exact Nat.isDigit_of_mem_toDigits (by decide) (by decide) hmem
    have hlength := (Nat.length_toDigits_le_iff (b := 10) (by decide)
      (List.length_pos_iff.mpr hrest)).mpr hlt
    rw [hdigits, List.length_cons] at hlength
    omega

end Numeral
