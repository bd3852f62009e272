import DuckJeu.Core.Canonical
import DuckJeu.Support.Numeral
import Mathlib.Algebra.Order.Ring.Int

/-!
# Decimal text

This module follows `format_decimal` and the reading of DECIMAL and HUGEINT
values, which are stored as scaled integers of up to 128 bits.  The rendered
text is a numeral, and the numeral determines the integer and its scale.
-/

namespace DuckJeu

abbrev I128 := BitVec 128

/-- `i128::unsigned_abs`. -/
def unsignedAbs (raw : I128) : ℕ := raw.abs.toNat

/-- Render a scaled integer as exact decimal text.  The digits are ASCII, so
that their bytes are their characters. -/
def formatDecimal (raw : I128) (scale : UInt8) : String :=
  if scale = 0 then toString raw.toInt
  else
    let negative := raw.toInt < 0
    let digits := (toString (unsignedAbs raw)).toList
    let scale := scale.toNat
    let out := if negative then "-" else ""
    if digits.length ≤ scale then
      out ++ "0." ++ String.ofList (List.replicate (scale - digits.length) '0')
        ++ String.ofList digits
    else
      let split := digits.length - scale
      out ++ String.ofList (digits.take split) ++ "." ++
        String.ofList (digits.drop split)

/-! ## Values read from the engine -/

structure DuckdbHugeint where
  lower : UInt64
  upper : Int64

def hugeintToI128 (value : DuckdbHugeint) : I128 :=
  (value.upper.toBitVec.signExtend 128 <<< 64) |||
    value.lower.toBitVec.setWidth 128

/-- A stored DECIMAL, in one of the four internal types. -/
inductive DecimalStorage where
  | smallint (value : Int16)
  | integer (value : Int32)
  | bigint (value : Int64)
  | hugeint (value : DuckdbHugeint)

/-- The stored integer, widened to 128 bits. -/
def DecimalStorage.raw : DecimalStorage → I128
  | .smallint value => value.toBitVec.signExtend 128
  | .integer value => value.toBitVec.signExtend 128
  | .bigint value => value.toBitVec.signExtend 128
  | .hugeint value => hugeintToI128 value

/-- `read_value` for a DECIMAL column. -/
def readDecimal (storage : DecimalStorage) (scale : UInt8) : TypedValue :=
  .decimal (formatDecimal storage.raw scale)

/-- `read_value` for a HUGEINT column. -/
def readHugeint (value : DuckdbHugeint) : TypedValue :=
  .bigInt ⟨toString (hugeintToI128 value).toInt,
    fun _ hc => decimal_of_mem_intText hc⟩

/-- The integer which is stored. -/
def DecimalStorage.value : DecimalStorage → ℤ
  | .smallint value => value.toInt
  | .integer value => value.toInt
  | .bigint value => value.toInt
  | .hugeint value => value.upper.toInt * 2 ^ 64 + value.lower.toNat

/-- The halves are put side by side. -/
theorem hugeintToI128_eq_append (value : DuckdbHugeint) :
    hugeintToI128 value = value.upper.toBitVec ++ value.lower.toBitVec := by
  apply BitVec.eq_of_getLsbD_eq
  intro i hi
  simp only [hugeintToI128, BitVec.getLsbD_or, BitVec.getLsbD_shiftLeft,
    BitVec.getLsbD_signExtend, BitVec.getLsbD_setWidth, BitVec.getLsbD_append]
  by_cases hlow : i < 64
  · simp [hlow, hi]
  · have hhigh : i - 64 < 64 := by omega
    have hwide : i - 64 < 128 := by omega
    have hout : value.lower.toBitVec.getLsbD i = false :=
      BitVec.getLsbD_of_ge _ _ (by omega)
    simp [hlow, hi, hhigh, hwide, hout]

theorem hugeintToI128_toInt (value : DuckdbHugeint) :
    (hugeintToI128 value).toInt =
      value.upper.toInt * 2 ^ 64 + value.lower.toNat := by
  rw [hugeintToI128_eq_append, BitVec.toInt_append]
  simp only [beq_iff_eq, OfNat.ofNat_ne_zero, if_false, Int.mul_comm]
  rfl

theorem DecimalStorage.raw_toInt (storage : DecimalStorage) :
    storage.raw.toInt = storage.value := by
  cases storage with
  | smallint value =>
      exact BitVec.toInt_signExtend_of_le (by decide)
  | integer value =>
      exact BitVec.toInt_signExtend_of_le (by decide)
  | bigint value =>
      exact BitVec.toInt_signExtend_of_le (by decide)
  | hugeint value => exact hugeintToI128_toInt value

theorem unsignedAbs_eq (raw : I128) : unsignedAbs raw = raw.toInt.natAbs := by
  unfold unsignedAbs
  rw [BitVec.toNat_abs, BitVec.toInt_eq_msb_cond]
  have hlt := raw.isLt
  split <;> omega

/-! ## The text is a numeral -/

theorem natDigits_isDigit {n : ℕ} :
    ∀ c ∈ Nat.toDigits 10 n, c.isDigit = true :=
  fun _ hc => Nat.isDigit_of_mem_toDigits (by decide) (by decide) hc

/-- The numeral of a text which stands for a scaled integer. -/
def Renders (text : String) (raw : I128) (scale : UInt8) : Prop :=
  ∃ n : Numeral, text.toList = n.text ∧
    (n.negative = true ↔ raw.toInt < 0) ∧
    n.fraction.length = scale.toNat ∧ n.magnitude = raw.toInt.natAbs

/-- Without a scale, the text is that of the integer. -/
theorem intText_renders (raw : I128) : Renders (toString raw.toInt) raw 0 := by
  refine ⟨⟨decide (raw.toInt < 0), Nat.toDigits 10 raw.toInt.natAbs, [],
    by simpa using natDigits_isDigit, Nat.toDigits_ne_nil,
    Numeral.toDigits_no_leading_zero⟩, ?_, by simp, rfl, ?_⟩
  · by_cases hnegative : raw.toInt < 0
    · have habs : (-raw.toInt).toNat = raw.toInt.natAbs := by omega
      have hnot : ¬ 0 ≤ raw.toInt := by omega
      simp [Numeral.text, Int.toString_eq_repr, Int.repr_eq_if, hnegative,
        hnot, habs]
    · have habs : raw.toInt.toNat = raw.toInt.natAbs := by omega
      have hnot : 0 ≤ raw.toInt := by omega
      simp [Numeral.text, Int.toString_eq_repr, Int.repr_eq_if, hnegative,
        hnot, habs]
  · simp [Numeral.magnitude]

/-- The characters of the text with a point. -/
theorem formatDecimal_toList (raw : I128) {scale : UInt8}
    (hscale : scale ≠ 0) :
    (formatDecimal raw scale).toList =
      (if raw.toInt < 0 then ['-'] else []) ++
        if (Nat.toDigits 10 raw.toInt.natAbs).length ≤ scale.toNat then
          '0' :: '.' :: (List.replicate (scale.toNat -
            (Nat.toDigits 10 raw.toInt.natAbs).length) '0' ++
              Nat.toDigits 10 raw.toInt.natAbs)
        else
          (Nat.toDigits 10 raw.toInt.natAbs).take
              ((Nat.toDigits 10 raw.toInt.natAbs).length - scale.toNat) ++
            '.' :: (Nat.toDigits 10 raw.toInt.natAbs).drop
              ((Nat.toDigits 10 raw.toInt.natAbs).length - scale.toNat) := by
  have hdigits : (toString (unsignedAbs raw)).toList =
      Nat.toDigits 10 raw.toInt.natAbs := by
    rw [unsignedAbs_eq]
    simp
  simp only [formatDecimal, hscale, if_false, hdigits]
  by_cases hnegative : raw.toInt < 0
  · simp only [hnegative, if_true]
    split
    · simp
    · simp
  · simp only [hnegative, if_false]
    split
    · simp
    · simp

/-- Digits which do not reach before the point are padded with zeros. -/
theorem padded_renders (raw : I128) {scale : UInt8} (hscale : scale ≠ 0)
    (hdigits : (Nat.toDigits 10 raw.toInt.natAbs).length ≤ scale.toNat) :
    Renders (formatDecimal raw scale) raw scale := by
  have hzeros : ∀ c ∈ List.replicate (scale.toNat -
      (Nat.toDigits 10 raw.toInt.natAbs).length) '0' ++
        Nat.toDigits 10 raw.toInt.natAbs, c.isDigit = true := by
    intro c hc
    rcases List.mem_append.mp hc with hzero | hdigit
    · rw [(List.mem_replicate.mp hzero).2]
      rfl
    · exact natDigits_isDigit c hdigit
  refine ⟨⟨decide (raw.toInt < 0), ['0'], List.replicate (scale.toNat -
      (Nat.toDigits 10 raw.toInt.natAbs).length) '0' ++
        Nat.toDigits 10 raw.toInt.natAbs, ?_, by simp, fun _ => rfl⟩,
    ?_, by simp, by simp; omega, ?_⟩
  · intro c hc
    rcases List.mem_cons.mp hc with rfl | hc
    · rfl
    · exact hzeros c hc
  · rw [formatDecimal_toList raw hscale, if_pos hdigits]
    simp [Numeral.text]
  · simp [Numeral.magnitude, Nat.ofDigitChars_cons, Nat.ofDigitChars_append,
      Nat.ofDigitChars_replicate_zero]

/-- Otherwise the point splits the digits. -/
theorem split_renders (raw : I128) {scale : UInt8} (hscale : scale ≠ 0)
    (hdigits : ¬ (Nat.toDigits 10 raw.toInt.natAbs).length ≤ scale.toNat) :
    Renders (formatDecimal raw scale) raw scale := by
  have hpositive : 0 < scale.toNat := by
    have hne : scale.toNat ≠ 0 := by
      intro h
      exact hscale (UInt8.toNat_inj.mp h)
    omega
  have hcut : (Nat.toDigits 10 raw.toInt.natAbs).length - scale.toNat ≠ 0 := by
    omega
  refine ⟨⟨decide (raw.toInt < 0), (Nat.toDigits 10 raw.toInt.natAbs).take
      ((Nat.toDigits 10 raw.toInt.natAbs).length - scale.toNat),
    (Nat.toDigits 10 raw.toInt.natAbs).drop
      ((Nat.toDigits 10 raw.toInt.natAbs).length - scale.toNat), ?_, ?_, ?_⟩,
    ?_, by simp, by simp; omega, ?_⟩
  · rw [List.take_append_drop]
    exact natDigits_isDigit
  · intro hnil
    rcases List.take_eq_nil_iff.mp hnil with hzero | hnone
    · exact hcut hzero
    · exact Nat.toDigits_ne_nil hnone
  · intro hhead
    rw [List.head?_take, if_neg hcut] at hhead
    have hone := Numeral.toDigits_no_leading_zero hhead
    rw [hone, List.length_singleton] at hdigits
    omega
  · rw [formatDecimal_toList raw hscale, if_neg hdigits]
    have hfraction : (Nat.toDigits 10 raw.toInt.natAbs).drop
        ((Nat.toDigits 10 raw.toInt.natAbs).length - scale.toNat) ≠ [] := by
      rw [Ne, List.drop_eq_nil_iff]
      omega
    simp [Numeral.text, hfraction]
  · simp [Numeral.magnitude]

theorem formatDecimal_renders (raw : I128) (scale : UInt8) :
    Renders (formatDecimal raw scale) raw scale := by
  by_cases hscale : scale = 0
  · subst hscale
    rw [formatDecimal, if_pos rfl]
    exact intText_renders raw
  · by_cases hdigits :
        (Nat.toDigits 10 raw.toInt.natAbs).length ≤ scale.toNat
    · exact padded_renders raw hscale hdigits
    · exact split_renders raw hscale hdigits

/-! ## What the text says -/

theorem Renders.read {text : String} {raw : I128} {scale : UInt8}
    (h : Renders text raw scale) :
    Numeral.read text.toList = (raw.toInt : ℚ) / 10 ^ scale.toNat := by
  obtain ⟨n, htext, hnegative, hfraction, hmagnitude⟩ := h
  rw [htext, Numeral.read_text, hfraction, hmagnitude]
  by_cases hraw : raw.toInt < 0
  · have hcast : ((raw.toInt.natAbs : ℕ) : ℚ) = -(raw.toInt : ℚ) := by
      rw [Nat.cast_natAbs, abs_of_neg hraw, Int.cast_neg]
    rw [if_pos (hnegative.mpr hraw), hcast, neg_div, neg_neg]
  · have hcast : ((raw.toInt.natAbs : ℕ) : ℚ) = (raw.toInt : ℚ) := by
      rw [Nat.cast_natAbs, abs_of_nonneg (not_lt.mp hraw)]
    rw [if_neg (fun h => hraw (hnegative.mp h)), hcast]

/-- One text renders one scaled integer. -/
theorem Renders.unique {text : String} {raw raw' : I128}
    {scale scale' : UInt8} (h : Renders text raw scale)
    (h' : Renders text raw' scale') : raw = raw' ∧ scale = scale' := by
  obtain ⟨n, htext, hnegative, hfraction, hmagnitude⟩ := h
  obtain ⟨n', htext', hnegative', hfraction', hmagnitude'⟩ := h'
  obtain rfl : n = n' := Numeral.eq_of_text_eq (htext.symm.trans htext')
  constructor
  · apply BitVec.eq_of_toInt_eq
    have hsign : raw.toInt < 0 ↔ raw'.toInt < 0 :=
      hnegative.symm.trans hnegative'
    omega
  · exact UInt8.toNat_inj.mp (hfraction.symm.trans hfraction')

/-- Decimal text is exact and canonical.  It is the text of a numeral without
superfluous zeros before the point, with a minus sign for negative numbers
only and with as many digits after the point as the scale says; it reads as
the scaled integer, and determines integer and scale.  The integer is what is
stored, also if it is stored in two halves. -/
theorem formatDecimal_exact :
    (∀ (raw : I128) (scale : UInt8),
      (∃ n : Numeral, (formatDecimal raw scale).toList = n.text ∧
        (n.negative = true ↔ raw.toInt < 0) ∧
        n.fraction.length = scale.toNat) ∧
      Numeral.read (formatDecimal raw scale).toList =
        (raw.toInt : ℚ) / 10 ^ scale.toNat) ∧
      (∀ (raw raw' : I128) (scale scale' : UInt8),
        formatDecimal raw scale = formatDecimal raw' scale' ↔
          raw = raw' ∧ scale = scale') ∧
      (∀ value : DuckdbHugeint, (hugeintToI128 value).toInt =
        value.upper.toInt * 2 ^ 64 + value.lower.toNat) ∧
      (∀ value : DuckdbHugeint, ∃ d : DecimalText,
        readHugeint value = .bigInt d ∧
          d.text = toString
            (value.upper.toInt * 2 ^ 64 + (value.lower.toNat : ℤ))) ∧
      ∀ (storage : DecimalStorage) (scale : UInt8),
        ∃ text, readDecimal storage scale = .decimal text ∧
          Numeral.read text.toList =
            (storage.value : ℚ) / 10 ^ scale.toNat := by
  refine ⟨?_, ?_, hugeintToI128_toInt, ?_, ?_⟩
  · intro raw scale
    have hrenders := formatDecimal_renders raw scale
    obtain ⟨n, htext, hnegative, hfraction, -⟩ := hrenders
    exact ⟨⟨n, htext, hnegative, hfraction⟩,
      (formatDecimal_renders raw scale).read⟩
  · intro raw raw' scale scale'
    constructor
    · intro h
      have hrenders := formatDecimal_renders raw scale
      rw [h] at hrenders
      exact hrenders.unique (formatDecimal_renders raw' scale')
    · intro h
      rw [h.1, h.2]
  · intro value
    exact ⟨_, rfl, by rw [← hugeintToI128_toInt]⟩
  · intro storage scale
    refine ⟨_, rfl, ?_⟩
    rw [(formatDecimal_renders storage.raw scale).read, storage.raw_toInt]

end DuckJeu
