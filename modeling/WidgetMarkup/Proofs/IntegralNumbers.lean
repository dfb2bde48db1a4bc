import Mathlib
import WidgetMarkup.Expr.Printer

namespace WidgetMarkup

namespace Double

variable {x y : Double} {n m : Int}

/-- The size of a finite number, which its sign bit leaves open. -/
def magnitude (x : Double) : ℚ := x.significand * (2 : ℚ) ^ x.exponent

def value (x : Double) : ℚ := if x.negative then -x.magnitude else x.magnitude

theorem fractionField_lt (x : Double) : x.fractionField < hiddenBit := Nat.mod_lt _ (by decide)

theorem significand_lt (x : Double) : x.significand < 2 * hiddenBit := by
  have hfraction := x.fractionField_lt
  rw [significand]
  split <;> omega

theorem hiddenBit_le_significand (h : -1074 < x.exponent) : hiddenBit ≤ x.significand := by
  have hfield : x.exponentField ≠ 0 := by
    intro hzero
    rw [exponent, hzero] at h
    exact absurd h (by decide)
  rw [significand, if_neg hfield]
  exact Nat.le_add_right _ _

theorem magnitude_nonneg (x : Double) : 0 ≤ x.magnitude := by
  rw [magnitude]
  positivity

theorem abs_value (x : Double) : |x.value| = x.magnitude := by
  rw [value]
  split
  case isTrue => rw [abs_neg, abs_of_nonneg x.magnitude_nonneg]
  case isFalse => exact abs_of_nonneg x.magnitude_nonneg

theorem isZero_iff : x.isZero = true ↔ x.magnitude = 0 := by
  have hpower : (2 : ℚ) ^ x.exponent ≠ 0 := zpow_ne_zero _ (by norm_num)
  rw [magnitude, mul_eq_zero, or_iff_left hpower, Nat.cast_eq_zero, isZero, significand,
    Bool.and_eq_true, beq_iff_eq, beq_iff_eq]
  split
  case isTrue hfield => exact and_iff_right hfield
  case isFalse hfield =>
    have hbit : 0 < hiddenBit := by decide
    constructor
    · intro h
      exact absurd h.1 hfield
    · intro h
      omega

theorem ext_fields (hsign : x.negative = y.negative) (hexponent : x.exponentField = y.exponentField)
    (hfraction : x.fractionField = y.fractionField) : x = y := by
  have hx := x.bits.toNat_lt
  have hy := y.bits.toNat_lt
  have hbits : x.bits.toNat = y.bits.toNat := by
    simp only [negative, decide_eq_decide] at hsign
    simp only [exponentField, fractionField, hiddenBit] at hexponent hfraction
    omega
  cases x
  cases y
  exact congrArg mk (UInt64.toNat_inj.1 hbits)

theorem fields_eq (hexponent : x.exponent = y.exponent)
    (hsignificand : x.significand = y.significand) :
    x.exponentField = y.exponentField ∧ x.fractionField = y.fractionField := by
  have hx := x.fractionField_lt
  have hy := y.fractionField_lt
  rw [exponent, exponent] at hexponent
  rw [significand, significand] at hsignificand
  split at hsignificand <;> split at hsignificand <;> omega

theorem exponent_le (h : x.magnitude = y.magnitude) : y.exponent ≤ x.exponent := by
  by_contra hlt
  rw [not_le] at hlt
  -- the hidden bit of `y`, moved up by the exponents, is more than a significand can hold
  have hleast : -1074 ≤ x.exponent := by
    rw [exponent]
    omega
  have hbit : hiddenBit ≤ y.significand := hiddenBit_le_significand (by omega)
  have hbound := x.significand_lt
  obtain ⟨k, hk⟩ := Int.eq_ofNat_of_zero_le (Int.sub_nonneg_of_le (Int.add_one_le_of_lt hlt))
  have hexponent : y.exponent = x.exponent + 1 + k := by omega
  have hpower : (0 : ℚ) < 2 ^ x.exponent := zpow_pos (by norm_num) _
  have hsignificand : x.significand = y.significand * 2 * 2 ^ k := by
    rw [magnitude, magnitude, hexponent, zpow_add₀ (by norm_num), zpow_add₀ (by norm_num), zpow_one,
      zpow_natCast] at h
    have hcast : (x.significand : ℚ) = y.significand * 2 * 2 ^ k := by
      apply mul_right_cancel₀ hpower.ne'
      rw [h]
      ring
    exact_mod_cast hcast
  have hgrow : y.significand * 2 * 1 ≤ y.significand * 2 * 2 ^ k :=
    Nat.mul_le_mul_left _ Nat.one_le_two_pow
  omega

theorem magnitude_inj (h : x.magnitude = y.magnitude) :
    x.exponentField = y.exponentField ∧ x.fractionField = y.fractionField := by
  have hexponent : x.exponent = y.exponent := le_antisymm (exponent_le h.symm) (exponent_le h)
  have hpower : (2 : ℚ) ^ y.exponent ≠ 0 := zpow_ne_zero _ (by norm_num)
  rw [magnitude, magnitude, hexponent] at h
  exact fields_eq hexponent (Nat.cast_injective (mul_right_cancel₀ hpower h))

theorem isNaN_of_isFinite (h : x.isFinite = true) : x.isNaN = false := by
  rw [isFinite, bne_iff_ne] at h
  rw [isNaN, beq_eq_false_iff_ne.2 h, Bool.false_and]

theorem value_eq_zero_iff : x.value = 0 ↔ x.magnitude = 0 := by
  rw [← abs_value, abs_eq_zero]

theorem negative_eq (h : x.value = y.value) (hne : y.magnitude ≠ 0) : x.negative = y.negative := by
  have hmagnitude : x.magnitude = y.magnitude := by rw [← abs_value, h, abs_value]
  rw [value, value, hmagnitude] at h
  cases hx : x.negative <;> cases hy : y.negative
  case false.true =>
    rw [hx, hy] at h
    exact absurd (self_eq_neg.1 h) hne
  case true.false =>
    rw [hx, hy] at h
    exact absurd (neg_eq_self.1 h) hne
  all_goals rfl

theorem same_iff (hx : x.isFinite = true) (hy : y.isFinite = true) :
    x.same y = true ↔ x.value = y.value := by
  rw [same, isNaN_of_isFinite hx, isNaN_of_isFinite hy, Bool.not_false, Bool.true_and,
    Bool.true_and, Bool.or_eq_true, Bool.and_eq_true, beq_iff_eq]
  constructor
  · rintro (h | ⟨hzero, hzero'⟩)
    · exact congrArg (fun bits => value ⟨bits⟩) h
    · rw [value_eq_zero_iff.2 (isZero_iff.1 hzero), value_eq_zero_iff.2 (isZero_iff.1 hzero')]
  · intro h
    have hmagnitude : x.magnitude = y.magnitude := by rw [← abs_value, h, abs_value]
    obtain ⟨hexponent, hfraction⟩ := magnitude_inj hmagnitude
    -- the value determines the sign unless it is zero
    by_cases hzero : y.magnitude = 0
    · right
      exact ⟨isZero_iff.2 (hmagnitude.trans hzero), isZero_iff.2 hzero⟩
    · left
      exact congrArg bits (ext_fields (negative_eq h hzero) hexponent hfraction)

theorem value_eq_signed {k : Nat} (h : x.magnitude = k) : x.value = x.signed k := by
  rw [value, signed, h]
  split <;> simp

theorem magnitude_of_nat {k : Nat} (h : x.exponent = k) :
    x.magnitude = (x.significand * 2 ^ k : Nat) := by
  rw [magnitude, h, zpow_natCast]
  push_cast
  rfl

theorem magnitude_mul_of_neg_nat {k : Nat} (h : -x.exponent = k) :
    x.magnitude * (2 ^ k : Nat) = x.significand := by
  have hpower : ((2 ^ k : Nat) : ℚ) = 2 ^ (-x.exponent) := by
    rw [h, zpow_natCast]
    push_cast
    rfl
  rw [magnitude, hpower, mul_assoc, ← zpow_add₀ (by norm_num), add_neg_cancel, zpow_zero, mul_one]

theorem magnitude_eq_nat_iff {k q : Nat} (h : -x.exponent = k) :
    x.magnitude = q ↔ x.significand = q * 2 ^ k := by
  have hpower : ((2 ^ k : Nat) : ℚ) ≠ 0 := Nat.cast_ne_zero.2 (by positivity)
  rw [← mul_left_inj' hpower, magnitude_mul_of_neg_nat h, ← Nat.cast_mul, Nat.cast_inj]

theorem magnitude_of_value (h : x.value = n) : x.magnitude = n.natAbs := by
  rw [← abs_value, h, Nat.cast_natAbs, Int.cast_abs]

/-- The bits give an integer just when the value is one, and then that one. -/
theorem integer?_eq_some_iff : x.integer? = some n ↔ x.isFinite = true ∧ x.value = n := by
  rw [integer?]
  cases hfinite : x.isFinite
  · simp
  · rw [if_neg (by simp), and_iff_right rfl]
    by_cases hexponent : 0 ≤ x.exponent
    · obtain ⟨k, hk⟩ := Int.eq_ofNat_of_zero_le hexponent
      rw [if_pos hexponent, hk, value_eq_signed (magnitude_of_nat hk), Option.some.injEq,
        Int.cast_inj]
      rfl
    · obtain ⟨k, hk⟩ := Int.eq_ofNat_of_zero_le (a := -x.exponent) (by omega)
      rw [if_neg hexponent, hk]
      change (if x.significand % 2 ^ k = 0 then some (x.signed (x.significand / 2 ^ k : Nat))
        else none) = _ ↔ _
      split
      case isTrue hwhole =>
        have hmagnitude : x.magnitude = (x.significand / 2 ^ k : Nat) := by
          rw [magnitude_eq_nat_iff hk]
          exact (Nat.div_mul_cancel (Nat.dvd_of_mod_eq_zero hwhole)).symm
        rw [value_eq_signed hmagnitude, Option.some.injEq, Int.cast_inj]
      case isFalse hrest =>
        constructor
        · intro h
          cases h
        · intro h
          rw [(magnitude_eq_nat_iff hk).1 (magnitude_of_value h)] at hrest
          exact absurd (Nat.mul_mod_left _ _) hrest

theorem code_of_integer? (h : x.integer? = some n) : x.code = toString (clamp64 n) := by
  rw [code, h]

theorem toInt?_code (h : x.integer? = some n) : x.code.toInt? = some (clamp64 n) := by
  rw [code_of_integer? h]
  exact Int.toInt?_repr _

theorem clamp64_eq_self_iff : clamp64 n = n ↔ -2 ^ 63 ≤ n ∧ n < 2 ^ 63 := by
  rw [clamp64]
  omega

theorem clamp64_eq_iff : clamp64 n = clamp64 m ↔
    n = m ∨ (2 ^ 63 - 1 ≤ n ∧ 2 ^ 63 - 1 ≤ m) ∨ (n ≤ -2 ^ 63 ∧ m ≤ -2 ^ 63) := by
  rw [clamp64, clamp64]
  omega

end Double

namespace Expr

open Double

theorem code_number (x : Double) (span : Option Span) : (literal (.number x) span).code = x.code :=
  String.ofList_toList

/-- A number without a fractional part prints as the decimal of the signed word next to its exact
value. So the text has that value just when it fits a word, and two such numbers print alike just
when they are equal or lie beyond the same end of the words. -/
theorem integral_code (x : Double) (n : Int) (span : Option Span) (hx : x.isFinite = true)
    (hn : x.value = n) :
    (literal (.number x) span).code = toString (clamp64 n) ∧
    (literal (.number x) span).code.toInt? = some (clamp64 n) ∧
    ((literal (.number x) span).code.toInt? = some n ↔ -2 ^ 63 ≤ n ∧ n < 2 ^ 63) ∧
    ∀ (y : Double) (m : Int) (span' : Option Span), y.isFinite = true → y.value = m →
      ((literal (.number x) span).code = (literal (.number y) span').code ↔
        x.same y = true ∨ (2 ^ 63 - 1 ≤ n ∧ 2 ^ 63 - 1 ≤ m) ∨ (n ≤ -2 ^ 63 ∧ m ≤ -2 ^ 63)) := by
  have hinteger : x.integer? = some n := integer?_eq_some_iff.2 ⟨hx, hn⟩
  rw [code_number, toInt?_code hinteger]
  refine ⟨code_of_integer? hinteger, rfl, ?_, ?_⟩
  · rw [Option.some.injEq, clamp64_eq_self_iff]
  · intro y m span' hy hm
    have hcodes : x.code = y.code ↔ clamp64 n = clamp64 m := by
      rw [code_of_integer? hinteger, code_of_integer? (integer?_eq_some_iff.2 ⟨hy, hm⟩)]
      exact Int.repr_inj
    have hvalues : x.value = y.value ↔ n = m := by rw [hn, hm, Int.cast_inj]
    rw [code_number, hcodes, clamp64_eq_iff, same_iff hx hy, hvalues]

theorem word_sized_codes :
    let x : Double := ⟨0x4340000000000000⟩
    let y : Double := ⟨0xc3e0000000000000⟩
    x.isFinite = true ∧ x.value = (2 ^ 53 : Int) ∧ y.isFinite = true ∧ y.value = (-2 ^ 63 : Int) ∧
      (literal (.number x)).code.toInt? = some (2 ^ 53) ∧
      (literal (.number y)).code.toInt? = some (-2 ^ 63) ∧
      (literal (.number x)).code ≠ (literal (.number y)).code := by
  intro x y
  obtain ⟨hx, hn⟩ := integer?_eq_some_iff.1 (show x.integer? = some (2 ^ 53) by decide)
  obtain ⟨hy, hm⟩ := integer?_eq_some_iff.1 (show y.integer? = some (-2 ^ 63) by decide)
  obtain ⟨-, -, hexact, halike⟩ := integral_code x _ none hx hn
  obtain ⟨-, -, hleast, -⟩ := integral_code y _ none hy hm
  refine ⟨hx, hn, hy, hm, hexact.2 (by decide), hleast.2 (by decide), ?_⟩
  rw [ne_eq, halike y _ none hy hm]
  decide

/-- Two to the 64th and two to the 65th are printed as the greatest signed word, which is neither. -/
theorem large_integers_print_alike :
    let x : Double := ⟨0x43f0000000000000⟩
    let y : Double := ⟨0x4400000000000000⟩
    x.isFinite = true ∧ x.value = (2 ^ 64 : Int) ∧ y.isFinite = true ∧ y.value = (2 ^ 65 : Int) ∧
      (literal (.number x)).code = "9223372036854775807" ∧
      (literal (.number x)).code.toInt? ≠ some (2 ^ 64) ∧
      (literal (.number x)).code = (literal (.number y)).code ∧ x.same y = false := by
  intro x y
  have hx : x.integer? = some (2 ^ 64) := by decide
  have hy : y.integer? = some (2 ^ 65) := by decide
  obtain ⟨hfinite, hvalue⟩ := integer?_eq_some_iff.1 hx
  obtain ⟨hfinite', hvalue'⟩ := integer?_eq_some_iff.1 hy
  refine ⟨hfinite, hvalue, hfinite', hvalue', ?_, ?_, ?_, by decide⟩
  · rw [code_number, code_of_integer? hx]
    decide
  · rw [code_number, toInt?_code hx]
    decide
  · rw [code_number, code_number, code_of_integer? hx, code_of_integer? hy]
    exact congrArg _ (by decide)

end Expr
end WidgetMarkup
