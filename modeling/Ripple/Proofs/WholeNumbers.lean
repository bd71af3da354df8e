import Mathlib.Tactic.Positivity
import Mathlib.Tactic.Ring
import Ripple.Number.Decimal

/-!
Whole numbers as doubles. A double has 53 bits for the significand, so that every whole number below
`2 ^ 53` is a double itself: the one nearest to it has its value (`toInt?_ofInt`).
-/

namespace Ripple.Number

variable {n significand exponent : Nat}

/-! ## Fields -/

/-- The number with a significand and a biased exponent. -/
theorem scaled_of_bits {x : Number} (bits : x.bits.toNat = significand + exponent * leadingBit)
    (low : leadingBit ≤ significand) (high : significand < 2 * leadingBit) (finite : exponent < 2046) :
    x.isFinite = true ∧ x.isNegative = false ∧ x.scaled = ⟨significand, (exponent : Int) - 1074⟩ := by
  simp only [leadingBit] at bits low high
  have magnitude : x.magnitude = significand + exponent * leadingBit := by
    simp only [Number.magnitude, leadingBit]
    omega
  have exponentField : x.exponentField = exponent + 1 := by
    simp only [Number.exponentField, magnitude, leadingBit]
    omega
  have fractionField : x.fractionField = significand - leadingBit := by
    simp only [Number.fractionField, magnitude, leadingBit]
    omega
  refine ⟨?_, ?_, ?_⟩
  · simp only [isFinite, magnitude, infiniteMagnitude, leadingBit, decide_eq_true_eq]
    omega
  · simp only [isNegative, decide_eq_false_iff_not]
    omega
  · rw [Number.scaled, exponentField, fractionField, if_neg (Nat.succ_ne_zero exponent)]
    congr 1
    · simp only [leadingBit]
      omega
    · push_cast
      omega

/-- A number without a sign whose significand has enough factors two is whole. -/
theorem toInt?_of_bits {x : Number} {down : Nat}
    (bits : x.bits.toNat = n * 2 ^ down + exponent * leadingBit)
    (low : leadingBit ≤ n * 2 ^ down) (high : n * 2 ^ down < 2 * leadingBit)
    (grid : exponent + down = 1074) : x.toInt? = some n := by
  obtain ⟨finite, positive, scaled⟩ := scaled_of_bits bits low high (by omega)
  have below : (-((exponent : Int) - 1074)).toNat = down := by omega
  have divisor : 1 <<< down = 2 ^ down := Nat.one_shiftLeft down
  have flat : ((exponent : Int) - 1074).toNat = 0 := by omega
  have positivePower : 0 < 2 ^ down := by positivity
  unfold toInt?
  simp only [finite, positive, scaled, below, divisor, flat, not_true_eq_false, if_false,
    Bool.false_eq_true, one_mul, Nat.mul_mod_left, if_true, Nat.mul_div_cancel n positivePower,
    Nat.shiftLeft_zero]
  rfl

/-! ## Rounding -/

theorem roundHalfEven_one (n : Nat) : roundHalfEven n 1 = n := by
  simp [roundHalfEven, Nat.mod_one]

/-- Around a whole number below `2 ^ 53` the grid is no coarser than the whole numbers. -/
theorem gridExponent_one (some : n ≠ 0) (small : n < 2 ^ 53) :
    gridExponent n 1 = (n.log2 : Int) - 52 := by
  have low : 2 ^ n.log2 ≤ n := Nat.log2_self_le some
  have top : n.log2 < 53 := (Nat.log2_lt some).mpr small
  have one : (1 : Nat).log2 = 0 := by decide
  have flat : (-(n.log2 : Int)).toNat = 0 := by omega
  unfold gridExponent
  simp only [one, Nat.cast_zero, sub_zero, Int.toNat_natCast, Nat.one_shiftLeft, flat, Nat.shiftLeft_zero,
    Nat.not_lt.mpr low, if_false]
  omega

theorem significand_bounds (some : n ≠ 0) (small : n < 2 ^ 53) :
    leadingBit ≤ n * 2 ^ (52 - n.log2) ∧ n * 2 ^ (52 - n.log2) < 2 * leadingBit := by
  have low : 2 ^ n.log2 ≤ n := Nat.log2_self_le some
  have top : n.log2 < 53 := (Nat.log2_lt some).mpr small
  have high : n < 2 ^ (n.log2 + 1) := Nat.lt_log2_self
  have whole : 2 ^ n.log2 * 2 ^ (52 - n.log2) = leadingBit := by
    rw [← pow_add, Nat.add_sub_of_le (by omega)]
    rfl
  constructor
  · rw [← whole]
    exact Nat.mul_le_mul_right _ low
  · have twice : 2 * leadingBit = 2 ^ (n.log2 + 1) * 2 ^ (52 - n.log2) := by
      rw [← whole, pow_succ]
      ring
    rw [twice]
    exact Nat.mul_lt_mul_of_pos_right high (by positivity)

/-- The double nearest to a whole number below `2 ^ 53` is that number. -/
theorem toInt?_ofInt (small : n < 2 ^ 53) : (ofInt n).toInt? = some (n : Int) := by
  have sign : decide ((n : Int) < 0) = false := by simp
  unfold ofInt ofRatio
  rw [sign, Int.natAbs_natCast]
  by_cases none : n = 0
  · subst none
    rfl
  · obtain ⟨low, high⟩ := significand_bounds none small
    have top : n.log2 < 53 := (Nat.log2_lt none).mpr small
    have down : (-((n.log2 : Int) - 52)).toNat = 52 - n.log2 := by omega
    have up : ((n.log2 : Int) - 52).toNat = 0 := by omega
    have biased : ((n.log2 : Int) - 52 + 1074).toNat = n.log2 + 1022 := by omega
    have grid : n.log2 + 1022 + (52 - n.log2) = 1074 := by omega
    have bits : (n * 2 ^ (52 - n.log2) + (n.log2 + 1022) * leadingBit).toUInt64.toNat =
        n * 2 ^ (52 - n.log2) + (n.log2 + 1022) * leadingBit := by
      refine UInt64.toNat_ofNat_of_lt' ?_
      simp only [leadingBit, UInt64.size] at high ⊢
      omega
    have bounded : min (n * 2 ^ (52 - n.log2) + (n.log2 + 1022) * leadingBit) infiniteMagnitude =
        n * 2 ^ (52 - n.log2) + (n.log2 + 1022) * leadingBit := by
      refine Nat.min_eq_left ?_
      simp only [infiniteMagnitude, leadingBit] at high ⊢
      omega
    rw [if_neg none, gridExponent_one none small]
    simp only [down, up, biased, Nat.shiftLeft_zero, roundHalfEven_one, withSign, Bool.false_eq_true,
      if_false]
    rw [Nat.shiftLeft_eq, bounded]
    exact toInt?_of_bits bits low high grid

end Ripple.Number
