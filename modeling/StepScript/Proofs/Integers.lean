import Mathlib.Data.Rat.Floor
import StepScript.Builtin
import StepScript.Value.Arithmetic

/-!
# Exact integers

Arithmetic on integers of 64 bits gives the result of the integers themselves, or a fault. Most
operators compute that result and then look whether it fits. Quotient and remainder instead start
from division that rounds to zero and are adjusted afterwards, by one or by the divisor, in
arithmetic that would wrap around silently. It never does: a quotient with a remainder is at most
half of what fits, and a remainder that is adjusted has the sign that the divisor has not.

The results are said in terms of the integers (`IntegerLaws`), with the floor of the rational
quotient for `//` and `%`.
-/

set_option autoImplicit false

namespace StepScript.Value

/-! ## Fitting -/

theorem fits_iff {n : Int} : fits n = true ↔ -2 ^ 63 ≤ n ∧ n < 2 ^ 63 := by
  simp only [fits, Bool.and_eq_true, decide_eq_true_eq, Int64.toInt_minValue, Int64.toInt_maxValue]
  omega

theorem fits_toInt (n : Int64) : fits n.toInt = true := by
  simpa [fits] using ⟨n.minValue_le_toInt, n.toInt_le⟩

theorem toInt_bounds (n : Int64) : -2 ^ 63 ≤ n.toInt ∧ n.toInt < 2 ^ 63 :=
  fits_iff.1 (fits_toInt n)

/-- Reducing to 64 bits leaves an integer that fits alone. -/
theorem bmod_of_fits {n : Int} (h : fits n = true) : n.bmod (2 ^ 64) = n := by
  obtain ⟨hlow, hhigh⟩ := fits_iff.1 h
  exact Int.bmod_eq_of_le (by omega) (by omega)

/-- An exact result is given when it is one of 64 bits. -/
theorem ofInt_eq_ok_iff {n : Int} {r : Int64} : ofInt n = .ok (.int r) ↔ r.toInt = n := by
  unfold ofInt
  split
  · next hfits =>
    obtain ⟨hlow, hhigh⟩ := fits_iff.1 hfits
    rw [Except.ok.injEq, Value.int.injEq, ← Int64.toInt_inj, Int64.toInt_ofInt_of_le hlow hhigh,
      eq_comm]
  · next hfits =>
    refine iff_of_false (by simp) ?_
    rintro rfl
    exact hfits (fits_toInt r)

/-! ## Floor division -/

/-- Quotient and remainder of a division that rounds to the floor: the remainder is smaller than the
    divisor and on the same side of zero. -/
structure IsFloorDivision (a b q r : Int) : Prop where
  sum : a = b * q + r
  range : 0 ≤ r ∧ r < b ∨ b < r ∧ r ≤ 0

/-- The quotient is the floor of the rational one. -/
theorem IsFloorDivision.floor_eq {a b q r : Int} (h : IsFloorDivision a b q r) :
    ⌊(a : ℚ) / b⌋ = q := by
  have hsum : (a : ℚ) = b * q + r := by exact_mod_cast h.sum
  rw [Int.floor_eq_iff]
  rcases h.range with ⟨hlow, hhigh⟩ | ⟨hlow, hhigh⟩
  · have hb : (0 : ℚ) < b := by exact_mod_cast lt_of_le_of_lt hlow hhigh
    have hlow' : (0 : ℚ) ≤ r := by exact_mod_cast hlow
    have hhigh' : (r : ℚ) < b := by exact_mod_cast hhigh
    rw [le_div_iff₀ hb, div_lt_iff₀ hb, hsum]
    constructor <;> linarith
  · have hb : (b : ℚ) < 0 := by exact_mod_cast lt_of_lt_of_le hlow hhigh
    have hlow' : (b : ℚ) < r := by exact_mod_cast hlow
    have hhigh' : (r : ℚ) ≤ 0 := by exact_mod_cast hhigh
    rw [le_div_iff_of_neg hb, div_lt_iff_of_neg hb, hsum]
    constructor <;> linarith

/-- The remainder is zero or has the sign of the divisor. -/
theorem IsFloorDivision.sign_eq {a b q r : Int} (h : IsFloorDivision a b q r) :
    r = 0 ∨ r.sign = b.sign := by
  rcases h.range with ⟨hlow, hhigh⟩ | ⟨hlow, hhigh⟩
  · rcases hlow.eq_or_lt with hzero | hpos
    · exact Or.inl hzero.symm
    · exact Or.inr (by rw [Int.sign_eq_one_of_pos hpos, Int.sign_eq_one_of_pos (hpos.trans hhigh)])
  · rcases hhigh.eq_or_lt with hzero | hneg
    · exact Or.inl hzero
    · exact Or.inr
        (by rw [Int.sign_eq_neg_one_of_neg hneg, Int.sign_eq_neg_one_of_neg (hlow.trans hneg)])

/-- The integers lie on different sides of zero. -/
def Opposite (m n : Int) : Prop :=
  m < 0 ∧ 0 < n ∨ 0 < m ∧ n < 0

/-- The remainder of a division that rounds to zero is smaller than the divisor. -/
theorem natAbs_tmod_lt {a b : Int} (hb : b ≠ 0) : (a.tmod b).natAbs < b.natAbs := by
  rw [Int.natAbs_tmod]
  exact Nat.mod_lt _ (Int.natAbs_pos.2 hb)

/-- A division that rounds to zero rounds to the floor, unless the remainder is on the other side
    of zero than the divisor. -/
theorem isFloorDivision_tdiv {a b : Int} (hb : b ≠ 0) (h : ¬ Opposite (a.tmod b) b) :
    IsFloorDivision a b (a.tdiv b) (a.tmod b) := by
  have hlt := natAbs_tmod_lt (a := a) hb
  refine ⟨(Int.mul_tdiv_add_tmod a b).symm, ?_⟩
  unfold Opposite at h
  omega

/-- Then the remainder is brought to the side of the divisor, and the quotient is one less. -/
theorem isFloorDivision_tdiv_sub_one {a b : Int} (hb : b ≠ 0) (h : Opposite (a.tmod b) b) :
    IsFloorDivision a b (a.tdiv b - 1) (a.tmod b + b) := by
  have hlt := natAbs_tmod_lt (a := a) hb
  constructor
  · have hsum := Int.mul_tdiv_add_tmod a b
    rw [Int.mul_sub, Int.mul_one]
    omega
  · unfold Opposite at h
    omega

/-! ## Words -/

theorem toInt_eq_zero_iff {b : Int64} : b.toInt = 0 ↔ b = 0 := by
  rw [← Int64.toInt_inj, Int64.toInt_zero]

/-- Where the quotient fits, division of words is division of integers. -/
theorem toInt_div_of_fits {a b : Int64} (h : quotientFits a b = true) :
    (a / b).toInt = a.toInt.tdiv b.toInt := by
  simp only [quotientFits, Bool.or_eq_true, bne_iff_ne] at h
  rcases h with ha | hb
  · exact Int64.toInt_div_of_ne_left a b ha
  · exact Int64.toInt_div_of_ne_right a b hb

/-- The remainder of words is that of the integers. -/
theorem mod_bne_zero_iff {a b : Int64} : (a % b != 0) = true ↔ a.toInt.tmod b.toInt ≠ 0 := by
  rw [bne_iff_ne, ne_eq, ← toInt_eq_zero_iff, Int64.toInt_mod]

theorem decide_neg_bne_iff {m n : Int64} :
    (decide (m < 0) != decide (n < 0)) = true ↔ ¬ (m.toInt < 0 ↔ n.toInt < 0) := by
  simp [Int64.lt_iff_toInt_lt]

/-- A remainder has the sign of the dividend, so that testing the dividend finds its side. -/
theorem quotientTest_iff {a b : Int64} (hb : b ≠ 0) :
    (a % b != 0 && decide (a < 0) != decide (b < 0)) = true
      ↔ Opposite (a.toInt.tmod b.toInt) b.toInt := by
  have hb' : b.toInt ≠ 0 := mt toInt_eq_zero_iff.1 hb
  rw [Bool.and_eq_true, mod_bne_zero_iff, decide_neg_bne_iff]
  unfold Opposite
  rcases lt_or_ge a.toInt 0 with ha | ha
  · have hside := Int.tmod_nonneg b.toInt (neg_nonneg.2 ha.le)
    rw [Int.neg_tmod] at hside
    omega
  · have hside : 0 ≤ a.toInt.tmod b.toInt := Int.tmod_nonneg b.toInt ha
    omega

theorem remainderTest_iff {a b : Int64} (hb : b ≠ 0) :
    (a % b != 0 && decide (a % b < 0) != decide (b < 0)) = true
      ↔ Opposite (a.toInt.tmod b.toInt) b.toInt := by
  have hb' : b.toInt ≠ 0 := mt toInt_eq_zero_iff.1 hb
  rw [Bool.and_eq_true, mod_bne_zero_iff, decide_neg_bne_iff, Int64.toInt_mod]
  unfold Opposite
  omega

/-! ## Adjustments -/

/-- One less than a quotient with a remainder fits: the divisor is at least two, so that the
    quotient is at most half of what fits. -/
theorem fits_tdiv_sub_one {a b : Int64} (hb : b ≠ 0)
    (h : Opposite (a.toInt.tmod b.toInt) b.toInt) : fits (a.toInt.tdiv b.toInt - 1) = true := by
  have ha := toInt_bounds a
  have hlt := natAbs_tmod_lt (a := a.toInt) (mt toInt_eq_zero_iff.1 hb)
  have htwo : 2 ≤ b.toInt.natAbs := by
    unfold Opposite at h
    omega
  have hhalf : (a.toInt.tdiv b.toInt).natAbs ≤ a.toInt.natAbs / 2 := by
    rw [Int.natAbs_tdiv]
    exact Nat.div_le_div_left htwo (by omega)
  rw [fits_iff]
  omega

/-- A remainder brought to the side of the divisor fits, lying between the two. -/
theorem fits_tmod_add {a b : Int64} (h : Opposite (a.toInt.tmod b.toInt) b.toInt) :
    fits (a.toInt.tmod b.toInt + b.toInt) = true := by
  have hb := toInt_bounds b
  have hr := toInt_bounds (a % b)
  rw [Int64.toInt_mod] at hr
  unfold Opposite at h
  rw [fits_iff]
  omega

/-- The quotient is adjusted without wrapping around. -/
theorem toInt_div_sub_one {a b : Int64} (hb : b ≠ 0) (hfits : quotientFits a b = true)
    (h : Opposite (a.toInt.tmod b.toInt) b.toInt) : (a / b - 1).toInt = (a / b).toInt - 1 := by
  rw [Int64.toInt_sub, Int64.toInt_one, toInt_div_of_fits hfits]
  exact bmod_of_fits (fits_tdiv_sub_one hb h)

/-- The remainder is adjusted without wrapping around. -/
theorem toInt_mod_add {a b : Int64} (h : Opposite (a.toInt.tmod b.toInt) b.toInt) :
    (a % b + b).toInt = (a % b).toInt + b.toInt := by
  rw [Int64.toInt_add, Int64.toInt_mod]
  exact bmod_of_fits (fits_tmod_add h)

/-- **The adjusted words are quotient and remainder of a division that rounds to the floor.** -/
theorem isFloorDivision_words {a b : Int64} (hb : b ≠ 0) (hfits : quotientFits a b = true) :
    IsFloorDivision a.toInt b.toInt (floorQuotient a b).toInt (floorRemainder a b).toInt := by
  have hb' : b.toInt ≠ 0 := mt toInt_eq_zero_iff.1 hb
  have hdiv := toInt_div_of_fits hfits
  unfold floorQuotient floorRemainder
  by_cases h : Opposite (a.toInt.tmod b.toInt) b.toInt
  · rw [if_pos ((quotientTest_iff hb).2 h), if_pos ((remainderTest_iff hb).2 h),
      toInt_div_sub_one hb hfits h, toInt_mod_add h, hdiv, Int64.toInt_mod]
    exact isFloorDivision_tdiv_sub_one hb' h
  · rw [if_neg (mt (quotientTest_iff hb).1 h), if_neg (mt (remainderTest_iff hb).1 h), hdiv,
      Int64.toInt_mod]
    exact isFloorDivision_tdiv hb' h

/-- A quotient that was adjusted is one less. -/
theorem toInt_floorQuotient {a b : Int64} (hb : b ≠ 0) (hfits : quotientFits a b = true)
    (hne : floorQuotient a b ≠ a / b) : (floorQuotient a b).toInt = (a / b).toInt - 1 := by
  unfold floorQuotient at hne ⊢
  split at hne
  · next h =>
    rw [if_pos h]
    exact toInt_div_sub_one hb hfits ((quotientTest_iff hb).1 h)
  · exact absurd rfl hne

/-- A remainder that was adjusted is more by the divisor. -/
theorem toInt_floorRemainder {a b : Int64} (hb : b ≠ 0) (hne : floorRemainder a b ≠ a % b) :
    (floorRemainder a b).toInt = (a % b).toInt + b.toInt := by
  unfold floorRemainder at hne ⊢
  split at hne
  · next h =>
    rw [if_pos h]
    exact toInt_mod_add ((remainderTest_iff hb).1 h)
  · exact absurd rfl hne

/-! ## Powers -/

/-- Powers of 0, 1 and -1 depend on the exponent being zero, odd or even. -/
theorem pow_parity {a : Int} (ha : a = 0 ∨ a = 1 ∨ a = -1) (n : Nat) :
    a ^ (if n = 0 then 0 else 2 - n % 2) = a ^ n := by
  split
  · next hzero => rw [hzero]
  · next hne =>
    rcases ha with rfl | rfl | rfl
    · rw [zero_pow hne, zero_pow (by omega)]
    · rw [one_pow, one_pow]
    · rw [neg_one_pow_eq_pow_mod_two, neg_one_pow_eq_pow_mod_two (n := n)]
      congr 1
      omega

/-- Large powers of other bases do not fit. -/
theorem not_fits_pow {a : Int} (ha : 2 ≤ a.natAbs) {n : Nat} (hn : 64 ≤ n) :
    fits (a ^ n) = false := by
  have hlarge : 2 ^ 64 ≤ (a ^ n).natAbs := by
    rw [Int.natAbs_pow]
    calc 2 ^ 64 ≤ 2 ^ n := Nat.pow_le_pow_right (by omega) hn
      _ ≤ a.natAbs ^ n := Nat.pow_le_pow_left ha n
  rw [Bool.eq_false_iff, ne_eq, fits_iff]
  omega

/-- The shortcuts of powers leave their result alone. -/
theorem intPower_eq {a b : Int} (hb : 0 ≤ b) :
    intPower a b = if b < 2 ^ 32 then ofInt (a ^ b.toNat) else .error (.value .overflow) := by
  have hlimit : Int.pow 2 32 = 2 ^ 32 := rfl
  have hpow (n : Nat) : a.pow n = a ^ n := rfl
  unfold intPower
  rw [hlimit]
  split
  · next hlarge => rw [if_neg (not_lt.2 hlarge)]
  · next hsmall =>
    rw [if_pos (not_le.1 hsmall)]
    split
    · next hbase =>
      simp only [Bool.or_eq_true, beq_iff_eq, or_assoc] at hbase
      have hzero : (b == 0) = decide (b.toNat = 0) := by
        rw [Bool.eq_iff_iff, beq_iff_eq, decide_eq_true_iff]
        omega
      rw [hpow, hzero]
      simp only [decide_eq_true_eq, pow_parity hbase]
    · next hbase =>
      simp only [Bool.or_eq_true, beq_iff_eq] at hbase
      split
      · rw [ofInt, if_neg]
        rw [not_fits_pow (by omega) (by omega)]
        exact Bool.false_ne_true
      · rw [hpow]

/-! ## Operators -/

/-- What the arithmetic of two integers of 64 bits has to do with that of the integers. -/
structure IntegerLaws (a b : Int64) : Prop where
  add (r : Int64) : binary .add (.int a) (.int b) = .ok (.int r) ↔ r.toInt = a.toInt + b.toInt
  sub (r : Int64) : binary .sub (.int a) (.int b) = .ok (.int r) ↔ r.toInt = a.toInt - b.toInt
  mul (r : Int64) : binary .mul (.int a) (.int b) = .ok (.int r) ↔ r.toInt = a.toInt * b.toInt
  /-- A quotient is the floor of the exact one. -/
  floorDiv (r : Int64) :
    binary .floorDiv (.int a) (.int b) = .ok (.int r)
      ↔ b ≠ 0 ∧ r.toInt = ⌊(a.toInt : ℚ) / b.toInt⌋
  /-- A remainder is what the quotient leaves. -/
  mod (r : Int64) :
    binary .mod (.int a) (.int b) = .ok (.int r)
      ↔ b ≠ 0 ∧ quotientFits a b = true ∧
        a.toInt = b.toInt * ⌊(a.toInt : ℚ) / b.toInt⌋ + r.toInt
  /-- A remainder has the sign of the divisor. -/
  sign_mod (r : Int64) :
    binary .mod (.int a) (.int b) = .ok (.int r) → r = 0 ∨ r.toInt.sign = b.toInt.sign
  /-- A power with an exponent that is not negative is an integer. -/
  pow (hb : 0 ≤ b) (r : Int64) :
    binary .pow (.int a) (.int b) = .ok (.int r)
      ↔ b.toInt < 2 ^ 32 ∧ r.toInt = a.toInt ^ b.toInt.toNat
  neg (r : Int64) : unary .neg (.int a) = .ok (.int r) ↔ r.toInt = -a.toInt
  abs (r : Int64) : Builtin.abs.call [.int a] = .ok (.int r) ↔ r.toInt = |a.toInt|
  floorDiv_zero : binary .floorDiv (.int a) (.int b) = .error .divisionByZero ↔ b = 0
  mod_zero : binary .mod (.int a) (.int b) = .error .divisionByZero ↔ b = 0
  /-- The quotient rounded to zero is adjusted without wrapping around. -/
  quotient_adjusted :
    b ≠ 0 → quotientFits a b = true → floorQuotient a b ≠ a / b →
      (floorQuotient a b).toInt = (a / b).toInt - 1
  /-- The remainder of a division that rounds to zero is adjusted without wrapping around. -/
  remainder_adjusted :
    b ≠ 0 → floorRemainder a b ≠ a % b → (floorRemainder a b).toInt = (a % b).toInt + b.toInt

/-- The only quotient that does not fit is that of the least integer by minus one. -/
theorem floor_eq_of_not_quotientFits {a b : Int64} (h : quotientFits a b = false) :
    ⌊(a.toInt : ℚ) / b.toInt⌋ = 2 ^ 63 := by
  simp only [quotientFits, Bool.or_eq_false_iff, bne_eq_false_iff_eq] at h
  obtain ⟨rfl, rfl⟩ := h
  have hdivision : IsFloorDivision Int64.minValue.toInt (-1 : Int64).toInt (2 ^ 63) 0 :=
    ⟨by decide, Or.inr (by decide)⟩
  exact hdivision.floor_eq

theorem binary_floorDiv (a b : Int64) :
    binary .floorDiv (.int a) (.int b)
      = if b = 0 then .error .divisionByZero
        else if quotientFits a b then .ok (.int (floorQuotient a b))
        else .error (.value .overflow) := by
  simp only [binary, arithmetic, int?, intArithmetic, beq_iff_eq]

theorem binary_mod (a b : Int64) :
    binary .mod (.int a) (.int b)
      = if b = 0 then .error .divisionByZero
        else if quotientFits a b then .ok (.int (floorRemainder a b))
        else .error (.value .overflow) := by
  simp only [binary, arithmetic, int?, intArithmetic, beq_iff_eq]

/-- A division ends in that fault when the divisor is zero, and not for want of room. -/
theorem division_eq_divisionByZero_iff {b : Int64} {fitting : Bool} {v : Value} :
    (if b = 0 then .error .divisionByZero
      else if fitting then .ok v else .error (.value .overflow) : Except Fault Value)
        = .error .divisionByZero ↔ b = 0 := by
  split
  · next hzero => simp [hzero]
  · next hb => split <;> simp [hb]

theorem binary_floorDiv_eq_ok_iff {a b r : Int64} :
    binary .floorDiv (.int a) (.int b) = .ok (.int r)
      ↔ b ≠ 0 ∧ r.toInt = ⌊(a.toInt : ℚ) / b.toInt⌋ := by
  rw [binary_floorDiv]
  split
  · next hzero => simp [hzero]
  · next hb =>
    rw [and_iff_right hb]
    split
    · next hfits =>
      rw [(isFloorDivision_words hb hfits).floor_eq, Except.ok.injEq, Value.int.injEq,
        Int64.toInt_inj, eq_comm]
    · next hfits =>
      rw [floor_eq_of_not_quotientFits (Bool.eq_false_iff.2 hfits)]
      have hr := toInt_bounds r
      exact iff_of_false (by simp) (by omega)

theorem binary_mod_eq_ok_iff {a b r : Int64} :
    binary .mod (.int a) (.int b) = .ok (.int r)
      ↔ b ≠ 0 ∧ quotientFits a b = true ∧
        a.toInt = b.toInt * ⌊(a.toInt : ℚ) / b.toInt⌋ + r.toInt := by
  rw [binary_mod]
  split
  · next hzero => simp [hzero]
  · next hb =>
    rw [and_iff_right hb]
    split
    · next hfits =>
      have hwords := isFloorDivision_words hb hfits
      rw [and_iff_right hfits, hwords.floor_eq, Except.ok.injEq, Value.int.injEq,
        ← Int64.toInt_inj]
      have hsum := hwords.sum
      constructor <;> intro h <;> omega
    · next hfits => simp [hfits]

theorem sign_of_binary_mod {a b r : Int64} (h : binary .mod (.int a) (.int b) = .ok (.int r)) :
    r = 0 ∨ r.toInt.sign = b.toInt.sign := by
  obtain ⟨hb, hfits, -⟩ := binary_mod_eq_ok_iff.1 h
  rw [binary_mod, if_neg hb, if_pos hfits] at h
  cases h
  rw [← toInt_eq_zero_iff]
  exact (isFloorDivision_words hb hfits).sign_eq

theorem binary_pow_eq_ok_iff {a b r : Int64} (hb : 0 ≤ b) :
    binary .pow (.int a) (.int b) = .ok (.int r)
      ↔ b.toInt < 2 ^ 32 ∧ r.toInt = a.toInt ^ b.toInt.toNat := by
  have hb' : 0 ≤ b.toInt := by simpa [Int64.le_iff_toInt_le] using hb
  have hpower : binary .pow (.int a) (.int b) = intPower a.toInt b.toInt := by
    simp only [binary, arithmetic, int?, intArithmetic, if_pos hb]
  rw [hpower, intPower_eq hb']
  split
  · next hsmall => rw [ofInt_eq_ok_iff, and_iff_right hsmall]
  · next hlarge => exact iff_of_false (by simp) fun h => hlarge h.1

/-- **Integer arithmetic is exact when it answers.** -/
theorem integerLaws (a b : Int64) : IntegerLaws a b where
  add r := ofInt_eq_ok_iff
  sub r := ofInt_eq_ok_iff
  mul r := ofInt_eq_ok_iff
  floorDiv r := binary_floorDiv_eq_ok_iff
  mod r := binary_mod_eq_ok_iff
  sign_mod r := sign_of_binary_mod
  pow hb r := binary_pow_eq_ok_iff hb
  neg r := ofInt_eq_ok_iff
  abs r := by
    rw [← Int.natCast_natAbs]
    exact ofInt_eq_ok_iff
  floorDiv_zero := by rw [binary_floorDiv, division_eq_divisionByZero_iff]
  mod_zero := by rw [binary_mod, division_eq_divisionByZero_iff]
  quotient_adjusted hb hfits hne := toInt_floorQuotient hb hfits hne
  remainder_adjusted hb hne := toInt_floorRemainder hb hne

end StepScript.Value
