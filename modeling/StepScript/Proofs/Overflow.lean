import StepScript.Proofs.Integers

/-!
# Overflow

When an integer operator gives up with an overflow, told by the exact result. Sums, differences,
products, quotients, negations and absolute values give up exactly when that result does not fit
(`OverflowLaws`). A remainder always fits, yet is refused along with the quotient that belongs to
it, and a power is refused by the size of its exponent alone, though the powers of 0, 1 and -1 never
grow. These two are the only overflows without need.
-/

set_option autoImplicit false

namespace StepScript.Value

theorem ofInt_eq_overflow_iff {n : Int} :
    ofInt n = .error (.value .overflow) ↔ fits n = false := by
  unfold ofInt
  split
  · next hfits => simp [hfits]
  · next hfits => simp [hfits]

/-! ## Division -/

theorem quotientFits_eq_false_iff {a b : Int64} :
    quotientFits a b = false ↔ a = Int64.minValue ∧ b = -1 := by
  simp only [quotientFits, Bool.or_eq_false_iff, bne_eq_false_iff_eq]

/-- A division overflows when the quotient does not fit, whichever of its results is asked for. -/
theorem division_eq_overflow_iff {b : Int64} {fitting : Bool} {v : Value} :
    (if b = 0 then .error .divisionByZero
      else if fitting then .ok v else .error (.value .overflow) : Except Fault Value)
        = .error (.value .overflow) ↔ b ≠ 0 ∧ fitting = false := by
  split
  · next hzero => simp [hzero]
  · next hb => cases fitting <;> simp [hb]

/-- The quotient that is refused is the one that does not fit. -/
theorem quotientFits_eq_fits_floor {a b : Int64} (hb : b ≠ 0) :
    quotientFits a b = fits ⌊(a.toInt : ℚ) / b.toInt⌋ := by
  cases hfits : quotientFits a b with
  | true => rw [(isFloorDivision_words hb hfits).floor_eq, fits_toInt]
  | false =>
    rw [floor_eq_of_not_quotientFits hfits]
    decide

/-- The exact remainder of two integers of 64 bits is one as well: it lies between zero and the
    divisor. -/
theorem fits_of_isFloorDivision {a q r : Int} {b : Int64} (h : IsFloorDivision a b.toInt q r) :
    fits r = true := by
  have hb := toInt_bounds b
  have hrange := h.range
  rw [fits_iff]
  omega

/-! ## Powers -/

/-- A power is refused when its exponent has more than 32 bits. It does not fit then, unless its
    base is one whose powers do not grow. -/
theorem intPower_eq_overflow_iff {a b : Int} (hb : 0 ≤ b) :
    intPower a b = .error (.value .overflow)
      ↔ fits (a ^ b.toNat) = false ∨ 2 ^ 32 ≤ b ∧ (a = 0 ∨ a = 1 ∨ a = -1) := by
  rw [intPower_eq hb]
  split
  · next hsmall =>
    rw [ofInt_eq_overflow_iff, or_iff_left]
    exact fun hlarge => not_lt.2 hlarge.1 hsmall
  · next hlarge =>
    refine iff_of_true rfl ?_
    by_cases ha : 2 ≤ a.natAbs
    · exact Or.inl (not_fits_pow ha (by omega))
    · exact Or.inr ⟨not_lt.1 hlarge, by omega⟩

/-- The powers of 0, 1 and -1 fit. -/
theorem fits_pow_of_small {a : Int} (ha : a = 0 ∨ a = 1 ∨ a = -1) (n : Nat) :
    fits (a ^ n) = true := by
  have hsmall : (a ^ n).natAbs ≤ 1 := by
    rw [Int.natAbs_pow]
    exact pow_le_one₀ (Nat.zero_le _) (by omega)
  rw [fits_iff]
  omega

/-! ## Operators -/

/-- When the arithmetic of two integers of 64 bits overflows. -/
structure OverflowLaws (a b : Int64) : Prop where
  add :
    binary .add (.int a) (.int b) = .error (.value .overflow)
      ↔ fits (a.toInt + b.toInt) = false
  sub :
    binary .sub (.int a) (.int b) = .error (.value .overflow)
      ↔ fits (a.toInt - b.toInt) = false
  mul :
    binary .mul (.int a) (.int b) = .error (.value .overflow)
      ↔ fits (a.toInt * b.toInt) = false
  floorDiv :
    binary .floorDiv (.int a) (.int b) = .error (.value .overflow)
      ↔ b ≠ 0 ∧ fits ⌊(a.toInt : ℚ) / b.toInt⌋ = false
  /-- A remainder overflows where the quotient does, -/
  mod :
    binary .mod (.int a) (.int b) = .error (.value .overflow)
      ↔ a = Int64.minValue ∧ b = -1
  /-- although every remainder fits. -/
  fits_mod :
    b ≠ 0 → fits (a.toInt - b.toInt * ⌊(a.toInt : ℚ) / b.toInt⌋) = true
  /-- A power overflows when it does not fit, or when its exponent has more than 32 bits, -/
  pow :
    0 ≤ b →
      (binary .pow (.int a) (.int b) = .error (.value .overflow)
        ↔ fits (a.toInt ^ b.toInt.toNat) = false ∨
          2 ^ 32 ≤ b.toInt ∧ (a.toInt = 0 ∨ a.toInt = 1 ∨ a.toInt = -1))
  /-- although the powers of these bases fit. -/
  fits_pow :
    a.toInt = 0 ∨ a.toInt = 1 ∨ a.toInt = -1 → fits (a.toInt ^ b.toInt.toNat) = true
  neg : unary .neg (.int a) = .error (.value .overflow) ↔ fits (-a.toInt) = false
  abs : Builtin.abs.call [.int a] = .error (.value .overflow) ↔ fits |a.toInt| = false

theorem binary_floorDiv_eq_overflow_iff {a b : Int64} :
    binary .floorDiv (.int a) (.int b) = .error (.value .overflow)
      ↔ b ≠ 0 ∧ fits ⌊(a.toInt : ℚ) / b.toInt⌋ = false := by
  rw [binary_floorDiv, division_eq_overflow_iff]
  exact and_congr_right fun hb => by rw [quotientFits_eq_fits_floor hb]

theorem binary_mod_eq_overflow_iff {a b : Int64} :
    binary .mod (.int a) (.int b) = .error (.value .overflow)
      ↔ a = Int64.minValue ∧ b = -1 := by
  rw [binary_mod, division_eq_overflow_iff, quotientFits_eq_false_iff, and_iff_right_of_imp]
  rintro ⟨-, rfl⟩
  decide

theorem fits_sub_mul_floor {a b : Int64} (hb : b ≠ 0) :
    fits (a.toInt - b.toInt * ⌊(a.toInt : ℚ) / b.toInt⌋) = true := by
  cases hfits : quotientFits a b with
  | true =>
    have hwords := isFloorDivision_words hb hfits
    rw [hwords.floor_eq, sub_eq_of_eq_add' hwords.sum]
    exact fits_of_isFloorDivision hwords
  | false =>
    rw [floor_eq_of_not_quotientFits hfits]
    obtain ⟨rfl, rfl⟩ := quotientFits_eq_false_iff.1 hfits
    decide

theorem binary_pow_eq_overflow_iff {a b : Int64} (hb : 0 ≤ b) :
    binary .pow (.int a) (.int b) = .error (.value .overflow)
      ↔ fits (a.toInt ^ b.toInt.toNat) = false ∨
        2 ^ 32 ≤ b.toInt ∧ (a.toInt = 0 ∨ a.toInt = 1 ∨ a.toInt = -1) := by
  have hb' : 0 ≤ b.toInt := by simpa [Int64.le_iff_toInt_le] using hb
  rw [← intPower_eq_overflow_iff hb']
  simp only [binary, arithmetic, int?, intArithmetic, if_pos hb]

/-- **Integer arithmetic overflows when the exact result does not fit**, and without need only for
    the remainder of the least integer by minus one and for large powers of 0, 1 and -1. -/
theorem overflowLaws (a b : Int64) : OverflowLaws a b where
  add := ofInt_eq_overflow_iff
  sub := ofInt_eq_overflow_iff
  mul := ofInt_eq_overflow_iff
  floorDiv := binary_floorDiv_eq_overflow_iff
  mod := binary_mod_eq_overflow_iff
  fits_mod hb := fits_sub_mul_floor hb
  pow hb := binary_pow_eq_overflow_iff hb
  fits_pow ha := fits_pow_of_small ha _
  neg := ofInt_eq_overflow_iff
  abs := by
    rw [← Int.natCast_natAbs]
    exact ofInt_eq_overflow_iff

/-- One is refused as a power of one, and zero as a remainder. -/
theorem overflow_without_need :
    binary .pow (.int 1) (.int 4294967296) = .error (.value .overflow) ∧
      fits ((1 : Int64).toInt ^ (4294967296 : Int64).toInt.toNat) = true ∧
      binary .mod (.int Int64.minValue) (.int (-1)) = .error (.value .overflow) ∧
      fits (Int64.minValue.toInt - (-1 : Int64).toInt *
        ⌊(Int64.minValue.toInt : ℚ) / (-1 : Int64).toInt⌋) = true := by
  have hone : (1 : Int64).toInt = 0 ∨ (1 : Int64).toInt = 1 ∨ (1 : Int64).toInt = -1 := by decide
  refine ⟨?_, fits_pow_of_small hone _, binary_mod_eq_overflow_iff.2 ⟨rfl, rfl⟩,
    fits_sub_mul_floor (by decide)⟩
  exact (binary_pow_eq_overflow_iff (by decide)).2 (Or.inr ⟨by decide, hone⟩)

end StepScript.Value
