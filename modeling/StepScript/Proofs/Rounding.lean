import StepScript.Proofs.NumberOrder

/-!
# Integers among the numbers

Rounding leaves alone what the format can represent (`nearestOrdinal_magnitude`), and it can
represent every significand up to 2^53 at every scale (`exists_magnitude`). So an integer of at
most 2^53 keeps its value when it is made a number (`units_ofInt`); 2^53 + 1 is the first one that
does not.
-/

set_option autoImplicit false

namespace StepScript.Binary64

/-! ## Signs and ordinals -/

theorem infinityOrdinal_lt : infinityOrdinal < Nat.pow 2 63 := by
  decide

theorem toNat_ofOrdinal (negative : Bool) {o : Nat} (h : o < Nat.pow 2 63) :
    (ofOrdinal negative o).bits.toNat = o + if negative then Nat.pow 2 63 else 0 := by
  simp only [Nat.pow_eq, Nat.reducePow] at h
  simp only [ofOrdinal, UInt64.toNat_ofNat', Nat.pow_eq, Nat.reducePow]
  split <;> omega

theorem ordinal_ofOrdinal (negative : Bool) {o : Nat} (h : o < Nat.pow 2 63) :
    (ofOrdinal negative o).ordinal = o := by
  rw [ordinal, toNat_ofOrdinal negative h]
  cases negative
  · exact Nat.mod_eq_of_lt h
  · rw [if_pos rfl, Nat.add_mod_right]
    exact Nat.mod_eq_of_lt h

theorem isNegative_ofOrdinal (negative : Bool) {o : Nat} (h : o < Nat.pow 2 63) :
    (ofOrdinal negative o).isNegative = negative := by
  rw [isNegative, toNat_ofOrdinal negative h]
  cases negative
  · simpa using h
  · simp

theorem nearestOrdinal_lt (num den : Nat) : nearestOrdinal num den < Nat.pow 2 63 :=
  Nat.lt_of_le_of_lt (Nat.min_le_right _ _) infinityOrdinal_lt

theorem isNaN_ofInt (n : Int) : (ofInt n).isNaN = false := by
  rw [ofInt, ofRatio, ofUnits, isNaN, ordinal_ofOrdinal _ (nearestOrdinal_lt _ _)]
  exact decide_eq_false (Nat.not_lt.2 (Nat.min_le_right _ _))

/-! ## What rounding leaves alone -/

theorem roundDiv_mul (q : Nat) {den : Nat} (h : 0 < den) : roundDiv (q * den) den = q := by
  simp only [roundDiv, Nat.mul_div_cancel q h, Nat.mul_mod_left, Nat.mul_zero, h, if_true]

theorem log2_magnitude (x : Binary64) : Nat.log2 x.magnitude - 52 = scaleOf x.ordinal := by
  have hlt : x.magnitude < 2 ^ (53 + scaleOf x.ordinal) := by
    rw [Nat.pow_add]
    exact Nat.mul_lt_mul_of_pos_right (significandOf_lt _) (Nat.two_pow_pos _)
  by_cases hordinal : x.ordinal = 0
  · rw [magnitude_of_ordinal_eq_zero hordinal, hordinal]
    rfl
  · have hzero : x.magnitude ≠ 0 := Nat.ne_of_gt (magnitude_pos hordinal)
    have hlog := (Nat.log2_lt hzero).2 hlt
    by_cases hscale : scaleOf x.ordinal = 0
    · omega
    · -- above scale zero the leading bit of the significand is set
      have hle : 2 ^ (52 + scaleOf x.ordinal) ≤ x.magnitude := by
        rw [Nat.pow_add]
        exact Nat.mul_le_mul_right _ (le_significandOf (Nat.pos_of_ne_zero hscale))
      have hlog' := (Nat.le_log2 hzero).2 hle
      omega

/-- **A number that can be represented is its own nearest one.** -/
theorem nearestOrdinal_magnitude {x : Binary64} (h : x.isFinite) :
    nearestOrdinal x.magnitude 1 = x.ordinal := by
  have hlt : x.ordinal < infinityOrdinal := by simpa [isFinite] using h
  have hordinal := ordinal_eq x.ordinal
  have hpos : 0 < Nat.pow 2 (scaleOf x.ordinal) := Nat.two_pow_pos _
  simp only [nearestOrdinal, Nat.div_one, Nat.one_mul, log2_magnitude]
  rw [magnitude, roundDiv_mul _ hpos]
  omega

/-! ## What the format can represent -/

/-- A significand with its leading bit set, at a scale within the range. -/
theorem exists_magnitude_of_le {significand scale : Nat} (hle : Nat.pow 2 52 ≤ significand)
    (hlt : significand < Nat.pow 2 53) (hscale : scale ≤ 2045) :
    ∃ x : Binary64, x.isFinite ∧ x.magnitude = significand * Nat.pow 2 scale := by
  have hfinite : scale * Nat.pow 2 52 + significand < infinityOrdinal := by
    simp only [infinityOrdinal, Nat.pow_eq, Nat.reducePow] at hlt ⊢
    omega
  have hordinal := ordinal_ofOrdinal false (Nat.lt_trans hfinite infinityOrdinal_lt)
  have hscaleOf : scaleOf (scale * Nat.pow 2 52 + significand) = scale := by
    simp only [scaleOf, Nat.pow_eq, Nat.reducePow] at hle hlt ⊢
    omega
  refine ⟨ofOrdinal false (scale * Nat.pow 2 52 + significand), ?_, ?_⟩
  · simp only [isFinite, hordinal, hfinite, decide_true]
  · rw [magnitude, hordinal, significandOf, hscaleOf, Nat.add_sub_cancel_left]

/-- **Every significand below 2^53 can be represented at every scale.** -/
theorem exists_magnitude {significand scale : Nat} (hlt : significand < Nat.pow 2 53)
    (hscale : scale ≤ 2045) :
    ∃ x : Binary64, x.isFinite ∧ x.magnitude = significand * Nat.pow 2 scale := by
  induction scale generalizing significand with
  | zero =>
    have hordinal : (ofOrdinal false significand).ordinal = significand :=
      ordinal_ofOrdinal false (Nat.lt_trans hlt (by decide))
    have hscaleOf : scaleOf significand = 0 := by
      simp only [scaleOf, Nat.pow_eq, Nat.reducePow] at hlt ⊢
      omega
    refine ⟨ofOrdinal false significand, ?_, ?_⟩
    · have hfinite : significand < infinityOrdinal := Nat.lt_trans hlt (by decide)
      simp only [isFinite, hordinal, hfinite, decide_true]
    · rw [magnitude, hordinal, significandOf, hscaleOf, Nat.zero_mul, Nat.sub_zero]
  | succ scale ih =>
    by_cases hle : Nat.pow 2 52 ≤ significand
    · exact exists_magnitude_of_le hle hlt hscale
    · -- double the significand at the scale below
      have hdouble : 2 * significand < Nat.pow 2 53 := by
        simp only [Nat.pow_eq, Nat.reducePow] at hle ⊢
        omega
      obtain ⟨x, hfinite, hx⟩ := ih hdouble (by omega)
      refine ⟨x, hfinite, ?_⟩
      calc x.magnitude = 2 * significand * 2 ^ scale := hx
        _ = significand * 2 ^ (scale + 1) := by
          rw [Nat.pow_succ, Nat.mul_comm 2 significand, Nat.mul_assoc, Nat.mul_comm 2]

/-- The significand 2^53 is 2^52 at the scale above. -/
theorem exists_magnitude_upTo {significand scale : Nat} (hle : significand ≤ Nat.pow 2 53)
    (hscale : scale < 2045) :
    ∃ x : Binary64, x.isFinite ∧ x.magnitude = significand * Nat.pow 2 scale := by
  rcases Nat.lt_or_eq_of_le hle with hlt | rfl
  · exact exists_magnitude hlt (Nat.le_of_lt hscale)
  · obtain ⟨x, hfinite, hx⟩ := exists_magnitude_of_le (Nat.le_refl _) (by decide) hscale
    refine ⟨x, hfinite, ?_⟩
    calc x.magnitude = 2 ^ 52 * 2 ^ (scale + 1) := hx
      _ = 2 ^ 53 * 2 ^ scale := by
        rw [Nat.pow_succ]
        omega

/-- **An integer of at most 2^53 is a number.** -/
theorem units_ofInt {n : Int} (h : n.natAbs ≤ Nat.pow 2 53) :
    (ofInt n).isFinite ∧ (ofInt n).units = n * unitsPerOne := by
  obtain ⟨x, hfinite, hx⟩ : ∃ x : Binary64, x.isFinite ∧ x.magnitude = n.natAbs * unitsPerOne := by
    unfold unitsPerOne
    apply exists_magnitude_upTo h
    decide
  have hordinal : (ofInt n).ordinal = x.ordinal := by
    rw [ofInt, ofRatio, ofUnits, ordinal_ofOrdinal _ (nearestOrdinal_lt _ _), ← hx,
      nearestOrdinal_magnitude hfinite]
  have hnegative : (ofInt n).isNegative = decide (n < 0) :=
    isNegative_ofOrdinal _ (nearestOrdinal_lt _ _)
  refine ⟨?_, ?_⟩
  · rw [isFinite, hordinal]
    exact hfinite
  · rw [units, hnegative, magnitude_eq_of_ordinal_eq hordinal, hx]
    generalize unitsPerOne = unit
    by_cases hn : n < 0
    · rw [if_pos (decide_eq_true hn), Int.natCast_mul, Int.ofNat_natAbs_of_nonpos (Int.le_of_lt hn),
        Int.neg_mul, Int.neg_neg]
    · rw [if_neg (by simpa using hn), Int.natCast_mul, Int.natAbs_of_nonneg (Int.not_lt.1 hn)]

end StepScript.Binary64
