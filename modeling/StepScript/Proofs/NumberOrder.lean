import StepScript.Value.Order

/-!
# The order of numbers

Sorting compares numbers by four rules: integers as integers, an integer with a number by its
integer part and then by its fraction, numbers by their bits, and the two zeros as equals. Behind
the four there is one order. Every number has a tier (the NaNs and infinities of either sign, and
between them everything finite) and a standing in its tier, which for finite numbers is their exact
value in units of 2^-1074. `compareNumbers_eq` says that comparing numbers is comparing tiers and
then standings, so that the four rules are consistent because the order of pairs of integers is.

The one fact about the format that this needs is that the magnitudes of numbers grow with the
ordinals (`magnitude_lt`).
-/

set_option autoImplicit false

namespace StepScript

namespace Binary64

/-! ## Magnitudes and ordinals -/

theorem significandOf_lt (ordinal : Nat) : significandOf ordinal < Nat.pow 2 53 := by
  simp only [significandOf, scaleOf, Nat.pow_eq, Nat.reducePow]
  omega

theorem le_significandOf {ordinal : Nat} (hscale : 0 < scaleOf ordinal) :
    Nat.pow 2 52 ≤ significandOf ordinal := by
  simp only [significandOf, scaleOf, Nat.pow_eq, Nat.reducePow] at hscale ⊢
  omega

theorem scaleOf_mono {o o' : Nat} (h : o ≤ o') : scaleOf o ≤ scaleOf o' := by
  simp only [scaleOf, Nat.pow_eq, Nat.reducePow]
  omega

/-- Within one scale the significand counts the ordinals. -/
theorem ordinal_eq (ordinal : Nat) :
    ordinal = scaleOf ordinal * Nat.pow 2 52 + significandOf ordinal := by
  simp only [significandOf, scaleOf, Nat.pow_eq, Nat.reducePow]
  omega

/-- **A larger ordinal means a larger magnitude.** -/
theorem magnitude_lt {x y : Binary64} (h : x.ordinal < y.ordinal) : x.magnitude < y.magnitude := by
  unfold magnitude
  have hx := ordinal_eq x.ordinal
  have hy := ordinal_eq y.ordinal
  rcases Nat.lt_or_eq_of_le (scaleOf_mono (Nat.le_of_lt h)) with hscale | hscale
  · -- the last significand of a scale stays below the first one of the next
    calc significandOf x.ordinal * 2 ^ scaleOf x.ordinal
        < 2 ^ 53 * 2 ^ scaleOf x.ordinal :=
          Nat.mul_lt_mul_of_pos_right (significandOf_lt _) (Nat.two_pow_pos _)
      _ = 2 ^ 52 * 2 ^ (scaleOf x.ordinal + 1) := by
          rw [Nat.pow_succ]
          omega
      _ ≤ significandOf y.ordinal * 2 ^ scaleOf y.ordinal :=
          Nat.mul_le_mul (le_significandOf (by omega)) (Nat.pow_le_pow_right (by omega) hscale)
  · rw [← hscale]
    refine Nat.mul_lt_mul_of_pos_right ?_ (Nat.two_pow_pos _)
    rw [← hscale] at hy
    omega

theorem unitsPerOne_pos : 0 < unitsPerOne := by
  unfold unitsPerOne
  apply Nat.pow_pos
  decide

theorem magnitude_of_ordinal_eq_zero {x : Binary64} (h : x.ordinal = 0) : x.magnitude = 0 := by
  simp [magnitude, h, significandOf, scaleOf]

theorem magnitude_eq_of_ordinal_eq {x y : Binary64} (h : x.ordinal = y.ordinal) :
    x.magnitude = y.magnitude := by
  simp only [magnitude, h]

theorem magnitude_pos {x : Binary64} (h : x.ordinal ≠ 0) : 0 < x.magnitude := by
  have hzero : (zero false).ordinal = 0 := by decide
  have hlt : (zero false).magnitude < x.magnitude := magnitude_lt (by omega)
  omega

/-! ## Tier and standing -/

/-- Negative NaN, minus infinity, finite, infinity, NaN. -/
def tier (x : Binary64) : Int :=
  let outer : Int := if x.isNaN then 2 else if x.isInfinite then 1 else 0
  if x.isNegative then -outer else outer

/-- The exact value of a finite number; the place among all bit patterns of any other one. -/
def standing (x : Binary64) : Int :=
  if x.isFinite then x.units else x.totalKey

theorem tier_of_isFinite {x : Binary64} (h : x.isFinite) : x.tier = 0 := by
  have hlt : x.ordinal < infinityOrdinal := by simpa [isFinite] using h
  simp [tier, isNaN, isInfinite, Nat.not_lt_of_lt hlt, Nat.ne_of_lt hlt]

theorem standing_of_isFinite {x : Binary64} (h : x.isFinite) : x.standing = x.units := by
  rw [standing, if_pos h]

theorem ext_totalKey {x y : Binary64} (h : x.totalKey = y.totalKey) : x = y := by
  cases x with
  | mk a =>
    cases y with
    | mk b =>
      have ha := a.toNat_lt
      have hb := b.toNat_lt
      simp only [totalKey, isNegative, ordinal, decide_eq_true_eq, Nat.pow_eq,
        Nat.reducePow] at h
      congr 1
      apply UInt64.toNat_inj.1
      split at h <;> split at h <;> omega

theorem equals_iff {x y : Binary64} :
    x.equals y = true ↔ x.isNaN = false ∧ y.isNaN = false ∧ x.key = y.key := by
  unfold equals compare?
  cases x.isNaN <;> cases y.isNaN <;> simp

/-- A number before another one among all bit patterns is before it by tier and standing, unless
    the two are zeros. -/
theorem compare_of_totalKey_lt {x y : Binary64} (hne : x.equals y = false)
    (h : x.totalKey < y.totalKey) :
    (compare x.tier y.tier).then (compare x.standing y.standing) = .lt := by
  rw [Ordering.then_eq_lt, Int.compare_eq_lt, Int.compare_eq_eq, Int.compare_eq_lt]
  have hlt : x.ordinal < y.ordinal → x.magnitude < y.magnitude := magnitude_lt
  have hgt : y.ordinal < x.ordinal → y.magnitude < x.magnitude := magnitude_lt
  have hx : x.ordinal ≠ 0 → 0 < x.magnitude := magnitude_pos
  have hy : y.ordinal ≠ 0 → 0 < y.magnitude := magnitude_pos
  have hzeros : ¬ (x.ordinal = 0 ∧ y.ordinal = 0) := by
    rintro ⟨hx0, hy0⟩
    rw [equals_iff.2 ⟨by simp [isNaN, hx0], by simp [isNaN, hy0], by simp [key, hx0, hy0]⟩] at hne
    cases hne
  simp only [tier, standing, isNaN, isInfinite, isFinite, units, totalKey, beq_iff_eq,
    decide_eq_true_eq] at h ⊢
  revert h
  cases x.isNegative <;> cases y.isNegative <;>
    simp only [Bool.false_eq_true, if_true, if_false] <;> intro h <;> (repeat' split) <;> omega

theorem tier_eq_of_equals {x y : Binary64} (h : x.equals y = true) :
    x.tier = y.tier ∧ x.standing = y.standing := by
  obtain ⟨hx, hy, hkey⟩ := equals_iff.1 h
  simp only [key] at hkey
  simp only [isNaN, decide_eq_false_iff_not] at hx hy
  have hmag : x.ordinal = y.ordinal → x.magnitude = y.magnitude := magnitude_eq_of_ordinal_eq
  have hzero : x.ordinal = 0 → x.magnitude = 0 := magnitude_of_ordinal_eq_zero
  have hpos : infinityOrdinal ≠ 0 := by decide
  simp only [tier, standing, isNaN, isInfinite, isFinite, units, totalKey, beq_iff_eq,
    decide_eq_true_eq]
  revert hkey
  cases x.isNegative <;> cases y.isNegative <;>
    simp only [Bool.false_eq_true, if_true, if_false] <;> intro hkey <;>
    (repeat' split) <;> omega

/-- Numbers are compared by tier and standing. -/
theorem compare_floats (x y : Binary64) :
    (if x.equals y then .eq else x.totalCompare y)
      = (compare x.tier y.tier).then (compare x.standing y.standing) := by
  split
  · next h =>
    obtain ⟨htier, hstanding⟩ := tier_eq_of_equals h
    rw [Int.compare_eq_eq.2 htier, Int.compare_eq_eq.2 hstanding]
    rfl
  · next h =>
    have hne : x.equals y = false := by simpa using h
    unfold totalCompare
    rcases Int.lt_trichotomy x.totalKey y.totalKey with hlt | heq | hgt
    · rw [compare_of_totalKey_lt hne hlt, Int.compare_eq_lt.2 hlt]
    · obtain rfl := ext_totalKey heq
      rw [Int.compare_eq_eq.2 rfl, Int.compare_eq_eq.2 rfl, Int.compare_eq_eq.2 rfl]
      rfl
    · have hne' : y.equals x = false := by
        rw [Bool.eq_false_iff, Ne, equals_iff]
        rintro ⟨hy, hx, hkey⟩
        exact h (equals_iff.2 ⟨hx, hy, hkey.symm⟩)
      have hswap := compare_of_totalKey_lt hne' hgt
      rw [Int.compare_eq_gt.2 hgt, ← Int.compare_swap y.tier, ← Int.compare_swap y.standing,
        ← Ordering.swap_then, hswap]
      rfl

theorem totalKey_lt {x y : Binary64} (h : x.key < y.key) : x.totalKey < y.totalKey := by
  revert h
  simp only [key, totalKey]
  cases x.isNegative <;> cases y.isNegative <;>
    simp only [Bool.false_eq_true, if_true, if_false] <;> intro h <;> omega

/-- Numbers other than NaN are compared by their keys. -/
theorem compare_key {x y : Binary64} (hx : x.isNaN = false) (hy : y.isNaN = false) :
    (if x.equals y then .eq else x.totalCompare y) = compare x.key y.key := by
  by_cases hkey : x.key = y.key
  · rw [if_pos (equals_iff.2 ⟨hx, hy, hkey⟩), Int.compare_eq_eq.2 hkey]
  · rw [if_neg fun h => hkey (equals_iff.1 h).2.2, totalCompare]
    rcases Int.lt_or_gt_of_ne hkey with hlt | hgt
    · rw [Int.compare_eq_lt.2 hlt, Int.compare_eq_lt.2 (totalKey_lt hlt)]
    · rw [Int.compare_eq_gt.2 hgt, Int.compare_eq_gt.2 (totalKey_lt hgt)]

/-! ## Integers beside numbers -/

theorem less_iff {x y : Binary64} (hx : x.isNaN = false) (hy : y.isNaN = false) :
    x.less y = true ↔ x.tier < y.tier ∨ x.tier = y.tier ∧ x.standing < y.standing := by
  have hkeys : x.compare? y
      = some ((compare x.tier y.tier).then (compare x.standing y.standing)) := by
    rw [← compare_floats, compare_key hx hy]
    simp [compare?, hx, hy]
  rw [less, hkeys, beq_iff_eq, Option.some.injEq, Ordering.then_eq_lt, Int.compare_eq_lt,
    Int.compare_eq_eq, Int.compare_eq_lt]

theorem isFinite_of_tier_eq_zero {x : Binary64} (h : x.tier = 0) : x.isFinite := by
  simp only [tier, isNaN, isInfinite, isFinite, beq_iff_eq, decide_eq_true_eq] at h ⊢
  revert h
  cases x.isNegative <;> simp only [Bool.false_eq_true, if_true, if_false] <;> intro h <;>
    (repeat' split at h) <;> omega

theorem tier_of_isNaN {x : Binary64} (h : x.isNaN = true) :
    x.tier = if x.isNegative then -2 else 2 := by
  simp [tier, h]

theorem tier_integerLimit :
    Value.integerLimit.isNaN = false ∧ Value.integerLimit.tier = 0 ∧
      Value.integerLimit.standing = Int.pow 2 63 * unitsPerOne := by
  decide +kernel

theorem tier_neg_integerLimit :
    Value.integerLimit.neg.isNaN = false ∧ Value.integerLimit.neg.tier = 0 ∧
      Value.integerLimit.neg.standing = -Int.pow 2 63 * unitsPerOne := by
  decide +kernel

/-- Comparing an integer with the integer part of a number, and then zero with what is left of it,
    is comparing the integer with the number. -/
theorem compare_truncate {unit : Int} (hunit : 0 < unit) (n u : Int) :
    (match compare n (u.tdiv unit) with
      | .eq => compare 0 (u - u.tdiv unit * unit)
      | unequal => unequal) = compare (n * unit) u := by
  have hsum := Int.tdiv_mul_add_tmod u unit
  have hbelow := Int.tmod_lt_of_pos u hunit
  have habove := Int.lt_tmod_of_pos u hunit
  rcases Int.lt_trichotomy n (u.tdiv unit) with hlt | heq | hgt
  · -- the fraction is less than a unit, and the integer at least one unit away
    have hstep : (n + 1) * unit ≤ u.tdiv unit * unit :=
      Int.mul_le_mul_of_nonneg_right hlt (Int.le_of_lt hunit)
    rw [Int.add_mul, Int.one_mul] at hstep
    rw [Int.compare_eq_lt.2 hlt, Int.compare_eq_lt.2 (by omega : n * unit < u)]
  · rw [Int.compare_eq_eq.2 heq, ← heq]
    rcases Int.lt_trichotomy (n * unit) u with hlt' | heq' | hgt'
    · rw [Int.compare_eq_lt.2 hlt', Int.compare_eq_lt.2 (by omega)]
    · rw [Int.compare_eq_eq.2 heq', Int.compare_eq_eq.2 (by omega)]
    · rw [Int.compare_eq_gt.2 hgt', Int.compare_eq_gt.2 (by omega)]
  · have hstep : (u.tdiv unit + 1) * unit ≤ n * unit :=
      Int.mul_le_mul_of_nonneg_right hgt (Int.le_of_lt hunit)
    rw [Int.add_mul, Int.one_mul] at hstep
    rw [Int.compare_eq_gt.2 hgt, Int.compare_eq_gt.2 (by omega : u < n * unit)]

/-- An integer stands among the finite numbers, at its exact value. -/
theorem compareIntFloat_eq (n : Int64) (x : Binary64) :
    Value.compareIntFloat n x
      = (compare 0 x.tier).then (compare (n.toInt * unitsPerOne) x.standing) := by
  have hunit : (0 : Int) < unitsPerOne := Int.natCast_pos.2 unitsPerOne_pos
  unfold Value.compareIntFloat
  by_cases hnan : x.isNaN = true
  · rw [if_pos hnan, tier_of_isNaN hnan]
    cases x.isNegative <;> rfl
  · rw [if_neg hnan]
    rw [Bool.not_eq_true] at hnan
    obtain ⟨hlimit, htier, hstanding⟩ := tier_integerLimit
    obtain ⟨hlimit', htier', hstanding'⟩ := tier_neg_integerLimit
    have hless := less_iff hnan hlimit
    have hless' := less_iff hnan hlimit'
    rw [htier, hstanding] at hless
    rw [htier', hstanding'] at hless'
    -- the integers of 64 bits lie between the two limits
    have hupper : n.toInt * unitsPerOne < Int.pow 2 63 * unitsPerOne :=
      Int.mul_lt_mul_of_pos_right n.toInt_lt hunit
    have hlower : -Int.pow 2 63 * unitsPerOne ≤ n.toInt * unitsPerOne :=
      Int.mul_le_mul_of_nonneg_right n.le_toInt (Int.le_of_lt hunit)
    by_cases hbelow : x.less Value.integerLimit = true
    · rw [hbelow, if_neg (by decide)]
      by_cases hfar : x.less Value.integerLimit.neg = true
      · rw [if_pos hfar, eq_comm, Ordering.then_eq_gt, Int.compare_eq_gt, Int.compare_eq_eq,
          Int.compare_eq_gt]
        rw [hless'] at hfar
        omega
      · rw [if_neg hfar]
        rw [hless] at hbelow
        rw [hless'] at hfar
        have hzero : x.tier = 0 := by omega
        rw [hzero, Int.compare_eq_eq.2 rfl, Ordering.eq_then,
          standing_of_isFinite (isFinite_of_tier_eq_zero hzero)]
        exact compare_truncate hunit n.toInt x.units
    · rw [Bool.not_eq_true] at hbelow
      rw [hbelow, if_pos (by decide), eq_comm, Ordering.then_eq_lt, Int.compare_eq_lt,
        Int.compare_eq_eq, Int.compare_eq_lt]
      rw [← Bool.not_eq_true, hless] at hbelow
      omega

end Binary64

/-! ## Values -/

namespace Value

/-- The tier of a number; integers are finite. -/
def tier : Value → Int
  | .float x => x.tier
  | _ => 0

/-- The standing of a number in its tier: the exact value in units, if it is finite. -/
def standing (v : Value) : Int :=
  match v with
  | .float x => x.standing
  | v =>
    match v.int? with
    | some n => n.toInt * Binary64.unitsPerOne
    | none => 0

/-- Numbers are integers, or given by their bits. -/
theorem number_cases {v : Value} (hrank : v.rank = 0) :
    (∃ n, v.int? = some n ∧ v.tier = 0 ∧ v.standing = n.toInt * Binary64.unitsPerOne) ∨
      ∃ x, v = .float x := by
  cases v with
  | bool b => exact Or.inl ⟨_, rfl, rfl, rfl⟩
  | int n => exact Or.inl ⟨n, rfl, rfl, rfl⟩
  | float x => exact Or.inr ⟨x, rfl⟩
  | _ => cases hrank

theorem compare_units (m n : Int) :
    compare (m * Binary64.unitsPerOne) (n * Binary64.unitsPerOne) = compare m n := by
  have hpos : (0 : Int) < Binary64.unitsPerOne := Int.natCast_pos.2 Binary64.unitsPerOne_pos
  rcases Int.lt_trichotomy m n with hlt | rfl | hgt
  · rw [Int.compare_eq_lt.2 hlt, Int.compare_eq_lt.2 (Int.mul_lt_mul_of_pos_right hlt hpos)]
  · rw [Int.compare_eq_eq.2 rfl, Int.compare_eq_eq.2 rfl]
  · rw [Int.compare_eq_gt.2 hgt, Int.compare_eq_gt.2 (Int.mul_lt_mul_of_pos_right hgt hpos)]

/-- **Numbers are compared by tier, then by standing**, whichever of them are integers. -/
theorem compareNumbers_eq {a b : Value} (ha : a.rank = 0) (hb : b.rank = 0) :
    compareNumbers a b = (compare a.tier b.tier).then (compare a.standing b.standing) := by
  rcases number_cases ha with ⟨m, hm, htier, hstanding⟩ | ⟨x, rfl⟩
  · rcases number_cases hb with ⟨n, hn, htier', hstanding'⟩ | ⟨y, rfl⟩
    · rw [htier, htier', hstanding, hstanding', compare_units]
      simp only [compareNumbers, hm, hn]
      rfl
    · rw [htier, hstanding]
      simp only [compareNumbers, hm]
      exact Binary64.compareIntFloat_eq m y
  · rcases number_cases hb with ⟨n, hn, htier', hstanding'⟩ | ⟨y, rfl⟩
    · rw [htier', hstanding']
      simp only [compareNumbers, hn]
      change (compareIntFloat n x).swap = _
      rw [Binary64.compareIntFloat_eq, Ordering.swap_then, Int.compare_swap, Int.compare_swap]
      rfl
    · exact Binary64.compare_floats x y

end Value

end StepScript
