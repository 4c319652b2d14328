import Mathlib.Data.Rat.Floor
import Mathlib.Tactic.Linarith
import StepScript.Host.Mathematics
import StepScript.Proofs.Integers
import StepScript.Proofs.Rounding

/-!
# Numbers made integers

A finite number is a rational one, and in the range of 64 bits `int`, `round`, `floor` and `ceil`
give its integer part, the nearest integer with halves to the even one, the floor and the ceiling,
all of them exact (`IntegerConversions`). Beyond the range only `round` ends in a fault; the other
three give the end of the range that is nearest.

Whether the result fits and whether the number is in range is the same question: a number of 2^53 or
more has no fraction (`exists_int_of_large`), and the results for smaller ones are far from the ends
(`fits_iff_inRange`).
-/

set_option autoImplicit false

namespace StepScript

/-! ## Rounding a rational number -/

/-- The rational number rounded towards zero. -/
def integerPart (q : ℚ) : ℤ :=
  if 0 ≤ q then ⌊q⌋ else ⌈q⌉

/-- The integer is nearest to the rational number; one that is a half away is even. -/
structure IsNearestEven (q : ℚ) (n : ℤ) : Prop where
  near : |q - n| ≤ 1 / 2
  even : |q - n| = 1 / 2 → Even n

theorem IsNearestEven.neg {q : ℚ} {n : ℤ} (h : IsNearestEven q n) : IsNearestEven (-q) (-n) := by
  have habs : |-q - (-n : ℤ)| = |q - n| := by
    rw [Int.cast_neg, neg_sub_neg, abs_sub_comm]
  exact ⟨habs ▸ h.near, fun hhalf => (h.even (habs ▸ hhalf)).neg⟩

/-- There is one nearest integer: of two that are a half away, one is odd. -/
theorem IsNearestEven.unique {q : ℚ} {m n : ℤ} (hm : IsNearestEven q m) (hn : IsNearestEven q n) :
    m = n := by
  by_contra hne
  wlog hlt : m < n generalizing m n
  · exact this hn hm (Ne.symm hne) (by omega)
  have hm₁ := abs_le.1 hm.near
  have hn₁ := abs_le.1 hn.near
  have hle : (m : ℚ) + 1 ≤ n := by exact_mod_cast hlt
  have hq : q = m + 1 / 2 := by linarith
  have hn' : (n : ℚ) = m + 1 := by linarith
  have hmeven : Even m := hm.even (by rw [hq]; norm_num)
  have hneven : Even n := hn.even (by rw [hq, hn']; norm_num)
  have hsucc : n = m + 1 := by exact_mod_cast hn'
  rw [hsucc] at hneven
  exact Int.not_even_iff_odd.2 hmeven.add_one hneven

theorem abs_sub_integerPart_lt (q : ℚ) : |q - integerPart q| < 1 := by
  unfold integerPart
  split
  · rw [abs_lt]
    constructor <;> linarith [Int.floor_le q, Int.lt_floor_add_one q]
  · rw [abs_lt]
    constructor <;> linarith [Int.le_ceil q, Int.ceil_lt_add_one q]

namespace Binary64

/-- A quotient rounded with ties to the even integer. -/
theorem isNearestEven_roundDiv (num : Nat) {den : Nat} (hden : 0 < den) :
    IsNearestEven ((num : ℚ) / den) (roundDiv num den) := by
  have hpos : (0 : ℚ) < den := by exact_mod_cast hden
  have hsum : (num : ℚ) / den = (num / den : Nat) + ((num % den : Nat) : ℚ) / den := by
    rw [div_eq_iff hpos.ne', add_mul, div_mul_cancel₀ _ hpos.ne']
    exact_mod_cast (Nat.div_add_mod' num den).symm
  have hzero : (0 : ℚ) ≤ ((num % den : Nat) : ℚ) / den := by positivity
  have hone : ((num % den : Nat) : ℚ) / den < 1 := by
    rw [div_lt_one hpos]
    exact_mod_cast Nat.mod_lt num hden
  have hdown : 2 * (num % den) < den ↔ ((num % den : Nat) : ℚ) / den < 1 / 2 := by
    rw [div_lt_div_iff₀ hpos two_pos, mul_comm, one_mul]
    exact_mod_cast Iff.rfl
  have hup : den < 2 * (num % den) ↔ 1 / 2 < ((num % den : Nat) : ℚ) / den := by
    rw [div_lt_div_iff₀ two_pos hpos, one_mul, mul_comm]
    exact_mod_cast Iff.rfl
  unfold roundDiv
  dsimp only
  rw [hsum]
  generalize ((num % den : Nat) : ℚ) / den = fraction at hzero hone hdown hup
  split
  · next hlt =>
    have habs : |((num / den : Nat) : ℚ) + fraction - ((num / den : Nat) : ℤ)| = fraction := by
      rw [Int.cast_natCast, add_sub_cancel_left, abs_of_nonneg hzero]
    have hhalf := hdown.1 hlt
    exact ⟨by rw [habs]; exact hhalf.le, fun heq => absurd (habs.symm.trans heq) hhalf.ne⟩
  · next hle =>
    split
    · next hlt =>
      have habs : |((num / den : Nat) : ℚ) + fraction - ((num / den + 1 : Nat) : ℤ)|
          = 1 - fraction := by
        rw [Int.cast_natCast, Nat.cast_succ, add_sub_add_left_eq_sub, abs_sub_comm,
          abs_of_nonneg (by linarith)]
      have hhalf := hup.1 hlt
      exact ⟨by rw [habs]; linarith, fun heq => by rw [habs] at heq; linarith⟩
    · next hge =>
      have hhalf : fraction = 1 / 2 :=
        le_antisymm (not_lt.1 (mt hup.2 hge)) (not_lt.1 (mt hdown.2 hle))
      -- of the two integers that are a half away, the even one is taken
      rcases Nat.mod_two_eq_zero_or_one (num / den) with heven | hodd
      · rw [heven, Nat.add_zero, hhalf]
        refine ⟨?_, fun _ => ?_⟩
        · rw [Int.cast_natCast, add_sub_cancel_left, abs_of_nonneg (by norm_num)]
        · exact_mod_cast Nat.even_iff.2 heven
      · rw [hodd, hhalf]
        refine ⟨?_, fun _ => ?_⟩
        · rw [Int.cast_natCast, Nat.cast_succ, add_sub_add_left_eq_sub, abs_sub_comm,
            abs_of_nonneg (by norm_num)]
          norm_num
        · exact_mod_cast (Nat.odd_iff.2 hodd).add_one

/-! ## The exact value of a number -/

/-- The exact value of a finite number. -/
def toRat (x : Binary64) : ℚ :=
  x.units / unitsPerOne

theorem toRat_eq_div {x : Binary64} {n : ℤ} {d : Nat} (hd : 0 < d)
    (h : x.units * d = n * unitsPerOne) : x.toRat = n / d := by
  have hpos : (0 : ℚ) < unitsPerOne := by exact_mod_cast unitsPerOne_pos
  have hd : (0 : ℚ) < d := by exact_mod_cast hd
  have h : (x.units : ℚ) * d = n * unitsPerOne := by exact_mod_cast h
  rw [toRat, div_eq_div_iff hpos.ne' hd.ne', h]

theorem toRat_eq (x : Binary64) :
    x.toRat = if x.isNegative then -((x.magnitude : ℚ) / unitsPerOne)
      else (x.magnitude : ℚ) / unitsPerOne := by
  unfold toRat units
  split
  · rw [Int.cast_neg, Int.cast_natCast, neg_div]
  · rw [Int.cast_natCast]

theorem abs_toRat (x : Binary64) : |x.toRat| = (x.magnitude : ℚ) / unitsPerOne := by
  have hnonneg : (0 : ℚ) ≤ (x.magnitude : ℚ) / unitsPerOne := by positivity
  rw [toRat_eq]
  split
  · rw [abs_neg, abs_of_nonneg hnonneg]
  · rw [abs_of_nonneg hnonneg]

theorem floor_eq (x : Binary64) : x.floor = ⌊x.toRat⌋ := by
  rw [floor, toRat, Rat.floor_intCast_div_natCast,
    Int.fdiv_eq_ediv_of_nonneg _ (Int.natCast_nonneg _)]

theorem ceil_eq (x : Binary64) : x.ceil = ⌈x.toRat⌉ := by
  rw [ceil, toRat, Rat.ceil_intCast_div_natCast,
    Int.fdiv_eq_ediv_of_nonneg _ (Int.natCast_nonneg _)]

theorem truncate_eq (x : Binary64) : x.truncate = integerPart x.toRat := by
  have hpos : (0 : ℚ) < unitsPerOne := by exact_mod_cast unitsPerOne_pos
  have hsign : 0 ≤ x.toRat ↔ 0 ≤ x.units := by
    rw [toRat, le_div_iff₀ hpos, zero_mul]
    exact Int.cast_nonneg_iff
  unfold integerPart
  split
  · next hnonneg =>
    rw [← floor_eq, floor, truncate, Int.tdiv_eq_ediv_of_nonneg (hsign.1 hnonneg),
      Int.fdiv_eq_ediv_of_nonneg _ (Int.natCast_nonneg _)]
  · next hneg =>
    have hunits : 0 ≤ -x.units := by
      have := mt hsign.2 hneg
      omega
    rw [← ceil_eq, ceil, truncate, Int.fdiv_eq_ediv_of_nonneg _ (Int.natCast_nonneg _),
      ← Int.tdiv_eq_ediv_of_nonneg hunits, Int.neg_tdiv, Int.neg_neg]

theorem isNearestEven_roundEven (x : Binary64) : IsNearestEven x.toRat x.roundEven := by
  have hnearest := isNearestEven_roundDiv x.magnitude unitsPerOne_pos
  rw [toRat_eq]
  unfold roundEven
  dsimp only
  split
  · exact hnearest.neg
  · exact hnearest

/-! ## The range -/

/-- The rational number is in the range of the integers of 64 bits. -/
def InRange (q : ℚ) : Prop :=
  -2 ^ 63 ≤ q ∧ q < 2 ^ 63

theorem two_pow_dvd_total (m n : Nat) : Nat.pow 2 m ∣ Nat.pow 2 n ∨ Nat.pow 2 n ∣ Nat.pow 2 m :=
  (Nat.le_total m n).imp (Nat.pow_dvd_pow 2) (Nat.pow_dvd_pow 2)

theorem dvd_unitsPerOne_total (scale : Nat) :
    Nat.pow 2 scale ∣ unitsPerOne ∨ unitsPerOne ∣ Nat.pow 2 scale := by
  unfold unitsPerOne
  apply two_pow_dvd_total

/-- A number of at least 2^53 has no fraction: its significand alone is smaller. -/
theorem exists_int_of_large {x : Binary64} (h : 2 ^ 53 ≤ |x.toRat|) : ∃ n : ℤ, x.toRat = n := by
  have hpos : (0 : ℚ) < unitsPerOne := by exact_mod_cast unitsPerOne_pos
  rw [abs_toRat, le_div_iff₀ hpos] at h
  have hlarge : 2 ^ 53 * unitsPerOne ≤ x.magnitude := by exact_mod_cast h
  obtain ⟨k, hk⟩ : unitsPerOne ∣ x.magnitude := by
    rcases dvd_unitsPerOne_total (scaleOf x.ordinal) with hsmaller | hlarger
    · have hsmall : x.magnitude < 2 ^ 53 * unitsPerOne :=
        calc x.magnitude < 2 ^ 53 * Nat.pow 2 (scaleOf x.ordinal) :=
              Nat.mul_lt_mul_of_pos_right (significandOf_lt _) (Nat.two_pow_pos _)
          _ ≤ 2 ^ 53 * unitsPerOne :=
              Nat.mul_le_mul_left _ (Nat.le_of_dvd unitsPerOne_pos hsmaller)
      exact absurd hsmall (not_lt.2 hlarge)
    · exact Dvd.dvd.mul_left hlarger _
  have hvalue : (x.magnitude : ℚ) / unitsPerOne = k := by
    rw [hk, Nat.cast_mul, mul_div_cancel_left₀ _ hpos.ne']
  rw [toRat_eq, hvalue]
  split
  · exact ⟨-(k : ℤ), by rw [Int.cast_neg, Int.cast_natCast]⟩
  · exact ⟨k, (Int.cast_natCast k).symm⟩

/-- What lies less than one from a large number is that number. -/
theorem eq_of_large {x : Binary64} {n : ℤ} (hn : |x.toRat - n| < 1) (h : 2 ^ 53 ≤ |x.toRat|) :
    x.toRat = n := by
  obtain ⟨k, hk⟩ := exists_int_of_large h
  rw [hk] at hn ⊢
  have hzero : |k - n| < 1 := by exact_mod_cast hn
  rw [sub_eq_zero.1 (Int.abs_lt_one_iff.1 hzero)]

/-- **An integer next to a number fits exactly when the number is in range.** -/
theorem fits_iff_inRange {x : Binary64} {n : ℤ} (hn : |x.toRat - n| < 1) :
    Value.fits n = true ↔ InRange x.toRat := by
  rw [Value.fits_iff, InRange]
  by_cases hlarge : 2 ^ 53 ≤ |x.toRat|
  · rw [eq_of_large hn hlarge]
    constructor
    · rintro ⟨hlow, hhigh⟩
      exact ⟨by exact_mod_cast hlow, by exact_mod_cast hhigh⟩
    · rintro ⟨hlow, hhigh⟩
      exact ⟨by exact_mod_cast hlow, by exact_mod_cast hhigh⟩
  · have hsmall := abs_lt.1 (not_le.1 hlarge)
    have hnear := abs_lt.1 hn
    have hlow : (-2 ^ 63 : ℚ) ≤ n := by linarith
    have hhigh : (n : ℚ) < 2 ^ 63 := by linarith
    refine iff_of_true ⟨by exact_mod_cast hlow, by exact_mod_cast hhigh⟩ ⟨?_, ?_⟩ <;> linarith

/-- The end of the range that a number beyond it is nearest to. -/
def nearestEnd (q : ℚ) : Int64 :=
  if q < 0 then Int64.minValue else Int64.maxValue

theorem toInt_ofInt_of_fits {n : ℤ} (h : Value.fits n = true) : (Int64.ofInt n).toInt = n := by
  obtain ⟨hlow, hhigh⟩ := Value.fits_iff.1 h
  exact Int64.toInt_ofInt_of_le hlow hhigh

theorem toInt_saturate {n : ℤ} (h : Value.fits n = true) : (Value.saturate n).toInt = n := by
  obtain ⟨hlow, hhigh⟩ := Value.fits_iff.1 h
  have hcut : max Int64.minValue.toInt (min n Int64.maxValue.toInt) = n := by
    rw [Int64.toInt_minValue, Int64.toInt_maxValue]
    omega
  rw [Value.saturate, hcut, toInt_ofInt_of_fits h]

theorem saturate_of_le {n : ℤ} (h : n ≤ Int64.minValue.toInt) :
    Value.saturate n = Int64.minValue := by
  rw [Value.saturate, max_eq_left ((min_le_left n _).trans h), Int64.ofInt_toInt]

theorem saturate_of_ge {n : ℤ} (h : Int64.maxValue.toInt ≤ n) :
    Value.saturate n = Int64.maxValue := by
  rw [Value.saturate, min_eq_right h, max_eq_right (by decide), Int64.ofInt_toInt]

/-- An integer next to a number beyond the range is cut to the end on its side. -/
theorem saturate_eq_nearestEnd {x : Binary64} {n : ℤ} (hn : |x.toRat - n| < 1)
    (h : ¬InRange x.toRat) : Value.saturate n = nearestEnd x.toRat := by
  have hfits := mt (fits_iff_inRange hn).1 h
  rw [Value.fits_iff] at hfits
  have hnear := abs_lt.1 hn
  unfold nearestEnd
  split
  · next hneg =>
    have hlow : n < 1 := by
      have : (n : ℚ) < 1 := by linarith
      exact_mod_cast this
    refine saturate_of_le ?_
    rw [Int64.toInt_minValue]
    omega
  · next hpos =>
    have hhigh : -1 < n := by
      have : (-1 : ℚ) < n := by linarith
      exact_mod_cast this
    refine saturate_of_ge ?_
    rw [Int64.toInt_maxValue]
    omega

/-- An integer next to a number in range is what cutting it to the range leaves. -/
theorem toInt_saturate_of_inRange {x : Binary64} {n : ℤ} (hn : |x.toRat - n| < 1)
    (h : InRange x.toRat) : (Value.saturate n).toInt = n :=
  toInt_saturate ((fits_iff_inRange hn).2 h)

theorem abs_sub_truncate_lt (x : Binary64) : |x.toRat - x.truncate| < 1 := by
  rw [truncate_eq]
  exact abs_sub_integerPart_lt x.toRat

theorem abs_sub_floor_lt (x : Binary64) : |x.toRat - x.floor| < 1 := by
  rw [floor_eq, abs_lt]
  constructor <;> linarith [Int.floor_le x.toRat, Int.lt_floor_add_one x.toRat]

theorem abs_sub_ceil_lt (x : Binary64) : |x.toRat - x.ceil| < 1 := by
  rw [ceil_eq, abs_sub_comm, abs_lt]
  constructor <;> linarith [Int.le_ceil x.toRat, Int.ceil_lt_add_one x.toRat]

theorem abs_sub_roundEven_lt (x : Binary64) : |x.toRat - x.roundEven| < 1 :=
  lt_of_le_of_lt x.isNearestEven_roundEven.near one_half_lt_one

end Binary64

/-! ## The four conversions -/

namespace Builtin

open Binary64 (InRange nearestEnd fits_iff_inRange saturate_eq_nearestEnd toInt_saturate_of_inRange)

variable {σ : Type} (host : σ)

/-- The result of a function of the module `math`, and the host afterwards. -/
def mathResult? (name : String) (args : List Value) : Option (Except HostFault Value × σ) :=
  ((Host.mathModule : Module σ).functions.get? name).map fun run => run args host

theorem call_int_float {x : Binary64} (h : x.isFinite = true) :
    Builtin.int.call [.float x] = .ok (.int (Value.saturate x.truncate)) :=
  if_pos h

theorem call_round_float {x : Binary64} (h : x.isFinite = true) :
    Builtin.round.call [.float x] = Value.ofInt x.roundEven := by
  have hlt : x.ordinal < Binary64.infinityOrdinal := of_decide_eq_true h
  have hnan : x.isNaN = false := decide_eq_false (by omega)
  have hinfinite : x.isInfinite = false := decide_eq_false (by omega)
  simp only [call, roundValue, Value.float?, roundToInt, hnan, hinfinite, Bool.false_eq_true,
    if_false]

theorem mathResult?_floor {x : Binary64} (h : x.isFinite = true) :
    mathResult? host "floor" [.float x] = some (.ok (.int (Value.saturate x.floor)), host) :=
  congrArg (fun r => some (r, host)) (if_pos h)

theorem mathResult?_ceil {x : Binary64} (h : x.isFinite = true) :
    mathResult? host "ceil" [.float x] = some (.ok (.int (Value.saturate x.ceil)), host) :=
  congrArg (fun r => some (r, host)) (if_pos h)

/-- What `int`, `round`, `floor` and `ceil` make of a number, by its exact value; the host is left
    as it is. -/
structure IntegerConversions (host : σ) (x : Binary64) : Prop where
  int : InRange x.toRat →
    ∃ n, Builtin.int.call [.float x] = .ok (.int n) ∧ n.toInt = integerPart x.toRat
  round : InRange x.toRat →
    ∃ n, Builtin.round.call [.float x] = .ok (.int n) ∧
      ∀ k, IsNearestEven x.toRat k ↔ k = n.toInt
  floor : InRange x.toRat →
    ∃ n, mathResult? host "floor" [.float x] = some (.ok (.int n), host) ∧ n.toInt = ⌊x.toRat⌋
  ceil : InRange x.toRat →
    ∃ n, mathResult? host "ceil" [.float x] = some (.ok (.int n), host) ∧ n.toInt = ⌈x.toRat⌉
  /-- Beyond the range, `round` alone ends in a fault. -/
  round_outside : ¬InRange x.toRat → Builtin.round.call [.float x] = .error (.value .overflow)
  int_outside : ¬InRange x.toRat →
    Builtin.int.call [.float x] = .ok (.int (nearestEnd x.toRat))
  floor_outside : ¬InRange x.toRat →
    mathResult? host "floor" [.float x] = some (.ok (.int (nearestEnd x.toRat)), host)
  ceil_outside : ¬InRange x.toRat →
    mathResult? host "ceil" [.float x] = some (.ok (.int (nearestEnd x.toRat)), host)

/-- **In the range of 64 bits the conversions of a finite number to an integer are exact**; beyond
    it `round` overflows, and the others cut to the nearest end. -/
theorem integerConversions {x : Binary64} (h : x.isFinite = true) :
    IntegerConversions host x where
  int hrange :=
    ⟨_, call_int_float h, by
      rw [toInt_saturate_of_inRange x.abs_sub_truncate_lt hrange, x.truncate_eq]⟩
  round hrange := by
    have hfits := (fits_iff_inRange x.abs_sub_roundEven_lt).2 hrange
    refine ⟨Int64.ofInt x.roundEven, ?_, fun k => ?_⟩
    · rw [call_round_float h]
      exact if_pos hfits
    · rw [Binary64.toInt_ofInt_of_fits hfits]
      exact ⟨fun hk => hk.unique x.isNearestEven_roundEven,
        fun hk => hk ▸ x.isNearestEven_roundEven⟩
  floor hrange :=
    ⟨_, mathResult?_floor host h, by
      rw [toInt_saturate_of_inRange x.abs_sub_floor_lt hrange, x.floor_eq]⟩
  ceil hrange :=
    ⟨_, mathResult?_ceil host h, by
      rw [toInt_saturate_of_inRange x.abs_sub_ceil_lt hrange, x.ceil_eq]⟩
  round_outside hrange := by
    have hfits := mt (fits_iff_inRange x.abs_sub_roundEven_lt).1 hrange
    rw [call_round_float h]
    exact if_neg hfits
  int_outside hrange := by
    rw [call_int_float h, saturate_eq_nearestEnd x.abs_sub_truncate_lt hrange]
  floor_outside hrange := by
    rw [mathResult?_floor host h, saturate_eq_nearestEnd x.abs_sub_floor_lt hrange]
  ceil_outside hrange := by
    rw [mathResult?_ceil host h, saturate_eq_nearestEnd x.abs_sub_ceil_lt hrange]

/-- Two to the 63rd. -/
def firstBeyond : Binary64 :=
  ⟨0x43E0000000000000⟩

theorem toRat_firstBeyond : firstBeyond.toRat = 2 ^ 63 := by
  rw [Binary64.toRat_eq_div (n := 2 ^ 63) one_pos (by decide +kernel)]
  norm_num

theorem not_inRange_firstBeyond : ¬InRange firstBeyond.toRat := by
  rw [toRat_firstBeyond]
  exact fun h => lt_irrefl _ h.2

theorem nearestEnd_firstBeyond : nearestEnd firstBeyond.toRat = Int64.maxValue := by
  rw [toRat_firstBeyond]
  exact if_neg (by norm_num)

/-- Two and a half lies in the range and is rounded to its even neighbour, two to the 63rd lies
    beyond it. -/
theorem integerConversions_twoAndHalf :
    let half : Binary64 := ⟨0x4004000000000000⟩
    half.isFinite = true ∧ firstBeyond.isFinite = true ∧
      Builtin.round.call [.float half] = .ok (.int 2) ∧
      mathResult? () "ceil" [.float half] = some (.ok (.int 3), ()) ∧
      Builtin.round.call [.float firstBeyond] = .error (.value .overflow) ∧
      mathResult? () "ceil" [.float firstBeyond] = some (.ok (.int Int64.maxValue), ()) := by
  intro half
  have hfinite : half.isFinite = true := by decide
  have hfar : firstBeyond.isFinite = true := by decide
  have hvalue : half.toRat = 5 / 2 :=
    Binary64.toRat_eq_div two_pos (by decide +kernel)
  have hrange : InRange half.toRat := by
    rw [hvalue]
    constructor <;> norm_num
  obtain ⟨n, hround, hnearest⟩ := (integerConversions () hfinite).round hrange
  obtain ⟨m, hceil, hm⟩ := (integerConversions () hfinite).ceil hrange
  have hn : n = 2 := by
    refine Int64.toInt_inj.1 ((hnearest 2).1 ⟨?_, fun _ => even_two⟩).symm
    rw [hvalue, abs_of_nonneg] <;> norm_num
  have hceiling : ⌈half.toRat⌉ = 3 := by
    rw [hvalue, Int.ceil_eq_iff]
    constructor <;> norm_num
  have hm : m = 3 := Int64.toInt_inj.1 (hm.trans hceiling)
  refine ⟨hfinite, hfar, hn ▸ hround, hm ▸ hceil, ?_, ?_⟩
  · exact (integerConversions () hfar).round_outside not_inRange_firstBeyond
  · rw [(integerConversions () hfar).ceil_outside not_inRange_firstBeyond, nearestEnd_firstBeyond]

/-- Two to the 63rd is beyond the range, and yet `int`, `floor` and `ceil` give an integer for
    it. -/
theorem integerConversions_beyondRange :
    firstBeyond.isFinite = true ∧ firstBeyond.toRat = 2 ^ 63 ∧
      Builtin.int.call [.float firstBeyond] = .ok (.int Int64.maxValue) ∧
      mathResult? () "floor" [.float firstBeyond] = some (.ok (.int Int64.maxValue), ()) ∧
      mathResult? () "ceil" [.float firstBeyond] = some (.ok (.int Int64.maxValue), ()) := by
  have hfinite : firstBeyond.isFinite = true := by decide
  refine ⟨hfinite, toRat_firstBeyond, ?_, ?_, ?_⟩
  · rw [call_int_float hfinite, saturate_eq_nearestEnd (Binary64.abs_sub_truncate_lt _)
      not_inRange_firstBeyond, nearestEnd_firstBeyond]
  · rw [mathResult?_floor () hfinite, saturate_eq_nearestEnd (Binary64.abs_sub_floor_lt _)
      not_inRange_firstBeyond, nearestEnd_firstBeyond]
  · rw [mathResult?_ceil () hfinite, saturate_eq_nearestEnd (Binary64.abs_sub_ceil_lt _)
      not_inRange_firstBeyond, nearestEnd_firstBeyond]

end Builtin
end StepScript
