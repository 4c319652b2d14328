import StepScript.Proofs.Integers

/-!
# Ranges

The members of a range are found one after the other in arithmetic of 64 bits: each is the one
before it plus the step, until one does not lie before the end or there is no further number. The
end is a number of 64 bits too, so where the numbers end the range has ended, and no member is
missing (`not_isBefore_of_next?`). What is found is therefore said in terms of the integers
(`IsRange`). That the search ends is part of its definition, every step bringing the end of the
range nearer (`ahead_next_lt`).
-/

set_option autoImplicit false

namespace StepScript.Builtin

/-! ## Ranges of integers -/

/-- An integer lies before the end of a range, as seen in the direction of the step. -/
def IsBefore (stop step n : Int) : Prop :=
  0 < step ∧ n < stop ∨ step < 0 ∧ stop < n

/-- The words are `start`, `start + step`, … in this order, as long as they lie before `stop`. -/
structure IsRange (stop step start : Int) (members : List Int64) : Prop where
  value : ∀ (i : Nat) (n : Int64), members[i]? = some n → n.toInt = start + i * step
  length : ∀ i : Nat, i < members.length ↔ IsBefore stop step (start + i * step)

section

variable {stop step start : Int}

/-- What lies behind an integer that is not before the end is not before the end either. -/
theorem IsBefore.of_later {i : Nat} (h : IsBefore stop step (start + i * step)) :
    IsBefore stop step start := by
  have hi : (0 : Int) ≤ i := Int.natCast_nonneg i
  rcases h with ⟨hstep, hlt⟩ | ⟨hstep, hlt⟩
  · have hpos := Int.mul_nonneg hi hstep.le
    exact Or.inl ⟨hstep, by omega⟩
  · have hneg := Int.mul_nonpos_of_nonneg_of_nonpos hi hstep.le
    exact Or.inr ⟨hstep, by omega⟩

/-- A range that is past its end is empty. -/
theorem isRange_nil (h : ¬IsBefore stop step start) : IsRange stop step start [] := by
  constructor
  · intro i n hi
    cases hi
  · intro i
    exact iff_of_false (Nat.not_lt_zero i) fun hbefore => h hbefore.of_later

/-- A range goes on with the range that starts one step further. -/
theorem IsRange.cons {n : Int64} {members : List Int64} (hbefore : IsBefore stop step n.toInt)
    (h : IsRange stop step (n.toInt + step) members) :
    IsRange stop step n.toInt (n :: members) := by
  have hshift (i : Nat) : n.toInt + ((i + 1 : Nat) : Int) * step = n.toInt + step + i * step := by
    push_cast
    ring
  constructor
  · intro i m hi
    cases i with
    | zero =>
      cases hi
      simp
    | succ i => rw [h.value i m hi, hshift]
  · intro i
    cases i with
    | zero => simpa using hbefore
    | succ i => rw [hshift, ← h.length i, List.length_cons, Nat.succ_lt_succ_iff]

end

/-! ## The search for the members -/

theorem beforeStop_iff {stop step n : Int64} :
    beforeStop stop step n = true ↔ IsBefore stop.toInt step.toInt n.toInt := by
  simp only [beforeStop, IsBefore, Bool.or_eq_true, Bool.and_eq_true, decide_eq_true_eq,
    Int64.lt_iff_toInt_lt, Int64.toInt_zero]

/-- A number that would leave the range of 64 bits is past the end, which lies in it. -/
theorem not_isBefore_of_next? (stop : Int64) {step n : Int64} (hnext : next? step n = none) :
    ¬IsBefore stop.toInt step.toInt (n.toInt + step.toInt) := by
  have hfits : ¬Value.fits (n.toInt + step.toInt) = true := by
    simpa [next?] using hnext
  rw [Value.fits_iff] at hfits
  have hstop := Value.toInt_bounds stop
  have hn := Value.toInt_bounds n
  unfold IsBefore
  omega

/-- The members of a range are put behind what was found before. -/
theorem toList_rangeFrom (stop step n : Int64) (found : Array Value) :
    ∃ members, (rangeFrom stop step n found).toList = found.toList ++ members.map .int ∧
      IsRange stop.toInt step.toInt n.toInt members := by
  fun_induction rangeFrom stop step n found with
  | case1 n found hbefore next hnext ih =>
    obtain ⟨members, hfound, hmembers⟩ := ih
    rw [toInt_of_next? hnext] at hmembers
    exact ⟨n :: members, by simp [hfound], hmembers.cons (beforeStop_iff.1 hbefore)⟩
  | case2 n found hbefore hnext =>
    have hlast := isRange_nil (not_isBefore_of_next? stop hnext)
    exact ⟨[n], by simp, hlast.cons (beforeStop_iff.1 hbefore)⟩
  | case3 n found hpast =>
    exact ⟨[], by simp, isRange_nil (mt beforeStop_iff.2 hpast)⟩

/-- **A range is exact up to the limits of 64 bits.** Whatever its bounds are, the search for its
    members comes to an end, and they are `start`, `start + step`, … computed over the integers:
    the `i`-th one is there exactly when it lies before the end in the direction of the step. -/
theorem range_exact (start stop step : Int64) (hstep : step ≠ 0) :
    ∃ members : List Int64,
      range.call [.int start, .int stop, .int step] = .ok (.list (members.map .int)) ∧
      (∀ (i : Nat) (n : Int64), members[i]? = some n → n.toInt = start.toInt + i * step.toInt) ∧
      ∀ i : Nat, i < members.length ↔
        0 < step.toInt ∧ start.toInt + i * step.toInt < stop.toInt ∨
          step.toInt < 0 ∧ stop.toInt < start.toInt + i * step.toInt := by
  obtain ⟨members, hfound, hmembers⟩ := toList_rangeFrom stop step start #[]
  have hcall : range.call [.int start, .int stop, .int step]
      = .ok (.list (rangeItems start stop step)) := by
    show rangeOf [start, stop, step] = _
    simp [rangeOf, hstep]
  refine ⟨members, ?_, hmembers.value, hmembers.length⟩
  rw [hcall, rangeItems, hfound]
  rfl

/-- Just before the last number of 64 bits there are two members, and then the sum overflows. -/
theorem range_exact_nearLimit :
    (2 : Int64) ≠ 0 ∧ ∃ members : List Int64,
      range.call [.int (Int64.maxValue - 3), .int Int64.maxValue, .int 2]
        = .ok (.list (members.map .int)) ∧
      members.length = 2 := by
  have hstep : (2 : Int64) ≠ 0 := by decide
  obtain ⟨members, hcall, -, hlength⟩ :=
    range_exact (Int64.maxValue - 3) Int64.maxValue 2 hstep
  have htwo : ¬2 < members.length := by
    rw [hlength]
    decide
  have hone : 1 < members.length := by
    rw [hlength]
    decide
  exact ⟨hstep, members, hcall, by omega⟩

end StepScript.Builtin
