/-!
# Repeated texts

A text put after itself many times. The copies are made by doubling, so that a long result takes
few steps; `toList_repeated` says what it is.
-/

set_option autoImplicit false

namespace StepScript.Text

/-- A text put after itself `n` times; `fuel` is at least `n`. -/
def repeatedWith (s : String) : (fuel n : Nat) → String
  | 0, _ => ""
  | fuel + 1, n =>
    if n = 0 then ""
    else
      let half := repeatedWith s fuel (n / 2)
      if n % 2 = 0 then half ++ half else half ++ half ++ s

/-- A text put after itself `n` times. -/
def repeated (s : String) (n : Nat) : String :=
  repeatedWith s n n

theorem flatten_replicate_add (m n : Nat) (cs : List Char) :
    (List.replicate (m + n) cs).flatten
      = (List.replicate m cs).flatten ++ (List.replicate n cs).flatten := by
  rw [← List.replicate_append_replicate, List.flatten_append]

theorem toList_repeatedWith (s : String) {fuel n : Nat} (h : n ≤ fuel) :
    (repeatedWith s fuel n).toList = (List.replicate n s.toList).flatten := by
  induction fuel generalizing n with
  | zero => simp [repeatedWith, Nat.le_zero.1 h]
  | succ fuel ih =>
    unfold repeatedWith
    by_cases hn : n = 0
    · simp [hn]
    · have half := ih (n := n / 2) (by omega)
      rw [if_neg hn]
      by_cases even : n % 2 = 0
      · have parts := flatten_replicate_add (n / 2) (n / 2) s.toList
        rw [show n / 2 + n / 2 = n by omega] at parts
        rw [if_pos even, String.toList_append, half, parts]
      · have parts := flatten_replicate_add (n / 2 + n / 2) 1 s.toList
        rw [show n / 2 + n / 2 + 1 = n by omega, flatten_replicate_add] at parts
        rw [if_neg even, String.toList_append, String.toList_append, half, parts]
        simp

/-- The characters of a repeated text are those of the text, `n` times over. -/
@[simp] theorem toList_repeated (s : String) (n : Nat) :
    (repeated s n).toList = (List.replicate n s.toList).flatten :=
  toList_repeatedWith s (Nat.le_refl n)

end StepScript.Text
