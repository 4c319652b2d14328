/-!
# Decimal digits

Reading and writing natural numbers and integers in decimal, on lists of characters. `digits`
writes the fewest digits and `natOfDigits` reads any number of them.
-/

set_option autoImplicit false

namespace StepScript.Text

/-! ## Classes -/

/-- The character is one of `0` to `9`. -/
def isDigit (c : Char) : Bool :=
  '0' ≤ c && c ≤ '9'

/-- The character may start a name. -/
def isNameStart (c : Char) : Bool :=
  ('a' ≤ c && c ≤ 'z') || ('A' ≤ c && c ≤ 'Z') || c == '_'

/-- The character may continue a name. -/
def isNameChar (c : Char) : Bool :=
  isNameStart c || isDigit c

/-! ## Reading -/

/-- The value of a run of digits. -/
def natOfDigits (cs : List Char) : Nat :=
  cs.foldl (fun n c => 10 * n + (c.toNat - 48)) 0

/-- The value of a text that is a run of digits and nothing else. -/
def nat? (cs : List Char) : Option Nat :=
  if cs.isEmpty || !cs.all isDigit then none else some (natOfDigits cs)

/-- Sign and remaining text: a minus counts as negative, a plus is passed. -/
def signed : List Char → Bool × List Char
  | '-' :: cs => (true, cs)
  | '+' :: cs => (false, cs)
  | cs => (false, cs)

/-- The value of a text that is an optional sign and a run of digits. -/
def int? (cs : List Char) : Option Int :=
  (nat? (signed cs).2).map fun n => if (signed cs).1 then -(n : Int) else n

/-! ## Writing -/

/-- The decimal digits of a number, the fewest possible. -/
def digits (n : Nat) : List Char :=
  Nat.toDigits 10 n

/-- A number is written in digits only. -/
theorem isDigit_of_mem_digits {n : Nat} {c : Char} (h : c ∈ digits n) : isDigit c = true := by
  have hdigit := Nat.isDigit_of_mem_toDigits (by decide) (by decide) h
  simpa [Char.isDigit, isDigit, Char.le_def] using hdigit

theorem digits_ne_nil (n : Nat) : digits n ≠ [] :=
  Nat.toDigits_ne_nil

/-- A number is read back from its digits. -/
theorem natOfDigits_digits (n : Nat) : natOfDigits (digits n) = n :=
  Nat.ofDigitChars_toDigits (by decide) (by decide)

/-- How many digits a number has. -/
def digitCount (n : Nat) : Nat :=
  (digits n).length

/-- A number in decimal. -/
def natText (n : Nat) : String :=
  String.ofList (digits n)

/-- An integer in decimal. -/
def intText (n : Int) : String :=
  match n with
  | .ofNat n => natText n
  | .negSucc n => "-" ++ natText (n + 1)

end StepScript.Text
