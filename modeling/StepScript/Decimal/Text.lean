import StepScript.Binary64.Arithmetic
import StepScript.Decimal.Shortest

/-!
# Numbers as text

How a floating-point number is written and read. There are two ways to write one. `display` is
what a program prints: an integer below 10^16 with one decimal, anything else with its shortest
digits and never an exponent. `jsonText` is what a JSON document holds: shortest digits,
positional between 10^-5 and 10^16, and an exponent with its sign outside.

Reading takes an optional sign and either decimal digits with point and exponent or one of the
words for infinity and NaN.
-/

set_option autoImplicit false

namespace StepScript

namespace Decimal

/-! ## Layouts -/

/-- Zeros in a row. -/
def zeros (n : Nat) : List Char :=
  List.replicate n '0'

/-- The decimal without an exponent, and without a point when it is an integer. -/
def positional (d : Decimal) : List Char :=
  let ds := Text.digits d.coefficient
  if 0 ≤ d.exponent then ds ++ zeros d.exponent.toNat
  else
    let places := (-d.exponent).toNat
    if places < ds.length then
      ds.take (ds.length - places) ++ '.' :: ds.drop (ds.length - places)
    else '0' :: '.' :: zeros (places - ds.length) ++ ds

/-- The power of ten of the leading digit. -/
def leading (d : Decimal) : Int :=
  d.exponent + Text.digitCount d.coefficient - 1

/-- The decimal with one digit before the point and an exponent that shows its sign. -/
def scientific (d : Decimal) : List Char :=
  let exponent :=
    (if d.leading < 0 then '-' else '+') :: Text.digits d.leading.natAbs
  match Text.digits d.coefficient with
  | [] => []
  | [c] => c :: 'e' :: exponent
  | c :: cs => c :: '.' :: cs ++ 'e' :: exponent

end Decimal

namespace Binary64

/-- A minus for a negative number. -/
def signText (x : Binary64) : List Char :=
  if x.isNegative then ['-'] else []

/-- The text of a number as a program prints it. -/
def display (x : Binary64) : String :=
  if x.isNaN then "nan"
  else if x.isInfinite then String.ofList (x.signText ++ "inf".toList)
  else if x.isWhole && x.magnitude < Nat.pow 10 16 * unitsPerOne then
    String.ofList (x.signText ++ Text.digits (x.magnitude / unitsPerOne) ++ ['.', '0'])
  else String.ofList (x.signText ++ (Decimal.shortest .up x).positional)

/-- The text of a finite number in a JSON document. -/
def jsonText (x : Binary64) : String :=
  if x.isZero then String.ofList (x.signText ++ ['0', '.', '0'])
  else
    let d := Decimal.shortest .even x
    let body :=
      if d.leading < -5 || 16 ≤ d.leading then d.scientific
      else if 0 ≤ d.exponent then d.positional ++ ['.', '0']
      else d.positional
    String.ofList (x.signText ++ body)

/-! ## Reading -/

/-- Powers of ten beyond which every number with a digit is infinite or zero. -/
def readingLimit : Nat :=
  400

/-- The number nearest to `coefficient · 10^exponent`. -/
def ofDecimal (negative : Bool) (coefficient : Nat) (exponent : Int) : Binary64 :=
  if coefficient == 0 then zero negative
  else if readingLimit < exponent then infinity negative
  else if exponent + Text.digitCount coefficient < -(readingLimit : Int) then zero negative
  else if 0 ≤ exponent then ofRatio negative (coefficient * Nat.pow 10 exponent.toNat) 1
  else ofRatio negative coefficient (Nat.pow 10 (-exponent).toNat)

/-- The exponent part of a number, empty or `e` with an integer. -/
def exponent? : List Char → Option Int
  | [] => some 0
  | c :: cs => if c == 'e' || c == 'E' then Text.int? cs else none

/-- The number written as digits with an optional point and exponent. -/
def unsigned? (negative : Bool) (cs : List Char) : Option Binary64 :=
  let whole := cs.takeWhile Text.isDigit
  let rest := cs.dropWhile Text.isDigit
  let (fraction, rest) :=
    match rest with
    | '.' :: rest => (rest.takeWhile Text.isDigit, rest.dropWhile Text.isDigit)
    | rest => ([], rest)
  if whole.isEmpty && fraction.isEmpty then none
  else
    (exponent? rest).map fun exponent =>
      ofDecimal negative (Text.natOfDigits (whole ++ fraction)) (exponent - fraction.length)

/-- The number a text stands for. -/
def read? (cs : List Char) : Option Binary64 :=
  let (negative, cs) := Text.signed cs
  let word := String.ofList (cs.map Char.toLower)
  if word == "inf" || word == "infinity" then some (infinity negative)
  else if word == "nan" then some (nan negative)
  else unsigned? negative cs

end Binary64

end StepScript
