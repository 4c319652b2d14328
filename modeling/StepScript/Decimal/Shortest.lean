import StepScript.Binary64.Basic
import StepScript.Text.Digits

/-!
# The shortest decimal of a number

Among the decimals that read back as a given number, the one with the fewest digits, and of
those the one nearest to the number. The search is exact: for 1, 2, … 17 digits it looks at the
two neighbours of the number on the grid of decimals with that many digits and takes the first
grid that has one inside the interval of reals rounding to the number.
-/

set_option autoImplicit false

namespace StepScript

/-- The decimal `coefficient · 10^exponent`. -/
structure Decimal where
  coefficient : Nat
  exponent : Int
deriving DecidableEq, Repr

/-- Which of two equally near decimals is taken. -/
inductive Tie where
  | up
  | even
deriving DecidableEq, Repr

namespace Decimal

/-! ## Scaling -/

/-- A ratio of natural numbers. -/
structure Ratio where
  num : Nat
  den : Nat

/-- The ratio divided by `10^exponent`. -/
def Ratio.scaled (r : Ratio) (exponent : Int) : Ratio :=
  if 0 ≤ exponent then ⟨r.num, r.den * Nat.pow 10 exponent.toNat⟩
  else ⟨r.num * Nat.pow 10 (-exponent).toNat, r.den⟩

/-- The power of ten just above a positive ratio: `10^(p-1) ≤ r < 10^p`. -/
def Ratio.leadingPower (r : Ratio) : Int :=
  if r.den ≤ r.num then Text.digitCount (r.num / r.den)
  else 1 - Text.digitCount ((r.den - 1) / r.num)

/-! ## The search -/

/-- The reals that round to a positive number, in quarters of a unit of 2^-1074: its value, the two
    ends of the interval, and whether the ends belong to it. -/
structure Interval where
  value : Nat
  low : Nat
  high : Nat
  closed : Bool

/-- The interval of a positive finite number. Below the least significand of a scale the numbers
    lie twice as close. -/
def Interval.of (ordinal : Nat) : Interval :=
  let scale := Binary64.scaleOf ordinal
  let significand := Binary64.significandOf ordinal
  let value := 4 * significand * Nat.pow 2 scale
  let gap := 2 * Nat.pow 2 scale
  let below := if significand == Nat.pow 2 52 && scale != 0 then gap / 2 else gap
  ⟨value, value - below, value + gap, significand % 2 == 0⟩

/-- The decimal `d · 10^exponent` lies in the interval. -/
def Interval.holds (i : Interval) (exponent : Int) (d : Nat) : Bool :=
  let point := (Ratio.mk (d * (4 * Binary64.unitsPerOne)) 1).scaled (-exponent)
  let above := point.num - i.low * point.den
  let below := i.high * point.den - point.num
  if i.closed then i.low * point.den ≤ point.num && point.num ≤ i.high * point.den
  else 0 < above && 0 < below

/-- The decimal of the grid `10^exponent` that lies in the interval, the nearer one of two. -/
def Interval.onGrid? (tie : Tie) (i : Interval) (exponent : Int) : Option Nat :=
  let r := (Ratio.mk i.value (4 * Binary64.unitsPerOne)).scaled exponent
  let floor := r.num / r.den
  let twice := 2 * (r.num % r.den)
  match i.holds exponent floor, i.holds exponent (floor + 1) with
  | false, false => none
  | true, false => some floor
  | false, true => some (floor + 1)
  | true, true =>
    if twice < r.den then some floor
    else if r.den < twice then some (floor + 1)
    else
      match tie with
      | .up => some (floor + 1)
      | .even => some (floor + floor % 2)

/-- The first grid with a hit, from `digits` digits on; 17 digits always suffice. -/
def Interval.search (tie : Tie) (i : Interval) (power : Int) : (tries : Nat) → (digits : Nat) →
    Decimal
  | 0, digits => ⟨i.value, power - digits⟩
  | tries + 1, digits =>
    match i.onGrid? tie (power - digits) with
    | some d => ⟨d, power - digits⟩
    | none => i.search tie power tries (digits + 1)

/-- The decimal with the zeros at its end moved into the exponent; `fuel` bounds their number. -/
def stripZeros : (fuel : Nat) → Decimal → Decimal
  | 0, d => d
  | fuel + 1, d =>
    if d.coefficient != 0 && d.coefficient % 10 == 0 then
      stripZeros fuel ⟨d.coefficient / 10, d.exponent + 1⟩
    else d

/-- The shortest decimal that reads back as a positive finite number. -/
def shortest (tie : Tie) (x : Binary64) : Decimal :=
  let i := Interval.of x.ordinal
  let power := (Ratio.mk i.value (4 * Binary64.unitsPerOne)).leadingPower
  stripZeros 18 (i.search tie power 17 1)

end Decimal

end StepScript
