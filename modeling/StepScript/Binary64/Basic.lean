/-!
# Binary floating-point numbers

A double-precision number as its 64 interchange bits, so that the sign of a NaN is part of the
value, and the exact reading of those bits.

Every finite number is an integer multiple of the smallest one, 2^-1074. That integer is the view
all exact work goes through: `units` orders, rounds and prints, and `ofUnits` is the way back,
rounding a ratio to the nearest number with ties to the even one.

* `ordinal` counts magnitudes from zero upwards, infinity after the largest finite one; signed by
  `key` it gives the numeric order, in which the two zeros coincide.
* `totalKey` separates the zeros and puts the NaNs at the two ends.
-/

set_option autoImplicit false

namespace StepScript

/-- A double-precision number, given by its interchange bits. -/
structure Binary64 where
  bits : UInt64
deriving DecidableEq, Repr

namespace Binary64

/-! ## Fields -/

/-- The sign bit is set. -/
def isNegative (x : Binary64) : Bool :=
  Nat.pow 2 63 ≤ x.bits.toNat

/-- The bits below the sign, read as a number: how many magnitudes are smaller. -/
def ordinal (x : Binary64) : Nat :=
  x.bits.toNat % Nat.pow 2 63

/-- The ordinal of infinity. -/
def infinityOrdinal : Nat :=
  2047 * Nat.pow 2 52

/-- Not a number. -/
def isNaN (x : Binary64) : Bool :=
  infinityOrdinal < x.ordinal

/-- One of the two infinities. -/
def isInfinite (x : Binary64) : Bool :=
  x.ordinal == infinityOrdinal

/-- Neither an infinity nor a NaN. -/
def isFinite (x : Binary64) : Bool :=
  x.ordinal < infinityOrdinal

/-- The number with the given sign and ordinal. -/
def ofOrdinal (negative : Bool) (ordinal : Nat) : Binary64 :=
  ⟨UInt64.ofNat (ordinal + if negative then Nat.pow 2 63 else 0)⟩

/-- Zero, of either sign. -/
def zero (negative : Bool) : Binary64 :=
  ofOrdinal negative 0

/-- Infinity, of either sign. -/
def infinity (negative : Bool) : Binary64 :=
  ofOrdinal negative infinityOrdinal

/-- A quiet NaN, of either sign. -/
def nan (negative : Bool) : Binary64 :=
  ofOrdinal negative (infinityOrdinal + Nat.pow 2 51)

/-! ## Exact value -/

/-- How many units of 2^-1074 make one. -/
def unitsPerOne : Nat :=
  Nat.pow 2 1074

/-- The power of two by which the significand of an ordinal counts. -/
def scaleOf (ordinal : Nat) : Nat :=
  ordinal / Nat.pow 2 52 - 1

/-- The significand of an ordinal: below 2^53, and at least 2^52 when the scale is not zero. -/
def significandOf (ordinal : Nat) : Nat :=
  ordinal - scaleOf ordinal * Nat.pow 2 52

/-- The size of a finite number in units of 2^-1074. -/
def magnitude (x : Binary64) : Nat :=
  significandOf x.ordinal * Nat.pow 2 (scaleOf x.ordinal)

/-- A finite number in units of 2^-1074. -/
def units (x : Binary64) : Int :=
  if x.isNegative then -(x.magnitude : Int) else x.magnitude

/-! ## Rounding to a number -/

/-- `num / den` rounded to the nearest integer, a half to the even one. -/
def roundDiv (num den : Nat) : Nat :=
  let quotient := num / den
  let twice := 2 * (num % den)
  if twice < den then quotient
  else if den < twice then quotient + 1
  else quotient + quotient % 2

/-- The ordinal of the number nearest to `num / den` units, a tie going to the even significand;
    what is too large is infinity. -/
def nearestOrdinal (num den : Nat) : Nat :=
  let scale := Nat.log2 (num / den) - 52
  min (scale * Nat.pow 2 52 + roundDiv num (den * Nat.pow 2 scale)) infinityOrdinal

/-- The number nearest to `num / den` units of 2^-1074. -/
def ofUnits (negative : Bool) (num den : Nat) : Binary64 :=
  ofOrdinal negative (nearestOrdinal num den)

/-- The number nearest to `num / den`. -/
def ofRatio (negative : Bool) (num den : Nat) : Binary64 :=
  ofUnits negative (num * unitsPerOne) den

/-- The number nearest to an integer. -/
def ofInt (n : Int) : Binary64 :=
  ofRatio (n < 0) n.natAbs 1

/-- One. -/
def one : Binary64 :=
  ofInt 1

/-! ## Order -/

/-- The ordinal with its sign: the numeric order of numbers that are not NaN. -/
def key (x : Binary64) : Int :=
  if x.isNegative then -(x.ordinal : Int) else x.ordinal

/-- Numeric comparison; a NaN compares with nothing. -/
def compare? (x y : Binary64) : Option Ordering :=
  if x.isNaN || y.isNaN then none else some (compare x.key y.key)

/-- Numeric equality: the zeros are equal and a NaN equals nothing. -/
def equals (x y : Binary64) : Bool :=
  x.compare? y == some .eq

/-- `x` is numerically below `y`. -/
def less (x y : Binary64) : Bool :=
  x.compare? y == some .lt

/-- The number is zero, of either sign. -/
def isZero (x : Binary64) : Bool :=
  x.ordinal == 0

/-- Position in the order of all bit patterns: negative NaNs, negative numbers from minus infinity
    to minus zero, zero and the positive numbers, positive NaNs. -/
def totalKey (x : Binary64) : Int :=
  if x.isNegative then -(x.ordinal : Int) - 1 else x.ordinal

/-- Comparison in the order of all bit patterns. -/
def totalCompare (x y : Binary64) : Ordering :=
  compare x.totalKey y.totalKey

end Binary64

end StepScript
