import StepScript.Binary64.Basic

/-!
# Floating-point arithmetic

Operations on `Binary64`. Sum, difference, product, quotient, square root and the functions of
the mathematical library are those of `Float` wherever the result is a number; around them stand
the rules for NaN, which `Float` does not distinguish: an operand that is NaN is the result, up to
its sign in a power, and an operation without a value gives the NaN whose sign bit is set.

Rounding to an integer and the remainder are computed exactly in units of 2^-1074.
-/

set_option autoImplicit false

namespace StepScript.Binary64

/-! ## Through `Float` -/

/-- The number as a `Float`. -/
def toFloat (x : Binary64) : Float :=
  Float.ofBits x.bits

/-- The result of an operation whose operands were not NaN. -/
def ofResult (f : Float) : Binary64 :=
  let x : Binary64 := ⟨f.toBits⟩
  if x.isNaN then nan true else x

/-- A function of one number, kept off NaN. -/
def apply (f : Float → Float) (x : Binary64) : Binary64 :=
  if x.isNaN then x else ofResult (f x.toFloat)

/-- A function of two numbers, kept off NaN; the first NaN is the result. -/
def apply₂ (f : Float → Float → Float) (x y : Binary64) : Binary64 :=
  if x.isNaN then x else if y.isNaN then y else ofResult (f x.toFloat y.toFloat)

/-- Sum. -/
def add (x y : Binary64) : Binary64 :=
  apply₂ Float.add x y

/-- Difference. -/
def sub (x y : Binary64) : Binary64 :=
  apply₂ Float.sub x y

/-- Product. -/
def mul (x y : Binary64) : Binary64 :=
  apply₂ Float.mul x y

/-- Quotient. -/
def div (x y : Binary64) : Binary64 :=
  apply₂ Float.div x y

/-- Square root. -/
def sqrt (x : Binary64) : Binary64 :=
  apply Float.sqrt x

/-- Exponential. -/
def exp (x : Binary64) : Binary64 :=
  apply Float.exp x

/-- Sine. -/
def sin (x : Binary64) : Binary64 :=
  apply Float.sin x

/-- Cosine. -/
def cos (x : Binary64) : Binary64 :=
  apply Float.cos x

/-- Natural logarithm. -/
def log (x : Binary64) : Binary64 :=
  apply Float.log x

/-! ## On the sign -/

/-- The number with its sign turned. -/
def neg (x : Binary64) : Binary64 :=
  ofOrdinal (!x.isNegative) x.ordinal

/-- The number without its sign. -/
def abs (x : Binary64) : Binary64 :=
  ofOrdinal false x.ordinal

/-! ## Integers -/

/-- The integer part of a finite number. -/
def truncate (x : Binary64) : Int :=
  x.units.tdiv unitsPerOne

/-- The largest integer not above a finite number. -/
def floor (x : Binary64) : Int :=
  x.units.fdiv unitsPerOne

/-- The smallest integer not below a finite number. -/
def ceil (x : Binary64) : Int :=
  -((-x.units).fdiv unitsPerOne)

/-- The integer nearest to a finite number, a half going to the even one. -/
def roundEven (x : Binary64) : Int :=
  let n : Nat := roundDiv x.magnitude unitsPerOne
  if x.isNegative then -(n : Int) else n

/-- The number is finite and an integer. -/
def isWhole (x : Binary64) : Bool :=
  x.isFinite && x.magnitude % unitsPerOne == 0

/-- A rounding taken back to a number: zero keeps the sign of what was rounded, and what is not
    finite stays as it is. -/
def rounded (round : Binary64 → Int) (x : Binary64) : Binary64 :=
  if x.isFinite then ofRatio x.isNegative (round x).natAbs 1 else x

/-- The exact remainder of a division rounded towards zero: it has the sign of `x`. -/
def remainder (x y : Binary64) : Binary64 :=
  if x.isNaN then x
  else if y.isNaN then y
  else if x.isInfinite || y.isZero then nan true
  else if y.isInfinite then x
  else ofUnits x.isNegative (x.magnitude % y.magnitude) 1

/-- The number is an odd integer. -/
def isOdd (x : Binary64) : Bool :=
  x.isWhole && x.magnitude / unitsPerOne % 2 == 1

/-! ## Powers -/

/-- Power: anything to the power zero and one to any power are one, NaN or not. A NaN to
    an odd power loses its sign. -/
def pow (x y : Binary64) : Binary64 :=
  if y.isZero || x.equals one then one
  else if x.isNaN && y.isOdd then x.abs
  else apply₂ Float.pow x y

/-! ## Powers of ten -/

/-- `base` to a natural power by repeated squaring, each product rounded: `result` is multiplied by
    the squares that the exponent's bits select. -/
def powerFrom (fuel : Nat) (result base : Binary64) (exponent : Nat) : Binary64 :=
  match fuel with
  | 0 => result
  | fuel + 1 =>
    if exponent == 0 then result
    else powerFrom fuel (if exponent % 2 == 1 then result.mul base else result) (base.mul base)
      (exponent / 2)

/-- Ten to an integer power, rounded at each product; a negative power is the reciprocal of the
    positive one. -/
def tenPower (exponent : Int) : Binary64 :=
  let n := exponent.natAbs
  let result := powerFrom (n + 1) one (ofInt 10) n
  if exponent < 0 then one.div result else result

end StepScript.Binary64
