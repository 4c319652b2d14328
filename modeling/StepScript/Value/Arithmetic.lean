import StepScript.Dict
import StepScript.Text.Repeat
import StepScript.Text.Search
import StepScript.Value.Order

/-!
# Operators on values

What the operators compute once their operands are values. Integer results are exact or a fault;
`//` rounds to the floor and `%` has the sign of the divisor; `/` always gives a number. The
logical operators choose one of their operands.
-/

set_option autoImplicit false

namespace StepScript.Value

/-! ## Unary operators -/

/-- A unary operator applied. -/
def unary (op : UnaryOp) (v : Value) : Except Fault Value :=
  match op, v with
  | .not, v => .ok (.bool !v.truthy)
  | .neg, .float x => .ok (.float x.neg)
  | .pos, .float x => .ok (.float x)
  | op, v =>
    match v.int? with
    | some n => if op == .neg then ofInt (-n.toInt) else .ok (.int n)
    | none => .error (.type (.signOperand op v.kind))

/-! ## Integers -/

/-- An integer power with an exponent that is not negative. Exponents beyond 32 bits are refused;
    of the others only the bases 0, 1 and -1 have a result when the exponent exceeds 63. -/
def intPower (a b : Int) : Except Fault Value :=
  if Int.pow 2 32 ≤ b then .error (.value .overflow)
  else if a == 0 || a == 1 || a == -1 then ofInt (a.pow (if b == 0 then 0 else 2 - b.toNat % 2))
  else if 64 ≤ b then .error (.value .overflow)
  else ofInt (a.pow b.toNat)

/-- The quotient of two integers fits, that of the least one by minus one apart. -/
def quotientFits (a b : Int64) : Bool :=
  a != Int64.minValue || b != -1

/-- The quotient rounded to the floor: one less than the quotient rounded to zero, when there is a
    remainder and the signs differ. -/
def floorQuotient (a b : Int64) : Int64 :=
  if a % b != 0 && decide (a < 0) != decide (b < 0) then a / b - 1 else a / b

/-- The remainder with the sign of the divisor: the divisor is added to a remainder with the other
    sign. -/
def floorRemainder (a b : Int64) : Int64 :=
  if a % b != 0 && decide (a % b < 0) != decide (b < 0) then a % b + b else a % b

/-- An arithmetic operator on integers. A remainder needs a quotient that fits. -/
def intArithmetic (op : BinaryOp) (a b : Int64) : Except Fault Value :=
  match op with
  | .add => ofInt (a.toInt + b.toInt)
  | .sub => ofInt (a.toInt - b.toInt)
  | .mul => ofInt (a.toInt * b.toInt)
  | .div =>
    if b == 0 then .error .divisionByZero
    else .ok (.float ((Binary64.ofInt a.toInt).div (Binary64.ofInt b.toInt)))
  | .floorDiv =>
    if b == 0 then .error .divisionByZero
    else if quotientFits a b then .ok (.int (floorQuotient a b))
    else .error (.value .overflow)
  | .mod =>
    if b == 0 then .error .divisionByZero
    else if quotientFits a b then .ok (.int (floorRemainder a b))
    else .error (.value .overflow)
  | .pow =>
    if 0 ≤ b then intPower a.toInt b.toInt
    else if a == 0 then .error .divisionByZero
    else .ok (.float ((Binary64.ofInt a.toInt).pow (Binary64.ofInt b.toInt)))
  | op => .error (.type (.operands op .int .int))

/-! ## Numbers -/

/-- The remainder with the sign of the divisor. -/
def floatMod (x y : Binary64) : Binary64 :=
  let r := x.remainder y
  let zero := Binary64.zero false
  if !r.isZero && r.less zero != y.less zero then r.add y else r

/-- An arithmetic operator on numbers. -/
def floatArithmetic (op : BinaryOp) (x y : Binary64) : Except Fault Value :=
  match op with
  | .add => .ok (.float (x.add y))
  | .sub => .ok (.float (x.sub y))
  | .mul => .ok (.float (x.mul y))
  | .div => if y.isZero then .error .divisionByZero else .ok (.float (x.div y))
  | .floorDiv =>
    if y.isZero then .error .divisionByZero
    else .ok (.float ((x.div y).rounded Binary64.floor))
  | .mod => if y.isZero then .error .divisionByZero else .ok (.float (floatMod x y))
  | .pow =>
    if x.isZero && y.less (Binary64.zero false) then .error .divisionByZero
    else .ok (.float (x.pow y))
  | op => .error (.type (.operands op .float .float))

/-- An arithmetic operator: on integers if both operands are, else on numbers. -/
def arithmetic (op : BinaryOp) (a b : Value) : Except Fault Value :=
  match a.int?, b.int? with
  | some m, some n => intArithmetic op m n
  | _, _ =>
    match a.float?, b.float? with
    | some x, some y => floatArithmetic op x y
    | _, _ => .error (.type (.operands op a.kind b.kind))

/-! ## Sequences -/

/-- The greatest length of a repeated sequence, texts counted in bytes. -/
def maxRepeated : Nat :=
  Nat.pow 2 28

/-- How often a sequence of the given length is repeated. -/
def repetitions (length : Nat) (n : Int) : Except Fault Nat :=
  if length == 0 then .ok 0
  else if length * n.toNat ≤ maxRepeated then .ok n.toNat
  else .error (.value .repetition)

/-- A text repeated. -/
def repeatText (s : String) (n : Int) : Except Fault Value :=
  (repetitions s.utf8ByteSize n).map fun k => .text (Text.repeated s k)

/-- A list repeated. -/
def repeatList (items : List Value) (n : Int) : Except Fault Value :=
  (repetitions items.length n).map fun k => .list (List.replicate k items).flatten

/-- A product: a sequence and an integer repeat the sequence. -/
def multiply (a b : Value) : Except Fault Value :=
  match a, b, a.int?, b.int? with
  | .text s, _, _, some n => repeatText s n.toInt
  | _, .text s, some n, _ => repeatText s n.toInt
  | .list items, _, _, some n => repeatList items n.toInt
  | _, .list items, some n, _ => repeatList items n.toInt
  | _, _, _, _ => arithmetic .mul a b

/-- The item is in the container: an item of a list, a key of a dictionary, a part of a text. -/
def contains (container item : Value) : Except Fault Bool :=
  match container, item with
  | .list items, _ => .ok (items.any fun x => x.looseEq item)
  | .dict entries, _ => .ok (Dict.contains entries item)
  | .text s, .text part => .ok (Text.occursIn part.toList s.toList)
  | .text _, item => .error (.type (.textMember item.kind))
  | container, _ => .error (.type (.notContainer container.kind))

/-! ## Binary operators -/

/-- The answer of an ordering operator. -/
def holdsFor (op : BinaryOp) (o : Ordering) : Bool :=
  match op with
  | .lt => o == .lt
  | .le => o != .gt
  | .gt => o == .gt
  | _ => o != .lt

/-- A comparison by order. -/
def ordered (op : BinaryOp) (a b : Value) : Except Fault Value :=
  match a.compare? b with
  | some o => .ok (.bool (holdsFor op o))
  | none => .error (.type (.unordered op a.kind b.kind))

/-- A binary operator applied to two values. -/
def binary (op : BinaryOp) (a b : Value) : Except Fault Value :=
  match op with
  | .and => .ok (if a.truthy then b else a)
  | .or => .ok (if a.truthy then a else b)
  | .eq => .ok (.bool (a.looseEq b))
  | .ne => .ok (.bool !(a.looseEq b))
  | .lt => ordered .lt a b
  | .le => ordered .le a b
  | .gt => ordered .gt a b
  | .ge => ordered .ge a b
  | .isIn => (contains b a).map .bool
  | .notIn => (contains b a).map fun hit => .bool !hit
  | .add =>
    match a, b with
    | .text s, .text t => .ok (.text (s ++ t))
    | .list xs, .list ys => .ok (.list (xs ++ ys))
    | a, b => arithmetic .add a b
  | .mul => multiply a b
  | op => arithmetic op a b

end StepScript.Value
