import StepScript.Value.Basic

/-!
# Equality of values

Two equalities. `looseEq` is the one programs see: whatever counts as a number compares
numerically, lists item by item, dictionaries as mappings. `strictEq` keeps kinds apart and is
what remains inside objects. In both a dictionary is a mapping: the order of entries does not
matter, and a key is found by `looseEq`.

A NaN equals nothing in either sense.
-/

set_option autoImplicit false

namespace StepScript.Value

/-! ## Values without parts -/

/-- Strict equality of values that hold no other values. -/
def plainStrictEq : Value → Value → Bool
  | .nothing, .nothing => true
  | .bool a, .bool b => a == b
  | .int a, .int b => a == b
  | .float x, .float y => x.equals y
  | .text a, .text b => a == b
  | .callable a, .callable b => a == b
  | .moduleRef a, .moduleRef b => a == b
  | .modelRef a, .modelRef b => a == b
  | _, _ => false

/-- Loose equality of values that hold no other values: numeric where both count as numbers. -/
def plainLooseEq (a b : Value) : Bool :=
  match a.float?, b.float? with
  | some x, some y => x.equals y
  | _, _ => plainStrictEq a b

/-! ## All values -/

mutual

/-- Equality as programs see it. -/
def looseEq : Value → Value → Bool
  | .list xs, .list ys => looseEqList xs ys
  | .dict es, .dict fs => es.length == fs.length && looseEqEntries es fs
  | .object c es, .object d fs => c == d && strictEqFields es fs
  | a, b => plainLooseEq a b
termination_by structural a => a

/-- Lists of equal length whose items are loosely equal. -/
def looseEqList : List Value → List Value → Bool
  | [], [] => true
  | x :: xs, y :: ys => looseEq x y && looseEqList xs ys
  | _, _ => false
termination_by structural xs => xs

/-- Every entry has a partner in `fs`. -/
def looseEqEntries : List (Value × Value) → (fs : List (Value × Value)) → Bool
  | [], _ => true
  | e :: es, fs => looseEqEntry e fs && looseEqEntries es fs
termination_by structural es => es

/-- The entry of `fs` with the same key holds a loosely equal value. -/
def looseEqEntry : Value × Value → (fs : List (Value × Value)) → Bool
  | (k, v), fs =>
    match fs.find? fun f => looseEq k f.1 with
    | some f => looseEq v f.2
    | none => false
termination_by structural e => e

/-- Equality that keeps kinds apart. -/
def strictEq : Value → Value → Bool
  | .list xs, .list ys => strictEqList xs ys
  | .dict es, .dict fs => es.length == fs.length && strictEqEntries es fs
  | .object c es, .object d fs => c == d && strictEqFields es fs
  | a, b => plainStrictEq a b
termination_by structural a => a

/-- Lists of equal length whose items are strictly equal. -/
def strictEqList : List Value → List Value → Bool
  | [], [] => true
  | x :: xs, y :: ys => strictEq x y && strictEqList xs ys
  | _, _ => false
termination_by structural xs => xs

/-- Every entry has a partner in `fs`. -/
def strictEqEntries : List (Value × Value) → (fs : List (Value × Value)) → Bool
  | [], _ => true
  | e :: es, fs => strictEqEntry e fs && strictEqEntries es fs
termination_by structural es => es

/-- The entry of `fs` with the same key holds a strictly equal value. -/
def strictEqEntry : Value × Value → (fs : List (Value × Value)) → Bool
  | (k, v), fs =>
    match fs.find? fun f => looseEq k f.1 with
    | some f => strictEq v f.2
    | none => false
termination_by structural e => e

/-- The same fields with strictly equal values. -/
def strictEqFields : List (String × Value) → List (String × Value) → Bool
  | [], [] => true
  | e :: es, f :: fs => strictEqField e f && strictEqFields es fs
  | _, _ => false
termination_by structural es => es

/-- The same field name with a strictly equal value. -/
def strictEqField : String × Value → String × Value → Bool
  | (k, v), f => k == f.1 && strictEq v f.2
termination_by structural e => e

end

end StepScript.Value
