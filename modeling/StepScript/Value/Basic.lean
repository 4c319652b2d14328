import StepScript.Binary64.Arithmetic
import StepScript.Fault

/-!
# Values

What a running program computes with. Things that belong to the host (functions, modules, model
pipelines) appear in values only by name or handle.

A value has a kind, a truth value, and up to two numeric views: `int?` for what counts as an
integer and `float?` for what counts as a number. `items` lists what an iteration visits.
-/

set_option autoImplicit false

namespace StepScript

/-- Names one loaded model of the host. -/
structure ModelHandle where
  id : Nat
  task : String
deriving DecidableEq, Repr

/-- A value of a running program. Dictionary entries stand in the order of their insertion, the
    fields of an object in the order of their names. -/
inductive Value where
  | nothing
  | bool (b : Bool)
  | int (n : Int64)
  | float (x : Binary64)
  | text (s : String)
  | list (items : List Value)
  | dict (entries : List (Value × Value))
  /-- A function or class, found by its name when it is called. -/
  | callable (name : String)
  /-- An object made by a class of the host. -/
  | object (className : String) (fields : List (String × Value))
  | moduleRef (name : String)
  | modelRef (model : ModelHandle)

namespace Value

/-- `nothing` stands for the value of an unset result. -/
instance : Inhabited Value :=
  ⟨.nothing⟩

/-! ## Kind and truth -/

/-- The kind of a value. -/
def kind : Value → Kind
  | .nothing => .nothing
  | .bool _ => .bool
  | .int _ => .int
  | .float _ => .float
  | .text _ => .text
  | .list _ => .list
  | .dict _ => .dict
  | .callable _ => .callable
  | .object _ _ => .object
  | .moduleRef _ => .moduleRef
  | .modelRef _ => .modelRef

/-- A value that is not there: `None`, false, zero and everything empty are not truthy. -/
def truthy : Value → Bool
  | .nothing => false
  | .bool b => b
  | .int n => n != 0
  | .float x => !x.isZero
  | .text s => !s.isEmpty
  | .list items => !items.isEmpty
  | .dict entries => !entries.isEmpty
  | _ => true

/-- `nothing` and no other value. -/
def isNothing : Value → Bool
  | .nothing => true
  | _ => false

/-! ## Numeric views -/

/-- The value as an integer; truth values count as 0 and 1. -/
def int? : Value → Option Int64
  | .bool b => some (if b then 1 else 0)
  | .int n => some n
  | _ => none

/-- The value as a number, an integer rounded to the nearest one. -/
def float? : Value → Option Binary64
  | .bool b => some (Binary64.ofInt (if b then 1 else 0))
  | .int n => some (Binary64.ofInt n.toInt)
  | .float x => some x
  | _ => none

/-- What counts as an integer counts as a number. -/
theorem float?_of_int? {v : Value} {n : Int64} (h : v.int? = some n) :
    v.float? = some (Binary64.ofInt n.toInt) := by
  cases v with
  | bool b => cases b <;> simp_all [int?, float?] <;> subst h <;> rfl
  | int m => simp_all [int?, float?]
  | _ => simp [int?] at h

/-! ## Integers of 64 bits -/

/-- The integer has a 64-bit form. -/
def fits (n : Int) : Bool :=
  Int64.minValue.toInt ≤ n && n ≤ Int64.maxValue.toInt

/-- An exact integer result, or the fault that it does not fit. -/
def ofInt (n : Int) : Except Fault Value :=
  if fits n then .ok (.int (Int64.ofInt n)) else .error (.value .overflow)

/-- The nearest 64-bit integer. -/
def saturate (n : Int) : Int64 :=
  Int64.ofInt (max Int64.minValue.toInt (min n Int64.maxValue.toInt))

/-- A count as a value. -/
def ofNat (n : Nat) : Value :=
  .int (Int64.ofNat n)

/-! ## Items -/

/-- The characters of a text, each as a text. -/
def characters (s : String) : List Value :=
  s.toList.map fun c => .text (String.singleton c)

/-- What an iteration visits: the items of a list, the keys of a dictionary, the characters of a
    text. -/
def items : Value → Except Fault (List Value)
  | .list items => .ok items
  | .dict entries => .ok (entries.map Prod.fst)
  | .text s => .ok (characters s)
  | v => .error (.type (.notIterable v.kind))

end Value

end StepScript
