import StepScript.Decimal.Text
import StepScript.Env

/-!
# The modules `math` and `statistics`

Functions of numbers, which depend on their arguments alone. They fault with a `call` that names the
function.
-/

set_option autoImplicit false

namespace StepScript.Host

variable {σ : Type}

/-- A function of its arguments alone. -/
abbrev Calculation :=
  List Value → Except HostFault Value

/-! ## Arguments -/

/-- The argument at a position as a number. -/
def numberArg (name : String) (args : List Value) (i : Nat) : Except HostFault Binary64 :=
  match args[i]? with
  | none => .error (.call name ("missing argument " ++ Text.natText (i + 1)))
  | some v =>
    match v.float? with
    | some x => .ok x
    | none => .error (.call name ("must be a real number, not " ++ v.kind.name))

/-- The fault of an argument that the function has no value for. -/
def domainFault (name : String) : HostFault :=
  .call name "math domain error"

/-! ## Functions of one number -/

/-- A function of one number; a result that is no number is a fault. -/
def unary (name : String) (f : Binary64 → Binary64) : Calculation := fun args => do
  let y := f (← numberArg name args 0)
  if y.isNaN then .error (domainFault name) else return .float y

/-- A rounding to an integer, cut to the 64-bit range. -/
def rounding (name : String) (f : Binary64 → Int) : Calculation := fun args =>
  match args with
  | .int n :: _ => .ok (.int n)
  | args => do
    let x ← numberArg name args 0
    if x.isFinite then return .int (Value.saturate (f x))
    else .error (.call name "cannot convert to integer")

/-! ## Powers and logarithms -/

/-- A power. -/
def power : Calculation := fun args => do
  let x ← numberArg "pow" args 0
  let y ← numberArg "pow" args 1
  return .float (x.pow y)

/-- A logarithm, natural or to a base. -/
def logarithm : Calculation := fun args => do
  let x ← numberArg "log" args 0
  match x.compare? (Binary64.zero false) with
  | some .lt | some .eq => .error (domainFault "log")
  | _ =>
    if 1 < args.length then
      let y ← numberArg "log" args 1
      return .float (x.log.div y.log)
    else return .float x.log

/-- The module `math`. -/
def mathModule : Module σ where
  name := "math"
  functions := .ofList [
    ("sqrt", .pure (unary "sqrt" Binary64.sqrt)),
    ("exp", .pure (unary "exp" Binary64.exp)),
    ("sin", .pure (unary "sin" Binary64.sin)),
    ("cos", .pure (unary "cos" Binary64.cos)),
    ("fabs", .pure (unary "fabs" Binary64.abs)),
    ("floor", .pure (rounding "floor" Binary64.floor)),
    ("ceil", .pure (rounding "ceil" Binary64.ceil)),
    ("pow", .pure power),
    ("log", .pure logarithm)]
  constants := .ofList [
    ("pi", .float ⟨0x400921FB54442D18⟩),
    ("e", .float ⟨0x4005BF0A8B145769⟩)]

/-! ## Statistics -/

/-- The numbers of a list of values, or the fault of the first that is none. -/
def numbers (name : String) : List Value → Except HostFault (List Binary64)
  | [] => .ok []
  | v :: vs =>
    match v.float? with
    | some x => (numbers name vs).map (x :: ·)
    | none => .error (.call name ("cannot use " ++ v.kind.name ++ " as a number"))

/-- The data of a statistic: at least one number. -/
def dataPoints (name : String) (args : List Value) : Except HostFault (List Binary64) :=
  match args with
  | [] => .error (.call name "missing data argument")
  | v :: _ =>
    match v.items with
    -- the one thing that can be wrong with items
    | .error _ => .error (.call name (TypeFault.notIterable v.kind).message)
    | .ok [] => .error (.call name (name ++ " requires at least one data point"))
    | .ok items => numbers name items

/-- The mean: the sum from left to right, starting at minus zero, over the count. -/
def mean : Calculation := fun args => do
  let data ← dataPoints "mean" args
  let total := data.foldl Binary64.add (Binary64.zero true)
  return .float (total.div (Binary64.ofInt data.length))

/-- The middle of the numbers in the order of all bit patterns, or the mean of the two middle
    ones. -/
def median : Calculation := fun args => do
  let data := (← dataPoints "median" args).mergeSort fun x y => x.totalKey ≤ y.totalKey
  let item (i : Nat) : Binary64 := data[i]?.getD (Binary64.zero false)
  let middle := data.length / 2
  if data.length % 2 == 1 then return .float (item middle)
  else return .float (((item (middle - 1)).add (item middle)).div (Binary64.ofInt 2))

/-- The module `statistics`. -/
def statisticsModule : Module σ where
  name := "statistics"
  functions := .ofList [("mean", .pure mean), ("median", .pure median)]

end StepScript.Host
