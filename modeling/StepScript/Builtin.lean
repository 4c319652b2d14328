import StepScript.Value.Display
import StepScript.Value.Order
import StepScript.Text.Blank

/-!
# Built-in functions

The functions every expression can call without a host.
-/

set_option autoImplicit false

namespace StepScript

/-- The built-in functions. -/
inductive Builtin where
  | len
  | str
  | int
  | float
  | bool
  | abs
  | min
  | max
  | sum
  | round
  | range
  | sorted
  | list
deriving DecidableEq, Repr

namespace Builtin

/-! ## Names -/

/-- The name of a built-in function. -/
def name : Builtin → String
  | .len => "len"
  | .str => "str"
  | .int => "int"
  | .float => "float"
  | .bool => "bool"
  | .abs => "abs"
  | .min => "min"
  | .max => "max"
  | .sum => "sum"
  | .round => "round"
  | .range => "range"
  | .sorted => "sorted"
  | .list => "list"

/-- All built-in functions. -/
def all : List Builtin :=
  [.len, .str, .int, .float, .bool, .abs, .min, .max, .sum, .round, .range, .sorted, .list]

/-- The built-in function of a name. -/
def ofName? (name : String) : Option Builtin :=
  all.find? fun b => b.name == name

/-- No built-in function is missing from `all`. -/
theorem mem_all (b : Builtin) : b ∈ all := by
  cases b <;> simp [all]

/-- A built-in function is found by its name. -/
theorem ofName?_name (b : Builtin) : ofName? b.name = some b := by
  cases b <;> decide

/-! ## Arguments -/

/-- The only argument. -/
def only (b : Builtin) : List Value → Except Fault Value
  | [v] => .ok v
  | args => .error (.type (.oneArgument b.name args.length))

/-! ## Conversions -/

/-- The length of a text in characters, of a list, of a dictionary. -/
def length (v : Value) : Except Fault Value :=
  match v with
  | .text s => .ok (.ofNat s.length)
  | .list items => .ok (.ofNat items.length)
  | .dict entries => .ok (.ofNat entries.length)
  | v => .error (.type (.noLength v.kind))

/-- A value made an integer; a number loses its fraction and is cut to the 64-bit range. -/
def toInt (v : Value) : Except Fault Value :=
  match v with
  | .int n => .ok (.int n)
  | .bool b => .ok (.int (if b then 1 else 0))
  | .float x =>
    if x.isFinite then .ok (.int (Value.saturate x.truncate))
    else .error (.value (.notFinite x.display))
  | .text s =>
    match Text.int? (Text.trim s.toList) with
    | some n =>
      if Value.fits n then .ok (.int (Int64.ofInt n)) else .error (.value (.badInteger v.repr))
    | none => .error (.value (.badInteger v.repr))
  | v => .error (.type (.conversion "int" v.kind))

/-- A value made a number. -/
def toFloat (v : Value) : Except Fault Value :=
  match v with
  | .text s =>
    match Binary64.read? (Text.trim s.toList) with
    | some x => .ok (.float x)
    | none => .error (.value (.badNumber v.repr))
  | v =>
    match v.float? with
    | some x => .ok (.float x)
    | none => .error (.type (.conversion "float" v.kind))

/-- The absolute value. -/
def absolute (v : Value) : Except Fault Value :=
  match v with
  | .int n => Value.ofInt n.toInt.natAbs
  | .bool b => .ok (.int (if b then 1 else 0))
  | .float x => .ok (.float x.abs)
  | v => .error (.type (.absOperand v.kind))

/-! ## Folds -/

/-- The first of the items that no other one passes, `wanted` being the side it lies on. -/
def extremeFrom (wanted : Ordering) (best : Value) : List Value → Except Fault Value
  | [] => .ok best
  | v :: vs =>
    match v.compare? best with
    | some o => extremeFrom wanted (if o == wanted then v else best) vs
    | none => .error (.type (.unordered .lt v.kind best.kind))

/-- The least or greatest of the items of one argument, or of several arguments. -/
def extreme (b : Builtin) (wanted : Ordering) (args : List Value) : Except Fault Value :=
  let items :=
    match args with
    | [v] => v.items
    | vs => .ok vs
  match items with
  | .error fault => .error fault
  | .ok [] => .error (.value (.emptySequence b.name))
  | .ok (v :: vs) => extremeFrom wanted v vs

/-- The sum of two values that count as numbers. -/
def addNumbers (a b : Value) : Except Fault Value :=
  match a.int?, b.int? with
  | some m, some n => Value.ofInt (m.toInt + n.toInt)
  | _, _ =>
    match a.float?, b.float? with
    | some x, some y => .ok (.float (x.add y))
    | _, _ => .error (.type (.operands .add a.kind b.kind))

/-- The sum of the items, added to a start. -/
def total (args : List Value) : Except Fault Value :=
  match args with
  | [v] => do (← v.items).foldlM addNumbers (.int 0)
  | [v, start] => do (← v.items).foldlM addNumbers start
  | args => .error (.type (.oneOrTwoArguments "sum" args.length))

/-! ## Rounding -/

/-- The integer nearest to a number, a half going to the even one. -/
def roundToInt (x : Binary64) : Except Fault Value :=
  if x.isNaN then .error (.value (.notFinite "NaN"))
  else if x.isInfinite then .error (.value (.notFinite "infinity"))
  else Value.ofInt x.roundEven

/-- The most decimal places rounding looks at, in either direction. -/
def maxPlaces : Int :=
  308

/-- A number rounded to decimal places, a half going to the even neighbour; more places than the
    number carries leave it as it is. -/
def roundToPlaces (x : Binary64) (places : Int) : Binary64 :=
  let scale := Binary64.tenPower (Max.max (-maxPlaces) (Min.min places maxPlaces))
  let scaled := x.mul scale
  if !x.isFinite || !scaled.isFinite || scale.isZero then x
  else (scaled.rounded Binary64.roundEven).div scale

/-- A value rounded; integers are round already. -/
def roundValue (v : Value) (places : Option Int64) : Except Fault Value :=
  match v, v.float?, places with
  | .int n, _, _ => .ok (.int n)
  | v, none, _ => .error (.type (.roundOperand v.kind))
  | _, some x, none => roundToInt x
  | _, some x, some places => .ok (.float (roundToPlaces x places.toInt))

/-! ## Ranges -/

/-- All arguments as integers, or the fault of the first that is none. -/
def integers : List Value → Except Fault (List Int64)
  | [] => .ok []
  | v :: vs =>
    match v.int? with
    | some n => (integers vs).map (n :: ·)
    | none => .error (.type (.notInteger v.kind))

/-- A number lies before the end of a range, as seen in the direction of the step. -/
def beforeStop (stop step n : Int64) : Bool :=
  (0 < step && n < stop) || (step < 0 && stop < n)

/-- The number one step further, if it is one of 64 bits. -/
def next? (step n : Int64) : Option Int64 :=
  let next := n.toInt + step.toInt
  if Value.fits next then some (Int64.ofInt next) else none

theorem toInt_of_next? {step n next : Int64} (h : next? step n = some next) :
    next.toInt = n.toInt + step.toInt := by
  simp only [next?, Value.fits, Int64.toInt_minValue, Int64.toInt_maxValue, Bool.and_eq_true,
    decide_eq_true_eq, Option.ite_none_right_eq_some, Option.some.injEq] at h
  obtain ⟨hfits, rfl⟩ := h
  exact Int64.toInt_ofInt_of_le (by omega) (by omega)

/-- How far the end of a range is ahead of a number. -/
def ahead (stop step n : Int64) : Nat :=
  (if 0 < step then stop.toInt - n.toInt else n.toInt - stop.toInt).toNat

/-- Every step brings the end of the range nearer. -/
theorem ahead_next_lt {stop step n next : Int64} (hbefore : beforeStop stop step n = true)
    (hnext : next? step n = some next) : ahead stop step next < ahead stop step n := by
  have hsum := toInt_of_next? hnext
  simp only [beforeStop, Bool.or_eq_true, Bool.and_eq_true, decide_eq_true_eq,
    Int64.lt_iff_toInt_lt, Int64.toInt_zero] at hbefore
  unfold ahead
  split
  all_goals
    simp only [Int64.lt_iff_toInt_lt, Int64.toInt_zero] at *
    omega

/-- The members of a range from a number on, put behind those found before it. The range ends where
    its end is reached, or where there is no further number of 64 bits. -/
def rangeFrom (stop step n : Int64) (found : Array Value) : Array Value :=
  if _ : beforeStop stop step n = true then
    match _ : next? step n with
    | some next => rangeFrom stop step next (found.push (.int n))
    | none => found.push (.int n)
  else found
termination_by ahead stop step n
decreasing_by exact ahead_next_lt ‹_› ‹_›

/-- The members of a range: `start`, `start + step`, … as long as they lie before `stop`. -/
def rangeItems (start stop step : Int64) : List Value :=
  (rangeFrom stop step start #[]).toList

/-- A range of one to three integers. -/
def rangeOf (bounds : List Int64) : Except Fault Value :=
  match bounds with
  | [stop] => .ok (.list (rangeItems 0 stop 1))
  | [start, stop] => .ok (.list (rangeItems start stop 1))
  | [start, stop, step] =>
    if step == 0 then .error (.value .zeroStep) else .ok (.list (rangeItems start stop step))
  | bounds => .error (.type (.rangeArguments bounds.length))

/-! ## Calls -/

/-- A built-in function called. -/
def call (b : Builtin) (args : List Value) : Except Fault Value :=
  match b with
  | .len => do length (← b.only args)
  | .str => .ok (.text ((args.head?.map Value.display).getD ""))
  | .int => ((args.head?.map toInt).getD (.ok (.int 0)))
  | .float => ((args.head?.map toFloat).getD (.ok (.float (Binary64.zero false))))
  | .bool => .ok (.bool ((args.head?.map Value.truthy).getD false))
  | .abs => do absolute (← b.only args)
  | .min => extreme b .lt args
  | .max => extreme b .gt args
  | .sum => total args
  | .round =>
    match args with
    | [v] => roundValue v none
    | [v, places] => roundValue v places.int?
    | args => .error (.type (.oneOrTwoArguments "round" args.length))
  | .range => do rangeOf (← integers args)
  | .sorted => do return .list (← Value.sort (← (← b.only args).items))
  | .list =>
    match args with
    | [] => .ok (.list [])
    | v :: _ => v.items.map .list

end Builtin

end StepScript
