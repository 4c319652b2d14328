import StepScript.Text.Search
import StepScript.Value.Equality

/-!
# Order of values

Two orders. `compare?` is what `<` and its relatives use: numbers, texts, and lists item by item,
everything else being incomparable. `totalCompare` is what sorting uses: it answers for every
pair, exactly where `compare?` rounds integers, and says besides whether the pair was orderable.

`sort` is a stable insertion sort. A pair that is not orderable fails the sort, and the fault
names the first one met.
-/

set_option autoImplicit false

namespace StepScript.Value

/-! ## Comparison of operands -/

/-- Comparison of values that hold no other values. -/
def plainCompare? (a b : Value) : Option Ordering :=
  match a, b with
  | .text s, .text t => some (Text.orderOf s t)
  | a, b =>
    match a.float?, b.float? with
    | some x, some y => x.compare? y
    | _, _ => none

mutual

/-- Comparison as the operators see it; `none` when the pair has no order. -/
def compare? : Value → Value → Option Ordering
  | .list xs, .list ys => compareList? xs ys
  | a, b => plainCompare? a b
termination_by structural a => a

/-- Comparison item by item, a list before those it begins. -/
def compareList? : List Value → List Value → Option Ordering
  | [], [] => some .eq
  | [], _ :: _ => some .lt
  | _ :: _, [] => some .gt
  | x :: xs, y :: ys =>
    match compare? x y with
    | some .eq => compareList? xs ys
    | o => o
termination_by structural xs => xs

end

/-! ## Comparison for sorting -/

/-- Where a kind stands among the others: numbers, texts, lists, everything else. -/
def rank : Value → Nat
  | .bool _ | .int _ | .float _ => 0
  | .text _ => 1
  | .list _ => 2
  | _ => 3

/-- 2^63, the first number above the integers of 64 bits; turned negative, it is the least of them.
    -/
def integerLimit : Binary64 :=
  Binary64.ofInt (Int.pow 2 63)

/-- Exact comparison of an integer with a number; NaN comes last, or first when negative. A number
    within the range of integers is compared by its integer part, and then by what is left of it. -/
def compareIntFloat (n : Int64) (x : Binary64) : Ordering :=
  if x.isNaN then
    if x.isNegative then .gt else .lt
  else if !x.less integerLimit then .lt
  else if x.less integerLimit.neg then .gt
  else
    let whole := x.truncate
    match compare n.toInt whole with
    | .eq => compare 0 (x.units - whole * Binary64.unitsPerOne)
    | unequal => unequal

/-- Exact comparison of numbers; the zeros are equal, NaNs come last, or first when negative. -/
def compareNumbers (a b : Value) : Ordering :=
  match a.int?, b.int?, a.float?, b.float? with
  | some m, some n, _, _ => compare m.toInt n.toInt
  | some m, none, _, some y => compareIntFloat m y
  | none, some n, some x, _ => (compareIntFloat n x).swap
  | _, _, some x, some y => if x.equals y then .eq else x.totalCompare y
  | _, _, _, _ => .eq

/-- Outcome of a comparison for sorting: the order, and whether the pair was orderable. -/
structure Placement where
  order : Ordering
  orderable : Bool
deriving DecidableEq, Repr

/-- Placement of values that hold no other values, or that differ in rank. -/
def plainPlacement (a b : Value) : Placement :=
  if a.rank != b.rank then ⟨compare a.rank b.rank, false⟩
  else
    match a, b with
    | .text s, .text t => ⟨Text.orderOf s t, true⟩
    | a, b =>
      if a.rank == 0 then ⟨compareNumbers a b, true⟩
      else ⟨Text.orderOf a.kind.name b.kind.name, false⟩

mutual

/-- Comparison of any two values for sorting. -/
def placement : Value → Value → Placement
  | .list xs, .list ys => placementList xs ys
  | a, b => plainPlacement a b
termination_by structural a => a

/-- Comparison item by item; items after the deciding one do not count. -/
def placementList : List Value → List Value → Placement
  | [], [] => ⟨.eq, true⟩
  | [], _ :: _ => ⟨.lt, true⟩
  | _ :: _, [] => ⟨.gt, true⟩
  | x :: xs, y :: ys =>
    match placement x y with
    | ⟨.eq, orderable⟩ =>
      let rest := placementList xs ys
      ⟨rest.order, orderable && rest.orderable⟩
    | p => p
termination_by structural xs => xs

end

/-- The total order behind sorting. -/
def totalCompare (a b : Value) : Ordering :=
  (placement a b).order

/-- The pair can be ordered. -/
def orderable (a b : Value) : Bool :=
  (placement a b).orderable

/-! ## Sorting -/

/-- A sort under way: the items placed so far, greatest first, and the first pair that could not
    be ordered. -/
structure Sorting where
  placed : List Value := []
  failure : Option (Value × Value) := none

/-- The item put behind the placed ones that are not greater, together with the pairs compared. -/
def place (x : Value) : (placed : List Value) → List Value × List (Value × Value)
  | [] => ([x], [])
  | y :: ys =>
    if totalCompare x y == .lt then
      let (rest, pairs) := place x ys
      (y :: rest, (x, y) :: pairs)
    else (x :: y :: ys, [(x, y)])

/-- One more item placed. -/
def Sorting.add (s : Sorting) (x : Value) : Sorting :=
  let (placed, pairs) := place x s.placed
  ⟨placed, s.failure.or (pairs.find? fun (a, b) => !orderable a b)⟩

/-- The items in ascending order, equal ones as they stood; a pair without an order is a fault. -/
def sort (items : List Value) : Except Fault (List Value) :=
  let s := items.foldl Sorting.add {}
  match s.failure with
  | some (a, b) => .error (.type (.unordered .lt a.kind b.kind))
  | none => .ok s.placed.reverse

end StepScript.Value
