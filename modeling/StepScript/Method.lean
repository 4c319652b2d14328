import StepScript.Dict
import StepScript.Text.Blank
import StepScript.Text.Case
import StepScript.Text.Search
import StepScript.Value.Display

/-!
# Methods of values

The methods of texts, lists and dictionaries. Those that change their receiver are in `mutate`,
which works on the receiver in place; the others are in `call`.

Indices count from the end when negative. `position?` is the one rule for an index that must name
an item, `bound` the one for a place between items.
-/

set_option autoImplicit false

namespace StepScript

/-! ## Positions -/

/-- The position an index names in a sequence of the given length, if any. -/
def position? (length : Nat) (index : Int) : Option Nat :=
  let i := if index < 0 then index + length else index
  if 0 ≤ i && i < length then some i.toNat else none

/-- The place between items that an index names, the nearest one there is. -/
def bound (length : Nat) (index : Int) : Nat :=
  if index < 0 then (index + length).toNat else min index.toNat length

/-- A position lies in the sequence. -/
theorem position?_lt {length : Nat} {index : Int} {i : Nat}
    (h : position? length index = some i) : i < length := by
  unfold position? at h
  split at h <;>
    · simp only [Option.ite_none_right_eq_some, Bool.and_eq_true, decide_eq_true_eq,
        Option.some.injEq] at h
      omega

/-! ## Changes -/

variable {ρ α : Type}

/-- A change to something, which gives a result or ends in a fault. What was changed before a fault
    stays changed. -/
abbrev Change (ρ α : Type) :=
  ExceptT Fault (StateM ρ) α

namespace Change

/-- A result that changes nothing. -/
def lift (r : Except Fault α) : Change ρ α :=
  ExceptT.mk (pure r)

/-- What a change to the inside of a value makes of the value. -/
def within (c : Change ρ α) (wrap : ρ → Value) (x : ρ) : Except Fault α × Value :=
  let (r, x) := c.run.run x
  (r, wrap x)

@[simp] theorem run_lift (r : Except Fault α) (x : ρ) :
    (lift r : Change ρ α).run.run x = (r, x) :=
  rfl

/-- One change after another: the second one starts where the first one has left things, and not at
    all after a fault. -/
theorem run_bind {β : Type} (c : Change ρ α) (f : α → Change ρ β) (x : ρ) :
    (c >>= f).run.run x
      = match c.run.run x with
        | (.ok a, x) => (f a).run.run x
        | (.error fault, x) => (.error fault, x) := by
  simp only [ExceptT.run_bind, StateT.run_bind]
  rcases c.run.run x with ⟨r, x'⟩
  cases r <;> rfl

end Change

namespace Method

/-! ## Arguments -/

/-- The argument at a position, counted from zero. -/
def arg (method : String) (args : List Value) (i : Nat) : Except Fault Value :=
  match args[i]? with
  | some v => .ok v
  | none => .error (.type (.missingArgument method (i + 1)))

/-- The fault of a method that the value does not have. -/
def unknown (v : Value) (method : String) : Fault :=
  .type (.noAttribute v.kind.name method)

/-! ## Methods that change the receiver -/

/-- The method changes its receiver. -/
def mutates (method : String) : Bool :=
  ["append", "extend", "insert", "pop", "remove", "clear", "update"].contains method

/-- The first item equal to `item` taken out of a list. -/
def removeItem (item : Value) : Change (List Value) Unit := do
  match (← get).findIdx? fun x => x.looseEq item with
  | some i => modify (·.eraseIdx i)
  | none => Change.lift (.error (.value .notRemovable))

/-- The item at an index taken out of a list. -/
def popItem (index : Int) : Change (List Value) Value := do
  let items ← get
  match position? items.length index with
  | some i =>
    set (items.eraseIdx i)
    return items[i]?.getD .nothing
  | none => Change.lift (.error (.value .popIndex))

/-- A changing method of a list. -/
def mutateList (method : String) (args : List Value) : Change (List Value) Value :=
  match method with
  | "append" => do
    let item ← Change.lift (arg method args 0)
    modify (· ++ [item])
    return .nothing
  | "extend" => do
    let more ← Change.lift (do (← arg method args 0).items)
    modify (· ++ more)
    return .nothing
  | "insert" => do
    match (← Change.lift (arg method args 0)).int? with
    | some n =>
      let item ← Change.lift (arg method args 1)
      modify fun items => items.insertIdx (bound items.length n.toInt) item
      return .nothing
    | none => Change.lift (.error (.type (.positionArgument method)))
  | "pop" =>
    match args with
    | [] => popItem (-1)
    | v :: _ =>
      match v.int? with
      | some n => popItem n.toInt
      | none => Change.lift (.error (.type (.positionArgument method)))
  | "remove" => do
    removeItem (← Change.lift (arg method args 0))
    return .nothing
  | "clear" => do
    set ([] : List Value)
    return .nothing
  | method => do Change.lift (.error (unknown (.list (← get)) method))

/-- The fault of a key that the dictionary does not hold. -/
def noKey (key : Value) : Fault :=
  .value (.noKey key.repr)

/-- The value under a key taken out of a dictionary, or else the default, if there is one. -/
def popKey (key : Value) (default : Option Value) : Change Dict Value := do
  match ← modifyGet (Dict.take key), default with
  | some v, _ => return v
  | none, some v => return v
  | none, none => Change.lift (.error (noKey key))

/-- A changing method of a dictionary. -/
def mutateDict (method : String) (args : List Value) : Change Dict Value :=
  match method with
  | "pop" => do popKey (← Change.lift (arg method args 0)) args[1]?
  | "update" => do
    match ← Change.lift (arg method args 0) with
    | .dict other =>
      modify (Dict.insertAll · other)
      return .nothing
    | _ => Change.lift (.error (.type .updateArgument))
  | "clear" => do
    set ([] : Dict)
    return .nothing
  | method => do Change.lift (.error (unknown (.dict (← get)) method))

/-- A changing method called on its receiver. -/
def mutate (method : String) (args : List Value) : Change Value Value :=
  ExceptT.mk fun receiver =>
    match receiver with
    | .list items => (mutateList method args).within .list items
    | .dict entries => (mutateDict method args).within .dict entries
    | v => (.error (unknown v method), v)

/-! ## Methods of texts -/

/-- The pieces of a text: between occurrences of the separator, or its words. -/
def splitText (cs : List Char) (args : List Value) : Except Fault Value :=
  let pieces (ps : List (List Char)) : Value := .list (ps.map fun p => .text (String.ofList p))
  match args with
  | .text sep :: _ =>
    if sep.isEmpty then .error (.value .emptySeparator)
    else .ok (pieces (Text.splitAt sep.toList cs))
  | _ => .ok (pieces (Text.words cs))

/-- The items as texts, or the fault of the first that is none. -/
def texts : List Value → Except Fault (List String)
  | [] => .ok []
  | .text s :: vs => (texts vs).map (s :: ·)
  | v :: _ => .error (.type (.joinItem v.kind))

/-- A method of a text. -/
def callText (s : String) (method : String) (args : List Value) : Except Fault Value :=
  match method with
  | "upper" => .ok (.text (String.ofList (Text.upper s.toList)))
  | "lower" => .ok (.text (String.ofList (Text.lower s.toList)))
  | "strip" => .ok (.text (Text.trimmed s))
  | "split" => splitText s.toList args
  | "replace" => do
    match ← arg method args 0, ← arg method args 1 with
    | .text old, .text new =>
      return .text (String.ofList (Text.replace old.toList new.toList s.toList))
    | _, _ => .error (.type .replaceArguments)
  | "startswith" => do
    match ← arg method args 0 with
    | .text affix => return .bool (Text.startsWith affix.toList s.toList)
    | _ => .error (.type (.affixArgument method))
  | "endswith" => do
    match ← arg method args 0 with
    | .text affix => return .bool (Text.endsWith affix.toList s.toList)
    | _ => .error (.type (.affixArgument method))
  | "join" => do return .text (s.intercalate (← texts (← (← arg method args 0).items)))
  | method => .error (unknown (.text s) method)

/-! ## Methods of lists and dictionaries -/

/-- A method of a list that leaves it as it is. -/
def callList (items : List Value) (method : String) (args : List Value) : Except Fault Value :=
  match method with
  | "count" => do
    let item ← arg method args 0
    return .ofNat (items.countP fun x => x.looseEq item)
  | "index" => do
    let item ← arg method args 0
    match items.findIdx? fun x => x.looseEq item with
    | some i => return .ofNat i
    | none => .error (.value (.notInList item.repr))
  | "copy" => .ok (.list items)
  | method => .error (unknown (.list items) method)

/-- A method of a dictionary that leaves it as it is. -/
def callDict (d : Dict) (method : String) (args : List Value) : Except Fault Value :=
  match method with
  | "copy" => .ok (.dict d)
  | "keys" => .ok (.list d.keys)
  | "values" => .ok (.list d.values)
  | "items" => .ok (.list (d.map fun e => .list [e.1, e.2]))
  | "get" => do
    let key ← arg method args 0
    return (d.get? key).getD (args[1]?.getD .nothing)
  | method => .error (unknown (.dict d) method)

/-- A method that leaves its receiver as it is. -/
def call (receiver : Value) (method : String) (args : List Value) : Except Fault Value :=
  match receiver with
  | .text s => callText s method args
  | .list items => callList items method args
  | .dict entries => callDict entries method args
  | v => .error (unknown v method)

end Method

end StepScript
