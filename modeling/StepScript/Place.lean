import StepScript.Eval

/-!
# Places

Where an assignment stores its value: a variable, or a part of one reached by indices and field
names. `Expr.place` finds the place that an expression names, and `Place.store` puts a value
there; a store that faults changes nothing.

The indices are evaluated from the last one to the first.
-/

set_option autoImplicit false

namespace StepScript

variable {σ : Type}

/-- One step from a value to a part of it. -/
inductive Accessor where
  | index (key : Value)
  | field (name : String)

/-- A variable and the steps from it to the part meant. -/
structure Place where
  root : String
  path : List Accessor

namespace Place

/-! ## Parts of values -/

/-- The position of a list that an assignment means. -/
def listPosition (items : List Value) (key : Value) (missing : ValueFault) : Except Fault Nat :=
  match key.int? with
  | none => .error (.type .listIndexKind)
  | some n =>
    match position? items.length n.toInt with
    | some i => .ok i
    | none => .error (.value missing)

/-- A field set, the fields staying in the order of their names. -/
def setField (name : String) (v : Value) : List (String × Value) → List (String × Value)
  | [] => [(name, v)]
  | f :: fields =>
    match Text.orderOf name f.1 with
    | .lt => (name, v) :: f :: fields
    | .eq => (name, v) :: fields
    | .gt => f :: setField name v fields

/-- The part of a value that a step leads to. -/
def child (v : Value) (a : Accessor) : Except Fault Value :=
  match v, a with
  | .list items, .index key => do
    let i ← listPosition items key .listIndex
    Value.itemAt items i .listIndex
  | .dict entries, .index key =>
    match Dict.get? entries key with
    | some v => .ok v
    | none => .error (Method.noKey key)
  | .object className fields, .field name => Env.objectField className fields name
  | v, .field name => .error (Method.unknown v name)
  | v, .index _ => .error (.type (.notSubscriptable v.kind))

/-- A value with the part that a last step leads to replaced; a key or field may be new. -/
def storeIn (v : Value) (a : Accessor) (new : Value) : Except Fault Value :=
  match v, a with
  | .list items, .index key => do
    let i ← listPosition items key .listAssignment
    return .list (items.set i new)
  | .dict entries, .index key => .ok (.dict (Dict.insert key new entries))
  | .object className fields, .field name => .ok (.object className (setField name new fields))
  | v, .field name => .error (Method.unknown v name)
  | v, .index _ => .error (.type (.noItemAssignment v.kind))

/-- A value with the part at the end of a path replaced. -/
def storeAlong (v : Value) : (path : List Accessor) → (new : Value) → Except Fault Value
  | [], new => .ok new
  | [a], new => storeIn v a new
  | a :: path, new => do
    let part ← storeAlong (← child v a) path new
    storeIn v a part

/-! ## Places of environments -/

/-- The environment with a value stored in a place. -/
def store (p : Place) (new : Value) (env : Env σ) : Except Fault (Env σ) :=
  if p.path.isEmpty then .ok (env.set p.root new)
  else do
    let v ← storeAlong (← env.lookup p.root) p.path new
    return env.set p.root v

end Place

namespace Expr

/-- The place that an expression names. -/
def place : Expr → Eval σ Place
  | .name n => pure ⟨n, []⟩
  | .index c i => do
    let key ← eval i
    let p ← place c
    return ⟨p.root, p.path ++ [.index key]⟩
  | .field c member => do
    let p ← place c
    return ⟨p.root, p.path ++ [.field member]⟩
  | _ => Eval.lift (.error (.type .notPlace))

/-- A value assigned to the place that an expression names. -/
def assign (target : Expr) (v : Value) : Eval σ Unit := do
  let p ← place target
  let env ← Eval.lift (p.store v (← get))
  set env

end Expr

end StepScript
