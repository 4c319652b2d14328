import StepScript.Builtin
import StepScript.Env
import StepScript.Expr.Parser
import StepScript.Method
import StepScript.Text.Blank
import StepScript.Value.Arithmetic

/-!
# Evaluation

An expression evaluated against an environment gives a value or a fault, and an environment
afterwards: methods that change a list or dictionary change the variable they are called on, and
functions of the host leave the host as they like. What was changed before a fault stays changed.

Operands are evaluated from left to right, each one once, and the right operand of `and` and `or`
only when the left one does not decide.
-/

set_option autoImplicit false

namespace StepScript

variable {σ α β : Type}

/-- A computation on an environment that may end in a fault; the environment survives the fault. -/
abbrev Eval (σ α : Type) :=
  ExceptT Fault (StateM (Env σ)) α

/-- A result that needs no environment. -/
def Eval.lift (r : Except Fault α) : Eval σ α :=
  ExceptT.mk (pure r)

/-- A call, which gives a result and leaves the host in another state. -/
def Eval.call (f : Env σ → Except Fault α × σ) : Eval σ α :=
  ExceptT.mk fun env =>
    let (r, host) := f env
    (r, { env with host })

@[simp] theorem Eval.run_lift (r : Except Fault α) (env : Env σ) :
    (Eval.lift r).run.run env = (r, env) :=
  rfl

@[simp] theorem Eval.run_call (f : Env σ → Except Fault α × σ) (env : Env σ) :
    (Eval.call f).run.run env = ((f env).1, { env with host := (f env).2 }) :=
  rfl

/-- One evaluation after another: the second one starts where the first one has left the
    environment, and not at all after a fault. -/
theorem Eval.run_bind (e : Eval σ α) (f : α → Eval σ β) (env : Env σ) :
    (e >>= f).run.run env
      = match e.run.run env with
        | (.ok x, env) => (f x).run.run env
        | (.error fault, env) => (.error fault, env) := by
  simp only [ExceptT.run_bind, StateT.run_bind]
  rcases e.run.run env with ⟨r, env'⟩
  cases r <;> rfl

/-- An evaluation that ends well goes well in both its parts. -/
theorem Eval.run_bind_ok {e : Eval σ α} {f : α → Eval σ β} {env env' : Env σ} {y : β}
    (hrun : (e >>= f).run.run env = (.ok y, env')) :
    ∃ x mid, e.run.run env = (.ok x, mid) ∧ (f x).run.run mid = (.ok y, env') := by
  rw [run_bind] at hrun
  rcases he : e.run.run env with ⟨r, mid⟩
  rw [he] at hrun
  cases r with
  | ok x => exact ⟨x, mid, rfl, hrun⟩
  | error fault => cases hrun

/-- A fault of the host as a fault. -/
def hosted : Except HostFault α → Except Fault α
  | .ok a => .ok a
  | .error fault => .error (.host fault)

namespace Env

/-! ## Names and attributes -/

/-- What a name stands for: a variable, else a host object or built-in function. -/
def nameValue (env : Env σ) (name : String) : Except Fault Value :=
  match env.get? name with
  | some v => .ok v
  | none =>
    if env.objects.contains name || (Builtin.ofName? name).isSome then .ok (.callable name)
    else .error (.undefined name)

/-- A dotted name. -/
def dotted (owner member : String) : String :=
  owner ++ "." ++ member

/-- The owner and the last member of a dotted name. -/
def undotted? (name : String) : Option (String × String) :=
  (Text.cutLast? '.' name.toList).map fun (owner, member) =>
    (String.ofList owner, String.ofList member)

/-- The function of a module that a dotted name stands for. -/
def moduleFunction? (env : Env σ) (name : String) : Option (Native σ) :=
  match undotted? name with
  | some (owner, member) => (env.modules.get? owner).bind fun m => m.functions.get? member
  | none => none

/-- A member of a module: a function, a constant, or a module below it. -/
def moduleMember (env : Env σ) (owner member : String) : Except Fault Value :=
  let own := (env.modules.get? owner).bind fun m =>
    if m.functions.contains member then some (.callable (dotted owner member))
    else m.constants.get? member
  match own with
  | some v => .ok v
  | none =>
    if env.modules.contains (dotted owner member) then .ok (.moduleRef (dotted owner member))
    else .error (.type (.noMember owner member))

/-- The field of an object. -/
def objectField (className : String) (fields : List (String × Value)) (name : String) :
    Except Fault Value :=
  match Table.find? name fields with
  | some v => .ok v
  | none => .error (.type (.noAttribute className name))

/-- An attribute of a value. -/
def attributeOf (env : Env σ) (owner : Value) (name : String) : Except Fault Value :=
  match owner with
  | .moduleRef m => env.moduleMember m name
  | .object className fields => objectField className fields name
  | v => .error (Method.unknown v name)

/-! ## Calls -/

/-- A function of the host called: its result, and the host afterwards. -/
def callNative (env : Env σ) (run : Native σ) (args : List Value) : Except Fault Value × σ :=
  let (r, host) := run args env.host
  (hosted r, host)

/-- A function called by name: a host object, else a function of a module, else a built-in. -/
def callNamed (env : Env σ) (name : String) (args : List Value) : Except Fault Value × σ :=
  match env.objects.get? name with
  | some object => env.callNative object.run args
  | none =>
    match env.moduleFunction? name with
    | some run => env.callNative run args
    | none =>
      match Builtin.ofName? name with
      | some b => (b.call args, env.host)
      | none => (.error (.undefined name), env.host)

/-- A value called. -/
def callValue (env : Env σ) (target : Value) (args : List Value) : Except Fault Value × σ :=
  match target with
  | .callable name => env.callNamed name args
  | v => (.error (.type (.notCallable v.kind)), env.host)

end Env

namespace Value

/-! ## Items of sequences -/

/-- An index that must be an integer. -/
def indexInt (container index : Value) : Except Fault Int :=
  match index.int? with
  | some n => .ok n.toInt
  | none => .error (.type (.indexKind container.kind index.kind))

/-- The item of a sequence at an index. -/
def itemAt {α : Type} (items : List α) (index : Int) (fault : ValueFault) : Except Fault α :=
  match position? items.length index with
  | some i =>
    match items[i]? with
    | some a => .ok a
    | none => .error (.value fault)
  | none => .error (.value fault)

/-- The item under an index: of a dictionary by its key, of a list or text by its position. -/
def item (container index : Value) : Except Fault Value :=
  match container with
  | .dict entries =>
    match Dict.get? entries index with
    | some v => .ok v
    | none => .error (Method.noKey index)
  | .list items => do itemAt items (← indexInt container index) .listIndex
  | .text s => do
    return .text (String.singleton (← itemAt s.toList (← indexInt container index) .textIndex))
  | v => .error (.type (.notSubscriptable v.kind))

/-- The places that a slice begins and ends at; a missing bound is the end of the sequence, and a
    slice that would end before it begins is empty. -/
def sliceRange (length : Nat) (low high : Option Int) : Nat × Nat :=
  let first := (low.map (bound length)).getD 0
  let last := (high.map (bound length)).getD length
  (first, max last first)

/-- The part of a sequence between two places. -/
def slice {α : Type} (items : List α) (low high : Option Int) : List α :=
  let (first, last) := sliceRange items.length low high
  (items.take last).drop first

/-- The part of a list or text between two places. -/
def sliced (container : Value) (low high : Option Int) : Except Fault Value :=
  match container with
  | .list items => .ok (.list (slice items low high))
  | .text s => .ok (.text (String.ofList (slice s.toList low high)))
  | v => .error (.type (.notSubscriptable v.kind))

/-- A slice bound: an integer, or nothing. -/
def sliceBound (v : Value) : Except Fault (Option Int) :=
  match v, v.int? with
  | .nothing, _ => .ok none
  | _, some n => .ok (some n.toInt)
  | _, none => .error (.type .sliceBound)

end Value

/-! ## Method calls -/

/-- A change made to the value of a variable. What it has done when it faults stays done. -/
def changeVariable (name : String) (change : Change Value α) : Eval σ α :=
  ExceptT.mk fun env =>
    match env.lookup name with
    | .ok v =>
      let (r, v) := change.run.run v
      (r, env.set name v)
    | .error fault => (.error fault, env)

theorem run_changeVariable (name : String) (change : Change Value α) (env : Env σ) :
    (changeVariable name change : Eval σ α).run.run env
      = match env.lookup name with
        | .ok v => ((change.run.run v).1, env.set name (change.run.run v).2)
        | .error fault => (.error fault, env) := by
  show (match env.lookup name with | .ok v => _ | .error fault => _) = _
  cases env.lookup name <;> rfl

/-- The receiver is one that its methods can change. -/
def isContainer : Value → Bool
  | .list _ | .dict _ => true
  | _ => false

/-- A method called: on modules and objects their member, on lists and dictionaries that a variable
    names in place, on all other values without effect. -/
def callMethod (receiver : Expr) (object : Value) (method : String) (args : List Value) :
    Eval σ Value := do
  match object with
  | .moduleRef _ | .object _ _ =>
    let target ← Eval.lift ((← get).attributeOf object method)
    Eval.call (·.callValue target args)
  | object =>
    if isContainer object && Method.mutates method then
      match receiver with
      | .name name => changeVariable name (Method.mutate method args)
      | _ => Eval.lift ((Method.mutate method args).run.run object).1
    else Eval.lift (Method.call object method args)

/-! ## Expressions -/

namespace Expr

mutual

/-- The value of an expression. -/
def eval : Expr → Eval σ Value
  | .literal v => pure v
  | .name n => do Eval.lift ((← get).nameValue n)
  | .list items => do return .list (← evalAll items)
  | .dict entries => do return .dict (← evalEntries entries [])
  | .unary op e => do Eval.lift (Value.unary op (← eval e))
  | .binary .and l r => do
    let left ← eval l
    if left.truthy then eval r else return left
  | .binary .or l r => do
    let left ← eval l
    if left.truthy then return left else eval r
  | .binary op l r => do
    let left ← eval l
    let right ← eval r
    Eval.lift (Value.binary op left right)
  | .call (.field owner method) args => do
    let object ← eval owner
    let args ← evalAll args
    callMethod owner object method args
  | .call callee args => do
    let target ← eval callee
    let args ← evalAll args
    Eval.call (·.callValue target args)
  | .index c i => do
    let container ← eval c
    let index ← eval i
    Eval.lift (Value.item container index)
  | .slice c low high => do
    let container ← eval c
    let low ← evalBound low
    let high ← evalBound high
    Eval.lift (Value.sliced container low high)
  | .field owner member => do
    let object ← eval owner
    Eval.lift ((← get).attributeOf object member)
termination_by structural e => e

/-- The values of expressions, from left to right. -/
def evalAll : List Expr → Eval σ (List Value)
  | [] => pure []
  | e :: es => do
    let v ← eval e
    let vs ← evalAll es
    return v :: vs
termination_by structural es => es

/-- Entries inserted into a dictionary one after the other. -/
def evalEntries : List (Expr × Expr) → Dict → Eval σ Dict
  | [], d => pure d
  | e :: es, d => do
    let (k, v) ← evalEntry e
    evalEntries es (Dict.insert k v d)
termination_by structural es => es

/-- Key and value of an entry, the key first. -/
def evalEntry : Expr × Expr → Eval σ (Value × Value)
  | (k, v) => do
    let key ← eval k
    let value ← eval v
    return (key, value)
termination_by structural e => e

/-- A slice bound, if there is one. -/
def evalBound : Option Expr → Eval σ (Option Int)
  | none => pure none
  | some e => do Eval.lift (Value.sliceBound (← eval e))
termination_by structural e => e

end

/-- The value of an expression in an environment, and the environment afterwards. -/
def evaluate (e : Expr) (env : Env σ) : Except Fault Value × Env σ :=
  (eval e).run.run env

/-- The value of a text that may hold literals only. -/
def literalValue (text : String) : Except Fault Value := do
  let e ← parse text
  let env : Env Unit := { host := () }
  if e.isLiteral then (e.evaluate env).1 else .error (.value (.notLiteral text))

/-- The value that a text given by a user stands for: the literal it holds, else the text. -/
def inputValue (raw : String) : Value :=
  match literalValue (Text.trimmed raw) with
  | .ok v => v
  | .error _ => .text raw

end Expr

/-- A text read as an expression and evaluated. -/
def evalText (text : String) : Eval σ Value := do
  Expr.eval (← Eval.lift (Expr.parse text))

end StepScript
