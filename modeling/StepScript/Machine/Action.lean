import StepScript.Machine.Assignment
import StepScript.Machine.World
import StepScript.Place
import StepScript.Statement.Basic

/-!
# Plain statements

What the statements do that leave the control of the program alone. Their operands are read as
expressions when they run, so a malformed operand is a fault of the statement, not of the program.

`FILTER`, `MAP` and `REDUCE` bind the names `x` and `acc` while they work and put them back
afterwards, whatever happens in between.
-/

set_option autoImplicit false

namespace StepScript

variable {σ α : Type}

/-! ## Collections -/

namespace Eval

/-- Names put back to what they were before an evaluation, also when it ends in a fault. -/
def restoring (names : List String) (e : Eval σ α) : Eval σ α :=
  ExceptT.mk fun env =>
    let (r, after) := e.run.run env
    (r, names.foldl (fun after name => after.restore name (env.get? name)) after)

/-- The value of an expression with `x` bound to an item. -/
def withItem (e : Expr) (item : Value) : Eval σ Value := do
  modify (·.set "x" item)
  e.eval

/-- The items for which the predicate holds. -/
def filterItems (predicate : Expr) : List Value → Eval σ (List Value)
  | [] => pure []
  | item :: items => do
    let keep ← withItem predicate item
    let kept ← filterItems predicate items
    return if keep.truthy then item :: kept else kept

/-- The items transformed. -/
def mapItems (transform : Expr) : List Value → Eval σ (List Value)
  | [] => pure []
  | item :: items => do
    let v ← withItem transform item
    let vs ← mapItems transform items
    return v :: vs

/-- The items combined from left to right, with `acc` bound to what they make so far. -/
def reduceItems (combine : Expr) (acc : Value) : List Value → Eval σ Value
  | [] => pure acc
  | item :: items => do
    modify (·.set "acc" acc)
    let acc ← withItem combine item
    reduceItems combine acc items

end Eval

namespace Act

/-- The items of a variable. -/
def itemsOf (name : String) : Act σ (List Value) := do
  lift (← lookup name).items

/-- A text read as an expression. -/
def parse (text : String) : Act σ Expr :=
  lift (Expr.parse text)

/-- The items of a variable for which the predicate holds, bound to a target. -/
def filter (source predicate target : String) : Act σ Unit := do
  let items ← itemsOf source
  let predicate ← parse predicate
  let kept ← eval (Eval.restoring ["x"] (Eval.filterItems predicate items))
  assign target (.list kept)

/-- The items of a variable transformed, bound to a target. -/
def map (source transform target : String) : Act σ Unit := do
  let items ← itemsOf source
  let transform ← parse transform
  let mapped ← eval (Eval.restoring ["x"] (Eval.mapItems transform items))
  assign target (.list mapped)

/-- The items of a variable combined, starting from the first one, bound to a target. -/
def reduce (source combine target : String) : Act σ Unit := do
  match ← itemsOf source with
  | [] => lift (.error (.type .emptyReduction))
  | first :: items =>
    let combine ← parse combine
    let reduced ← eval (Eval.restoring ["acc", "x"] (Eval.reduceItems combine first items))
    assign target reduced

/-- A change to a list, made to a value; `method` names the change where there is no list. -/
def onList (method : String) (change : Change (List Value) Unit) : Change Value Unit :=
  ExceptT.mk fun receiver =>
    match receiver with
    | .list items => change.within .list items
    | v => (.error (Method.unknown v method), v)

/-- A change to the list in a variable. -/
def changeList (name method : String) (change : Change (List Value) Unit) : Act σ Unit :=
  eval (changeVariable name (onList method change))

end Act

/-! ## Calls -/

/-- The function that a name stands for, as far as the environment knows. -/
def Env.callee? (env : Env σ) (name : String) : Option String :=
  match env.get? name with
  | some (.callable target) => some target
  | _ =>
    if env.objects.contains name || (Builtin.ofName? name).isSome
        || (env.moduleFunction? name).isSome then some name
    else none

namespace Act

/-- The function that a name stands for. The host is asked when the environment knows none, and
    what it gives is remembered under the name. -/
def resolve (h : Host σ) (name : String) : Act σ (Option String) := do
  match (← get).env.callee? name with
  | some callee => return some callee
  | none =>
    match ← consult (h.resolve name) with
    | some object =>
      modify fun w => { w with env := w.env.register name object }
      return some name
    | none => return none

/-- The values of argument texts, from left to right. -/
def arguments : List String → Act σ (List Value)
  | [] => pure []
  | arg :: args => do
    let v ← evalText arg
    let vs ← arguments args
    return v :: vs

/-- The result of a call, or none when the callee is not known. -/
def call? (h : Host σ) (name : String) (args : List String) : Act σ (Option Value) := do
  match ← resolve h name with
  | none => return none
  | some callee =>
    let args ← arguments args
    return some (← eval (Eval.call (·.callNamed callee args)))

/-- A call whose result is bound to a variable, if there is one; an unknown callee is passed by. -/
def callInto (h : Host σ) (name : String) (args : List String) (target : Option String) :
    Act σ Unit := do
  match ← call? h name args, target with
  | some v, some target => assign target v
  | _, _ => return ()

/-! ## Modules, keys and models -/

/-- The first name of a dotted one. -/
def rootOf (name : String) : String :=
  match Text.cutFirst? '.' name.toList with
  | some (root, _) => String.ofList root
  | none => name

/-- A module imported, and its first name bound. -/
def importModule (h : Host σ) (name : String) : Act σ Unit := do
  let m ← ask (h.importModule name)
  modify fun w => { w with env := w.env.addModule m }
  assign (rootOf name) (.moduleRef (rootOf name))

/-- A text without the quotes around it, if there are any. -/
def unquoted (text : String) : String :=
  let cs := Text.trim text.toList
  let inside? (quote : Char) : Option (List Char) :=
    match cs with
    | c :: rest => if c == quote && rest.getLast? == some quote then some rest.dropLast else none
    | [] => none
  String.ofList (((inside? '"').orElse fun _ => inside? '\'').getD cs)

/-- A key given to the host, and bound. -/
def apiKey (h : Host σ) (text : String) : Act σ Unit := do
  consult fun s => ((), h.setApiKey (unquoted text) s)
  assign "api_key" (.text (unquoted text))

/-- A model loaded and bound. -/
def loadModel (h : Host σ) (task var : String) : Act σ Unit := do
  let model ← ask (h.loadModel task)
  assign var (.modelRef model)
  modify fun w => { w with lastModel := some model }

/-- A prediction bound to a variable. -/
def predict (h : Host σ) (input target : String) : Act σ Unit := do
  let input ← evalText input
  match (← get).model? with
  | none => lift (.error (.host .noModel))
  | some model => assign target (← ask (h.predict model input))

/-- A model trained. -/
def train (h : Host σ) (name data : String) : Act σ Unit := do
  match ← lookup name with
  | .modelRef model =>
    let data ← evalText data
    ask (h.train model data)
  | v => lift (.error (.type (.notModel name v.kind)))

/-! ## Printing -/

/-- The line that operands make: their values with blanks between them. -/
def printed (operands : String) : Act σ String := do
  match ← evalText ("[" ++ operands ++ "]") with
  | .list vs => return Value.displayLine vs
  | v => return Value.displayLine [v]

/-! ## Content without a keyword -/

/-- A value stored in the place that an expression names, combined with the old one if there is an
    operator. -/
def store (place : Expr) (op : Option BinaryOp) (expr : String) : Act σ Unit := do
  let v ← evalText expr
  let v ← match op with
    | none => pure v
    | some op => do
      let old ← eval place.eval
      lift (Value.binary op old v)
  eval (place.assign v)

/-- The arguments of a call of `print`, unless a variable has that name. -/
def printArguments? (env : Env σ) : Expr → Option (List Expr)
  | .call (.name "print") args => if env.vars.contains "print" then none else some args
  | _ => none

theorem eq_call_of_printArguments? {env : Env σ} {e : Expr} {args : List Expr}
    (h : printArguments? env e = some args) : e = .call (.name "print") args := by
  unfold printArguments? at h
  split at h
  · split at h
    · cases h
    · cases h
      rfl
  · cases h

/-- An expression evaluated for its effect. -/
def runExpression (text : String) : Act σ Unit := do
  let e ← parse text
  match printArguments? (← get).env e with
  | some args => emit (Value.displayLine (← eval (Expr.evalAll args)))
  | none => discard (eval e.eval)

/-- The place and the rest of an assignment. -/
def assignment? (text : String) : Option (Expr × Assignment) :=
  match Assignment.ofText? text with
  | none => none
  | some a =>
    match Expr.parse a.target with
    | .ok place => if place.isPlace then some (place, a) else none
    | .error _ => none

theorem parse_of_assignment? {text : String} {place : Expr} {a : Assignment}
    (h : assignment? text = some (place, a)) : Expr.parse a.target = .ok place := by
  unfold assignment? at h
  split at h
  · cases h
  · split at h
    · next hparse =>
      split at h
      · cases h
        exact hparse
      · cases h
    · cases h

/-- Content without a keyword: an assignment, or an expression. -/
def raw (text : String) : Act σ Unit :=
  match assignment? text with
  | some (place, a) => store place a.op a.expr
  | none => runExpression text

/-! ## Statements -/

/-- A plain statement; those that concern control do nothing here. -/
def perform (h : Host σ) : Statement → Act σ Unit
  | .assign target expr => do
    let v ← evalText expr
    let place ← parse target
    eval (place.assign v)
  | .importModule name => importModule h name
  | .apiKey text => apiKey h text
  | .print operands => do emit (← printed operands)
  | .listCreate name expr => do assign name (← evalText expr)
  | .dictCreate name expr => do assign name (← evalText expr)
  | .getValue expr name => do assign name (← evalText expr)
  | .listAppend name expr => do
    let v ← evalText expr
    changeList name "append" (modify (· ++ [v]))
  | .listRemove name expr => do
    let v ← evalText expr
    changeList name "remove" do
      match (← get).findIdx? fun item => item.looseEq v with
      | some i => modify (·.eraseIdx i)
      | none => Change.lift (.error (.value .notRemovable))
  | .sort source target => do
    let sorted ← lift (Value.sort (← itemsOf source))
    assign target (.list sorted)
  | .filter source predicate target => filter source predicate target
  | .map source transform target => map source transform target
  | .reduce source combine target => reduce source combine target
  | .call function args result => callInto h function args result
  | .create var className args => callInto h className args (some var)
  | .loadModel model var => loadModel h model var
  | .predict input output => predict h input output
  | .train model data => train h model data
  | .raw text => raw text
  | _ => pure ()

end Act

end StepScript
