import StepScript.Json.Record
import StepScript.Statement.Basic

/-!
# Statements in JSON documents

Reading a statement from its document: an object with the statement's type and operands, or an array
of the type and then the operands. What `Statement.toJson` writes is read back.
-/

set_option autoImplicit false

namespace StepScript.Statement

/-! ## Operands -/

/-- A statement without operands. -/
def bare (s : Statement) (operands : Json) : Option Statement :=
  match Json.fields? [] operands with
  | some [] => some s
  | _ => none

/-- A statement with one text. -/
def one (a : String) (make : String → Statement) (operands : Json) : Option Statement :=
  match Json.textFields? [a] operands with
  | some [x] => some (make x)
  | _ => none

/-- A statement with two texts. -/
def two (a b : String) (make : String → String → Statement) (operands : Json) :
    Option Statement :=
  match Json.textFields? [a, b] operands with
  | some [x, y] => some (make x y)
  | _ => none

/-- A statement with three texts. -/
def three (a b c : String) (make : String → String → String → Statement) (operands : Json) :
    Option Statement :=
  match Json.textFields? [a, b, c] operands with
  | some [x, y, z] => some (make x y z)
  | _ => none

/-- A list of texts. -/
def texts? : Json → Option (List String) :=
  Json.list? Json.text?

/-- A call, whose result may be missing. -/
def readCall? (operands : Json) : Option Statement := do
  match ← Json.fields? ["func", "args", "result"] operands with
  | [some function, some args, result] =>
    return .call (← function.text?) (← texts? args) (← Json.optional? result)
  | _ => none

/-- The making of an object. -/
def readCreate? (operands : Json) : Option Statement := do
  match ← Json.fields? ["var", "class", "args"] operands with
  | [some var, some className, some args] =>
    return .create (← var.text?) (← className.text?) (← texts? args)
  | _ => none

/-! ## Statements -/

/-- The statement of a type with its operands. -/
def ofOperands? (type : String) (operands : Json) : Option Statement :=
  match type with
  | "Assign" => two "target" "expr" .assign operands
  | "Import" => one "module" .importModule operands
  | "ApiKey" => one "value" .apiKey operands
  | "ForRange" => three "var" "start" "end" .forRange operands
  | "ForEach" => two "var" "iterable" .forEach operands
  | "While" => one "cond" .whileLoop operands
  | "EndFor" => bare .endFor operands
  | "EndForEach" => bare .endForEach operands
  | "EndWhile" => bare .endWhile operands
  | "If" => one "cond" .ifThen operands
  | "Else" => bare .orElse operands
  | "EndIf" => bare .endIf operands
  | "Return" => one "expr" .returnValue operands
  | "Print" => one "expr" .print operands
  | "Break" => bare .breakLoop operands
  | "Continue" => bare .continueLoop operands
  | "ListCreate" => two "name" "expr" .listCreate operands
  | "DictCreate" => two "name" "expr" .dictCreate operands
  | "ListAppend" => two "list" "expr" .listAppend operands
  | "ListRemove" => two "list" "expr" .listRemove operands
  | "GetValue" => two "source" "target" .getValue operands
  | "Sort" => two "source" "target" .sort operands
  | "Filter" => three "source" "predicate" "target" .filter operands
  | "Map" => three "source" "transform" "target" .map operands
  | "Reduce" => three "source" "combine" "target" .reduce operands
  | "Try" => bare .tryBlock operands
  | "Catch" => one "error_var" .catchFault operands
  | "EndTry" => bare .endTry operands
  | "Call" => readCall? operands
  | "CreateInstance" => readCreate? operands
  | "LoadModel" => two "model" "var" .loadModel operands
  | "Predict" => two "input" "output" .predict operands
  | "Train" => two "model" "data" .train operands
  | "Raw" => one "text" .raw operands
  | _ => none

/-- The statement of a JSON document. -/
def ofJson? : Json → Option Statement
  | .object members => do
    ofOperands? (← (← members.lookup "type").text?) (.object members)
  | .array (type :: operands) => do ofOperands? (← type.text?) (.array operands)
  | _ => none

/-- A list of texts is read back. -/
theorem texts?_textArray (texts : List String) : texts? (textArray texts) = some texts :=
  Json.list?_array_map Json.text? Json.text texts fun _ _ => rfl

/-- A text or null is read back. -/
theorem optional?_ofText? (text : Option String) :
    Json.optional? (some (Json.ofText? text)) = some text := by
  cases text <;> rfl

/-- What a statement is written as is read as the statement. -/
theorem ofJson?_toJson (s : Statement) : ofJson? s.toJson = some s := by
  cases s with
  | call function args result =>
    show (do
      let args ← texts? (textArray args)
      let result ← Json.optional? (some (Json.ofText? result))
      return Statement.call function args result) = _
    rw [texts?_textArray, optional?_ofText?]
    rfl
  | create var className args =>
    show (do
      let args ← texts? (textArray args)
      return Statement.create var className args) = _
    rw [texts?_textArray]
    rfl
  | _ => rfl

end StepScript.Statement
