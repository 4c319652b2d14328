import StepScript.Json

/-!
# Statements

The statements of a program. A program is a flat list of them: blocks are opened and closed by
markers, and operands are kept as text until the statement runs.

`keyword` names a statement in messages, `source` is its canonical spelling, and `toJson` its form
in a JSON document.
-/

set_option autoImplicit false

namespace StepScript

/-- A statement. -/
inductive Statement where
  | assign (target expr : String)
  | importModule (name : String)
  | apiKey (value : String)
  | forRange (var start stop : String)
  | forEach (var iterable : String)
  | whileLoop (cond : String)
  | endFor
  | endForEach
  | endWhile
  | ifThen (cond : String)
  | orElse
  | endIf
  | returnValue (expr : String)
  | print (expr : String)
  | breakLoop
  | continueLoop
  | listCreate (name expr : String)
  | dictCreate (name expr : String)
  | listAppend (list expr : String)
  | listRemove (list expr : String)
  | getValue (source target : String)
  | sort (source target : String)
  | filter (source predicate target : String)
  | map (source transform target : String)
  | reduce (source combine target : String)
  | tryBlock
  | catchFault (errorVar : String)
  | endTry
  | call (function : String) (args : List String) (result : Option String)
  | create (var className : String) (args : List String)
  | loadModel (model var : String)
  | predict (input output : String)
  | train (model data : String)
  /-- Content without a known keyword: an assignment or an expression. -/
  | raw (text : String)
deriving DecidableEq, Repr

namespace Statement

/-! ## Keywords -/

/-- The keyword of a statement. -/
def keyword : Statement → String
  | .assign _ _ => "Set"
  | .importModule _ => "Import"
  | .apiKey _ => "KEY"
  | .forRange _ _ _ => "FOR"
  | .forEach _ _ => "FOREACH"
  | .whileLoop _ => "WHILE"
  | .endFor => "END FOR"
  | .endForEach => "END FOREACH"
  | .endWhile => "END WHILE"
  | .ifThen _ => "IF"
  | .orElse => "ELSE"
  | .endIf => "END IF"
  | .returnValue _ => "RETURN"
  | .print _ => "PRINT"
  | .breakLoop => "BREAK"
  | .continueLoop => "CONTINUE"
  | .listCreate _ _ => "LIST"
  | .dictCreate _ _ => "DICT"
  | .listAppend _ _ => "APPEND"
  | .listRemove _ _ => "REMOVE"
  | .getValue _ _ => "GET"
  | .sort _ _ => "SORT"
  | .filter _ _ _ => "FILTER"
  | .map _ _ _ => "MAP"
  | .reduce _ _ _ => "REDUCE"
  | .tryBlock => "TRY"
  | .catchFault _ => "CATCH"
  | .endTry => "END TRY"
  | .call _ _ _ => "CALL"
  | .create _ _ _ => "CREATE"
  | .loadModel _ _ => "LOAD_MODEL"
  | .predict _ _ => "PREDICT"
  | .train _ _ => "TRAIN"
  | .raw _ => "raw"

/-! ## Canonical spelling -/

/-- A keyword and its operand, which may be empty. -/
def withOperand (keyword operand : String) : String :=
  if operand.isEmpty then keyword else keyword ++ " " ++ operand

/-- Arguments in parentheses. -/
def arguments (args : List String) : String :=
  "(" ++ ", ".intercalate args ++ ")"

/-- The canonical spelling of a statement. -/
def source : Statement → String
  | .assign target expr => "Set " ++ target ++ " ← " ++ expr
  | .importModule name => "Import " ++ name
  | .apiKey value => "KEY: " ++ value
  | .forRange var start stop => "FOR " ++ var ++ " ← " ++ start ++ " to " ++ stop ++ " DO"
  | .forEach var iterable => "FOREACH " ++ var ++ " IN " ++ iterable ++ " DO"
  | .whileLoop cond => "WHILE " ++ cond ++ " DO"
  | .ifThen cond => "IF " ++ cond ++ " THEN"
  | .returnValue expr => withOperand "RETURN" expr
  | .print expr => withOperand "PRINT" expr
  | .listCreate name expr => "LIST " ++ name ++ " ← " ++ expr
  | .dictCreate name expr => "DICT " ++ name ++ " ← " ++ expr
  | .listAppend list expr => "APPEND " ++ list ++ " ← " ++ expr
  | .listRemove list expr => "REMOVE " ++ list ++ " ← " ++ expr
  | .getValue source target => "GET " ++ source ++ " → " ++ target
  | .sort source target =>
    if source == target then "SORT " ++ source else "SORT " ++ source ++ " → " ++ target
  | .filter source predicate target =>
    "FILTER " ++ source ++ " WHERE " ++ predicate ++ " → " ++ target
  | .map source transform target =>
    "MAP " ++ source ++ " WITH " ++ transform ++ " → " ++ target
  | .reduce source combine target =>
    "REDUCE " ++ source ++ " WITH " ++ combine ++ " → " ++ target
  | .catchFault errorVar => "CATCH " ++ errorVar
  | .call function args result =>
    "CALL " ++ function ++ arguments args
      ++ match result with
        | some result => " → " ++ result
        | none => ""
  | .create var className args => "CREATE " ++ var ++ " ← " ++ className ++ arguments args
  | .loadModel model var => "LOAD_MODEL \"" ++ model ++ "\" → " ++ var
  | .predict input output => "PREDICT " ++ input ++ " → " ++ output
  | .train model data => "TRAIN " ++ model ++ " ON " ++ data
  | .raw text => text
  | .endFor => "END FOR"
  | .endForEach => "END FOREACH"
  | .endWhile => "END WHILE"
  | .orElse => "ELSE"
  | .endIf => "END IF"
  | .breakLoop => "BREAK"
  | .continueLoop => "CONTINUE"
  | .tryBlock => "TRY"
  | .endTry => "END TRY"

/-! ## JSON -/

/-- A statement's document: its type, then its operands. -/
def document (type : String) (operands : List (String × Json)) : Json :=
  .object (("type", .text type) :: operands)

/-- A statement's document whose operands are all texts. -/
def textDocument (type : String) (operands : List (String × String)) : Json :=
  document type (operands.map fun (name, text) => (name, .text text))

/-- A list of texts. -/
def textArray (texts : List String) : Json :=
  .array (texts.map .text)

/-- The statement as a JSON document. -/
def toJson : Statement → Json
  | .assign target expr => textDocument "Assign" [("target", target), ("expr", expr)]
  | .importModule name => textDocument "Import" [("module", name)]
  | .apiKey value => textDocument "ApiKey" [("value", value)]
  | .forRange var start stop =>
    textDocument "ForRange" [("var", var), ("start", start), ("end", stop)]
  | .forEach var iterable => textDocument "ForEach" [("var", var), ("iterable", iterable)]
  | .whileLoop cond => textDocument "While" [("cond", cond)]
  | .endFor => document "EndFor" []
  | .endForEach => document "EndForEach" []
  | .endWhile => document "EndWhile" []
  | .ifThen cond => textDocument "If" [("cond", cond)]
  | .orElse => document "Else" []
  | .endIf => document "EndIf" []
  | .returnValue expr => textDocument "Return" [("expr", expr)]
  | .print expr => textDocument "Print" [("expr", expr)]
  | .breakLoop => document "Break" []
  | .continueLoop => document "Continue" []
  | .listCreate name expr => textDocument "ListCreate" [("name", name), ("expr", expr)]
  | .dictCreate name expr => textDocument "DictCreate" [("name", name), ("expr", expr)]
  | .listAppend list expr => textDocument "ListAppend" [("list", list), ("expr", expr)]
  | .listRemove list expr => textDocument "ListRemove" [("list", list), ("expr", expr)]
  | .getValue source target => textDocument "GetValue" [("source", source), ("target", target)]
  | .sort source target => textDocument "Sort" [("source", source), ("target", target)]
  | .filter source predicate target =>
    textDocument "Filter" [("source", source), ("predicate", predicate), ("target", target)]
  | .map source transform target =>
    textDocument "Map" [("source", source), ("transform", transform), ("target", target)]
  | .reduce source combine target =>
    textDocument "Reduce" [("source", source), ("combine", combine), ("target", target)]
  | .tryBlock => document "Try" []
  | .catchFault errorVar => textDocument "Catch" [("error_var", errorVar)]
  | .endTry => document "EndTry" []
  | .call function args result =>
    document "Call"
      [("func", .text function), ("args", textArray args), ("result", Json.ofText? result)]
  | .create var className args =>
    document "CreateInstance"
      [("var", .text var), ("class", .text className), ("args", textArray args)]
  | .loadModel model var => textDocument "LoadModel" [("model", model), ("var", var)]
  | .predict input output => textDocument "Predict" [("input", input), ("output", output)]
  | .train model data => textDocument "Train" [("model", model), ("data", data)]
  | .raw text => textDocument "Raw" [("text", text)]

end Statement

end StepScript
