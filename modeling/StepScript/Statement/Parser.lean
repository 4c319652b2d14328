import StepScript.Statement.Basic
import StepScript.Statement.Line
import StepScript.SyntaxFault

/-!
# Parsing statements

A statement is recognised by the keyword its content starts with; a keyword that ends in a letter
must not run into another one. Content without a keyword is a `raw` statement. Content with a
keyword must have the form of that keyword, or it is malformed.
-/

set_option autoImplicit false

namespace StepScript

/-! ## Keywords -/

/-- The keywords that content can start with. -/
inductive Keyword where
  | set
  | importModule
  | key
  | forEach
  | forRange
  | whileLoop
  | ifThen
  | endIf
  | orElse
  | endForEach
  | endFor
  | endWhile
  | returnValue
  | print
  | breakLoop
  | continueLoop
  | list
  | dict
  | append
  | remove
  | get
  | sort
  | filter
  | map
  | reduce
  | tryBlock
  | catchFault
  | endTry
  | call
  | create
  | loadModel
  | predict
  | train
deriving DecidableEq, Repr

namespace Keyword

/-- The spelling of a keyword. -/
def text : Keyword → String
  | .set => "Set"
  | .importModule => "Import"
  | .key => "KEY:"
  | .forEach => "FOREACH"
  | .forRange => "FOR"
  | .whileLoop => "WHILE"
  | .ifThen => "IF"
  | .endIf => "END IF"
  | .orElse => "ELSE"
  | .endForEach => "END FOREACH"
  | .endFor => "END FOR"
  | .endWhile => "END WHILE"
  | .returnValue => "RETURN"
  | .print => "PRINT"
  | .breakLoop => "BREAK"
  | .continueLoop => "CONTINUE"
  | .list => "LIST"
  | .dict => "DICT"
  | .append => "APPEND"
  | .remove => "REMOVE"
  | .get => "GET"
  | .sort => "SORT"
  | .filter => "FILTER"
  | .map => "MAP"
  | .reduce => "REDUCE"
  | .tryBlock => "TRY"
  | .catchFault => "CATCH"
  | .endTry => "END TRY"
  | .call => "CALL"
  | .create => "CREATE"
  | .loadModel => "LOAD_MODEL"
  | .predict => "PREDICT"
  | .train => "TRAIN"

/-- All keywords. -/
def all : List Keyword :=
  [.set, .importModule, .key, .forEach, .forRange, .whileLoop, .ifThen, .endIf, .orElse,
    .endForEach, .endFor, .endWhile, .returnValue, .print, .breakLoop, .continueLoop, .list, .dict,
    .append, .remove, .get, .sort, .filter, .map, .reduce, .tryBlock, .catchFault, .endTry, .call,
    .create, .loadModel, .predict, .train]

/-- No keyword is missing from `all`. -/
theorem mem_all (k : Keyword) : k ∈ all := by
  cases k <;> simp [all]

/-- The content after the keyword, when it starts with it as a whole word. -/
def operands? (k : Keyword) (content : List Char) : Option (List Char) :=
  match Line.word? k.text content with
  | some (c :: cs) => if k != .key && Text.isNameChar c then none else some (c :: cs)
  | rest => rest

/-- The keyword that the content starts with, and the content after it. -/
def classify? (content : List Char) : Option (Keyword × List Char) :=
  all.findSome? fun k => (k.operands? content).map fun rest => (k, rest)

end Keyword

/-! ## Forms -/

namespace Statement

open Line

/-- A statement that is its keyword alone. -/
def marker (s : Statement) (cs : List Char) : Option Statement :=
  if atMarkerEnd cs then some s else none

/-- A target with a gap before the arrow, and an expression. -/
def assign? (cs : List Char) : Option Statement := do
  let cs ← gap? cs
  let (target, cs) ← until? beforeLeftArrow cs
  let cs ← gap? cs
  let cs ← leftArrow? cs
  let expr ← rest? (skipGap cs)
  return .assign target expr

/-- A module path. -/
def importModule? (cs : List Char) : Option Statement := do
  let cs ← gap? cs
  let (path, cs) ← path? cs
  if atEnd cs then some (.importModule path) else none

/-- A name, an arrow to the left and an expression. -/
def named? (make : String → String → Statement) (cs : List Char) : Option Statement := do
  let cs ← gap? cs
  let (name, cs) ← name? cs
  let cs ← leftArrow? (skipGap cs)
  let expr ← rest? (skipGap cs)
  return make name expr

/-- A variable, `IN`, an expression and `DO`. -/
def forEach? (cs : List Char) : Option Statement := do
  let cs ← gap? cs
  let (var, cs) ← name? cs
  let cs ← gap? cs
  let cs ← word? "IN" cs
  let cs ← gap? cs
  let (iterable, cs) ← until? (beforeLast "DO") cs
  last? "DO" cs
  return .forEach var iterable

/-- A variable, an arrow, two expressions with `to` between them, and `DO`. -/
def forRange? (cs : List Char) : Option Statement := do
  let cs ← gap? cs
  let (var, cs) ← name? cs
  let cs ← leftArrow? (skipGap cs)
  let (start, cs) ← until? beforeTo (skipGap cs)
  let cs ← gap? cs
  let cs ← word? "to" cs
  let cs ← gap? cs
  let (stop, cs) ← until? (beforeLast "DO") cs
  last? "DO" cs
  return .forRange var start stop

/-- A condition, the word that may close it left out. -/
def condition? (make : String → Statement) (closer : String) (cs : List Char) :
    Option Statement :=
  (until? (beforeLast closer) (skipGap cs)).map fun (cond, _) => make cond

/-- An expression that may be missing. -/
def optional (make : String → Statement) (cs : List Char) : Statement :=
  make (operandText (skipGap cs))

/-- An expression and its target. -/
def mapped? (make : String → String → Statement) (cs : List Char) : Option Statement := do
  let (expr, cs) ← until? beforeTarget cs
  let target ← target? cs
  return make expr target

/-- A source, a word, an expression and its target. -/
def transform? (w : String) (make : String → String → String → Statement) (cs : List Char) :
    Option Statement := do
  let cs ← gap? cs
  let (source, cs) ← name? cs
  let cs ← gap? cs
  let cs ← word? w cs
  let cs ← gap? cs
  mapped? (make source) cs

/-- A source and a target, the source itself when it is missing. -/
def sort? (cs : List Char) : Option Statement := do
  let cs ← gap? cs
  let (source, cs) ← name? cs
  let target ← optionalTarget? cs
  return .sort source (target.getD source)

/-- The variable that takes the text of the fault, `error` when it is missing. -/
def catchFault? (cs : List Char) : Option Statement :=
  match (gap? cs).bind name? with
  | some (name, rest) => marker (.catchFault name) rest
  | none => marker (.catchFault "error") cs

/-- A function path, arguments and a target that may be missing. -/
def call? (cs : List Char) : Option Statement := do
  let cs ← gap? cs
  let (function, cs) ← path? cs
  let (args, cs) ← arguments? (skipGap cs)
  let target ← optionalTarget? cs
  return .call function args target

/-- A variable, an arrow, a class path and arguments. -/
def create? (cs : List Char) : Option Statement := do
  let cs ← gap? cs
  let (var, cs) ← name? cs
  let cs ← leftArrow? (skipGap cs)
  let (className, cs) ← path? (skipGap cs)
  let (args, cs) ← arguments? (skipGap cs)
  if atEnd cs then some (.create var className args) else none

/-- A text in quotes without escapes, not empty. -/
def modelName? : List Char → Option (String × List Char)
  | c :: cs =>
    if c == '"' || c == '\'' then
      match cs.takeWhile (· != c), cs.dropWhile (· != c) with
      | d :: ds, _ :: rest => some (String.ofList (d :: ds), rest)
      | _, _ => none
    else none
  | [] => none

/-- A model name in quotes and a variable, `model` when it is missing. -/
def loadModel? (cs : List Char) : Option Statement := do
  let cs ← gap? cs
  let (model, cs) ← modelName? cs
  let target ← optionalTarget? cs
  return .loadModel model (target.getD "model")

/-- A model variable, `ON` and an expression. -/
def train? (cs : List Char) : Option Statement := do
  let cs ← gap? cs
  let (model, cs) ← name? cs
  let cs ← gap? cs
  let cs ← word? "ON" cs
  let cs ← gap? cs
  let data ← rest? cs
  return .train model data

/-- The statement that the content after a keyword makes. -/
def ofKeyword? (k : Keyword) (cs : List Char) : Option Statement :=
  match k with
  | .set => assign? cs
  | .importModule => importModule? cs
  | .key => (rest? (skipGap cs)).map .apiKey
  | .forEach => forEach? cs
  | .forRange => forRange? cs
  | .whileLoop => condition? .whileLoop "DO" cs
  | .ifThen => condition? .ifThen "THEN" cs
  | .endIf => marker .endIf cs
  | .orElse => marker .orElse cs
  | .endForEach => marker .endForEach cs
  | .endFor => marker .endFor cs
  | .endWhile => marker .endWhile cs
  | .returnValue => some (optional .returnValue cs)
  | .print => some (optional .print cs)
  | .breakLoop => marker .breakLoop cs
  | .continueLoop => marker .continueLoop cs
  | .list => named? .listCreate cs
  | .dict => named? .dictCreate cs
  | .append => named? .listAppend cs
  | .remove => named? .listRemove cs
  | .get => (gap? cs).bind (mapped? .getValue)
  | .sort => sort? cs
  | .filter => transform? "WHERE" .filter cs
  | .map => transform? "WITH" .map cs
  | .reduce => transform? "WITH" .reduce cs
  | .tryBlock => marker .tryBlock cs
  | .catchFault => catchFault? cs
  | .endTry => marker .endTry cs
  | .call => call? cs
  | .create => create? cs
  | .loadModel => loadModel? cs
  | .predict => (gap? cs).bind (mapped? .predict)
  | .train => train? cs

end Statement

/-! ## Statements -/

/-- The statement that the content of a line makes. -/
def Statement.parse (content : String) (line : Nat) : Except SyntaxFault Statement :=
  match Keyword.classify? content.toList with
  | none => .ok (.raw content)
  | some (k, rest) =>
    match Statement.ofKeyword? k rest with
    | some s => .ok s
    | none => .error (.malformed line k.text content)

end StepScript
