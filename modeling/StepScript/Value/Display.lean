import StepScript.Json
import StepScript.Value.Basic

/-!
# Values as text

`display` is what printing shows. `repr` differs for texts only: it puts them in quotes, as
they also stand inside lists and dictionaries. `toJson` is the value as a JSON document.
-/

set_option autoImplicit false

namespace StepScript.Value

/-! ## Quoted texts -/

/-- The quote around a text: single, unless only the double one needs no escape. -/
def delimiter (cs : List Char) : Char :=
  if cs.contains '\'' && !cs.contains '"' then '"' else '\''

/-- A character inside quotes. -/
def quotedChar (quote c : Char) : List Char :=
  if c == '\\' then ['\\', '\\']
  else if c == '\n' then ['\\', 'n']
  else if c == '\t' then ['\\', 't']
  else if c == quote then ['\\', c]
  else [c]

/-- A text in quotes. -/
def quote (s : String) : String :=
  let quote := delimiter s.toList
  String.ofList (quote :: s.toList.flatMap (quotedChar quote) ++ [quote])

/-! ## Display -/

mutual

/-- The text of a value; a text itself in quotes if `inner`. -/
def render : Value → (inner : Bool) → String
  | .nothing, _ => "None"
  | .bool b, _ => if b then "True" else "False"
  | .int n, _ => Text.intText n.toInt
  | .float x, _ => x.display
  | .text s, inner => if inner then quote s else s
  | .list items, _ => "[" ++ ", ".intercalate (renderItems items) ++ "]"
  | .dict entries, _ => "\x7b" ++ ", ".intercalate (renderEntries entries) ++ "\x7d"
  | .callable name, _ => "<function " ++ name ++ ">"
  | .object className _, _ => "<" ++ className ++ " object>"
  | .moduleRef name, _ => "<module " ++ quotedName name ++ ">"
  | .modelRef model, _ => "<model " ++ quotedName model.task ++ ">"
termination_by structural v => v

/-- The texts of items inside a container. -/
def renderItems : List Value → List String
  | [] => []
  | v :: vs => render v true :: renderItems vs
termination_by structural vs => vs

/-- The texts of entries inside a dictionary. -/
def renderEntries : List (Value × Value) → List String
  | [] => []
  | e :: es => renderEntry e :: renderEntries es
termination_by structural es => es

/-- The text of an entry. -/
def renderEntry : Value × Value → String
  | (k, v) => render k true ++ ": " ++ render v true
termination_by structural e => e

end

/-- The text of a value as printing shows it. -/
def display (v : Value) : String :=
  v.render false

/-- The text of a value as it stands inside a container. -/
def repr (v : Value) : String :=
  v.render true

/-- Values one after the other with single blanks between them: one printed line. -/
def displayLine (vs : List Value) : String :=
  " ".intercalate (vs.map display)

/-! ## JSON -/

mutual

/-- The value as a JSON document: dictionaries and objects become objects with sorted members,
    and what belongs to the host becomes its text. -/
def toJson : Value → Json
  | .nothing => .null
  | .bool b => .bool b
  | .int n => .int n.toInt
  | .float x => .float x
  | .text s => .text s
  | .list items => .array (toJsonItems items)
  | .dict entries => Json.sortedObject (toJsonEntries entries)
  | .object _ fields => Json.sortedObject (toJsonFields fields)
  | .callable name => .text (display (.callable name))
  | .moduleRef name => .text (display (.moduleRef name))
  | .modelRef model => .text (display (.modelRef model))
termination_by structural v => v

/-- The items as documents. -/
def toJsonItems : List Value → List Json
  | [] => []
  | v :: vs => toJson v :: toJsonItems vs
termination_by structural vs => vs

/-- The entries as members, named by their keys' texts. -/
def toJsonEntries : List (Value × Value) → List (String × Json)
  | [] => []
  | e :: es => toJsonEntry e :: toJsonEntries es
termination_by structural es => es

/-- An entry as a member. -/
def toJsonEntry : Value × Value → String × Json
  | (k, v) => (display k, toJson v)
termination_by structural e => e

/-- The fields as members. -/
def toJsonFields : List (String × Value) → List (String × Json)
  | [] => []
  | f :: fs => toJsonField f :: toJsonFields fs
termination_by structural fs => fs

/-- A field as a member. -/
def toJsonField : String × Value → String × Json
  | (name, v) => (name, toJson v)
termination_by structural f => f

end

end StepScript.Value
