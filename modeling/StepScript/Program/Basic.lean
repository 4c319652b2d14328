import StepScript.Block
import StepScript.Text.Search

/-!
# Programs

A program: its header, the names of its inputs, and its statements with the places they were read
from. `source` is its canonical text, with the steps numbered from one.
-/

set_option autoImplicit false

namespace StepScript

/-! ## Headers -/

/-- What the first line of a program says it is. -/
inductive HeaderKind where
  | algorithm
  | model
  | apiCall
deriving DecidableEq, Repr

namespace HeaderKind

/-- The keyword that opens a program. -/
def keyword : HeaderKind → String
  | .algorithm => "ALGORITHM"
  | .model => "MODEL"
  | .apiCall => "API_CALL"

/-- The name of the kind in a JSON document. -/
def name : HeaderKind → String
  | .algorithm => "Algorithm"
  | .model => "Model"
  | .apiCall => "ApiCall"

/-- All kinds. -/
def all : List HeaderKind :=
  [.algorithm, .model, .apiCall]

/-- No kind is missing from `all`. -/
theorem mem_all (k : HeaderKind) : k ∈ all := by
  cases k <;> simp [all]

/-- The line that ends a program of the kind. -/
def terminator (k : HeaderKind) : String :=
  "END " ++ k.keyword

/-- The line opens a program of the kind. -/
def opens (k : HeaderKind) (line : List Char) : Bool :=
  Text.startsWith k.keyword.toList line

/-- The line ends a program of the kind. -/
def ends (k : HeaderKind) (line : List Char) : Bool :=
  Text.startsWith k.terminator.toList line

/-- The kind of program that a line opens. -/
def ofLine? (line : List Char) : Option HeaderKind :=
  all.find? fun k => k.opens line

end HeaderKind

/-! ## Programs -/

/-- Where a statement was read: its line, from one, and the number written on it. -/
structure Location where
  line : Nat
  step : Nat
deriving DecidableEq, Repr

/-- The location as a JSON document. -/
def Location.toJson (l : Location) : Json :=
  .object [("line", .int l.line), ("step", .int l.step)]

/-- A program. -/
structure Program where
  name : String
  kind : HeaderKind
  /-- The names that inputs are bound to, in order. -/
  inputs : List String := []
  /-- What the program says about its result; nothing depends on it. -/
  output : Option String := none
  body : List Statement := []
  /-- The place of each statement of the body. -/
  locations : List Location := []
deriving DecidableEq, Repr

namespace Program

/-- The place of a statement. -/
def location? (p : Program) (position : Nat) : Option Location :=
  p.locations[position]?

/-- The line of a statement, zero when it is not known. -/
def lineOf (p : Program) (position : Nat) : Nat :=
  match p.location? position with
  | some l => l.line
  | none => 0

/-- The program with one more statement. -/
def push (p : Program) (l : Location) (s : Statement) : Program :=
  { p with body := p.body ++ [s], locations := p.locations ++ [l] }

/-! ## Canonical text -/

/-- A statement as a numbered step. -/
def stepLine (number : Nat) (s : Statement) : String :=
  "STEP " ++ Text.natText number ++ ": " ++ s.source

/-- Statements as steps, the first of them with the given number. -/
def stepLines (number : Nat) : List Statement → List String
  | [] => []
  | s :: body => stepLine number s :: stepLines (number + 1) body

/-- The line that names the inputs, when there are any. -/
def inputLines (p : Program) : List String :=
  if p.inputs.isEmpty then [] else ["INPUT: " ++ ", ".intercalate p.inputs]

/-- The line about the result, when there is one. -/
def outputLines (p : Program) : List String :=
  match p.output with
  | some output => ["OUTPUT: " ++ output]
  | none => []

/-- The lines of the canonical text. -/
def sourceLines (p : Program) : List String :=
  (p.kind.keyword ++ " " ++ p.name) :: p.inputLines ++ p.outputLines ++ stepLines 1 p.body
    ++ [p.kind.terminator]

/-- The canonical text of a program. -/
def source (p : Program) : String :=
  String.join (p.sourceLines.map (· ++ "\n"))

/-! ## JSON -/

/-- The program as a JSON document. -/
def toJson (p : Program) : Json :=
  .object
    [("name", .text p.name), ("kind", .text p.kind.name), ("inputs", Statement.textArray p.inputs),
      ("output", Json.ofText? p.output), ("body", .array (p.body.map Statement.toJson)),
      ("locations", .array (p.locations.map Location.toJson))]

end Program

end StepScript
