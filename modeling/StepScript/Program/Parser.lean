import StepScript.Program.Structure
import StepScript.Statement.Parser

/-!
# Reading programs

A program is read line by line. Lines are trimmed; blank lines and comments do not count. The first
line that counts is the header, and the program ends at the first terminator or at the end of the
text. Between them stand the names of the inputs, a remark on the output, and the steps.

Permissive reading passes over every other line, and over steps that are malformed. Strict reading
refuses them, and it refuses programs whose blocks are not well nested.
-/

set_option autoImplicit false

namespace StepScript

/-! ## Lines -/

/-- A line with its number, from one. -/
structure SourceLine where
  number : Nat
  text : List Char
deriving DecidableEq, Repr

namespace SourceLine

/-- The line counts: it is neither blank nor a comment. -/
def counts (l : SourceLine) : Bool :=
  match l.text with
  | [] => false
  | c :: _ => c != '#'

/-- Lines trimmed and numbered, the first of them with the given number. -/
def numberFrom (n : Nat) : List String → List SourceLine
  | [] => []
  | line :: lines => ⟨n, Text.trim line.toList⟩ :: numberFrom (n + 1) lines

/-- The lines that count. -/
def ofLines (lines : List String) : List SourceLine :=
  (numberFrom 1 lines).filter counts

/-- The line ends a program. -/
def isTerminator (l : SourceLine) : Bool :=
  HeaderKind.all.any fun k => k.ends l.text

end SourceLine

/-! ## Steps -/

/-- Step numbers beyond this count as zero. -/
def maxStep : Nat :=
  Nat.pow 2 64 - 1

/-- The number of a step. -/
def stepNumber (digits : List Char) : Nat :=
  if Text.natOfDigits digits ≤ maxStep then Text.natOfDigits digits else 0

/-- Number and content of a step line. -/
def stepContent? (line : List Char) : Option (Nat × List Char) := do
  let cs ← Line.word? "STEP" line
  let cs ← Line.gap? cs
  let digits := cs.takeWhile Text.isDigit
  if digits.isEmpty then none
  let cs := cs.dropWhile Text.isDigit
  let cs := (Line.word? ":" cs).getD cs
  match Line.skipGap cs with
  | [] => none
  | content => some (stepNumber digits, Text.trim content)

/-- The statement of a step line, and its place. -/
def parseStep (l : SourceLine) : Except SyntaxFault (Location × Statement) :=
  match stepContent? l.text with
  | none => .error (.malformed l.number "STEP" (String.ofList l.text))
  | some (step, content) => do
    let s ← Statement.parse (String.ofList content) l.number
    return (⟨l.number, step⟩, s)

/-! ## Programs -/

/-- The names on a line of inputs. -/
def inputNames (cs : List Char) : List String :=
  (((Text.splitAt [','] cs).map Text.trim).filter (!·.isEmpty)).map String.ofList

namespace Program

/-- The program after one more line. -/
def addLine (strict : Bool) (p : Program) (l : SourceLine) : Except SyntaxFault Program :=
  match Line.word? "INPUT:" l.text, Line.word? "OUTPUT:" l.text with
  | some names, _ => .ok { p with inputs := inputNames names }
  | none, some output => .ok { p with output := some (Line.operandText output) }
  | none, none =>
    if Text.startsWith "STEP".toList l.text then
      match parseStep l with
      | .ok (location, s) => .ok (p.push location s)
      | .error fault => if strict then .error fault else .ok p
    else if strict then .error (.unrecognized l.number (String.ofList l.text))
    else .ok p

/-- The program after more lines, up to the first terminator. -/
def addLines (strict : Bool) (p : Program) : List SourceLine → Except SyntaxFault Program
  | [] => .ok p
  | l :: lines =>
    if l.isTerminator then .ok p
    else do
      let p ← p.addLine strict l
      p.addLines strict lines

/-- The program that a header opens. -/
def ofHeader (l : SourceLine) : Except SyntaxFault Program :=
  match HeaderKind.ofLine? l.text, (Text.words l.text)[1]? with
  | none, _ => .error (.missingHeader l.number (String.ofList l.text))
  | some _, none => .error (.missingName l.number)
  | some kind, some name => .ok ⟨String.ofList name, kind, [], none, [], []⟩

/-- A program refused when its blocks are not well nested. -/
def checked (p : Program) : Except SyntaxFault Program :=
  match p.structureIssues with
  | [] => .ok p
  | issue :: _ => .error (.unbalanced issue)

/-- The program that lines make. -/
def ofLines (lines : List String) (strict : Bool) : Except SyntaxFault Program :=
  match SourceLine.ofLines lines with
  | [] => .error .empty
  | header :: lines => do
    let p ← ofHeader header
    let p ← p.addLines strict lines
    if strict then p.checked else return p

/-- The program that a text makes. -/
def parse (source : String) (strict : Bool) : Except SyntaxFault Program :=
  ofLines (Text.lines source) strict

end Program

end StepScript
