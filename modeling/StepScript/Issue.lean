import StepScript.Text.Digits

/-!
# Issues

What a check of a program can object to, as causes tied to the lines they are on. Lines count from
one; a line that is not known is zero. Keywords stand for the statements they name.
-/

set_option autoImplicit false

namespace StepScript

/-- The number of a line as messages start with it. -/
def atLine (line : Nat) (message : String) : String :=
  "line " ++ Text.natText line ++ ": " ++ message

/-- What is wrong with a program. -/
inductive Problem where
  /-- No line counts. -/
  | emptyProgram
  /-- No line ends the program. -/
  | missingTerminator (terminator : String)
  /-- The first line opens no program. -/
  | missingHeader
  /-- An assignment without an arrow. -/
  | missingArrow
  /-- A condition without the word that closes it. -/
  | missingThen
  /-- A middle marker in a block that has one. -/
  | secondMiddle (marker opener : String)
  /-- A middle marker whose block is not the innermost open one. -/
  | strayMiddle (marker : String)
  /-- A block still open when one around it is closed. -/
  | unclosedBefore (opener closer : String) (closerLine : Nat)
  /-- A closer without an open block of its family. -/
  | strayCloser (closer : String)
  /-- A jump out of a loop where none is open. -/
  | outsideLoop (jump : String)
  /-- A block still open at the end. -/
  | unclosed (opener closer : String)
deriving DecidableEq, Repr

/-- The wording of a problem. -/
def Problem.message : Problem → String
  | .emptyProgram => "empty program"
  | .missingTerminator terminator => "missing '" ++ terminator ++ "'"
  | .missingHeader => "file must start with ALGORITHM, MODEL or API_CALL"
  | .missingArrow => "missing assignment operator '←'"
  | .missingThen => "missing THEN in IF statement"
  | .secondMiddle marker opener => "second " ++ marker ++ " in " ++ opener ++ " block"
  | .strayMiddle marker => marker ++ " outside of a matching block"
  | .unclosedBefore opener closer closerLine =>
    opener ++ " is not closed before " ++ closer ++ " on line " ++ Text.natText closerLine
  | .strayCloser closer => closer ++ " without a matching opener"
  | .outsideLoop jump => jump ++ " outside of a loop"
  | .unclosed opener closer => opener ++ " has no matching " ++ closer

/-- A problem and the line it is on. -/
structure Issue where
  line : Nat
  problem : Problem
deriving DecidableEq, Repr

/-- The wording of an issue. -/
def Issue.message (i : Issue) : String :=
  i.problem.message

/-- The wording of an issue with its line. -/
def Issue.text (i : Issue) : String :=
  atLine i.line i.message

end StepScript
