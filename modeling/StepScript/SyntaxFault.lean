import StepScript.Issue

/-!
# Texts that are no programs

Why a text cannot be read as a program, or a content not as a statement. Lines count from one.
-/

set_option autoImplicit false

namespace StepScript

/-- Why a text is no program. -/
inductive SyntaxFault where
  /-- Nothing but blank lines and comments. -/
  | empty
  /-- The first line opens no program. -/
  | missingHeader (line : Nat) (found : String)
  /-- The first line names no program. -/
  | missingName (line : Nat)
  /-- Content that does not have the form of its keyword. -/
  | malformed (line : Nat) (keyword content : String)
  /-- A block without its partner. -/
  | unbalanced (issue : Issue)
  /-- A line that is neither a step nor anything else known. -/
  | unrecognized (line : Nat) (content : String)
deriving DecidableEq, Repr

/-- The wording of a `SyntaxFault`. -/
def SyntaxFault.message : SyntaxFault → String
  | .empty => "empty program: expected an ALGORITHM, MODEL or API_CALL header"
  | .missingHeader line found =>
    atLine line ("expected ALGORITHM, MODEL or API_CALL header, found '" ++ found ++ "'")
  | .missingName line => atLine line "header is missing a program name"
  | .malformed line keyword content =>
    atLine line ("malformed " ++ keyword ++ " statement: '" ++ content ++ "'")
  | .unbalanced issue => issue.text
  | .unrecognized line content => atLine line ("not a STEP line: '" ++ content ++ "'")

end StepScript
