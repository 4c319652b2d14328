import StepScript.Program.Lint

/-!
# Checks

All issues of a text: those of its lines and those of its blocks, each one once, by their lines.
-/

set_option autoImplicit false

namespace StepScript

/-- Issues with further ones added that are not among them. -/
def Issue.union (issues : List Issue) : (more : List Issue) → List Issue
  | [] => issues
  | i :: more => union (if i ∈ issues then issues else issues ++ [i]) more

/-- The issues of a text, in the order of their lines; a text that is no program lists none. -/
def Program.check (source : String) : Except SyntaxFault (List Issue) :=
  match Program.parse source false with
  | .error fault => .error fault
  | .ok p =>
    let issues := Issue.union (Lint.issues source) p.structureIssues
    .ok (issues.mergeSort fun a b => a.line ≤ b.line)

end StepScript
