import StepScript.Operator
import StepScript.Text.Blank

/-!
# Assignments in plain text

Content without a keyword may be an assignment, with or without an operator. It is cut at the first
equals sign outside of quotes and brackets that is not one of two in a row; a sign that belongs to a
comparison makes it no assignment.
-/

set_option autoImplicit false

namespace StepScript

/-- An assignment as text: the target, the operator that combines its old value, the new value. -/
structure Assignment where
  target : String
  op : Option BinaryOp
  expr : String
deriving DecidableEq, Repr

namespace Assignment

/-- How much deeper in brackets the text is after a character. -/
def deeper (c : Char) : Int :=
  if c == '(' || c == '[' || c == '\x7b' then 1
  else if c == ')' || c == ']' || c == '\x7d' then -1
  else 0

/-- The text before the equals sign, last character first, and the text after it. `passed` was read
    before, `depth` brackets are open, and `quote` is open if it is some. -/
def cut? : (text passed : List Char) → (depth : Int) → (quote : Option Char) →
    Option (List Char × List Char)
  | [], _, _, _ => none
  | '\\' :: c :: text, passed, depth, some q => cut? text (c :: '\\' :: passed) depth (some q)
  | c :: text, passed, depth, some q =>
    cut? text (c :: passed) depth (if c == q then none else some q)
  | '=' :: '=' :: text, passed, 0, none => cut? text ('=' :: '=' :: passed) 0 none
  | '=' :: text, passed, 0, none => some (passed, text)
  | c :: text, passed, depth, none =>
    if c == '"' || c == '\'' then cut? text (c :: passed) depth (some c)
    else cut? text (c :: passed) (depth + deeper c) none

/-- The operator before an equals sign, and the text before it; the text comes last character
    first. A comparison has none. -/
def operator? : List Char → Option (Option BinaryOp × List Char)
  | '/' :: '/' :: before => some (some .floorDiv, before)
  | '*' :: '*' :: before => some (some .pow, before)
  | '+' :: before => some (some .add, before)
  | '-' :: before => some (some .sub, before)
  | '*' :: before => some (some .mul, before)
  | '/' :: before => some (some .div, before)
  | '%' :: before => some (some .mod, before)
  | '!' :: _ => none
  | '<' :: _ => none
  | '>' :: _ => none
  | before => some (none, before)

/-- The assignment that a text is. -/
def ofText? (text : String) : Option Assignment := do
  let (before, after) ← cut? text.toList [] 0 none
  let (op, before) ← operator? before
  let target := Text.trim before.reverse
  let expr := Text.trim after
  if target.isEmpty || expr.isEmpty then none
  return ⟨String.ofList target, op, String.ofList expr⟩

end Assignment

end StepScript
