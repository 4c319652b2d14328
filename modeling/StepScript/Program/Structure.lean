import StepScript.Issue
import StepScript.Program.Basic

/-!
# Block structure

The check that blocks are well nested: every opener has one closer of its own family, blocks do
not cross, a block has at most one marker in its middle, and loops are left only from inside.

One pass over the statements keeps the blocks that are open, innermost first. The issues come in
the order in which the pass meets them.
-/

set_option autoImplicit false

namespace StepScript

/-- A block that is open: its family, the line of its opener, and whether its middle was passed. -/
structure OpenBlock where
  block : Block
  line : Nat
  divided : Bool := false
deriving DecidableEq, Repr

namespace Structure

/-! ## One statement -/

/-- A marker in the middle of a block belongs to the innermost open one. -/
def divide (b : Block) (keyword : String) (line : Nat) (opened : List OpenBlock) :
    List Issue × List OpenBlock :=
  match opened with
  | top :: outer =>
    if top.block = b then
      if top.divided then ([⟨line, .secondMiddle keyword top.block.keyword⟩], opened)
      else ([], { top with divided := true } :: outer)
    else ([⟨line, .strayMiddle keyword⟩], opened)
  | [] => ([⟨line, .strayMiddle keyword⟩], opened)

/-- A closer closes the innermost open block of its family, and with it all inside that one. -/
def close (b : Block) (keyword : String) (line : Nat) (opened : List OpenBlock) :
    List Issue × List OpenBlock :=
  match opened.dropWhile fun o => o.block ≠ b with
  | _ :: outer =>
    let inner := opened.takeWhile fun o => o.block ≠ b
    (inner.reverse.map fun o => ⟨o.line, .unclosedBefore o.block.keyword keyword line⟩, outer)
  | [] => ([⟨line, .strayCloser keyword⟩], opened)

/-- The issues of one statement, and the open blocks after it. -/
def pass (s : Statement) (line : Nat) (opened : List OpenBlock) : List Issue × List OpenBlock :=
  match s.opens?, s.divides?, s.closes? with
  | some b, _, _ => ([], ⟨b, line, false⟩ :: opened)
  | none, some b, _ => divide b s.keyword line opened
  | none, none, some b => close b s.keyword line opened
  | none, none, none =>
    if s.isJump && !(opened.any fun o => o.block.isLoop) then
      ([⟨line, .outsideLoop s.keyword⟩], opened)
    else ([], opened)

/-! ## All statements -/

/-- The issues of blocks that are still open at the end. -/
def leftOpen (opened : List OpenBlock) : List Issue :=
  opened.reverse.map fun o => ⟨o.line, .unclosed o.block.keyword o.block.closerKeyword⟩

/-- The issues of statements, each with its line. -/
def issues : List (Statement × Nat) → (opened : List OpenBlock) → List Issue
  | [], opened => leftOpen opened
  | (s, line) :: rest, opened => (pass s line opened).1 ++ issues rest (pass s line opened).2

end Structure

namespace Program

/-- The statements with their lines, the first of them at a position. -/
def withLines (p : Program) (position : Nat) : List Statement → List (Statement × Nat)
  | [] => []
  | s :: body => (s, p.lineOf position) :: withLines p (position + 1) body

/-- The issues of a program's block structure. -/
def structureIssues (p : Program) : List Issue :=
  Structure.issues (p.withLines 0 p.body) []

end Program

end StepScript
