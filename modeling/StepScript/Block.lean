import StepScript.Fault
import StepScript.Statement.Basic

/-!
# Blocks

Blocks are opened and closed by markers in a flat list of statements, and some have a marker in
their middle. A marker finds its partner by going forward: only markers of its own family count,
so blocks of different families may cross without disturbing each other.
-/

set_option autoImplicit false

namespace StepScript

/-- The families of blocks. -/
inductive Block where
  | ifThen
  | forRange
  | forEach
  | whileLoop
  | tryBlock
deriving DecidableEq, Repr

namespace Block

/-- The keyword that opens a block. -/
def keyword : Block → String
  | .ifThen => "IF"
  | .forRange => "FOR"
  | .forEach => "FOREACH"
  | .whileLoop => "WHILE"
  | .tryBlock => "TRY"

/-- The keyword that closes a block. -/
def closerKeyword : Block → String
  | .ifThen => "END IF"
  | .forRange => "END FOR"
  | .forEach => "END FOREACH"
  | .whileLoop => "END WHILE"
  | .tryBlock => "END TRY"

/-- The block is a loop. -/
def isLoop : Block → Bool
  | .ifThen | .tryBlock => false
  | .forRange | .forEach | .whileLoop => true

end Block

/-! ## Markers -/

namespace Statement

/-- The block that a statement opens. -/
def opens? : Statement → Option Block
  | .ifThen _ => some .ifThen
  | .forRange _ _ _ => some .forRange
  | .forEach _ _ => some .forEach
  | .whileLoop _ => some .whileLoop
  | .tryBlock => some .tryBlock
  | _ => none

/-- The block that a statement closes. -/
def closes? : Statement → Option Block
  | .endIf => some .ifThen
  | .endFor => some .forRange
  | .endForEach => some .forEach
  | .endWhile => some .whileLoop
  | .endTry => some .tryBlock
  | _ => none

/-- The block that a statement divides in two. -/
def divides? : Statement → Option Block
  | .orElse => some .ifThen
  | .catchFault _ => some .tryBlock
  | _ => none

/-- The statement leaves a loop or starts its next pass. -/
def isJump : Statement → Bool
  | .breakLoop | .continueLoop => true
  | _ => false

/-- An opener is named by the keyword of its block. -/
theorem keyword_of_opens? {s : Statement} {b : Block} (h : s.opens? = some b) :
    s.keyword = b.keyword := by
  cases s <;> simp only [opens?, Option.some.injEq, reduceCtorEq] at h <;> subst h <;> rfl

/-- A closer is named by the keyword that closes its block. -/
theorem keyword_of_closes? {s : Statement} {b : Block} (h : s.closes? = some b) :
    s.keyword = b.closerKeyword := by
  cases s <;> simp only [closes?, Option.some.injEq, reduceCtorEq] at h <;> subst h <;> rfl

end Statement

/-! ## Partners -/

/-- Where a block is divided, if it is, and where it is closed. -/
structure Span where
  middle : Option Nat
  stop : Nat
deriving DecidableEq, Repr

namespace Block

/-- The partners of an opener among the statements after it, the first of which stands at
    `position`; `depth` blocks of the family are open inside, and `middle` was met before. -/
def spanFrom? (b : Block) : (after : List Statement) → (position depth : Nat) →
    (middle : Option Nat) → Option Span
  | [], _, _, _ => none
  | s :: after, position, depth, middle =>
    if s.opens? = some b then spanFrom? b after (position + 1) (depth + 1) middle
    else if s.closes? = some b then
      match depth with
      | 0 => some ⟨middle, position⟩
      | depth + 1 => spanFrom? b after (position + 1) depth middle
    else if depth = 0 ∧ middle = none ∧ s.divides? = some b then
      spanFrom? b after (position + 1) depth (some position)
    else spanFrom? b after (position + 1) depth middle

/-- The closer of a block among the statements after one of its markers, the first of which stands
    at `position`; `depth` blocks of the family are open inside. -/
def closerFrom? (b : Block) : (after : List Statement) → (position depth : Nat) → Option Nat
  | [], _, _ => none
  | s :: after, position, depth =>
    if s.opens? = some b then closerFrom? b after (position + 1) (depth + 1)
    else if s.closes? = some b then
      match depth with
      | 0 => some position
      | depth + 1 => closerFrom? b after (position + 1) depth
    else closerFrom? b after (position + 1) depth

/-- The partners of the opener at a position. -/
def spanOf (body : List Statement) (position : Nat) : Except Fault Span :=
  match body[position]? with
  | none => .error (.structural (.notOpener position))
  | some s =>
    match s.opens? with
    | none => .error (.structural (.notOpener position))
    | some b =>
      match b.spanFrom? (body.drop (position + 1)) (position + 1) 0 none with
      | some span => .ok span
      | none => .error (.structural (.unclosed s.keyword position b.closerKeyword))

/-- The closer of the block that the marker at a position divides. -/
def closerOf (body : List Statement) (position : Nat) : Except Fault Nat :=
  match body[position]? with
  | none => .error (.structural (.notMiddle position))
  | some s =>
    match s.divides? with
    | none => .error (.structural (.notMiddle position))
    | some b =>
      match b.closerFrom? (body.drop (position + 1)) (position + 1) 0 with
      | some stop => .ok stop
      | none => .error (.structural (.unclosed s.keyword position b.closerKeyword))

end Block

end StepScript
