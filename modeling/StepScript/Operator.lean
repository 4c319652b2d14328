/-!
# Operators

The operators of expressions, with the symbols they are written and reported by.
-/

set_option autoImplicit false

namespace StepScript

/-- Operators with one operand, written in front of it. -/
inductive UnaryOp where
  | neg
  | pos
  | not
deriving DecidableEq, Repr

/-- The symbol of a unary operator. -/
def UnaryOp.symbol : UnaryOp → String
  | .neg => "-"
  | .pos => "+"
  | .not => "not"

/-- Operators with two operands, written between them. -/
inductive BinaryOp where
  | or
  | and
  | eq
  | ne
  | lt
  | le
  | gt
  | ge
  | isIn
  | notIn
  | add
  | sub
  | mul
  | div
  | floorDiv
  | mod
  | pow
deriving DecidableEq, Repr

namespace BinaryOp

/-- The symbol of a binary operator. -/
def symbol : BinaryOp → String
  | .or => "or"
  | .and => "and"
  | .eq => "=="
  | .ne => "!="
  | .lt => "<"
  | .le => "<="
  | .gt => ">"
  | .ge => ">="
  | .isIn => "in"
  | .notIn => "not in"
  | .add => "+"
  | .sub => "-"
  | .mul => "*"
  | .div => "/"
  | .floorDiv => "//"
  | .mod => "%"
  | .pow => "**"

/-- All binary operators. -/
def all : List BinaryOp :=
  [.or, .and, .eq, .ne, .lt, .le, .gt, .ge, .isIn, .notIn, .add, .sub, .mul, .div, .floorDiv, .mod,
    .pow]

/-- No binary operator is missing from `all`. -/
theorem mem_all (op : BinaryOp) : op ∈ all := by
  cases op <;> simp [all]

end BinaryOp

end StepScript
