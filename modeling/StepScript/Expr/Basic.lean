import StepScript.Value.Basic

/-!
# Expressions

The tree of an expression. Parentheses leave no trace in it. A literal holds its value; only
`None`, truth values, numbers and texts are written as literals.
-/

set_option autoImplicit false

namespace StepScript

/-- An expression. -/
inductive Expr where
  | literal (value : Value)
  | name (name : String)
  | list (items : List Expr)
  | dict (entries : List (Expr × Expr))
  | unary (op : UnaryOp) (operand : Expr)
  | binary (op : BinaryOp) (left right : Expr)
  | call (callee : Expr) (args : List Expr)
  | index (container index : Expr)
  | slice (container : Expr) (low high : Option Expr)
  | field (owner : Expr) (name : String)

namespace Expr

/-- `None` stands for an expression that was not given. -/
instance : Inhabited Expr :=
  ⟨.literal .nothing⟩

/-- The expression names a place that can be assigned to. -/
def isPlace : Expr → Bool
  | .name _ | .index _ _ | .field _ _ => true
  | _ => false

/-! ## Literals -/

/-- A number written with a sign. -/
def isNumeral : Expr → Bool
  | .literal (.int _) | .literal (.float _) => true
  | _ => false

mutual

/-- The expression is plain data: literals, signed numerals, lists and dictionaries of those. -/
def isLiteral : Expr → Bool
  | .literal _ => true
  | .list items => areLiterals items
  | .dict entries => areLiteralEntries entries
  | .unary .neg e | .unary .pos e => e.isNumeral
  | _ => false
termination_by structural e => e

/-- All expressions are plain data. -/
def areLiterals : List Expr → Bool
  | [] => true
  | e :: es => isLiteral e && areLiterals es
termination_by structural es => es

/-- All entries are plain data. -/
def areLiteralEntries : List (Expr × Expr) → Bool
  | [] => true
  | e :: es => isLiteralEntry e && areLiteralEntries es
termination_by structural es => es

/-- Key and value are plain data. -/
def isLiteralEntry : Expr × Expr → Bool
  | (k, v) => isLiteral k && isLiteral v
termination_by structural e => e

end

end Expr

end StepScript
