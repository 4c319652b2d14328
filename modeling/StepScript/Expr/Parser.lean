import StepScript.Expr.Basic
import StepScript.Expr.Token

/-!
# Parsing expressions

From tokens to trees by operator precedence. Every operator has a level, from `or` at the loosest
to calls, indices and fields at the tightest. `Parser.operand` reads an operand with the operators
in front of it, and `Parser.extend` takes in whatever binds tighter than the level it was given.

All binary operators group to the left except the power, and a sign takes in powers but no
products, a `not` comparisons but no `and`. The words `or`, `and` and `in` are operators only
where an operator can stand; elsewhere they are names.
-/

set_option autoImplicit false

namespace StepScript

/-! ## Levels -/

/-- How tightly a binary operator binds. -/
def BinaryOp.level : BinaryOp → Nat
  | .or => 10
  | .and => 20
  | .eq | .ne | .lt | .le | .gt | .ge | .isIn | .notIn => 40
  | .add | .sub => 50
  | .mul | .div | .floorDiv | .mod => 60
  | .pow => 80

/-- The level that the right operand must exceed: the power groups to the right. -/
def BinaryOp.rightLevel : BinaryOp → Nat
  | .pow => 79
  | op => op.level

/-- The level that the operand of a unary operator must exceed. -/
def UnaryOp.operandLevel : UnaryOp → Nat
  | .not => 29
  | .neg | .pos => 69

namespace Expr

/-! ## Words and symbols -/

/-- The binary operator that starts the tokens. -/
def binaryOp? : List Token → Option (BinaryOp × List Token)
  | .word "or" :: ts => some (.or, ts)
  | .word "and" :: ts => some (.and, ts)
  | .word "not" :: .word "in" :: ts => some (.notIn, ts)
  | .word "in" :: ts => some (.isIn, ts)
  | .symbol .eqEq :: ts => some (.eq, ts)
  | .symbol .notEq :: ts => some (.ne, ts)
  | .symbol .lessEq :: ts => some (.le, ts)
  | .symbol .greaterEq :: ts => some (.ge, ts)
  | .symbol .less :: ts => some (.lt, ts)
  | .symbol .greater :: ts => some (.gt, ts)
  | .symbol .plus :: ts => some (.add, ts)
  | .symbol .minus :: ts => some (.sub, ts)
  | .symbol .starStar :: ts => some (.pow, ts)
  | .symbol .star :: ts => some (.mul, ts)
  | .symbol .slashSlash :: ts => some (.floorDiv, ts)
  | .symbol .slash :: ts => some (.div, ts)
  | .symbol .percent :: ts => some (.mod, ts)
  | _ => none

/-- The unary operator that starts the tokens. -/
def unaryOp? : List Token → Option (UnaryOp × List Token)
  | .symbol .minus :: ts => some (.neg, ts)
  | .symbol .plus :: ts => some (.pos, ts)
  | .word "not" :: ts => some (.not, ts)
  | _ => none

/-- What a word means where an operand stands. -/
def ofWord (w : String) : Expr :=
  if w == "True" || w == "true" then .literal (.bool true)
  else if w == "False" || w == "false" then .literal (.bool false)
  else if w == "None" || w == "null" then .literal .nothing
  else .name w

/-! ## The parser -/

/-- A parsed part and the tokens after it. -/
abbrev Parsed (α : Type) :=
  Option (α × List Token)

namespace Parser

mutual

/-- An expression whose operators bind tighter than `level`. -/
def expression : (fuel : Nat) → (level : Nat) → List Token → Parsed Expr
  | 0, _, _ => none
  | fuel + 1, level, ts =>
    match operand fuel ts with
    | none => none
    | some (e, ts) => extend fuel level e ts

/-- An operand: unary operators and what they apply to, or a primary. -/
def operand : (fuel : Nat) → List Token → Parsed Expr
  | 0, _ => none
  | fuel + 1, ts =>
    match unaryOp? ts with
    | some (op, ts) => (expression fuel op.operandLevel ts).map fun (e, ts) => (.unary op e, ts)
    | none =>
      match ts with
      | .symbol .openParen :: ts =>
        match expression fuel 0 ts with
        | some (e, .symbol .closeParen :: ts) => some (e, ts)
        | _ => none
      | .symbol .openBracket :: ts =>
        (items fuel .closeBracket ts).map fun (es, ts) => (.list es, ts)
      | .symbol .openBrace :: ts => (entries fuel ts).map fun (es, ts) => (.dict es, ts)
      | .int n :: ts => some (.literal (.int (Int64.ofNat n)), ts)
      | .float x :: ts => some (.literal (.float x), ts)
      | .text s :: ts => some (.literal (.text s), ts)
      | .word w :: ts => some (ofWord w, ts)
      | _ => none

/-- The expression `e` continued by everything that binds tighter than `level`. -/
def extend : (fuel : Nat) → (level : Nat) → (e : Expr) → List Token → Parsed Expr
  | 0, _, _, _ => none
  | fuel + 1, level, e, ts =>
    match ts with
    | .symbol .openParen :: ts =>
      match items fuel .closeParen ts with
      | some (args, ts) => extend fuel level (.call e args) ts
      | none => none
    | .symbol .openBracket :: ts =>
      match subscript fuel e ts with
      | some (e, ts) => extend fuel level e ts
      | none => none
    | .symbol .dot :: .word w :: ts => extend fuel level (.field e w) ts
    | ts =>
      match binaryOp? ts with
      | some (op, rest) =>
        if level < op.level then
          match expression fuel op.rightLevel rest with
          | some (right, ts) => extend fuel level (.binary op e right) ts
          | none => none
        else some (e, ts)
      | none => some (e, ts)

/-- Expressions with commas between them up to the closing symbol; one comma may follow the last. -/
def items : (fuel : Nat) → (close : Symbol) → List Token → Parsed (List Expr)
  | 0, _, _ => none
  | fuel + 1, close, ts =>
    if ts.head? == some (.symbol close) then some ([], ts.tail)
    else
      match expression fuel 0 ts with
      | some (e, .symbol .comma :: ts) => (items fuel close ts).map fun (es, ts) => (e :: es, ts)
      | some (e, t :: ts) => if t == .symbol close then some ([e], ts) else none
      | _ => none

/-- Entries with commas between them up to the closing brace; one comma may follow the last. -/
def entries : (fuel : Nat) → List Token → Parsed (List (Expr × Expr))
  | 0, _ => none
  | fuel + 1, ts =>
    if ts.head? == some (.symbol .closeBrace) then some ([], ts.tail)
    else
      match expression fuel 0 ts with
      | some (k, .symbol .colon :: ts) =>
        match expression fuel 0 ts with
        | some (v, .symbol .comma :: ts) =>
          (entries fuel ts).map fun (es, ts) => ((k, v) :: es, ts)
        | some (v, .symbol .closeBrace :: ts) => some ([(k, v)], ts)
        | _ => none
      | _ => none

/-- The index or slice after an opening bracket. -/
def subscript : (fuel : Nat) → (e : Expr) → List Token → Parsed Expr
  | 0, _, _ => none
  | fuel + 1, e, ts =>
    match ts with
    | .symbol .colon :: ts => upper fuel e none ts
    | ts =>
      match expression fuel 0 ts with
      | some (i, .symbol .closeBracket :: ts) => some (.index e i, ts)
      | some (low, .symbol .colon :: ts) => upper fuel e (some low) ts
      | _ => none

/-- The upper bound of a slice, if any, and its closing bracket. -/
def upper : (fuel : Nat) → (e : Expr) → (low : Option Expr) → List Token → Parsed Expr
  | 0, _, _, _ => none
  | fuel + 1, e, low, ts =>
    match ts with
    | .symbol .closeBracket :: ts => some (.slice e low none, ts)
    | ts =>
      match expression fuel 0 ts with
      | some (high, .symbol .closeBracket :: ts) => some (.slice e low (some high), ts)
      | _ => none

end

end Parser

/-- Fuel that suffices for a number of tokens: between two tokens the parser goes at most four
    levels down. -/
def fuelFor (tokens : List Token) : Nat :=
  4 * tokens.length + 4

/-- The expression that the tokens spell, all of them. -/
def ofTokens? (ts : List Token) : Option Expr :=
  match Parser.expression (fuelFor ts) 0 ts with
  | some (e, []) => some e
  | _ => none

/-- The expression that a text spells. -/
def parse (text : String) : Except Fault Expr :=
  match Token.scan? text.toList with
  | none => .error (.expression text .malformed)
  | some ts =>
    match ofTokens? ts with
    | none => .error (.expression text .malformed)
    | some e =>
      if ts.all Token.inRange then .ok e else .error (.expression text .integerRange)

end Expr

end StepScript
