import StepScript.Decimal.Text
import StepScript.Text.Blank

/-!
# Tokens

The words an expression is made of. `Token.scan?` cuts a text into tokens, always taking the
longest one and passing over spaces and tabs; it fails on a character that starts no token and
on a text whose quote is never closed.

Whether a word is a name, an operator or a literal depends on where it stands, so that is left
to the parser.
-/

set_option autoImplicit false

namespace StepScript

/-- Tokens without content of their own. -/
inductive Symbol where
  | plus
  | minus
  | star
  | starStar
  | slash
  | slashSlash
  | percent
  | eqEq
  | notEq
  | less
  | lessEq
  | greater
  | greaterEq
  | openParen
  | closeParen
  | openBracket
  | closeBracket
  | openBrace
  | closeBrace
  | comma
  | colon
  | dot
deriving DecidableEq, Repr

/-- A token of an expression. -/
inductive Token where
  | word (name : String)
  /-- An integer, not yet checked for its range. -/
  | int (n : Nat)
  | float (x : Binary64)
  /-- A text in quotes, its escapes resolved. -/
  | text (s : String)
  | symbol (s : Symbol)
deriving DecidableEq, Repr

namespace Token

/-! ## Numbers -/

/-- An exponent and what follows it. -/
def exponent? : List Char → Option (Int × List Char)
  | c :: cs =>
    let (negative, rest) := Text.signed cs
    let digits := rest.takeWhile Text.isDigit
    if (c == 'e' || c == 'E') && !digits.isEmpty then
      let n : Int := Text.natOfDigits digits
      some (if negative then -n else n, rest.dropWhile Text.isDigit)
    else none
  | [] => none

/-- The number that starts the text, which begins with a digit or with a point and a digit. -/
def number (cs : List Char) : Token × List Char :=
  let whole := cs.takeWhile Text.isDigit
  match cs.dropWhile Text.isDigit with
  | '.' :: rest =>
    let fraction := rest.takeWhile Text.isDigit
    let rest := rest.dropWhile Text.isDigit
    let coefficient := Text.natOfDigits (whole ++ fraction)
    match exponent? rest with
    | some (e, rest) => (.float (Binary64.ofDecimal false coefficient (e - fraction.length)), rest)
    | none => (.float (Binary64.ofDecimal false coefficient (-fraction.length)), rest)
  | rest =>
    match exponent? rest with
    | some (e, rest) => (.float (Binary64.ofDecimal false (Text.natOfDigits whole) e), rest)
    | none => (.int (Text.natOfDigits whole), rest)

/-! ## Texts -/

/-- The character an escape stands for. -/
def unescaped (c : Char) : Char :=
  if c == 'n' then '\n'
  else if c == 't' then '\t'
  else if c == 'r' then '\r'
  else if c == '0' then '\x00'
  else c

/-- The characters up to the closing quote, and what follows it. -/
def quoted? (quote : Char) : List Char → Option (List Char × List Char)
  | [] => none
  | '\\' :: c :: cs => (quoted? quote cs).map fun (s, rest) => (unescaped c :: s, rest)
  | c :: cs =>
    if c == quote then some ([], cs)
    else (quoted? quote cs).map fun (s, rest) => (c :: s, rest)

/-! ## Symbols -/

/-- The symbol that starts the text, the longest one. -/
def symbol? : List Char → Option (Symbol × List Char)
  | '*' :: '*' :: cs => some (.starStar, cs)
  | '/' :: '/' :: cs => some (.slashSlash, cs)
  | '=' :: '=' :: cs => some (.eqEq, cs)
  | '!' :: '=' :: cs => some (.notEq, cs)
  | '<' :: '=' :: cs => some (.lessEq, cs)
  | '>' :: '=' :: cs => some (.greaterEq, cs)
  | '<' :: cs => some (.less, cs)
  | '>' :: cs => some (.greater, cs)
  | '+' :: cs => some (.plus, cs)
  | '-' :: cs => some (.minus, cs)
  | '*' :: cs => some (.star, cs)
  | '/' :: cs => some (.slash, cs)
  | '%' :: cs => some (.percent, cs)
  | '(' :: cs => some (.openParen, cs)
  | ')' :: cs => some (.closeParen, cs)
  | '[' :: cs => some (.openBracket, cs)
  | ']' :: cs => some (.closeBracket, cs)
  | '\x7b' :: cs => some (.openBrace, cs)
  | '\x7d' :: cs => some (.closeBrace, cs)
  | ',' :: cs => some (.comma, cs)
  | ':' :: cs => some (.colon, cs)
  | '.' :: cs => some (.dot, cs)
  | _ => none

/-! ## Scanning -/

/-- The text starts with a number. -/
def startsNumber : List Char → Bool
  | '.' :: c :: _ => Text.isDigit c
  | c :: _ => Text.isDigit c
  | [] => false

/-- The token that starts the text, which is not empty and does not start with a gap. -/
def next? (cs : List Char) : Option (Token × List Char) :=
  match cs with
  | [] => none
  | c :: rest =>
    if startsNumber cs then some (number cs)
    else if Text.isNameStart c then
      some (.word (String.ofList (cs.takeWhile Text.isNameChar)), cs.dropWhile Text.isNameChar)
    else if c == '"' || c == '\'' then
      (quoted? c rest).map fun (s, rest) => (.text (String.ofList s), rest)
    else (symbol? cs).map fun (s, rest) => (.symbol s, rest)

/-- The tokens of a text; `fuel` is at least its length. -/
def scanWith : (fuel : Nat) → List Char → Option (List Token)
  | 0, cs => if (cs.dropWhile Text.isGap).isEmpty then some [] else none
  | fuel + 1, cs =>
    match cs.dropWhile Text.isGap with
    | [] => some []
    | cs =>
      match next? cs with
      | none => none
      | some (token, rest) => (scanWith fuel rest).map (token :: ·)

/-- The tokens of a text. -/
def scan? (cs : List Char) : Option (List Token) :=
  scanWith cs.length cs

/-- The token holds no integer beyond the 64-bit range. -/
def inRange : Token → Bool
  | .int n => n < Nat.pow 2 63
  | _ => true

end Token

end StepScript
