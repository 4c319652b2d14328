import StepScript.Expr.Token
import StepScript.Text.Blank
import StepScript.Text.Search

/-!
# Parts of a statement line

Readers for the parts that statements are made of. A reader takes characters and gives what it
read and the characters after it; nothing it has taken is ever given back. Only spaces and tabs
separate parts, while the text of an operand is trimmed of every blank.

An operand is free text. It ends where its follower comes for the first time: `takeUntil` cuts a
line at the first place where a test of the remaining characters holds.
-/

set_option autoImplicit false

namespace StepScript.Line

/-! ## Gaps, words and arrows -/

/-- The characters after any gap. -/
def skipGap (cs : List Char) : List Char :=
  cs.dropWhile Text.isGap

/-- The characters after a gap that must be there. -/
def gap? : List Char → Option (List Char)
  | c :: cs => if Text.isGap c then some (skipGap cs) else none
  | [] => none

/-- The characters after a fixed word. -/
def word? (w : String) (cs : List Char) : Option (List Char) :=
  Text.after? w.toList cs

/-- The characters after an arrow to the left. -/
def leftArrow? : List Char → Option (List Char)
  | '←' :: cs => some cs
  | '<' :: '-' :: cs => some cs
  | _ => none

/-- The characters after an arrow to the right. -/
def rightArrow? : List Char → Option (List Char)
  | '→' :: cs => some cs
  | '-' :: '>' :: cs => some cs
  | _ => none

/-- Nothing but a gap is left. -/
def atEnd (cs : List Char) : Bool :=
  (skipGap cs).isEmpty

/-- Nothing but a gap and a colon is left. -/
def atMarkerEnd (cs : List Char) : Bool :=
  match skipGap cs with
  | ':' :: cs => atEnd cs
  | cs => cs.isEmpty

/-! ## Names -/

/-- A name. -/
def name? : List Char → Option (String × List Char)
  | c :: cs =>
    if Text.isNameStart c then
      some (String.ofList (c :: cs.takeWhile Text.isNameChar), cs.dropWhile Text.isNameChar)
    else none
  | [] => none

/-- Names with points between them, from the second character on. -/
def pathChars : List Char → List Char × List Char
  | [] => ([], [])
  | c :: cs =>
    if Text.isNameChar c || (c == '.' && (cs.head?.map Text.isNameStart).getD false) then
      let (path, rest) := pathChars cs
      (c :: path, rest)
    else ([], c :: cs)

/-- Names with points between them. -/
def path? : List Char → Option (String × List Char)
  | c :: cs =>
    if Text.isNameStart c then
      let (path, rest) := pathChars cs
      some (String.ofList (c :: path), rest)
    else none
  | [] => none

/-! ## Operands -/

/-- The text of an operand. -/
def operandText (cs : List Char) : String :=
  String.ofList (Text.trim cs)

/-- All that is left, which must be something. -/
def rest? (cs : List Char) : Option String :=
  if cs.isEmpty then none else some (operandText cs)

/-- The characters before the first place where `stop` holds, and those from there on. -/
def takeUntil (stop : List Char → Bool) : List Char → List Char × List Char
  | [] => ([], [])
  | c :: cs =>
    if stop (c :: cs) then ([], c :: cs)
    else
      let (taken, rest) := takeUntil stop cs
      (c :: taken, rest)

/-- Nothing is lost by a cut. -/
theorem takeUntil_append (stop : List Char → Bool) (cs : List Char) :
    (takeUntil stop cs).1 ++ (takeUntil stop cs).2 = cs := by
  induction cs with
  | nil => rfl
  | cons c cs ih =>
    unfold takeUntil
    split
    · rfl
    · simp [ih]

/-- What a cut leaves is at a stop, or nothing. -/
theorem stop_of_takeUntil {stop : List Char → Bool} {cs : List Char}
    (h : (takeUntil stop cs).2 ≠ []) : stop (takeUntil stop cs).2 = true := by
  induction cs with
  | nil => simp [takeUntil] at h
  | cons c cs ih =>
    unfold takeUntil at h ⊢
    split
    · assumption
    · rename_i hs
      simp only [hs] at h
      exact ih (by simpa using h)

/-- An operand that ends where `stop` holds; it must hold at least one character. -/
def until? (stop : List Char → Bool) (cs : List Char) : Option (String × List Char) :=
  let (taken, rest) := takeUntil stop cs
  if taken.isEmpty then none else some (operandText taken, rest)

/-! ## Followers -/

/-- A gap and an arrow to the left come next. -/
def beforeLeftArrow (cs : List Char) : Bool :=
  ((gap? cs).bind leftArrow?).isSome

/-- A gap and a fixed word come next, and nothing else. -/
def beforeLast (w : String) (cs : List Char) : Bool :=
  match (gap? cs).bind (word? w) with
  | some cs => atEnd cs
  | none => false

/-- A gap and `to` with another gap come next. -/
def beforeTo (cs : List Char) : Bool :=
  (((gap? cs).bind (word? "to")).bind gap?).isSome

/-- An arrow to the right and the name it points to, at the end of the line. -/
def target? (cs : List Char) : Option String :=
  match (rightArrow? (skipGap cs)).bind fun cs => name? (skipGap cs) with
  | some (name, cs) => if atEnd cs then some name else none
  | none => none

/-- An arrow to the right and its target come next. -/
def beforeTarget (cs : List Char) : Bool :=
  (target? cs).isSome

/-- A target, or the end of the line without one. -/
def optionalTarget? (cs : List Char) : Option (Option String) :=
  match target? cs with
  | some name => some (some name)
  | none => if atEnd cs then some none else none

/-- The end of a line that closes an operand with a fixed word. -/
def last? (w : String) (cs : List Char) : Option Unit :=
  if beforeLast w cs then some () else none

/-! ## Arguments -/

/-- The character opens a bracket: the one that closes it. -/
def closerOf? (c : Char) : Option Char :=
  if c == '(' then some ')'
  else if c == '[' then some ']'
  else if c == '\x7b' then some '\x7d'
  else none

/-- The character closes a bracket. -/
def isCloser (c : Char) : Bool :=
  c == ')' || c == ']' || c == '\x7d'

/-- The characters after a text in quotes, when it is closed. -/
def afterQuoted? : List Char → Option (List Char)
  | c :: cs => if c == '"' || c == '\'' then (Token.quoted? c cs).map Prod.snd else none
  | [] => none

/-- What is left after the inside of a bracket: the first closing bracket that matches none of the
    inside, or nothing. Quotes and brackets that are never closed count as plain characters.
    `fuel` is at least the number of characters. -/
def afterInside : (fuel : Nat) → List Char → List Char
  | 0, cs => cs
  | _, [] => []
  | fuel + 1, c :: cs =>
    match afterQuoted? (c :: cs), closerOf? c with
    | some rest, _ => afterInside fuel rest
    | none, some closer =>
      match afterInside fuel cs with
      | d :: rest => if d == closer then afterInside fuel rest else d :: rest
      | [] => []
    | none, none => if isCloser c then c :: cs else afterInside fuel cs

/-- The characters after a bracket and all that is inside it, when it is closed. -/
def afterBracket? : List Char → Option (List Char)
  | c :: cs =>
    match closerOf? c, afterInside cs.length cs with
    | some closer, d :: rest => if d == closer then some rest else none
    | _, _ => none
  | [] => none

/-- What is left after an argument: a comma or closing bracket outside of quotes and brackets, or
    nothing. `fuel` is at least the number of characters. -/
def afterArgument : (fuel : Nat) → List Char → List Char
  | 0, cs => cs
  | _, [] => []
  | fuel + 1, c :: cs =>
    match afterQuoted? (c :: cs), afterBracket? (c :: cs) with
    | some rest, _ => afterArgument fuel rest
    | none, some rest => afterArgument fuel rest
    | none, none => if c == ',' || isCloser c then c :: cs else afterArgument fuel cs

/-- One argument, which must hold at least one character. -/
def argument? (cs : List Char) : Option (String × List Char) :=
  let rest := afterArgument cs.length cs
  if rest.length == cs.length then none
  else some (operandText (cs.take (cs.length - rest.length)), rest)

/-- Further arguments, each after a comma. -/
def moreArguments : (fuel : Nat) → List Char → List String × List Char
  | 0, cs => ([], cs)
  | fuel + 1, cs =>
    match cs with
    | ',' :: rest =>
      match argument? (skipGap rest) with
      | some (arg, rest) =>
        let (args, rest) := moreArguments fuel rest
        (arg :: args, rest)
      | none => ([], cs)
    | cs => ([], cs)

/-- Arguments in parentheses. -/
def arguments? : List Char → Option (List String × List Char)
  | '(' :: cs =>
    let cs := skipGap cs
    let (args, rest) :=
      match argument? cs with
      | some (arg, rest) =>
        let (args, rest) := moreArguments rest.length rest
        (arg :: args, rest)
      | none => ([], cs)
    match skipGap rest with
    | ')' :: rest => some (args, rest)
    | _ => none
  | _ => none

end StepScript.Line
