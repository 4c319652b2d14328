import StepScript.Decimal.Text
import StepScript.Text.Search

/-!
# JSON documents

A JSON document as a tree whose objects keep their members in order, and its two printed forms:
`compact` on one line and `pretty` with one member or item a line, two spaces deeper for each
level.
-/

set_option autoImplicit false

namespace StepScript

/-- A JSON document. -/
inductive Json where
  | null
  | bool (b : Bool)
  | int (n : Int)
  | float (x : Binary64)
  | text (s : String)
  | array (items : List Json)
  | object (members : List (String × Json))
deriving Inhabited

namespace Json

/-! ## Building -/

/-- A text or null. -/
def ofText? : Option String → Json
  | some s => .text s
  | none => .null

/-- The members put in order of their names; of equal names the last one counts. -/
def insertMember (name : String) (value : Json) : List (String × Json) → List (String × Json)
  | [] => [(name, value)]
  | (n, v) :: members =>
    match Text.orderOf name n with
    | .lt => (name, value) :: (n, v) :: members
    | .eq => (name, value) :: members
    | .gt => (n, v) :: insertMember name value members

/-- An object with its members sorted by name; of equal names the last one counts. -/
def sortedObject (members : List (String × Json)) : Json :=
  .object (members.foldl (fun sorted (name, value) => insertMember name value sorted) [])

/-! ## Printing -/

/-- A hexadecimal digit. -/
def hexDigit (n : Nat) : Char :=
  if n < 10 then Char.ofNat (48 + n) else Char.ofNat (87 + n)

/-- A character inside a JSON string. -/
def escaped (c : Char) : List Char :=
  match c with
  | '"' => ['\\', '"']
  | '\\' => ['\\', '\\']
  | '\n' => ['\\', 'n']
  | '\t' => ['\\', 't']
  | '\r' => ['\\', 'r']
  | c =>
    if c.toNat == 8 then ['\\', 'b']
    else if c.toNat == 12 then ['\\', 'f']
    else if c.toNat < 0x20 then
      ['\\', 'u', '0', '0', hexDigit (c.toNat / 16), hexDigit (c.toNat % 16)]
    else [c]

/-- A JSON string. -/
def quoted (s : String) : String :=
  String.ofList ('"' :: s.toList.flatMap escaped ++ ['"'])

/-- A number; what JSON cannot write is null. -/
def number (x : Binary64) : String :=
  if x.isFinite then x.jsonText else "null"

/-- The opening brace. -/
def openBrace : String :=
  "\x7b"

/-- The closing brace. -/
def closeBrace : String :=
  "\x7d"

mutual

/-- The document on one line. -/
def compact : Json → String
  | .null => "null"
  | .bool b => if b then "true" else "false"
  | .int n => Text.intText n
  | .float x => number x
  | .text s => quoted s
  | .array items => "[" ++ ",".intercalate (compactItems items) ++ "]"
  | .object members => openBrace ++ ",".intercalate (compactMembers members) ++ closeBrace
termination_by structural j => j

/-- The items, each on its own. -/
def compactItems : List Json → List String
  | [] => []
  | j :: js => compact j :: compactItems js
termination_by structural js => js

/-- The members, each on its own. -/
def compactMembers : List (String × Json) → List String
  | [] => []
  | m :: ms => compactMember m :: compactMembers ms
termination_by structural ms => ms

/-- One member. -/
def compactMember : String × Json → String
  | (name, value) => quoted name ++ ":" ++ compact value
termination_by structural m => m

end

/-- A line break and the blanks of a level. -/
def newline (level : Nat) : String :=
  "\n" ++ String.ofList (List.replicate (2 * level) ' ')

/-- Items between brackets, one a line; nothing between them when there is none. -/
def block (level : Nat) (open_ close : String) (items : List String) : String :=
  if items.isEmpty then open_ ++ close
  else
    open_ ++ newline (level + 1) ++ ("," ++ newline (level + 1)).intercalate items
      ++ newline level ++ close

mutual

/-- The document with one item or member a line, starting on the given level. -/
def prettyAt : Json → (level : Nat) → String
  | .array items, level => block level "[" "]" (prettyItems items (level + 1))
  | .object members, level =>
    block level openBrace closeBrace (prettyMembers members (level + 1))
  | .null, _ => "null"
  | .bool b, _ => if b then "true" else "false"
  | .int n, _ => Text.intText n
  | .float x, _ => number x
  | .text s, _ => quoted s
termination_by structural j => j

/-- The items, each on its own. -/
def prettyItems : List Json → (level : Nat) → List String
  | [], _ => []
  | j :: js, level => prettyAt j level :: prettyItems js level
termination_by structural js => js

/-- The members, each on its own. -/
def prettyMembers : List (String × Json) → (level : Nat) → List String
  | [], _ => []
  | m :: ms, level => prettyMember m level :: prettyMembers ms level
termination_by structural ms => ms

/-- One member. -/
def prettyMember : String × Json → (level : Nat) → String
  | (name, value), level => quoted name ++ ": " ++ prettyAt value level
termination_by structural m => m

end

/-- The document with one item or member a line. -/
def pretty (j : Json) : String :=
  j.prettyAt 0

end Json

end StepScript
