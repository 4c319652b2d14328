import StepScript.Text.Case
import StepScript.Text.Search
import StepScript.Toml.Parser

/-!
# Settings

A tree of settings put together from several sources. A later source goes over an earlier one key by
key: tables are merged, everything else is replaced. Keys are kept in small letters, so that their
case does not count. A path to a setting makes a table or an array of whatever stands in its way.
-/

set_option autoImplicit false

namespace StepScript

/-- A setting. -/
inductive Setting where
  | bool (b : Bool)
  | int (n : Int)
  | float (x : Binary64)
  | text (s : String)
  /-- A place in an array that nothing was put in. -/
  | nothing
  | array (items : List Setting)
  | table (entries : List (String × Setting))

namespace Setting

/-! ## Tables -/

/-- The entries of a table; anything else has none. -/
def entries : Setting → List (String × Setting)
  | .table es => es
  | _ => []

/-- The form in which a key is kept. -/
def plainKey (name : String) : String :=
  String.ofList (Text.lower name.toList)

/-- The setting of a key. -/
def get? (s : Setting) (key : String) : Option Setting :=
  s.entries.lookup key

/-- Entries with the setting of a key replaced, or added. -/
def putEntry (key : String) (value : Setting) : List (String × Setting) → List (String × Setting)
  | [] => [(key, value)]
  | e :: es => if e.1 = key then (key, value) :: es else e :: putEntry key value es

/-- A table with the setting of a key replaced; anything else becomes a table first. -/
def put (key : String) (value s : Setting) : Setting :=
  .table (putEntry key value s.entries)

theorem lookup_putEntry (key other : String) (value : Setting) (es : List (String × Setting)) :
    (putEntry key value es).lookup other = if key = other then some value else es.lookup other := by
  induction es with
  | nil => by_cases h : key = other <;> grind [putEntry]
  | cons e es ih =>
    obtain ⟨k, v⟩ := e
    by_cases h : k = key <;> by_cases ho : key = other <;> grind [putEntry]

/-- After a setting is put under a key, the key has it and every other key what it had. -/
theorem get?_put (key other : String) (value s : Setting) :
    (put key value s).get? other = if key = other then some value else s.get? other :=
  lookup_putEntry key other value s.entries

mutual

/-- A new setting over an old one. -/
def layOver : (new : Setting) → (old : Option Setting) → Setting
  | .table es, old => layAllOver es (old.getD (.table []))
  | .bool b, _ => .bool b
  | .int n, _ => .int n
  | .float x, _ => .float x
  | .text s, _ => .text s
  | .nothing, _ => .nothing
  | .array items, _ => .array items
termination_by structural new => new

/-- New entries over an old setting. -/
def layAllOver : (es : List (String × Setting)) → (old : Setting) → Setting
  | [], old => old
  | e :: es, old => layAllOver es (layEntryOver e old)
termination_by structural es => es

/-- A new entry over an old setting. -/
def layEntryOver : (e : String × Setting) → (old : Setting) → Setting
  | (name, value), old =>
    let key := plainKey name
    put key (layOver value (old.get? key)) old
termination_by structural e => e

end

/-! ## Arrays -/

/-- The items of an array; anything else has none. -/
def items : Setting → List Setting
  | .array items => items
  | _ => []

/-- Items with the one at a position changed. A position below zero counts from the end. Places that
    are missing are made, at the end or, for a position before the first item, at the front. -/
def changeItem (position : Int) (change : Setting → Setting) (items : List Setting) :
    List Setting :=
  let length : Int := items.length
  if 0 ≤ position then
    let i := position.toNat
    (items ++ List.replicate (i + 1 - items.length) nothing).modify i change
  else if 0 ≤ length + position then items.modify (length + position).toNat change
  else
    (List.replicate (length + position).natAbs nothing ++ items).modify 0 change

/-! ## Paths -/

/-- One step down a path. -/
inductive Step where
  | key (name : String)
  | position (i : Int)

/-- A setting with the one at the end of a path replaced by a new one. -/
def putAt : (path : List Step) → (new s : Setting) → Setting
  | [], new, _ => new
  | .position i :: path, new, s => .array (changeItem i (putAt path new) s.items)
  | [.key name], new, s =>
    let key := plainKey name
    put key (layOver new (s.get? key)) s
  | .key name :: path, new, s =>
    let key := plainKey name
    put key (putAt path new ((s.get? key).getD .nothing)) s

/-- The character may stand in a key of a path. -/
def isKeyChar (c : Char) : Bool :=
  Text.isNameChar c || c == '-' || c == ' '

/-- A key of a path. -/
def keyName? (cs : List Char) : Option (Step × List Char) :=
  let name := cs.takeWhile isKeyChar
  if name.isEmpty then none else some (.key (String.ofList name), cs.dropWhile isKeyChar)

/-- The number is within 64 bits. -/
def isWord (n : Int) : Bool :=
  -(Int.pow 2 63) ≤ n && n < Int.pow 2 63

/-- A position of a path, after its opening bracket. Blanks may stand around it. -/
def position? (cs : List Char) : Option (Step × List Char) := do
  let cs := cs.dropWhile Text.isGap
  let (negative, cs) := ((Text.after? ['-'] cs).map (true, ·)).getD (false, cs)
  let n ← Text.nat? (cs.takeWhile Text.isDigit)
  let i : Int := if negative then -n else n
  let rest ← Text.after? [']'] ((cs.dropWhile Text.isDigit).dropWhile Text.isGap)
  if isWord i then some (.position i, rest) else none

/-- The further steps of a path. -/
def steps? : (fuel : Nat) → List Char → Option (List Step)
  | _, [] => some []
  | 0, _ => none
  | fuel + 1, c :: cs => do
    let (step, rest) ←
      if c == '.' then keyName? cs else if c == '[' then position? cs else none
    let steps ← steps? fuel rest
    return step :: steps

/-- The path that a name stands for: its parts, or the name itself when it has no such form. -/
def pathOf (name : String) : List Step :=
  let path := do
    let (first, rest) ← keyName? name.toList
    let steps ← steps? rest.length rest
    return first :: steps
  path.getD [.key name]

/-- A setting with a named one replaced. -/
def set (s : Setting) (name : String) (value : Setting) : Setting :=
  putAt (pathOf name) value s

/-! ## Sources -/

/-- The text of a table that is marked as a date. -/
def markedText? : Toml.Entries → Option Setting
  | (_, .text s) :: _ => if Toml.isMoment s then some (.text s) else none
  | _ => none

mutual

/-- A TOML value as a setting, dates being texts. A table that is marked as a date must have the
    text of one. -/
def ofToml? : Toml → Option Setting
  | .bool b => some (.bool b)
  | .int n => some (.int n)
  | .float x => some (.float x)
  | .text s => some (.text s)
  | .moment s => some (.text s)
  | .array _ items => (ofTomlItems? items).map .array
  | .table _ es => if Toml.isMarked es then markedText? es else (ofTomlEntries? es).map .table
termination_by structural t => t

/-- TOML items as settings. -/
def ofTomlItems? : List Toml → Option (List Setting)
  | [] => some []
  | t :: ts => do
    let s ← ofToml? t
    let rest ← ofTomlItems? ts
    return s :: rest
termination_by structural ts => ts

/-- TOML entries as settings. -/
def ofTomlEntries? : List (String × Toml) → Option (List (String × Setting))
  | [] => some []
  | e :: es => do
    let s ← ofTomlEntry? e
    let rest ← ofTomlEntries? es
    return s :: rest
termination_by structural es => es

/-- A TOML entry as a setting. -/
def ofTomlEntry? : String × Toml → Option (String × Setting)
  | (key, t) => (ofToml? t).map fun s => (key, s)
termination_by structural e => e

end

/-- The settings of a document, which is no date itself. -/
def ofDocument? (document : Toml.Entries) : Option (List (String × Setting)) :=
  if Toml.isMarked document then none else ofTomlEntries? document

/-- Named settings over others. -/
def withEntries (entries : List (String × Setting)) (s : Setting) : Setting :=
  entries.foldl (fun s e => s.set e.1 e.2) s

/-- The text of a variable as a setting: a truth value, an integer or a number if it is one. -/
def ofText (text : String) : Setting :=
  let cs := text.toList
  let word := Text.lower cs
  if word == "true".toList then .bool true
  else if word == "false".toList then .bool false
  else
    match (Text.int? cs).filter isWord, Binary64.read? cs with
    | some n, _ => .int n
    | none, some x => .float x
    | none, none => .text text

/-- The name of the setting that a variable gives: what follows `front` in small letters, with two
    underscores for a point. -/
def variableName? (front variableName : String) : Option String :=
  (Text.after? front.toList (Text.lower variableName.toList)).map fun name =>
    String.ofList (Text.replace ['_', '_'] ['.'] name)

/-- The settings that variables give. -/
def ofVariables (front : String) (vars : List (String × String)) : List (String × Setting) :=
  vars.filterMap fun e => (variableName? front e.1).map fun name => (name, ofText e.2)

/-! ## Reading -/

/-- The truth value that a setting stands for. -/
def bool? : Setting → Option Bool
  | .bool b => some b
  | .int n => some (n != 0)
  | .float x => some (!x.isZero)
  | .text s =>
    let word := String.ofList (Text.lower s.toList)
    if ["1", "true", "on", "yes"].contains word then some true
    else if ["0", "false", "off", "no"].contains word then some false
    else none
  | .nothing | .array _ | .table _ => none

/-- The setting can be read as a text. -/
def isText : Setting → Bool
  | .nothing | .array _ | .table _ => false
  | _ => true

/-- The field of a section that has one: by its name in a table, as the first item of an array. -/
def field? (s : Setting) (name : String) : Option Setting :=
  match s with
  | .table es => es.lookup name
  | .array items => items.head?
  | _ => none

end Setting

end StepScript
