import StepScript.Binary64.Basic

/-!
# TOML documents

A TOML document as a tree, and the rules by which its lines build the tree: a table is defined once,
a key is given one value, and tables inside values cannot be added to from outside.

Entries keep the order in which they were made; a table that a header defines after its subtables
moves to the end.
-/

set_option autoImplicit false

namespace StepScript

/-- How a table came to be, which decides what may still be added to it. -/
inductive TableForm where
  /-- On the way to a table that a header defines. -/
  | implied
  /-- By a header. -/
  | header
  /-- By the points of a key. -/
  | dotted
  /-- As a value. -/
  | inline
deriving DecidableEq, Repr

namespace TableForm

/-- A header may lead through the table: it is no value. -/
def isOpen : TableForm → Bool
  | .inline => false
  | _ => true

/-- The points of a key may lead through the table: no header has defined it. -/
def isPassable : TableForm → Bool
  | .implied | .dotted => true
  | .header | .inline => false

end TableForm

/-- A TOML value. -/
inductive Toml where
  | bool (b : Bool)
  | int (n : Int)
  | float (x : Binary64)
  | text (s : String)
  /-- A date or time, as it is written. -/
  | moment (s : String)
  /-- An array; one made by headers grows with every further one. -/
  | array (growing : Bool) (items : List Toml)
  | table (form : TableForm) (entries : List (String × Toml))

namespace Toml

/-- The entries of a table. -/
abbrev Entries :=
  List (String × Toml)

/-! ## Entries -/

/-- The value of a key. -/
def find? (key : String) (entries : Entries) : Option Toml :=
  entries.lookup key

/-- The value of a key that is there replaced. -/
def replace (key : String) (value : Toml) (entries : Entries) : Entries :=
  entries.map fun e => if e.1 == key then (key, value) else e

/-- The entries without those of a key. -/
def without (key : String) (entries : Entries) : Entries :=
  entries.filter fun e => e.1 != key

/-- The last table of an array changed. -/
def changeLast (change : Entries → Option Entries) (items : List Toml) : Option (List Toml) :=
  match items.getLast? with
  | some (.table form inner) =>
    (change inner).map fun inner => items.dropLast ++ [.table form inner]
  | _ => none

/-! ## Headers -/

/-- The entries with those of the table at the end of a header's path changed. Tables on the way are
    made where they are missing; of a growing array the last table is meant. -/
def under : (path : List String) → (change : Entries → Option Entries) → Entries → Option Entries
  | [], change, entries => change entries
  | key :: path, change, entries =>
    match find? key entries with
    | none => (under path change []).map fun inner => entries ++ [(key, .table .implied inner)]
    | some (.table form inner) =>
      if form.isOpen then
        (under path change inner).map fun inner => replace key (.table form inner) entries
      else none
    | some (.array true items) =>
      (changeLast (under path change) items).map fun items =>
        replace key (.array true items) entries
    | some _ => none

/-- A table defined by a header. -/
def define (key : String) (entries : Entries) : Option Entries :=
  match find? key entries with
  | none => some (entries ++ [(key, .table .header [])])
  | some (.table .implied inner) => some (without key entries ++ [(key, .table .header inner)])
  | some _ => none

/-- A table added to an array by a header. -/
def grow (key : String) (entries : Entries) : Option Entries :=
  match find? key entries with
  | none => some (entries ++ [(key, .array true [.table .header []])])
  | some (.array true items) =>
    some (replace key (.array true (items ++ [.table .header []])) entries)
  | some _ => none

/-! ## Keys -/

/-- A key given its value. -/
def give (key : String) (value : Toml) (entries : Entries) : Option Entries :=
  match find? key entries with
  | none => some (entries ++ [(key, value)])
  | some _ => none

/-- A key of several parts given its value. Its points lead through tables that no header has
    defined and through the last tables of growing arrays; the table that takes the value is one
    that points have made. -/
def giveAt : (path : List String) → (value : Toml) → Entries → Option Entries
  | [], _, _ => none
  | [key], value, entries => give key value entries
  | key :: next :: path, value, entries =>
    match find? key entries with
    | none =>
      (giveAt (next :: path) value []).map fun inner => entries ++ [(key, .table .dotted inner)]
    | some (.table form inner) =>
      if form == .dotted || (form.isPassable && !path.isEmpty) then
        (giveAt (next :: path) value inner).map fun inner => replace key (.table form inner) entries
      else none
    | some (.array true items) =>
      if path.isEmpty then none
      else
        (changeLast (giveAt (next :: path) value) items).map fun items =>
          replace key (.array true items) entries
    | some _ => none

/-! ## Lines -/

/-- What a line of a document says. -/
inductive Entry where
  /-- The following keys belong to a table. -/
  | header (path : List String)
  /-- The following keys belong to a new table of an array. -/
  | arrayHeader (path : List String)
  /-- A key has a value. -/
  | assign (path : List String) (value : Toml)

/-- The entries that lines make, keys going to the table of the last header. -/
def build : List Entry → (current : List String) → Entries → Option Entries
  | [], _, entries => some entries
  | .header path :: lines, _, entries => do
    build lines path (← under path.dropLast (define (← path.getLast?)) entries)
  | .arrayHeader path :: lines, _, entries => do
    build lines path (← under path.dropLast (grow (← path.getLast?)) entries)
  | .assign path value :: lines, current, entries => do
    build lines current (← under current (giveAt path value) entries)

/-! ## Dates in tables -/

/-- The key that marks a table as a date. -/
def momentMark : String :=
  "$__toml_private_datetime"

/-- The table stands for a date: its first key is the mark. -/
def isMarked : Entries → Bool
  | (key, _) :: _ => key == momentMark
  | [] => false

end Toml

end StepScript
