import StepScript.Cli.Console
import StepScript.Table
import StepScript.Text.Search

/-!
# Desks

Surroundings made of values alone: the files of one folder, lines to be typed and what has been
written.

A path is followed name by name. It may step out of the folder, where there are folders and nothing
that can be found by a name.
-/

set_option autoImplicit false

namespace StepScript.Cli

/-- Surroundings made of values. -/
structure Desk where
  files : Table String := {}
  typed : List String := []
  written : String := ""

/-! ## Paths -/

namespace Path

/-- The bytes that a name may have at most. -/
def longestName : Nat :=
  255

/-- The bytes that a whole path must stay below. -/
def lengthLimit : Nat :=
  4096

/-- The names of a path, between its slashes. -/
def names (path : String) : List String :=
  (Text.splitAt ['/'] path.toList).map String.ofList

/-- The name leads nowhere else. -/
def isIdle (name : String) : Bool :=
  name.isEmpty || name == "."

/-- The path starts at the outermost folder. -/
def isAbsolute (path : String) : Bool :=
  Text.startsWith ['/'] path.toList

end Path

/-- Where a path has led. -/
inductive Spot where
  /-- In or below the folder of the desk, the last name first. -/
  | inside (names : List String)
  /-- In a folder around it. -/
  | outside
deriving DecidableEq, Repr

namespace Desk

/-- The names that lead to each file from the folder, the last name first, with the content. -/
def routes (d : Desk) : List (List String × String) :=
  d.files.entries.map fun (path, content) =>
    (((Path.names path).filter fun name => !Path.isIdle name).reverse, content)

/-- The content of the file at a spot. -/
def content? (d : Desk) : Spot → Option String
  | .inside names => d.routes.lookup names
  | .outside => none

/-- The spot is a folder: that of the desk, one around it, or one that a file lies below. -/
def isFolder (d : Desk) : Spot → Bool
  | .inside names => names.isEmpty || d.routes.any fun (route, _) =>
    names.isSuffixOf route && names.length < route.length
  | .outside => true

/-- One name followed from a spot. -/
def enter (d : Desk) (spot : Spot) (name : String) : Except ReadFault Spot :=
  if !d.isFolder spot then .error .notFolder
  else if Path.isIdle name then .ok spot
  else
    match spot, name with
    | .outside, ".." => .ok .outside
    | .inside [], ".." => .ok .outside
    | .inside (_ :: names), ".." => .ok (.inside names)
    | spot, name =>
      if Path.longestName < name.utf8ByteSize then .error .nameTooLong
      else
        match spot with
        | .outside => .error .notFound
        | .inside names =>
          let next := .inside (name :: names)
          if (d.content? next).isSome || d.isFolder next then .ok next else .error .notFound

/-- Where a path leads. -/
def follow (d : Desk) (path : String) : Except ReadFault Spot :=
  if path.toList.contains (Char.ofNat 0) then .error .zeroInPath
  else if Path.lengthLimit ≤ path.utf8ByteSize then .error .nameTooLong
  else if path.isEmpty then .error .notFound
  else
    (Path.names path).foldlM d.enter (if Path.isAbsolute path then .outside else .inside [])

/-- The content of the file that a path leads to. -/
def read (d : Desk) (path : String) : Except ReadFault String := do
  match d.content? (← d.follow path) with
  | some content => .ok content
  | none => .error .isFolder

/-- The console of a desk. -/
def console : Console (StateM Desk) where
  readFile path := return (← get).read path
  readLine := do
    match (← get).typed with
    | [] => return none
    | line :: typed =>
      modify fun d => { d with typed }
      return some line
  write s := modify fun d => { d with written := d.written ++ s }

end Desk

end StepScript.Cli
