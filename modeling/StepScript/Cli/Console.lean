/-!
# Consoles

What the commands need from their surroundings, as a record of operations in any monad.
-/

set_option autoImplicit false

namespace StepScript.Cli

/-- Why a file cannot be read. -/
inductive ReadFault where
  | notFound
  /-- The path leads through a file, or a file is asked for as a folder. -/
  | notFolder
  | isFolder
  | nameTooLong
  /-- A path cannot hold the character zero. -/
  | zeroInPath
  | other (reason : String)
deriving DecidableEq, Repr

/-- The wording of a `ReadFault`. -/
def ReadFault.message : ReadFault → String
  | .notFound => "No such file or directory (os error 2)"
  | .notFolder => "Not a directory (os error 20)"
  | .isFolder => "Is a directory (os error 21)"
  | .nameTooLong => "File name too long (os error 36)"
  | .zeroInPath => "file name contained an unexpected NUL byte"
  | .other reason => reason

/-- What the commands need from their surroundings. -/
structure Console (m : Type → Type) where
  /-- The content of a file. -/
  readFile : String → m (Except ReadFault String)
  /-- The next line that was typed, without its line break. -/
  readLine : m (Option String)
  /-- Text written as it is. -/
  write : String → m Unit

end StepScript.Cli
