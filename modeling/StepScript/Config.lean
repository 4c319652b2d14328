import StepScript.Setting

/-!
# Configuration

What can be configured, and how it is found: built-in values, then a file, then variables of the
surroundings, then what the command line says.
-/

set_option autoImplicit false

namespace StepScript

/-- The configuration of the command line. -/
structure Config where
  /-- Programs are read strictly. -/
  strict : Bool
  /-- What a program returns is printed. -/
  printResult : Bool
deriving DecidableEq, Repr

/-- Why there is no configuration. -/
inductive ConfigFault where
  /-- A file that was named is not there or cannot be read. -/
  | file (path : String)
  /-- The file that is looked for by itself cannot be read. -/
  | source
  /-- A setting does not have the form it needs. -/
  | invalid
deriving DecidableEq, Repr

/-- The wording of a `ConfigFault`. -/
def ConfigFault.message : ConfigFault → String
  | .file path => "Failed to read config file " ++ path
  | .source => "Failed to read configuration"
  | .invalid => "Invalid configuration"

namespace Config

/-- The file that is looked for when none is named, without the ending of its name. -/
def defaultFile : String :=
  "stepwise"

/-- The variable that may name the file. -/
def fileVariable : String :=
  "STEPWISE_CONFIG_PATH"

/-- What the names of variables with settings start with, in small letters. -/
def variableFront : String :=
  "stepwise_"

/-- The ending of names of configuration files. -/
def ending : String :=
  ".toml"

/-- The name says that a file is a configuration file: it is more than the ending. -/
def isNamed (path : String) : Bool :=
  let name := (path.toList.reverse.takeWhile (· != '/')).reverse
  Text.endsWith ending.toList name && ending.length < name.length

/-- The path, last character first, without the slashes and single points at its end. -/
def trimPath : List Char → List Char
  | '/' :: cs => trimPath cs
  | '.' :: '/' :: cs => trimPath cs
  | ['.'] => []
  | cs => cs

/-- The path with the ending added to the name at its end. There is no such name if the path leads
    to where it starts or ends with a step upwards. -/
def completed? (path : String) : Option String :=
  let cs := (trimPath path.toList.reverse).reverse
  if cs.isEmpty || Text.endsWith ['/', '.', '.'] ('/' :: cs) then none
  else some (String.ofList cs ++ ending)

/-- The built-in settings. -/
def defaults : Setting :=
  .table
    [("parser", .table [("strict", .bool false)]), ("log", .table [("filter", .text "warn")]),
      ("run", .table [("print_result", .bool true)])]

/-- The configuration that settings make. The filter of the log is checked and not kept, because
    nothing else depends on it. -/
def ofSetting? (s : Setting) : Option Config := do
  let strict ← ((← s.get? "parser").field? "strict").bind Setting.bool?
  let printResult ← ((← s.get? "run").field? "print_result").bind Setting.bool?
  let filter ← (← s.get? "log").field? "filter"
  if filter.isText then some ⟨strict, printResult⟩ else none

/-- All settings put together: the built-in ones, those of a file and of variables, and strictness
    when the command line asks for it. -/
def gather (document : List (String × Setting)) (vars : List (String × String)) (strict : Bool) :
    Setting :=
  let s := (defaults.withEntries document).withEntries (Setting.ofVariables variableFront vars)
  if strict then s.set "parser.strict" (.bool true) else s

/-- The configuration from a file's text, if there is a file. -/
def ofSources (path source : Option String) (vars : List (String × String)) (strict : Bool) :
    Except ConfigFault Config :=
  match (Toml.parse? (source.getD "")).bind Setting.ofDocument? with
  | none => .error (path.elim .source .file)
  | some document => (ofSetting? (gather document vars strict)).elim (.error .invalid) .ok

end Config

end StepScript
