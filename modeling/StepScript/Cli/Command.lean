import StepScript.Cli.Arguments
import StepScript.Cli.Console
import StepScript.Config
import StepScript.Host.Library
import StepScript.Machine.Step
import StepScript.Program.Check
import StepScript.Value.Equality

/-!
# Commands

What the command line does: programs are run, checked, printed as JSON, or printed in canonical
form. The configuration is read before anything else.

Running a program takes the words of the parser that reads its expressions, and a bound on the
number of its steps, which only the outermost caller sets.
-/

set_option autoImplicit false

namespace StepScript.Cli

variable {m : Type → Type} [Monad m] {σ : Type}

/-- Why a command was not carried out to its end. -/
inductive Failure where
  | config (fault : ConfigFault)
  | unreadable (file : String) (fault : ReadFault)
  | unparsable (file : String) (fault : SyntaxFault)
  /-- A checked file is no program; why has been written. -/
  | notChecked (file : String)
  /-- A checked file has issues, which have been written. -/
  | problems (count : Nat) (file : String)
  | surplusInputs (program : String) (expected given : Nat)
  /-- Nothing more was typed when an input was asked for. -/
  | missingInput (name : String)
  | runtime (fault : RuntimeFault)
  /-- The program had not ended after the greatest number of steps. -/
  | unfinished (file : String)

/-- The wording of a failure, given that of the parser. -/
def Failure.message (wording : Wording) : Failure → String
  | .config fault => fault.message
  | .unreadable file fault => "Failed to read " ++ file ++ ": " ++ fault.message
  | .unparsable file fault => "Failed to parse " ++ file ++ ": " ++ fault.message
  | .notChecked file => file ++ " could not be parsed"
  | .problems count file => Text.natText count ++ " problem(s) found in " ++ file
  | .surplusInputs program expected given =>
    program ++ " takes " ++ Text.natText expected ++ " input(s), " ++ Text.natText given ++ " given"
  | .missingInput name => "No value given for input '" ++ name ++ "'"
  | .runtime fault => fault.text wording
  | .unfinished file => file ++ " was stopped before it ended"

/-- A command, or a part of one. -/
abbrev Task (m : Type → Type) (α : Type) :=
  ExceptT Failure m α

namespace Console

/-- A line written. -/
def writeLine (c : Console m) (line : String) : m Unit :=
  c.write (line ++ "\n")

/-- Lines written. -/
def writeLines (c : Console m) : List String → m Unit
  | [] => pure ()
  | line :: lines => do
    c.writeLine line
    c.writeLines lines

end Console

/-! ## Configuration -/

/-- The text of a configuration file: the file itself if its name says that it is one, else the one
    whose name is completed by the ending. -/
def findConfig (c : Console m) (path : String) : m (Option String) := do
  match ← c.readFile path with
  | .ok source => return if Config.isNamed path then some source else none
  | .error _ =>
    match Config.completed? path with
    | none => return none
    | some path =>
      match ← c.readFile path with
      | .ok source => return some source
      | .error _ => return none

/-- The configuration from a file that was named or looked for, and what was found of it. -/
def configOf (path source : Option String) (vars : List (String × String)) (strict : Bool) :
    Except ConfigFault Config :=
  match path, source with
  | some path, none => .error (.file path)
  | _, _ => Config.ofSources path source vars strict

/-- The configuration for a command line. -/
def readConfig (c : Console m) (vars : List (String × String)) (named : Option String)
    (strict : Bool) : Task m Config := do
  let path := named.orElse fun _ => vars.lookup Config.fileVariable
  let source ← (findConfig c (path.getD Config.defaultFile) : m (Option String))
  match configOf path source vars strict with
  | .ok config => return config
  | .error fault => throw (.config fault)

/-! ## Files -/

/-- The text of a program file. -/
def readSource (c : Console m) (file : String) : Task m String := do
  match ← c.readFile file with
  | .ok source => return source
  | .error fault => throw (.unreadable file fault)

/-- The program in a file. -/
def loadProgram (c : Console m) (file : String) (strict : Bool) : Task m Program := do
  match Program.parse (← readSource c file) strict with
  | .ok p => return p
  | .error fault => throw (.unparsable file fault)

/-! ## Running -/

/-- The values of inputs that are asked for one after the other. -/
def askInputs (c : Console m) : (names : List String) → Task m (List Value)
  | [] => return []
  | name :: names => do
    c.write ("Enter " ++ name ++ ": ")
    match ← c.readLine with
    | none => throw (.missingInput name)
    | some line =>
      let values ← askInputs c names
      return Expr.inputValue line :: values

/-- The values of all inputs of a program: those given first, then those asked for. -/
def collectInputs (c : Console m) (p : Program) (given : List String) : Task m (List Value) := do
  if p.inputs.length < given.length then
    throw (.surplusInputs p.name p.inputs.length given.length)
  let asked ← askInputs c (p.inputs.drop given.length)
  return given.map Expr.inputValue ++ asked

/-- A machine run for at most `fuel` steps, what it prints being written as it comes. -/
def drive (c : Console m) (h : Host σ) (p : Program) : (fuel : Nat) → Machine σ → m (Machine σ)
  | 0, machine => return machine
  | fuel + 1, machine => do
    if machine.isDone p then return machine
    let printed := machine.world.output.size
    let machine := machine.step h p
    c.writeLines (machine.world.output.extract printed machine.world.output.size).toList
    drive c h p fuel machine

/-- The value that a program returns. -/
def runProgram (c : Console m) (wording : Wording) (fuel : Nat) (file : String) (p : Program)
    (inputs : List Value) : Task m Value := do
  match p.start inputs ({ memory := () } : Library.State Unit Unit) with
  | .error fault => throw (.runtime fault)
  | .ok machine =>
    let machine ← (drive c (Library.standard wording).host p fuel machine : m _)
    if !machine.isDone p then throw (.unfinished file)
    match machine.result with
    | .ok v => return v
    | .error fault => throw (.runtime fault)

/-- The lines about the value that a program has returned. -/
def resultLines (json : Bool) (config : Config) (v : Value) : List String :=
  if json then [v.toJson.pretty]
  else if config.printResult && !v.isNothing then [v.display]
  else []

/-- A program run. -/
def run (c : Console m) (wording : Wording) (fuel : Nat) (config : Config) (i : Invocation) :
    Task m Unit := do
  let p ← loadProgram c i.file config.strict
  let inputs ← collectInputs c p i.inputs
  let v ← runProgram c wording fuel i.file p inputs
  c.writeLines (resultLines i.json config v)

/-! ## Checking -/

/-- What a check writes, and whether it objects. -/
structure Report where
  lines : List String
  failure : Option Failure := none

/-- A line about a file. -/
def about (file message : String) : String :=
  file ++ ": " ++ message

/-- The report on the text of a file. -/
def report (file source : String) : Report :=
  match Program.check source with
  | .error fault => ⟨[about file fault.message], some (.notChecked file)⟩
  | .ok [] => ⟨[about file "ok"], none⟩
  | .ok issues =>
    ⟨issues.map fun i => about file i.text, some (.problems issues.length file)⟩

/-- A program checked. -/
def check (c : Console m) (file : String) : Task m Unit := do
  let r := report file (← readSource c file)
  c.writeLines r.lines
  match r.failure with
  | some failure => throw failure
  | none => return ()

/-! ## Commands -/

/-- The command line insists on strict reading. -/
def Invocation.insists (i : Invocation) : Bool :=
  match i.verb with
  | .run | .ast => i.strict
  | .check => true
  | .fmt => false

/-- What a command line asks for, done. -/
def carryOut (c : Console m) (wording : Wording) (fuel : Nat) (vars : List (String × String))
    (i : Invocation) : Task m Unit := do
  let config ← readConfig c vars i.config i.insists
  match i.verb with
  | .run => run c wording fuel config i
  | .check => check c i.file
  | .ast => do
    let p ← loadProgram c i.file config.strict
    c.writeLine p.toJson.pretty
  | .fmt => do
    let p ← loadProgram c i.file config.strict
    c.write p.source

end StepScript.Cli
