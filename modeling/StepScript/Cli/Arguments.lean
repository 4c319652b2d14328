import StepScript.Text.Search

/-!
# Command lines

What the words of a command line ask for. A word that starts with a dash is a switch, unless it
comes after a lone double dash; a switch with a value has it attached or as the next word. Values
are taken in when the next switch or argument comes, so of two mistakes the one that is met first is
reported.
-/

set_option autoImplicit false

namespace StepScript.Cli

/-! ## Verbs and switches -/

/-- What can be asked for. -/
inductive Verb where
  | run
  | check
  | ast
  | fmt
deriving DecidableEq, Repr

/-- The things that can be given with a verb. -/
inductive Switch where
  | help
  | config
  | input
  | strict
  | json
deriving DecidableEq, Repr

/-- The word for a verb. -/
def Verb.word : Verb → String
  | .run => "run"
  | .check => "check"
  | .ast => "ast"
  | .fmt => "fmt"

/-- All verbs. -/
def Verb.all : List Verb :=
  [.run, .check, .ast, .fmt]

/-- The verb of a word. -/
def Verb.ofWord? (word : String) : Option Verb :=
  Verb.all.find? fun v => v.word = word

/-- A verb is found by its word. -/
theorem Verb.ofWord?_word (v : Verb) : Verb.ofWord? v.word = some v := by
  cases v <;> decide

/-- The switches that go with a verb. -/
def Verb.switches : Verb → List Switch
  | .run => [.help, .config, .input, .strict, .json]
  | .ast => [.help, .config, .strict]
  | .check | .fmt => [.help, .config]

namespace Switch

/-- The name of a switch, after two dashes. -/
def name : Switch → String
  | .help => "help"
  | .config => "config"
  | .input => "input"
  | .strict => "strict"
  | .json => "json"

/-- The letter of a switch, after one dash. -/
def letter? : Switch → Option Char
  | .help => some 'h'
  | .input => some 'i'
  | _ => none

/-- The switch comes with a value. -/
def takesValue : Switch → Bool
  | .config | .input => true
  | .help | .strict | .json => false

end Switch

/-- Why a command line is not carried out. -/
inductive UsageFault where
  /-- No file was given. -/
  | missingFile
  /-- A switch that does not exist here, or a word too many. -/
  | unknownArgument
  /-- A verb that does not exist. -/
  | unknownVerb
  /-- No verb was given. -/
  | missingVerb
  /-- A switch without its value, or a file without a name. -/
  | missingValue
  /-- A value for a switch that takes none. -/
  | surplusValue
  /-- A switch given twice. -/
  | conflict
  /-- Help was asked for. -/
  | help
  /-- Nothing was asked for, so help is due. -/
  | nothing
deriving DecidableEq, Repr

/-! ## Words -/

/-- A word of a command line. -/
inductive Word where
  /-- The double dash, after which no word is a switch. -/
  | divider
  | named (name : String) (value : Option String)
  | lettered (letter : Char) (attached : List Char)
  | plain

/-- What kind of word a text is. -/
def Word.of (text : String) : Word :=
  match text.toList with
  | ['-', '-'] => .divider
  | '-' :: '-' :: cs =>
    match Text.cutFirst? '=' cs with
    | some (name, value) => .named (String.ofList name) (some (String.ofList value))
    | none => .named (String.ofList cs) none
  | '-' :: c :: cs => .lettered c cs
  | _ => .plain

/-- The value attached to the letter of a switch. -/
def Word.attached? : List Char → Option String
  | [] => none
  | '=' :: cs => some (String.ofList cs)
  | cs => some (String.ofList cs)

/-! ## Words taken in -/

/-- What has been read and is not yet taken in. -/
inductive Pending where
  | none
  | switch (s : Switch) (value : Option String)
  | file (path : String)

/-- What a command line has given so far. -/
structure Given where
  config : Option String := none
  inputs : List String := []
  strict : Bool := false
  json : Bool := false
  file : Option String := none
  pending : Pending := .none
  /-- The double dash has been read. -/
  divided : Bool := false

namespace Given

/-- A switch taken in. -/
def accept (g : Given) : Switch → (value : Option String) → Except UsageFault Given
  | .help, _ => .error .help
  | .strict, _ => if g.strict then .error .conflict else .ok { g with strict := true }
  | .json, _ => if g.json then .error .conflict else .ok { g with json := true }
  | .input, some v => .ok { g with inputs := g.inputs ++ [v] }
  | .config, some v =>
    if g.config.isSome then .error .conflict else .ok { g with config := some v }
  | .input, none => .error .missingValue
  | .config, none => .error .missingValue

/-- What is pending taken in. -/
def settle (g : Given) : Except UsageFault Given :=
  match g.pending with
  | .none => .ok g
  | .switch s value => { g with pending := .none }.accept s value
  | .file path =>
    if path.isEmpty then .error .missingValue
    else .ok { g with pending := .none, file := some path }

/-- A file has been named. -/
def hasFile (g : Given) : Bool :=
  g.file.isSome ||
    match g.pending with
    | .file _ => true
    | _ => false

/-- A word that may be the value of a switch before it. -/
def value? (g : Given) (word : String) : Option Given :=
  match g.pending with
  | .switch s none =>
    if s.takesValue then some { g with pending := .switch s (some word) } else none
  | _ => none

/-- A switch read, with the value attached to it. -/
def readSwitch (g : Given) (s : Switch) (value : Option String) : Except UsageFault Given := do
  match s.takesValue, value with
  | true, none => return { ← g.settle with pending := .switch s none }
  | false, some _ => .error .surplusValue
  | _, value => (← g.settle).accept s value

/-- A word read as a switch, if it is one. -/
def switchWord? (switches : List Switch) (g : Given) (word : Word) :
    Option (Except UsageFault Given) :=
  match word with
  | .divider => some (.ok { g with divided := true })
  | .named name value =>
    some (((switches.find? fun s => s.name = name).map fun s => g.readSwitch s value).getD
      (.error .unknownArgument))
  | .lettered letter attached =>
    some (((switches.find? fun s => s.letter? = some letter).map fun s =>
      g.readSwitch s (if s.takesValue then Word.attached? attached else none)).getD
        (.error .unknownArgument))
  | .plain => none

/-- A word that stands for itself. -/
def readFile (g : Given) (word : String) : Except UsageFault Given := do
  if g.hasFile then .error .unknownArgument
  return { ← g.settle with pending := .file word }

/-- One word after a verb. -/
def readWord (switches : List Switch) (g : Given) (word : String) : Except UsageFault Given :=
  if g.divided then g.readFile word
  else
    match g.switchWord? switches (.of word) with
    | some r => r
    | none => (g.value? word).elim (g.readFile word) .ok

end Given

/-! ## Command lines -/

/-- What a command line asks for. -/
structure Invocation where
  verb : Verb
  file : String
  inputs : List String := []
  strict : Bool := false
  json : Bool := false
  /-- The configuration file that was named. -/
  config : Option String := none
deriving DecidableEq, Repr

/-- The words after a verb. -/
def readVerb (v : Verb) (words : List String) : Except UsageFault Invocation := do
  let g ← words.foldlM (Given.readWord v.switches) {}
  let g ← g.settle
  match g.file with
  | some file => return ⟨v, file, g.inputs, g.strict, g.json, g.config⟩
  | none => .error .missingFile

/-- The word asks for help. -/
def isHelp (word : String) : Bool :=
  word = "help"

/-- The words after the one that asks for help, which may name what it is about. -/
def readHelp (words : List String) : UsageFault :=
  match words with
  | [] => .help
  | [word] => if isHelp word || (Verb.ofWord? word).isSome then .help else .unknownVerb
  | _ => .unknownVerb

/-- The verb at the front of the words, with what stands before it. -/
def readFront : List String → Given → Except UsageFault Invocation
  | [], g => do
    let g ← g.settle
    .error (if g.config.isSome then .missingVerb else .nothing)
  | word :: words, g =>
    let verb := Verb.ofWord? word
    if g.divided then
      .error (if isHelp word || verb.isSome then .unknownArgument else .unknownVerb)
    else
      match g.switchWord? [.help, .config] (.of word), g.value? word with
      | some (.ok g), _ => readFront words g
      | some (.error fault), _ => .error fault
      | none, some g => readFront words g
      | none, none =>
        if isHelp word then .error (readHelp words)
        else
          match verb with
          | none => .error .unknownVerb
          | some v => do
            let invocation ← readVerb v words
            let g ← g.settle
            return { invocation with config := invocation.config.orElse fun _ => g.config }

/-- What the words of a command line ask for. -/
def Invocation.ofWords (words : List String) : Except UsageFault Invocation :=
  readFront words {}

end StepScript.Cli
