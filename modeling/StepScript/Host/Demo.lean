import StepScript.Host.Library
import StepScript.Text.Case
import StepScript.Text.Search
import StepScript.Value.Display
import StepScript.Value.Equality

/-!
# The demonstration library

A small library that uses every way of extending a host: functions, classes, modules with
functions and constants, and pipelines with and without training. Its functions remember nothing;
the state of a pipeline is the list of values it has taken in.
-/

set_option autoImplicit false

namespace StepScript.Demo

/-! ## Functions and classes -/

/-- The texts of values with commas between them. -/
def joined (args : List Value) : String :=
  ", ".intercalate (args.map Value.display)

/-- The sum of two integers, wrapped around at 64 bits. -/
def add : Host.Calculation := fun args =>
  match args.map Value.int? with
  | [some a, some b] => .ok (.int (a + b))
  | _ => .error (.call "add" "expected two integers")

/-- The arguments as a list. -/
def echo : Host.Calculation := fun args =>
  .ok (.list args)

/-- A fault with the arguments as its text. -/
def fail : Host.Calculation := fun args =>
  .error (.call "fail" (joined args))

/-- Always the same text. -/
def ping : Host.Calculation := fun _ =>
  .ok (.text "pong")

/-- The arguments in capital letters. -/
def shout : Host.Calculation := fun args =>
  .ok (.text (String.ofList (Text.upper (joined args).toList)))

/-- A point; a missing coordinate is nothing. -/
def point : Host.Calculation := fun args =>
  .ok (.object "Point" [("x", args[0]?.getD .nothing), ("y", args[1]?.getD .nothing)])

/-- A box with no items and a function among its fields. -/
def box : Host.Calculation := fun _ =>
  .ok (.object "Box" [("items", .list []), ("size", .callable "len")])

/-! ## Modules -/

/-- A module below another one. -/
def caseModule : Module Unit where
  name := "text.case"
  functions := .ofList [("shout", .pure shout)]
  constants := .ofList [("version", .text "1.0")]

/-- A module with a function and constants. -/
def kitModule : Module Unit where
  name := "kit"
  functions := .ofList [("pair", .pure echo)]
  constants := .ofList [("limit", .int 10), ("names", .list [.text "a", .text "b"])]

/-! ## Pipelines -/

/-- Remembers what it was trained on, and predicts whether it has met the input. -/
def memory : Pipeline (List Value) where
  start := []
  predict input s := (.ok (.bool (s.any fun v => v.looseEq input)), s)
  train data s :=
    match data.items with
    | .ok items => (.ok (), s ++ items)
    | .error _ => (.error (.pipeline "memory" (TypeFault.notIterable data.kind).message), s)

/-- Positive about every text with something good in it. -/
def sentiment : Pipeline (List Value) where
  start := []
  predict input s :=
    let good := Text.occursIn "good".toList input.display.toList
    (.ok (.text (if good then "POSITIVE" else "NEGATIVE")), s)

/-- Counts the inputs it has seen. -/
def counter : Pipeline (List Value) where
  start := []
  predict input s := (.ok (.ofNat (s.length + 1)), input :: s)

/-- Fails on every input. -/
def broken : Pipeline (List Value) where
  start := []
  predict input s := (.error (.pipeline "broken" input.repr), s)

/-- The demonstration library. -/
def library : Library Unit (List Value) :=
  let empty : Library Unit (List Value) := { wording := .plain }
  empty
    |>.withFunction "add" (.pure add)
    |>.withFunction "echo" (.pure echo)
    |>.withFunction "fail" (.pure fail)
    |>.withFunction "app.ping" (.pure ping)
    |>.withClass "Point" (.pure point)
    |>.withClass "Box" (.pure box)
    |>.withModule caseModule
    |>.withModule kitModule
    |>.withPipeline "memory" memory
    |>.withPipeline "sentiment-analysis" sentiment
    |>.withPipeline "counter" counter
    |>.withPipeline "broken" broken

end StepScript.Demo
