import StepScript.Cli.Command

/-!
# The command line program

The console of a terminal, and the entry point. Everything that is decided is decided elsewhere.
-/

set_option autoImplicit false

namespace StepScript.Cli

/-- A line without its line break. -/
def withoutBreak (line : String) : String :=
  match line.toList.reverse with
  | '\n' :: '\r' :: cs => String.ofList cs.reverse
  | '\n' :: cs => String.ofList cs.reverse
  | _ => line

/-- Why a file could not be read. A file that was opened and gives no content is a folder; a path
    that could not be followed is named in the error. -/
def readFault : IO.Error → ReadFault
  | .noFileOrDirectory _ _ _ => .notFound
  | .inappropriateType none _ _ => .isFolder
  | .inappropriateType (some _) _ _ => .notFolder
  | .invalidArgument (some _) _ _ => .nameTooLong
  | fault => .other (toString fault)

/-- The console of a terminal. -/
def terminal : Console IO where
  readFile path := do
    if path.toList.contains (Char.ofNat 0) then return .error .zeroInPath
    match ← (IO.FS.readFile path).toBaseIO with
    | .ok content => return .ok content
    | .error fault => return .error (readFault fault)
  readLine := do
    let line ← (← IO.getStdin).getLine
    return if line.isEmpty then none else some (withoutBreak line)
  write s := do
    let out ← IO.getStdout
    out.putStr s
    out.flush

/-- The variables of the surroundings: lines of a name, an equals sign and a text, each ended by a
    zero. -/
def surroundingVariables : IO (List (String × String)) := do
  match ← (IO.FS.readBinFile "/proc/self/environ").toBaseIO with
  | .error _ => return []
  | .ok bytes =>
    let entries := Text.splitAt [Char.ofNat 0] ((String.fromUTF8? bytes).getD "").toList
    return entries.filterMap fun cs =>
      (Text.cutFirst? '=' cs).map fun (name, text) => (String.ofList name, String.ofList text)

/-- How the program is used. -/
def usage : String :=
  "usage: stepscript [--config FILE] (run | check | ast | fmt) FILE\n"
    ++ "  run FILE [-i VALUE]... [--strict] [--json]\n  check FILE\n  ast FILE [--strict]\n"
    ++ "  fmt FILE\n"

/-- More steps than any program makes. -/
def stepLimit : Nat :=
  Nat.pow 2 62

end StepScript.Cli

open StepScript.Cli in
/-- The words of the command line carried out. -/
def main (words : List String) : IO UInt32 := do
  match Invocation.ofWords words with
  | .error .help =>
    IO.print usage
    return 0
  | .error _ =>
    IO.eprint usage
    return 2
  | .ok invocation =>
    match ← (carryOut terminal .plain stepLimit (← surroundingVariables) invocation).run with
    | .ok () => return 0
    | .error failure =>
      IO.eprintln ("Error: " ++ failure.message .plain)
      return 1
