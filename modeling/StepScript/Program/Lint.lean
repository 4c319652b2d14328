import StepScript.Program.Parser

/-!
# Line checks

A check of a text line by line, without reading it as a program: the header and its terminator, and
assignments and conditions that lack the mark they need.
-/

set_option autoImplicit false

namespace StepScript.Lint

/-- The content of a step line, or the whole of any other line. -/
def content (line : List Char) : List Char :=
  match Line.word? "STEP" line with
  | none => line
  | some rest =>
    let rest := (Text.trimStart rest).dropWhile Text.isDigit
    Text.trimStart ((Line.word? ":" rest).getD rest)

/-- Whether a program of the kind is ended by one of the lines. -/
def endIssues (kind : HeaderKind) (lines : List SourceLine) : List Issue :=
  if lines.any fun l => kind.ends l.text then []
  else
    match lines.getLast? with
    | some last => [⟨last.number, .missingTerminator kind.terminator⟩]
    | none => []

/-- The issues of header and terminator. -/
def frameIssues (header : SourceLine) (lines : List SourceLine) : List Issue :=
  match HeaderKind.ofLine? header.text with
  | some kind => endIssues kind lines
  | none => [⟨header.number, .missingHeader⟩]

/-- The content has an arrow to the left somewhere. -/
def hasArrow (content : List Char) : Bool :=
  content.contains '←' || Text.occursIn ['<', '-'] content

/-- The problem of the content of a line. -/
def problem? (content : List Char) : Option Problem :=
  match (Keyword.classify? content).map Prod.fst with
  | some .set => if hasArrow content then none else some .missingArrow
  | some .ifThen => if Text.occursIn "THEN".toList content then none else some .missingThen
  | _ => none

/-- The issue of one line. -/
def lineIssue? (l : SourceLine) : Option Issue :=
  (problem? (content l.text)).map fun problem => ⟨l.number, problem⟩

/-- The issues of the lines of a text. -/
def issues (source : String) : List Issue :=
  match SourceLine.ofLines (Text.lines source) with
  | [] => [⟨1, .emptyProgram⟩]
  | header :: lines =>
    frameIssues header (header :: lines) ++ (header :: lines).filterMap lineIssue?

end StepScript.Lint
