import StepScript.Text.CaseTable

/-!
# Capitals and small letters

The full case mappings of the Unicode standard, independent of a language: one character may
become several (`ß` becomes `SS`), and a capital sigma becomes `ς` at the end of a word and `σ`
elsewhere.
-/

set_option autoImplicit false

namespace StepScript.Text

/-! ## Single characters -/

/-- The character as the two tables of one direction map it. -/
def mapCase (runs : List CaseRun) (long : List (Nat × List Nat)) (c : Char) : List Char :=
  match long.lookup c.toNat with
  | some codes => codes.map Char.ofNat
  | none =>
    match runs.find? (·.holds c.toNat) with
    | some run => [Char.ofNat (c.toNat + run.shift).toNat]
    | none => [c]

/-- The capital form of a character. -/
def upperChar (c : Char) : List Char :=
  if c.toNat < 0x80 then [c.toUpper] else mapCase upperRuns upperLong c

/-- The small form of a character, a sigma inside a word included. -/
def lowerChar (c : Char) : List Char :=
  if c.toNat < 0x80 then [c.toLower] else mapCase lowerRuns lowerLong c

/-! ## Texts -/

/-- The text in capitals. -/
def upper (cs : List Char) : List Char :=
  cs.flatMap upperChar

/-- A closed range of the list holds the character. -/
def inRanges (ranges : List (Nat × Nat)) (c : Char) : Bool :=
  ranges.any fun (first, last) => first ≤ c.toNat && c.toNat ≤ last

/-- The next character that is not passed over is a letter that has case. -/
def meetsLetter (cs : List Char) : Bool :=
  match cs.dropWhile (inRanges skippedRanges) with
  | [] => false
  | c :: _ => inRanges casedRanges c

/-- The text in small letters, `before` being what precedes it, last character first. -/
def lowerFrom (before : List Char) : List Char → List Char
  | [] => []
  | c :: rest =>
    (if c == 'Σ' then
      if meetsLetter before && !meetsLetter rest then ['ς'] else ['σ']
    else lowerChar c) ++ lowerFrom (c :: before) rest

/-- The text in small letters. -/
def lower (cs : List Char) : List Char :=
  lowerFrom [] cs

end StepScript.Text
