import StepScript.Decimal.Text
import StepScript.Text.Blank
import StepScript.Text.Search
import StepScript.Toml.Basic
import StepScript.Toml.Moment

/-!
# Reading TOML documents

Readers take characters and give what they read and the characters after it. `Toml.parse?` reads a
whole document. Values inside values and keys of many parts are read down to a greatest depth.
-/

set_option autoImplicit false

namespace StepScript.Toml

/-- The depth that neither the parts of a key nor values inside values reach. -/
def depthLimit : Nat :=
  80

/-! ## Lines and comments -/

/-- The characters after any blanks of a line. -/
def skipGap (cs : List Char) : List Char :=
  cs.dropWhile Text.isGap

/-- The character may stand in a comment or text. -/
def isPlain (c : Char) : Bool :=
  c == '\t' || (0x20 ≤ c.toNat && c.toNat != 0x7F)

/-- The characters after a line break. -/
def lineBreak? : List Char → Option (List Char)
  | '\n' :: cs => some cs
  | '\r' :: '\n' :: cs => some cs
  | _ => none

/-- The characters after a comment, if there is one. -/
def skipComment : List Char → List Char
  | '#' :: cs => cs.dropWhile isPlain
  | cs => cs

/-- The characters after the end of a line. -/
def lineEnd? (cs : List Char) : Option (List Char) :=
  match skipComment (skipGap cs) with
  | [] => some []
  | cs => lineBreak? cs

/-- The characters after blanks, comments and line breaks. -/
def skipLines : (fuel : Nat) → List Char → List Char
  | 0, cs => cs
  | fuel + 1, cs =>
    match lineBreak? (skipComment (skipGap cs)) with
    | some cs => skipLines fuel cs
    | none => skipGap cs

/-! ## Texts -/

/-- The value of a run of hexadecimal digits. -/
def hex? (cs : List Char) : Option Nat :=
  cs.foldlM (fun n c =>
    if Text.isDigit c then some (16 * n + (c.toNat - 48))
    else if 'a' ≤ c && c ≤ 'f' then some (16 * n + (c.toNat - 87))
    else if 'A' ≤ c && c ≤ 'F' then some (16 * n + (c.toNat - 55))
    else none) 0

/-- The character that a code names. -/
def scalar? (cs : List Char) : Option Char :=
  match hex? cs with
  | some n => if h : n.isValidChar then some (Char.ofNatAux n h) else none
  | none => none

/-- The character that a letter after a backslash stands for. -/
def escape? : Char → Option Char
  | 'b' => some (Char.ofNat 8)
  | 't' => some '\t'
  | 'n' => some '\n'
  | 'f' => some (Char.ofNat 12)
  | 'r' => some '\r'
  | '"' => some '"'
  | '\\' => some '\\'
  | _ => none

/-- The character of an escape, and what follows it; the backslash has been read. -/
def escaped? : List Char → Option (Char × List Char)
  | 'u' :: cs => (scalar? (cs.take 4)).bind fun c =>
    if 4 ≤ cs.length then some (c, cs.drop 4) else none
  | 'U' :: cs => (scalar? (cs.take 8)).bind fun c =>
    if 8 ≤ cs.length then some (c, cs.drop 8) else none
  | c :: cs => (escape? c).map fun d => (d, cs)
  | [] => none

/-- A text on one line up to its closing quote; `escapes` says whether a backslash is special. -/
def line? (quote : Char) (escapes : Bool) : (fuel : Nat) → List Char →
    Option (List Char × List Char)
  | 0, _ => none
  | _, [] => none
  | fuel + 1, c :: cs =>
    if c == quote then some ([], cs)
    else if escapes && c == '\\' then do
      let (d, cs) ← escaped? cs
      let (inside, cs) ← line? quote escapes fuel cs
      return (d :: inside, cs)
    else if isPlain c then do
      let (inside, cs) ← line? quote escapes fuel cs
      return (c :: inside, cs)
    else none

/-- The characters after blanks and line breaks. -/
def skipBreaks : List Char → List Char
  | '\r' :: '\n' :: cs => skipBreaks cs
  | c :: cs => if Text.isGap c || c == '\n' then skipBreaks cs else c :: cs
  | [] => []

/-- The text after a backslash at the end of a line: blanks and line breaks do not count. -/
def continued? (cs : List Char) : Option (List Char) :=
  (lineBreak? (skipGap cs)).map skipBreaks

/-- A text over several lines up to its three closing quotes, of which two more may stand before
    them. -/
def lines? (quote : Char) (escapes : Bool) : (fuel : Nat) → List Char →
    Option (List Char × List Char)
  | 0, _ => none
  | _, [] => none
  | fuel + 1, c :: cs =>
    if c == quote then
      let run := ((c :: cs).takeWhile (· == quote)).length
      if run < 3 then do
        let (inside, cs) ← lines? quote escapes fuel cs
        return (c :: inside, cs)
      else if run ≤ 5 then some (List.replicate (run - 3) quote, (c :: cs).drop run)
      else none
    else if escapes && c == '\\' then
      match continued? cs with
      | some cs => lines? quote escapes fuel cs
      | none => do
        let (d, cs) ← escaped? cs
        let (inside, cs) ← lines? quote escapes fuel cs
        return (d :: inside, cs)
    else
      match if isPlain c then some (c, cs) else (lineBreak? (c :: cs)).map fun cs => ('\n', cs) with
      | some (d, cs) => do
        let (inside, cs) ← lines? quote escapes fuel cs
        return (d :: inside, cs)
      | none => none

/-- A text in quotes. -/
def quoted? : List Char → Option (List Char × List Char)
  | c :: cs =>
    if c == '"' || c == '\'' then
      match Text.after? [c, c] cs with
      | some cs => lines? c (c == '"') cs.length ((lineBreak? cs).getD cs)
      | none => line? c (c == '"') cs.length cs
    else none
  | [] => none

/-! ## Keys -/

/-- The character may stand in a key without quotes. -/
def isBare (c : Char) : Bool :=
  Text.isNameChar c || c == '-'

/-- One part of a key. -/
def keyPart? : List Char → Option (String × List Char)
  | [] => none
  | c :: cs =>
    if c == '"' || c == '\'' then
      (line? c (c == '"') cs.length cs).map fun (inside, cs) => (String.ofList inside, cs)
    else if isBare c then
      some (String.ofList (c :: cs.takeWhile isBare), cs.dropWhile isBare)
    else none

/-- A key of at most `depth` parts with points between them. -/
def keyWithin? : (depth : Nat) → List Char → Option (List String × List Char)
  | 0, _ => none
  | depth + 1, cs => do
    let (part, rest) ← keyPart? cs
    match skipGap rest with
    | '.' :: rest =>
      let (path, rest) ← keyWithin? depth (skipGap rest)
      return (part :: path, rest)
    | rest => return ([part], rest)

/-- A key: parts with points between them. -/
def key? (cs : List Char) : Option (List String × List Char) :=
  keyWithin? (depthLimit - 1) (skipGap cs)

/-! ## Numbers -/

/-- Digits with single underscores between them, without the underscores. -/
def grouped? (digit : Char → Bool) : List Char → Option (List Char)
  | [] => none
  | [c] => if digit c then some [c] else none
  | c :: '_' :: cs => if digit c then (grouped? digit cs).map (c :: ·) else none
  | c :: cs => if digit c then (grouped? digit cs).map (c :: ·) else none

/-- The digits of a whole number without needless zeros in front. -/
def whole? (cs : List Char) : Option (List Char) :=
  match grouped? Text.isDigit cs with
  | some ('0' :: _ :: _) => none
  | digits => digits

/-- A number within 64 bits. -/
def bounded? (n : Int) : Option Toml :=
  if -(Int.pow 2 63) ≤ n && n < Int.pow 2 63 then some (.int n) else none

/-- A number in another base than ten. -/
def based? (base : Nat) (cs : List Char) : Option Toml :=
  match grouped? (fun c => (hex? [c]).any (· < base)) cs with
  | some digits => bounded? (digits.foldl (fun n c => base * n + (hex? [c]).getD 0) 0 : Nat)
  | none => none

/-- An integer. -/
def integer? : List Char → Option Toml
  | '0' :: 'x' :: cs => based? 16 cs
  | '0' :: 'o' :: cs => based? 8 cs
  | '0' :: 'b' :: cs => based? 2 cs
  | cs =>
    let (negative, cs) := Text.signed cs
    match whole? cs with
    | some digits =>
      let n : Int := Text.natOfDigits digits
      bounded? (if negative then -n else n)
    | none => none

/-- The exponent of a number, with its mark. -/
def exponent? : List Char → Option (List Char)
  | [] => some []
  | c :: cs =>
    if c == 'e' || c == 'E' then
      let (negative, digits) := Text.signed cs
      (grouped? Text.isDigit digits).map fun digits =>
        'e' :: (if negative then '-' :: digits else digits)
    else none

/-- The part of a number after its point, with the point, and its exponent. -/
def fraction? : List Char → Option (List Char)
  | '.' :: cs => do
    let isExponent := fun c => c == 'e' || c == 'E'
    let digits ← grouped? Text.isDigit (cs.takeWhile fun c => !isExponent c)
    let exponent ← exponent? (cs.dropWhile fun c => !isExponent c)
    return '.' :: digits ++ exponent
  | [] => none
  | cs => exponent? cs

/-- A number with a fraction or an exponent, or one that is not finite. A number too large must be
    negative. -/
def float? (cs : List Char) : Option Toml :=
  let (negative, cs) := Text.signed cs
  if cs == ['i', 'n', 'f'] then some (.float (.infinity negative))
  else if cs == ['n', 'a', 'n'] then some (.float (.nan negative))
  else do
    let isWhole := fun c => Text.isDigit c || c == '_'
    let digits ← whole? (cs.takeWhile isWhole)
    let rest ← fraction? (cs.dropWhile isWhole)
    let x ← Binary64.unsigned? negative (digits ++ rest)
    if x == .infinity false then none else some (.float x)

/-- The character may stand in a word or number. -/
def isWordChar (c : Char) : Bool :=
  isBare c || c == '+' || c == '.' || c == ':'

/-- A word or number. -/
def word? (cs : List Char) : Option (Toml × List Char) :=
  match moment? .day cs with
  | some rest => some (.moment (String.ofList (cs.take (cs.length - rest.length))), rest)
  | none =>
    let word := cs.takeWhile isWordChar
    let rest := cs.dropWhile isWordChar
    if word == "true".toList then some (.bool true, rest)
    else if word == "false".toList then some (.bool false, rest)
    else (((integer? word).orElse fun _ => float? word)).map fun v => (v, rest)

/-! ## Values -/

mutual

/-- A value; `depth` more brackets may be opened. -/
def value? : (fuel depth : Nat) → List Char → Option (Toml × List Char)
  | 0, _, _ => none
  | fuel + 1, depth, cs =>
    match cs, depth with
    | '[' :: _, 0 => none
    | '\x7b' :: _, 0 => none
    | '[' :: cs, depth + 1 =>
      (items? fuel depth cs).map fun (items, cs) => (.array false items, cs)
    | '\x7b' :: cs, depth + 1 =>
      match skipGap cs with
      | '\x7d' :: cs => some (.table .inline [], cs)
      | cs => (members? fuel depth [] cs).map fun (entries, cs) => (.table .inline entries, cs)
    | cs, _ =>
      match quoted? cs with
      | some (inside, cs) => some (.text (String.ofList inside), cs)
      | none => word? cs

/-- The items of an array up to its closing bracket. -/
def items? : (fuel depth : Nat) → List Char → Option (List Toml × List Char)
  | 0, _, _ => none
  | fuel + 1, depth, cs =>
    match skipLines cs.length cs with
    | ']' :: cs => some ([], cs)
    | cs => do
      let (item, cs) ← value? fuel depth cs
      match skipLines cs.length cs with
      | ',' :: cs =>
        let (items, cs) ← items? fuel depth cs
        return (item :: items, cs)
      | ']' :: cs => return ([item], cs)
      | _ => none

/-- The members of a table up to its closing brace. -/
def members? : (fuel depth : Nat) → Entries → List Char → Option (Entries × List Char)
  | 0, _, _, _ => none
  | fuel + 1, depth, entries, cs => do
    let (path, cs) ← key? cs
    let cs ← Text.after? ['='] cs
    let (value, cs) ← value? fuel depth (skipGap cs)
    let entries ← giveAt path value entries
    match skipGap cs with
    | ',' :: cs => members? fuel depth entries cs
    | '\x7d' :: cs => return (entries, cs)
    | _ => none

end

/-! ## Documents -/

/-- A key between brackets. -/
def bracketed? (opening closing : List Char) (cs : List Char) :
    Option (List String × List Char) := do
  let cs ← Text.after? opening cs
  let (path, cs) ← key? cs
  return (path, ← Text.after? closing cs)

/-- A line that says something. -/
def entry? (cs : List Char) : Option (Entry × List Char) :=
  if Text.startsWith ['[', '['] cs then
    (bracketed? ['[', '['] [']', ']'] cs).map fun (path, cs) => (.arrayHeader path, cs)
  else if Text.startsWith ['['] cs then
    (bracketed? ['['] [']'] cs).map fun (path, cs) => (.header path, cs)
  else do
    let (path, cs) ← key? cs
    let cs ← Text.after? ['='] cs
    let (value, cs) ← value? (cs.length + 1) (depthLimit - 1) (skipGap cs)
    return (.assign path value, cs)

/-- The lines of a document. -/
def entries? : (fuel : Nat) → List Char → Option (List Entry)
  | 0, _ => some []
  | fuel + 1, cs =>
    match skipComment (skipLines cs.length cs) with
    | [] => some []
    | cs => do
      let (entry, cs) ← entry? cs
      let entries ← entries? fuel (← lineEnd? cs)
      return entry :: entries

/-- The characters of a document after the mark that may say how it is encoded. -/
def afterMark (cs : List Char) : List Char :=
  match cs with
  | c :: rest => if c.toNat == 0xFEFF then rest else cs
  | [] => []

/-- The entries of a document. -/
def parse? (source : String) : Option Entries := do
  let cs := afterMark source.toList
  build (← entries? (cs.length + 1) cs) [] []

end StepScript.Toml
