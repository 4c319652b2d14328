/-!
# Finding and cutting text

Occurrences of one text in another, on lists of characters: removing it from the front,
splitting at every occurrence, replacing, and cutting at the first or last of a character.
Occurrences are taken from left to right and do not overlap.
-/

set_option autoImplicit false

namespace StepScript.Text

/-! ## Front and end -/

/-- What follows `front`, when the text starts with it. -/
def after? : (front : List Char) → (text : List Char) → Option (List Char)
  | [], text => some text
  | _ :: _, [] => none
  | f :: front, c :: text => if f == c then after? front text else none

/-- The text starts with `front`. -/
def startsWith (front text : List Char) : Bool :=
  (after? front text).isSome

/-- The text ends with `tail`. -/
def endsWith (tail text : List Char) : Bool :=
  startsWith tail.reverse text.reverse

/-- `after?` finds exactly what `front` was put before. -/
theorem after?_eq_some_iff {front text rest : List Char} :
    after? front text = some rest ↔ text = front ++ rest := by
  induction front generalizing text with
  | nil => simp [after?]
  | cons f front ih =>
    cases text with
    | nil => simp [after?]
    | cons c text =>
      by_cases h : f = c
      · simp [after?, h, ih]
      · have hne : c ≠ f := fun e => h e.symm
        simp [after?, h, hne]

/-- What is put in front is found there. -/
@[simp] theorem after?_append (front rest : List Char) :
    after? front (front ++ rest) = some rest :=
  after?_eq_some_iff.2 rfl

/-! ## Occurrences -/

/-- `part` occurs somewhere in the text. -/
def occursIn (part : List Char) : List Char → Bool
  | [] => part.isEmpty
  | c :: text => startsWith part (c :: text) || occursIn part text

/-- The pieces between the occurrences of `mark`, which is not empty: `piece` is the piece read
    so far, last character first, and `skip` characters of an occurrence are still to be passed. -/
def splitFrom (mark : List Char) : List Char → (piece : List Char) → (skip : Nat) →
    List (List Char)
  | [], piece, _ => [piece.reverse]
  | _ :: text, piece, skip + 1 => splitFrom mark text piece skip
  | c :: text, piece, 0 =>
    if startsWith mark (c :: text) then
      piece.reverse :: splitFrom mark text [] (mark.length - 1)
    else splitFrom mark text (c :: piece) 0

/-- The pieces of the text between the occurrences of `mark`, which is not empty. -/
def splitAt (mark text : List Char) : List (List Char) :=
  splitFrom mark text [] 0

/-- Every occurrence of `old` replaced by `new`; an empty `old` occurs before each character and
    at the end. -/
def replace (old new text : List Char) : List Char :=
  if old.isEmpty then text.foldr (fun c rest => new ++ c :: rest) new
  else new.intercalate (splitAt old text)

/-- The text before and after the first `mark`. -/
def cutFirst? (mark : Char) : List Char → Option (List Char × List Char)
  | [] => none
  | c :: text =>
    if c == mark then some ([], text)
    else (cutFirst? mark text).map fun (before, rest) => (c :: before, rest)

/-- The text before and after the last `mark`. -/
def cutLast? (mark : Char) (text : List Char) : Option (List Char × List Char) :=
  (cutFirst? mark text.reverse).map fun (rest, before) => (before.reverse, rest.reverse)

/-! ## Lines -/

/-- The lines of a text: `line` is the line read so far, last character first. A line feed ends a
    line and takes one carriage return before it; a last line needs no line feed. -/
def linesFrom : List Char → (line : List Char) → List (List Char)
  | [], line => if line.isEmpty then [] else [line.reverse]
  | c :: text, line =>
    if c == '\n' then
      (match line with
      | '\r' :: line => line.reverse
      | line => line.reverse) :: linesFrom text []
    else linesFrom text (c :: line)

/-- The lines of a text. -/
def lines (s : String) : List String :=
  (linesFrom s.toList []).map String.ofList

/-! ## Order -/

/-- Order of texts by their characters' code points, which is also the order of their bytes. -/
def order : List Char → List Char → Ordering
  | [], [] => .eq
  | [], _ :: _ => .lt
  | _ :: _, [] => .gt
  | a :: as, b :: bs =>
    match compare a.toNat b.toNat with
    | .eq => order as bs
    | o => o

/-- Order of strings by code points. -/
def orderOf (a b : String) : Ordering :=
  order a.toList b.toList

end StepScript.Text
