import StepScript.Text.Digits
import StepScript.Text.Search

/-!
# Dates and times

Which characters are a date, a time of day, or a date with a time. Readers give what follows the
characters they read. A day must be one of its month, by the calendar with leap years.

A `Clock` says which hours there are: those of a document's values, and the wider ones of texts that
stand for a date by a mark.
-/

set_option autoImplicit false

namespace StepScript.Toml

/-! ## Numbers of two digits -/

/-- Two digits that make a number within bounds, and what follows them. -/
def pair? (low high : Nat) : List Char → Option (Nat × List Char)
  | a :: b :: rest =>
    let n := Text.natOfDigits [a, b]
    if Text.isDigit a && Text.isDigit b && low ≤ n && n ≤ high then some (n, rest) else none
  | _ => none

/-! ## Dates -/

/-- The year has a 29th of February. -/
def isLeapYear (year : Nat) : Bool :=
  year % 4 == 0 && (year % 100 != 0 || year % 400 == 0)

/-- How many days a month has. -/
def daysOf (year month : Nat) : Nat :=
  if month == 2 then if isLeapYear year then 29 else 28
  else if [4, 6, 9, 11].contains month then 30
  else 31

/-- Four digits of a year, and what follows them. -/
def year? (cs : List Char) : Option (Nat × List Char) :=
  let digits := cs.take 4
  if digits.length == 4 && digits.all Text.isDigit then
    some (Text.natOfDigits digits, cs.drop 4)
  else none

/-- What follows a date. -/
def date? (cs : List Char) : Option (List Char) := do
  let (year, cs) ← year? cs
  let (month, cs) ← pair? 1 12 (← Text.after? ['-'] cs)
  let (_, cs) ← pair? 1 (daysOf year month) (← Text.after? ['-'] cs)
  return cs

/-! ## Times -/

/-- The hours that a time may have, and the hours and minutes of its offset. -/
structure Clock where
  lastHour : Nat
  lastOffsetHour : Nat
  lastOffsetMinute : Nat

/-- The clock of a document's values. -/
def Clock.day : Clock :=
  ⟨23, 23, 59⟩

/-- The clock of marked texts: midnight may be the hour 24, and an offset any two numbers that make
    no more than a day. -/
def Clock.wide : Clock :=
  ⟨24, 99, 99⟩

/-- What follows a time of day. -/
def time? (clock : Clock) (cs : List Char) : Option (List Char) := do
  let (_, cs) ← pair? 0 clock.lastHour cs
  let (_, cs) ← pair? 0 59 (← Text.after? [':'] cs)
  let (_, cs) ← pair? 0 60 (← Text.after? [':'] cs)
  match cs with
  | '.' :: c :: cs => if Text.isDigit c then some (cs.dropWhile Text.isDigit) else none
  | cs => some cs

/-- What follows the hours and minutes of an offset. -/
def offsetTime? (clock : Clock) (cs : List Char) : Option (List Char) := do
  let (hours, cs) ← pair? 0 clock.lastOffsetHour cs
  let (minutes, cs) ← pair? 0 clock.lastOffsetMinute (← Text.after? [':'] cs)
  if 60 * hours + minutes ≤ 24 * 60 then some cs else none

/-- What follows the offset of a time, which may be missing. -/
def offset? (clock : Clock) : List Char → Option (List Char)
  | [] => some []
  | c :: cs =>
    if c == 'Z' || c == 'z' then some cs
    else if c == '+' || c == '-' then offsetTime? clock cs
    else some (c :: cs)

/-! ## Moments -/

/-- The character may stand between a date and a time. -/
def isTimeMark (c : Char) : Bool :=
  c == 'T' || c == 't' || c == ' '

/-- What follows the time after a date, which may be missing. -/
def timeOfDate? (clock : Clock) : List Char → Option (List Char)
  | [] => some []
  | c :: cs =>
    match if isTimeMark c then time? clock cs else none with
    | some rest => offset? clock rest
    | none => some (c :: cs)

/-- What follows a date, a time, or a date with a time. -/
def moment? (clock : Clock) (cs : List Char) : Option (List Char) :=
  match date? cs with
  | some rest => timeOfDate? clock rest
  | none => time? clock cs

/-- A marked text is a date, a time, or a date with a time, and nothing else. -/
def isMoment (s : String) : Bool :=
  moment? .wide s.toList == some []

end StepScript.Toml
