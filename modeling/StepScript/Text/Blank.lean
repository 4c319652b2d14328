/-!
# Blank characters

The characters that count as blank, and what is done with them: trimming both ends of a text
and cutting it into words. The class is the `White_Space` property of the Unicode standard,
so it is wider than the blanks and tabs that separate the parts of a statement.

All functions work on lists of characters. `trim` is what remains when blanks are dropped from
both ends, and `trim_trim` says that a trimmed text has none left.
-/

set_option autoImplicit false

namespace StepScript.Text

/-! ## The class -/

/-- The character is blank: one of the 25 characters of the property `White_Space`. -/
def isBlank (c : Char) : Bool :=
  let code := c.toNat
  (9 ≤ code && code ≤ 13) || code == 0x20 || code == 0x85 || code == 0xA0 || code == 0x1680
    || (0x2000 ≤ code && code ≤ 0x200A) || code == 0x2028 || code == 0x2029 || code == 0x202F
    || code == 0x205F || code == 0x3000

/-- The character is a space or a tab: what separates the parts of a line. -/
def isGap (c : Char) : Bool :=
  c == ' ' || c == '\t'

/-- A gap is blank. -/
theorem isBlank_of_isGap {c : Char} (h : isGap c = true) : isBlank c = true := by
  simp only [isGap, Bool.or_eq_true, beq_iff_eq] at h
  rcases h with rfl | rfl <;> decide

/-! ## Trimming -/

/-- The text without the blanks in front. -/
def trimStart (cs : List Char) : List Char :=
  cs.dropWhile isBlank

/-- The text without the blanks at its end. -/
def trimEnd (cs : List Char) : List Char :=
  (cs.reverse.dropWhile isBlank).reverse

/-- The text without the blanks at both ends. -/
def trim (cs : List Char) : List Char :=
  trimEnd (trimStart cs)

/-- The string without the blanks at both ends. -/
def trimmed (s : String) : String :=
  String.ofList (trim s.toList)

/-- Nothing is left in front to trim. -/
theorem trimStart_trimStart (cs : List Char) : trimStart (trimStart cs) = trimStart cs := by
  unfold trimStart
  induction cs with
  | nil => rfl
  | cons c cs ih =>
    by_cases h : isBlank c = true
    · simpa [List.dropWhile_cons, h] using ih
    · simp [h]

/-- Nothing is left at the end to trim. -/
theorem trimEnd_trimEnd (cs : List Char) : trimEnd (trimEnd cs) = trimEnd cs := by
  have h := trimStart_trimStart cs.reverse
  unfold trimStart at h
  simp [trimEnd, h]

/-- Trimming the end takes away a part of the end. -/
theorem trimEnd_isPrefixOf (cs : List Char) : trimEnd cs <+: cs := by
  rw [← List.reverse_suffix, trimEnd, List.reverse_reverse]
  exact List.dropWhile_suffix isBlank

/-- What has no blank in front still has none once its end is trimmed. -/
theorem trimStart_trimEnd {cs : List Char} (h : trimStart cs = cs) :
    trimStart (trimEnd cs) = trimEnd cs := by
  obtain ⟨rest, happ⟩ := trimEnd_isPrefixOf cs
  cases hend : trimEnd cs with
  | nil => rfl
  | cons c front =>
    rw [hend] at happ
    have hc : isBlank c = false := by
      rw [← happ, trimStart, List.cons_append, List.dropWhile_cons] at h
      split at h
      · have hlen := congrArg List.length h
        have hle := (List.dropWhile_suffix isBlank (l := front ++ rest)).length_le
        simp only [List.length_cons] at hlen
        omega
      · simp_all
    simp [trimStart, hc]

/-- Nothing is left at either end to trim. -/
theorem trim_trim (cs : List Char) : trim (trim cs) = trim cs := by
  unfold trim
  rw [trimStart_trimEnd (trimStart_trimStart cs), trimEnd_trimEnd]

/-! ## Words -/

/-- The pieces between blanks, none of them empty: `word` is the piece read so far, last
    character first. -/
def wordsFrom : List Char → List Char → List (List Char)
  | [], word => if word.isEmpty then [] else [word.reverse]
  | c :: cs, word =>
    if isBlank c then
      if word.isEmpty then wordsFrom cs [] else word.reverse :: wordsFrom cs []
    else wordsFrom cs (c :: word)

/-- The words of a text: its maximal runs without a blank. -/
def words (cs : List Char) : List (List Char) :=
  wordsFrom cs []

end StepScript.Text
