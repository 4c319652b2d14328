import StepScript.Program.Lint
import StepScript.Proofs.Reading

/-!
# Line checks and reading

Line checks look at the lines of a text without reading it. They find the content of a step by
dropping every blank there is, where reading knows of spaces and tabs alone and trims what is left.
On a trimmed line that is a step the two agree (`content_of_stepContent?`): between the word and the
number only a gap can stand, for a digit follows, and what is blank behind the number and its colon
is dropped by both, some of it as a gap and the rest by trimming.

So a line check classifies a step by the keyword that reading goes by. What that keyword is shows in
what reading makes of the step: the statement, or the fault, is named by it
(`SourceLine.readsAs_of_stepContent?`).
-/

set_option autoImplicit false

namespace StepScript

/-! ## Keywords of statements -/

/-- What a statement with the keyword is named. -/
def Keyword.name : Keyword → String
  | .key => "KEY"
  | k => k.text

namespace Statement

open Line

/-- The statement, if there is one, has a name. -/
def IsNamed (name : String) (s? : Option Statement) : Prop :=
  ∀ s, s? = some s → s.keyword = name

section

variable {α : Type} {name : String} {cs : List Char}

theorem isNamed_none : IsNamed name none := by
  intro s h
  cases h

theorem isNamed_some {s : Statement} (h : s.keyword = name) : IsNamed name (some s) := by
  intro s' hs
  cases hs
  exact h

theorem isNamed_ite {p : Prop} [Decidable p] {s : Statement} (h : s.keyword = name) :
    IsNamed name (if p then some s else none) := by
  split
  · exact isNamed_some h
  · exact isNamed_none

theorem isNamed_bind {x : Option α} {f : α → Option Statement} (h : ∀ a, IsNamed name (f a)) :
    IsNamed name (x.bind f) := by
  intro s hs
  obtain ⟨a, -, ha⟩ := Option.bind_eq_some_iff.1 hs
  exact h a s ha

theorem isNamed_map {x : Option α} {make : α → Statement} (h : ∀ a, (make a).keyword = name) :
    IsNamed name (x.map make) := by
  intro s hs
  obtain ⟨a, -, rfl⟩ := Option.map_eq_some_iff.1 hs
  exact h a

/-! The forms that several keywords share make statements of the name that their maker gives. -/

theorem isNamed_marker {s : Statement} (h : s.keyword = name) : IsNamed name (marker s cs) :=
  isNamed_ite h

theorem isNamed_named? {make : String → String → Statement}
    (h : ∀ x y, (make x y).keyword = name) : IsNamed name (named? make cs) :=
  isNamed_bind fun _ => isNamed_bind fun (_, _) => isNamed_bind fun _ => isNamed_bind fun _ =>
    isNamed_some (h _ _)

theorem isNamed_condition? {make : String → Statement} {closer : String}
    (h : ∀ x, (make x).keyword = name) : IsNamed name (condition? make closer cs) :=
  isNamed_map fun (_, _) => h _

theorem isNamed_mapped? {make : String → String → Statement}
    (h : ∀ x y, (make x y).keyword = name) : IsNamed name (mapped? make cs) :=
  isNamed_bind fun (_, _) => isNamed_bind fun _ => isNamed_some (h _ _)

theorem isNamed_transform? {w : String} {make : String → String → String → Statement}
    (h : ∀ x y z, (make x y z).keyword = name) : IsNamed name (transform? w make cs) :=
  isNamed_bind fun _ => isNamed_bind fun (_, _) => isNamed_bind fun _ => isNamed_bind fun _ =>
    isNamed_bind fun _ => isNamed_mapped? (h _)

end

/-- What is read in the form of a keyword is named by it. -/
theorem isNamed_ofKeyword? (k : Keyword) (cs : List Char) : IsNamed k.name (ofKeyword? k cs) := by
  cases k with
  | set =>
    exact isNamed_bind fun _ => isNamed_bind fun (_, _) => isNamed_bind fun _ =>
      isNamed_bind fun _ => isNamed_bind fun _ => isNamed_some rfl
  | importModule => exact isNamed_bind fun _ => isNamed_bind fun (_, _) => isNamed_ite rfl
  | key => exact isNamed_map fun _ => rfl
  | forEach =>
    exact isNamed_bind fun _ => isNamed_bind fun (_, _) => isNamed_bind fun _ =>
      isNamed_bind fun _ => isNamed_bind fun _ => isNamed_bind fun (_, _) =>
        isNamed_bind fun _ => isNamed_some rfl
  | forRange =>
    exact isNamed_bind fun _ => isNamed_bind fun (_, _) => isNamed_bind fun _ =>
      isNamed_bind fun (_, _) => isNamed_bind fun _ => isNamed_bind fun _ =>
        isNamed_bind fun _ => isNamed_bind fun (_, _) => isNamed_bind fun _ => isNamed_some rfl
  | whileLoop | ifThen => exact isNamed_condition? fun _ => rfl
  | returnValue | print => exact isNamed_some rfl
  | list | dict | append | remove => exact isNamed_named? fun _ _ => rfl
  | get | predict => exact isNamed_bind fun _ => isNamed_mapped? fun _ _ => rfl
  | sort =>
    exact isNamed_bind fun _ => isNamed_bind fun (_, _) => isNamed_bind fun _ => isNamed_some rfl
  | filter | map | reduce => exact isNamed_transform? fun _ _ _ => rfl
  | catchFault =>
    show IsNamed _ (catchFault? cs)
    unfold catchFault?
    split
    · exact isNamed_marker rfl
    · exact isNamed_marker rfl
  | call =>
    exact isNamed_bind fun _ => isNamed_bind fun (_, _) => isNamed_bind fun (_, _) =>
      isNamed_bind fun _ => isNamed_some rfl
  | create =>
    exact isNamed_bind fun _ => isNamed_bind fun (_, _) => isNamed_bind fun _ =>
      isNamed_bind fun (_, _) => isNamed_bind fun (_, _) => isNamed_ite rfl
  | loadModel =>
    exact isNamed_bind fun _ => isNamed_bind fun (_, _) => isNamed_bind fun _ => isNamed_some rfl
  | train =>
    exact isNamed_bind fun _ => isNamed_bind fun (_, _) => isNamed_bind fun _ =>
      isNamed_bind fun _ => isNamed_bind fun _ => isNamed_bind fun _ => isNamed_some rfl
  | endIf | orElse | endForEach | endFor | endWhile | breakLoop | continueLoop | tryBlock
  | endTry => exact isNamed_marker rfl

end Statement

/-! ## Steps -/

/-- Reading takes a step for one with the keyword: the statement that it makes of it is named by the
    keyword, or the fault is. A step without a keyword is kept as it is. -/
def SourceLine.ReadsAs (l : SourceLine) : Option Keyword → Prop
  | none => ∃ location text, parseStep l = .ok (location, .raw text)
  | some k =>
    (∃ location s, parseStep l = .ok (location, s) ∧ s.keyword = k.name) ∨
      ∃ text, parseStep l = .error (.malformed l.number k.text text)

/-- Reading goes by the keyword that the content of a step starts with. -/
theorem SourceLine.readsAs_of_stepContent? {l : SourceLine} {step : Nat} {content : List Char}
    (h : stepContent? l.text = some (step, content)) :
    l.ReadsAs ((Keyword.classify? content).map Prod.fst) := by
  have hparse : parseStep l = (do
      let s ← Statement.parse (String.ofList content) l.number
      return (⟨l.number, step⟩, s)) := by rw [parseStep, h]
  rw [Statement.parse, String.toList_ofList] at hparse
  rcases hclass : Keyword.classify? content with _ | ⟨k, rest⟩
  · rw [hclass] at hparse
    exact ⟨_, _, hparse⟩
  · rcases hform : Statement.ofKeyword? k rest with _ | s
    · simp only [hclass, hform] at hparse
      exact Or.inr ⟨_, hparse⟩
    · simp only [hclass, hform] at hparse
      exact Or.inl ⟨_, s, hparse, Statement.isNamed_ofKeyword? k rest s hform⟩

/-! ## Contents of steps -/

/-- A gap in front makes no difference to what is left without blanks. -/
theorem Text.trimStart_skipGap (cs : List Char) : trimStart (Line.skipGap cs) = trimStart cs := by
  have hgap : ∀ c ∈ cs.takeWhile isGap, isBlank c = true := by
    intro c hc
    exact isBlank_of_isGap (List.mem_takeWhile_imp hc)
  calc trimStart (Line.skipGap cs)
      = trimStart (cs.takeWhile isGap ++ Line.skipGap cs) := (trimStart_append hgap _).symm
    _ = trimStart cs := by rw [Line.skipGap, List.takeWhile_append_dropWhile]

/-- An end of a trimmed text is trimmed by dropping the blanks in front. -/
theorem Text.trim_of_suffix {cs rest : List Char} (hcs : trim cs = cs) (hrest : rest <:+ cs) :
    trim rest = trimStart rest := by
  rw [trim, trimEnd_eq_self_iff]
  intro c hc
  have hne : trimStart rest ≠ [] := by
    rintro hnil
    rw [hnil] at hc
    cases hc
  -- The last character is that of the whole text.
  obtain ⟨front, hfront⟩ : trimStart rest <:+ cs := (List.dropWhile_suffix isBlank).trans hrest
  refine (trim_eq_self_iff.1 hcs).2 c ?_
  rw [← hfront, List.getLast?_append, Option.mem_def.1 hc]
  rfl

/-- The content of a step is the end of its line. -/
theorem StepText.suffix {text digits rest : List Char} (h : StepText text digits rest) :
    rest <:+ text := by
  obtain @⟨gap, _, _, _, -, -, -, @⟨colon, blank, _, -, -, -⟩, -⟩ := h
  exact ⟨"STEP".toList ++ (gap ++ (digits ++ (colon ++ blank))), by simp⟩

namespace Lint

/-- **A line check finds the content that reading finds**, on every trimmed line that is a step. -/
theorem content_of_stepContent? {line parsed : List Char} {step : Nat}
    (hline : Text.trim line = line) (h : stepContent? line = some (step, parsed)) :
    content line = parsed := by
  obtain ⟨digits, rest, htext, -, rfl⟩ := Line.stepContent?_eq_some_iff.1 h
  have hsuffix : rest <:+ line := htext.suffix
  obtain @⟨gap, _, tail, _, ⟨-, hgap⟩, hdigits, hend, htail, -⟩ := htext
  have hword : Line.word? "STEP" ("STEP".toList ++ (gap ++ (digits ++ tail)))
      = some (gap ++ (digits ++ tail)) := Text.after?_append _ _
  -- A digit stands behind the gap, so no further blank is dropped in front of the number.
  have hnumber : Text.trimStart (gap ++ (digits ++ tail)) = digits ++ tail := by
    rw [Text.trimStart_append fun c hc => Text.isBlank_of_isGap (hgap c hc),
      Text.trimStart_eq_self_iff]
    obtain ⟨d, ds, rfl⟩ := List.exists_cons_of_ne_nil hdigits.1
    intro c hc
    cases hc
    exact Text.isBlank_of_isNameChar (by simp [Text.isNameChar, hdigits.2 d List.mem_cons_self])
  have hrest : Text.trimStart ((Line.word? ":" tail).getD tail) = Text.trimStart rest := by
    rw [← Text.trimStart_skipGap, Line.numberTail_iff.1 htail]
  calc content ("STEP".toList ++ (gap ++ (digits ++ tail)))
      = Text.trimStart ((Line.word? ":" tail).getD tail) := by
        simp only [content, hword, hnumber, Text.dropWhile_run hdigits.2 hend]
    _ = Text.trimStart rest := hrest
    _ = Text.trim rest := (Text.trim_of_suffix hline hsuffix).symm

/-- **A line check and reading see the same statement**, on every trimmed line that is a step: the
    content is the same, whatever digits, colon and blanks stand before it, so a line check judges
    the content that reading gets and goes by the keyword that reading takes the step for. -/
theorem lines_read_alike {l : SourceLine} {step : Nat} {parsed : List Char}
    (hline : Text.trim l.text = l.text) (hstep : stepContent? l.text = some (step, parsed)) :
    content l.text = parsed ∧
      lineIssue? l = (problem? parsed).map (fun problem => ⟨l.number, problem⟩) ∧
      l.ReadsAs ((Keyword.classify? (content l.text)).map Prod.fst) := by
  have hcontent : content l.text = parsed := content_of_stepContent? hline hstep
  refine ⟨hcontent, ?_, ?_⟩
  · rw [lineIssue?, hcontent]
  · rw [hcontent]
    exact SourceLine.readsAs_of_stepContent? hstep

/-- Behind the colon stand blanks that are no gap; the line check misses the arrow, and reading
    refuses the assignment. -/
theorem lines_read_alike_wideBlanks :
    let l : SourceLine := ⟨3, "STEP\t007:\u3000\u00a0 Set x 5".toList⟩
    Text.trim l.text = l.text ∧ stepContent? l.text = some (7, "Set x 5".toList) ∧
      content l.text = "Set x 5".toList ∧ lineIssue? l = some ⟨3, .missingArrow⟩ ∧
      l.ReadsAs (some .set) := by
  have hline : Text.trim "STEP\t007:\u3000\u00a0 Set x 5".toList
      = "STEP\t007:\u3000\u00a0 Set x 5".toList := by decide
  have hstep : stepContent? "STEP\t007:\u3000\u00a0 Set x 5".toList
      = some (7, "Set x 5".toList) := by rfl
  obtain ⟨hcontent, hissue, hreads⟩ := lines_read_alike (l := ⟨3, _⟩) hline hstep
  refine ⟨hline, hstep, hcontent, hissue, ?_⟩
  rwa [hcontent] at hreads

end Lint

end StepScript
