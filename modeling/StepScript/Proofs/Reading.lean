import StepScript.Cli.Command
import StepScript.Proofs.Operands

/-!
# Strict and permissive reading

Both modes of reading go through the same lines. Permissive reading takes the steps among them and
passes over what it does not know, so it fails at the header only; strict reading succeeds exactly
when there is nothing to pass over and the blocks are well nested, and then it gives the same
program (`parse_permissive_body`, `parse_strict_iff`).

The lines that count for a program are those between its header and its first terminator
(`bodyLines`). What a step line is, is said without the reader: `StepText` gives the parts it is
made of, and `stepContent?` finds just these.

A check reads permissively, so it says nothing about the lines that were passed over.
-/

set_option autoImplicit false

namespace StepScript

/-! ## Front parts -/

theorem Text.startsWith_iff {front text : List Char} :
    startsWith front text = true ↔ front <+: text := by
  rw [startsWith, Option.isSome_iff_exists]
  constructor
  · rintro ⟨rest, hrest⟩
    exact ⟨rest, (after?_eq_some_iff.1 hrest).symm⟩
  · rintro ⟨rest, rfl⟩
    exact ⟨rest, after?_append front rest⟩

/-- A run of characters stops at one that does not belong to it. -/
theorem Text.dropWhile_head (p : Char → Bool) (cs : List Char) :
    ∀ c ∈ (cs.dropWhile p).head?, p c = false := by
  intro c hc
  have hnot := List.head?_dropWhile_not p cs
  rw [Option.mem_def.1 hc] at hnot
  simpa using hnot

namespace Line

theorem word?_isSome_iff {w : String} {cs : List Char} :
    (word? w cs).isSome = true ↔ w.toList <+: cs :=
  Text.startsWith_iff

theorem skipGap_head (cs : List Char) : ∀ c ∈ (skipGap cs).head?, Text.isGap c = false :=
  Text.dropWhile_head Text.isGap cs

/-- The gap that is passed is as long as it can be. -/
theorem gap?_eq_some_iff {cs r : List Char} :
    gap? cs = some r ↔ ∃ gap, gap ≠ [] ∧ (∀ c ∈ gap, Text.isGap c = true) ∧
      (∀ c ∈ r.head?, Text.isGap c = false) ∧ cs = gap ++ r := by
  constructor
  · intro h
    obtain ⟨c, hc, rest, rfl, rfl⟩ := gap?_eq_some h
    refine ⟨c :: rest.takeWhile Text.isGap, List.cons_ne_nil _ _, ?_, skipGap_head rest, ?_⟩
    · exact List.forall_mem_cons.2 ⟨hc, fun d hd => List.mem_takeWhile_imp hd⟩
    · rw [List.cons_append, skipGap, List.takeWhile_append_dropWhile]
  · rintro ⟨gap, hne, hgap, hr, rfl⟩
    obtain ⟨c, gap, rfl⟩ := List.exists_cons_of_ne_nil hne
    rw [List.forall_mem_cons] at hgap
    rw [List.cons_append, gap?, if_pos hgap.1, skipGap, Text.dropWhile_run hgap.2 hr]

end Line

/-! ## Steps -/

/-- What follows the number of a step: a colon that may be missing, and the content behind any gap.
    A colon is taken where one stands, and the gap is as long as it can be. -/
inductive NumberTail : (text content : List Char) → Prop where
  | mk {colon blank content : List Char}
      (hcolon : colon = [':'] ∨ colon = [] ∧ ∀ c ∈ (blank ++ content).head?, c ≠ ':')
      (hblank : ∀ c ∈ blank, Text.isGap c = true)
      (hcontent : ∀ c ∈ content.head?, Text.isGap c = false) :
      NumberTail (colon ++ (blank ++ content)) content

/-- The text is a step with the digits of a number and a content: the word, a gap, the digits, and
    what follows them. Gap and digits are as long as they can be, and there is some content. -/
inductive StepText : (text digits content : List Char) → Prop where
  | mk {gap digits tail content : List Char}
      (hgap : gap ≠ [] ∧ ∀ c ∈ gap, Text.isGap c = true)
      (hdigits : digits ≠ [] ∧ ∀ c ∈ digits, Text.isDigit c = true)
      (hend : ∀ c ∈ tail.head?, Text.isDigit c = false) (htail : NumberTail tail content)
      (hcontent : content ≠ []) :
      StepText ("STEP".toList ++ (gap ++ (digits ++ tail))) digits content

theorem not_isGap_of_isDigit {c : Char} (h : Text.isDigit c = true) : Text.isGap c = false :=
  Text.isGap_of_isBlank (Text.isBlank_of_isNameChar (by simp [Text.isNameChar, h]))

namespace Line

theorem numberTail_skipGap (colon cs : List Char)
    (hcolon : colon = [':'] ∨ colon = [] ∧ ∀ c ∈ cs.head?, c ≠ ':') :
    NumberTail (colon ++ cs) (skipGap cs) := by
  have hparts : cs.takeWhile Text.isGap ++ skipGap cs = cs := List.takeWhile_append_dropWhile
  have htail : NumberTail (colon ++ (cs.takeWhile Text.isGap ++ skipGap cs)) (skipGap cs) :=
    .mk (by rwa [hparts]) (fun c hc => List.mem_takeWhile_imp hc) (skipGap_head cs)
  rwa [hparts] at htail

/-- What follows the number of a step is read as it is put together. -/
theorem numberTail_iff {text content : List Char} :
    NumberTail text content ↔ skipGap ((word? ":" text).getD text) = content := by
  constructor
  · rintro @⟨colon, blank, _, hcolon, hblank, hcontent⟩
    rcases hcolon with rfl | ⟨rfl, hcolon⟩
    · exact Text.dropWhile_run hblank hcontent
    · have hword : word? ":" ([] ++ (blank ++ content)) = none := by
        rw [← Option.not_isSome_iff_eq_none, word?_isSome_iff]
        rintro ⟨rest, hrest⟩
        have hhead : (blank ++ content).head? = some ':' := congrArg List.head? hrest.symm
        exact hcolon ':' hhead rfl
      rw [hword, Option.getD_none]
      exact Text.dropWhile_run hblank hcontent
  · rintro rfl
    cases hword : word? ":" text with
    | some rest =>
      obtain rfl := Text.after?_eq_some_iff.1 hword
      exact numberTail_skipGap _ rest (Or.inl rfl)
    | none =>
      refine numberTail_skipGap [] text (Or.inr ⟨rfl, ?_⟩)
      rintro c hc rfl
      cases text with
      | nil => cases hc
      | cons d rest =>
        cases hc
        cases hword

/-- **Number and content of a step are found where its parts have them.** -/
theorem stepContent?_eq_some_iff {text content : List Char} {step : Nat} :
    stepContent? text = some (step, content) ↔
      ∃ digits rest, StepText text digits rest ∧ step = stepNumber digits ∧
        content = Text.trim rest := by
  constructor
  · intro h
    simp only [stepContent?, Option.bind_eq_bind, Option.bind_eq_some_iff] at h
    obtain ⟨cs₁, h₁, cs₂, h₂, h⟩ := h
    split at h
    · cases h
    next hdigits =>
    obtain ⟨gap, hne, hgap, -, rfl⟩ := gap?_eq_some_iff.1 h₂
    obtain rfl := Text.after?_eq_some_iff.1 h₁
    split at h
    · cases h
    next hrest =>
    cases h
    refine ⟨cs₂.takeWhile Text.isDigit, _, ?_, rfl, rfl⟩
    have hparts : cs₂.takeWhile Text.isDigit ++ cs₂.dropWhile Text.isDigit = cs₂ :=
      List.takeWhile_append_dropWhile
    have hstep : StepText _ (cs₂.takeWhile Text.isDigit) _ :=
      .mk ⟨hne, hgap⟩ ⟨by simpa using hdigits, fun c hc => List.mem_takeWhile_imp hc⟩
        (Text.dropWhile_head Text.isDigit cs₂) (numberTail_iff.2 rfl) hrest
    rwa [hparts] at hstep
  · rintro ⟨digits, rest, @⟨gap, _, tail, _, hgap, hdigits, hend, htail, hcontent⟩, rfl, rfl⟩
    have hword : word? "STEP" ("STEP".toList ++ (gap ++ (digits ++ tail)))
        = some (gap ++ (digits ++ tail)) := Text.after?_append _ _
    have hskip : gap? (gap ++ (digits ++ tail)) = some (digits ++ tail) := by
      refine gap?_eq_some_iff.2 ⟨gap, hgap.1, hgap.2, fun c hc => ?_, rfl⟩
      obtain ⟨d, ds, rfl⟩ := List.exists_cons_of_ne_nil hdigits.1
      cases hc
      exact not_isGap_of_isDigit (hdigits.2 _ List.mem_cons_self)
    simp only [stepContent?, hword, hskip, Option.bind_eq_bind, Option.bind_some,
      Text.takeWhile_run hdigits.2 hend, Text.dropWhile_run hdigits.2 hend, List.isEmpty_iff,
      hdigits.1, if_false, numberTail_iff.1 htail]

end Line

/-! ## Lines of a program -/

namespace SourceLine

/-- The line is a well-formed step: it has the form of one, and its content that of a statement. -/
def IsStep (l : SourceLine) (location : Location) (s : Statement) : Prop :=
  ∃ digits content, StepText l.text digits content ∧
    Statement.parse (String.ofList (Text.trim content)) l.number = .ok s ∧
    location = ⟨l.number, stepNumber digits⟩

/-- The statement of a line that is a well-formed step, and its place. -/
def step? (l : SourceLine) : Option (Location × Statement) :=
  (parseStep l).toOption

/-- The line is one that reading knows: it names the inputs or the output, or it is a well-formed
    step. -/
def IsKnown (l : SourceLine) : Prop :=
  "INPUT:".toList <+: l.text ∨ "OUTPUT:".toList <+: l.text ∨ ∃ location s, l.IsStep location s

variable {l : SourceLine} {location : Location} {s : Statement}

theorem parseStep_eq_ok_iff : parseStep l = .ok (location, s) ↔
    ∃ step content, stepContent? l.text = some (step, content) ∧
      Statement.parse (String.ofList content) l.number = .ok s ∧ location = ⟨l.number, step⟩ := by
  rw [parseStep]
  cases hcontent : stepContent? l.text with
  | none => simp
  | some pair =>
    obtain ⟨step, content⟩ := pair
    dsimp only
    cases hs : Statement.parse (String.ofList content) l.number with
    | error fault =>
      constructor
      · intro h
        cases h
      · rintro ⟨_, _, heq, hs', -⟩
        cases heq
        rw [hs] at hs'
        cases hs'
    | ok s' =>
      constructor
      · intro h
        cases h
        exact ⟨step, content, rfl, hs, rfl⟩
      · rintro ⟨_, _, heq, hs', rfl⟩
        cases heq
        rw [hs] at hs'
        cases hs'
        rfl

theorem step?_eq_some {pair : Location × Statement} (h : parseStep l = .ok pair) :
    l.step? = some pair := by
  rw [step?, h]
  rfl

theorem step?_eq_none {fault : SyntaxFault} (h : parseStep l = .error fault) : l.step? = none := by
  rw [step?, h]
  rfl

theorem step?_eq_some_iff : l.step? = some (location, s) ↔ l.IsStep location s := by
  have hok : l.step? = some (location, s) ↔ parseStep l = .ok (location, s) := by
    rw [step?]
    cases parseStep l <;> simp [Except.toOption]
  rw [hok, parseStep_eq_ok_iff, IsStep]
  constructor
  · rintro ⟨step, content, hcontent, hs, rfl⟩
    obtain ⟨digits, rest, htext, rfl, rfl⟩ := Line.stepContent?_eq_some_iff.1 hcontent
    exact ⟨digits, rest, htext, hs, rfl⟩
  · rintro ⟨digits, rest, htext, hs, rfl⟩
    exact ⟨_, _, Line.stepContent?_eq_some_iff.2 ⟨digits, rest, htext, rfl, rfl⟩, hs, rfl⟩

/-- A step starts with its word. -/
theorem IsStep.startsWith (h : l.IsStep location s) : "STEP".toList <+: l.text := by
  obtain ⟨digits, content, htext, -⟩ := h
  generalize l.text = text at htext
  cases htext with
  | mk => exact List.prefix_append _ _

theorem isStep_line (h : l.IsStep location s) : location.line = l.number := by
  obtain ⟨digits, content, -, -, rfl⟩ := h
  rfl

theorem step?_of_not_startsWith (h : ¬Text.startsWith "STEP".toList l.text = true) :
    l.step? = none := by
  rw [Option.eq_none_iff_forall_ne_some]
  rintro ⟨location, s⟩ hstep
  exact h (Text.startsWith_iff.2 (step?_eq_some_iff.1 hstep).startsWith)

/-- A line with another first word is no step. -/
theorem step?_of_word? {w : String} {rest : List Char} (hw : Line.word? w l.text = some rest)
    (hne : Text.startsWith "STEP".toList (w.toList ++ rest) = false) : l.step? = none := by
  refine step?_of_not_startsWith ?_
  rw [Text.after?_eq_some_iff.1 hw, hne]
  decide

end SourceLine

namespace Program

open SourceLine

variable {p q : Program} {l : SourceLine} {ls : List SourceLine}

/-! ## One line -/

/-- Permissive reading takes a step where there is one, and always goes on. -/
theorem addLine_permissive (p : Program) (l : SourceLine) :
    ∃ q, p.addLine false l = .ok q ∧ q.body = p.body ++ (l.step?.map Prod.snd).toList ∧
      q.locations = p.locations ++ (l.step?.map Prod.fst).toList := by
  have hnone (hstep : l.step? = none) (q : Program) (hbody : q.body = p.body)
      (hlocations : q.locations = p.locations) :
      q.body = p.body ++ (l.step?.map Prod.snd).toList ∧
        q.locations = p.locations ++ (l.step?.map Prod.fst).toList := by
    simp [hstep, hbody, hlocations]
  rw [addLine]
  split
  · next hnames => exact ⟨_, rfl, hnone (step?_of_word? hnames rfl) _ rfl rfl⟩
  · next houtput => exact ⟨_, rfl, hnone (step?_of_word? houtput rfl) _ rfl rfl⟩
  · split
    · cases hparse : parseStep l with
      | ok pair =>
        exact ⟨_, rfl, by simp [step?_eq_some hparse, push], by simp [step?_eq_some hparse, push]⟩
      | error fault => exact ⟨_, rfl, hnone (step?_eq_none hparse) _ rfl rfl⟩
    · next hword =>
      exact ⟨_, rfl, hnone (step?_of_not_startsWith hword) _ rfl rfl⟩

/-- Strict reading takes the lines that it knows, and does the same with them. -/
theorem addLine_strict_iff :
    p.addLine true l = .ok q ↔ p.addLine false l = .ok q ∧ l.IsKnown := by
  rw [IsKnown, ← Line.word?_isSome_iff, ← Line.word?_isSome_iff]
  simp only [← step?_eq_some_iff]
  cases hnames : Line.word? "INPUT:" l.text with
  | some names => simp [addLine, hnames]
  | none =>
    cases houtput : Line.word? "OUTPUT:" l.text with
    | some output => simp [addLine, hnames, houtput]
    | none =>
      by_cases hword : Text.startsWith "STEP".toList l.text = true
      · simp only [addLine, hnames, houtput, hword, if_true]
        cases hparse : parseStep l with
        | ok pair =>
          obtain ⟨location, s⟩ := pair
          simp [step?_eq_some hparse]
        | error fault => simp [step?_eq_none hparse]
      · simp only [addLine, hnames, houtput, if_neg hword]
        simp [step?_of_not_startsWith hword]

/-! ## All lines -/

/-- Permissive reading collects the steps before the first terminator, in their order. -/
theorem addLines_permissive (p : Program) (ls : List SourceLine) :
    ∃ q, p.addLines false ls = .ok q ∧
      q.body = p.body ++
        ((ls.takeWhile fun l => !l.isTerminator).filterMap step?).map Prod.snd ∧
      q.locations = p.locations ++
        ((ls.takeWhile fun l => !l.isTerminator).filterMap step?).map Prod.fst := by
  induction ls generalizing p with
  | nil => exact ⟨p, rfl, by simp, by simp⟩
  | cons l ls ih =>
    rw [addLines]
    by_cases hend : l.isTerminator = true
    · rw [if_pos hend]
      exact ⟨p, rfl, by simp [hend], by simp [hend]⟩
    · rw [if_neg hend]
      obtain ⟨p', hnext, hbody, hlocations⟩ := addLine_permissive p l
      obtain ⟨q, hq, hqbody, hqlocations⟩ := ih p'
      rw [hnext]
      refine ⟨q, hq, ?_, ?_⟩
      · rw [hqbody, hbody]
        cases hstep : l.step? <;> simp [hend, hstep]
      · rw [hqlocations, hlocations]
        cases hstep : l.step? <;> simp [hend, hstep]

/-- Strict reading goes through when it knows every line before the first terminator. -/
theorem addLines_strict_iff :
    p.addLines true ls = .ok q ↔
      p.addLines false ls = .ok q ∧ ∀ l ∈ ls.takeWhile fun l => !l.isTerminator, l.IsKnown := by
  induction ls generalizing p with
  | nil => simp [addLines]
  | cons l ls ih =>
    by_cases hend : l.isTerminator = true
    · simp [addLines, hend]
    · obtain ⟨p', hnext, -⟩ := addLine_permissive p l
      have hstrict : p.addLine true l = .ok p' ↔ l.IsKnown := by
        rw [addLine_strict_iff, hnext]
        simp
      rw [addLines, addLines, if_neg hend, if_neg hend, hnext]
      by_cases hknown : l.IsKnown
      · rw [hstrict.2 hknown]
        simpa [hend, hknown, bind, Except.bind] using ih (p := p')
      · cases hline : p.addLine true l with
        | ok p'' =>
          obtain ⟨-, hl⟩ := addLine_strict_iff.1 hline
          exact absurd hl hknown
        | error fault =>
          constructor
          · intro h
            cases h
          · rintro ⟨-, hall⟩
            exact absurd (hall l (by simp [hend])) hknown

end Program

/-! ## Numbers of lines -/

namespace SourceLine

/-- A numbered line is one of the lines, trimmed, at the place that its number says. -/
theorem mem_numberFrom {n : Nat} {lines : List String} {l : SourceLine}
    (h : l ∈ numberFrom n lines) :
    ∃ line, n ≤ l.number ∧ lines[l.number - n]? = some line ∧ l.text = Text.trim line.toList := by
  induction lines generalizing n with
  | nil => cases h
  | cons line lines ih =>
    rcases List.mem_cons.1 h with rfl | h
    · exact ⟨line, Nat.le_refl n, by simp, rfl⟩
    · obtain ⟨line', hle, hat, htext⟩ := ih h
      refine ⟨line', Nat.le_of_succ_le hle, ?_, htext⟩
      have hsub : l.number - n = l.number - (n + 1) + 1 := by omega
      rw [hsub, List.getElem?_cons_succ, hat]

/-- Numbers of lines grow. -/
theorem pairwise_numberFrom (n : Nat) (lines : List String) :
    (numberFrom n lines).Pairwise fun a b => a.number < b.number := by
  induction lines generalizing n with
  | nil => exact .nil
  | cons line lines ih =>
    refine .cons ?_ (ih (n + 1))
    intro l hl
    obtain ⟨-, hle, -⟩ := mem_numberFrom hl
    exact hle

end SourceLine

/-- The lines that count between the header of a text and its first terminator. -/
def bodyLines (source : String) : List SourceLine :=
  (SourceLine.ofLines (Text.lines source)).tail.takeWhile fun l => !l.isTerminator

/-- The first line that counts is a header: it opens a program and names it. -/
def HasHeader (source : String) : Prop :=
  ∃ header ∈ (SourceLine.ofLines (Text.lines source)).head?,
    (∃ kind : HeaderKind, kind.opens header.text = true) ∧ 2 ≤ (Text.words header.text).length

theorem bodyLines_sublist (source : String) :
    (bodyLines source).Sublist (SourceLine.numberFrom 1 (Text.lines source)) :=
  (List.takeWhile_sublist _).trans ((List.tail_sublist _).trans List.filter_sublist)

/-- The places of steps are numbers of lines, in the order of the lines. -/
theorem pairwise_locations (source : String) :
    ((((bodyLines source).filterMap SourceLine.step?).map Prod.fst).map Location.line).Pairwise
      (· < ·) := by
  have hnumbers : (bodyLines source).Pairwise fun a b => a.number < b.number :=
    (SourceLine.pairwise_numberFrom 1 _).sublist (bodyLines_sublist source)
  rw [List.map_map, List.pairwise_map, List.pairwise_filterMap]
  refine hnumbers.imp ?_
  rintro a b hlt ⟨la, sa⟩ ha ⟨lb, sb⟩ hb
  have hla := SourceLine.isStep_line (SourceLine.step?_eq_some_iff.1 ha)
  have hlb := SourceLine.isStep_line (SourceLine.step?_eq_some_iff.1 hb)
  simpa [hla, hlb] using hlt

namespace Program

variable {p : Program} {source : String}

/-! ## Whole texts -/

theorem checked_eq_ok_iff {q : Program} : p.checked = .ok q ↔ p = q ∧ q.structureIssues = [] := by
  rw [checked]
  constructor
  · intro h
    split at h
    · next hissues =>
      cases h
      exact ⟨rfl, hissues⟩
    · cases h
  · rintro ⟨rfl, hissues⟩
    rw [hissues]

/-- A header gives a program without statements, and other lines give none. -/
theorem ofHeader_eq_ok_iff {l : SourceLine} :
    (∃ p, ofHeader l = .ok p) ↔
      (∃ kind : HeaderKind, kind.opens l.text = true) ∧ 2 ≤ (Text.words l.text).length := by
  have hkind : (∃ kind : HeaderKind, kind.opens l.text = true) ↔
      (HeaderKind.ofLine? l.text).isSome = true := by
    simp [HeaderKind.ofLine?, HeaderKind.mem_all]
  have hname : 2 ≤ (Text.words l.text).length ↔ ((Text.words l.text)[1]?).isSome = true := by
    rw [isSome_getElem?, Nat.succ_le_iff]
  rw [hkind, hname, ofHeader]
  cases HeaderKind.ofLine? l.text with
  | none => simp
  | some kind => cases (Text.words l.text)[1]? <;> simp

theorem ofHeader_empty {l : SourceLine} (h : ofHeader l = .ok p) :
    p.body = [] ∧ p.locations = [] := by
  rw [ofHeader] at h
  split at h
  · cases h
  · cases h
  · cases h
    exact ⟨rfl, rfl⟩

/-- A text is read by its header, then its lines, and last its blocks. -/
theorem parse_eq_ok_iff {strict : Bool} :
    parse source strict = .ok p ↔
      ∃ header ls p₀, SourceLine.ofLines (Text.lines source) = header :: ls ∧
        ofHeader header = .ok p₀ ∧ p₀.addLines strict ls = .ok p ∧
        (strict = true → p.structureIssues = []) := by
  rw [parse, ofLines]
  cases hlines : SourceLine.ofLines (Text.lines source) with
  | nil => simp
  | cons header ls =>
    constructor
    · intro h
      cases hheader : ofHeader header with
      | error fault => simp [hheader, bind, Except.bind] at h
      | ok p₀ =>
        cases hadd : p₀.addLines strict ls with
        | error fault => simp [hheader, hadd, bind, Except.bind] at h
        | ok p₁ =>
          simp only [hheader, hadd, bind, Except.bind] at h
          split at h
          · obtain ⟨rfl, hissues⟩ := checked_eq_ok_iff.1 h
            exact ⟨header, ls, p₀, rfl, hheader, hadd, fun _ => hissues⟩
          · next hmode =>
            cases h
            exact ⟨header, ls, p₀, rfl, hheader, hadd, fun hstrict => absurd hstrict hmode⟩
    · rintro ⟨_, _, p₀, heq, hheader, hadd, hissues⟩
      cases heq
      simp only [hheader, hadd, bind, Except.bind]
      split
      · next hmode => exact checked_eq_ok_iff.2 ⟨rfl, hissues hmode⟩
      · rfl

/-- Permissive reading fails at the header only. -/
theorem parse_permissive_iff : (∃ p, parse source false = .ok p) ↔ HasHeader source := by
  rw [HasHeader]
  constructor
  · rintro ⟨p, hp⟩
    obtain ⟨header, ls, p₀, hlines, hheader, -⟩ := parse_eq_ok_iff.1 hp
    exact ⟨header, by rw [hlines]; rfl, ofHeader_eq_ok_iff.1 ⟨p₀, hheader⟩⟩
  · rintro ⟨header, hhead, hopens⟩
    obtain ⟨ls, hlines⟩ := List.head?_eq_some_iff.1 (Option.mem_def.1 hhead)
    obtain ⟨p₀, hheader⟩ := ofHeader_eq_ok_iff.2 hopens
    obtain ⟨p, hbody, -⟩ := addLines_permissive p₀ ls
    exact ⟨p, parse_eq_ok_iff.2 ⟨header, ls, p₀, hlines, hheader, hbody, by simp⟩⟩

/-- Permissive reading gives the steps of the lines that count. -/
theorem parse_permissive_body (h : parse source false = .ok p) :
    p.body = ((bodyLines source).filterMap SourceLine.step?).map Prod.snd ∧
      p.locations = ((bodyLines source).filterMap SourceLine.step?).map Prod.fst := by
  obtain ⟨header, ls, p₀, hlines, hheader, hadd, -⟩ := parse_eq_ok_iff.1 h
  obtain ⟨q, hq, hbody, hlocations⟩ := addLines_permissive p₀ ls
  obtain ⟨hbody₀, hlocations₀⟩ := ofHeader_empty hheader
  obtain rfl : p = q := Except.ok.inj (hadd.symm.trans hq)
  rw [hbody, hlocations, hbody₀, hlocations₀, bodyLines, hlines]
  exact ⟨rfl, rfl⟩

/-- Strict reading is permissive reading with nothing to pass over and no issue. -/
theorem parse_strict_iff :
    parse source true = .ok p ↔
      parse source false = .ok p ∧ (∀ l ∈ bodyLines source, l.IsKnown) ∧
        p.structureIssues = [] := by
  constructor
  · intro h
    obtain ⟨header, ls, p₀, hlines, hheader, hadd, hissues⟩ := parse_eq_ok_iff.1 h
    obtain ⟨hadd, hknown⟩ := addLines_strict_iff.1 hadd
    refine ⟨parse_eq_ok_iff.2 ⟨header, ls, p₀, hlines, hheader, hadd, by simp⟩, ?_, hissues rfl⟩
    rwa [bodyLines, hlines]
  · rintro ⟨h, hknown, hissues⟩
    obtain ⟨header, ls, p₀, hlines, hheader, hadd, -⟩ := parse_eq_ok_iff.1 h
    rw [bodyLines, hlines] at hknown
    exact parse_eq_ok_iff.2
      ⟨header, ls, p₀, hlines, hheader, addLines_strict_iff.2 ⟨hadd, hknown⟩, fun _ => hissues⟩

/-- The place of a statement gives the line that it is the step of. -/
theorem isStep_of_parse {s : Statement} {i : Nat} (h : parse source false = .ok p)
    (hs : p.body[i]? = some s) :
    ∃ location line, p.locations[i]? = some location ∧ 1 ≤ location.line ∧
      (Text.lines source)[location.line - 1]? = some line ∧
      SourceLine.IsStep ⟨location.line, Text.trim line.toList⟩ location s := by
  obtain ⟨hbody, hlocations⟩ := parse_permissive_body h
  rw [hbody, List.getElem?_map, Option.map_eq_some_iff] at hs
  obtain ⟨⟨location, s⟩, hat, rfl⟩ := hs
  obtain ⟨l, hl, hstep⟩ := List.mem_filterMap.1 (List.mem_of_getElem? hat)
  have hstep := SourceLine.step?_eq_some_iff.1 hstep
  obtain ⟨line, hle, hline, htext⟩ :=
    SourceLine.mem_numberFrom ((bodyLines_sublist source).subset hl)
  have hnumber := SourceLine.isStep_line hstep
  refine ⟨location, line, by rw [hlocations, List.getElem?_map, hat]; rfl, ?_, ?_, ?_⟩
  · rwa [hnumber]
  · rwa [hnumber]
  · rw [hnumber, ← htext]
    exact hstep

/-- **Strict and permissive reading agree.** Permissive reading gives a program whenever the header
    is valid. Its body has the statements of the lines before the first terminator that are
    well-formed steps, and no others, in the order of the lines; each statement has the number of
    its line, and these numbers grow. Strict reading gives a program exactly when permissive reading
    gives that program, every line up to the terminator that counts is one that reading knows, and
    the program has no issue of structure. -/
theorem parse_modes_agree (source : String) :
    ((∃ p, parse source false = .ok p) ↔ HasHeader source) ∧
    (∀ l location s, SourceLine.step? l = some (location, s) ↔ l.IsStep location s) ∧
    (∀ p : Program, parse source false = .ok p →
      p.body = ((bodyLines source).filterMap SourceLine.step?).map Prod.snd ∧
      p.locations.length = p.body.length ∧
      (p.locations.map Location.line).Pairwise (· < ·) ∧
      ∀ (i : Nat) (s : Statement), p.body[i]? = some s →
        ∃ location line, p.locations[i]? = some location ∧ 1 ≤ location.line ∧
          (Text.lines source)[location.line - 1]? = some line ∧
          SourceLine.IsStep ⟨location.line, Text.trim line.toList⟩ location s) ∧
    (∀ p, parse source true = .ok p ↔
      parse source false = .ok p ∧ (∀ l ∈ bodyLines source, l.IsKnown) ∧
        p.structureIssues = []) := by
  refine ⟨parse_permissive_iff, fun _ _ _ => SourceLine.step?_eq_some_iff, ?_,
    fun _ => parse_strict_iff⟩
  intro p hp
  obtain ⟨hbody, hlocations⟩ := parse_permissive_body hp
  refine ⟨hbody, ?_, ?_, fun i s hs => isStep_of_parse hp hs⟩
  · rw [hbody, hlocations, List.length_map, List.length_map]
  · rw [hlocations]
    exact pairwise_locations source

/-- A line that is no step is passed over, or refused. -/
theorem parse_modes_agree_strayLine :
    (∃ p, parse "MODEL M\nfirst\nSTEP 7 RETURN x\nEND MODEL" false = .ok p ∧
      p.body = [.returnValue "x"] ∧ p.locations = [⟨3, 7⟩]) ∧
    ∀ p, parse "MODEL M\nfirst\nSTEP 7 RETURN x\nEND MODEL" true ≠ .ok p := by
  obtain ⟨-, hstep, -, hstrict⟩ :=
    parse_modes_agree "MODEL M\nfirst\nSTEP 7 RETURN x\nEND MODEL"
  refine ⟨⟨_, by rfl, by rfl, by rfl⟩, fun p hp => ?_⟩
  have hlines : bodyLines "MODEL M\nfirst\nSTEP 7 RETURN x\nEND MODEL"
      = [⟨2, "first".toList⟩, ⟨3, "STEP 7 RETURN x".toList⟩] := by rfl
  obtain ⟨-, hknown, -⟩ := (hstrict p).1 hp
  rw [hlines] at hknown
  rcases hknown _ List.mem_cons_self with hnames | houtput | ⟨location, s, hs⟩
  · exact absurd hnames (by decide)
  · exact absurd houtput (by decide)
  · have hnone : SourceLine.step? ⟨2, "first".toList⟩ = none := by rfl
    rw [(hstep _ _ _).2 hs] at hnone
    cases hnone

end Program

/-! ## Checks -/

theorem Issue.union_eq_nil_iff {issues more : List Issue} :
    union issues more = [] ↔ issues = [] ∧ more = [] := by
  induction more generalizing issues with
  | nil => simp [union]
  | cons i more ih =>
    rw [union, ih]
    split
    · next hi =>
      have hne : issues ≠ [] := List.ne_nil_of_mem hi
      simp [hne]
    · simp

/-- A check lists nothing when neither the lines nor the blocks have an issue. -/
theorem Program.check_eq_nil_iff {source : String} :
    Program.check source = .ok [] ↔
      Lint.issues source = [] ∧
        ∃ p, Program.parse source false = .ok p ∧ p.structureIssues = [] := by
  rw [Program.check]
  cases Program.parse source false with
  | error fault => simp
  | ok p =>
    have hsort (issues : List Issue) :
        issues.mergeSort (fun a b => decide (a.line ≤ b.line)) = [] ↔ issues = [] := by
      rw [← List.length_eq_zero_iff, List.length_mergeSort, List.length_eq_zero_iff]
    simp [hsort, Issue.union_eq_nil_iff]

namespace Cli

theorem report_failure_eq_none_iff {file source : String} :
    (report file source).failure = none ↔
      Lint.issues source = [] ∧
        ∃ p, Program.parse source false = .ok p ∧ p.structureIssues = [] := by
  rw [← Program.check_eq_nil_iff, report]
  cases Program.check source with
  | error fault => simp
  | ok issues => cases issues <;> simp

/-- **A check vouches for the lines that reading knows.** It has no objection when the lines have no
    issue of their own, the text is read permissively, and the program has no issue of structure.
    Strict reading then goes through exactly when permissive reading passed over no line: a check
    does not see malformed steps and lines that are no steps. -/
theorem report_vouches_iff (file source : String) :
    ((report file source).failure = none ↔
      Lint.issues source = [] ∧
        ∃ p, Program.parse source false = .ok p ∧ p.structureIssues = []) ∧
    ((report file source).failure = none →
      ((∃ p, Program.parse source true = .ok p) ↔ ∀ l ∈ bodyLines source, l.IsKnown)) := by
  refine ⟨report_failure_eq_none_iff, ?_⟩
  intro hnone
  obtain ⟨-, p, hp, hissues⟩ := report_failure_eq_none_iff.1 hnone
  constructor
  · rintro ⟨q, hq⟩
    exact (Program.parse_strict_iff.1 hq).2.1
  · intro hknown
    exact ⟨p, Program.parse_strict_iff.2 ⟨hp, hknown, hissues⟩⟩

/-- A program that a check has no objection to and strict reading takes. -/
theorem report_vouches_oneStep :
    ∃ p, Program.parse "ALGORITHM A\nSTEP 1: RETURN x\nEND ALGORITHM" true = .ok p := by
  have hnone : (report "a" "ALGORITHM A\nSTEP 1: RETURN x\nEND ALGORITHM").failure = none :=
    report_failure_eq_none_iff.2 ⟨by rfl, _, by rfl, by rfl⟩
  refine ((report_vouches_iff _ _).2 hnone).2 ?_
  have hlines : bodyLines "ALGORITHM A\nSTEP 1: RETURN x\nEND ALGORITHM"
      = [⟨2, "STEP 1: RETURN x".toList⟩] := by rfl
  intro l hl
  rw [hlines, List.mem_singleton] at hl
  subst hl
  exact Or.inr (Or.inr ⟨⟨2, 1⟩, .returnValue "x", SourceLine.step?_eq_some_iff.1 (by rfl)⟩)

/-- A malformed step is passed over by a check, and refused by strict reading. -/
theorem report_passes_malformedStep :
    (report "a" "ALGORITHM A\nSTEP 1: GET xs[0]\nEND ALGORITHM").failure = none ∧
      Program.parse "ALGORITHM A\nSTEP 1: GET xs[0]\nEND ALGORITHM" true
        = .error (.malformed 2 "GET" "GET xs[0]") :=
  ⟨report_failure_eq_none_iff.2 ⟨by rfl, _, by rfl, by rfl⟩, by rfl⟩

end Cli

end StepScript
