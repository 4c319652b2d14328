import StepScript.Proofs.Lines
import StepScript.Proofs.Spelling

/-!
# Canonical text read back

A program that was read is written as its canonical text and read again. Header, inputs and output
always come back. The body comes back exactly when each of its statements can be read from its
canonical spelling (`isLegible`); a statement that cannot is dropped or changed without a word, as
permissive reading does with every step that it does not understand.

What holds of every program that was read (`IsSource`) is kept by one line and so by all of them;
canonical text is then followed line by line.
-/

set_option autoImplicit false

namespace StepScript

/-! ## Spellings stand in one line -/

namespace Line

theorem IsOperand.oneLine {cs : List Char} (h : IsOperand (· ≠ '\n') cs) : '\n' ∉ cs :=
  fun hmem => h.chars '\n' hmem rfl

theorem IsName.oneLine {n : List Char} (hn : IsName n) : '\n' ∉ n := by
  intro hmem
  have hchar := hn.isNameChar _ hmem
  revert hchar
  decide

theorem mem_path {cs : List Char} (hcs : pathChars cs = (cs, [])) :
    ∀ c ∈ cs, Text.isNameChar c = true ∨ c = '.' := by
  induction cs with
  | nil => simp
  | cons c cs ih =>
    rw [pathChars] at hcs
    split at hcs
    · next hc =>
      have hrest : pathChars cs = (cs, []) :=
        Prod.ext (List.cons.inj (Prod.mk.inj hcs).1).2 (Prod.mk.inj hcs).2
      intro d hd
      rcases List.mem_cons.1 hd with rfl | hd
      · exact (Bool.or_eq_true_iff.1 hc).imp_right fun h => eq_of_beq (Bool.and_eq_true_iff.1 h).1
      · exact ih hrest d hd
    · cases hcs

theorem IsPath.isPathChar {p : List Char} (hp : IsPath p) :
    ∀ c ∈ p, Text.isNameChar c = true ∨ c = '.' := by
  obtain ⟨c, rest, rfl, hc, hrest⟩ := hp
  intro d hd
  rcases List.mem_cons.1 hd with rfl | hd
  · exact Or.inl (isNameChar_of_isNameStart hc)
  · exact mem_path hrest d hd

theorem IsPath.oneLine {p : List Char} (hp : IsPath p) : '\n' ∉ p := by
  intro hmem
  rcases hp.isPathChar _ hmem with hchar | hchar
  · revert hchar
    decide
  · revert hchar
    decide

/-- A text that is not empty and holds no blank ends with no blank. -/
theorem solid_of_forall {cs : List Char} (hne : cs ≠ [])
    (h : ∀ c ∈ cs, Text.isBlank c = false) : Solid cs :=
  ⟨cs.dropLast, cs.getLast hne, (List.dropLast_concat_getLast hne).symm,
    h _ (List.getLast_mem hne)⟩

theorem IsName.solid {n : List Char} (hn : IsName n) : Solid n := by
  refine solid_of_forall ?_ fun c hc => Text.isBlank_of_isNameChar (hn.isNameChar c hc)
  obtain ⟨c, rest, rfl, -⟩ := hn
  exact List.cons_ne_nil c rest

theorem IsPath.solid {p : List Char} (hp : IsPath p) : Solid p := by
  refine solid_of_forall ?_ fun c hc => ?_
  · obtain ⟨c, rest, rfl, -⟩ := hp
    exact List.cons_ne_nil c rest
  · rcases hp.isPathChar c hc with hchar | rfl
    · exact Text.isBlank_of_isNameChar hchar
    · rfl

/-- Trimming leaves a text that starts with no blank its first character. -/
theorem exists_trim_cons {c : Char} (hc : Text.isBlank c = false) (cs : List Char) :
    ∃ rest, Text.trim (c :: cs) = c :: rest := by
  obtain ⟨before, after, hbefore, hafter, hcs⟩ := Text.exists_trim (c :: cs)
  have hnil : before = [] := by
    cases before with
    | nil => rfl
    | cons d before =>
      have hd : c = d := (List.cons.inj hcs).1
      rw [hd, hbefore d List.mem_cons_self] at hc
      cases hc
  rw [hnil, List.nil_append] at hcs
  cases htrim : Text.trim (c :: cs) with
  | nil =>
    rw [htrim] at hcs
    have hmem : c ∈ after := by
      rw [← List.nil_append after, ← hcs]
      exact List.mem_cons_self
    rw [hafter c hmem] at hc
    cases hc
  | cons d rest =>
    rw [htrim] at hcs
    exact ⟨rest, by rw [(List.cons.inj hcs).1]⟩

/-- A line is trimmed when it starts and ends with no blank. -/
theorem isOperand_of_head {cs : List Char} (hhead : ∀ c ∈ cs.head?, Text.isBlank c = false)
    (hsolid : Solid cs) (hline : '\n' ∉ cs) : IsOperand (· ≠ '\n') cs :=
  ⟨hsolid.trim hhead, fun _ hd hnl => hline (hnl ▸ hd)⟩

end Line

namespace Statement

open Line

theorem oneLine_arguments {args : List String} (hargs : ∀ a ∈ args, '\n' ∉ a.toList) :
    '\n' ∉ (arguments args).toList := by
  cases args with
  | nil => decide
  | cons a args =>
    have htext := toList_arguments_cons a args []
    rw [List.append_nil] at htext
    rw [htext]
    simp only [List.mem_cons, List.mem_append, laterArguments, List.mem_flatMap]
    rintro (h | h | ⟨b, hb, h | h | h⟩ | h | h)
    · revert h
      decide
    · exact hargs a List.mem_cons_self h
    · revert h
      decide
    · revert h
      decide
    · exact hargs b (List.mem_cons_of_mem a hb) h
    · revert h
      decide
    · cases h

theorem ArgumentsRead.oneLine {args : List String} (h : ArgumentsRead (· ≠ '\n') args) :
    '\n' ∉ (arguments args).toList := by
  obtain ⟨cs, tail, hcs, -, hread⟩ := h
  exact oneLine_arguments fun a ha => (isOperand_of_arguments? hread hcs a ha).oneLine

theorem withOperand_eq (k x : String) :
    (withOperand k x).toList = k.toList ∨
      (withOperand k x).toList = k.toList ++ ' ' :: x.toList := by
  rw [withOperand]
  split
  · exact Or.inl rfl
  · exact Or.inr (by simp)

/-- The spelling of a statement that was read from a line stands in one line. -/
theorem IsRead.oneLine {s : Statement} (hs : s.IsRead (· ≠ '\n')) : '\n' ∉ s.source.toList := by
  cases s with
  | assign target expr => simp [source, hs.1.oneLine, hs.2.2.1.oneLine]
  | importModule path => simp [source, IsPath.oneLine hs]
  | apiKey value => simp [source, hs.1.oneLine]
  | forRange var start stop =>
    simp [source, hs.1.oneLine, hs.2.1.oneLine, hs.2.2.2.oneLine]
  | forEach var iterable => simp [source, hs.1.oneLine, hs.2.oneLine]
  | whileLoop cond | ifThen cond => simp [source, IsOperand.oneLine hs]
  | returnValue expr | print expr =>
    rw [source]
    rcases withOperand_eq _ expr with h | h
    · rw [h]
      decide
    · rw [h]
      simp [IsOperand.oneLine hs]
  | listCreate name expr | dictCreate name expr | listAppend name expr | listRemove name expr
  | train name expr => simp [source, hs.1.oneLine, hs.2.1.oneLine]
  | getValue expr target | predict expr target => simp [source, hs.1.oneLine, hs.2.oneLine]
  | sort source' target =>
    rw [source]
    split <;> simp [hs.1.oneLine, hs.2.oneLine]
  | filter source' expr target | map source' expr target | reduce source' expr target =>
    simp [source, hs.1.oneLine, hs.2.1.oneLine, hs.2.2.oneLine]
  | catchFault name => simp [source, IsName.oneLine hs]
  | call function args result =>
    cases result with
    | none => simp [source, hs.1.oneLine, hs.2.1.oneLine]
    | some target => simp [source, hs.1.oneLine, hs.2.1.oneLine, (hs.2.2 target rfl).oneLine]
  | create var className args =>
    simp [source, hs.1.oneLine, hs.2.1.oneLine, hs.2.2.oneLine]
  | loadModel model var =>
    have hmodel : '\n' ∉ model.toList := fun hmem => hs.2.1 _ hmem rfl
    simp [source, hmodel, hs.2.2.oneLine]
  | raw text => exact hs.1.1.oneLine
  | endFor | endForEach | endWhile | orElse | endIf | breakLoop | continueLoop | tryBlock
  | endTry => decide

variable {fits : Char → Prop}

theorem IsGiven.solid {x : String} (hx : IsGiven fits x) : Solid x.toList :=
  solid_of_trim hx.1.trimmed hx.2

theorem solid_arguments (args : List String) : Solid (arguments args).toList := by
  rw [arguments, String.toList_append]
  exact Solid.append_left ⟨[], ')', rfl, rfl⟩ _

/-- What a spelling ends with decides whether it ends with a blank. -/
theorem solid_withOperand {k : String} (hk : Solid k.toList) {x : String}
    (hx : IsOperand fits x.toList) : Solid (withOperand k x).toList := by
  rw [withOperand]
  split
  · exact hk
  · next hne => exact solid_append _ (solid_of_trim hx.trimmed (by simpa using hne))

/-- The spelling of a statement that was read ends with no blank. -/
theorem IsRead.solid {s : Statement} (hs : s.IsRead fits) : Solid s.source.toList := by
  cases s with
  | assign target expr => exact solid_append _ hs.2.2.solid
  | importModule path => exact solid_append _ (IsPath.solid hs)
  | apiKey value => exact solid_append _ (IsGiven.solid hs)
  | forRange var start stop => exact solid_append _ ⟨[' ', 'D'], 'O', rfl, rfl⟩
  | forEach var iterable => exact solid_append _ ⟨[' ', 'D'], 'O', rfl, rfl⟩
  | whileLoop cond => exact solid_append _ ⟨[' ', 'D'], 'O', rfl, rfl⟩
  | ifThen cond => exact solid_append _ ⟨[' ', 'T', 'H', 'E'], 'N', rfl, rfl⟩
  | returnValue expr => exact solid_withOperand ⟨"RETUR".toList, 'N', rfl, rfl⟩ hs
  | print expr => exact solid_withOperand ⟨"PRIN".toList, 'T', rfl, rfl⟩ hs
  | listCreate name expr | dictCreate name expr | listAppend name expr | listRemove name expr
  | train name expr => exact solid_append _ hs.2.solid
  | getValue expr target | predict expr target => exact solid_append _ hs.2.solid
  | sort source' target =>
    rw [source]
    split
    · exact solid_append _ hs.1.solid
    · exact solid_append _ hs.2.solid
  | filter source' expr target | map source' expr target | reduce source' expr target =>
    exact solid_append _ hs.2.2.solid
  | catchFault name => exact solid_append _ (IsName.solid hs)
  | call function args result =>
    cases result with
    | none =>
      rw [source, String.append_empty]
      exact solid_append _ (solid_arguments args)
    | some target => exact solid_append _ (solid_append _ (hs.2.2 target rfl).solid)
  | create var className args => exact solid_append _ (solid_arguments args)
  | loadModel model var => exact solid_append _ hs.2.2.solid
  | raw text => exact hs.1.solid
  | endFor => exact ⟨"END FO".toList, 'R', rfl, rfl⟩
  | endForEach => exact ⟨"END FOREAC".toList, 'H', rfl, rfl⟩
  | endWhile => exact ⟨"END WHIL".toList, 'E', rfl, rfl⟩
  | orElse => exact ⟨"ELS".toList, 'E', rfl, rfl⟩
  | endIf => exact ⟨"END I".toList, 'F', rfl, rfl⟩
  | breakLoop => exact ⟨"BREA".toList, 'K', rfl, rfl⟩
  | continueLoop => exact ⟨"CONTINU".toList, 'E', rfl, rfl⟩
  | tryBlock => exact ⟨"TR".toList, 'Y', rfl, rfl⟩
  | endTry => exact ⟨"END TR".toList, 'Y', rfl, rfl⟩

/-- The spelling of a statement that was read starts with no blank. -/
theorem IsRead.head {s : Statement} (hs : s.IsRead fits) :
    ∀ c ∈ s.source.toList.head?, Text.isBlank c = false := by
  cases s with
  | raw text => exact (Text.trim_eq_self_iff.1 hs.1.1.trimmed).1
  | returnValue expr | print expr =>
    rw [source]
    rcases withOperand_eq _ expr with h | h
    · rw [h]
      exact head_cons rfl _
    · rw [h]
      exact head_cons rfl _
  | sort source' target =>
    rw [source]
    split
    · simp [Text.isBlank]
    · simp [Text.isBlank]
  | _ => simp [source, Text.isBlank]

/-- The spelling of a statement that was read from a line is the content of a line again. -/
theorem IsRead.isOperand {s : Statement} (hs : s.IsRead (· ≠ '\n')) :
    IsOperand (· ≠ '\n') s.source.toList :=
  isOperand_of_head hs.head hs.solid hs.oneLine

end Statement

/-! ## What reading a program makes sure of -/

open Line

theorem SourceLine.isOperand_of_mem_numberFrom {ls : List String} {l : SourceLine} {n : Nat}
    (hls : ∀ line ∈ ls, '\n' ∉ line.toList) (h : l ∈ numberFrom n ls) :
    IsOperand (· ≠ '\n') l.text := by
  induction ls generalizing n with
  | nil => cases h
  | cons line ls ih =>
    rcases List.mem_cons.1 h with rfl | h
    · refine ⟨Text.trim_trim _, fun c hc hnl => ?_⟩
      exact hls line List.mem_cons_self (hnl ▸ Text.mem_of_mem_trim hc)
    · exact ih (fun line' hline' => hls line' (List.mem_cons_of_mem line hline')) h

theorem SourceLine.isOperand_of_mem_ofLines {src : String} {l : SourceLine}
    (h : l ∈ ofLines (Text.lines src)) : IsOperand (· ≠ '\n') l.text :=
  isOperand_of_mem_numberFrom (fun _ => Text.not_mem_of_mem_lines) (List.mem_filter.1 h).1

theorem isLineEnd_of_isOperand {fits : Char → Prop} {cs : List Char} (h : IsOperand fits cs) :
    IsLineEnd fits cs :=
  ⟨h.chars, solid_of_trim h.trimmed⟩

/-- The content of a step is trimmed, and it is not empty. -/
theorem isOperand_of_stepContent? {fits : Char → Prop} {line content : List Char} {step : Nat}
    (hline : IsOperand fits line) (h : stepContent? line = some (step, content)) :
    IsOperand fits content ∧ content ≠ [] := by
  simp only [stepContent?, Option.bind_eq_bind, Option.bind_eq_some_iff] at h
  obtain ⟨cs₁, h₁, cs₂, h₂, h⟩ := h
  split at h
  · cases h
  have hcs₂ := ((isLineEnd_of_isOperand hline).word? h₁).gap? h₂
  have hcs₃ := hcs₂.of_suffix (List.dropWhile_suffix Text.isDigit)
  generalize cs₂.dropWhile Text.isDigit = cs₃ at h hcs₃
  have hcs₄ : IsLineEnd fits ((word? ":" cs₃).getD cs₃) := by
    cases hcolon : word? ":" cs₃ with
    | none => exact hcs₃
    | some cs => exact hcs₃.word? hcolon
  have hcs₅ := hcs₄.skipGap
  split at h
  · cases h
  · next hne =>
    obtain ⟨-, rfl⟩ := Prod.mk.inj (Option.some.inj h)
    exact ⟨⟨Text.trim_trim _, fun c hc => hcs₅.chars c (Text.mem_of_mem_trim hc)⟩,
      trim_ne_nil_of_solid (hcs₅.solid hne)⟩

theorem isRead_of_parseStep {l : SourceLine} {location : Location} {s : Statement}
    (hl : IsOperand (· ≠ '\n') l.text) (h : parseStep l = .ok (location, s)) :
    s.IsRead (· ≠ '\n') := by
  rw [parseStep] at h
  split at h
  · cases h
  · next step content hcontent =>
    obtain ⟨hoperand, hne⟩ := isOperand_of_stepContent? hl hcontent
    cases hs : Statement.parse (String.ofList content) l.number with
    | error fault =>
      rw [hs] at h
      cases h
    | ok s' =>
      rw [hs] at h
      cases h
      exact Statement.isRead_of_parse hoperand hne hs

namespace Program

/-- What holds of every program that was read from a text. -/
structure IsSource (p : Program) : Prop where
  name : Text.IsWord p.name.toList
  inputs : ∀ n ∈ p.inputs, Text.IsListed n.toList
  output : ∀ o ∈ p.output, IsOperand (· ≠ '\n') o.toList
  body : ∀ s ∈ p.body, s.IsRead (· ≠ '\n')

variable {p q : Program} {strict : Bool}

/-- One more line keeps what reading makes sure of. -/
theorem IsSource.addLine (hp : p.IsSource) {l : SourceLine} (hl : IsOperand (· ≠ '\n') l.text)
    (h : p.addLine strict l = .ok q) : q.IsSource := by
  rw [Program.addLine] at h
  split at h
  · next names hnames =>
    cases h
    have hrest : '\n' ∉ names := by
      intro hmem
      rw [Text.after?_eq_some_iff.1 hnames] at hl
      exact hl.oneLine (List.mem_append_right _ hmem)
    exact ⟨hp.name, fun n hn => isListed_of_mem_inputNames hrest hn, hp.output, hp.body⟩
  · next output houtput =>
    cases h
    refine ⟨hp.name, hp.inputs, fun o ho => ?_, hp.body⟩
    cases ho
    rw [Text.after?_eq_some_iff.1 houtput] at hl
    exact isOperand_operandText fun c hc => hl.chars c (List.mem_append_right _ hc)
  · split at h
    · split at h
      · next location s hs =>
        cases h
        refine ⟨hp.name, hp.inputs, hp.output, fun s' hs' => ?_⟩
        rcases List.mem_append.1 hs' with hs' | hs'
        · exact hp.body s' hs'
        · rw [List.mem_singleton.1 hs']
          exact isRead_of_parseStep hl hs
      · split at h
        · cases h
        · cases h
          exact hp
    · split at h
      · cases h
      · cases h
        exact hp

theorem IsSource.addLines (hp : p.IsSource) {ls : List SourceLine}
    (hls : ∀ l ∈ ls, IsOperand (· ≠ '\n') l.text) (h : p.addLines strict ls = .ok q) :
    q.IsSource := by
  induction ls generalizing p with
  | nil =>
    cases h
    exact hp
  | cons l ls ih =>
    rw [Program.addLines] at h
    split at h
    · cases h
      exact hp
    · cases hnext : p.addLine strict l with
      | error fault =>
        rw [hnext] at h
        cases h
      | ok p' =>
        rw [hnext] at h
        exact ih (hp.addLine (hls l List.mem_cons_self) hnext)
          (fun l' hl' => hls l' (List.mem_cons_of_mem l hl')) h

theorem isSource_of_ofHeader {l : SourceLine} (h : ofHeader l = .ok p) : p.IsSource := by
  rw [ofHeader] at h
  split at h
  · cases h
  · cases h
  · next name hname =>
    cases h
    refine ⟨?_, nofun, nofun, nofun⟩
    rw [String.toList_ofList]
    exact Text.isWord_of_mem_wordsFrom (by simp) (List.mem_of_getElem? hname)

theorem checked_eq_ok (h : p.checked = .ok q) : q = p := by
  rw [checked] at h
  split at h
  · exact (Except.ok.inj h).symm
  · cases h

/-- Every program that is read from a text is as `IsSource` says. -/
theorem isSource_of_parse {src : String} (h : parse src strict = .ok p) : p.IsSource := by
  rw [parse, ofLines] at h
  split at h
  · cases h
  · next header ls hlines =>
    have hls : ∀ l ∈ ls, IsOperand (· ≠ '\n') l.text := by
      intro l hl
      have hmem : l ∈ SourceLine.ofLines (Text.lines src) := by
        rw [hlines]
        exact List.mem_cons_of_mem header hl
      exact SourceLine.isOperand_of_mem_ofLines hmem
    cases hheader : ofHeader header with
    | error fault =>
      rw [hheader] at h
      cases h
    | ok p₀ =>
      cases hbody : p₀.addLines strict ls with
      | error fault =>
        simp only [hheader, hbody, bind, Except.bind] at h
        cases h
      | ok p₁ =>
        have hp₁ := (isSource_of_ofHeader hheader).addLines hls hbody
        simp only [hheader, hbody, bind, Except.bind] at h
        split at h
        · rw [checked_eq_ok h]
          exact hp₁
        · cases h
          exact hp₁

/-! ## Canonical text line by line -/

/-- The programs differ in their bodies and places only. -/
def SameHead (p q : Program) : Prop :=
  q.name = p.name ∧ q.kind = p.kind ∧ q.inputs = p.inputs ∧ q.output = p.output

/-- The statement that is read from the canonical spelling of another. -/
def reread? (s : Statement) : Option Statement :=
  (Statement.parse s.source 0).toOption

theorem parse_number {content : String} {s : Statement} (m n : Nat)
    (h : Statement.parse content m = .ok s) : Statement.parse content n = .ok s := by
  rw [Statement.parse] at h ⊢
  split at h
  · exact h
  · split at h
    · exact h
    · cases h

theorem reread?_eq_some_iff {s s' : Statement} (n : Nat) :
    reread? s = some s' ↔ Statement.parse s.source n = .ok s' := by
  rw [reread?]
  constructor
  · intro h
    cases hparse : Statement.parse s.source 0 with
    | error fault =>
      rw [hparse] at h
      cases h
    | ok s'' =>
      rw [hparse] at h
      cases h
      exact parse_number 0 n hparse
  · intro h
    rw [parse_number n 0 h]
    rfl

theorem toList_stepLine (k : Nat) (s : Statement) :
    (stepLine k s).toList
      = "STEP".toList ++ ' ' :: (Text.digits k ++ ':' :: ' ' :: s.source.toList) := by
  simp [stepLine, Text.natText]

theorem stepContent?_stepLine {s : Statement} (hs : s.IsRead (· ≠ '\n')) (k : Nat) :
    stepContent? (stepLine k s).toList = some (stepNumber (Text.digits k), s.source.toList) := by
  have hdigits : ∀ c ∈ Text.digits k, Text.isDigit c = true := fun _ => Text.isDigit_of_mem_digits
  obtain ⟨d, ds, hcons⟩ := List.exists_cons_of_ne_nil (Text.digits_ne_nil k)
  have hskip : skipGap (Text.digits k ++ ':' :: ' ' :: s.source.toList)
      = Text.digits k ++ ':' :: ' ' :: s.source.toList := by
    refine skipGap_of_head fun c hc => ?_
    rw [hcons] at hc hdigits
    cases hc
    have hd := hdigits d List.mem_cons_self
    exact Text.isBlank_of_isNameChar (by simp [Text.isNameChar, hd])
  have hstop : ∀ c ∈ (':' :: ' ' :: s.source.toList).head?, Text.isDigit c = false := by
    simp [Text.isDigit]
  have hcolon : ∀ cs, word? ":" (':' :: cs) = some cs := word?_append ":"
  have hcontent : skipGap (' ' :: s.source.toList) = s.source.toList := by
    rw [skipGap_space, skipGap_of_head hs.head]
  simp only [stepContent?, toList_stepLine, word?_append, gap?_space, hskip,
    Text.takeWhile_run hdigits hstop, Text.dropWhile_run hdigits hstop, hcolon,
    Option.bind_eq_bind, Option.bind_some, Option.getD_some, hcontent, List.isEmpty_iff,
    Text.digits_ne_nil, if_false]
  split
  · next hnil => exact absurd hnil hs.solid.ne_nil
  · rw [hs.isOperand.trimmed]

/-- A step is read back, or it is dropped. -/
theorem addLine_stepLine {s : Statement} (hs : s.IsRead (· ≠ '\n')) (p : Program) (n k : Nat) :
    ∃ q, p.addLine false ⟨n, (stepLine k s).toList⟩ = .ok q ∧ SameHead p q ∧
      q.body = p.body ++ (reread? s).toList := by
  have hinput : word? "INPUT:" (stepLine k s).toList = none := by
    rw [toList_stepLine]
    rfl
  have houtput : word? "OUTPUT:" (stepLine k s).toList = none := by
    rw [toList_stepLine]
    rfl
  have hstep : Text.startsWith "STEP".toList (stepLine k s).toList = true := by
    rw [toList_stepLine]
    rfl
  simp only [addLine, hinput, houtput, hstep, if_true, parseStep, stepContent?_stepLine hs,
    String.ofList_toList]
  cases hparse : Statement.parse s.source n with
  | ok s' =>
    rw [(reread?_eq_some_iff n).2 hparse]
    exact ⟨_, rfl, ⟨rfl, rfl, rfl, rfl⟩, rfl⟩
  | error fault =>
    -- without strictness a step that cannot be read is passed over
    have hnone : reread? s = none := by
      rw [Option.eq_none_iff_forall_ne_some]
      intro s' hs'
      rw [(reread?_eq_some_iff n).1 hs'] at hparse
      cases hparse
    rw [hnone]
    exact ⟨p, rfl, ⟨rfl, rfl, rfl, rfl⟩, (List.append_nil _).symm⟩

theorem SameHead.trans {r : Program} (h : SameHead p q) (h' : SameHead q r) : SameHead p r :=
  ⟨h'.1.trans h.1, h'.2.1.trans h.2.1, h'.2.2.1.trans h.2.2.1, h'.2.2.2.trans h.2.2.2⟩

/-- A step is a trimmed line. -/
theorem isOperand_stepLine {s : Statement} (hs : s.IsRead (· ≠ '\n')) (k : Nat) :
    IsOperand (· ≠ '\n') (stepLine k s).toList := by
  have hdigits : '\n' ∉ Text.digits k := by
    intro hmem
    have hdigit := Text.isDigit_of_mem_digits hmem
    revert hdigit
    decide
  refine isOperand_of_head ?_ (solid_append _ hs.solid) ?_
  · simp [stepLine, Text.isBlank]
  · simp [stepLine, Text.natText, hdigits, hs.oneLine]

theorem isTerminator_stepLine (n k : Nat) (s : Statement) :
    SourceLine.isTerminator ⟨n, (stepLine k s).toList⟩ = false := by
  rw [SourceLine.isTerminator, toList_stepLine]
  rfl

theorem isTerminator_terminator (n : Nat) (kind : HeaderKind) :
    SourceLine.isTerminator ⟨n, Text.trim kind.terminator.toList⟩ = true := by
  cases kind <;> rfl

theorem addLines_cons {l : SourceLine} (ls : List SourceLine) (hend : l.isTerminator = false)
    (h : p.addLine false l = .ok q) : p.addLines false (l :: ls) = q.addLines false ls := by
  rw [addLines, hend, if_neg (by decide), h]
  rfl

/-- Steps are read back one by one, up to the line that ends the program. -/
theorem addLines_stepLines (kind : HeaderKind) {body : List Statement}
    (hbody : ∀ s ∈ body, s.IsRead (· ≠ '\n')) (p : Program) (n k : Nat) :
    ∃ q,
      p.addLines false (SourceLine.numberFrom n (stepLines k body ++ [kind.terminator])) = .ok q ∧
        SameHead p q ∧ q.body = p.body ++ body.filterMap reread? := by
  induction body generalizing p n k with
  | nil =>
    refine ⟨p, ?_, ⟨rfl, rfl, rfl, rfl⟩, (List.append_nil _).symm⟩
    show p.addLines false [⟨n, Text.trim kind.terminator.toList⟩] = .ok p
    rw [addLines, isTerminator_terminator, if_pos rfl]
  | cons s body ih =>
    have hs := hbody s List.mem_cons_self
    obtain ⟨p', hnext, hhead, hp'⟩ := addLine_stepLine hs p n k
    obtain ⟨q, hq, hsame, hqbody⟩ :=
      ih (fun s' hs' => hbody s' (List.mem_cons_of_mem s hs')) p' (n + 1) (k + 1)
    refine ⟨q, ?_, hhead.trans hsame, ?_⟩
    · show p.addLines false (⟨n, Text.trim (stepLine k s).toList⟩ ::
        SourceLine.numberFrom (n + 1) (stepLines (k + 1) body ++ [kind.terminator])) = .ok q
      rw [(isOperand_stepLine hs k).trimmed, addLines_cons _ (isTerminator_stepLine n k s) hnext]
      exact hq
    · rw [hqbody, hp', List.append_assoc]
      cases hread : reread? s with
      | none => simp [hread]
      | some s' => simp [hread]

/-! ## Header, inputs and output -/

theorem ofLine?_keyword (kind : HeaderKind) (cs : List Char) :
    HeaderKind.ofLine? (kind.keyword.toList ++ cs) = some kind := by
  cases kind <;> rfl

theorem isWord_keyword (kind : HeaderKind) : Text.IsWord kind.keyword.toList := by
  cases kind <;> exact ⟨by decide, by simp [HeaderKind.keyword, Text.isBlank]⟩

/-- The line that opens the canonical text. -/
def headerLine (p : Program) : String :=
  p.kind.keyword ++ " " ++ p.name

theorem toList_headerLine (p : Program) :
    p.headerLine.toList = p.kind.keyword.toList ++ ' ' :: p.name.toList := by
  simp [headerLine]

theorem ofHeader_headerLine (hp : p.IsSource) (n : Nat) :
    ofHeader ⟨n, p.headerLine.toList⟩ = .ok ⟨p.name, p.kind, [], none, [], []⟩ := by
  have hwords : Text.words p.headerLine.toList = [p.kind.keyword.toList, p.name.toList] := by
    rw [toList_headerLine, Text.words_space (isWord_keyword p.kind), Text.words_self hp.name]
  rw [ofHeader, hwords, toList_headerLine, ofLine?_keyword]
  simp [String.ofList_toList]

theorem splitFrom_laterArguments {names : List String} (h : ∀ n ∈ names, ',' ∉ n.toList)
    (piece : List Char) :
    Text.splitFrom [','] (laterArguments names) piece 0
      = piece.reverse :: names.map fun n => ' ' :: n.toList := by
  induction names generalizing piece with
  | nil => rfl
  | cons n names ih =>
    have hn : ',' ∉ ' ' :: n.toList := by
      simpa using h n List.mem_cons_self
    have htext : laterArguments (n :: names)
        = ',' :: ((' ' :: n.toList) ++ laterArguments names) := by simp [laterArguments]
    rw [htext, Text.splitFrom_comma, Text.splitFrom_append hn,
      ih fun m hm => h m (List.mem_cons_of_mem n hm)]
    simp

/-- Names in a list are read back. -/
theorem inputNames_intercalate {names : List String} (hne : names ≠ [])
    (h : ∀ n ∈ names, Text.IsListed n.toList) :
    inputNames (' ' :: (", ".intercalate names).toList) = names := by
  obtain ⟨a, rest, rfl⟩ := List.exists_cons_of_ne_nil hne
  have ha : ',' ∉ ' ' :: a.toList := by
    simpa using (h a List.mem_cons_self).noComma
  have hsplit : Text.splitAt [','] (' ' :: (", ".intercalate (a :: rest)).toList)
      = (a :: rest).map fun n => ' ' :: n.toList := by
    have htext : ' ' :: (", ".intercalate (a :: rest)).toList
        = (' ' :: a.toList) ++ laterArguments rest := by
      rw [toList_intercalate_cons]
      rfl
    rw [Text.splitAt, htext, Text.splitFrom_append ha,
      splitFrom_laterArguments fun n hn => (h n (List.mem_cons_of_mem a hn)).noComma]
    simp
  have htrim : ∀ n ∈ a :: rest, Text.trim (' ' :: n.toList) = n.toList := by
    intro n hn
    have hblank : ∀ c ∈ [' '], Text.isBlank c = true := List.forall_mem_singleton.2 rfl
    exact (Text.trim_append_left hblank n.toList).trans (h n hn).trimmed
  have hmap : ((a :: rest).map fun n => ' ' :: n.toList).map Text.trim
      = (a :: rest).map String.toList := by
    rw [List.map_map]
    exact List.map_congr_left htrim
  have hfilter : ((a :: rest).map String.toList).filter (fun n => !n.isEmpty)
      = (a :: rest).map String.toList := by
    refine List.filter_eq_self.2 fun n hn => ?_
    obtain ⟨m, hm, rfl⟩ := List.mem_map.1 hn
    simpa using (h m hm).ne_nil
  rw [inputNames, hsplit, hmap, hfilter, List.map_map]
  exact List.map_id'' (fun n => String.ofList_toList) _

theorem solid_laterArguments {a : String} {names : List String} (ha : Solid a.toList)
    (h : ∀ n ∈ names, Solid n.toList) : Solid (a.toList ++ laterArguments names) := by
  induction names generalizing a with
  | nil => simpa [laterArguments] using ha
  | cons n names ih =>
    have htext : a.toList ++ laterArguments (n :: names)
        = (a.toList ++ [',', ' ']) ++ (n.toList ++ laterArguments names) := by
      simp [laterArguments]
    rw [htext]
    exact (ih (h n List.mem_cons_self) fun m hm => h m (List.mem_cons_of_mem n hm)).append_left _

/-- The line of inputs is trimmed. -/
theorem isOperand_inputLine {names : List String} (hne : names ≠ [])
    (h : ∀ n ∈ names, Text.IsListed n.toList) :
    IsOperand (· ≠ '\n') ("INPUT: " ++ ", ".intercalate names).toList := by
  have hsolid : ∀ n ∈ names, Solid n.toList :=
    fun n hn => solid_of_trim (h n hn).trimmed (h n hn).ne_nil
  have hline := Statement.oneLine_arguments fun n hn => (h n hn).oneLine
  obtain ⟨a, rest, rfl⟩ := List.exists_cons_of_ne_nil hne
  refine isOperand_of_head ?_ (solid_append _ ?_) ?_
  · simp [Text.isBlank]
  · rw [toList_intercalate_cons]
    exact solid_laterArguments (hsolid a List.mem_cons_self)
      fun n hn => hsolid n (List.mem_cons_of_mem a hn)
  · rw [Statement.arguments] at hline
    simp only [String.toList_append, List.mem_append, not_or] at hline ⊢
    exact ⟨by decide, hline.1.2⟩

theorem addLine_inputLine {names : List String} (hne : names ≠ [])
    (h : ∀ n ∈ names, Text.IsListed n.toList) (p : Program) (n : Nat) :
    p.addLine false ⟨n, ("INPUT: " ++ ", ".intercalate names).toList⟩
      = .ok { p with inputs := names } := by
  have hword : word? "INPUT:" ("INPUT: " ++ ", ".intercalate names).toList
      = some (' ' :: (", ".intercalate names).toList) := by
    rw [String.toList_append]
    exact word?_append "INPUT:" _
  simp only [addLine, hword, inputNames_intercalate hne h]

/-- The line about the output is read back, an empty one too. -/
theorem addLine_outputLine {output : String} (h : IsOperand (· ≠ '\n') output.toList)
    (p : Program) (n : Nat) :
    p.addLine false ⟨n, Text.trim ("OUTPUT: " ++ output).toList⟩
      = .ok { p with output := some output } := by
  have hword : ∃ r, word? "OUTPUT:" (Text.trim ("OUTPUT: " ++ output).toList) = some r ∧
      operandText r = output := by
    -- without an output the line is trimmed by one space
    by_cases hempty : output = ""
    · subst hempty
      exact ⟨[], rfl, rfl⟩
    · have hne : output.toList ≠ [] := by simpa using hempty
      have htrim : Text.trim ("OUTPUT: " ++ output).toList = ("OUTPUT: " ++ output).toList := by
        refine (isOperand_of_head ?_ (solid_append _ (solid_of_trim h.trimmed hne)) ?_).trimmed
        · simp [Text.isBlank]
        · simp [h.oneLine]
      refine ⟨' ' :: output.toList, ?_, ?_⟩
      · rw [htrim, String.toList_append]
        exact word?_append "OUTPUT:" _
      · have hblank : ∀ c ∈ [' '], Text.isBlank c = true := List.forall_mem_singleton.2 rfl
        rw [operandText, ← List.singleton_append, Text.trim_append_left hblank, h.trimmed,
          String.ofList_toList]
  obtain ⟨r, hr, houtput⟩ := hword
  have hinput : word? "INPUT:" (Text.trim ("OUTPUT: " ++ output).toList) = none := by
    rw [Text.after?_eq_some_iff.1 hr]
    rfl
  simp only [addLine, hinput, hr, houtput]

/-! ## The whole text -/

theorem addLines_inputLines (hp : p.IsSource) (hq : q.inputs = []) (n : Nat) (rest : List String) :
    ∃ m, q.addLines false (SourceLine.numberFrom n (p.inputLines ++ rest))
      = { q with inputs := p.inputs }.addLines false (SourceLine.numberFrom m rest) := by
  rw [inputLines]
  by_cases hne : p.inputs = []
  · refine ⟨n, ?_⟩
    have hsame : { q with inputs := p.inputs } = q := by rw [hne, ← hq]
    rw [hsame, hne]
    rfl
  · refine ⟨n + 1, ?_⟩
    rw [if_neg (by simpa using hne)]
    refine addLines_cons _ ?_ ?_
    · rw [(isOperand_inputLine hne hp.inputs).trimmed, String.toList_append]
      rfl
    · rw [(isOperand_inputLine hne hp.inputs).trimmed]
      exact addLine_inputLine hne hp.inputs q n

theorem addLines_outputLines (hp : p.IsSource) (hq : q.output = none) (n : Nat)
    (rest : List String) :
    ∃ m, q.addLines false (SourceLine.numberFrom n (p.outputLines ++ rest))
      = { q with output := p.output }.addLines false (SourceLine.numberFrom m rest) := by
  rw [outputLines]
  cases houtput : p.output with
  | none =>
    have hsame : { q with output := none } = q := by rw [← hq]
    refine ⟨n, ?_⟩
    rw [hsame]
    rfl
  | some output =>
    refine ⟨n + 1, ?_⟩
    have hread := addLine_outputLine (hp.output output houtput) q n
    refine addLines_cons _ ?_ hread
    obtain ⟨cs, hcs⟩ := exists_trim_cons (c := 'O') rfl ("UTPUT: ".toList ++ output.toList)
    have htext : ("OUTPUT: " ++ output).toList = 'O' :: ("UTPUT: ".toList ++ output.toList) := by
      simp
    rw [htext, hcs]
    rfl

/-- A line of the canonical text: it can be written, and it counts. -/
structure IsWritten (line : String) : Prop where
  isLine : Text.IsLine line.toList
  counts (n : Nat) : (⟨n, Text.trim line.toList⟩ : SourceLine).counts = true

theorem isWritten_of_head {line : String} {c : Char} (hhead : line.toList.head? = some c)
    (hc : Text.isBlank c = false) (hne : c ≠ '#') (h : Text.IsLine line.toList) :
    IsWritten line := by
  refine ⟨h, fun n => ?_⟩
  obtain ⟨cs, hcs⟩ := List.head?_eq_some_iff.1 hhead
  obtain ⟨rest, hrest⟩ := exists_trim_cons hc cs
  rw [hcs, hrest]
  simpa [SourceLine.counts] using hne

theorem isLine_of_isOperand {cs : List Char} (h : IsOperand (· ≠ '\n') cs) : Text.IsLine cs := by
  refine ⟨h.oneLine, fun hlast => ?_⟩
  have hblank := (Text.trim_eq_self_iff.1 h.trimmed).2 _ hlast
  revert hblank
  decide

theorem isOperand_headerLine (hp : p.IsSource) : IsOperand (· ≠ '\n') p.headerLine.toList := by
  have hname : '\n' ∉ p.name.toList := by
    intro hmem
    have hblank := hp.name.2 _ hmem
    revert hblank
    decide
  refine isOperand_of_head ?_ (solid_append _ (solid_of_forall hp.name.1 hp.name.2)) ?_
  · rw [toList_headerLine]
    cases p.kind <;> exact head_cons rfl _
  · rw [toList_headerLine]
    cases p.kind <;> simp [HeaderKind.keyword, hname]

theorem isWritten_of_mem_stepLines {body : List Statement}
    (hbody : ∀ s ∈ body, s.IsRead (· ≠ '\n')) {k : Nat} {line : String}
    (h : line ∈ stepLines k body) : IsWritten line := by
  induction body generalizing k with
  | nil => cases h
  | cons s body ih =>
    rcases List.mem_cons.1 h with rfl | h
    · have hhead : (stepLine k s).toList.head? = some 'S' := by simp [stepLine]
      exact isWritten_of_head hhead rfl (by decide)
        (isLine_of_isOperand (isOperand_stepLine (hbody s List.mem_cons_self) k))
    · exact ih (fun s' hs' => hbody s' (List.mem_cons_of_mem s hs')) h

theorem isWritten_headerLine (hp : p.IsSource) : IsWritten p.headerLine := by
  have hline := isLine_of_isOperand (isOperand_headerLine hp)
  have hhead := toList_headerLine p
  cases hkind : p.kind with
  | algorithm =>
    refine isWritten_of_head (c := 'A') ?_ rfl (by decide) hline
    simp [hhead, hkind, HeaderKind.keyword]
  | model =>
    refine isWritten_of_head (c := 'M') ?_ rfl (by decide) hline
    simp [hhead, hkind, HeaderKind.keyword]
  | apiCall =>
    refine isWritten_of_head (c := 'A') ?_ rfl (by decide) hline
    simp [hhead, hkind, HeaderKind.keyword]

theorem isWritten_of_mem_inputLines (hp : p.IsSource) {line : String} (h : line ∈ p.inputLines) :
    IsWritten line := by
  rw [inputLines] at h
  split at h
  · cases h
  · next hne =>
    rw [List.mem_singleton.1 h]
    refine isWritten_of_head (c := 'I') (by simp) rfl (by decide) ?_
    exact isLine_of_isOperand (isOperand_inputLine (by simpa using hne) hp.inputs)

theorem isWritten_of_mem_outputLines (hp : p.IsSource) {line : String}
    (h : line ∈ p.outputLines) : IsWritten line := by
  rw [outputLines] at h
  split at h
  · next output houtput =>
    have hoperand := hp.output output houtput
    rw [List.mem_singleton.1 h]
    refine isWritten_of_head (c := 'O') (by simp) rfl (by decide) ⟨by simp [hoperand.oneLine], ?_⟩
    -- the line of an empty output ends in a space, so it is no operand
    intro hlast
    rw [String.toList_append, List.getLast?_append] at hlast
    cases hend : output.toList.getLast? with
    | none =>
      rw [hend] at hlast
      revert hlast
      decide
    | some c =>
      rw [hend] at hlast
      cases hlast
      have hblank := (Text.trim_eq_self_iff.1 hoperand.trimmed).2 _ hend
      revert hblank
      decide
  · cases h

theorem isWritten_terminator (kind : HeaderKind) : IsWritten kind.terminator := by
  cases kind <;> exact ⟨⟨by decide, by decide⟩, fun n => rfl⟩

theorem sourceLines_eq (p : Program) :
    p.sourceLines
      = p.headerLine ::
        (p.inputLines ++ (p.outputLines ++ (stepLines 1 p.body ++ [p.kind.terminator]))) := by
  simp [sourceLines, headerLine]

theorem isWritten_of_mem_sourceLines (hp : p.IsSource) {line : String}
    (h : line ∈ p.sourceLines) : IsWritten line := by
  rw [sourceLines_eq] at h
  simp only [List.mem_cons, List.mem_append] at h
  rcases h with rfl | h | h | h | rfl | h
  · exact isWritten_headerLine hp
  · exact isWritten_of_mem_inputLines hp h
  · exact isWritten_of_mem_outputLines hp h
  · exact isWritten_of_mem_stepLines hp.body h
  · exact isWritten_terminator p.kind
  · cases h

theorem ofLines_of_isWritten {lines : List String} (h : ∀ line ∈ lines, IsWritten line) :
    SourceLine.ofLines lines = SourceLine.numberFrom 1 lines := by
  refine List.filter_eq_self.2 ?_
  -- the number of the first line does not matter
  generalize 1 = n
  induction lines generalizing n with
  | nil => nofun
  | cons line lines ih =>
    intro l hl
    rcases List.mem_cons.1 hl with rfl | hl
    · exact (h line List.mem_cons_self).counts n
    · exact ih (fun line' hline' => h line' (List.mem_cons_of_mem line hline')) (n + 1) l hl

/-- Canonical text is read as the same program but for the statements that are not read back. -/
theorem parse_source (hp : p.IsSource) :
    ∃ q, parse p.source false = .ok q ∧ SameHead p q ∧ q.body = p.body.filterMap reread? := by
  obtain ⟨m, hinputs⟩ := addLines_inputLines (q := ⟨p.name, p.kind, [], none, [], []⟩) hp rfl 2
    (p.outputLines ++ (stepLines 1 p.body ++ [p.kind.terminator]))
  obtain ⟨k, houtput⟩ := addLines_outputLines (q := ⟨p.name, p.kind, p.inputs, none, [], []⟩) hp rfl
    m (stepLines 1 p.body ++ [p.kind.terminator])
  obtain ⟨q, hq, hhead, hbody⟩ := addLines_stepLines p.kind hp.body
    ⟨p.name, p.kind, p.inputs, p.output, [], []⟩ k 1
  have hlines : Text.lines p.source = p.sourceLines :=
    Text.lines_join fun line hline => (isWritten_of_mem_sourceLines hp hline).isLine
  have hcounted : SourceLine.ofLines p.sourceLines
      = ⟨1, p.headerLine.toList⟩ :: SourceLine.numberFrom 2
        (p.inputLines ++ (p.outputLines ++ (stepLines 1 p.body ++ [p.kind.terminator]))) := by
    rw [ofLines_of_isWritten fun line => isWritten_of_mem_sourceLines hp, sourceLines_eq,
      SourceLine.numberFrom, (isOperand_headerLine hp).trimmed]
  refine ⟨q, ?_, hhead, hbody⟩
  rw [parse, ofLines, hlines, hcounted]
  simp only [ofHeader_headerLine hp, bind, Except.bind, hinputs, houtput, hq]
  rfl

theorem filterMap_eq_self_iff {α : Type} {f : α → Option α} {l : List α} :
    l.filterMap f = l ↔ ∀ x ∈ l, f x = some x := by
  induction l with
  | nil => simp
  | cons x l ih =>
    cases hx : f x with
    | none =>
      rw [List.filterMap_cons_none hx]
      constructor
      · intro h
        have hle := List.length_filterMap_le f l
        rw [h, List.length_cons] at hle
        omega
      · intro h
        rw [h x List.mem_cons_self] at hx
        cases hx
    | some y => simp [hx, ih]

/-- **A program that was read comes back from its canonical text, with its header, inputs and
output, and its body comes back exactly when each statement can be read from its spelling.** -/
theorem parse_source_keeps_body_iff {src : String} (h : parse src false = .ok p) :
    ∃ q, parse p.source false = .ok q ∧ q.name = p.name ∧ q.kind = p.kind ∧ q.inputs = p.inputs ∧
      q.output = p.output ∧ (q.body = p.body ↔ ∀ s ∈ p.body, s.isLegible = true) := by
  have hp := isSource_of_parse h
  obtain ⟨q, hq, ⟨hname, hkind, hinputs, houtput⟩, hbody⟩ := parse_source hp
  refine ⟨q, hq, hname, hkind, hinputs, houtput, ?_⟩
  rw [hbody, filterMap_eq_self_iff]
  refine forall₂_congr fun s hs => ?_
  rw [reread?_eq_some_iff 0, Statement.parse_source_iff (hp.body s hs)]

/-- A body of steps that can all be read from their spellings. -/
theorem parse_source_keeps_body_twoSteps :
    ∃ p, parse "MODEL M\nINPUT: a,b\nOUTPUT:\nSTEP 9 Set x <- a\nSTEP 2: RETURN" false = .ok p ∧
      ∃ q, parse p.source false = .ok q ∧ q.name = p.name ∧ q.kind = p.kind ∧
        q.inputs = p.inputs ∧ q.output = p.output ∧
        (q.body = p.body ↔ ∀ s ∈ p.body, s.isLegible = true) :=
  ⟨⟨"M", .model, ["a", "b"], some "", [.assign "x" "a", .returnValue ""], [⟨4, 9⟩, ⟨5, 2⟩]⟩,
    by rfl,
    @parse_source_keeps_body_iff _
      "MODEL M\nINPUT: a,b\nOUTPUT:\nSTEP 9 Set x <- a\nSTEP 2: RETURN" (by rfl)⟩

/-- A model name that was given in single quotes is spelled in double ones, so that a double quote
    in it ends the name: the step is dropped. -/
theorem parse_source_drops_quotedModel :
    ∃ p q, parse "ALGORITHM A\nSTEP 1: LOAD_MODEL 'a\"b' → m\nEND ALGORITHM" false = .ok p ∧
      p.body = [.loadModel "a\"b" "m"] ∧ parse p.source false = .ok q ∧ q.body = [] :=
  ⟨⟨"A", .algorithm, [], none, [.loadModel "a\"b" "m"], [⟨2, 1⟩]⟩,
    ⟨"A", .algorithm, [], none, [], []⟩, by rfl, rfl, by rfl, rfl⟩

end Program

end StepScript
