import StepScript.Proofs.Brackets
import StepScript.Proofs.Spelling

/-!
# Well-formed statements read back

Which statements, however they were made, are read back from their canonical spelling. The operands
may hold arrows, commas, quotes and the words `DO` and `THEN`; a target before an arrow must hold no
arrow behind a gap, and the start of a range no `to` between gaps.

Both conditions are about characters, not about expressions: an arrow in a quoted index or a `to` in
a quoted start counts as well, so that operands which are expressions are kept apart exactly when
they hold none.
-/

set_option autoImplicit false

namespace StepScript

namespace Line

/-! ## Separators in a text -/

/-- An arrow to the left stands behind a gap. -/
def HasSpacedArrow (cs : List Char) : Prop :=
  ∃ front c rest, Text.isGap c = true ∧
    (cs = front ++ c :: '←' :: rest ∨ cs = front ++ c :: '<' :: '-' :: rest)

/-- The word `to` stands between two gaps. -/
def HasSpacedTo (cs : List Char) : Prop :=
  ∃ front c d rest, Text.isGap c = true ∧ Text.isGap d = true ∧
    cs = front ++ c :: 't' :: 'o' :: d :: rest

theorem beforeLeftArrow_iff {cs : List Char} :
    beforeLeftArrow cs = true ↔ ∃ v w, gap? cs = some v ∧ leftArrow? v = some w := by
  rw [beforeLeftArrow, Option.isSome_iff_exists]
  simp only [Option.bind_eq_some_iff]
  constructor
  · rintro ⟨w, v, hv, hw⟩
    exact ⟨v, w, hv, hw⟩
  · rintro ⟨v, w, hv, hw⟩
    exact ⟨w, v, hv, hw⟩

theorem isFree_beforeLeftArrow_iff {x : String} :
    Statement.IsFree beforeLeftArrow x ↔ ¬HasSpacedArrow x.toList := by
  constructor
  · rintro hfree ⟨front, c, rest, hc, htext⟩
    have hseen : ∀ v w, leftArrow? v = some w → skipGap v = v → x.toList = front ++ c :: v →
        False := by
      intro v w hw hskip heq
      have hstop := hfree (c :: v) (List.cons_ne_nil c v) ⟨front, heq.symm⟩
      rw [beforeLeftArrow_iff.2 ⟨v, w, by simp [gap?, hc, hskip], hw⟩] at hstop
      cases hstop
    rcases htext with heq | heq
    · exact hseen ('←' :: rest) rest rfl rfl heq
    · exact hseen ('<' :: '-' :: rest) rest rfl rfl heq
  · intro hnone u hne hu
    rw [← Bool.not_eq_true]
    intro hstop
    obtain ⟨v, w, hv, hw⟩ := beforeLeftArrow_iff.1 hstop
    obtain ⟨front, c, hc, rfl⟩ := exists_gap_of_gap? hv
    obtain ⟨pre, hpre⟩ := hu
    refine hnone ⟨pre ++ front, c, w, hc, ?_⟩
    rcases leftArrow?_eq_some_iff.1 hw with rfl | rfl
    · exact Or.inl (by simp [← hpre])
    · exact Or.inr (by simp [← hpre])

theorem beforeTo_iff {cs : List Char} :
    beforeTo cs = true ↔
      ∃ d rest, gap? cs = some ('t' :: 'o' :: d :: rest) ∧ Text.isGap d = true := by
  rw [beforeTo, Option.isSome_iff_exists]
  simp only [Option.bind_eq_some_iff]
  constructor
  · rintro ⟨r, w, ⟨v, hv, hword⟩, hgap⟩
    obtain ⟨d, hd, rest, rfl, -⟩ := gap?_eq_some hgap
    rw [show v = 't' :: 'o' :: d :: rest from Text.after?_eq_some_iff.1 hword] at hv
    exact ⟨d, rest, hv, hd⟩
  · rintro ⟨d, rest, hv, hd⟩
    exact ⟨skipGap rest, d :: rest, ⟨_, hv, word?_append "to" (d :: rest)⟩, by simp [gap?, hd]⟩

/-- A start can be told from the end of its range when no `to` comes earlier. -/
theorem isFree_beforeTo_iff {x : String} :
    Statement.IsFree beforeTo x ∧ endsInTo x.toList = false ↔
      ¬HasSpacedTo (x.toList ++ [' ']) := by
  constructor
  · rintro ⟨hfree, hends⟩ ⟨front, c, d, rest, hc, hd, htext⟩
    rcases List.eq_nil_or_concat rest with rfl | ⟨rest, e, rfl⟩
    · -- the gap behind the word is the one that was added
      have heq : x.toList = front ++ [c, 't', 'o'] := by
        have hsplit : x.toList ++ [' '] = (front ++ [c, 't', 'o']) ++ [d] := by simp [htext]
        exact (List.append_inj' hsplit rfl).1
      rw [endsInTo_iff.2 ⟨front, c, hc, heq⟩] at hends
      cases hends
    · have heq : x.toList = front ++ c :: 't' :: 'o' :: d :: rest := by
        have hsplit : x.toList ++ [' '] = (front ++ c :: 't' :: 'o' :: d :: rest) ++ [e] := by
          simp [htext]
        exact (List.append_inj' hsplit rfl).1
      have hstop := hfree (c :: 't' :: 'o' :: d :: rest) (List.cons_ne_nil _ _) ⟨front, heq.symm⟩
      have hskip : skipGap ('t' :: 'o' :: d :: rest) = 't' :: 'o' :: d :: rest := rfl
      rw [beforeTo_iff.2 ⟨d, rest, by simp [gap?, hc, hskip], hd⟩] at hstop
      cases hstop
  · intro hnone
    constructor
    · intro u hne hu
      rw [← Bool.not_eq_true]
      intro hstop
      obtain ⟨d, rest, hv, hd⟩ := beforeTo_iff.1 hstop
      obtain ⟨front, c, hc, rfl⟩ := exists_gap_of_gap? hv
      obtain ⟨pre, hpre⟩ := hu
      exact hnone ⟨pre ++ front, c, d, rest ++ [' '], hc, hd, by simp [← hpre]⟩
    · rw [← Bool.not_eq_true]
      intro hends
      obtain ⟨front, c, hc, heq⟩ := endsInTo_iff.1 hends
      exact hnone ⟨front, c, ' ', [], hc, rfl, by simp [heq]⟩

/-! ## Dotted names -/

/-- Names with points between them. -/
def IsDotted (p : String) : Prop :=
  ∃ n ns, (∀ m ∈ n :: ns, IsName m.toList) ∧ p = ".".intercalate (n :: ns)

theorem pathChars_append_of_isNameChar {cs : List Char} (h : ∀ c ∈ cs, Text.isNameChar c = true)
    (r : List Char) : pathChars (cs ++ r) = (cs ++ (pathChars r).1, (pathChars r).2) := by
  induction cs with
  | nil => rfl
  | cons c cs ih =>
    have hc : Text.isNameChar c = true := h c List.mem_cons_self
    rw [List.cons_append, pathChars, ih fun d hd => h d (List.mem_cons_of_mem c hd)]
    simp [hc]

/-- Names behind points go on a path. -/
theorem pathChars_points {ns : List String} (h : ∀ n ∈ ns, IsName n.toList) :
    pathChars (ns.flatMap fun n => ".".toList ++ n.toList)
      = (ns.flatMap fun n => ".".toList ++ n.toList, []) := by
  induction ns with
  | nil => rfl
  | cons n ns ih =>
    have hn : IsName n.toList := h n List.mem_cons_self
    have hrest := pathChars_append_of_isNameChar hn.isNameChar
      (ns.flatMap fun n => ".".toList ++ n.toList)
    rw [ih fun m hm => h m (List.mem_cons_of_mem n hm)] at hrest
    obtain ⟨c, rest, hcs, hc, -⟩ := hn
    rw [hcs] at hrest
    rw [List.flatMap_cons, hcs]
    show pathChars ('.' :: (c :: rest ++ _)) = ('.' :: (c :: rest ++ _), [])
    rw [pathChars, hrest]
    simp [hc]

theorem isPath_of_isDotted {p : String} (h : IsDotted p) : IsPath p.toList := by
  obtain ⟨n, ns, hnames, rfl⟩ := h
  obtain ⟨c, rest, hcs, hc, hrest⟩ := hnames n List.mem_cons_self
  have hpoints := pathChars_points fun m hm => hnames m (List.mem_cons_of_mem n hm)
  rw [toList_intercalate_cons, hcs]
  refine ⟨c, _, List.cons_append, hc, ?_⟩
  rw [pathChars_append_of_isNameChar hrest, hpoints]

end Line

/-! ## Statements -/

namespace Statement

open Line

/-- An operand: some text without blanks at its ends. -/
def IsText (x : String) : Prop :=
  x ≠ "" ∧ Text.trimmed x = x

/-- The operands fit the form of the statement. -/
def IsWellFormed : Statement → Prop
  | .assign target expr => IsText target ∧ ¬HasSpacedArrow target.toList ∧ IsText expr
  | .importModule path => IsDotted path
  | .apiKey value => IsText value
  | .forRange var start stop =>
    IsName var.toList ∧ IsText start ∧ ¬HasSpacedTo (start.toList ++ [' ']) ∧ IsText stop
  | .forEach var iterable => IsName var.toList ∧ IsText iterable
  | .whileLoop cond | .ifThen cond => IsText cond
  | .returnValue expr | .print expr => Text.trimmed expr = expr
  | .listCreate name expr | .dictCreate name expr | .listAppend name expr
  | .listRemove name expr | .train name expr => IsName name.toList ∧ IsText expr
  | .getValue expr target | .predict expr target => IsText expr ∧ IsName target.toList
  | .sort source target => IsName source.toList ∧ IsName target.toList
  | .filter source expr target | .map source expr target | .reduce source expr target =>
    IsName source.toList ∧ IsText expr ∧ IsName target.toList
  | .catchFault name => IsName name.toList
  | .call function args result =>
    IsDotted function ∧ (∀ a ∈ args, IsExprText a) ∧ ∀ n ∈ result, IsName n.toList
  | .create var className args =>
    IsName var.toList ∧ IsDotted className ∧ ∀ a ∈ args, IsExprText a
  | .loadModel model var => model ≠ "" ∧ '"' ∉ model.toList ∧ IsName var.toList
  | .raw text => Keyword.classify? text.toList = none
  | _ => True

theorem isOperand_of_trimmed {x : String} (h : Text.trimmed x = x) :
    IsOperand (fun _ => True) x.toList := by
  refine ⟨?_, fun _ _ => trivial⟩
  rw [Text.trimmed, ← String.toList_inj, String.toList_ofList] at h
  exact h

theorem IsText.isGiven {x : String} (h : IsText x) : IsGiven (fun _ => True) x :=
  ⟨isOperand_of_trimmed h.2, fun hnil => h.1 (String.toList_eq_nil_iff.1 hnil)⟩

theorem argumentsRead_of_isExprText {args : List String} (h : ∀ a ∈ args, IsExprText a) :
    ArgumentsRead (fun _ => True) args :=
  ⟨_, [], fun _ _ => trivial, by simp, arguments?_of_isExprText h []⟩

theorem not_mem_of_isExprText {args : List String} (h : ∀ a ∈ args, IsExprText a) : "" ∉ args :=
  fun hmem => (h "" hmem).ne_nil rfl

/-- Well-formed operands are like those of a statement that was read, and can be told apart. -/
theorem isRead_of_isWellFormed {s : Statement} (h : s.IsWellFormed)
    (hraw : ∀ text, s ≠ .raw text) : s.IsRead (fun _ => True) ∧ s.isLegible = true := by
  cases s with
  | assign target expr =>
    obtain ⟨htarget, harrow, hexpr⟩ := h
    have hgiven := htarget.isGiven
    refine ⟨⟨hgiven.1, isFree_beforeLeftArrow_iff.2 harrow, hexpr.isGiven⟩, ?_⟩
    simpa [isLegible] using htarget.1
  | forRange var start stop =>
    obtain ⟨hvar, hstart, hto, hstop⟩ := h
    obtain ⟨hfree, hends⟩ := isFree_beforeTo_iff.2 hto
    refine ⟨⟨hvar, hstart.isGiven.1, hfree, hstop.isGiven.1⟩, ?_⟩
    simp [isLegible, hstart.1, hstop.1, hends]
  | call function args result =>
    obtain ⟨hfunction, hargs, hresult⟩ := h
    refine ⟨⟨isPath_of_isDotted hfunction, argumentsRead_of_isExprText hargs, hresult⟩, ?_⟩
    simpa [isLegible] using not_mem_of_isExprText hargs
  | create var className args =>
    obtain ⟨hvar, hclass, hargs⟩ := h
    refine ⟨⟨hvar, isPath_of_isDotted hclass, argumentsRead_of_isExprText hargs⟩, ?_⟩
    simpa [isLegible] using not_mem_of_isExprText hargs
  | loadModel model var =>
    obtain ⟨hne, hquote, hvar⟩ := h
    refine ⟨⟨fun hnil => hne (String.toList_eq_nil_iff.1 hnil), fun _ _ => trivial, hvar⟩, ?_⟩
    simpa [isLegible] using hquote
  | importModule path => exact ⟨isPath_of_isDotted h, rfl⟩
  | apiKey value => exact ⟨h.isGiven, rfl⟩
  | forEach var iterable => exact ⟨⟨h.1, h.2.isGiven.1⟩, by simpa [isLegible] using h.2.1⟩
  | whileLoop cond | ifThen cond => exact ⟨h.isGiven.1, by simpa [isLegible] using h.1⟩
  | returnValue expr | print expr => exact ⟨isOperand_of_trimmed h, rfl⟩
  | listCreate name expr | dictCreate name expr | listAppend name expr | listRemove name expr
  | train name expr => exact ⟨⟨h.1, h.2.isGiven⟩, rfl⟩
  | getValue expr target | predict expr target =>
    exact ⟨⟨h.1.isGiven.1, h.2⟩, by simpa [isLegible] using h.1.1⟩
  | filter source expr target | map source expr target | reduce source expr target =>
    exact ⟨⟨h.1, h.2.1.isGiven.1, h.2.2⟩, by simpa [isLegible] using h.2.1.1⟩
  | sort source target => exact ⟨h, rfl⟩
  | catchFault name => exact ⟨h, rfl⟩
  | raw text => exact absurd rfl (hraw text)
  | endFor | endForEach | endWhile | orElse | endIf | breakLoop | continueLoop | tryBlock
  | endTry => exact ⟨trivial, rfl⟩

/-- **A well-formed statement is read back from its canonical spelling**, on whatever line. -/
theorem parse_source_of_isWellFormed {s : Statement} (h : s.IsWellFormed) (n : Nat) :
    Statement.parse s.source n = .ok s := by
  by_cases hraw : ∃ text, s = .raw text
  · obtain ⟨text, rfl⟩ := hraw
    have hnone : Keyword.classify? text.toList = none := h
    rw [source, Statement.parse, hnone]
  · obtain ⟨hread, hlegible⟩ := isRead_of_isWellFormed h fun text heq => hraw ⟨text, heq⟩
    exact (parse_source_iff hread n).2 hlegible

/-- Arguments with brackets, commas, quotes and an arrow of their own. -/
theorem parse_source_of_isWellFormed_call :
    (Statement.call "np.max" ["f(a, [1, 2])", "\"b, → c)\"", "d['x']"] (some "m")).IsWellFormed ∧
      Statement.parse "CALL np.max(f(a, [1, 2]), \"b, → c)\", d['x']) → m" 3
        = .ok (.call "np.max" ["f(a, [1, 2])", "\"b, → c)\"", "d['x']"] (some "m")) := by
  have h : (Statement.call "np.max" ["f(a, [1, 2])", "\"b, → c)\"", "d['x']"]
      (some "m")).IsWellFormed := by
    refine ⟨⟨"np", ["max"], ?_, by decide⟩, by decide +kernel, ?_⟩
    · simp only [List.forall_mem_cons]
      exact ⟨by decide, by decide, by simp⟩
    · simp only [Option.mem_def, Option.some.injEq, forall_eq']
      decide
  exact ⟨h, parse_source_of_isWellFormed h 3⟩

/-! ## Operands that are expressions -/

/-- The text of a place that can be assigned to, without blanks at its ends. -/
def IsPlaceText (t : String) : Prop :=
  Text.trim t.toList = t.toList ∧ ∃ e, Expr.parse t = .ok e ∧ e.isPlace = true

instance (t : String) : Decidable (∃ e, Expr.parse t = .ok e ∧ e.isPlace = true) :=
  match h : Expr.parse t with
  | .ok e => decidable_of_iff (e.isPlace = true) (by simp)
  | .error _ => isFalse (by simp)

instance (t : String) : Decidable (IsPlaceText t) :=
  inferInstanceAs (Decidable (_ ∧ _))

theorem IsPlaceText.isExprText {t : String} (h : IsPlaceText t) : IsExprText t := by
  obtain ⟨htrim, e, he, -⟩ := h
  exact ⟨htrim, e, he⟩

theorem isText_of_isExprText {a : String} (h : IsExprText a) : IsText a := by
  refine ⟨fun hempty => h.ne_nil (by simp [hempty]), ?_⟩
  rw [Text.trimmed, h.1, String.ofList_toList]

/-- A statement that is read back from its spelling has operands as reading leaves them. -/
theorem isRead_of_parse_source {s : Statement} {n : Nat} (hsolid : Solid s.source.toList)
    (hhead : ∀ c ∈ s.source.toList.head?, Text.isBlank c = false)
    (h : Statement.parse s.source n = .ok s) : s.IsRead (fun _ => True) := by
  have hsource : IsOperand (fun _ => True) s.source.toList :=
    ⟨hsolid.trim hhead, fun _ _ => trivial⟩
  rw [← String.ofList_toList (s := s.source)] at h
  exact isRead_of_parse hsource hsolid.ne_nil h

theorem parse_forRange_iff {v s e : String} (hv : IsName v.toList) (hs : IsText s) (he : IsText e)
    (n : Nat) :
    Statement.parse (Statement.forRange v s e).source n = .ok (.forRange v s e) ↔
      ¬HasSpacedTo (s.toList ++ [' ']) := by
  constructor
  · intro h
    have hsolid : Solid (Statement.forRange v s e).source.toList :=
      solid_append _ ⟨[' ', 'D'], 'O', rfl, rfl⟩
    have hread := isRead_of_parse_source hsolid (by simp [source, Text.isBlank]) h
    have hlegible := (parse_source_iff hread n).1 h
    simp only [isLegible, Bool.and_eq_true, Bool.not_eq_true'] at hlegible
    exact isFree_beforeTo_iff.1 ⟨hread.2.2.1, hlegible.2⟩
  · intro hto
    have hwell : (Statement.forRange v s e).IsWellFormed := ⟨hv, hs, hto, he⟩
    obtain ⟨hread, hlegible⟩ := isRead_of_isWellFormed hwell (by simp)
    exact (parse_source_iff hread n).2 hlegible

theorem parse_assign_iff {t e : String} (ht : IsText t) (he : IsText e) (n : Nat) :
    Statement.parse (Statement.assign t e).source n = .ok (.assign t e) ↔
      ¬HasSpacedArrow t.toList := by
  constructor
  · intro h
    have hgiven := he.isGiven
    have hsolid : Solid (Statement.assign t e).source.toList :=
      solid_append _ (solid_of_trim hgiven.1.trimmed hgiven.2)
    have hread := isRead_of_parse_source hsolid (by simp [source, Text.isBlank]) h
    exact isFree_beforeLeftArrow_iff.1 hread.2.1
  · intro harrow
    have hwell : (Statement.assign t e).IsWellFormed := ⟨ht, harrow, he⟩
    obtain ⟨hread, hlegible⟩ := isRead_of_isWellFormed hwell (by simp)
    exact (parse_source_iff hread n).2 hlegible

/-- **A range and an assignment whose operands are expressions keep their operands exactly when no
separator stands in the first one**: no `to` between gaps in the start, with the space behind it,
and no arrow behind a gap in the place, be it in quotes or part of a comparison. -/
theorem parse_keeps_expressions_iff {v s e t : String} (hv : IsName v.toList) (hs : IsExprText s)
    (he : IsExprText e) (ht : IsPlaceText t) (n : Nat) :
    (Statement.parse ("FOR " ++ v ++ " ← " ++ s ++ " to " ++ e ++ " DO") n
        = .ok (.forRange v s e) ↔ ¬HasSpacedTo (s.toList ++ [' '])) ∧
      (Statement.parse ("Set " ++ t ++ " ← " ++ e) n = .ok (.assign t e) ↔
        ¬HasSpacedArrow t.toList) := by
  have he := isText_of_isExprText he
  exact ⟨parse_forRange_iff hv (isText_of_isExprText hs) he n,
    parse_assign_iff (isText_of_isExprText ht.isExprText) he n⟩

theorem parse_keeps_expressions_iff_place :
    IsName "i".toList ∧ IsExprText "f('a')" ∧ IsExprText "n < -1" ∧ IsPlaceText "d[k].x" ∧
      (Statement.parse "FOR i ← f('a') to n < -1 DO" 2 = .ok (.forRange "i" "f('a')" "n < -1") ↔
        ¬HasSpacedTo ("f('a')".toList ++ [' '])) ∧
      (Statement.parse "Set d[k].x ← n < -1" 2 = .ok (.assign "d[k].x" "n < -1") ↔
        ¬HasSpacedArrow "d[k].x".toList) := by
  have hi : IsName "i".toList := by decide
  have hs : IsExprText "f('a')" := by decide +kernel
  have he : IsExprText "n < -1" := by decide +kernel
  have ht : IsPlaceText "d[k].x" := by decide +kernel
  exact ⟨hi, hs, he, ht, parse_keeps_expressions_iff hi hs he ht 2⟩

/-- A separator in quotes or in a comparison cuts the operand that it stands in. -/
theorem parse_cuts_quotedSeparator :
    IsName "i".toList ∧ IsExprText "\" to \"" ∧ IsExprText "3" ∧
      Statement.parse "FOR i ← \" to \" to 3 DO" 1 = .ok (.forRange "i" "\"" "\" to 3") ∧
      Statement.parse "FOR i ← \" to \" to 3 DO" 1 ≠ .ok (.forRange "i" "\" to \"" "3") ∧
      IsPlaceText "d[a <-1]" ∧
      Statement.parse "Set d[a <-1] ← 3" 1 = .ok (.assign "d[a" "1] ← 3") ∧
      Statement.parse "Set d[a <-1] ← 3" 1 ≠ .ok (.assign "d[a <-1]" "3") := by
  decide +kernel

end Statement

end StepScript
