import StepScript.Block
import StepScript.Proofs.Forms

/-!
# Canonical spellings read back

A statement that was read is read again from its canonical spelling exactly when its operands can be
told apart there (`isLegible`): an operand that was blanks only is spelled as nothing, the end of a
range cannot be found behind a start that ends in `to`, and a model name is always put between the
same quotes.
-/

set_option autoImplicit false

namespace StepScript

namespace Line

variable {fits : Char → Prop}

theorem skipGap_operand {cs : List Char} (h : IsOperand fits cs) (hne : cs ≠ []) (r : List Char) :
    skipGap (cs ++ r) = cs ++ r :=
  skipGap_of_head (h.head hne r)

theorem skipGap_name {n : List Char} (hn : IsName n) (r : List Char) :
    skipGap (n ++ r) = n ++ r := by
  have hhead := hn.head
  obtain ⟨c, rest, rfl, -⟩ := hn
  exact skipGap_of_head hhead

theorem skipGap_path {p : List Char} (hp : IsPath p) (r : List Char) :
    skipGap (p ++ r) = p ++ r := by
  obtain ⟨c, rest, rfl, hc, -⟩ := hp
  refine skipGap_cons_of_not_gap ?_ _
  exact Text.isGap_of_isBlank (Text.isBlank_of_isNameChar (isNameChar_of_isNameStart hc))

theorem skipGap_self {x : String} (hx : IsOperand fits x.toList) : skipGap x.toList = x.toList :=
  skipGap_of_head (Text.trim_eq_self_iff.1 hx.trimmed).1

theorem rest?_skipGap {x : String} (hx : IsOperand fits x.toList) (hne : x.toList ≠ []) :
    rest? (skipGap x.toList) = some x := by
  rw [skipGap_self hx, rest?_self hx hne]

theorem head_cons {c : Char} (hc : Text.isBlank c = false) (cs : List Char) :
    ∀ d ∈ (c :: cs).head?, Text.isBlank d = false := by
  intro d hd
  cases hd
  exact hc

@[simp] theorem skipGap_leftArrow (cs : List Char) : skipGap ('←' :: cs) = '←' :: cs :=
  rfl

@[simp] theorem leftArrow?_leftArrow (cs : List Char) : leftArrow? ('←' :: cs) = some cs :=
  rfl

/-- A space goes on no name. -/
theorem name?_space {n : String} (hn : IsName n.toList) (cs : List Char) :
    name? (n.toList ++ ' ' :: cs) = some (n, ' ' :: cs) :=
  name?_append hn fun c hc => by
    cases hc
    decide

theorem word?_append (w : String) (cs : List Char) : word? w (w.toList ++ cs) = some cs :=
  Text.after?_append _ _

/-- An operand before the word that closes the line. -/
theorem until?_beforeLast {x w : String} (hw : Solid w.toList)
    (hhead : ∀ c ∈ w.toList.head?, Text.isBlank c = false) (hx : IsOperand fits x.toList)
    (hne : x.toList ≠ []) :
    until? (beforeLast w) (x.toList ++ ' ' :: w.toList) = some (x, ' ' :: w.toList) :=
  until?_append hx hne (fun _ hu hsuffix => beforeLast_space hw (hx.solid hsuffix hu))
    (Or.inr (beforeLast_self hhead))

theorem solid_do : Solid "DO".toList :=
  ⟨['D'], 'O', rfl, rfl⟩

theorem solid_then : Solid "THEN".toList :=
  ⟨['T', 'H', 'E'], 'N', rfl, rfl⟩

end Line

namespace Statement

open Line

variable {fits : Char → Prop}

/-- The operands can be told apart in the canonical spelling. -/
def isLegible : Statement → Bool
  | .assign target _ => !target.toList.isEmpty
  | .forRange _ start stop =>
    !start.toList.isEmpty && !stop.toList.isEmpty && !endsInTo start.toList
  | .forEach _ iterable => !iterable.toList.isEmpty
  | .whileLoop cond | .ifThen cond => !cond.toList.isEmpty
  | .getValue expr _ | .predict expr _ => !expr.toList.isEmpty
  | .filter _ expr _ | .map _ expr _ | .reduce _ expr _ => !expr.toList.isEmpty
  | .call _ args _ | .create _ _ args => !args.contains ""
  | .loadModel model _ => !model.toList.contains '"'
  | _ => true

/-! ## Forms -/

theorem assign?_spelled {target expr : String} (htarget : IsOperand fits target.toList)
    (hfree : IsFree beforeLeftArrow target) (hexpr : IsGiven fits expr) :
    assign? (' ' :: (target.toList ++ ' ' :: '←' :: ' ' :: expr.toList))
      = some (.assign target expr) ↔ target.toList ≠ [] := by
  constructor
  · intro h hnil
    simp only [assign?, Option.bind_eq_bind, Option.bind_eq_some_iff] at h
    obtain ⟨cs₁, h₁, ⟨x, cs₂⟩, h₂, cs₃, h₃, cs₄, h₄, y, h₅, heq⟩ := h
    rw [hnil] at h₁
    cases h₁
    cases heq
    exact ne_empty_of_until? h₂ (head_cons rfl _) (String.toList_eq_nil_iff.1 hnil)
  · intro hne
    have huntil := until?_append htarget hne
      (fun u hu hsuffix => beforeLeftArrow_space (htarget.solid hsuffix hu) (hfree u hu hsuffix) _)
      (Or.inr (rfl : beforeLeftArrow (' ' :: '←' :: ' ' :: expr.toList) = true))
    simp [assign?, skipGap_operand htarget hne, huntil, rest?_skipGap hexpr.1 hexpr.2]

theorem importModule?_spelled {path : String} (hpath : IsPath path.toList) :
    importModule? (' ' :: path.toList) = some (.importModule path) := by
  have hread : path? path.toList = some (path, []) := by
    have happend := path?_append hpath (r := []) (by simp)
    rwa [List.append_nil] at happend
  have hskip : skipGap path.toList = path.toList := by
    have happend := skipGap_path hpath []
    rwa [List.append_nil] at happend
  simp [importModule?, hskip, hread, atEnd, skipGap_nil]

theorem named?_spelled (make : String → String → Statement) {name expr : String}
    (hname : IsName name.toList) (hexpr : IsGiven fits expr) :
    named? make (' ' :: (name.toList ++ ' ' :: '←' :: ' ' :: expr.toList))
      = some (make name expr) := by
  simp [named?, skipGap_name hname, name?_space hname, rest?_skipGap hexpr.1 hexpr.2]

theorem forEach?_spelled {var iterable : String} (hvar : IsName var.toList)
    (hiterable : IsOperand fits iterable.toList) :
    forEach? (' ' :: (var.toList ++ ' ' :: 'I' :: 'N' :: ' ' ::
      (iterable.toList ++ ' ' :: "DO".toList))) = some (.forEach var iterable) ↔
      iterable.toList ≠ [] := by
  have hword : ∀ cs, word? "IN" ('I' :: 'N' :: cs) = some cs := word?_append "IN"
  have hskip : ∀ cs, skipGap ('I' :: cs) = 'I' :: cs := fun _ => rfl
  constructor
  · intro h hnil
    simp only [forEach?, gap?_space, skipGap_name hvar, name?_space hvar, hskip, hword,
      Option.bind_eq_bind, Option.bind_some, Option.bind_eq_some_iff] at h
    obtain ⟨⟨x, cs₁⟩, h₁, -, -, heq⟩ := h
    rw [hnil] at h₁
    cases heq
    exact ne_empty_of_until? h₁ (head_cons rfl _) (String.toList_eq_nil_iff.1 hnil)
  · intro hne
    have huntil := until?_beforeLast solid_do (head_cons rfl _) hiterable hne
    have hlast : last? "DO" (' ' :: "DO".toList) = some () := rfl
    simp only [forEach?, gap?_space, skipGap_name hvar, name?_space hvar, hskip, hword,
      Option.bind_eq_bind, Option.bind_some, skipGap_operand hiterable hne, huntil, hlast]
    rfl

/-- A start that ends in `to` is cut there, whatever comes behind it. -/
theorem not_endsInTo_of_until? {start : String} {cs r : List Char}
    (hstart : IsOperand fits start.toList)
    (h : until? beforeTo (start.toList ++ ' ' :: cs) = some (start, r)) :
    endsInTo start.toList = false := by
  rw [← Bool.not_eq_true]
  intro hends
  obtain ⟨front, c, hc, htext⟩ := endsInTo_iff.1 hends
  obtain ⟨before, after, hblank, -, hcs, -, -, hstop⟩ := until?_eq_some h
  have hbefore : before = [] := by
    cases before with
    | nil => rfl
    | cons d before =>
      have hhead := hstart.head (by simp [htext]) (' ' :: cs)
      rw [hcs] at hhead
      have hd := hhead d rfl
      rw [hblank d (by simp)] at hd
      cases hd
  rw [hbefore, List.nil_append, List.append_assoc] at hcs
  have hrest : after ++ r = ' ' :: cs := (List.append_cancel_left hcs).symm
  have hread := hstop [c, 't', 'o'] (by simp) ⟨front, htext.symm⟩
  rw [hrest] at hread
  have hseen : beforeTo ([c, 't', 'o'] ++ ' ' :: cs) = true := by
    have hskip : skipGap ('t' :: 'o' :: ' ' :: cs) = 't' :: 'o' :: ' ' :: cs := rfl
    have hword : word? "to" ('t' :: 'o' :: ' ' :: cs) = some (' ' :: cs) := word?_append "to" _
    have hgap : gap? ([c, 't', 'o'] ++ ' ' :: cs) = some ('t' :: 'o' :: ' ' :: cs) := by
      simp [gap?, hc, hskip]
    rw [beforeTo, hgap, Option.bind_some, hword]
    rfl
  rw [hseen] at hread
  cases hread

theorem forRange?_spelled {var start stop : String} (hvar : IsName var.toList)
    (hstart : IsOperand fits start.toList) (hfree : IsFree beforeTo start)
    (hstop : IsOperand fits stop.toList) :
    forRange? (' ' :: (var.toList ++ ' ' :: '←' :: ' ' ::
      (start.toList ++ ' ' :: 't' :: 'o' :: ' ' :: (stop.toList ++ ' ' :: "DO".toList))))
      = some (.forRange var start stop) ↔
      start.toList ≠ [] ∧ stop.toList ≠ [] ∧ endsInTo start.toList = false := by
  have hword : ∀ cs, word? "to" ('t' :: 'o' :: cs) = some cs := word?_append "to"
  have hskip : ∀ cs, skipGap ('t' :: cs) = 't' :: cs := fun _ => rfl
  -- where the start ends, when it can be told apart
  have huntil : start.toList ≠ [] → endsInTo start.toList = false → ∀ cs,
      until? beforeTo (start.toList ++ ' ' :: 't' :: 'o' :: ' ' :: cs)
        = some (start, ' ' :: 't' :: 'o' :: ' ' :: cs) := by
    intro hne hend cs
    refine until?_append hstart hne (fun u hu hsuffix => ?_) (Or.inr rfl)
    refine beforeTo_space (hstart.solid hsuffix hu) (hfree u hu hsuffix) ?_ _
    rw [← Bool.not_eq_true, endsInTo_iff] at hend ⊢
    rintro ⟨front, c, hc, rfl⟩
    obtain ⟨pre, htext⟩ := hsuffix
    exact hend ⟨pre ++ front, c, hc, by rw [← htext, List.append_assoc]⟩
  constructor
  · intro h
    simp only [forRange?, gap?_space, skipGap_name hvar, name?_space hvar, skipGap_space,
      skipGap_leftArrow, leftArrow?_leftArrow, Option.bind_eq_bind, Option.bind_some,
      Option.bind_eq_some_iff] at h
    obtain ⟨⟨x, cs₁⟩, h₁, cs₂, h₂, cs₃, h₃, cs₄, h₄, ⟨y, cs₅⟩, h₅, -, -, heq⟩ := h
    obtain ⟨rfl, rfl⟩ : start = x ∧ stop = y := by
      cases heq
      exact ⟨rfl, rfl⟩
    have hne : start.toList ≠ [] := by
      intro hnil
      rw [hnil] at h₁
      exact ne_empty_of_until? h₁ (head_cons rfl _) (String.toList_eq_nil_iff.1 hnil)
    rw [skipGap_operand hstart hne] at h₁
    have hend := not_endsInTo_of_until? hstart h₁
    refine ⟨hne, fun hnil => ?_, hend⟩
    -- an empty end would have been read as some text
    rw [huntil hne hend] at h₁
    cases h₁
    cases h₂
    rw [hskip, hword] at h₃
    cases h₃
    rw [hnil] at h₄
    cases h₄
    exact ne_empty_of_until? h₅ (head_cons rfl _) (String.toList_eq_nil_iff.1 hnil)
  · rintro ⟨hne, hne', hend⟩
    have hlast := until?_beforeLast solid_do (head_cons rfl _) hstop hne'
    have hclose : last? "DO" (' ' :: "DO".toList) = some () := rfl
    simp only [forRange?, gap?_space, skipGap_name hvar, name?_space hvar, skipGap_space,
      skipGap_leftArrow, leftArrow?_leftArrow, Option.bind_eq_bind, Option.bind_some,
      skipGap_operand hstart hne, huntil hne hend, hskip, hword, skipGap_operand hstop hne', hlast,
      hclose]
    rfl

theorem condition?_spelled (make : String → Statement) (hmake : Function.Injective make)
    {cond : String} (w : String) (hw : Solid w.toList)
    (hhead : ∀ c ∈ w.toList.head?, Text.isBlank c = false) (hcond : IsOperand fits cond.toList) :
    condition? make w (' ' :: (cond.toList ++ ' ' :: w.toList)) = some (make cond) ↔
      cond.toList ≠ [] := by
  rw [condition?, skipGap_space]
  constructor
  · intro h hnil
    obtain ⟨⟨x, r⟩, hread, heq⟩ := Option.map_eq_some_iff.1 h
    rw [hnil, List.nil_append, skipGap_space, skipGap_of_head hhead] at hread
    have hx : x = cond := hmake heq
    exact ne_empty_of_until? hread hhead (hx.trans (String.toList_eq_nil_iff.1 hnil))
  · intro hne
    rw [skipGap_operand hcond hne, until?_beforeLast hw hhead hcond hne]
    rfl

theorem mapped?_spelled (make : String → String → Statement)
    (hmake : ∀ x y z w, make x y = make z w → x = z) {expr target : String}
    (hexpr : IsOperand fits expr.toList) (htarget : IsName target.toList) :
    mapped? make (skipGap (expr.toList ++ ' ' :: '→' :: ' ' :: target.toList))
      = some (make expr target) ↔ expr.toList ≠ [] := by
  constructor
  · intro h hnil
    simp only [mapped?, Option.bind_eq_bind, Option.bind_eq_some_iff] at h
    obtain ⟨⟨x, cs₁⟩, h₁, y, h₂, heq⟩ := h
    rw [hnil] at h₁
    have hx : x = expr := hmake _ _ _ _ (Option.some.inj heq)
    exact ne_empty_of_until? h₁ (head_cons rfl _) (hx.trans (String.toList_eq_nil_iff.1 hnil))
  · intro hne
    have harrow := target?_arrow htarget
    have huntil : until? beforeTarget (expr.toList ++ ' ' :: '→' :: ' ' :: target.toList)
        = some (expr, ' ' :: '→' :: ' ' :: target.toList) := by
      refine until?_append hexpr hne (fun u hu hsuffix => ?_) (Or.inr ?_)
      · rw [beforeTarget, target?_of_arrow (hexpr.solid hsuffix hu)]
        rfl
      · rw [beforeTarget, harrow]
        rfl
    rw [skipGap_operand hexpr hne, mapped?, huntil]
    simp [harrow]

theorem transform?_spelled (w : String) (hhead : ∀ c ∈ w.toList.head?, Text.isBlank c = false)
    (hw : w.toList ≠ []) (make : String → String → String → Statement)
    (hmake : ∀ x y z x' y' z', make x y z = make x' y' z' → y = y')
    {source expr target : String} (hsource : IsName source.toList)
    (hexpr : IsOperand fits expr.toList) (htarget : IsName target.toList) :
    transform? w make (' ' :: (source.toList ++ ' ' :: (w.toList ++ ' ' ::
      (expr.toList ++ ' ' :: '→' :: ' ' :: target.toList)))) = some (make source expr target) ↔
      expr.toList ≠ [] := by
  have hskip : ∀ cs, skipGap (w.toList ++ cs) = w.toList ++ cs := by
    intro cs
    refine skipGap_of_head ?_
    cases hcs : w.toList with
    | nil => exact absurd hcs hw
    | cons c rest =>
      rw [hcs] at hhead
      exact hhead
  simp only [transform?, gap?_space, skipGap_name hsource, name?_space hsource, hskip,
    word?_append, Option.bind_eq_bind, Option.bind_some]
  exact mapped?_spelled (make source) (fun _ _ _ _ => hmake _ _ _ _ _ _) hexpr htarget

theorem optionalTarget?_spelled {n : String} (hn : IsName n.toList) :
    optionalTarget? (' ' :: '→' :: ' ' :: n.toList) = some (some n) := by
  rw [optionalTarget?, target?_arrow hn]

theorem sort?_spelled {source target : String} (hsource : IsName source.toList)
    (htarget : IsName target.toList) :
    sort? (' ' :: (source.toList ++ ' ' :: '→' :: ' ' :: target.toList))
      = some (.sort source target) := by
  simp [sort?, skipGap_name hsource, name?_space hsource, optionalTarget?_spelled htarget]

theorem sort?_spelled_self {source : String} (hsource : IsName source.toList) :
    sort? (' ' :: source.toList) = some (.sort source source) := by
  have hskip : skipGap source.toList = source.toList := skipGap_of_head hsource.head
  have hnone : optionalTarget? [] = some none := rfl
  simp [sort?, hskip, name?_self hsource, hnone]

theorem catchFault?_spelled {name : String} (hname : IsName name.toList) :
    catchFault? (' ' :: name.toList) = some (.catchFault name) := by
  have hskip : skipGap name.toList = name.toList := skipGap_of_head hname.head
  have hend : marker (.catchFault name) [] = some (.catchFault name) := rfl
  simp [catchFault?, hskip, name?_self hname, hend]

/-- The end of a call: its target, when it has one. -/
def targetText : Option String → List Char
  | some n => ' ' :: '→' :: ' ' :: n.toList
  | none => []

theorem optionalTarget?_targetText {target : Option String}
    (htarget : ∀ n ∈ target, IsName n.toList) :
    optionalTarget? (targetText target) = some target := by
  cases target with
  | none => rfl
  | some n => exact optionalTarget?_spelled (htarget n rfl)

theorem isTargetChar_of_targetText {target : Option String}
    (htarget : ∀ n ∈ target, IsName n.toList) :
    ∀ c ∈ targetText target, isTargetChar c = true :=
  (optionalTarget?_eq_some (optionalTarget?_targetText htarget)).2

theorem exists_arguments_cons (args : List String) (cs : List Char) :
    ∃ r, (Statement.arguments args).toList ++ cs = '(' :: r := by
  rw [Statement.arguments, String.toList_append, String.toList_append]
  exact ⟨_, rfl⟩

/-- A path stops at an argument list. -/
theorem path?_arguments {path : String} (hpath : IsPath path.toList) (args : List String)
    (cs : List Char) :
    path? (path.toList ++ ((Statement.arguments args).toList ++ cs))
      = some (path, (Statement.arguments args).toList ++ cs) := by
  obtain ⟨r, hr⟩ := exists_arguments_cons args cs
  rw [hr]
  refine path?_append hpath fun c hc => ?_
  cases hc
  decide

theorem skipGap_arguments (args : List String) (cs : List Char) :
    skipGap ((Statement.arguments args).toList ++ cs)
      = (Statement.arguments args).toList ++ cs := by
  obtain ⟨r, hr⟩ := exists_arguments_cons args cs
  rw [hr]
  rfl

theorem call?_spelled {function : String} {args : List String} {result : Option String}
    (hfunction : IsPath function.toList) (hargs : ArgumentsRead fits args)
    (hresult : ∀ n ∈ result, IsName n.toList) :
    call? (' ' :: (function.toList ++ ((Statement.arguments args).toList ++ targetText result)))
      = some (.call function args result) ↔ "" ∉ args := by
  obtain ⟨cs, tail, -, htail, hread⟩ := hargs
  have htail' := isTargetChar_of_targetText hresult
  simp only [call?, gap?_space, skipGap_path hfunction, path?_arguments hfunction,
    skipGap_arguments, Option.bind_eq_bind, Option.bind_some]
  constructor
  · intro h hempty
    obtain ⟨⟨args', r⟩, h₁, target, h₂, heq⟩ := by
      simpa only [Option.bind_eq_some_iff] using h
    cases heq
    exact arguments?_source_ne htail htail' hread hempty r h₁
  · intro hempty
    rw [arguments?_source htail htail' hread hempty]
    simp [optionalTarget?_targetText hresult]

theorem create?_spelled {var className : String} {args : List String} (hvar : IsName var.toList)
    (hclass : IsPath className.toList) (hargs : ArgumentsRead fits args) :
    create? (' ' :: (var.toList ++ ' ' :: '←' :: ' ' ::
      (className.toList ++ ((Statement.arguments args).toList ++ []))))
      = some (.create var className args) ↔ "" ∉ args := by
  obtain ⟨cs, tail, -, htail, hread⟩ := hargs
  have htail' : ∀ c ∈ ([] : List Char), isTargetChar c = true := by simp
  simp only [create?, gap?_space, skipGap_name hvar, name?_space hvar, skipGap_space,
    skipGap_leftArrow, leftArrow?_leftArrow, skipGap_path hclass, path?_arguments hclass,
    skipGap_arguments, Option.bind_eq_bind, Option.bind_some]
  constructor
  · intro h hempty
    obtain ⟨⟨args', r⟩, h₁, heq⟩ := by simpa only [Option.bind_eq_some_iff] using h
    dsimp only at heq
    split at heq
    · cases heq
      exact arguments?_source_ne htail htail' hread hempty r h₁
    · cases heq
  · intro hempty
    rw [arguments?_source htail htail' hread hempty]
    rfl

theorem loadModel?_spelled {model var : String} (hmodel : model.toList ≠ [])
    (hvar : IsName var.toList) :
    loadModel? (' ' :: '"' :: (model.toList ++ '"' :: ' ' :: '→' :: ' ' :: var.toList))
      = some (.loadModel model var) ↔ '"' ∉ model.toList := by
  have hskip : ∀ cs, skipGap ('"' :: cs) = '"' :: cs := fun _ => rfl
  constructor
  · intro h hquote
    simp only [loadModel?, gap?_space, hskip, Option.bind_eq_bind, Option.bind_some,
      Option.bind_eq_some_iff] at h
    obtain ⟨⟨x, r⟩, h₁, target, h₂, heq⟩ := h
    obtain ⟨-, q, rest, hcs, hx⟩ := modelName?_eq_some h₁
    cases heq
    cases hcs
    -- the name that was read ends before the first quote
    rw [hx] at hquote
    have hne := List.mem_takeWhile_imp hquote
    simp at hne
  · intro hquote
    have hchars : ∀ c ∈ model.toList, (c != '"') = true := by
      intro c hc
      rw [bne_iff_ne]
      rintro rfl
      exact hquote hc
    have hread : ∀ cs, modelName? ('"' :: (model.toList ++ '"' :: cs)) = some (model, cs) := by
      intro cs
      obtain ⟨c, rest, hcons⟩ := List.exists_cons_of_ne_nil hmodel
      have hname : String.ofList (c :: rest) = model := by rw [← hcons, String.ofList_toList]
      have hstop : ∀ d ∈ ('"' :: cs).head?, (d != '"') = false := by simp
      rw [modelName?, Text.takeWhile_run hchars hstop, Text.dropWhile_run hchars hstop]
      simp [hcons, hname]
    simp [loadModel?, hskip, hread, optionalTarget?_spelled hvar]

theorem train?_spelled {model data : String} (hmodel : IsName model.toList)
    (hdata : IsGiven fits data) :
    train? (' ' :: (model.toList ++ ' ' :: 'O' :: 'N' :: ' ' :: data.toList))
      = some (.train model data) := by
  have hword : ∀ cs, word? "ON" ('O' :: 'N' :: cs) = some cs := word?_append "ON"
  have hskip : ∀ cs, skipGap ('O' :: cs) = 'O' :: cs := fun _ => rfl
  simp [train?, skipGap_name hmodel, name?_space hmodel, hskip, hword,
    rest?_skipGap hdata.1 hdata.2]

/-! ## Statements -/

theorem parse_eq_ok_iff {content : String} {k : Keyword} {rest : List Char} {s : Statement}
    (n : Nat) (hcontent : content.toList = k.text.toList ++ rest)
    (hrest : ∀ c ∈ rest.head?, Text.isNameChar c = false) :
    Statement.parse content n = .ok s ↔ ofKeyword? k rest = some s := by
  rw [Statement.parse, hcontent, Keyword.classify?_append k hrest]
  dsimp only
  cases ofKeyword? k rest with
  | none => simp
  | some s' => simp

/-- A keyword and its operands behind a space. -/
theorem parse_spaced {content : String} {k : Keyword} {rest : List Char} {s : Statement}
    (n : Nat) (hcontent : content.toList = k.text.toList ++ ' ' :: rest) :
    Statement.parse content n = .ok s ↔ ofKeyword? k (' ' :: rest) = some s :=
  parse_eq_ok_iff n hcontent fun c hc => by
    cases hc
    decide

/-- A keyword alone. -/
theorem parse_alone {content : String} {k : Keyword} {s : Statement}
    (n : Nat) (hcontent : content.toList = k.text.toList) :
    Statement.parse content n = .ok s ↔ ofKeyword? k [] = some s :=
  parse_eq_ok_iff n (by rw [hcontent, List.append_nil]) (by simp)

/-- An operand that may be missing is read back. -/
theorem parse_optional {k : Keyword} {make : String → Statement}
    (hk : ∀ cs, ofKeyword? k cs = some (optional make cs)) {expr : String}
    (hexpr : IsOperand fits expr.toList) (n : Nat) :
    Statement.parse (withOperand k.text expr) n = .ok (make expr) := by
  rw [withOperand]
  by_cases hempty : expr = ""
  · have hnone : optional make [] = make "" := rfl
    rw [hempty, if_pos (by simp), parse_alone n rfl, hk, hnone]
  · have hread : optional make (' ' :: expr.toList) = make expr := by
      rw [optional, skipGap_space, skipGap_self hexpr, operandText_eq_self hexpr.trimmed]
    have htext : (k.text ++ " " ++ expr).toList = k.text.toList ++ ' ' :: expr.toList := by simp
    rw [if_neg (by simpa using hempty), parse_spaced n htext, hk, hread]

theorem parse_sort {source target : String} (hsource : IsName source.toList)
    (htarget : IsName target.toList) (n : Nat) :
    Statement.parse (Statement.sort source target).source n = .ok (.sort source target) := by
  rw [Statement.source]
  by_cases heq : source = target
  · subst heq
    rw [if_pos (by simp)]
    refine (parse_spaced (k := .sort) n ?_).2 (sort?_spelled_self hsource)
    simp [Keyword.text]
  · rw [if_neg (by simpa using heq)]
    refine (parse_spaced (k := .sort) n ?_).2 (sort?_spelled hsource htarget)
    simp [Keyword.text]

section

variable {k : Keyword} {rest : List Char} {s : Statement}

/-- A statement that is spelled with its operands behind a space is read back when they are. -/
theorem parse_source_spaced (n : Nat)
    (hread : ofKeyword? k (' ' :: rest) = some s ↔ s.isLegible = true)
    (hsource : s.source.toList = k.text.toList ++ ' ' :: rest) :
    Statement.parse s.source n = .ok s ↔ s.isLegible = true :=
  (parse_spaced n hsource).trans hread

/-- A statement that is spelled as its keyword is read back. -/
theorem parse_source_alone (n : Nat) (k : Keyword) (hread : ofKeyword? k [] = some s)
    (hsource : s.source = k.text) (hlegible : s.isLegible = true) :
    Statement.parse s.source n = .ok s ↔ s.isLegible = true :=
  iff_of_true ((parse_alone n (congrArg String.toList hsource)).2 hread) hlegible

end

section

variable {s : Statement}

/-- The openers of blocks. -/
theorem parse_source_of_opens? {b : Block} (hs : s.IsRead fits) (hopens : s.opens? = some b)
    (n : Nat) : Statement.parse s.source n = .ok s ↔ s.isLegible = true := by
  cases s with
  | forRange var start stop =>
    have hread := forRange?_spelled hs.1 hs.2.1 hs.2.2.1 hs.2.2.2
    exact parse_source_spaced (k := .forRange) n (hread.trans (by simp [isLegible, and_assoc]))
      (by simp [source, Keyword.text])
  | forEach var iterable =>
    have hread := forEach?_spelled hs.1 hs.2
    exact parse_source_spaced (k := .forEach) n (hread.trans (by simp [isLegible]))
      (by simp [source, Keyword.text])
  | whileLoop cond =>
    have hread := condition?_spelled .whileLoop (fun _ _ h => whileLoop.inj h) "DO" solid_do
      (head_cons rfl _) hs
    exact parse_source_spaced (k := .whileLoop) n (hread.trans (by simp [isLegible]))
      (by simp [source, Keyword.text])
  | ifThen cond =>
    have hread := condition?_spelled .ifThen (fun _ _ h => ifThen.inj h) "THEN" solid_then
      (head_cons rfl _) hs
    exact parse_source_spaced (k := .ifThen) n (hread.trans (by simp [isLegible]))
      (by simp [source, Keyword.text])
  | tryBlock => exact parse_source_alone n .tryBlock rfl rfl rfl
  | _ => cases hopens

/-- A statement that was read is read again from its canonical spelling exactly when its operands
    can be told apart there. -/
theorem parse_source_iff (hs : s.IsRead fits) (n : Nat) :
    Statement.parse s.source n = .ok s ↔ s.isLegible = true := by
  cases s with
  | forRange _ _ _ | forEach _ _ | whileLoop _ | ifThen _ | tryBlock =>
    exact parse_source_of_opens? hs rfl n
  | assign target expr =>
    have hread := assign?_spelled hs.1 hs.2.1 hs.2.2
    exact parse_source_spaced (k := .set) n (hread.trans (by simp [isLegible]))
      (by simp [source, Keyword.text])
  | importModule path =>
    exact parse_source_spaced (k := .importModule) n (iff_of_true (importModule?_spelled hs) rfl)
      (by simp [source, Keyword.text])
  | apiKey value =>
    have hread : ofKeyword? .key (' ' :: value.toList) = some (.apiKey value) := by
      simp [ofKeyword?, rest?_skipGap hs.1 hs.2]
    exact parse_source_spaced n (iff_of_true hread rfl) (by simp [source, Keyword.text])
  | returnValue expr =>
    exact iff_of_true (parse_optional (k := .returnValue) (fun _ => rfl) hs n) rfl
  | print expr => exact iff_of_true (parse_optional (k := .print) (fun _ => rfl) hs n) rfl
  | listCreate name expr =>
    exact parse_source_spaced (k := .list) n (iff_of_true (named?_spelled _ hs.1 hs.2) rfl)
      (by simp [source, Keyword.text])
  | dictCreate name expr =>
    exact parse_source_spaced (k := .dict) n (iff_of_true (named?_spelled _ hs.1 hs.2) rfl)
      (by simp [source, Keyword.text])
  | listAppend list expr =>
    exact parse_source_spaced (k := .append) n (iff_of_true (named?_spelled _ hs.1 hs.2) rfl)
      (by simp [source, Keyword.text])
  | listRemove list expr =>
    exact parse_source_spaced (k := .remove) n (iff_of_true (named?_spelled _ hs.1 hs.2) rfl)
      (by simp [source, Keyword.text])
  | getValue expr target =>
    have hread := mapped?_spelled .getValue (fun _ _ _ _ h => (getValue.inj h).1) hs.1 hs.2
    exact parse_source_spaced (k := .get) n (hread.trans (by simp [isLegible]))
      (by simp [source, Keyword.text])
  | predict expr target =>
    have hread := mapped?_spelled .predict (fun _ _ _ _ h => (predict.inj h).1) hs.1 hs.2
    exact parse_source_spaced (k := .predict) n (hread.trans (by simp [isLegible]))
      (by simp [source, Keyword.text])
  | sort source' target => exact iff_of_true (parse_sort hs.1 hs.2 n) rfl
  | filter source' expr target =>
    have hread := transform?_spelled "WHERE" (head_cons rfl _) (by decide) .filter
      (fun _ _ _ _ _ _ h => (filter.inj h).2.1) hs.1 hs.2.1 hs.2.2
    exact parse_source_spaced (k := .filter) n (hread.trans (by simp [isLegible]))
      (by simp [source, Keyword.text])
  | map source' expr target =>
    have hread := transform?_spelled "WITH" (head_cons rfl _) (by decide) .map
      (fun _ _ _ _ _ _ h => (map.inj h).2.1) hs.1 hs.2.1 hs.2.2
    exact parse_source_spaced (k := .map) n (hread.trans (by simp [isLegible]))
      (by simp [source, Keyword.text])
  | reduce source' expr target =>
    have hread := transform?_spelled "WITH" (head_cons rfl _) (by decide) .reduce
      (fun _ _ _ _ _ _ h => (reduce.inj h).2.1) hs.1 hs.2.1 hs.2.2
    exact parse_source_spaced (k := .reduce) n (hread.trans (by simp [isLegible]))
      (by simp [source, Keyword.text])
  | catchFault name =>
    exact parse_source_spaced (k := .catchFault) n (iff_of_true (catchFault?_spelled hs) rfl)
      (by simp [source, Keyword.text])
  | call function args result =>
    have hread := call?_spelled hs.1 hs.2.1 hs.2.2
    refine parse_source_spaced (k := .call) n (hread.trans (by simp [isLegible])) ?_
    cases result <;> simp [source, Keyword.text, targetText]
  | create var className args =>
    have hread := create?_spelled hs.1 hs.2.1 hs.2.2
    exact parse_source_spaced (k := .create) n (hread.trans (by simp [isLegible]))
      (by simp [source, Keyword.text])
  | loadModel model var =>
    have hread := loadModel?_spelled hs.1 hs.2.2
    exact parse_source_spaced (k := .loadModel) n (hread.trans (by simp [isLegible]))
      (by simp [source, Keyword.text])
  | train model data =>
    exact parse_source_spaced (k := .train) n (iff_of_true (train?_spelled hs.1 hs.2) rfl)
      (by simp [source, Keyword.text])
  | raw text =>
    refine iff_of_true ?_ rfl
    rw [Statement.parse, source, hs.2]
  | endFor => exact parse_source_alone n .endFor rfl rfl rfl
  | endForEach => exact parse_source_alone n .endForEach rfl rfl rfl
  | endWhile => exact parse_source_alone n .endWhile rfl rfl rfl
  | orElse => exact parse_source_alone n .orElse rfl rfl rfl
  | endIf => exact parse_source_alone n .endIf rfl rfl rfl
  | breakLoop => exact parse_source_alone n .breakLoop rfl rfl rfl
  | continueLoop => exact parse_source_alone n .continueLoop rfl rfl rfl
  | endTry => exact parse_source_alone n .endTry rfl rfl rfl

end

end Statement

end StepScript
