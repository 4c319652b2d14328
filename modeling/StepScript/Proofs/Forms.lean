import StepScript.Proofs.Arguments

/-!
# Forms of statements

What reading makes sure of: the operands of a statement that was read from a line (`IsRead`). Names
are names, free text is trimmed and holds none of the followers that would have ended it, and the
arguments of a call were read from a list of arguments.
-/

set_option autoImplicit false

namespace StepScript

/-! ## Keywords -/

namespace Keyword

/-- One keyword starts another only where a letter goes on. -/
theorem text_split (k k' : Keyword) (hne : k ≠ k') {r : List Char}
    (h : Text.after? k.text.toList k'.text.toList = some r) :
    k ≠ .key ∧ ∃ c rest, r = c :: rest ∧ Text.isNameChar c = true := by
  have hall : ∀ k ∈ all, ∀ k' ∈ all, k ≠ k' →
      (Text.after? k.text.toList k'.text.toList).all (fun r =>
        k != .key && r.head?.any Text.isNameChar) = true := by
    decide +kernel
  have hk := hall k (mem_all k) k' (mem_all k') hne
  rw [h, Option.all_some, Bool.and_eq_true, bne_iff_ne] at hk
  obtain ⟨hkey, hhead⟩ := hk
  cases r with
  | nil => cases hhead
  | cons c rest => exact ⟨hkey, c, rest, rfl, hhead⟩

theorem operands?_self (k : Keyword) {rest : List Char}
    (hrest : ∀ c ∈ rest.head?, Text.isNameChar c = false) :
    k.operands? (k.text.toList ++ rest) = some rest := by
  have hword : Line.word? k.text (k.text.toList ++ rest) = some rest := Text.after?_append _ _
  rw [operands?, hword]
  cases rest with
  | nil => rfl
  | cons c rest => simp [hrest c rfl]

theorem operands?_other {k k' : Keyword} (hne : k' ≠ k) {rest : List Char}
    (hrest : ∀ c ∈ rest.head?, Text.isNameChar c = false) :
    k'.operands? (k.text.toList ++ rest) = none := by
  rw [operands?]
  cases hword : Line.word? k'.text (k.text.toList ++ rest) with
  | none => rfl
  | some r =>
    have hsplit : k.text.toList ++ rest = k'.text.toList ++ r := Text.after?_eq_some_iff.1 hword
    rcases List.append_eq_append_iff.1 hsplit with ⟨as, hk', hr⟩ | ⟨bs, hk, hr⟩
    · -- the other keyword would go on with what follows this one
      obtain ⟨-, c, as', rfl, hc⟩ := text_split k k' hne.symm (Text.after?_eq_some_iff.2 hk')
      rw [hrest c (by simp [hr])] at hc
      cases hc
    · obtain ⟨hkey, c, bs', rfl, hc⟩ := text_split k' k hne (Text.after?_eq_some_iff.2 hk)
      rw [hr]
      simp [hkey, hc]

/-- A keyword is recognised when no letter follows it. -/
theorem classify?_append (k : Keyword) {rest : List Char}
    (hrest : ∀ c ∈ rest.head?, Text.isNameChar c = false) :
    classify? (k.text.toList ++ rest) = some (k, rest) := by
  obtain ⟨before, after, hall, hk⟩ := List.eq_append_cons_of_mem (mem_all k)
  refine List.findSome?_eq_some_iff.2 ⟨before, k, after, hall, ?_, fun k' hk' => ?_⟩
  · rw [operands?_self k hrest]
    rfl
  · have hne : k' ≠ k := by
      rintro rfl
      exact hk hk'
    rw [operands?_other hne hrest]
    rfl

/-- What was recognised is a keyword and the rest of the content. -/
theorem classify?_eq_some {content rest : List Char} {k : Keyword}
    (h : classify? content = some (k, rest)) : content = k.text.toList ++ rest := by
  obtain ⟨k', hmem, hk⟩ := List.exists_of_findSome?_eq_some h
  obtain ⟨rest', hrest, heq⟩ := Option.map_eq_some_iff.1 hk
  cases heq
  rw [operands?] at hrest
  split at hrest
  · next c cs hword =>
    split at hrest
    · cases hrest
    · cases hrest
      exact Text.after?_eq_some_iff.1 hword
  · exact Text.after?_eq_some_iff.1 hrest

end Keyword

namespace Line

/-! ## Ends of lines -/

/-- The end of a trimmed line: its characters are of one sort, and its last one is not blank. -/
structure IsLineEnd (fits : Char → Prop) (cs : List Char) : Prop where
  chars : ∀ c ∈ cs, fits c
  solid : cs ≠ [] → Solid cs

namespace IsLineEnd

variable {fits : Char → Prop} {cs r : List Char}

theorem of_suffix (h : IsLineEnd fits cs) (hr : r <:+ cs) : IsLineEnd fits r where
  chars c hc := h.chars c (hr.subset hc)
  solid hne := by
    have hcs : cs ≠ [] := by
      rintro rfl
      exact hne (List.suffix_nil.1 hr)
    exact (h.solid hcs).of_suffix hr hne

theorem skipGap (h : IsLineEnd fits cs) : IsLineEnd fits (skipGap cs) :=
  h.of_suffix (suffix_of_skipGap cs)

theorem gap? (h : IsLineEnd fits cs) (hr : gap? cs = some r) : IsLineEnd fits r :=
  h.of_suffix (suffix_of_gap? hr)

theorem word? {w : String} (h : IsLineEnd fits cs) (hr : word? w cs = some r) : IsLineEnd fits r :=
  h.of_suffix ⟨w.toList, (Text.after?_eq_some_iff.1 hr).symm⟩

theorem leftArrow? (h : IsLineEnd fits cs) (hr : leftArrow? cs = some r) : IsLineEnd fits r := by
  rcases leftArrow?_eq_some_iff.1 hr with rfl | rfl
  · exact h.of_suffix (List.suffix_cons _ r)
  · exact h.of_suffix ((List.suffix_cons _ r).trans (List.suffix_cons _ _))

theorem name? {n : String} (h : IsLineEnd fits cs) (hr : name? cs = some (n, r)) :
    IsLineEnd fits r :=
  h.of_suffix ⟨n.toList, (name?_eq_some hr).2.symm⟩

theorem path? {p : String} (h : IsLineEnd fits cs) (hr : path? cs = some (p, r)) :
    IsLineEnd fits r :=
  h.of_suffix ⟨p.toList, (path?_eq_some hr).2.symm⟩

theorem until? {stop : List Char → Bool} {x : String} (h : IsLineEnd fits cs)
    (hr : until? stop cs = some (x, r)) : IsLineEnd fits r := by
  obtain ⟨before, after, -, -, heq, -⟩ := until?_eq_some hr
  exact h.of_suffix ⟨_, heq.symm⟩

theorem rest? {x : String} (h : IsLineEnd fits cs) (hr : rest? cs = some x) :
    IsOperand fits x.toList ∧ x.toList ≠ [] := by
  have hne : cs ≠ [] := by
    rintro rfl
    cases hr
  exact isOperand_of_rest? hr (h.solid hne) h.chars

end IsLineEnd

end Line

/-! ## What reading makes sure of -/

namespace Statement

open Line

/-- The arguments come from a list of arguments that a target or nothing followed. -/
def ArgumentsRead (fits : Char → Prop) (args : List String) : Prop :=
  ∃ cs tail, (∀ c ∈ cs, fits c) ∧ (∀ c ∈ tail, isTargetChar c = true) ∧
    arguments? cs = some (args, tail)

/-- An operand that is not empty. -/
def IsGiven (fits : Char → Prop) (x : String) : Prop :=
  IsOperand fits x.toList ∧ x.toList ≠ []

/-- No follower stands in the text. -/
def IsFree (follower : List Char → Bool) (x : String) : Prop :=
  ∀ u, u ≠ [] → u <:+ x.toList → follower u = false

/-- What holds of the operands of every statement that was read from characters of one sort. -/
def IsRead (fits : Char → Prop) : Statement → Prop
  | .assign target expr =>
    IsOperand fits target.toList ∧ IsFree beforeLeftArrow target ∧ IsGiven fits expr
  | .importModule path => IsPath path.toList
  | .apiKey value => IsGiven fits value
  | .forRange var start stop =>
    IsName var.toList ∧ IsOperand fits start.toList ∧ IsFree beforeTo start ∧
      IsOperand fits stop.toList
  | .forEach var iterable => IsName var.toList ∧ IsOperand fits iterable.toList
  | .whileLoop cond | .ifThen cond => IsOperand fits cond.toList
  | .returnValue expr | .print expr => IsOperand fits expr.toList
  | .listCreate name expr | .dictCreate name expr | .listAppend name expr
  | .listRemove name expr | .train name expr => IsName name.toList ∧ IsGiven fits expr
  | .getValue expr target | .predict expr target =>
    IsOperand fits expr.toList ∧ IsName target.toList
  | .sort source target => IsName source.toList ∧ IsName target.toList
  | .filter source expr target | .map source expr target | .reduce source expr target =>
    IsName source.toList ∧ IsOperand fits expr.toList ∧ IsName target.toList
  | .catchFault name => IsName name.toList
  | .call function args result =>
    IsPath function.toList ∧ ArgumentsRead fits args ∧ ∀ n ∈ result, IsName n.toList
  | .create var className args =>
    IsName var.toList ∧ IsPath className.toList ∧ ArgumentsRead fits args
  | .loadModel model var => model.toList ≠ [] ∧ (∀ c ∈ model.toList, fits c) ∧ IsName var.toList
  | .raw text => IsGiven fits text ∧ Keyword.classify? text.toList = none
  | _ => True

variable {fits : Char → Prop} {cs : List Char} {s : Statement}

theorem eq_of_marker {s' : Statement} (h : marker s' cs = some s) : s = s' := by
  rw [marker] at h
  split at h
  · exact (Option.some.inj h).symm
  · cases h

/-- An operand is free of a follower that is seen whatever comes behind it. -/
theorem isFree_of_until? {follower : List Char → Bool} {x : String} {r : List Char}
    (hseen : ∀ u, Solid u → follower u = true → ∀ r, follower (u ++ r) = true)
    (h : until? follower cs = some (x, r)) : IsFree follower x := by
  obtain ⟨before, after, -, htrim, -, -, -, hstop⟩ := until?_eq_some h
  intro u hne hu
  rw [← Bool.not_eq_true]
  intro hread
  have hx : x.toList ≠ [] := by
    intro hnil
    rw [hnil] at hu
    exact hne (List.suffix_nil.1 hu)
  have hstop' := hstop u hne hu
  rw [hseen u ((solid_of_trim htrim hx).of_suffix hu hne) hread] at hstop'
  cases hstop'

theorem isRead_of_assign? (hcs : IsLineEnd fits cs) (h : assign? cs = some s) : s.IsRead fits := by
  simp only [assign?, Option.bind_eq_bind, Option.bind_eq_some_iff] at h
  obtain ⟨cs₁, h₁, ⟨target, cs₂⟩, h₂, cs₃, h₃, cs₄, h₄, expr, h₅, heq⟩ := h
  cases heq
  have hcs₁ := hcs.gap? h₁
  have hcs₄ := ((hcs₁.until? h₂).gap? h₃).leftArrow? h₄
  exact ⟨isOperand_of_until? h₂ hcs₁.chars,
    isFree_of_until? (fun _ hu => beforeLeftArrow_append hu) h₂, hcs₄.skipGap.rest? h₅⟩

theorem isRead_of_importModule? (h : importModule? cs = some s) : s.IsRead fits := by
  simp only [importModule?, Option.bind_eq_bind, Option.bind_eq_some_iff] at h
  obtain ⟨cs₁, -, ⟨path, cs₂⟩, h₂, heq⟩ := h
  dsimp only at heq
  split at heq
  · cases heq
    exact (path?_eq_some h₂).1
  · cases heq

theorem named?_eq_some {make : String → String → Statement} (hcs : IsLineEnd fits cs)
    (h : named? make cs = some s) :
    ∃ name expr, IsName name.toList ∧ IsGiven fits expr ∧ s = make name expr := by
  simp only [named?, Option.bind_eq_bind, Option.bind_eq_some_iff] at h
  obtain ⟨cs₁, h₁, ⟨name, cs₂⟩, h₂, cs₃, h₃, expr, h₄, heq⟩ := h
  cases heq
  have hcs₃ := ((hcs.gap? h₁).name? h₂).skipGap.leftArrow? h₃
  exact ⟨name, expr, (name?_eq_some h₂).1, hcs₃.skipGap.rest? h₄, rfl⟩

theorem isRead_of_forEach? (hcs : IsLineEnd fits cs) (h : forEach? cs = some s) :
    s.IsRead fits := by
  simp only [forEach?, Option.bind_eq_bind, Option.bind_eq_some_iff] at h
  obtain ⟨cs₁, h₁, ⟨var, cs₂⟩, h₂, cs₃, h₃, cs₄, h₄, cs₅, h₅, ⟨iterable, cs₆⟩, h₆, -, -, heq⟩ := h
  cases heq
  have hcs₅ := ((((hcs.gap? h₁).name? h₂).gap? h₃).word? h₄).gap? h₅
  exact ⟨(name?_eq_some h₂).1, isOperand_of_until? h₆ hcs₅.chars⟩

theorem isRead_of_forRange? (hcs : IsLineEnd fits cs) (h : forRange? cs = some s) :
    s.IsRead fits := by
  simp only [forRange?, Option.bind_eq_bind, Option.bind_eq_some_iff] at h
  obtain ⟨cs₁, h₁, ⟨var, cs₂⟩, h₂, cs₃, h₃, ⟨start, cs₄⟩, h₄, cs₅, h₅, cs₆, h₆, cs₇, h₇,
    ⟨stop, cs₈⟩, h₈, -, -, heq⟩ := h
  cases heq
  have hcs₃ := (((hcs.gap? h₁).name? h₂).skipGap.leftArrow? h₃).skipGap
  have hcs₇ := (((hcs₃.until? h₄).gap? h₅).word? h₆).gap? h₇
  exact ⟨(name?_eq_some h₂).1, isOperand_of_until? h₄ hcs₃.chars,
    isFree_of_until? (fun _ hu => beforeTo_append hu) h₄, isOperand_of_until? h₈ hcs₇.chars⟩

theorem condition?_eq_some {make : String → Statement} {closer : String} (hcs : IsLineEnd fits cs)
    (h : condition? make closer cs = some s) :
    ∃ cond, IsOperand fits cond.toList ∧ s = make cond := by
  rw [condition?, Option.map_eq_some_iff] at h
  obtain ⟨⟨cond, r⟩, hread, rfl⟩ := h
  exact ⟨cond, isOperand_of_until? hread hcs.skipGap.chars, rfl⟩

theorem mapped?_eq_some {make : String → String → Statement} (hcs : IsLineEnd fits cs)
    (h : mapped? make cs = some s) :
    ∃ expr target, IsOperand fits expr.toList ∧ IsName target.toList ∧ s = make expr target := by
  simp only [mapped?, Option.bind_eq_bind, Option.bind_eq_some_iff] at h
  obtain ⟨⟨expr, cs₁⟩, h₁, target, h₂, heq⟩ := h
  cases heq
  exact ⟨expr, target, isOperand_of_until? h₁ hcs.chars, (target?_eq_some h₂).1, rfl⟩

theorem transform?_eq_some {w : String} {make : String → String → String → Statement}
    (hcs : IsLineEnd fits cs) (h : transform? w make cs = some s) :
    ∃ source expr target, IsName source.toList ∧ IsOperand fits expr.toList ∧ IsName target.toList ∧
      s = make source expr target := by
  simp only [transform?, Option.bind_eq_bind, Option.bind_eq_some_iff] at h
  obtain ⟨cs₁, h₁, ⟨source, cs₂⟩, h₂, cs₃, h₃, cs₄, h₄, cs₅, h₅, hmapped⟩ := h
  have hcs₅ := ((((hcs.gap? h₁).name? h₂).gap? h₃).word? h₄).gap? h₅
  obtain ⟨expr, target, hexpr, htarget, rfl⟩ := mapped?_eq_some hcs₅ hmapped
  exact ⟨source, expr, target, (name?_eq_some h₂).1, hexpr, htarget, rfl⟩

theorem isRead_of_sort? (h : sort? cs = some s) : s.IsRead fits := by
  simp only [sort?, Option.bind_eq_bind, Option.bind_eq_some_iff] at h
  obtain ⟨cs₁, -, ⟨source, cs₂⟩, h₂, target, h₃, heq⟩ := h
  cases heq
  have hsource := (name?_eq_some h₂).1
  refine ⟨hsource, ?_⟩
  cases target with
  | none => exact hsource
  | some target => exact (optionalTarget?_eq_some h₃).1 target rfl

theorem isRead_of_catchFault? (h : catchFault? cs = some s) : s.IsRead fits := by
  rw [catchFault?] at h
  split at h
  · next name rest hread =>
    obtain ⟨r, -, hname⟩ := Option.bind_eq_some_iff.1 hread
    rw [eq_of_marker h]
    exact (name?_eq_some hname).1
  · rw [eq_of_marker h]
    exact (by decide : IsName "error".toList)

theorem isRead_of_call? (hcs : IsLineEnd fits cs) (h : call? cs = some s) : s.IsRead fits := by
  simp only [call?, Option.bind_eq_bind, Option.bind_eq_some_iff] at h
  obtain ⟨cs₁, h₁, ⟨function, cs₂⟩, h₂, ⟨args, cs₃⟩, h₃, target, h₄, heq⟩ := h
  cases heq
  have hcs₂ := ((hcs.gap? h₁).path? h₂).skipGap
  obtain ⟨htarget, hchars⟩ := optionalTarget?_eq_some h₄
  exact ⟨(path?_eq_some h₂).1, ⟨_, cs₃, hcs₂.chars, hchars, h₃⟩, htarget⟩

theorem isRead_of_create? (hcs : IsLineEnd fits cs) (h : create? cs = some s) : s.IsRead fits := by
  simp only [create?, Option.bind_eq_bind, Option.bind_eq_some_iff] at h
  obtain ⟨cs₁, h₁, ⟨var, cs₂⟩, h₂, cs₃, h₃, ⟨className, cs₄⟩, h₄, ⟨args, cs₅⟩, h₅, heq⟩ := h
  dsimp only at heq
  split at heq
  · next hend =>
    cases heq
    have hcs₄ := ((((hcs.gap? h₁).name? h₂).skipGap.leftArrow? h₃).skipGap.path? h₄).skipGap
    refine ⟨(name?_eq_some h₂).1, (path?_eq_some h₄).1, ⟨_, cs₅, hcs₄.chars, fun c hc => ?_, h₅⟩⟩
    simp [isTargetChar, atEnd_iff.1 hend c hc]
  · cases heq

/-- A model name is what stands before the next quote of its kind. -/
theorem modelName?_eq_some {model : String} {r : List Char} (h : modelName? cs = some (model, r)) :
    model.toList ≠ [] ∧ ∃ q rest, cs = q :: rest ∧ model.toList = rest.takeWhile (· != q) := by
  unfold modelName? at h
  split at h
  · next q rest =>
    split at h
    · split at h
      · next htake _ =>
        cases h
        rw [String.toList_ofList]
        exact ⟨List.cons_ne_nil _ _, q, rest, rfl, htake.symm⟩
      · cases h
    · cases h
  · cases h

theorem isRead_of_loadModel? (hcs : IsLineEnd fits cs) (h : loadModel? cs = some s) :
    s.IsRead fits := by
  simp only [loadModel?, Option.bind_eq_bind, Option.bind_eq_some_iff] at h
  obtain ⟨cs₁, h₁, ⟨model, cs₂⟩, h₂, target, h₃, heq⟩ := h
  cases heq
  obtain ⟨hne, q, rest, rfl, hmodel⟩ := modelName?_eq_some h₂
  refine ⟨hne, fun c hc => ?_, ?_⟩
  · rw [hmodel] at hc
    exact (hcs.gap? h₁).chars c (List.mem_cons_of_mem q (List.takeWhile_subset _ hc))
  · cases target with
    | none => exact (by decide : IsName "model".toList)
    | some target => exact (optionalTarget?_eq_some h₃).1 target rfl

theorem isRead_of_train? (hcs : IsLineEnd fits cs) (h : train? cs = some s) : s.IsRead fits := by
  simp only [train?, Option.bind_eq_bind, Option.bind_eq_some_iff] at h
  obtain ⟨cs₁, h₁, ⟨model, cs₂⟩, h₂, cs₃, h₃, cs₄, h₄, cs₅, h₅, data, h₆, heq⟩ := h
  cases heq
  have hcs₅ := ((((hcs.gap? h₁).name? h₂).gap? h₃).word? h₄).gap? h₅
  exact ⟨(name?_eq_some h₂).1, hcs₅.rest? h₆⟩

theorem isRead_of_ofKeyword? (hcs : IsLineEnd fits cs) {k : Keyword}
    (h : ofKeyword? k cs = some s) : s.IsRead fits := by
  cases k with
  | set => exact isRead_of_assign? hcs h
  | importModule => exact isRead_of_importModule? h
  | key =>
    obtain ⟨value, hvalue, rfl⟩ := Option.map_eq_some_iff.1 h
    exact hcs.skipGap.rest? hvalue
  | forEach => exact isRead_of_forEach? hcs h
  | forRange => exact isRead_of_forRange? hcs h
  | whileLoop =>
    obtain ⟨cond, hcond, rfl⟩ := condition?_eq_some hcs h
    exact hcond
  | ifThen =>
    obtain ⟨cond, hcond, rfl⟩ := condition?_eq_some hcs h
    exact hcond
  | returnValue | print =>
    cases h
    exact isOperand_operandText hcs.skipGap.chars
  | list | dict | append | remove =>
    obtain ⟨name, expr, hname, hexpr, rfl⟩ := named?_eq_some hcs h
    exact ⟨hname, hexpr⟩
  | get | predict =>
    obtain ⟨r, hr, hmapped⟩ := Option.bind_eq_some_iff.1 h
    obtain ⟨expr, target, hexpr, htarget, rfl⟩ := mapped?_eq_some (hcs.gap? hr) hmapped
    exact ⟨hexpr, htarget⟩
  | sort => exact isRead_of_sort? h
  | filter | map | reduce =>
    obtain ⟨source, expr, target, hsource, hexpr, htarget, rfl⟩ := transform?_eq_some hcs h
    exact ⟨hsource, hexpr, htarget⟩
  | catchFault => exact isRead_of_catchFault? h
  | call => exact isRead_of_call? hcs h
  | create => exact isRead_of_create? hcs h
  | loadModel => exact isRead_of_loadModel? hcs h
  | train => exact isRead_of_train? hcs h
  | endIf | orElse | endForEach | endFor | endWhile | breakLoop | continueLoop | tryBlock
  | endTry =>
    rw [eq_of_marker h]
    trivial

/-- Every statement that is read from the content of a line has operands as `IsRead` says. -/
theorem isRead_of_parse {content : List Char} {n : Nat} (hcontent : IsOperand fits content)
    (hne : content ≠ []) (h : Statement.parse (String.ofList content) n = .ok s) :
    s.IsRead fits := by
  rw [Statement.parse, String.toList_ofList] at h
  split at h
  · next hraw =>
    cases h
    refine ⟨?_, ?_⟩
    · rw [IsGiven, String.toList_ofList]
      exact ⟨hcontent, hne⟩
    · rw [String.toList_ofList]
      exact hraw
  · next k rest hkeyword =>
    have hsplit := Keyword.classify?_eq_some hkeyword
    have hrest : IsLineEnd fits rest := by
      have hline : IsLineEnd fits content :=
        ⟨hcontent.chars, fun hne => solid_of_trim hcontent.trimmed hne⟩
      exact hline.of_suffix ⟨k.text.toList, hsplit.symm⟩
    split at h
    · next hread =>
      cases h
      exact isRead_of_ofKeyword? hrest hread
    · cases h

end Statement

end StepScript
