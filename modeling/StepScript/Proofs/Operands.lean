import Mathlib.Data.List.TakeWhile
import StepScript.Statement.Parser

/-!
# Operands of a line

What the readers of a line make of a text that is put together from parts: a reader gives back the
part that was put in front, whatever follows, as long as the follower cannot be taken for more of
the part. Names and paths stop at the first character that is none of theirs; free text stops at
the first follower, so it must hold none itself.
-/

set_option autoImplicit false

namespace StepScript

namespace Text

/-! ## Runs of characters -/

section

variable {p : Char → Bool} {cs r : List Char}

/-- A run of characters goes as far as the first character that does not belong to it. -/
theorem takeWhile_run (hcs : ∀ c ∈ cs, p c = true) (hr : ∀ c ∈ r.head?, p c = false) :
    (cs ++ r).takeWhile p = cs := by
  rw [List.takeWhile_append_of_pos hcs]
  cases r with
  | nil => simp
  | cons c r => simp [hr c rfl]

theorem dropWhile_run (hcs : ∀ c ∈ cs, p c = true) (hr : ∀ c ∈ r.head?, p c = false) :
    (cs ++ r).dropWhile p = r := by
  rw [List.dropWhile_append_of_pos hcs]
  cases r with
  | nil => rfl
  | cons c r => simp [hr c rfl]

end

/-! ## Trimmed text -/

theorem isBlank_of_isNameChar {c : Char} (h : isNameChar c = true) : isBlank c = false := by
  simp only [isNameChar, isNameStart, isDigit, Bool.or_eq_true, Bool.and_eq_true,
    decide_eq_true_eq, beq_iff_eq, Char.le_def, UInt32.le_iff_toNat_le] at h
  have hcode : (48 ≤ c.toNat ∧ c.toNat ≤ 57) ∨ (65 ≤ c.toNat ∧ c.toNat ≤ 122) := by
    rcases h with ((h | h) | rfl) | h
    · exact Or.inr ⟨Nat.le_trans (by decide) h.1, h.2⟩
    · exact Or.inr ⟨h.1, Nat.le_trans h.2 (by decide)⟩
    · decide
    · exact Or.inl h
  simp only [isBlank, Bool.or_eq_false_iff, Bool.and_eq_false_iff, decide_eq_false_iff_not,
    beq_eq_false_iff_ne]
  omega

theorem isGap_of_isBlank {c : Char} (h : isBlank c = false) : isGap c = false := by
  cases hgap : isGap c with
  | false => rfl
  | true => rw [isBlank_of_isGap hgap] at h; exact h

/-- A text is as long as it is blanks, its trimmed text and blanks again. -/
theorem exists_trim (cs : List Char) :
    ∃ before after, (∀ c ∈ before, isBlank c = true) ∧ (∀ c ∈ after, isBlank c = true) ∧
      cs = before ++ trim cs ++ after := by
  refine ⟨cs.takeWhile isBlank, ((trimStart cs).reverse.takeWhile isBlank).reverse, ?_, ?_, ?_⟩
  · intro c hc
    exact List.mem_takeWhile_imp hc
  · intro c hc
    exact List.mem_takeWhile_imp (List.mem_reverse.1 hc)
  · have hend : trim cs ++ ((trimStart cs).reverse.takeWhile isBlank).reverse = trimStart cs := by
      rw [trim, trimEnd, ← List.reverse_append, List.takeWhile_append_dropWhile,
        List.reverse_reverse]
    rw [List.append_assoc, hend]
    exact List.takeWhile_append_dropWhile.symm

theorem trimStart_append {before : List Char} (hbefore : ∀ c ∈ before, isBlank c = true)
    (cs : List Char) : trimStart (before ++ cs) = trimStart cs :=
  List.dropWhile_append_of_pos hbefore

theorem trim_append_left {before : List Char} (hbefore : ∀ c ∈ before, isBlank c = true)
    (cs : List Char) : trim (before ++ cs) = trim cs := by
  rw [trim, trimStart_append hbefore, trim]

theorem trimStart_eq_self_iff {cs : List Char} :
    trimStart cs = cs ↔ ∀ c ∈ cs.head?, isBlank c = false := by
  cases cs with
  | nil => simp [trimStart]
  | cons c cs =>
    constructor
    · intro h
      have hc : isBlank c ≠ true := List.dropWhile_eq_self_iff.1 h (Nat.zero_lt_succ _)
      simpa using hc
    · intro h
      simp [trimStart, h c rfl]

theorem trimEnd_eq_self_iff {cs : List Char} :
    trimEnd cs = cs ↔ ∀ c ∈ cs.getLast?, isBlank c = false := by
  rw [← List.head?_reverse, ← trimStart_eq_self_iff, trimEnd, List.reverse_eq_iff, trimStart]

theorem trim_eq_self_iff {cs : List Char} :
    trim cs = cs ↔ (∀ c ∈ cs.head?, isBlank c = false) ∧ ∀ c ∈ cs.getLast?, isBlank c = false := by
  rw [← trimStart_eq_self_iff, ← trimEnd_eq_self_iff]
  constructor
  · intro h
    have hstart : trimStart cs = cs := by
      have hsuffix : trimStart cs <:+ cs := List.dropWhile_suffix isBlank
      have hle : (trim cs).length ≤ (trimStart cs).length := (trimEnd_isPrefixOf _).length_le
      rw [h] at hle
      exact hsuffix.eq_of_length_le hle
    rw [trim, hstart] at h
    exact ⟨hstart, h⟩
  · rintro ⟨hstart, hend⟩
    rw [trim, hstart, hend]

theorem mem_of_mem_trim {cs : List Char} {c : Char} (h : c ∈ trim cs) : c ∈ cs := by
  obtain ⟨before, after, -, -, hcs⟩ := exists_trim cs
  rw [hcs]
  simp [h]

end Text

namespace Line

/-- The text ends with a character that is not blank. -/
def Solid (cs : List Char) : Prop :=
  ∃ front c, cs = front ++ [c] ∧ Text.isBlank c = false

theorem Solid.ne_nil {cs : List Char} (h : Solid cs) : cs ≠ [] := by
  obtain ⟨front, c, rfl, -⟩ := h
  simp

theorem Solid.of_suffix {cs u : List Char} (h : Solid cs) (hu : u <:+ cs) (hne : u ≠ []) :
    Solid u := by
  obtain ⟨front, rfl⟩ := hu
  obtain ⟨pre, c, heq, hc⟩ := h
  refine ⟨u.dropLast, u.getLast hne, (List.dropLast_concat_getLast hne).symm, ?_⟩
  have hlast : (front ++ u).getLast? = (pre ++ [c]).getLast? := by rw [heq]
  rw [List.getLast?_append, List.getLast?_eq_some_getLast hne, List.getLast?_concat] at hlast
  rw [Option.some.inj hlast]
  exact hc

theorem Solid.append_left {cs : List Char} (h : Solid cs) (front : List Char) :
    Solid (front ++ cs) := by
  obtain ⟨pre, c, rfl, hc⟩ := h
  exact ⟨front ++ pre, c, (List.append_assoc ..).symm, hc⟩

theorem solid_append (front : String) {x : String} (hx : Solid x.toList) :
    Solid (front ++ x).toList := by
  rw [String.toList_append]
  exact hx.append_left _

theorem solid_of_trim {cs : List Char} (hcs : Text.trim cs = cs) (hne : cs ≠ []) : Solid cs := by
  refine ⟨cs.dropLast, cs.getLast hne, (List.dropLast_concat_getLast hne).symm, ?_⟩
  exact (Text.trim_eq_self_iff.1 hcs).2 _ (List.getLast?_eq_some_getLast hne)

theorem Solid.trim {cs : List Char} (h : Solid cs)
    (hhead : ∀ c ∈ cs.head?, Text.isBlank c = false) : Text.trim cs = cs := by
  obtain ⟨front, c, rfl, hc⟩ := h
  refine Text.trim_eq_self_iff.2 ⟨hhead, fun d hd => ?_⟩
  rw [List.getLast?_concat] at hd
  cases hd
  exact hc

theorem Solid.exists_not_gap {cs : List Char} (h : Solid cs) : ∃ c ∈ cs, Text.isGap c = false := by
  obtain ⟨front, c, rfl, hc⟩ := h
  exact ⟨c, by simp, Text.isGap_of_isBlank hc⟩

/-! ## Gaps -/

@[simp] theorem gap?_space (cs : List Char) : gap? (' ' :: cs) = some (skipGap cs) :=
  rfl

theorem skipGap_nil : skipGap [] = [] :=
  rfl

theorem skipGap_cons_of_not_gap {c : Char} (hc : Text.isGap c = false) (cs : List Char) :
    skipGap (c :: cs) = c :: cs := by
  simp [skipGap, hc]

@[simp] theorem skipGap_space (cs : List Char) : skipGap (' ' :: cs) = skipGap cs :=
  rfl

theorem skipGap_append {cs : List Char} (h : ∃ c ∈ cs, Text.isGap c = false) (r : List Char) :
    skipGap (cs ++ r) = skipGap cs ++ r := by
  induction cs with
  | nil => simp at h
  | cons c cs ih =>
    by_cases hc : Text.isGap c = true
    · have hrest : ∃ d ∈ cs, Text.isGap d = false := by
        obtain ⟨d, hd, hgap⟩ := h
        rcases List.mem_cons.1 hd with rfl | hd
        · rw [hc] at hgap
          cases hgap
        · exact ⟨d, hd, hgap⟩
      simpa [skipGap, hc] using ih hrest
    · simp [skipGap, hc]

theorem suffix_of_skipGap (cs : List Char) : skipGap cs <:+ cs :=
  List.dropWhile_suffix _

theorem gap?_eq_some {cs r : List Char} (h : gap? cs = some r) :
    ∃ c, Text.isGap c = true ∧ ∃ rest, cs = c :: rest ∧ r = skipGap rest := by
  cases cs with
  | nil => cases h
  | cons c rest =>
    rw [gap?] at h
    split at h
    · next hc => exact ⟨c, hc, rest, rfl, (Option.some.inj h).symm⟩
    · cases h

/-- What stands before the text behind a gap ends with a gap. -/
theorem exists_gap_of_gap? {cs r : List Char} (h : gap? cs = some r) :
    ∃ front c, Text.isGap c = true ∧ cs = front ++ c :: r := by
  obtain ⟨c, hc, rest, rfl, rfl⟩ := gap?_eq_some h
  have hne : c :: rest.takeWhile Text.isGap ≠ [] := List.cons_ne_nil _ _
  have hgap : ∀ d ∈ c :: rest.takeWhile Text.isGap, Text.isGap d = true := by
    intro d hd
    rcases List.mem_cons.1 hd with rfl | hd
    · exact hc
    · exact List.mem_takeWhile_imp hd
  refine ⟨(c :: rest.takeWhile Text.isGap).dropLast, _, hgap _ (List.getLast_mem hne), ?_⟩
  rw [List.append_cons, List.dropLast_concat_getLast, List.cons_append, skipGap,
    List.takeWhile_append_dropWhile]

theorem suffix_of_gap? {cs r : List Char} (h : gap? cs = some r) : r <:+ cs := by
  obtain ⟨c, -, rest, rfl, rfl⟩ := gap?_eq_some h
  exact (suffix_of_skipGap rest).trans (List.suffix_cons c rest)

/-- A gap within a text does not depend on what follows. -/
theorem gap?_append {cs : List Char} (h : Solid cs) (r : List Char) :
    gap? (cs ++ r) = (gap? cs).map (· ++ r) := by
  cases cs with
  | nil => exact absurd rfl h.ne_nil
  | cons c cs =>
    by_cases hc : Text.isGap c = true
    · have hne : cs ≠ [] := by
        rintro rfl
        obtain ⟨d, hd, hgap⟩ := h.exists_not_gap
        rw [List.mem_singleton.1 hd, hc] at hgap
        cases hgap
      simp [gap?, hc, skipGap_append (h.of_suffix (List.suffix_cons c cs) hne).exists_not_gap]
    · simp [gap?, hc]

theorem solid_of_gap? {cs r : List Char} (h : Solid cs) (hr : gap? cs = some r) : Solid r := by
  refine h.of_suffix (suffix_of_gap? hr) ?_
  rintro rfl
  obtain ⟨c, hc, rest, rfl, hrest⟩ := gap?_eq_some hr
  obtain ⟨d, hd, hgap⟩ := h.exists_not_gap
  rcases List.mem_cons.1 hd with rfl | hd
  · rw [hc] at hgap
    cases hgap
  · rw [List.dropWhile_eq_nil_iff.1 hrest.symm d hd] at hgap
    cases hgap

/-! ## Names and paths -/

/-- A name: a letter or an underscore, then letters, digits and underscores. -/
def IsName (cs : List Char) : Prop :=
  ∃ c rest, cs = c :: rest ∧ Text.isNameStart c = true ∧ ∀ d ∈ rest, Text.isNameChar d = true

instance (cs : List Char) : Decidable (IsName cs) :=
  match cs with
  | [] => isFalse nofun
  | c :: rest =>
    decidable_of_iff (Text.isNameStart c = true ∧ rest.all Text.isNameChar = true) <| by
      simp only [IsName, List.cons.injEq, List.all_eq_true]
      exact ⟨fun ⟨hc, hrest⟩ => ⟨c, rest, ⟨rfl, rfl⟩, hc, hrest⟩,
        fun ⟨_, _, ⟨hc, hrest⟩, h⟩ => hc ▸ hrest ▸ h⟩

theorem isNameChar_of_isNameStart {c : Char} (h : Text.isNameStart c = true) :
    Text.isNameChar c = true := by
  simp [Text.isNameChar, h]

theorem IsName.isNameChar {cs : List Char} (h : IsName cs) :
    ∀ c ∈ cs, Text.isNameChar c = true := by
  obtain ⟨c, rest, rfl, hc, hrest⟩ := h
  intro d hd
  rcases List.mem_cons.1 hd with rfl | hd
  · exact isNameChar_of_isNameStart hc
  · exact hrest d hd

/-- A name is read back from in front of what is no part of it. -/
theorem name?_append {n : String} (hn : IsName n.toList) {r : List Char}
    (hr : ∀ c ∈ r.head?, Text.isNameChar c = false) : name? (n.toList ++ r) = some (n, r) := by
  obtain ⟨c, rest, hcs, hc, hrest⟩ := hn
  have hname : String.ofList (c :: rest) = n := by rw [← hcs, String.ofList_toList]
  rw [hcs, List.cons_append, name?, if_pos hc, Text.takeWhile_run hrest hr,
    Text.dropWhile_run hrest hr, hname]

theorem name?_eq_some {cs r : List Char} {n : String} (h : name? cs = some (n, r)) :
    IsName n.toList ∧ cs = n.toList ++ r := by
  cases cs with
  | nil => cases h
  | cons c cs =>
    rw [name?] at h
    split at h
    · next hc =>
      cases h
      rw [String.toList_ofList]
      refine ⟨⟨c, _, rfl, hc, fun d hd => List.mem_takeWhile_imp hd⟩, ?_⟩
      rw [List.cons_append, List.takeWhile_append_dropWhile]
    · cases h

/-- Names with points between them. -/
def IsPath (cs : List Char) : Prop :=
  ∃ c rest, cs = c :: rest ∧ Text.isNameStart c = true ∧ pathChars rest = (rest, [])

/-- The character goes on a path, given the characters after it. -/
private def goesOn (c : Char) (cs : List Char) : Bool :=
  Text.isNameChar c || (c == '.' && (cs.head?.map Text.isNameStart).getD false)

private theorem pathChars_cons (c : Char) (cs : List Char) :
    pathChars (c :: cs) =
      if goesOn c cs then (c :: (pathChars cs).1, (pathChars cs).2) else ([], c :: cs) :=
  rfl

theorem pathChars_append (cs : List Char) : (pathChars cs).1 ++ (pathChars cs).2 = cs := by
  induction cs with
  | nil => rfl
  | cons c cs ih =>
    rw [pathChars_cons]
    split
    · simp [ih]
    · rfl

/-- What was read as the rest of a path is all of it. -/
theorem pathChars_fst (cs : List Char) : pathChars (pathChars cs).1 = ((pathChars cs).1, []) := by
  induction cs with
  | nil => rfl
  | cons c cs ih =>
    rw [pathChars_cons]
    split
    · next hc =>
      have hc' : goesOn c (pathChars cs).1 = true := by
        rw [goesOn, Bool.or_eq_true] at hc ⊢
        refine hc.imp_right fun hpoint => ?_
        -- a point is followed by the start of a name, which is read as well
        cases cs with
        | nil => simp at hpoint
        | cons d cs =>
          obtain ⟨hpoint, hd⟩ := Bool.and_eq_true_iff.1 hpoint
          have hd : Text.isNameStart d = true := hd
          have hgo : goesOn d cs = true := by simp [goesOn, isNameChar_of_isNameStart hd]
          simp [pathChars_cons, hgo, hpoint, hd]
      rw [pathChars_cons, if_pos hc', ih]
    · rfl

theorem pathChars_append_of_end {cs r : List Char} (hcs : pathChars cs = (cs, []))
    (hr : ∀ c ∈ r.head?, Text.isNameChar c = false ∧ c ≠ '.') : pathChars (cs ++ r) = (cs, r) := by
  induction cs with
  | nil =>
    cases r with
    | nil => rfl
    | cons c r => simp [pathChars, hr c rfl]
  | cons c cs ih =>
    rw [pathChars_cons] at hcs
    split at hcs
    · next hc =>
      have hrest : pathChars cs = (cs, []) := by
        refine Prod.ext (List.cons.inj (Prod.mk.inj hcs).1).2 (Prod.mk.inj hcs).2
      have hc' : goesOn c (cs ++ r) = true := by
        cases cs with
        | nil =>
          rw [goesOn, Bool.or_eq_true] at hc ⊢
          exact hc.imp_right fun hpoint => by simp at hpoint
        | cons d cs => exact hc
      rw [List.cons_append, pathChars_cons, if_pos hc', ih hrest]
    · cases hcs

/-- A path is read back from in front of what is no part of it. -/
theorem path?_append {p : String} (hp : IsPath p.toList) {r : List Char}
    (hr : ∀ c ∈ r.head?, Text.isNameChar c = false ∧ c ≠ '.') :
    path? (p.toList ++ r) = some (p, r) := by
  obtain ⟨c, rest, hcs, hc, hrest⟩ := hp
  have hpath : String.ofList (c :: rest) = p := by rw [← hcs, String.ofList_toList]
  rw [hcs, List.cons_append, path?, if_pos hc, pathChars_append_of_end hrest hr]
  exact congrArg (fun p => some (p, r)) hpath

theorem path?_eq_some {cs r : List Char} {p : String} (h : path? cs = some (p, r)) :
    IsPath p.toList ∧ cs = p.toList ++ r := by
  cases cs with
  | nil => cases h
  | cons c cs =>
    rw [path?] at h
    split at h
    · next hc =>
      cases h
      rw [String.toList_ofList]
      refine ⟨⟨c, _, rfl, hc, pathChars_fst cs⟩, ?_⟩
      rw [List.cons_append, pathChars_append]
    · cases h

/-! ## Free text -/

/-- The text of an operand: it has no blanks at its ends, and its characters are of one sort, such
    as those that stand in one line. -/
structure IsOperand (fits : Char → Prop) (cs : List Char) : Prop where
  trimmed : Text.trim cs = cs
  chars : ∀ c ∈ cs, fits c

variable {fits : Char → Prop}

theorem operandText_eq_self {x : String} (hx : Text.trim x.toList = x.toList) :
    operandText x.toList = x := by
  rw [operandText, hx, String.ofList_toList]

theorem isOperand_operandText {cs : List Char} (h : ∀ c ∈ cs, fits c) :
    IsOperand fits (operandText cs).toList := by
  rw [operandText, String.toList_ofList]
  exact ⟨Text.trim_trim cs, fun c hc => h c (Text.mem_of_mem_trim hc)⟩

theorem IsOperand.head {cs : List Char} (h : IsOperand fits cs) (hne : cs ≠ []) (r : List Char) :
    ∀ c ∈ (cs ++ r).head?, Text.isBlank c = false := by
  cases cs with
  | nil => exact absurd rfl hne
  | cons c cs => exact (Text.trim_eq_self_iff.1 h.trimmed).1

theorem IsOperand.solid {cs u : List Char} (h : IsOperand fits cs) (hu : u <:+ cs)
    (hne : u ≠ []) : Solid u := by
  have hcs : cs ≠ [] := by
    rintro rfl
    exact hne (List.suffix_nil.1 hu)
  exact (solid_of_trim h.trimmed hcs).of_suffix hu hne

theorem skipGap_of_head {cs : List Char} (h : ∀ c ∈ cs.head?, Text.isBlank c = false) :
    skipGap cs = cs := by
  cases cs with
  | nil => rfl
  | cons c cs => exact skipGap_cons_of_not_gap (Text.isGap_of_isBlank (h c rfl)) cs

/-- A text up to its follower, in which nothing can be taken for the follower. -/
theorem takeUntil_of_stop {stop : List Char → Bool} {front rest : List Char}
    (hfront : ∀ u, u ≠ [] → u <:+ front → stop (u ++ rest) = false)
    (hrest : rest = [] ∨ stop rest = true) : takeUntil stop (front ++ rest) = (front, rest) := by
  induction front with
  | nil =>
    cases rest with
    | nil => rfl
    | cons c rest => simp [takeUntil, hrest.resolve_left (List.cons_ne_nil c rest)]
  | cons c front ih =>
    have hstop : stop (c :: (front ++ rest)) = false :=
      hfront (c :: front) (List.cons_ne_nil c front) (List.suffix_refl _)
    have htail := ih fun u hne hu => hfront u hne (hu.trans (List.suffix_cons c front))
    simp [takeUntil, hstop, htail]

/-- Where a cut went on, its follower did not stand. -/
theorem not_stop_of_takeUntil (stop : List Char → Bool) (cs u : List Char) (hne : u ≠ [])
    (hu : u <:+ (takeUntil stop cs).1) : stop (u ++ (takeUntil stop cs).2) = false := by
  induction cs with
  | nil => exact absurd (List.suffix_nil.1 hu) hne
  | cons c cs ih =>
    rw [takeUntil] at hu ⊢
    by_cases hstop : stop (c :: cs) = true
    · rw [if_pos hstop] at hu
      exact absurd (List.suffix_nil.1 hu) hne
    · rw [if_neg hstop] at hu ⊢
      rcases List.suffix_cons_iff.1 hu with rfl | hu
      · have happend := takeUntil_append stop cs
        simpa [happend] using hstop
      · exact ih hu

theorem until?_append {stop : List Char → Bool} {x : String} {rest : List Char}
    (hx : IsOperand fits x.toList) (hne : x.toList ≠ [])
    (hfront : ∀ u, u ≠ [] → u <:+ x.toList → stop (u ++ rest) = false)
    (hrest : rest = [] ∨ stop rest = true) :
    until? stop (x.toList ++ rest) = some (x, rest) := by
  simp [until?, takeUntil_of_stop hfront hrest, operandText_eq_self hx.trimmed, hne]

/-- What an operand was read from. -/
theorem until?_eq_some {stop : List Char → Bool} {cs rest : List Char} {x : String}
    (h : until? stop cs = some (x, rest)) :
    ∃ before after, (∀ c ∈ before ++ after, Text.isBlank c = true) ∧
      Text.trim x.toList = x.toList ∧ cs = before ++ x.toList ++ after ++ rest ∧
      before ++ x.toList ++ after ≠ [] ∧ (rest = [] ∨ stop rest = true) ∧
      ∀ u, u ≠ [] → u <:+ x.toList → stop (u ++ (after ++ rest)) = false := by
  have hcs := takeUntil_append stop cs
  have hstop := not_stop_of_takeUntil stop cs
  have hrest : (takeUntil stop cs).2 ≠ [] → stop (takeUntil stop cs).2 = true := stop_of_takeUntil
  rw [until?] at h
  generalize takeUntil stop cs = cut at h hcs hstop hrest
  obtain ⟨taken, rest'⟩ := cut
  dsimp only at h hcs hstop hrest
  split at h
  · cases h
  · next htaken =>
    obtain ⟨rfl, rfl⟩ := Prod.mk.inj (Option.some.inj h)
    obtain ⟨before, after, hbefore, hafter, htrim⟩ := Text.exists_trim taken
    have hx : (operandText taken).toList = Text.trim taken := String.toList_ofList
    rw [hx]
    refine ⟨before, after, ?_, Text.trim_trim taken, ?_, ?_, ?_, ?_⟩
    · intro c hc
      exact (List.mem_append.1 hc).elim (hbefore c) (hafter c)
    · rw [← htrim, hcs]
    · rw [← htrim]
      simpa using htaken
    · exact (Classical.em _).imp_right hrest
    · intro u hne hu
      have hsuffix : u ++ after <:+ taken := by
        obtain ⟨front, hfront⟩ := hu
        refine ⟨before ++ front, ?_⟩
        rw [htrim, ← hfront]
        simp
      simpa using hstop (u ++ after) (by simp [hne]) hsuffix

theorem isOperand_of_until? {stop : List Char → Bool} {cs rest : List Char} {x : String}
    (h : until? stop cs = some (x, rest)) (hcs : ∀ c ∈ cs, fits c) : IsOperand fits x.toList := by
  obtain ⟨before, after, -, htrim, rfl, -⟩ := until?_eq_some h
  exact ⟨htrim, fun c hc => hcs c (by simp [hc])⟩

/-- What starts with no blank is not read as an empty operand. -/
theorem ne_empty_of_until? {stop : List Char → Bool} {cs rest : List Char} {x : String}
    (h : until? stop cs = some (x, rest)) (hcs : ∀ c ∈ cs.head?, Text.isBlank c = false) :
    x ≠ "" := by
  rintro rfl
  obtain ⟨before, after, hblank, -, rfl, hne, -⟩ := until?_eq_some h
  obtain ⟨c, blanks, hcons⟩ := List.exists_cons_of_ne_nil hne
  have heq : before ++ after = c :: blanks := by simpa using hcons
  have hc : Text.isBlank c = true := hblank c (by simp [heq])
  rw [hcs c (by simp [heq])] at hc
  cases hc

end Line

end StepScript
