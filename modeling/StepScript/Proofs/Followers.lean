import StepScript.Proofs.Operands

/-!
# Followers of operands

Free text is read up to the first place where its follower stands. For each follower: it is found
behind an operand that is set down with one space, and nothing within the operand is taken for it.
An arrow to the left and the word `to` can stand in the operand itself, so such an operand must be
free of them; the word that closes a line and the arrow to a target are told apart by the end of
the line.
-/

set_option autoImplicit false

namespace StepScript

namespace Line

variable {fits : Char → Prop} {u : List Char}

/-! ## Arrows to the left -/

theorem leftArrow?_eq_some_iff {cs r : List Char} :
    leftArrow? cs = some r ↔ cs = '←' :: r ∨ cs = '<' :: '-' :: r := by
  constructor
  · intro h
    unfold leftArrow? at h
    split at h
    · exact Or.inl (by rw [Option.some.inj h])
    · exact Or.inr (by rw [Option.some.inj h])
    · cases h
  · rintro (rfl | rfl)
    · rfl
    · rfl

theorem leftArrow?_append {v w : List Char} (h : leftArrow? v = some w) (r : List Char) :
    leftArrow? (v ++ r) = some (w ++ r) := by
  rcases leftArrow?_eq_some_iff.1 h with rfl | rfl
  · rfl
  · rfl

theorem leftArrow?_space {v : List Char} (hne : v ≠ []) (h : leftArrow? v = none)
    (r : List Char) : leftArrow? (v ++ ' ' :: r) = none := by
  rw [Option.eq_none_iff_forall_ne_some]
  intro w hw
  match v with
  | [] => exact hne rfl
  | [c] =>
    rcases leftArrow?_eq_some_iff.1 hw with heq | heq
    · cases heq
      cases h
    · cases heq
  | c :: d :: v =>
    rcases leftArrow?_eq_some_iff.1 hw with heq | heq
    · cases heq
      cases h
    · cases heq
      cases h

theorem beforeLeftArrow_append (hu : Solid u) (h : beforeLeftArrow u = true) (r : List Char) :
    beforeLeftArrow (u ++ r) = true := by
  rw [beforeLeftArrow, gap?_append hu]
  rw [beforeLeftArrow] at h
  cases hv : gap? u with
  | none =>
    rw [hv] at h
    cases h
  | some v =>
    rw [hv] at h
    obtain ⟨w, hw⟩ := Option.isSome_iff_exists.1 h
    show (leftArrow? (v ++ r)).isSome = true
    rw [leftArrow?_append hw r]
    rfl

theorem beforeLeftArrow_space (hu : Solid u) (h : beforeLeftArrow u = false) (r : List Char) :
    beforeLeftArrow (u ++ ' ' :: r) = false := by
  rw [beforeLeftArrow, gap?_append hu]
  rw [beforeLeftArrow] at h
  cases hv : gap? u with
  | none => rfl
  | some v =>
    rw [hv] at h
    show (leftArrow? (v ++ ' ' :: r)).isSome = false
    rw [leftArrow?_space (solid_of_gap? hu hv).ne_nil
      (Option.not_isSome_iff_eq_none.1 (by simpa using h))]
    rfl

/-! ## The word `to` -/

/-- The text ends with the word `to` behind a gap. -/
def endsInTo (cs : List Char) : Bool :=
  match cs.reverse with
  | 'o' :: 't' :: c :: _ => Text.isGap c
  | _ => false

theorem endsInTo_iff {cs : List Char} :
    endsInTo cs = true ↔ ∃ front c, Text.isGap c = true ∧ cs = front ++ [c, 't', 'o'] := by
  constructor
  · intro h
    unfold endsInTo at h
    split at h
    · next c front heq =>
      refine ⟨front.reverse, c, h, ?_⟩
      rw [← List.reverse_reverse cs, heq]
      simp
    · cases h
  · rintro ⟨front, c, hc, rfl⟩
    simp [endsInTo, hc]

/-- The word and a gap come next. -/
private def startsWithTo (cs : List Char) : Bool :=
  ((word? "to" cs).bind gap?).isSome

private theorem beforeTo_eq (cs : List Char) :
    beforeTo cs = ((gap? cs).map startsWithTo).getD false := by
  rw [beforeTo]
  cases gap? cs with
  | none => rfl
  | some v => rfl

private theorem startsWithTo_iff {cs : List Char} :
    startsWithTo cs = true ↔ ∃ c rest, Text.isGap c = true ∧ cs = 't' :: 'o' :: c :: rest := by
  constructor
  · intro h
    obtain ⟨r, hr⟩ := Option.isSome_iff_exists.1 h
    obtain ⟨w, hw, hgap⟩ := Option.bind_eq_some_iff.1 hr
    obtain ⟨c, hc, rest, rfl, -⟩ := gap?_eq_some hgap
    exact ⟨c, rest, hc, Text.after?_eq_some_iff.1 hw⟩
  · rintro ⟨c, rest, hc, rfl⟩
    have hword : word? "to" ('t' :: 'o' :: c :: rest) = some (c :: rest) := Text.after?_append _ _
    simp [startsWithTo, hword, gap?, hc]

theorem beforeTo_append (hu : Solid u) (h : beforeTo u = true) (r : List Char) :
    beforeTo (u ++ r) = true := by
  rw [beforeTo_eq] at h ⊢
  rw [gap?_append hu]
  cases hv : gap? u with
  | none =>
    rw [hv] at h
    cases h
  | some v =>
    rw [hv] at h
    obtain ⟨c, rest, hc, rfl⟩ := startsWithTo_iff.1 h
    exact startsWithTo_iff.2 ⟨c, rest ++ r, hc, rfl⟩

/-- Behind a text that does not end in the word, the word is not taken for a part of the text. -/
theorem beforeTo_space (hu : Solid u) (h : beforeTo u = false) (hend : endsInTo u = false)
    (r : List Char) : beforeTo (u ++ ' ' :: r) = false := by
  rw [beforeTo_eq] at h ⊢
  rw [gap?_append hu]
  cases hv : gap? u with
  | none => rfl
  | some v =>
    rw [hv] at h
    have hstarts : startsWithTo v = false := h
    show startsWithTo (v ++ ' ' :: r) = false
    rw [← Bool.not_eq_true, startsWithTo_iff]
    rintro ⟨c, rest, hc, heq⟩
    match v with
    | [] => cases heq
    | [_] => cases heq
    | [_, _] =>
      -- the word stands at the end of the text, behind the gap that was read
      cases heq
      obtain ⟨front, d, hd, rfl⟩ := exists_gap_of_gap? hv
      rw [endsInTo_iff.2 ⟨front, d, hd, rfl⟩] at hend
      cases hend
    | a :: b :: d :: v =>
      cases heq
      rw [startsWithTo_iff.2 ⟨c, v, hc, rfl⟩] at hstarts
      cases hstarts

/-! ## The word that closes a line -/

theorem atEnd_iff {cs : List Char} : atEnd cs = true ↔ ∀ c ∈ cs, Text.isGap c = true := by
  rw [atEnd, List.isEmpty_iff, skipGap, List.dropWhile_eq_nil_iff]

theorem beforeLast_eq_true {w : String} {cs : List Char} (h : beforeLast w cs = true) :
    ∃ v t, gap? cs = some v ∧ v = w.toList ++ t ∧ atEnd t = true := by
  unfold beforeLast at h
  split at h
  · next t ht =>
    obtain ⟨v, hv, hword⟩ := Option.bind_eq_some_iff.1 ht
    exact ⟨v, t, hv, Text.after?_eq_some_iff.1 hword, h⟩
  · cases h

/-- The last word of a line is not taken for a part of the text before it. -/
theorem beforeLast_space {w : String} (hw : Solid w.toList) (hu : Solid u) :
    beforeLast w (u ++ ' ' :: w.toList) = false := by
  rw [← Bool.not_eq_true]
  intro h
  obtain ⟨v, t, hv, heq, hend⟩ := beforeLast_eq_true h
  rw [gap?_append hu] at hv
  obtain ⟨front, -, rfl⟩ := Option.map_eq_some_iff.1 hv
  -- behind the word that was read there is more than a gap, as the line ends with the word
  have hne : t ≠ [] := by
    rintro rfl
    have hlength := congrArg List.length heq
    simp only [List.length_append, List.length_cons, List.length_nil] at hlength
    omega
  have hline : Solid (w.toList ++ t) := by
    rw [← heq, List.append_cons]
    exact hw.append_left _
  obtain ⟨c, hc, hgap⟩ := (hline.of_suffix (List.suffix_append _ t) hne).exists_not_gap
  rw [atEnd_iff.1 hend c hc] at hgap
  cases hgap

theorem beforeLast_self {w : String} (hw : ∀ c ∈ w.toList.head?, Text.isBlank c = false) :
    beforeLast w (' ' :: w.toList) = true := by
  have hword : word? w w.toList = some [] := Text.after?_eq_some_iff.2 (List.append_nil _).symm
  rw [beforeLast, gap?_space, skipGap_of_head hw, Option.bind_some, hword]
  rfl

/-! ## Targets -/

/-- The characters that the end of a line with a target is made of. -/
def isTargetChar (c : Char) : Bool :=
  Text.isGap c || Text.isNameChar c || c == '→' || c == '-' || c == '>'

theorem rightArrow?_eq_some_iff {cs r : List Char} :
    rightArrow? cs = some r ↔ cs = '→' :: r ∨ cs = '-' :: '>' :: r := by
  constructor
  · intro h
    unfold rightArrow? at h
    split at h
    · exact Or.inl (by rw [Option.some.inj h])
    · exact Or.inr (by rw [Option.some.inj h])
    · cases h
  · rintro (rfl | rfl)
    · rfl
    · rfl

/-- A target is an arrow and a name, with gaps around them. -/
theorem target?_eq_some {cs : List Char} {n : String} (h : target? cs = some n) :
    IsName n.toList ∧ ∃ r, rightArrow? (skipGap cs) = some r ∧
      ∀ c ∈ r, Text.isGap c = true ∨ Text.isNameChar c = true := by
  unfold target? at h
  split at h
  · next name rest hread =>
    obtain ⟨r, hr, hname⟩ := Option.bind_eq_some_iff.1 hread
    split at h
    · next hend =>
      cases h
      obtain ⟨hn, heq⟩ := name?_eq_some hname
      refine ⟨hn, r, hr, fun c hc => ?_⟩
      rw [← List.takeWhile_append_dropWhile (p := Text.isGap) (l := r)] at hc
      change c ∈ _ ++ skipGap r at hc
      rw [heq] at hc
      simp only [List.mem_append] at hc
      rcases hc with hc | hc | hc
      · exact Or.inl (List.mem_takeWhile_imp hc)
      · exact Or.inr (hn.isNameChar c hc)
      · exact Or.inl (atEnd_iff.1 hend c hc)
    · cases h
  · cases h

theorem IsName.head {n : List Char} (hn : IsName n) : ∀ c ∈ n.head?, Text.isBlank c = false := by
  obtain ⟨c, rest, rfl, hc, -⟩ := hn
  intro d hd
  cases hd
  exact Text.isBlank_of_isNameChar (isNameChar_of_isNameStart hc)

theorem name?_self {n : String} (hn : IsName n.toList) : name? n.toList = some (n, []) := by
  have hread := name?_append hn (r := []) (by simp)
  rwa [List.append_nil] at hread

theorem target?_arrow {n : String} (hn : IsName n.toList) :
    target? (' ' :: '→' :: ' ' :: n.toList) = some n := by
  have harrow : rightArrow? (skipGap (' ' :: '→' :: ' ' :: n.toList)) = some (' ' :: n.toList) :=
    rfl
  rw [target?, harrow, Option.bind_some, skipGap_space, skipGap_of_head hn.head, name?_self hn]
  rfl

/-- An arrow in front of the last one has no target: the line goes on behind its name. -/
theorem target?_of_arrow (hu : Solid u) (r : List Char) :
    target? (u ++ ' ' :: '→' :: r) = none := by
  rw [Option.eq_none_iff_forall_ne_some]
  intro n h
  obtain ⟨-, rest, harrow, hrest⟩ := target?_eq_some h
  have hne : skipGap u ≠ [] := by
    intro hnil
    obtain ⟨c, hc, hgap⟩ := hu.exists_not_gap
    rw [List.dropWhile_eq_nil_iff.1 hnil c hc] at hgap
    cases hgap
  rw [skipGap_append hu.exists_not_gap] at harrow
  have hmem : '→' ∈ rest := by
    rcases rightArrow?_eq_some_iff.1 harrow with heq | heq
    · match hv : skipGap u with
      | [] => exact absurd hv hne
      | c :: v =>
        rw [hv] at heq
        cases heq
        simp
    · match hv : skipGap u with
      | [] => exact absurd hv hne
      | [c] =>
        rw [hv] at heq
        cases heq
      | c :: d :: v =>
        rw [hv] at heq
        cases heq
        simp
  rcases hrest '→' hmem with hgap | hname
  · revert hgap
    decide
  · revert hname
    decide

theorem optionalTarget?_eq_some {cs : List Char} {r : Option String}
    (h : optionalTarget? cs = some r) :
    (∀ n ∈ r, IsName n.toList) ∧ ∀ c ∈ cs, isTargetChar c = true := by
  unfold optionalTarget? at h
  split at h
  · next n hn =>
    cases h
    obtain ⟨hname, rest, harrow, hrest⟩ := target?_eq_some hn
    refine ⟨fun m hm => Option.some.inj hm ▸ hname, fun c hc => ?_⟩
    have hchar : ∀ d ∈ rest, isTargetChar d = true := by
      intro d hd
      rcases hrest d hd with hgap | hname
      · simp [isTargetChar, hgap]
      · simp [isTargetChar, hname]
    rw [← List.takeWhile_append_dropWhile (p := Text.isGap) (l := cs)] at hc
    change c ∈ _ ++ skipGap cs at hc
    rcases List.mem_append.1 hc with hgap | hc
    · simp [isTargetChar, List.mem_takeWhile_imp hgap]
    · rcases rightArrow?_eq_some_iff.1 harrow with heq | heq
      · rw [heq] at hc
        rcases List.mem_cons.1 hc with rfl | hc
        · decide
        · exact hchar c hc
      · rw [heq] at hc
        rcases List.mem_cons.1 hc with rfl | hc
        · decide
        · rcases List.mem_cons.1 hc with rfl | hc
          · decide
          · exact hchar c hc
  · split at h
    · next hend =>
      cases h
      refine ⟨by simp, fun c hc => ?_⟩
      simp [isTargetChar, atEnd_iff.1 hend c hc]
    · cases h

/-! ## The rest of a line -/

theorem rest?_self {x : String} (hx : IsOperand fits x.toList) (hne : x.toList ≠ []) :
    rest? x.toList = some x := by
  simp [rest?, hne, operandText_eq_self hx.trimmed]

theorem trim_ne_nil_of_solid (hu : Solid u) : Text.trim u ≠ [] := by
  intro hnil
  obtain ⟨before, after, hbefore, hafter, heq⟩ := Text.exists_trim u
  obtain ⟨front, c, rfl, hc⟩ := hu
  have hmem : c ∈ before ++ Text.trim (front ++ [c]) ++ after := by
    rw [← heq]
    simp
  rw [hnil] at hmem
  have hblank : Text.isBlank c = true := by
    rcases List.mem_append.1 hmem with hmem | hmem
    · exact hbefore c (by simpa using hmem)
    · exact hafter c hmem
  rw [hc] at hblank
  cases hblank

/-- The rest of a line that ends with no blank is an operand, and not an empty one. -/
theorem isOperand_of_rest? {cs : List Char} {x : String} (h : rest? cs = some x)
    (hcs : Solid cs) (hchars : ∀ c ∈ cs, fits c) : IsOperand fits x.toList ∧ x.toList ≠ [] := by
  rw [rest?] at h
  split at h
  · cases h
  · cases h
    refine ⟨isOperand_operandText hchars, ?_⟩
    rw [operandText, String.toList_ofList]
    exact trim_ne_nil_of_solid hcs

end Line

end StepScript
