import StepScript.Proofs.Followers

/-!
# Argument lists

An argument ends at the first comma or closing bracket outside of quotes and brackets, and quotes
and brackets that are never closed count as plain characters. So what an argument is depends on all
the text behind it. Written back, an argument list has other blanks around its commas (`Respaced`);
the scans run through both texts in step, and the same arguments are read from both.
-/

set_option autoImplicit false

namespace StepScript

namespace Line

/-! ## Scans without a bound -/

/-- The characters after the end of a quoted text, its inside being given. -/
def afterQuote? (q : Char) (cs : List Char) : Option (List Char) :=
  (Token.quoted? q cs).map Prod.snd

/-- A backslash takes the character behind it along. -/
theorem afterQuote?_escape {q : Char} (hq : q ≠ '\\') (cs : List Char) :
    afterQuote? q ('\\' :: cs) = afterQuote? q (cs.drop 1) := by
  cases cs with
  | nil =>
    have hne : ('\\' == q) = false := by simpa using hq.symm
    simp [afterQuote?, Token.quoted?, hne]
  | cons c cs => simp [afterQuote?, Token.quoted?, Function.comp_def]

theorem afterQuote?_cons {q c : Char} (hc : c ≠ '\\') (cs : List Char) :
    afterQuote? q (c :: cs) = if c = q then some cs else afterQuote? q cs := by
  rw [afterQuote?, Token.quoted?]
  · split
    · simp_all
    · simp_all [afterQuote?, Function.comp_def]
  · intro d ds heq _
    exact hc heq

/-- A quoted text ends with its quote. -/
theorem exists_of_afterQuote? {q : Char} (hq : q ≠ '\\') {cs r : List Char}
    (h : afterQuote? q cs = some r) : ∃ front, cs = front ++ q :: r := by
  induction hn : cs.length using Nat.strong_induction_on generalizing cs with
  | _ n ih =>
    cases cs with
    | nil => cases h
    | cons c cs =>
      rw [List.length_cons] at hn
      by_cases hc : c = '\\'
      · subst hc
        rw [afterQuote?_escape hq] at h
        have hlt : (cs.drop 1).length < n := by
          rw [List.length_drop]
          omega
        obtain ⟨front, hfront⟩ := ih _ hlt h rfl
        refine ⟨'\\' :: cs.take 1 ++ front, ?_⟩
        rw [List.append_assoc, ← hfront, List.cons_append, List.take_append_drop]
      · rw [afterQuote?_cons hc] at h
        split at h
        · next hcq =>
          cases h
          exact ⟨[], by rw [hcq]; rfl⟩
        · obtain ⟨front, hfront⟩ := ih _ (by omega) h rfl
          exact ⟨c :: front, by rw [hfront]; rfl⟩

theorem afterQuoted?_cons (c : Char) (cs : List Char) :
    afterQuoted? (c :: cs) = if c = '"' ∨ c = '\'' then afterQuote? c cs else none := by
  by_cases hc : c = '"' ∨ c = '\''
  · rw [if_pos hc, afterQuoted?, if_pos (by simpa using hc)]
    rfl
  · rw [if_neg hc, afterQuoted?, if_neg (by simpa using hc)]

/-- Quotes are read to their end, so that less is left. -/
theorem suffix_of_afterQuoted? {c : Char} {cs r : List Char} (h : afterQuoted? (c :: cs) = some r) :
    r <:+ cs ∧ r.length < cs.length := by
  rw [afterQuoted?_cons] at h
  split at h
  · next hc =>
    have hne : c ≠ '\\' := by
      rintro rfl
      revert hc
      decide
    obtain ⟨front, rfl⟩ := exists_of_afterQuote? hne h
    exact ⟨⟨front ++ [c], by simp⟩, by simp; omega⟩
  · cases h

theorem suffix_of_afterInside (fuel : Nat) (cs : List Char) : afterInside fuel cs <:+ cs := by
  induction fuel generalizing cs with
  | zero => exact List.suffix_refl cs
  | succ fuel ih =>
    cases cs with
    | nil => exact List.suffix_refl []
    | cons c cs =>
      have hcons : cs <:+ c :: cs := List.suffix_cons c cs
      rw [afterInside]
      split
      · next _ rest hquoted =>
        exact (ih rest).trans ((suffix_of_afterQuoted? hquoted).1.trans hcons)
      · have hinside := ih cs
        split
        · next d rest hrest =>
          rw [hrest] at hinside
          split
          · have hstep : rest <:+ d :: rest := List.suffix_cons d rest
            exact (ih rest).trans (hstep.trans (hinside.trans hcons))
          · exact hinside.trans hcons
        · exact List.nil_suffix
      · split
        · exact List.suffix_refl _
        · exact (ih cs).trans hcons

/-- Any bound that is large enough gives the same. -/
theorem afterInside_eq {m n : Nat} {cs : List Char} (hm : cs.length ≤ m) (hn : cs.length ≤ n) :
    afterInside m cs = afterInside n cs := by
  induction m generalizing n cs with
  | zero =>
    rw [List.length_eq_zero_iff.1 (Nat.le_zero.1 hm)]
    cases n <;> rfl
  | succ m ih =>
    cases cs with
    | nil => cases n <;> rfl
    | cons c cs =>
      obtain ⟨n, rfl⟩ : ∃ k, n = k + 1 := ⟨n - 1, by rw [List.length_cons] at hn; omega⟩
      rw [List.length_cons] at hm hn
      rw [afterInside, afterInside]
      split
      · next _ rest hquoted =>
        have hlt := (suffix_of_afterQuoted? hquoted).2
        exact ih (by omega) (by omega)
      · rw [ih (n := n) (by omega) (by omega)]
        split
        · next d rest hrest =>
          have hle := (suffix_of_afterInside n cs).length_le
          rw [hrest, List.length_cons] at hle
          rw [ih (n := n) (by omega) (by omega)]
        · rfl
      · rw [ih (n := n) (by omega) (by omega)]

/-- The characters after a closed quote or bracket. -/
def afterGroup? (cs : List Char) : Option (List Char) :=
  (afterQuoted? cs).or (afterBracket? cs)

/-- The character opens a quote or a bracket. -/
def opensGroup (c : Char) : Bool :=
  c == '"' || c == '\'' || (closerOf? c).isSome

theorem afterGroup?_of_opensGroup {c : Char} (h : opensGroup c = false) (cs : List Char) :
    afterGroup? (c :: cs) = none := by
  simp only [opensGroup, Bool.or_eq_false_iff, beq_eq_false_iff_ne, Option.isSome_eq_false_iff,
    Option.isNone_iff_eq_none] at h
  obtain ⟨hquote, hcloser⟩ := h
  rw [afterGroup?, afterQuoted?_cons, if_neg (not_or.2 hquote), Option.none_or, afterBracket?,
    hcloser]

theorem eq_of_opensGroup {c : Char} (h : opensGroup c = true) :
    c = '"' ∨ c = '\'' ∨ c = '(' ∨ c = '[' ∨ c = '\x7b' := by
  by_contra hne
  simp only [not_or] at hne
  simp [opensGroup, closerOf?, hne] at h

theorem not_opensGroup_of_isBlank {c : Char} (h : Text.isBlank c = true) :
    opensGroup c = false := by
  rw [← Bool.not_eq_true]
  intro hc
  rcases eq_of_opensGroup hc with rfl | rfl | rfl | rfl | rfl <;> revert h <;> decide

/-- A scan passes over closed quotes and brackets, and over single characters up to a stop. Blanks
    are no stops, and the bracket that closes an argument list is one. -/
structure IsScan (stop : Char → Bool) (scan : List Char → List Char) : Prop where
  blank (c : Char) : Text.isBlank c = true → stop c = false
  close : stop ')' = true
  nil : scan [] = []
  cons (c : Char) (cs : List Char) :
    scan (c :: cs) =
      match afterGroup? (c :: cs) with
      | some rest => scan rest
      | none => if stop c then c :: cs else scan cs

/-- What is left after the inside of a bracket. -/
def inside (cs : List Char) : List Char :=
  afterInside cs.length cs

theorem afterBracket?_cons (c : Char) (cs : List Char) :
    afterBracket? (c :: cs) =
      match closerOf? c, inside cs with
      | some closer, d :: rest => if d == closer then some rest else none
      | _, _ => none :=
  rfl

theorem suffix_of_afterGroup? {c : Char} {cs r : List Char} (h : afterGroup? (c :: cs) = some r) :
    r <:+ cs := by
  rcases Option.or_eq_some_iff.1 h with hquoted | ⟨-, hbracket⟩
  · exact (suffix_of_afterQuoted? hquoted).1
  · rw [afterBracket?_cons] at hbracket
    split at hbracket
    · next closer d rest _ hinside =>
      split at hbracket
      · cases hbracket
        have hsuffix : d :: r <:+ cs := hinside ▸ suffix_of_afterInside _ cs
        exact (List.suffix_cons d r).trans hsuffix
      · cases hbracket
    · cases hbracket

theorem eq_of_closerOf? {c closer : Char} (h : closerOf? c = some closer) :
    c = '(' ∧ closer = ')' ∨ c = '[' ∧ closer = ']' ∨ c = '\x7b' ∧ closer = '\x7d' := by
  simp only [closerOf?, beq_iff_eq] at h
  split at h
  · next hc => exact Or.inl ⟨hc, (Option.some.inj h).symm⟩
  · split at h
    · next hc => exact Or.inr (Or.inl ⟨hc, (Option.some.inj h).symm⟩)
    · split at h
      · next hc => exact Or.inr (Or.inr ⟨hc, (Option.some.inj h).symm⟩)
      · cases h

theorem not_isCloser_of_closerOf? {c closer : Char} (h : closerOf? c = some closer) :
    isCloser c = false := by
  rcases eq_of_closerOf? h with ⟨rfl, -⟩ | ⟨rfl, -⟩ | ⟨rfl, -⟩ <;> rfl

theorem isCloser_of_closerOf? {c closer : Char} (h : closerOf? c = some closer) :
    isCloser closer = true := by
  rcases eq_of_closerOf? h with ⟨-, rfl⟩ | ⟨-, rfl⟩ | ⟨-, rfl⟩ <;> rfl

theorem not_isCloser_of_isBlank {c : Char} (h : Text.isBlank c = true) : isCloser c = false := by
  rw [← Bool.not_eq_true]
  intro hc
  simp only [isCloser, Bool.or_eq_true, beq_iff_eq] at hc
  rcases hc with (rfl | rfl) | rfl <;> revert h <;> decide

theorem isScan_inside : IsScan isCloser inside where
  blank c hc := not_isCloser_of_isBlank hc
  close := rfl
  nil := rfl
  cons c cs := by
    have hrest : ∀ r : List Char, r.length ≤ cs.length → afterInside cs.length r = inside r :=
      fun r hr => afterInside_eq hr (Nat.le_refl _)
    rw [inside, List.length_cons, afterInside, afterGroup?, afterBracket?_cons]
    split
    · next _ rest hquoted =>
      rw [hquoted]
      exact hrest rest (suffix_of_afterQuoted? hquoted).1.length_le
    · next _ closer hquoted hcloser =>
      have hplain : isCloser c = false := not_isCloser_of_closerOf? hcloser
      have hsuffix : inside cs <:+ cs := suffix_of_afterInside _ cs
      rw [hquoted, hcloser, hrest cs (Nat.le_refl _), Option.none_or]
      -- a bracket that is not closed leaves the inside as it was found
      cases hin : inside cs with
      | nil => simp [hplain]
      | cons d rest =>
        by_cases hd : d = closer
        · have hlength := hsuffix.length_le
          rw [hin, List.length_cons] at hlength
          simp [hd, hrest rest (by omega)]
        · simp [hd, hplain]
    · next hquoted hcloser =>
      rw [hquoted, hcloser]
      rfl

/-- The characters that end an argument. -/
def endsArgument (c : Char) : Bool :=
  c == ',' || isCloser c

/-- What is left after an argument. -/
def argumentEnd (cs : List Char) : List Char :=
  afterArgument cs.length cs

theorem afterArgument_succ (fuel : Nat) (c : Char) (cs : List Char) :
    afterArgument (fuel + 1) (c :: cs) =
      match afterGroup? (c :: cs) with
      | some rest => afterArgument fuel rest
      | none => if endsArgument c then c :: cs else afterArgument fuel cs := by
  rw [afterArgument, afterGroup?]
  cases afterQuoted? (c :: cs) with
  | some rest => rfl
  | none =>
    cases afterBracket? (c :: cs) with
    | some rest => rfl
    | none => rfl

theorem afterArgument_eq {m n : Nat} {cs : List Char} (hm : cs.length ≤ m) (hn : cs.length ≤ n) :
    afterArgument m cs = afterArgument n cs := by
  induction m generalizing n cs with
  | zero =>
    rw [List.length_eq_zero_iff.1 (Nat.le_zero.1 hm)]
    cases n <;> rfl
  | succ m ih =>
    cases cs with
    | nil => cases n <;> rfl
    | cons c cs =>
      obtain ⟨n, rfl⟩ : ∃ k, n = k + 1 := ⟨n - 1, by rw [List.length_cons] at hn; omega⟩
      rw [List.length_cons] at hm hn
      rw [afterArgument_succ, afterArgument_succ]
      split
      · next rest hgroup =>
        have hle := (suffix_of_afterGroup? hgroup).length_le
        exact ih (by omega) (by omega)
      · rw [ih (n := n) (by omega) (by omega)]

theorem isScan_argumentEnd : IsScan endsArgument argumentEnd where
  blank c hc := by
    have hcomma : c ≠ ',' := by
      rintro rfl
      revert hc
      decide
    simp [endsArgument, hcomma, not_isCloser_of_isBlank hc]
  close := rfl
  nil := rfl
  cons c cs := by
    rw [argumentEnd, List.length_cons, afterArgument_succ]
    split
    · next rest hgroup =>
      exact afterArgument_eq (suffix_of_afterGroup? hgroup).length_le (Nat.le_refl _)
    · rfl

namespace IsScan

variable {stop : Char → Bool} {scan : List Char → List Char}

theorem suffix (h : IsScan stop scan) (cs : List Char) : scan cs <:+ cs := by
  -- on the length, since a group is passed at once
  induction hn : cs.length using Nat.strong_induction_on generalizing cs with
  | _ n ih =>
    cases cs with
    | nil => simp [h.nil]
    | cons c cs =>
      rw [List.length_cons] at hn
      have hcons : cs <:+ c :: cs := List.suffix_cons c cs
      rw [h.cons]
      split
      · next rest hgroup =>
        have hrest := suffix_of_afterGroup? hgroup
        have hle := hrest.length_le
        exact (ih rest.length (by omega) rest rfl).trans (hrest.trans hcons)
      · split
        · exact List.suffix_refl _
        · exact (ih cs.length (by omega) cs rfl).trans hcons

/-- What a scan leaves starts with a stop. -/
theorem head (h : IsScan stop scan) (cs : List Char) : ∀ c ∈ (scan cs).head?, stop c = true := by
  induction hn : cs.length using Nat.strong_induction_on generalizing cs with
  | _ n ih =>
    cases cs with
    | nil => simp [h.nil]
    | cons c cs =>
      rw [List.length_cons] at hn
      rw [h.cons]
      split
      · next rest hgroup =>
        have hle := (suffix_of_afterGroup? hgroup).length_le
        exact ih rest.length (by omega) rest rfl
      · split
        · next hstop =>
          intro d hd
          cases hd
          exact hstop
        · exact ih cs.length (by omega) cs rfl

theorem plain (h : IsScan stop scan) {c : Char} (hgroup : opensGroup c = false)
    (cs : List Char) : scan (c :: cs) = if stop c then c :: cs else scan cs := by
  rw [h.cons, afterGroup?_of_opensGroup hgroup]

/-- A scan runs over what opens nothing and is no stop. -/
theorem run (h : IsScan stop scan) {front : List Char}
    (hfront : ∀ c ∈ front, opensGroup c = false ∧ stop c = false) (cs : List Char) :
    scan (front ++ cs) = scan cs := by
  induction front with
  | nil => rfl
  | cons c front ih =>
    obtain ⟨hgroup, hstop⟩ := hfront c List.mem_cons_self
    rw [List.cons_append, h.plain hgroup, hstop, if_neg (by decide)]
    exact ih fun d hd => hfront d (List.mem_cons_of_mem c hd)

theorem blanks (h : IsScan stop scan) {b : List Char} (hb : ∀ c ∈ b, Text.isBlank c = true)
    (cs : List Char) : scan (b ++ cs) = scan cs :=
  h.run (fun c hc => ⟨not_opensGroup_of_isBlank (hb c hc), h.blank c (hb c hc)⟩) cs

end IsScan

/-! ## Other blanks around commas -/

/-- A comma with blanks around it. -/
def IsComma (cs : List Char) : Prop :=
  ∃ before after, (∀ c ∈ before, Text.isBlank c = true) ∧ (∀ c ∈ after, Text.isBlank c = true) ∧
    cs = before ++ ',' :: after

/-- The same text up to the end of an argument list, with other blanks around some commas and at
    the end of the list. What follows is `tail` in the one text and `tail'` in the other. -/
inductive Respaced (tail tail' : List Char) : List Char → List Char → Prop where
  | done : Respaced tail tail' tail tail'
  | close {b b' : List Char} (hb : ∀ c ∈ b, Text.isBlank c = true)
      (hb' : ∀ c ∈ b', Text.isBlank c = true) :
      Respaced tail tail' (b ++ ')' :: tail) (b' ++ ')' :: tail')
  | comma {l l' s t : List Char} (hl : IsComma l) (hl' : IsComma l')
      (h : Respaced tail tail' s t) : Respaced tail tail' (l ++ s) (l' ++ t)
  | keep (c : Char) {s t : List Char} (h : Respaced tail tail' s t) :
      Respaced tail tail' (c :: s) (c :: t)

/-- Quotes end nowhere in a text without them. -/
theorem afterQuote?_of_not_mem {q : Char} (hq : q ≠ '\\') {cs : List Char} (h : q ∉ cs) :
    afterQuote? q cs = none := by
  rw [Option.eq_none_iff_forall_ne_some]
  intro r hr
  obtain ⟨front, rfl⟩ := exists_of_afterQuote? hq hr
  exact h (by simp)

theorem IsComma.plain {l : List Char} (hl : IsComma l) :
    ∀ c ∈ l, Text.isBlank c = true ∨ c = ',' := by
  obtain ⟨before, after, hbefore, hafter, rfl⟩ := hl
  intro c hc
  rcases List.mem_append.1 hc with hc | hc
  · exact Or.inl (hbefore c hc)
  · rcases List.mem_cons.1 hc with rfl | hc
    · exact Or.inr rfl
    · exact Or.inl (hafter c hc)

theorem IsComma.ne_nil {l : List Char} (hl : IsComma l) : l ≠ [] := by
  obtain ⟨before, after, -, -, rfl⟩ := hl
  simp

/-- The quotes of an argument. -/
def isQuote (c : Char) : Bool :=
  c == '"' || c == '\''

theorem isQuote_iff {c : Char} : isQuote c = true ↔ c = '"' ∨ c = '\'' := by
  simp [isQuote]

theorem afterQuote?_append {q : Char} (hq : isQuote q = true) {l : List Char}
    (hl : ∀ c ∈ l, Text.isBlank c = true ∨ c = ',') (cs : List Char) :
    afterQuote? q (l ++ cs) = afterQuote? q cs := by
  induction l with
  | nil => rfl
  | cons c l ih =>
    have hplain : c ≠ '\\' ∧ c ≠ q := by
      rcases hl c List.mem_cons_self with hc | rfl
      · rcases isQuote_iff.1 hq with rfl | rfl
        · constructor <;> rintro rfl <;> revert hc <;> decide
        · constructor <;> rintro rfl <;> revert hc <;> decide
      · rcases isQuote_iff.1 hq with rfl | rfl <;> decide
    rw [List.cons_append, afterQuote?_cons hplain.1, if_neg hplain.2]
    exact ih fun d hd => hl d (List.mem_cons_of_mem c hd)

section

variable {tail tail' s t : List Char}

theorem not_mem_tail {q : Char} (hq : isQuote q = true)
    (htail : ∀ c ∈ tail, isTargetChar c = true) : q ∉ tail := by
  intro hmem
  rcases isQuote_iff.1 hq with rfl | rfl
  · exact absurd (htail _ hmem) (by decide)
  · exact absurd (htail _ hmem) (by decide)

theorem not_mem_close {q : Char} (hq : isQuote q = true) {b : List Char}
    (hb : ∀ c ∈ b, Text.isBlank c = true) (htail : ∀ c ∈ tail, isTargetChar c = true) :
    q ∉ b ++ ')' :: tail := by
  have hblank : q ∉ b := by
    intro hmem
    rcases isQuote_iff.1 hq with rfl | rfl
    · exact absurd (hb _ hmem) (by decide)
    · exact absurd (hb _ hmem) (by decide)
  have hclose : q ≠ ')' := by
    rintro rfl
    cases hq
  simp [hblank, hclose, not_mem_tail hq htail]

/-- Quotes are closed in both texts or in none, also when a backslash takes one character along. -/
theorem Respaced.afterQuote? {q : Char} (hq : isQuote q = true)
    (htail : ∀ c ∈ tail, isTargetChar c = true) (htail' : ∀ c ∈ tail', isTargetChar c = true)
    (h : Respaced tail tail' s t) :
    Option.Rel (Respaced tail tail') (afterQuote? q s) (afterQuote? q t) ∧
      Option.Rel (Respaced tail tail') (afterQuote? q (s.drop 1)) (afterQuote? q (t.drop 1)) := by
  have hescape : q ≠ '\\' := by
    rintro rfl
    cases hq
  induction h with
  | done =>
    have hs := not_mem_tail hq htail
    have ht := not_mem_tail hq htail'
    rw [afterQuote?_of_not_mem hescape hs, afterQuote?_of_not_mem hescape ht,
      afterQuote?_of_not_mem hescape fun hmem => hs (List.mem_of_mem_drop hmem),
      afterQuote?_of_not_mem hescape fun hmem => ht (List.mem_of_mem_drop hmem)]
    exact ⟨.none, .none⟩
  | close hb hb' =>
    have hs := not_mem_close hq hb htail
    have ht := not_mem_close hq hb' htail'
    rw [afterQuote?_of_not_mem hescape hs, afterQuote?_of_not_mem hescape ht,
      afterQuote?_of_not_mem hescape fun hmem => hs (List.mem_of_mem_drop hmem),
      afterQuote?_of_not_mem hescape fun hmem => ht (List.mem_of_mem_drop hmem)]
    exact ⟨.none, .none⟩
  | @comma l l' s t hl hl' _ ih =>
    have hdrop : ∀ {l : List Char} (_ : IsComma l) (cs : List Char),
        Line.afterQuote? q ((l ++ cs).drop 1) = Line.afterQuote? q cs := by
      intro l hl cs
      obtain ⟨c, l', rfl⟩ := List.exists_cons_of_ne_nil hl.ne_nil
      exact afterQuote?_append hq (fun d hd => hl.plain d (List.mem_cons_of_mem c hd)) cs
    rw [hdrop hl, hdrop hl', afterQuote?_append hq hl.plain, afterQuote?_append hq hl'.plain]
    exact ⟨ih.1, ih.1⟩
  | @keep c s t h ih =>
    refine ⟨?_, ih.1⟩
    by_cases hc : c = '\\'
    · subst hc
      rw [afterQuote?_escape hescape, afterQuote?_escape hescape]
      exact ih.2
    · rw [afterQuote?_cons hc, afterQuote?_cons hc]
      split
      · exact .some h
      · exact ih.1

/-- A scan is at its end in both texts, or at the same character of both. -/
inductive Matched (tail tail' : List Char) : List Char → List Char → Prop where
  | nothing : Matched tail tail' [] []
  | stop {d : Char} {u u' : List Char} (h : Respaced tail tail' (d :: u) (d :: u'))
      (hcloser : isCloser d = true → Respaced tail tail' u u') :
      Matched tail tail' (d :: u) (d :: u')

/-- The characters at which scans look closer have nothing to do with others. -/
theorem plain_of_forall {sort : Char → Bool}
    (hsort : ['"', '\'', '(', '[', '\x7b', ')', ']', '\x7d', ','].all (fun c => !sort c) = true)
    {c : Char} (h : sort c = true) : opensGroup c = false ∧ endsArgument c = false := by
  have hnot {c' : Char} (hc' : c' ∈ ['"', '\'', '(', '[', '\x7b', ')', ']', '\x7d', ',']) :
      c ≠ c' := by
    rintro rfl
    have hnone := List.all_eq_true.1 hsort c hc'
    rw [h] at hnone
    cases hnone
  constructor
  · rw [← Bool.not_eq_true]
    intro hc
    rcases eq_of_opensGroup hc with rfl | rfl | rfl | rfl | rfl <;> exact hnot (by decide) rfl
  · rw [← Bool.not_eq_true]
    intro hc
    simp only [endsArgument, isCloser, Bool.or_eq_true, beq_iff_eq] at hc
    rcases hc with rfl | (rfl | rfl) | rfl <;> exact hnot (by decide) rfl

theorem plain_of_isTargetChar {c : Char} (h : isTargetChar c = true) :
    opensGroup c = false ∧ endsArgument c = false :=
  plain_of_forall rfl h

/-- No scan stops behind the list. -/
theorem IsScan.of_tail {stop : Char → Bool} {scan : List Char → List Char} (h : IsScan stop scan)
    (hstop : ∀ c, stop c = true → endsArgument c = true)
    (htail : ∀ c ∈ tail, isTargetChar c = true) : scan tail = [] := by
  induction tail with
  | nil => exact h.nil
  | cons c tail ih =>
    obtain ⟨hgroup, hends⟩ := plain_of_isTargetChar (htail c List.mem_cons_self)
    have hc : ¬stop c = true := by
      intro hc
      rw [hstop c hc] at hends
      cases hends
    rw [h.plain hgroup, if_neg hc]
    exact ih fun d hd => htail d (List.mem_cons_of_mem c hd)

/-- Scans of both texts run in step, as long as both skip the same quotes and brackets. -/
theorem IsScan.respaced {stop : Char → Bool} {scan : List Char → List Char}
    (h : IsScan stop scan) (hstop : ∀ c, stop c = true → endsArgument c = true)
    (htail : ∀ c ∈ tail, isTargetChar c = true) (htail' : ∀ c ∈ tail', isTargetChar c = true)
    (hgroup : ∀ s' t', s'.length ≤ s.length → Respaced tail tail' s' t' →
      Option.Rel (Respaced tail tail') (afterGroup? s') (afterGroup? t'))
    (hst : Respaced tail tail' s t) : Matched tail tail' (scan s) (scan t) := by
  induction hn : s.length using Nat.strong_induction_on generalizing s t with
  | _ n ih =>
    have hnext : ∀ s' t', s'.length < s.length → Respaced tail tail' s' t' →
        Matched tail tail' (scan s') (scan t') := by
      intro s' t' hlt hst'
      refine ih s'.length (by omega) (fun s'' t'' hle => hgroup s'' t'' ?_) hst' rfl
      omega
    cases hst with
    | done =>
      -- behind the list nothing is a stop
      rw [h.of_tail hstop htail, h.of_tail hstop htail']
      exact .nothing
    | @close b b' hb hb' =>
      rw [h.blanks hb, h.blanks hb', h.plain rfl, h.plain rfl, if_pos h.close, if_pos h.close]
      exact .stop (@Respaced.close _ _ [] [] (by simp) (by simp)) fun _ => .done
    | @comma l l' s t hl hl' hst =>
      have hlt : s.length < (l ++ s).length := by
        have hpos := List.length_pos_iff.2 hl.ne_nil
        rw [List.length_append]
        omega
      have hrest := hnext s t hlt hst
      obtain ⟨before, after, hbefore, hafter, rfl⟩ := hl
      obtain ⟨before', after', hbefore', hafter', rfl⟩ := hl'
      rw [List.append_assoc, List.append_assoc, h.blanks hbefore, h.blanks hbefore',
        List.cons_append, List.cons_append, h.plain rfl, h.plain rfl]
      -- the scan of an argument stops at the comma, that of an inside goes on
      split
      · have hcomma : ∀ a : List Char, (∀ c ∈ a, Text.isBlank c = true) → IsComma (',' :: a) :=
          fun a ha => ⟨[], a, by simp, ha, rfl⟩
        exact .stop (.comma (hcomma after hafter) (hcomma after' hafter') hst) nofun
      · rw [h.blanks hafter, h.blanks hafter']
        exact hrest
    | @keep c s t hst =>
      -- a group is passed in both texts or in neither
      have hrel := hgroup (c :: s) (c :: t) (Nat.le_refl _) (.keep c hst)
      rw [h.cons, h.cons]
      cases hgs : afterGroup? (c :: s) with
      | none =>
        rw [hgs] at hrel
        cases hgt : afterGroup? (c :: t) with
        | none =>
          dsimp only
          split
          · exact .stop (.keep c hst) fun _ => hst
          · exact hnext s t (Nat.lt_succ_self _) hst
        | some r' =>
          rw [hgt] at hrel
          cases hrel
      | some r =>
        rw [hgs] at hrel
        cases hgt : afterGroup? (c :: t) with
        | none =>
          rw [hgt] at hrel
          cases hrel
        | some r' =>
          rw [hgt] at hrel
          cases hrel with
          | some hr =>
            have hle := (suffix_of_afterGroup? hgs).length_le
            exact hnext r r' (Nat.lt_succ_of_le hle) hr

theorem afterGroup?_blanks {b : List Char} (hb : ∀ c ∈ b, Text.isBlank c = true) {d : Char}
    (hd : opensGroup d = false) (cs : List Char) : afterGroup? (b ++ d :: cs) = none := by
  cases b with
  | nil => exact afterGroup?_of_opensGroup hd cs
  | cons c b =>
    exact afterGroup?_of_opensGroup (not_opensGroup_of_isBlank (hb c List.mem_cons_self)) _

theorem afterGroup?_tail (htail : ∀ c ∈ tail, isTargetChar c = true) :
    afterGroup? tail = none := by
  cases tail with
  | nil => rfl
  | cons c tail =>
    exact afterGroup?_of_opensGroup (plain_of_isTargetChar (htail c List.mem_cons_self)).1 tail

/-- Quotes and brackets are closed in both texts or in none. -/
theorem Respaced.afterGroup? (htail : ∀ c ∈ tail, isTargetChar c = true)
    (htail' : ∀ c ∈ tail', isTargetChar c = true) (hst : Respaced tail tail' s t) :
    Option.Rel (Respaced tail tail') (afterGroup? s) (afterGroup? t) := by
  induction hn : s.length using Nat.strong_induction_on generalizing s t with
  | _ n ih =>
    cases hst with
    | done =>
      rw [afterGroup?_tail htail, afterGroup?_tail htail']
      exact .none
    | close hb hb' =>
      rw [afterGroup?_blanks hb rfl, afterGroup?_blanks hb' rfl]
      exact .none
    | @comma l l' s t hl hl' hst =>
      obtain ⟨before, after, hbefore, hafter, rfl⟩ := hl
      obtain ⟨before', after', hbefore', hafter', rfl⟩ := hl'
      rw [List.append_assoc, List.append_assoc, List.cons_append, List.cons_append,
        afterGroup?_blanks hbefore rfl, afterGroup?_blanks hbefore' rfl]
      exact .none
    | @keep c s t hst =>
      rw [List.length_cons] at hn
      rw [Line.afterGroup?, Line.afterGroup?, afterQuoted?_cons, afterQuoted?_cons]
      by_cases hc : isQuote c = true
      · rw [if_pos (isQuote_iff.1 hc), if_pos (isQuote_iff.1 hc)]
        have hplain : closerOf? c = none := by
          rcases isQuote_iff.1 hc with rfl | rfl <;> rfl
        have hnone : ∀ cs, afterBracket? (c :: cs) = none := by
          intro cs
          rw [afterBracket?_cons, hplain]
        rw [hnone, hnone, Option.or_none, Option.or_none]
        exact (hst.afterQuote? hc htail htail').1
      · rw [if_neg fun hquote => hc (isQuote_iff.2 hquote),
          if_neg fun hquote => hc (isQuote_iff.2 hquote), Option.none_or, Option.none_or,
          afterBracket?_cons, afterBracket?_cons]
        cases hopen : closerOf? c with
        | none => exact .none
        | some closer =>
          -- the insides are shorter, so their scans run in step
          have hinside : Matched tail tail' (inside s) (inside t) := by
            refine isScan_inside.respaced (fun d hd => ?_) htail htail'
              (fun s' t' hle hst' => ?_) hst
            · simp [endsArgument, hd]
            · exact ih s'.length (by omega) hst' rfl
          generalize inside s = left at hinside
          generalize inside t = right at hinside
          cases hinside with
          | nothing => exact .none
          | @stop d u u' hrest hcloser =>
            by_cases hd : d = closer
            · subst hd
              simpa using Option.Rel.some (hcloser (isCloser_of_closerOf? hopen))
            · simp [hd]

/-! ## Arguments read back -/

/-- The number of characters that are not blank. -/
def solidCount (cs : List Char) : Nat :=
  cs.countP fun c => !Text.isBlank c

theorem solidCount_of_blank {b : List Char} (hb : ∀ c ∈ b, Text.isBlank c = true) :
    solidCount b = 0 := by
  rw [solidCount, List.countP_eq_zero]
  intro c hc
  simp [hb c hc]

/-- Other blanks are all that is different up to the end of the list. -/
theorem Respaced.solidCount (h : Respaced tail tail' s t) :
    solidCount s + solidCount tail' = solidCount t + solidCount tail := by
  induction h with
  | done => exact Nat.add_comm _ _
  | close hb hb' =>
    have hs := solidCount_of_blank hb
    have ht := solidCount_of_blank hb'
    simp only [Line.solidCount, List.countP_append, List.countP_cons] at hs ht ⊢
    omega
  | comma hl hl' _ ih =>
    obtain ⟨before, after, hbefore, hafter, rfl⟩ := hl
    obtain ⟨before', after', hbefore', hafter', rfl⟩ := hl'
    have h₁ := solidCount_of_blank hbefore
    have h₂ := solidCount_of_blank hafter
    have h₃ := solidCount_of_blank hbefore'
    have h₄ := solidCount_of_blank hafter'
    simp only [Line.solidCount, List.countP_append, List.countP_cons] at h₁ h₂ h₃ h₄ ih ⊢
    omega
  | keep c _ ih =>
    simp only [Line.solidCount, List.countP_cons] at ih ⊢
    omega

/-- Two ends of a text that start with no blank are the same when as much is in them. -/
theorem eq_of_solidCount {cs : List Char} {c d : Char} {u v : List Char} (hu : c :: u <:+ cs)
    (hv : d :: v <:+ cs) (hc : Text.isBlank c = false) (hd : Text.isBlank d = false)
    (hcount : solidCount (c :: u) = solidCount (d :: v)) : c :: u = d :: v := by
  have hshorter : ∀ {c d : Char} {u v : List Char}, c :: u <:+ d :: v → Text.isBlank d = false →
      solidCount (c :: u) = solidCount (d :: v) → c :: u = d :: v := by
    rintro c d u v ⟨front, heq⟩ hd hcount
    cases front with
    | nil => exact heq
    | cons e front =>
      obtain ⟨rfl, -⟩ := List.cons.inj heq
      rw [← heq] at hcount
      simp only [solidCount, List.cons_append, List.countP_cons, List.countP_append, hd] at hcount
      simp at hcount
      omega
  rcases List.suffix_or_suffix_of_suffix hu hv with hle | hle
  · exact hshorter hle hd hcount
  · exact (hshorter hle hc hcount.symm).symm

/-- An argument is what stands in front of its end. -/
theorem argument?_eq_some {cs r : List Char} {a : String} (h : argument? cs = some (a, r)) :
    r = argumentEnd cs ∧ ∃ x, cs = x ++ r ∧ a.toList = Text.trim x := by
  rw [argument?] at h
  change (if (argumentEnd cs).length == cs.length then none
    else some (operandText (cs.take (cs.length - (argumentEnd cs).length)), argumentEnd cs))
      = some (a, r) at h
  obtain ⟨x, hx⟩ := isScan_argumentEnd.suffix cs
  split at h
  · cases h
  · cases h
    have htake : cs.take (cs.length - (argumentEnd cs).length) = x := by
      have hlength := congrArg List.length hx
      rw [List.length_append] at hlength
      have hcount : cs.length - (argumentEnd cs).length = x.length := by omega
      calc cs.take (cs.length - (argumentEnd cs).length)
          = (x ++ argumentEnd cs).take x.length := by rw [hcount, hx]
        _ = x := List.take_left
    refine ⟨rfl, x, hx.symm, ?_⟩
    rw [htake, operandText, String.toList_ofList]

theorem argument?_append {a : String} {r : List Char} (ha : Text.trim a.toList = a.toList)
    (hne : a.toList ≠ []) (hend : argumentEnd (a.toList ++ r) = r) :
    argument? (a.toList ++ r) = some (a, r) := by
  have hpos := List.length_pos_iff.2 hne
  have hend' : afterArgument (a.toList ++ r).length (a.toList ++ r) = r := hend
  rw [argument?, hend']
  simp [operandText_eq_self ha, hne]

/-- No argument stands where one would end. -/
theorem argument?_of_endsArgument {c : Char} (hgroup : opensGroup c = false)
    (hends : endsArgument c = true) (cs : List Char) : argument? (c :: cs) = none := by
  have hend : afterArgument (c :: cs).length (c :: cs) = c :: cs := by
    have hscan := isScan_argumentEnd.plain hgroup cs
    rw [if_pos hends] at hscan
    exact hscan
  rw [argument?, hend]
  simp

theorem Respaced.append (h : Respaced tail tail' s t) (front : List Char) :
    Respaced tail tail' (front ++ s) (front ++ t) := by
  induction front with
  | nil => exact h
  | cons c front ih => exact .keep c ih

/-- An argument is read back from in front of the same text with other blanks. -/
theorem argument?_respaced (htail : ∀ c ∈ tail, isTargetChar c = true)
    (htail' : ∀ c ∈ tail', isTargetChar c = true) {cs r v : List Char} {a : String} {d : Char}
    (h : argument? cs = some (a, r)) (ha : a.toList ≠ []) (hr : r ≠ [])
    (hd : Text.isBlank d = false)
    (hrest : ∀ b : List Char, (∀ c ∈ b, Text.isBlank c = true) →
      Respaced tail tail' (b ++ r) (d :: v)) :
    argument? (a.toList ++ d :: v) = some (a, d :: v) := by
  obtain ⟨hend, x, rfl, hx⟩ := argument?_eq_some h
  obtain ⟨before, after, hbefore, hafter, htrim⟩ := Text.exists_trim x
  have htrimmed : Text.trim a.toList = a.toList := by rw [hx, Text.trim_trim]
  have hleft : argumentEnd (a.toList ++ (after ++ r)) = r := by
    calc argumentEnd (a.toList ++ (after ++ r))
        = argumentEnd (before ++ (a.toList ++ (after ++ r))) :=
          (isScan_argumentEnd.blanks hbefore _).symm
      _ = argumentEnd (before ++ Text.trim x ++ after ++ r) := by simp [hx]
      _ = r := by rw [← htrim, ← hend]
  refine argument?_append htrimmed ha ?_
  have hmatched : Matched tail tail' (argumentEnd (a.toList ++ (after ++ r)))
      (argumentEnd (a.toList ++ d :: v)) :=
    isScan_argumentEnd.respaced (fun _ hc => hc) htail htail'
      (fun s' t' _ hst => hst.afterGroup? htail htail') ((hrest after hafter).append a.toList)
  rw [hleft] at hmatched
  have hsuffix := isScan_argumentEnd.suffix (a.toList ++ d :: v)
  have hhead := isScan_argumentEnd.head (a.toList ++ d :: v)
  generalize argumentEnd (a.toList ++ d :: v) = right at hmatched hsuffix hhead ⊢
  cases hmatched with
  | nothing => exact absurd rfl hr
  | @stop e u u' hstop =>
    have he : Text.isBlank e = false := by
      rw [← Bool.not_eq_true]
      intro hblank
      have hends := hhead e rfl
      rw [isScan_argumentEnd.blank e hblank] at hends
      cases hends
    have hcount := (hrest [] (by simp)).solidCount
    have hcount' := hstop.solidCount
    refine eq_of_solidCount hsuffix (List.suffix_append _ _) he hd ?_
    rw [List.nil_append] at hcount
    omega

/-! ## Lists read back -/

/-- The text behind an argument: further arguments, each after a comma, and the end of the list. -/
inductive Continues (tail : List Char) : List Char → List String → Prop where
  | close {r : List Char} (h : skipGap r = ')' :: tail) : Continues tail r []
  | next {r r' : List Char} {a : String} {args : List String}
      (harg : argument? (skipGap r) = some (a, r')) (h : Continues tail r' args) :
      Continues tail (',' :: r) (a :: args)

theorem continues_of_moreArguments {fuel : Nat} {cs rest : List Char} {args : List String}
    (h : moreArguments fuel cs = (args, rest)) (hrest : skipGap rest = ')' :: tail) :
    Continues tail cs args := by
  induction fuel generalizing cs args with
  | zero =>
    cases h
    exact .close hrest
  | succ fuel ih =>
    unfold moreArguments at h
    split at h
    · next r =>
      split at h
      · next a r' harg =>
        cases hmore : moreArguments fuel r' with
        | mk args' rest' =>
          rw [hmore] at h
          cases h
          exact .next harg (ih hmore)
      · cases h
        exact .close hrest
    · cases h
      exact .close hrest

theorem Continues.ne_nil {r : List Char} {args : List String} (h : Continues tail r args) :
    r ≠ [] := by
  rintro rfl
  cases h with
  | close h => cases h

/-- Further arguments as they are written. -/
def laterArguments (args : List String) : List Char :=
  args.flatMap fun a => ',' :: ' ' :: a.toList

/-- What is written behind an argument starts with no blank. -/
theorem exists_laterArguments (args : List String) (cs : List Char) :
    ∃ d v, laterArguments args ++ ')' :: cs = d :: v ∧ Text.isBlank d = false ∧
      opensGroup d = false ∧ endsArgument d = true := by
  cases args with
  | nil => exact ⟨')', cs, rfl, rfl, rfl, rfl⟩
  | cons a args =>
    exact ⟨',', ' ' :: a.toList ++ (laterArguments args ++ ')' :: cs), by simp [laterArguments],
      rfl, rfl, rfl⟩

theorem length_le_laterArguments (args : List String) (cs : List Char) :
    args.length ≤ (laterArguments args ++ ')' :: cs).length := by
  induction args with
  | nil => exact Nat.zero_le _
  | cons a args ih =>
    simp only [laterArguments, List.flatMap_cons, List.length_append, List.length_cons] at ih ⊢
    omega

theorem Continues.respaced {r : List Char} {args : List String} (h : Continues tail r args)
    {b : List Char} (hb : ∀ c ∈ b, Text.isBlank c = true) :
    Respaced tail tail' (b ++ r) (laterArguments args ++ ')' :: tail') := by
  induction h generalizing b with
  | @close r h =>
    have hr : r = r.takeWhile Text.isGap ++ ')' :: tail := by
      rw [← h, skipGap, List.takeWhile_append_dropWhile]
    rw [hr, ← List.append_assoc]
    refine @Respaced.close _ _ _ [] (fun c hc => ?_) (by simp)
    rcases List.mem_append.1 hc with hc | hc
    · exact hb c hc
    · exact Text.isBlank_of_isGap (List.mem_takeWhile_imp hc)
  | @next r r' a args harg _ ih =>
    obtain ⟨-, x, hskip, hx⟩ := argument?_eq_some harg
    obtain ⟨before, after, hbefore, hafter, htrim⟩ := Text.exists_trim x
    have hr : b ++ ',' :: r
        = (b ++ ',' :: (r.takeWhile Text.isGap ++ before)) ++ (a.toList ++ (after ++ r')) := by
      have hsplit : r = r.takeWhile Text.isGap ++ (before ++ Text.trim x ++ after ++ r') := by
        rw [← htrim, ← hskip, skipGap, List.takeWhile_append_dropWhile]
      rw [hx]
      exact (congrArg (fun cs => b ++ ',' :: cs) hsplit).trans (by simp)
    have hlater : laterArguments (a :: args) ++ ')' :: tail'
        = [',', ' '] ++ (a.toList ++ (laterArguments args ++ ')' :: tail')) := by
      simp [laterArguments]
    rw [hr, hlater]
    refine .comma ⟨b, _, hb, fun c hc => ?_, rfl⟩
      ⟨[], [' '], by simp, List.forall_mem_singleton.2 rfl, rfl⟩
      ((ih hafter).append a.toList)
    rcases List.mem_append.1 hc with hc | hc
    · exact Text.isBlank_of_isGap (List.mem_takeWhile_imp hc)
    · exact hbefore c hc

theorem moreArguments_close (n : Nat) (cs : List Char) :
    moreArguments n (')' :: cs) = ([], ')' :: cs) := by
  cases n <;> rfl

theorem skipGap_written {a : String} {args : List String} (ha : Text.trim a.toList = a.toList)
    (cs : List Char) :
    skipGap (a.toList ++ (laterArguments args ++ ')' :: cs))
      = a.toList ++ (laterArguments args ++ ')' :: cs) := by
  obtain ⟨d, v, hv, hd, -⟩ := exists_laterArguments args cs
  refine skipGap_of_head ?_
  cases hcs : a.toList with
  | nil => simp [hv, hd]
  | cons c rest =>
    rw [hcs] at ha
    exact (Text.trim_eq_self_iff.1 ha).1

/-- Each argument is read where it is written, in front of those that follow it. -/
def ReadBack (tail : List Char) : List String → Prop
  | [] => True
  | a :: args =>
    Text.trim a.toList = a.toList ∧
      argument? (a.toList ++ (laterArguments args ++ ')' :: tail))
        = some (a, laterArguments args ++ ')' :: tail) ∧
      ReadBack tail args

theorem moreArguments_of_readBack {args : List String} (h : ReadBack tail args) {n : Nat}
    (hn : args.length ≤ n) :
    moreArguments n (laterArguments args ++ ')' :: tail) = (args, ')' :: tail) := by
  induction args generalizing n with
  | nil => exact moreArguments_close n tail
  | cons a args ih =>
    obtain ⟨n, rfl⟩ : ∃ k, n = k + 1 := ⟨n - 1, by rw [List.length_cons] at hn; omega⟩
    obtain ⟨htrim, hread, hrest⟩ := h
    rw [List.length_cons] at hn
    have hlater : laterArguments (a :: args) ++ ')' :: tail
        = ',' :: ' ' :: (a.toList ++ (laterArguments args ++ ')' :: tail)) := by
      simp [laterArguments]
    rw [hlater, moreArguments, skipGap_space, skipGap_written htrim, hread]
    dsimp only
    rw [ih hrest (by omega)]

/-- Further arguments are read back as long as none of them is empty. -/
theorem Continues.readBack (htail : ∀ c ∈ tail, isTargetChar c = true)
    (htail' : ∀ c ∈ tail', isTargetChar c = true) {r : List Char} {args : List String}
    (h : Continues tail r args) (hargs : "" ∉ args) : ReadBack tail' args := by
  induction h with
  | close => trivial
  | @next r r' a args harg hmore ih =>
    have hne : a.toList ≠ [] := by
      intro hnil
      exact hargs (by simp [String.toList_eq_nil_iff.1 hnil])
    obtain ⟨-, x, -, hx⟩ := argument?_eq_some harg
    obtain ⟨d, v, hv, hd, -⟩ := exists_laterArguments args tail'
    have hread := argument?_respaced htail htail' harg hne hmore.ne_nil hd
      fun b hb => hv ▸ hmore.respaced hb
    exact ⟨by rw [hx, Text.trim_trim], hv ▸ hread,
      ih fun hmem => hargs (List.mem_cons_of_mem a hmem)⟩

/-- Before an empty argument a comma is left. -/
theorem Continues.stuck (htail : ∀ c ∈ tail, isTargetChar c = true)
    (htail' : ∀ c ∈ tail', isTargetChar c = true) {r : List Char} {args : List String}
    (h : Continues tail r args) (hargs : "" ∈ args) (n : Nat) :
    ∃ front rest, moreArguments n (laterArguments args ++ ')' :: tail') = (front, ',' :: rest) := by
  induction h generalizing n with
  | close => cases hargs
  | @next r r' a args harg hmore ih =>
    have hlater : laterArguments (a :: args) ++ ')' :: tail'
        = ',' :: ' ' :: (a.toList ++ (laterArguments args ++ ')' :: tail')) := by
      simp [laterArguments]
    rw [hlater]
    cases n with
    | zero => exact ⟨_, _, rfl⟩
    | succ n =>
      obtain ⟨-, x, -, hx⟩ := argument?_eq_some harg
      have htrim : Text.trim a.toList = a.toList := by rw [hx, Text.trim_trim]
      obtain ⟨d, v, hv, hd, hgroup, hends⟩ := exists_laterArguments args tail'
      rw [moreArguments, skipGap_space, skipGap_written htrim, hv]
      by_cases hne : a.toList = []
      · rw [hne, List.nil_append, argument?_of_endsArgument hgroup hends]
        exact ⟨_, _, rfl⟩
      · have hrest : "" ∈ args := by
          rcases List.mem_cons.1 hargs with rfl | hmem
          · exact absurd rfl hne
          · exact hmem
        have hread := argument?_respaced htail htail' harg hne hmore.ne_nil hd
          fun b hb => hv ▸ hmore.respaced hb
        obtain ⟨front, rest, hmoved⟩ := ih hrest n
        rw [hread]
        dsimp only
        rw [← hv, hmoved]
        exact ⟨_, _, rfl⟩

/-- A list of arguments is a first one and what continues it, or nothing. -/
theorem arguments?_eq_some {cs : List Char} {args : List String}
    (h : arguments? cs = some (args, tail)) :
    args = [] ∨ ∃ cs' a r args', args = a :: args' ∧ cs = '(' :: cs' ∧
      argument? (skipGap cs') = some (a, r) ∧ Continues tail r args' := by
  unfold arguments? at h
  split at h
  · next cs₀ =>
    dsimp only at h
    cases harg : argument? (skipGap cs₀) with
    | none =>
      rw [harg] at h
      dsimp only at h
      split at h
      · cases h
        exact Or.inl rfl
      · cases h
    | some first =>
      obtain ⟨a, r⟩ := first
      rw [harg] at h
      dsimp only at h
      cases hmore : moreArguments r.length r with
      | mk args' rest =>
        rw [hmore] at h
        dsimp only at h
        split at h
        · next hclose =>
          cases h
          exact Or.inr ⟨cs₀, a, r, args', rfl, rfl, harg, continues_of_moreArguments hmore hclose⟩
        · cases h
  · cases h

theorem isOperand_of_argument? {fits : Char → Prop} {cs r : List Char} {a : String}
    (h : argument? cs = some (a, r)) (hchars : ∀ c ∈ cs, fits c) :
    IsOperand fits a.toList ∧ ∀ c ∈ r, fits c := by
  obtain ⟨-, x, rfl, hx⟩ := argument?_eq_some h
  rw [hx]
  refine ⟨⟨Text.trim_trim x, fun c hc => ?_⟩, fun c hc => ?_⟩
  · exact hchars c (List.mem_append_left r (Text.mem_of_mem_trim hc))
  · exact hchars c (List.mem_append_right x hc)

theorem Continues.isOperand {fits : Char → Prop} {r : List Char} {args : List String}
    (h : Continues tail r args) (hchars : ∀ c ∈ r, fits c) :
    ∀ a ∈ args, IsOperand fits a.toList := by
  induction h with
  | close => simp
  | @next r r' a args harg _ ih =>
    have hskip : ∀ c ∈ skipGap r, fits c := by
      intro c hc
      exact hchars c (List.mem_cons_of_mem _ ((suffix_of_skipGap r).subset hc))
    obtain ⟨ha, hr'⟩ := isOperand_of_argument? harg hskip
    intro b hb
    rcases List.mem_cons.1 hb with rfl | hb
    · exact ha
    · exact ih hr' b hb

theorem isOperand_of_arguments? {fits : Char → Prop} {cs : List Char} {args : List String}
    (h : arguments? cs = some (args, tail)) (hchars : ∀ c ∈ cs, fits c) :
    ∀ a ∈ args, IsOperand fits a.toList := by
  rcases arguments?_eq_some h with rfl | ⟨cs', a, r, args, rfl, rfl, harg, hmore⟩
  · simp
  · have hskip : ∀ c ∈ skipGap cs', fits c := fun c hc =>
      hchars c (List.mem_cons_of_mem _ ((suffix_of_skipGap cs').subset hc))
    obtain ⟨ha, hr⟩ := isOperand_of_argument? harg hskip
    intro b hb
    rcases List.mem_cons.1 hb with rfl | hb
    · exact ha
    · exact hmore.isOperand hr b hb

/-- Texts with a separator between them are the first and the others behind separators. -/
theorem toList_intercalate_cons (sep a : String) (texts : List String) :
    (sep.intercalate (a :: texts)).toList
      = a.toList ++ texts.flatMap fun b => sep.toList ++ b.toList := by
  rw [String.toList_intercalate]
  induction texts generalizing a with
  | nil => simp
  | cons b texts ih =>
    rw [List.map_cons, List.map_cons, List.intercalate_cons_cons, ← List.map_cons, ih b]
    simp

theorem arguments?_nil (cs : List Char) :
    arguments? ((Statement.arguments []).toList ++ cs) = some ([], cs) := by
  have hnone : argument? (')' :: cs) = none := argument?_of_endsArgument rfl rfl cs
  have hskip : skipGap (')' :: cs) = ')' :: cs := skipGap_cons_of_not_gap rfl cs
  have htext : (Statement.arguments []).toList ++ cs = '(' :: ')' :: cs := by
    simp [Statement.arguments]
  rw [htext, arguments?]
  simp [hskip, hnone]

theorem toList_arguments_cons (a : String) (args : List String) (cs : List Char) :
    (Statement.arguments (a :: args)).toList ++ cs
      = '(' :: (a.toList ++ (laterArguments args ++ ')' :: cs)) := by
  rw [Statement.arguments, String.toList_append, String.toList_append, toList_intercalate_cons]
  simp [laterArguments]

theorem arguments?_of_readBack {args : List String} (h : ReadBack tail args) :
    arguments? ((Statement.arguments args).toList ++ tail) = some (args, tail) := by
  cases args with
  | nil => exact arguments?_nil tail
  | cons a args =>
    obtain ⟨htrim, hread, hrest⟩ := h
    have hmore := moreArguments_of_readBack hrest (length_le_laterArguments args tail)
    have hskip : skipGap (')' :: tail) = ')' :: tail := skipGap_cons_of_not_gap rfl tail
    rw [toList_arguments_cons, arguments?, skipGap_written htrim, hread]
    dsimp only
    rw [hmore]
    simp [hskip]

/-- An argument list is read back when none of its arguments is empty. -/
theorem arguments?_source (htail : ∀ c ∈ tail, isTargetChar c = true)
    (htail' : ∀ c ∈ tail', isTargetChar c = true) {cs : List Char} {args : List String}
    (h : arguments? cs = some (args, tail)) (hargs : "" ∉ args) :
    arguments? ((Statement.arguments args).toList ++ tail') = some (args, tail') := by
  rcases arguments?_eq_some h with rfl | ⟨cs', a, r, args, rfl, -, harg, hmore⟩
  · exact arguments?_nil tail'
  · -- the first argument is read as if it came behind a comma
    have hcontinues : Continues tail (',' :: cs') (a :: args) := .next harg hmore
    exact arguments?_of_readBack (hcontinues.readBack htail htail' hargs)

/-- A list with an empty argument is not read back. -/
theorem arguments?_source_ne (htail : ∀ c ∈ tail, isTargetChar c = true)
    (htail' : ∀ c ∈ tail', isTargetChar c = true) {cs : List Char} {args : List String}
    (h : arguments? cs = some (args, tail)) (hargs : "" ∈ args) (r : List Char) :
    arguments? ((Statement.arguments args).toList ++ tail') ≠ some (args, r) := by
  rcases arguments?_eq_some h with rfl | ⟨cs', a, r', args, rfl, -, harg, hmore⟩
  · cases hargs
  · obtain ⟨-, x, -, hx⟩ := argument?_eq_some harg
    have htrim : Text.trim a.toList = a.toList := by rw [hx, Text.trim_trim]
    obtain ⟨d, v, hv, hd, hgroup, hends⟩ := exists_laterArguments args tail'
    rw [toList_arguments_cons, arguments?, skipGap_written htrim]
    by_cases hne : a.toList = []
    · -- the first argument is empty: none is read, and the list is empty or not closed
      have hskip : skipGap (d :: v) = d :: v :=
        skipGap_cons_of_not_gap (Text.isGap_of_isBlank hd) v
      rw [hne, List.nil_append, hv, argument?_of_endsArgument hgroup hends]
      dsimp only
      rw [hskip]
      split
      · intro heq
        cases heq
      · nofun
    · have hrest : "" ∈ args := by
        rcases List.mem_cons.1 hargs with rfl | hmem
        · exact absurd rfl hne
        · exact hmem
      have hread := argument?_respaced htail htail' harg hne hmore.ne_nil hd
        fun b hb => hv ▸ hmore.respaced hb
      obtain ⟨front, rest, hstuck⟩ := hmore.stuck htail htail' hrest (d :: v).length
      have hskip : skipGap (',' :: rest) = ',' :: rest := skipGap_cons_of_not_gap rfl rest
      rw [hv] at hstuck
      rw [hv, hread]
      dsimp only
      rw [hstuck]
      simp [hskip]

end

end Line

end StepScript
