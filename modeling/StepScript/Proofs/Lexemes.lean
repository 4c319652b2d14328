import Mathlib.Data.List.TakeWhile
import StepScript.Expr.Token

/-!
# Tokens and their characters

`Lexeme` says which characters a token can be read from, and `Spells` that a text is cut into some
tokens: gaps, and where each gap ends the token that starts there. `scan?` finds just these tokens,
whatever its fuel (`scan?_eq_some_iff`).
-/

set_option autoImplicit false

namespace StepScript

/-- The characters of a symbol. -/
def Symbol.text : Symbol → List Char
  | .plus => ['+']
  | .minus => ['-']
  | .star => ['*']
  | .starStar => ['*', '*']
  | .slash => ['/']
  | .slashSlash => ['/', '/']
  | .percent => ['%']
  | .eqEq => ['=', '=']
  | .notEq => ['!', '=']
  | .less => ['<']
  | .lessEq => ['<', '=']
  | .greater => ['>']
  | .greaterEq => ['>', '=']
  | .openParen => ['(']
  | .closeParen => [')']
  | .openBracket => ['[']
  | .closeBracket => [']']
  | .openBrace => ['\x7b']
  | .closeBrace => ['\x7d']
  | .comma => [',']
  | .colon => [':']
  | .dot => ['.']

theorem Symbol.text_ne_nil (s : Symbol) : s.text ≠ [] := by
  cases s <;> exact List.cons_ne_nil _ _

/-- The bracket that closes an opening one. -/
def Symbol.closer? : Symbol → Option Symbol
  | .openParen => some .closeParen
  | .openBracket => some .closeBracket
  | .openBrace => some .closeBrace
  | _ => none

namespace Token

/-! ## Texts in quotes -/

theorem quoted?_cons {q c : Char} (hc : c ≠ '\\') (cs : List Char) :
    quoted? q (c :: cs) =
      if c = q then some ([], cs) else (quoted? q cs).map fun (s, rest) => (c :: s, rest) := by
  rw [quoted?]
  · simp only [beq_iff_eq]
  · intro d ds hd _
    exact hc hd

/-- What stands behind an opening quote, up to the closing one. -/
inductive Quotation (q : Char) : List Char → Prop where
  | close : Quotation q [q]
  | escaped (c : Char) {inner : List Char} (h : Quotation q inner) :
    Quotation q ('\\' :: c :: inner)
  | plain {c : Char} {inner : List Char} (hslash : c ≠ '\\') (hc : c ≠ q)
    (h : Quotation q inner) : Quotation q (c :: inner)

/-- What stands in quotes is read whatever follows the closing one. -/
theorem quoted?_eq_some {q : Char} (hq : q ≠ '\\') {cs s rest : List Char}
    (h : quoted? q cs = some (s, rest)) :
    ∃ inner, cs = inner ++ rest ∧ Quotation q inner ∧
      ∀ r, quoted? q (inner ++ r) = some (s, r) := by
  fun_induction quoted? q cs generalizing s with
  | case1 => cases h
  | case2 c cs ih =>
    obtain ⟨⟨s', rest'⟩, hread, heq⟩ := Option.map_eq_some_iff.1 h
    cases heq
    obtain ⟨inner, rfl, hquotation, hinner⟩ := ih hread
    exact ⟨'\\' :: c :: inner, rfl, .escaped c hquotation, fun r => by simp [quoted?, hinner r]⟩
  | case3 c cs hplain hc =>
    cases h
    obtain rfl : c = q := by simpa using hc
    refine ⟨[c], rfl, .close, fun r => ?_⟩
    rw [List.singleton_append, quoted?_cons hq, if_pos rfl]
  | case4 c cs hplain hc ih =>
    obtain ⟨⟨s', rest'⟩, hread, heq⟩ := Option.map_eq_some_iff.1 h
    cases heq
    obtain ⟨inner, rfl, hquotation, hinner⟩ := ih hread
    have hslash : c ≠ '\\' := by
      rintro rfl
      cases hcs : inner ++ rest with
      | nil =>
        rw [hcs] at hread
        cases hread
      | cons d ds => exact hplain d ds rfl hcs
    have hc : c ≠ q := by simpa using hc
    refine ⟨c :: inner, rfl, .plain hslash hc hquotation, fun r => ?_⟩
    rw [List.cons_append, quoted?_cons hslash, if_neg hc, hinner r]
    rfl

/-! ## Lexemes -/

/-- The character stands in names and numbers only, or is a sign. -/
def isWordChar (c : Char) : Bool :=
  Text.isNameChar c || c == '.' || c == '+' || c == '-'

/-- The characters that a token can be read from. -/
inductive Lexeme : Token → List Char → Prop where
  | symbol (s : Symbol) : Lexeme (.symbol s) s.text
  | text {q : Char} {inner s : List Char} (hq : q = '"' ∨ q = '\'')
      (h : ∀ r, quoted? q (inner ++ r) = some (s, r)) :
      Lexeme (.text (String.ofList s)) (q :: inner)
  | word {t : Token} {cs : List Char} (ht : ∀ s, t ≠ .symbol s) (hne : cs ≠ [])
      (hcs : ∀ c ∈ cs, isWordChar c = true) : Lexeme t cs

theorem Lexeme.ne_nil {t : Token} {cs : List Char} (h : Lexeme t cs) : cs ≠ [] := by
  cases h with
  | symbol s => exact s.text_ne_nil
  | text hq h => exact List.cons_ne_nil _ _
  | word ht hne hcs => exact hne

theorem isWordChar_of_isDigit {c : Char} (h : Text.isDigit c = true) : isWordChar c = true := by
  simp [isWordChar, Text.isNameChar, h]

/-- A run of digits and what comes behind it. -/
private theorem exists_digits (cs : List Char) :
    ∃ front, cs = front ++ cs.dropWhile Text.isDigit ∧ ∀ c ∈ front, isWordChar c = true :=
  ⟨cs.takeWhile Text.isDigit, List.takeWhile_append_dropWhile.symm,
    fun _ hc => isWordChar_of_isDigit (List.mem_takeWhile_imp hc)⟩

private theorem exists_signed (cs : List Char) :
    ∃ front, cs = front ++ (Text.signed cs).2 ∧ ∀ c ∈ front, isWordChar c = true := by
  unfold Text.signed
  split
  · exact ⟨['-'], rfl, List.forall_mem_singleton.2 rfl⟩
  · exact ⟨['+'], rfl, List.forall_mem_singleton.2 rfl⟩
  · exact ⟨[], rfl, by simp⟩

private theorem exists_exponent {cs rest : List Char} {e : Int}
    (h : exponent? cs = some (e, rest)) :
    ∃ front, cs = front ++ rest ∧ ∀ c ∈ front, isWordChar c = true := by
  unfold exponent? at h
  split at h
  · next c cs =>
    dsimp only at h
    split at h
    · next hmark =>
      cases h
      obtain ⟨sign, hsign, hsignChars⟩ := exists_signed cs
      obtain ⟨front, hfront, hchars⟩ := exists_digits (Text.signed cs).2
      have hc : isWordChar c = true := by
        rcases Bool.or_eq_true_iff.1 (Bool.and_eq_true_iff.1 hmark).1 with hc | hc
        · rw [eq_of_beq hc]
          decide
        · rw [eq_of_beq hc]
          decide
      refine ⟨c :: (sign ++ front), ?_, fun d hd => ?_⟩
      · rw [List.cons_append, List.append_assoc, ← hfront, ← hsign]
      · rcases List.mem_cons.1 hd with rfl | hd
        · exact hc
        · exact (List.mem_append.1 hd).elim (hsignChars d) (hchars d)
    · cases h
  · cases h

/-- A text that starts with a number starts with a digit, or with a point behind no digits. -/
private theorem dropWhile_of_startsNumber {cs : List Char} (h : startsNumber cs = true)
    (hdigits : cs.dropWhile Text.isDigit = cs) : ∃ rest, cs = '.' :: rest := by
  unfold startsNumber at h
  split at h
  · exact ⟨_, rfl⟩
  · next c rest _ =>
    have hlength := congrArg List.length hdigits
    have hle := (List.dropWhile_suffix Text.isDigit (l := rest)).length_le
    simp only [List.dropWhile_cons, h, if_true, List.length_cons] at hlength
    omega
  · cases h

/-- A number is made of digits, a point and an exponent. -/
private theorem exists_number {cs : List Char} (h : startsNumber cs = true) :
    ∃ front, cs = front ++ (number cs).2 ∧ Lexeme (number cs).1 front := by
  obtain ⟨whole, hwhole, hchars⟩ := exists_digits cs
  unfold number
  dsimp only
  split
  · next rest hrest =>
    obtain ⟨fraction, hfraction, hchars'⟩ := exists_digits rest
    have hcs : cs = (whole ++ '.' :: fraction) ++ rest.dropWhile Text.isDigit := by
      rw [List.append_assoc, List.cons_append, ← hfraction, ← hrest, ← hwhole]
    have hfront : ∀ c ∈ whole ++ '.' :: fraction, isWordChar c = true := by
      intro c hc
      rcases List.mem_append.1 hc with hc | hc
      · exact hchars c hc
      · rcases List.mem_cons.1 hc with rfl | hc
        · decide
        · exact hchars' c hc
    split
    · next e r hexp =>
      obtain ⟨exp, hr, hexpChars⟩ := exists_exponent hexp
      refine ⟨_ ++ exp, by rw [List.append_assoc, ← hr, ← hcs], .word (by simp) (by simp) ?_⟩
      exact fun c hc => (List.mem_append.1 hc).elim (hfront c) (hexpChars c)
    · exact ⟨_, hcs, .word (by simp) (by simp) hfront⟩
  · next hpoint =>
    have hne : whole ≠ [] := by
      rintro rfl
      obtain ⟨rest, hrest⟩ := dropWhile_of_startsNumber h hwhole.symm
      exact hpoint rest (hwhole.symm.trans hrest)
    split
    · next e r hexp =>
      obtain ⟨exp, hr, hexpChars⟩ := exists_exponent hexp
      refine ⟨whole ++ exp, by rw [List.append_assoc, ← hr, ← hwhole],
        .word (by simp) (by simp [hne]) ?_⟩
      exact fun c hc => (List.mem_append.1 hc).elim (hchars c) (hexpChars c)
    · exact ⟨whole, hwhole, .word (by simp) hne hchars⟩

theorem symbol?_eq_some {cs rest : List Char} {s : Symbol} (h : symbol? cs = some (s, rest)) :
    cs = s.text ++ rest := by
  unfold symbol? at h
  split at h <;> cases h <;> rfl

/-- A token is read from its lexeme. -/
theorem lexeme_of_next? {cs rest : List Char} {t : Token} (h : next? cs = some (t, rest)) :
    ∃ front, cs = front ++ rest ∧ Lexeme t front := by
  unfold next? at h
  split at h
  · cases h
  · next c cs =>
    split at h
    · next hnumber =>
      have hread := exists_number hnumber
      rw [Option.some.inj h] at hread
      exact hread
    · split at h
      · next hstart =>
        cases h
        refine ⟨_, List.takeWhile_append_dropWhile.symm, .word (by simp) ?_ fun d hd => ?_⟩
        · have hc : Text.isNameChar c = true := by simp [Text.isNameChar, hstart]
          simp [hc]
        · simp [isWordChar, List.mem_takeWhile_imp hd]
      · split at h
        · next hquote =>
          obtain ⟨⟨s, r⟩, hread, heq⟩ := Option.map_eq_some_iff.1 h
          cases heq
          have hq : c = '"' ∨ c = '\'' := by simpa using hquote
          have hslash : c ≠ '\\' := by rcases hq with rfl | rfl <;> decide
          obtain ⟨inner, rfl, -, hinner⟩ := quoted?_eq_some hslash hread
          exact ⟨c :: inner, rfl, .text hq hinner⟩
        · obtain ⟨⟨s, r⟩, hread, heq⟩ := Option.map_eq_some_iff.1 h
          cases heq
          exact ⟨s.text, symbol?_eq_some hread, .symbol s⟩

/-! ## Texts and their tokens -/

/-- The text is cut into the tokens: gaps, and behind each gap the token that starts there. -/
inductive Spells : List Char → List Token → Prop where
  | done {gap : List Char} (hgap : ∀ c ∈ gap, Text.isGap c = true) : Spells gap []
  | token {gap cs rest : List Char} {t : Token} {ts : List Token}
      (hgap : ∀ c ∈ gap, Text.isGap c = true) (hnext : next? cs = some (t, rest))
      (hrest : Spells rest ts) : Spells (gap ++ cs) (t :: ts)

theorem Spells.cons {cs rest : List Char} {t : Token} {ts : List Token}
    (hnext : next? cs = some (t, rest)) (hrest : Spells rest ts) : Spells cs (t :: ts) :=
  @Spells.token [] cs rest t ts (by simp) hnext hrest

theorem Spells.space {cs : List Char} {ts : List Token} (h : Spells cs ts) :
    Spells (' ' :: cs) ts := by
  cases h with
  | done hgap => exact .done (List.forall_mem_cons.2 ⟨rfl, hgap⟩)
  | @token gap cs rest t ts hgap hnext hrest =>
    exact @Spells.token (' ' :: gap) cs rest t ts (List.forall_mem_cons.2 ⟨rfl, hgap⟩) hnext hrest

/-- No token starts with a gap. -/
theorem next?_gap {c : Char} (hc : Text.isGap c = true) (cs : List Char) :
    next? (c :: cs) = none := by
  simp only [Text.isGap, Bool.or_eq_true, beq_iff_eq] at hc
  rcases hc with rfl | rfl <;> rfl

theorem spells_of_scanWith {fuel : Nat} {cs : List Char} {ts : List Token}
    (h : scanWith fuel cs = some ts) : Spells cs ts := by
  induction fuel generalizing cs ts with
  | zero =>
    rw [scanWith] at h
    split at h
    · next hgap =>
      cases h
      exact .done (List.dropWhile_eq_nil_iff.1 (List.isEmpty_iff.1 hgap))
    · cases h
  | succ fuel ih =>
    rw [scanWith] at h
    split at h
    · next hgap =>
      cases h
      exact .done (List.dropWhile_eq_nil_iff.1 hgap)
    · split at h
      · cases h
      · next t rest hnext =>
        obtain ⟨ts', hts, rfl⟩ := Option.map_eq_some_iff.1 h
        rw [← List.takeWhile_append_dropWhile (p := Text.isGap) (l := cs)]
        exact .token (fun c hc => List.mem_takeWhile_imp hc) hnext (ih hts)

theorem scanWith_of_spells {fuel : Nat} {cs : List Char} {ts : List Token} (h : Spells cs ts)
    (hfuel : cs.length ≤ fuel) : scanWith fuel cs = some ts := by
  induction h generalizing fuel with
  | @done gap hgap =>
    have hnil : gap.dropWhile Text.isGap = [] := List.dropWhile_eq_nil_iff.2 hgap
    cases fuel with
    | zero => simp [scanWith, hnil]
    | succ fuel => simp [scanWith, hnil]
  | @token gap cs rest t ts hgap hnext _ ih =>
    -- every token has a character, so the fuel does for those behind it
    obtain ⟨front, hcs, hfront⟩ := lexeme_of_next? hnext
    have hpos := List.length_pos_iff.2 hfront.ne_nil
    have hlength := congrArg List.length hcs
    simp only [List.length_append] at hfuel hlength
    obtain ⟨fuel, rfl⟩ : ∃ k, fuel = k + 1 := ⟨fuel - 1, by omega⟩
    obtain ⟨c, cs, rfl⟩ := List.exists_cons_of_length_pos (l := cs) (by omega)
    have hc : Text.isGap c = false := by
      rw [← Bool.not_eq_true]
      intro hgap
      rw [next?_gap hgap] at hnext
      cases hnext
    have hdrop : (gap ++ c :: cs).dropWhile Text.isGap = c :: cs := by
      rw [List.dropWhile_append_of_pos hgap, List.dropWhile_cons_of_neg (by simp [hc])]
    rw [scanWith, hdrop]
    dsimp only
    rw [hnext]
    dsimp only
    rw [ih (by omega)]
    rfl

/-- Scanning gives the tokens that the text is cut into. -/
theorem scan?_eq_some_iff {cs : List Char} {ts : List Token} :
    scan? cs = some ts ↔ Spells cs ts :=
  ⟨spells_of_scanWith, fun h => scanWith_of_spells h (Nat.le_refl _)⟩

end Token

end StepScript
