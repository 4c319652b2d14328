import StepScript.Machine.Assignment
import StepScript.Proofs.Phrases
import StepScript.Proofs.WellFormed

/-!
# Assignments and expressions

Content without a keyword is looked at twice: a scan over its characters cuts it at an equals sign,
and where there is none to cut at, it is read as an expression. The scan knows quotes and brackets,
but no expressions. It agrees with the grammar all the same: an expression is never cut, and an
assignment is cut at its own sign.

The scan goes over a closed phrase as a whole (`PassesAt`). In a phrase with operators it may meet
the sign of a comparison, and then finds that it has no assignment before it (`Settles`). That the
sign is not taken for one of two in a row is where the grammar comes in: an operand follows, and
no operand starts with an equals sign.
-/

set_option autoImplicit false

namespace StepScript

/-- The token is a symbol with an equals sign. -/
def Token.hasSign : Token → Bool
  | .symbol .eqEq | .symbol .notEq | .symbol .lessEq | .symbol .greaterEq => true
  | _ => false

namespace Assignment

open Token Line

/-! ## One character -/

section

variable {c q : Char} {text : List Char} {depth : Int}

theorem cut?_escape (c : Char) (text passed : List Char) (depth : Int) (q : Char) :
    cut? ('\\' :: c :: text) passed depth (some q)
      = cut? text (c :: '\\' :: passed) depth (some q) := by
  rw [cut?]

theorem cut?_quoted (hc : c ≠ '\\') (text passed : List Char) (depth : Int) :
    cut? (c :: text) passed depth (some q)
      = cut? text (c :: passed) depth (if c = q then none else some q) := by
  rw [cut?]
  · simp only [beq_iff_eq]
  · intro d ds hslash _
    exact hc hslash

theorem cut?_twoSigns (text passed : List Char) :
    cut? ('=' :: '=' :: text) passed 0 none = cut? text ('=' :: '=' :: passed) 0 none := by
  rw [cut?]

theorem cut?_sign (htext : text.head? ≠ some '=') (passed : List Char) :
    cut? ('=' :: text) passed 0 none = some (passed, text) := by
  rw [cut?]
  rintro text rfl
  exact htext rfl

/-- In brackets an equals sign is a character like any other. -/
theorem cut?_other (hc : c ≠ '=' ∨ depth ≠ 0) (text passed : List Char) :
    cut? (c :: text) passed depth none =
      if c = '"' ∨ c = '\'' then cut? text (c :: passed) depth (some c)
      else cut? text (c :: passed) (depth + deeper c) none := by
  rw [cut?]
  · simp only [beq_iff_eq, Bool.or_eq_true]
  · rintro _ rfl rfl
    simp at hc
  · rintro rfl rfl
    simp at hc

end

/-! ## Texts that the scan goes over -/

/-- The scan goes over the text at a depth in brackets. -/
def PassesAt (depth : Int) (cs : List Char) : Prop :=
  ∀ passed r, cut? (cs ++ r) passed depth none = cut? r (cs.reverse ++ passed) depth none

namespace PassesAt

variable {depth : Int} {cs cs' : List Char}

theorem append (h : PassesAt depth cs) (h' : PassesAt depth cs') : PassesAt depth (cs ++ cs') := by
  intro passed r
  rw [List.append_assoc, h, h', List.reverse_append, List.append_assoc]

theorem plain (h : ∀ c ∈ cs, (c ≠ '=' ∨ depth ≠ 0) ∧ ¬(c = '"' ∨ c = '\'') ∧ deeper c = 0) :
    PassesAt depth cs := by
  induction cs with
  | nil => exact fun _ _ => rfl
  | cons c cs ih =>
    obtain ⟨⟨hsign, hquote, hdeeper⟩, hcs⟩ := List.forall_mem_cons.1 h
    intro passed r
    rw [List.cons_append, cut?_other hsign, if_neg hquote, hdeeper, Int.add_zero, ih hcs,
      List.reverse_cons, List.append_assoc, List.singleton_append]

theorem gap (h : ∀ c ∈ cs, Text.isGap c = true) : PassesAt depth cs := by
  refine plain fun c hc => ?_
  have hgap : c = ' ' ∨ c = '\t' := by simpa [Text.isGap] using h c hc
  rcases hgap with rfl | rfl <;> exact ⟨Or.inl (by decide), by decide⟩

/-- The end of a quote is found where the token ends. -/
theorem cut?_quotation (depth : Int) {q : Char} {inner : List Char} (hq : q ≠ '\\')
    (h : Quotation q inner) (passed r : List Char) :
    cut? (inner ++ r) passed depth (some q) = cut? r (inner.reverse ++ passed) depth none := by
  induction h generalizing passed with
  | close =>
    rw [List.singleton_append, cut?_quoted hq, if_pos rfl]
    rfl
  | escaped c _ ih =>
    rw [List.cons_append, List.cons_append, cut?_escape, ih]
    simp
  | plain hslash hc _ ih =>
    rw [List.cons_append, cut?_quoted hslash, if_neg hc, ih]
    simp

theorem quoted {q : Char} {s : List Char} (hq : q = '"' ∨ q = '\'')
    (h : ∀ r, quoted? q (cs ++ r) = some (s, r)) : PassesAt depth (q :: cs) := by
  have hslash : q ≠ '\\' := by
    rcases hq with rfl | rfl <;> decide
  have hsign : q ≠ '=' := by
    rcases hq with rfl | rfl <;> decide
  obtain ⟨inner, hinner, hquotation, -⟩ := quoted?_eq_some hslash (h [])
  rw [List.append_nil, List.append_nil] at hinner
  subst hinner
  intro passed r
  rw [List.cons_append, cut?_other (Or.inl hsign), if_pos hq, cut?_quotation depth hslash hquotation]
  simp

theorem group {c closer : Char} (hc : closerOf? c = some closer) (hdepth : 0 ≤ depth)
    (h : PassesAt (depth + 1) cs) : PassesAt depth (c :: (cs ++ [closer])) := by
  have hchars : c ≠ '=' ∧ ¬(c = '"' ∨ c = '\'') ∧ deeper c = 1 ∧
      ¬(closer = '"' ∨ closer = '\'') ∧ deeper closer = -1 := by
    rcases eq_of_closerOf? hc with ⟨rfl, rfl⟩ | ⟨rfl, rfl⟩ | ⟨rfl, rfl⟩ <;> decide
  obtain ⟨hsign, hquote, hdeeper, hquote', hdeeper'⟩ := hchars
  intro passed r
  rw [List.cons_append, List.append_assoc, cut?_other (Or.inl hsign), if_neg hquote, hdeeper, h,
    List.singleton_append, cut?_other (Or.inr (by omega)), if_neg hquote', hdeeper',
    Int.add_neg_cancel_right]
  simp

end PassesAt

/-! ## Tokens -/

theorem calm_of_isWordChar {c : Char} (h : isWordChar c = true) :
    c ≠ '=' ∧ ¬(c = '"' ∨ c = '\'') ∧ deeper c = 0 := by
  have hne {d : Char} (hd : isWordChar d = false) : c ≠ d := by
    rintro rfl
    rw [h] at hd
    cases hd
  refine ⟨hne rfl, not_or.2 ⟨hne rfl, hne rfl⟩, ?_⟩
  unfold deeper
  rw [if_neg, if_neg]
  · simp only [Bool.or_eq_true, beq_iff_eq, not_or]
    exact ⟨⟨hne rfl, hne rfl⟩, hne rfl⟩
  · simp only [Bool.or_eq_true, beq_iff_eq, not_or]
    exact ⟨⟨hne rfl, hne rfl⟩, hne rfl⟩

/-- A token is gone over, in brackets also one with an equals sign. -/
theorem passesAt_of_lexeme {depth : Int} {t : Token} {cs : List Char} (ht : t.isPlain = true)
    (hsign : t.hasSign = false ∨ depth ≠ 0) (h : Lexeme t cs) : PassesAt depth cs := by
  cases h with
  | text hq h => exact .quoted hq h
  | word _ _ hcs =>
    refine .plain fun c hc => ?_
    obtain ⟨hne, hplain⟩ := calm_of_isWordChar (hcs c hc)
    exact ⟨Or.inl hne, hplain⟩
  | symbol s =>
    have hchars : ∀ c ∈ s.text, ((Token.symbol s).hasSign = false → c ≠ '=') ∧
        ¬(c = '"' ∨ c = '\'') ∧ deeper c = 0 := by
      cases s with
      | openParen | closeParen | openBracket | closeBracket | openBrace | closeBrace => cases ht
      | _ => simp [Symbol.text, Token.hasSign, deeper]
    exact .plain fun c hc => ⟨hsign.imp_left (hchars c hc).1, (hchars c hc).2⟩

/-- In brackets the text of balanced tokens is gone over. -/
theorem followsBrackets_passesAt :
    FollowsBrackets fun _ cs => ∀ depth : Int, 0 < depth → PassesAt depth cs where
  append h h' depth hdepth := (h depth hdepth).append (h' depth hdepth)
  gap h _ _ := .gap h
  lexeme ht h depth hdepth := passesAt_of_lexeme ht (Or.inr (by omega)) h
  comma depth hdepth := .plain (by simp [deeper])
  group hc h depth hdepth := .group hc (by omega) (h (depth + 1) (by omega))

/-- The first character of the text is there and is no equals sign. -/
def StartsPlain (cs : List Char) : Prop :=
  ∃ c rest, cs = c :: rest ∧ c ≠ '='

namespace StartsPlain

variable {cs : List Char}

theorem head (h : StartsPlain cs) (r : List Char) : (cs ++ r).head? ≠ some '=' := by
  obtain ⟨c, rest, rfl, hc⟩ := h
  simpa using hc

theorem append (h : StartsPlain cs) (cs' : List Char) : StartsPlain (cs ++ cs') := by
  obtain ⟨c, rest, rfl, hc⟩ := h
  exact ⟨c, rest ++ cs', rfl, hc⟩

theorem gap {gap : List Char} (hgap : ∀ c ∈ gap, Text.isGap c = true) (h : StartsPlain cs) :
    StartsPlain (gap ++ cs) := by
  cases gap with
  | nil => exact h
  | cons c gap =>
    refine ⟨c, gap ++ cs, rfl, ?_⟩
    rintro rfl
    cases hgap '=' List.mem_cons_self

theorem of_lexeme {t : Token} (hsign : t.hasSign = false) (h : Lexeme t cs) : StartsPlain cs := by
  cases h with
  | text hq h =>
    refine ⟨_, _, rfl, ?_⟩
    rcases hq with rfl | rfl <;> decide
  | word _ hne hcs =>
    obtain ⟨c, rest, rfl⟩ := List.exists_cons_of_ne_nil hne
    exact ⟨c, rest, rfl, (calm_of_isWordChar (hcs c List.mem_cons_self)).1⟩
  | symbol s =>
    cases s with
    | eqEq | notEq | lessEq | greaterEq => cases hsign
    | _ => exact ⟨_, _, rfl, by decide⟩

end StartsPlain

/-! ## Phrases -/

/-- The scan goes over the text, or it ends at the sign of a comparison in it. -/
def Settles (cs : List Char) : Prop :=
  ∀ passed r, cut? (cs ++ r) passed 0 none = cut? r (cs.reverse ++ passed) 0 none ∨
    ∃ before after, cut? (cs ++ r) passed 0 none = some (before, after) ∧ operator? before = none

theorem PassesAt.settles {cs : List Char} (h : PassesAt 0 cs) : Settles cs :=
  fun passed r => Or.inl (h passed r)

theorem Settles.append {cs cs' : List Char} (h : Settles cs) (h' : Settles cs') :
    Settles (cs ++ cs') := by
  intro passed r
  rw [List.append_assoc, List.reverse_append, List.append_assoc]
  rcases h passed (cs' ++ r) with hpass | hcut
  · rw [hpass]
    exact h' _ r
  · exact Or.inr hcut

/-- A comparison has its sign where no assignment can be. -/
theorem settles_of_comparison {c : Char} {cs : List Char} (hc : c = '!' ∨ c = '<' ∨ c = '>')
    (hstart : StartsPlain cs) : Settles (c :: '=' :: cs) := by
  intro passed r
  refine Or.inr ⟨c :: passed, cs ++ r, ?_, ?_⟩
  · have hcalm : c ≠ '=' ∧ ¬(c = '"' ∨ c = '\'') ∧ deeper c = 0 := by
      rcases hc with rfl | rfl | rfl <;> decide
    obtain ⟨hne, hquote, hdeeper⟩ := hcalm
    rw [List.cons_append, cut?_other (Or.inl hne), if_neg hquote, hdeeper, Int.add_zero,
      List.cons_append, cut?_sign (hstart.head r)]
  · rcases hc with rfl | rfl | rfl <;> rfl

/-- An operator and the operand behind it. -/
theorem settles_of_operator {t : Token} {op cs : List Char} (ht : t.isPlain = true)
    (hop : Lexeme t op) (h : Settles cs) (hstart : StartsPlain cs) : Settles (op ++ cs) := by
  by_cases hsign : t.hasSign = true
  · cases t with
    | symbol s =>
      rw [eq_of_lexeme_symbol hop]
      cases s with
      | eqEq =>
        have htwo : PassesAt 0 Symbol.eqEq.text := fun passed r => cut?_twoSigns r passed
        exact htwo.settles.append h
      | notEq | lessEq | greaterEq => exact settles_of_comparison (by decide) hstart
      | _ => cases hsign
    | _ => cases hsign
  · exact (passesAt_of_lexeme ht (Or.inl (Bool.eq_false_iff.2 hsign)) hop).settles.append h

/-- What the scan makes of the text of a phrase. -/
structure Scanned (closed : Bool) (cs : List Char) : Prop where
  passes : closed = true → PassesAt 0 cs
  settles : Settles cs
  start : StartsPlain cs

theorem scanned_of_passesAt {closed : Bool} {cs : List Char} (h : PassesAt 0 cs)
    (hstart : StartsPlain cs) : Scanned closed cs :=
  ⟨fun _ => h, h.settles, hstart⟩

/-- A token without a sign, with the gap in front of it. -/
theorem exists_token {cs : List Char} {t : Token} {ts : List Token} (ht : t.isPlain = true)
    (hsign : t.hasSign = false) (hcs : Spells cs (t :: ts)) :
    ∃ front rest, cs = front ++ rest ∧ PassesAt 0 front ∧ StartsPlain front ∧ Spells rest ts := by
  obtain ⟨gap, front, rest, hgap, hfront, rfl, hrest⟩ := exists_of_spells_cons hcs
  refine ⟨gap ++ front, rest, by simp, ?_, .gap hgap (.of_lexeme hsign hfront), hrest⟩
  exact (PassesAt.gap hgap).append (passesAt_of_lexeme ht (Or.inl hsign) hfront)

/-- A pair of brackets with all that is in it. -/
theorem exists_group {cs : List Char} {s close : Symbol} {inner ts : List Token}
    (hs : s.closer? = some close) (hinner : Balanced true inner)
    (hcs : Spells cs (.symbol s :: (inner ++ .symbol close :: ts))) :
    ∃ front rest, cs = front ++ rest ∧ PassesAt 0 front ∧ StartsPlain front ∧ Spells rest ts := by
  obtain ⟨gap, front, r₁, hgap, hfront, rfl, hr₁⟩ := exists_of_spells_cons hcs
  obtain ⟨within, r₂, rfl, hwithin, hr₂⟩ := followsBrackets_passesAt.of_balanced hinner hr₁
  obtain ⟨gap', front', rest, hgap', hfront', rfl, hrest⟩ := exists_of_spells_cons hr₂
  obtain ⟨c, closer, hc, hcloser, hpair⟩ := exists_closerOf? hs
  have hstart : StartsPlain front := .of_lexeme (by cases s <;> first | rfl | cases hs) hfront
  rw [eq_of_lexeme_symbol hfront, hc] at hstart ⊢
  rw [eq_of_lexeme_symbol hfront', hcloser]
  refine ⟨gap ++ (c :: (within ++ gap' ++ [closer])), rest, by simp, ?_, ?_, hrest⟩
  · have hinside : PassesAt 1 (within ++ gap') := (hwithin 1 Int.one_pos).append (.gap hgap')
    exact (PassesAt.gap hgap).append (.group hpair (Int.le_refl 0) hinside)
  · exact .gap hgap (hstart.append (within ++ gap' ++ [closer]))

/-- **The scan goes over a closed phrase, and settles on any.** -/
theorem scanned_of_phrase {closed : Bool} {ts : List Token} (h : Phrase closed ts)
    {cs : List Char} {us : List Token} (hcs : Spells cs (ts ++ us)) :
    ∃ front rest, cs = front ++ rest ∧ Scanned closed front ∧ Spells rest us := by
  induction h generalizing cs us with
  | @operand t ht =>
    have htoken : t.isPlain = true ∧ t.hasSign = false := by
      cases t with
      | symbol s => cases ht
      | _ => exact ⟨rfl, rfl⟩
    obtain ⟨front, rest, rfl, hpass, hstart, hrest⟩ := exists_token htoken.1 htoken.2 hcs
    exact ⟨front, rest, rfl, scanned_of_passesAt hpass hstart, hrest⟩
  | group hs hinner =>
    rw [List.cons_append, List.append_assoc] at hcs
    obtain ⟨front, rest, rfl, hpass, hstart, hrest⟩ := exists_group hs hinner hcs
    exact ⟨front, rest, rfl, scanned_of_passesAt hpass hstart, hrest⟩
  | applied _ hs hinner ih =>
    rw [List.append_assoc, List.cons_append, List.append_assoc] at hcs
    obtain ⟨first, r₁, rfl, hfirst, hr₁⟩ := ih hcs
    obtain ⟨front, rest, rfl, hpass, -, hrest⟩ := exists_group hs hinner hr₁
    refine ⟨first ++ front, rest, by simp, ?_, hrest⟩
    exact scanned_of_passesAt ((hfirst.passes rfl).append hpass) (hfirst.start.append front)
  | field _ ih =>
    rw [List.append_assoc] at hcs
    obtain ⟨first, r₁, rfl, hfirst, hr₁⟩ := ih hcs
    obtain ⟨dot, r₂, rfl, hdot, -, hr₂⟩ := exists_token rfl rfl hr₁
    obtain ⟨word, rest, rfl, hword, -, hrest⟩ := exists_token rfl rfl hr₂
    refine ⟨first ++ (dot ++ word), rest, by simp, ?_, hrest⟩
    exact scanned_of_passesAt ((hfirst.passes rfl).append (hdot.append hword))
      (hfirst.start.append (dot ++ word))
  | @unary _ t _ ht _ ih =>
    have htoken : t.isPlain = true ∧ t.hasSign = false := by
      unfold Token.isFront at ht
      split at ht <;> first | exact ⟨rfl, rfl⟩ | cases ht
    obtain ⟨front, r₁, rfl, hpass, hstart, hr₁⟩ := exists_token htoken.1 htoken.2 hcs
    obtain ⟨last, rest, rfl, hlast, hrest⟩ := ih hr₁
    refine ⟨front ++ last, rest, by simp, ⟨nofun, ?_, hstart.append last⟩, hrest⟩
    exact hpass.settles.append hlast.settles
  | binary _ ht _ ih ih' =>
    rw [List.append_assoc] at hcs
    obtain ⟨first, r₁, rfl, hfirst, hr₁⟩ := ih hcs
    obtain ⟨gap, op, r₂, hgap, hop, rfl, hr₂⟩ := exists_of_spells_cons hr₁
    obtain ⟨last, rest, rfl, hlast, hrest⟩ := ih' hr₂
    have hoperator : Settles (op ++ last) := settles_of_operator ht hop hlast.settles hlast.start
    refine ⟨first ++ (gap ++ (op ++ last)), rest, by simp, ?_, hrest⟩
    refine ⟨nofun, ?_, hfirst.start.append _⟩
    exact hfirst.settles.append ((PassesAt.gap hgap).settles.append hoperator)

/-! ## Texts of expressions -/

theorem scanned_of_parse {text : String} {e : Expr} (h : Expr.parse text = .ok e) :
    ∃ front gap, text.toList = front ++ gap ∧ (∀ c ∈ gap, Text.isGap c = true) ∧ Settles front ∧
      (e.isPlace = true → PassesAt 0 text.toList) := by
  obtain ⟨ts, closed, hspells, hphrase, hplace⟩ := Expr.phrase_of_parse h
  rw [← List.append_nil ts] at hspells
  obtain ⟨front, rest, heq, hfront, hrest⟩ := scanned_of_phrase hphrase hspells
  cases hrest with
  | done hgap =>
    refine ⟨front, rest, heq, hgap, hfront.settles, fun he => ?_⟩
    rw [heq]
    exact (hfront.passes (hplace he)).append (.gap hgap)

/-- An expression is no assignment. -/
theorem ofText?_of_parse {text : String} {e : Expr} (h : Expr.parse text = .ok e) :
    ofText? text = none := by
  obtain ⟨front, gap, heq, hgap, hsettles, -⟩ := scanned_of_parse h
  unfold ofText?
  rw [heq]
  rcases hsettles [] gap with hpass | ⟨before, after, hcut, hop⟩
  · have hnone : cut? gap (front.reverse ++ []) 0 none = none := by
      have hgone : PassesAt 0 gap := .gap hgap
      rw [← List.append_nil gap, hgone, cut?]
    rw [hpass, hnone]
    rfl
  · rw [hcut]
    simp [hop]

/-- The operators that an assignment can combine the old value with; none replaces it. -/
def operators : List (Option BinaryOp) :=
  [none, some .add, some .sub, some .mul, some .div, some .floorDiv, some .mod, some .pow]

/-- The spelling of the operator of an assignment. -/
def operatorText : Option BinaryOp → String
  | none => ""
  | some op => op.symbol

theorem passesAt_operatorText {op : Option BinaryOp} (hop : op ∈ operators) :
    PassesAt 0 (operatorText op).toList := by
  simp only [operators, List.mem_cons, List.not_mem_nil, or_false] at hop
  refine .plain ?_
  rcases hop with rfl | rfl | rfl | rfl | rfl | rfl | rfl | rfl <;>
    simp [operatorText, BinaryOp.symbol, deeper]

theorem operator?_operatorText {op : Option BinaryOp} (hop : op ∈ operators)
    (before : List Char) :
    operator? ((operatorText op).toList.reverse ++ ' ' :: before) = some (op, ' ' :: before) := by
  simp only [operators, List.mem_cons, List.not_mem_nil, or_false] at hop
  rcases hop with rfl | rfl | rfl | rfl | rfl | rfl | rfl | rfl <;> rfl

/-- The space behind a text goes when the text is trimmed. -/
theorem trim_space {cs : List Char} (h : Text.trim cs = cs) (hne : cs ≠ []) :
    Text.trim (cs ++ [' ']) = cs := by
  obtain ⟨hhead, hlast⟩ := Text.trim_eq_self_iff.1 h
  have hstart : Text.trimStart (cs ++ [' ']) = cs ++ [' '] := by
    rw [Text.trimStart_eq_self_iff]
    obtain ⟨c, rest, rfl⟩ := List.exists_cons_of_ne_nil hne
    exact hhead
  have hend : Text.trimEnd (cs ++ [' ']) = Text.trimEnd cs := by
    rw [Text.trimEnd, List.reverse_append]
    rfl
  rw [Text.trim, hstart, hend, Text.trimEnd_eq_self_iff.2 hlast]

/-- An assignment is cut at its own sign. -/
theorem ofText?_spelled {t e : String} {op : Option BinaryOp} (ht : Statement.IsPlaceText t)
    (he : IsExprText e) (hop : op ∈ operators) :
    ofText? (t ++ " " ++ operatorText op ++ "= " ++ e) = some ⟨t, op, e⟩ := by
  have hne : t.toList ≠ [] := ht.isExprText.ne_nil
  obtain ⟨htrim, place, hparse, hplace⟩ := ht
  obtain ⟨-, -, -, -, -, hpass⟩ := scanned_of_parse hparse
  have htext : (t ++ " " ++ operatorText op ++ "= " ++ e).toList
      = (t.toList ++ ([' '] ++ (operatorText op).toList)) ++ '=' :: ' ' :: e.toList := by
    simp
  have hfront : PassesAt 0 (t.toList ++ ([' '] ++ (operatorText op).toList)) :=
    (hpass hplace).append
      ((PassesAt.gap (List.forall_mem_singleton.2 rfl)).append (passesAt_operatorText hop))
  have hbefore : (t.toList ++ ([' '] ++ (operatorText op).toList)).reverse ++ []
      = (operatorText op).toList.reverse ++ ' ' :: t.toList.reverse := by
    simp
  have htarget : Text.trim (' ' :: t.toList.reverse).reverse = t.toList := by
    rw [List.reverse_cons, List.reverse_reverse, trim_space htrim hne]
  have hexpr : Text.trim (' ' :: e.toList) = e.toList :=
    (Text.trim_append_left (List.forall_mem_singleton.2 rfl) e.toList).trans he.1
  unfold ofText?
  rw [htext, hfront, cut?_sign (by simp), hbefore]
  have hsome : (t.toList.isEmpty || e.toList.isEmpty) = false := by
    rw [Bool.or_eq_false_iff, List.isEmpty_eq_false_iff, List.isEmpty_eq_false_iff]
    exact ⟨hne, he.ne_nil⟩
  simp only [Option.bind_eq_bind, Option.bind_some, operator?_operatorText hop, htarget, hexpr,
    hsome, String.ofList_toList]
  rfl

/-- **Expressions and assignments are told apart.** No text that spells an expression is taken for
    an assignment. A place, an operator with its equals sign between single spaces, and an
    expression are an assignment with just these parts. -/
theorem ofText?_agrees :
    (∀ text e, Expr.parse text = .ok e → ofText? text = none) ∧
    ∀ t e op, Statement.IsPlaceText t → IsExprText e → op ∈ operators →
      ofText? (t ++ " " ++ operatorText op ++ "= " ++ e) = some ⟨t, op, e⟩ :=
  ⟨fun _ _ h => ofText?_of_parse h, fun _ _ _ ht he hop => ofText?_spelled ht he hop⟩

/-- Signs in quotes, in brackets and in comparisons are not those of an assignment. -/
theorem ofText?_agrees_quotedSign :
    ofText? "a <= f(b == c, '=')" = none ∧
      ofText? "d[k == '='].x **= n != 1" = some ⟨"d[k == '='].x", some .pow, "n != 1"⟩ := by
  obtain ⟨e, he⟩ : ∃ e, Expr.parse "a <= f(b == c, '=')" = .ok e := by decide +kernel
  have hplace : Statement.IsPlaceText "d[k == '='].x" := by decide +kernel
  have hexpr : IsExprText "n != 1" := by decide +kernel
  exact ⟨ofText?_agrees.1 _ e he,
    ofText?_agrees.2 "d[k == '='].x" "n != 1" (some .pow) hplace hexpr (by decide)⟩

end Assignment

end StepScript
