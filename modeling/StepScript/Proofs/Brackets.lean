import StepScript.Expr.Parser
import StepScript.Proofs.Arguments
import StepScript.Proofs.Lexemes

/-!
# Brackets of an expression

A text that spells an expression closes its quotes and brackets, each bracket with its own kind, and
has commas within brackets only (`Balanced`). So the end of an argument, which is looked for without
knowing about expressions, is found behind the whole expression, and a list of such arguments is
read back from its canonical spelling.
-/

set_option autoImplicit false

namespace StepScript

namespace Token

/-- The token is neither a bracket nor a comma. -/
def isPlain : Token → Bool
  | .symbol .openParen | .symbol .closeParen | .symbol .openBracket | .symbol .closeBracket
  | .symbol .openBrace | .symbol .closeBrace | .symbol .comma => false
  | _ => true

/-- Every bracket is closed by its own kind; commas stand in brackets, and outside of them if
    `commas`. -/
inductive Balanced : (commas : Bool) → List Token → Prop where
  | nil {commas : Bool} : Balanced commas []
  | plain {commas : Bool} {t : Token} {ts : List Token} (ht : t.isPlain = true)
      (h : Balanced commas ts) : Balanced commas (t :: ts)
  | comma {ts : List Token} (h : Balanced true ts) : Balanced true (.symbol .comma :: ts)
  | group {commas : Bool} {s close : Symbol} {inner ts : List Token} (hs : s.closer? = some close)
      (hinner : Balanced true inner) (h : Balanced commas ts) :
      Balanced commas (.symbol s :: (inner ++ .symbol close :: ts))

namespace Balanced

variable {commas : Bool} {ts us : List Token}

theorem append (h : Balanced commas ts) (h' : Balanced commas us) : Balanced commas (ts ++ us) := by
  induction h with
  | nil => exact h'
  | plain ht _ ih => exact .plain ht (ih h')
  | comma _ ih => exact .comma (ih h')
  | group hs hinner _ _ ih =>
    rw [List.cons_append, List.append_assoc, List.cons_append]
    exact .group hs hinner (ih h')

theorem allowCommas (h : Balanced commas ts) : Balanced true ts := by
  induction h with
  | nil => exact .nil
  | plain ht _ ih => exact .plain ht ih
  | comma _ ih => exact .comma ih
  | group hs hinner _ _ ih => exact .group hs hinner ih

end Balanced

end Token

/-! ## What the parser takes -/

namespace Expr

open Token

/-- A balanced part of the tokens is taken, and the rest is left. -/
def Takes (commas : Bool) (ts rest : List Token) : Prop :=
  ∃ taken, ts = taken ++ rest ∧ Balanced commas taken

namespace Takes

variable {commas : Bool} {ts us vs : List Token}

theorem refl (commas : Bool) (ts : List Token) : Takes commas ts ts :=
  ⟨[], rfl, .nil⟩

theorem trans (h : Takes commas ts us) (h' : Takes commas us vs) : Takes commas ts vs := by
  obtain ⟨taken, rfl, htaken⟩ := h
  obtain ⟨taken', rfl, htaken'⟩ := h'
  exact ⟨taken ++ taken', (List.append_assoc ..).symm, htaken.append htaken'⟩

theorem plain {t : Token} (ht : t.isPlain = true) (h : Takes commas ts us) :
    Takes commas (t :: ts) us := by
  obtain ⟨taken, rfl, htaken⟩ := h
  exact ⟨t :: taken, rfl, .plain ht htaken⟩

theorem comma (h : Takes true ts us) : Takes true (.symbol .comma :: ts) us := by
  obtain ⟨taken, rfl, htaken⟩ := h
  exact ⟨.symbol .comma :: taken, rfl, .comma htaken⟩

theorem allowCommas (h : Takes commas ts us) : Takes true ts us := by
  obtain ⟨taken, rfl, htaken⟩ := h
  exact ⟨taken, rfl, htaken.allowCommas⟩

/-- An opening bracket and all up to the one that closes it. -/
theorem group {s close : Symbol} (hs : s.closer? = some close)
    (h : Takes true ts (.symbol close :: us)) : Takes false (.symbol s :: ts) us := by
  obtain ⟨taken, rfl, htaken⟩ := h
  exact ⟨.symbol s :: (taken ++ [.symbol close]), by simp, .group hs htaken .nil⟩

end Takes

theorem takes_of_binaryOp? {ts rest : List Token} {op : BinaryOp}
    (h : binaryOp? ts = some (op, rest)) : Takes false ts rest := by
  have hrest := Takes.refl false rest
  unfold binaryOp? at h
  split at h <;> cases h
  all_goals first | exact .plain rfl hrest | exact .plain rfl (.plain rfl hrest)

theorem takes_of_unaryOp? {ts rest : List Token} {op : UnaryOp}
    (h : unaryOp? ts = some (op, rest)) : Takes false ts rest := by
  have hrest := Takes.refl false rest
  unfold unaryOp? at h
  split at h <;> cases h <;> exact .plain rfl hrest

/-- What each reader of the parser takes with some fuel. Readers of the inside of brackets stop
    before the closing one. -/
structure ReadersTake (fuel : Nat) : Prop where
  expression {level : Nat} {ts rest : List Token} {e : Expr}
    (h : Parser.expression fuel level ts = some (e, rest)) : Takes false ts rest
  operand {ts rest : List Token} {e : Expr}
    (h : Parser.operand fuel ts = some (e, rest)) : Takes false ts rest
  extend {level : Nat} {e e' : Expr} {ts rest : List Token}
    (h : Parser.extend fuel level e ts = some (e', rest)) : Takes false ts rest
  items {close : Symbol} {ts rest : List Token} {es : List Expr}
    (h : Parser.items fuel close ts = some (es, rest)) : Takes true ts (.symbol close :: rest)
  entries {ts rest : List Token} {es : List (Expr × Expr)}
    (h : Parser.entries fuel ts = some (es, rest)) : Takes true ts (.symbol .closeBrace :: rest)
  subscript {e e' : Expr} {ts rest : List Token}
    (h : Parser.subscript fuel e ts = some (e', rest)) :
    Takes true ts (.symbol .closeBracket :: rest)
  upper {e e' : Expr} {low : Option Expr} {ts rest : List Token}
    (h : Parser.upper fuel e low ts = some (e', rest)) :
    Takes true ts (.symbol .closeBracket :: rest)

namespace ReadersTake

variable {fuel : Nat} {ts rest : List Token}

theorem expression_succ (ih : ReadersTake fuel) {level : Nat} {e : Expr}
    (h : Parser.expression (fuel + 1) level ts = some (e, rest)) : Takes false ts rest := by
  unfold Parser.expression at h
  split at h
  · cases h
  · next hoperand => exact (ih.operand hoperand).trans (ih.extend h)

theorem operand_succ (ih : ReadersTake fuel) {e : Expr}
    (h : Parser.operand (fuel + 1) ts = some (e, rest)) : Takes false ts rest := by
  unfold Parser.operand at h
  split at h
  · next op ts' hop =>
    obtain ⟨⟨e', r⟩, hread, heq⟩ := Option.map_eq_some_iff.1 h
    cases heq
    exact (takes_of_unaryOp? hop).trans (ih.expression hread)
  · split at h
    · split at h
      · next hread =>
        cases h
        exact .group rfl (ih.expression hread).allowCommas
      · cases h
    · obtain ⟨⟨es, r⟩, hread, heq⟩ := Option.map_eq_some_iff.1 h
      cases heq
      exact .group rfl (ih.items hread)
    · obtain ⟨⟨es, r⟩, hread, heq⟩ := Option.map_eq_some_iff.1 h
      cases heq
      exact .group rfl (ih.entries hread)
    -- all other operands are one token
    all_goals cases h
    all_goals exact .plain rfl (.refl false rest)

theorem extend_succ (ih : ReadersTake fuel) {level : Nat} {e e' : Expr}
    (h : Parser.extend (fuel + 1) level e ts = some (e', rest)) : Takes false ts rest := by
  unfold Parser.extend at h
  split at h
  · split at h
    · next hread => exact (Takes.group rfl (ih.items hread)).trans (ih.extend h)
    · cases h
  · split at h
    · next hread => exact (Takes.group rfl (ih.subscript hread)).trans (ih.extend h)
    · cases h
  · exact .plain rfl (.plain rfl (ih.extend h))
  · split at h
    · next hop =>
      split at h
      · split at h
        · next hread =>
          exact (takes_of_binaryOp? hop).trans ((ih.expression hread).trans (ih.extend h))
        · cases h
      · -- an operator that binds too loosely is left where it is
        cases h
        exact .refl false _
    · cases h
      exact .refl false _

theorem items_succ (ih : ReadersTake fuel) {close : Symbol} {es : List Expr}
    (h : Parser.items (fuel + 1) close ts = some (es, rest)) :
    Takes true ts (.symbol close :: rest) := by
  unfold Parser.items at h
  split at h
  · next hhead =>
    cases ts with
    | nil => cases hhead
    | cons t ts =>
      cases h
      rw [beq_iff_eq] at hhead
      rw [Option.some.inj hhead]
      exact .refl true _
  · split at h
    · next hread =>
      obtain ⟨⟨es', r⟩, hmore, heq⟩ := Option.map_eq_some_iff.1 h
      cases heq
      exact (ih.expression hread).allowCommas.trans (.comma (ih.items hmore))
    · next t ts' _ hread =>
      split at h
      · next ht =>
        cases h
        rw [beq_iff_eq] at ht
        rw [← ht]
        exact (ih.expression hread).allowCommas
      · cases h
    · cases h

theorem entries_succ (ih : ReadersTake fuel) {es : List (Expr × Expr)}
    (h : Parser.entries (fuel + 1) ts = some (es, rest)) :
    Takes true ts (.symbol .closeBrace :: rest) := by
  unfold Parser.entries at h
  split at h
  · next hhead =>
    cases ts with
    | nil => cases hhead
    | cons t ts =>
      cases h
      rw [beq_iff_eq] at hhead
      rw [Option.some.inj hhead]
      exact .refl true _
  · split at h
    · next hkey =>
      refine (ih.expression hkey).allowCommas.trans (.plain rfl ?_)
      split at h
      · next hvalue =>
        obtain ⟨⟨es', r⟩, hmore, heq⟩ := Option.map_eq_some_iff.1 h
        cases heq
        exact (ih.expression hvalue).allowCommas.trans (.comma (ih.entries hmore))
      · next hvalue =>
        cases h
        exact (ih.expression hvalue).allowCommas
      · cases h
    · cases h

theorem subscript_succ (ih : ReadersTake fuel) {e e' : Expr}
    (h : Parser.subscript (fuel + 1) e ts = some (e', rest)) :
    Takes true ts (.symbol .closeBracket :: rest) := by
  unfold Parser.subscript at h
  split at h
  · exact .plain rfl (ih.upper h)
  · split at h
    · next hread =>
      cases h
      exact (ih.expression hread).allowCommas
    · next hread => exact (ih.expression hread).allowCommas.trans (.plain rfl (ih.upper h))
    · cases h

theorem upper_succ (ih : ReadersTake fuel) {e e' : Expr} {low : Option Expr}
    (h : Parser.upper (fuel + 1) e low ts = some (e', rest)) :
    Takes true ts (.symbol .closeBracket :: rest) := by
  unfold Parser.upper at h
  split at h
  · cases h
    exact .refl true _
  · split at h
    · next hread =>
      cases h
      exact (ih.expression hread).allowCommas
    · cases h

end ReadersTake

/-- All readers call each other with less fuel, so one induction serves them all. -/
theorem readersTake (fuel : Nat) : ReadersTake fuel := by
  induction fuel with
  | zero =>
    constructor
    all_goals
      intros
      rename_i h
      cases h
  | succ fuel ih =>
    exact ⟨ih.expression_succ, ih.operand_succ, ih.extend_succ, ih.items_succ, ih.entries_succ,
      ih.subscript_succ, ih.upper_succ⟩

/-- The tokens of an expression are balanced. -/
theorem balanced_of_ofTokens? {ts : List Token} {e : Expr} (h : ofTokens? ts = some e) :
    Balanced false ts := by
  rw [ofTokens?] at h
  split at h
  · next hread =>
    obtain ⟨taken, rfl, htaken⟩ := (readersTake _).expression hread
    rwa [List.append_nil]
  · cases h

/-- A text that spells an expression spells balanced tokens. -/
theorem spells_of_parse {text : String} {e : Expr} (h : Expr.parse text = .ok e) :
    ∃ ts, Spells text.toList ts ∧ Balanced false ts := by
  rw [Expr.parse] at h
  split at h
  · cases h
  · next ts hscan =>
    split at h
    · cases h
    · next e' hparse => exact ⟨ts, scan?_eq_some_iff.1 hscan, balanced_of_ofTokens? hparse⟩

end Expr

/-! ## Scans over the text of an expression -/

namespace Line

open Token

theorem plain_of_isWordChar {c : Char} (h : isWordChar c = true) :
    opensGroup c = false ∧ endsArgument c = false :=
  plain_of_forall rfl h

/-- The text is passed by every scan that stops nowhere but where an argument ends; by those that
    stop at commas only if it has none outside of brackets. -/
def IsPassed (commas : Bool) (cs : List Char) : Prop :=
  ∀ (stop : Char → Bool) (scan : List Char → List Char), IsScan stop scan →
    (∀ c, endsArgument c = false → stop c = false) → (commas = true → stop ',' = false) →
    ∀ r, scan (cs ++ r) = scan r

namespace IsPassed

variable {commas : Bool} {cs cs' : List Char}

theorem append (h : IsPassed commas cs) (h' : IsPassed commas cs') : IsPassed commas (cs ++ cs') :=
  fun stop scan hscan hstop hcomma r => by
    rw [List.append_assoc, h stop scan hscan hstop hcomma, h' stop scan hscan hstop hcomma]

theorem plain (h : ∀ c ∈ cs, opensGroup c = false ∧ endsArgument c = false) : IsPassed commas cs :=
  fun _ _ hscan hstop _ r => hscan.run (fun c hc => ⟨(h c hc).1, hstop c (h c hc).2⟩) r

theorem gap (h : ∀ c ∈ cs, Text.isGap c = true) : IsPassed commas cs :=
  fun _ _ hscan _ _ r => hscan.blanks (fun c hc => Text.isBlank_of_isGap (h c hc)) r

theorem comma : IsPassed true [','] :=
  fun _ _ hscan _ hcomma r => hscan.run (fun c hc => by
    rw [List.mem_singleton.1 hc]
    exact ⟨rfl, hcomma rfl⟩) r

/-- What is in quotes is passed at once. -/
theorem quoted {q : Char} {s : List Char} (hq : q = '"' ∨ q = '\'')
    (h : ∀ r, quoted? q (cs ++ r) = some (s, r)) : IsPassed commas (q :: cs) := by
  intro stop scan hscan _ _ r
  have hgroup : afterGroup? (q :: (cs ++ r)) = some r := by
    rw [afterGroup?, afterQuoted?_cons, if_pos hq, afterQuote?, h r]
    rfl
  rw [List.cons_append, hscan.cons, hgroup]

/-- What is in brackets is passed at once. -/
theorem group {c closer : Char} (hc : closerOf? c = some closer) (h : IsPassed true cs) :
    IsPassed commas (c :: (cs ++ [closer])) := by
  intro stop scan hscan _ _ r
  -- what is inside has its own brackets closed, so the first closer is the one that belongs here
  have hinside : inside (cs ++ closer :: r) = closer :: r := by
    have hpass := h isCloser inside isScan_inside
      (fun d hd => (Bool.or_eq_false_iff.1 hd).2) (fun _ => rfl) (closer :: r)
    have hplain : opensGroup closer = false := by
      rcases eq_of_closerOf? hc with ⟨-, rfl⟩ | ⟨-, rfl⟩ | ⟨-, rfl⟩ <;> rfl
    rw [hpass, isScan_inside.plain hplain, isCloser_of_closerOf? hc, if_pos rfl]
  have hquote : ¬(c = '"' ∨ c = '\'') := by
    rcases eq_of_closerOf? hc with ⟨rfl, -⟩ | ⟨rfl, -⟩ | ⟨rfl, -⟩ <;> decide
  have hgroup : afterGroup? (c :: (cs ++ closer :: r)) = some r := by
    rw [afterGroup?, afterQuoted?_cons, if_neg hquote, Option.none_or, afterBracket?_cons, hc,
      hinside]
    simp
  rw [List.cons_append, List.append_assoc, List.singleton_append, hscan.cons, hgroup]

end IsPassed

theorem isPassed_of_lexeme {commas : Bool} {t : Token} {cs : List Char} (ht : t.isPlain = true)
    (h : Lexeme t cs) : IsPassed commas cs := by
  cases h with
  | symbol s =>
    refine .plain ?_
    cases s with
    | openParen | closeParen | openBracket | closeBracket | openBrace | closeBrace | comma =>
      cases ht
    | _ => simp [Symbol.text, opensGroup, endsArgument, isCloser, closerOf?]
  | text hq h => exact .quoted hq h
  | word _ _ hcs => exact .plain fun c hc => plain_of_isWordChar (hcs c hc)

/-- The first token of a text, with the gap in front of it. -/
theorem exists_of_spells_cons {cs : List Char} {t : Token} {ts : List Token}
    (h : Spells cs (t :: ts)) :
    ∃ gap front rest, (∀ c ∈ gap, Text.isGap c = true) ∧ Lexeme t front ∧
      cs = gap ++ (front ++ rest) ∧ Spells rest ts := by
  cases h with
  | @token gap cs rest _ _ hgap hnext hrest =>
    obtain ⟨front, rfl, hfront⟩ := lexeme_of_next? hnext
    exact ⟨gap, front, rest, hgap, hfront, rfl, hrest⟩

theorem eq_of_lexeme_symbol {s : Symbol} {cs : List Char} (h : Lexeme (.symbol s) cs) :
    cs = s.text := by
  cases h with
  | symbol => rfl
  | word ht => exact absurd rfl (ht s)

theorem exists_closerOf? {s close : Symbol} (h : s.closer? = some close) :
    ∃ c closer, s.text = [c] ∧ close.text = [closer] ∧ closerOf? c = some closer := by
  cases s <;> first | exact ⟨_, _, rfl, by cases h; rfl, rfl⟩ | cases h

/-- A property of texts that goes along with the brackets of tokens: it holds of gaps, single tokens
    and, in brackets, commas, and it is passed on to what is put together or put in brackets. -/
structure FollowsBrackets (P : (commas : Bool) → List Char → Prop) : Prop where
  append {commas : Bool} {cs cs' : List Char} (h : P commas cs) (h' : P commas cs') :
    P commas (cs ++ cs')
  gap {commas : Bool} {cs : List Char} (h : ∀ c ∈ cs, Text.isGap c = true) : P commas cs
  lexeme {commas : Bool} {t : Token} {cs : List Char} (ht : t.isPlain = true) (h : Lexeme t cs) :
    P commas cs
  comma : P true [',']
  group {commas : Bool} {c closer : Char} {cs : List Char} (hc : closerOf? c = some closer)
    (h : P true cs) : P commas (c :: (cs ++ [closer]))

/-- Such a property holds of the text of balanced tokens, whatever tokens come behind them. -/
theorem FollowsBrackets.of_balanced {P : (commas : Bool) → List Char → Prop}
    (hP : FollowsBrackets P) {commas : Bool} {ts : List Token} (h : Balanced commas ts)
    {cs : List Char} {us : List Token} (hcs : Spells cs (ts ++ us)) :
    ∃ front rest, cs = front ++ rest ∧ P commas front ∧ Spells rest us := by
  induction h generalizing cs us with
  | nil => exact ⟨[], cs, rfl, hP.gap (by simp), hcs⟩
  | plain ht _ ih =>
    obtain ⟨gap, front, rest, hgap, hfront, rfl, hrest⟩ := exists_of_spells_cons hcs
    obtain ⟨front', rest', rfl, hfront', hrest'⟩ := ih hrest
    refine ⟨gap ++ (front ++ front'), rest', by simp, ?_, hrest'⟩
    exact hP.append (hP.gap hgap) (hP.append (hP.lexeme ht hfront) hfront')
  | comma _ ih =>
    obtain ⟨gap, front, rest, hgap, hfront, rfl, hrest⟩ := exists_of_spells_cons hcs
    obtain ⟨front', rest', rfl, hfront', hrest'⟩ := ih hrest
    rw [eq_of_lexeme_symbol hfront]
    refine ⟨gap ++ (Symbol.comma.text ++ front'), rest', by simp, ?_, hrest'⟩
    exact hP.append (hP.gap hgap) (hP.append hP.comma hfront')
  | @group commas s close inner ts hs _ _ ihinner ih =>
    rw [List.cons_append, List.append_assoc] at hcs
    obtain ⟨gap, front, rest, hgap, hfront, rfl, hrest⟩ := exists_of_spells_cons hcs
    obtain ⟨within, rest', rfl, hwithin, hrest'⟩ := ihinner hrest
    obtain ⟨gap', front', rest'', hgap', hfront', rfl, hrest''⟩ := exists_of_spells_cons hrest'
    obtain ⟨last, rest, rfl, hlast, hrest⟩ := ih hrest''
    obtain ⟨c, closer, hc, hcloser, hpair⟩ := exists_closerOf? hs
    rw [eq_of_lexeme_symbol hfront, eq_of_lexeme_symbol hfront', hc, hcloser]
    refine ⟨gap ++ (c :: (within ++ gap' ++ [closer]) ++ last), rest, by simp, ?_, hrest⟩
    have hgroup : P commas (c :: (within ++ gap' ++ [closer])) :=
      hP.group hpair (hP.append hwithin (hP.gap hgap'))
    exact hP.append (hP.gap hgap) (hP.append hgroup hlast)

theorem followsBrackets_isPassed : FollowsBrackets IsPassed where
  append := .append
  gap := .gap
  lexeme := isPassed_of_lexeme
  comma := .comma
  group := .group

/-- An expression is passed as a whole. -/
theorem isPassed_of_parse {a : String} {e : Expr} (h : Expr.parse a = .ok e) :
    IsPassed false a.toList := by
  obtain ⟨ts, hspells, hbalanced⟩ := Expr.spells_of_parse h
  rw [← List.append_nil ts] at hspells
  obtain ⟨front, rest, heq, hfront, hrest⟩ := followsBrackets_isPassed.of_balanced hbalanced hspells
  rw [heq]
  cases hrest with
  | done hgap => exact hfront.append (.gap hgap)

/-! ## Arguments that are expressions -/

/-- The text of an expression, without blanks at its ends. -/
def IsExprText (a : String) : Prop :=
  Text.trim a.toList = a.toList ∧ ∃ e, Expr.parse a = .ok e

instance (a : String) : Decidable (∃ e, Expr.parse a = .ok e) :=
  match h : Expr.parse a with
  | .ok e => isTrue ⟨e, rfl⟩
  | .error _ => isFalse (by simp)

instance (a : String) : Decidable (IsExprText a) :=
  inferInstanceAs (Decidable (_ ∧ _))

theorem IsExprText.ne_nil {a : String} (h : IsExprText a) : a.toList ≠ [] := by
  intro hnil
  obtain ⟨-, e, he⟩ := h
  rw [String.toList_eq_nil_iff.1 hnil] at he
  cases he

/-- An argument that is an expression ends where the list goes on. -/
theorem IsExprText.read {a : String} (h : IsExprText a) {d : Char} (hgroup : opensGroup d = false)
    (hends : endsArgument d = true) (v : List Char) :
    argument? (a.toList ++ d :: v) = some (a, d :: v) := by
  obtain ⟨htrim, e, he⟩ := h
  refine argument?_append htrim (IsExprText.ne_nil ⟨htrim, e, he⟩) ?_
  rw [isPassed_of_parse he endsArgument argumentEnd isScan_argumentEnd (fun _ hc => hc) (by simp),
    isScan_argumentEnd.plain hgroup, if_pos hends]

theorem readBack_of_isExprText {args : List String} (h : ∀ a ∈ args, IsExprText a)
    (tail : List Char) : ReadBack tail args := by
  induction args with
  | nil => trivial
  | cons a args ih =>
    have ha : IsExprText a := h a List.mem_cons_self
    obtain ⟨d, v, hv, -, hgroup, hends⟩ := exists_laterArguments args tail
    refine ⟨ha.1, ?_, ih fun b hb => h b (List.mem_cons_of_mem a hb)⟩
    rw [hv]
    exact ha.read hgroup hends v

/-- A list of expressions is read back as it is written, whatever follows it. -/
theorem arguments?_of_isExprText {args : List String} (h : ∀ a ∈ args, IsExprText a)
    (tail : List Char) :
    arguments? ((Statement.arguments args).toList ++ tail) = some (args, tail) :=
  arguments?_of_readBack (readBack_of_isExprText h tail)

end Line

end StepScript
