import Mathlib.Data.List.Forall2
import StepScript.Proofs.Precedence

/-!
# Texts put into brackets

A text that is an expression keeps its meaning in front of a closing bracket, a comma or a colon:
the scanner cuts it into the same tokens, since none of these characters goes on a token
(`Token.Spells.append`), and every reader of the parser makes the same of those tokens and leaves
what was put behind them (`Expr.readersGoOn`). So a list of texts with commas between them is read
as the list of their expressions, and a call that is put together from a path and argument texts is
read as the call of that path (`Expr.parse_callText`).
-/

set_option autoImplicit false

namespace StepScript

namespace Token

/-! ## Characters that end a token -/

/-- No token goes on with the character, whatever it starts with. -/
def endsToken (c : Char) : Bool :=
  c == ')' || c == ']' || c == '\x7d' || c == ',' || c == ':'

theorem eq_of_endsToken {c : Char} (h : endsToken c = true) :
    c = ')' ∨ c = ']' ∨ c = '\x7d' ∨ c = ',' ∨ c = ':' := by
  simpa [endsToken, or_assoc] using h

section

variable {d : Char} {cs rest after : List Char}

theorem isNameChar_of_endsToken (hd : endsToken d = true) : Text.isNameChar d = false := by
  rcases eq_of_endsToken hd with rfl | rfl | rfl | rfl | rfl <;> decide

theorem isDigit_of_endsToken (hd : endsToken d = true) : Text.isDigit d = false := by
  rcases eq_of_endsToken hd with rfl | rfl | rfl | rfl | rfl <;> decide

/-- A run of characters that ends in front of a character ends there also in a longer text. -/
theorem takeWhile_append_stop {p : Char → Bool} (hd : p d = false) (cs after : List Char) :
    (cs ++ d :: after).takeWhile p = cs.takeWhile p := by
  induction cs with
  | nil => simp [hd]
  | cons c cs ih =>
    cases hc : p c <;> simp [hc, ih]

theorem dropWhile_append_stop {p : Char → Bool} (hd : p d = false) (cs after : List Char) :
    (cs ++ d :: after).dropWhile p = cs.dropWhile p ++ d :: after := by
  induction cs with
  | nil => simp [hd]
  | cons c cs ih =>
    cases hc : p c <;> simp [hc, ih]

theorem signed_append (hd : endsToken d = true) (cs after : List Char) :
    Text.signed (cs ++ d :: after)
      = ((Text.signed cs).1, (Text.signed cs).2 ++ d :: after) := by
  cases cs with
  | nil => rcases eq_of_endsToken hd with rfl | rfl | rfl | rfl | rfl <;> rfl
  | cons c cs =>
    rw [List.cons_append]
    unfold Text.signed
    split
    · next heq =>
      cases heq
      rfl
    · next heq =>
      cases heq
      rfl
    · next hminus hplus =>
      have hc : c ≠ '-' ∧ c ≠ '+' :=
        ⟨fun h => hminus _ (by rw [h]), fun h => hplus _ (by rw [h])⟩
      simp [hc]

theorem exponent?_append (hd : endsToken d = true) (cs after : List Char) :
    exponent? (cs ++ d :: after)
      = (exponent? cs).map fun (e, rest) => (e, rest ++ d :: after) := by
  have hdigit := isDigit_of_endsToken hd
  cases cs with
  | nil => rcases eq_of_endsToken hd with rfl | rfl | rfl | rfl | rfl <;> rfl
  | cons c cs =>
    simp only [List.cons_append, exponent?, signed_append hd, takeWhile_append_stop hdigit,
      dropWhile_append_stop hdigit]
    split <;> rfl

theorem number_append (hd : endsToken d = true) (cs after : List Char) :
    number (cs ++ d :: after) = ((number cs).1, (number cs).2 ++ d :: after) := by
  have hdigit := isDigit_of_endsToken hd
  unfold number
  simp only [takeWhile_append_stop hdigit, dropWhile_append_stop hdigit]
  cases hrest : cs.dropWhile Text.isDigit with
  | nil =>
    rcases eq_of_endsToken hd with rfl | rfl | rfl | rfl | rfl <;> rfl
  | cons c r =>
    by_cases hc : c = '.'
    · subst hc
      simp only [List.cons_append, takeWhile_append_stop hdigit, dropWhile_append_stop hdigit,
        exponent?_append hd]
      cases exponent? (r.dropWhile Text.isDigit) <;> rfl
    · have hexp := exponent?_append hd (c :: r) after
      rw [List.cons_append] at hexp ⊢
      simp only [List.cons.injEq, hc, false_and, imp_false, not_false_eq_true, implies_true, hexp]
      cases exponent? (c :: r) <;> rfl

theorem startsNumber_append (hd : endsToken d = true) (c : Char) (cs after : List Char) :
    startsNumber (c :: (cs ++ d :: after)) = startsNumber (c :: cs) := by
  cases cs with
  | nil =>
    by_cases hc : c = '.'
    · subst hc
      exact isDigit_of_endsToken hd
    · simp [startsNumber, hc]
  | cons c' cs =>
    by_cases hc : c = '.'
    · subst hc
      rfl
    · simp [startsNumber, hc]

/-- A symbol depends on one character behind it, which may make it a longer one. -/
theorem symbol?_cons {s : Symbol} {c : Char} {r : List Char}
    (h : symbol? (s.text ++ c :: r) = some (s, c :: r)) (r' : List Char) :
    symbol? (s.text ++ c :: r') = some (s, c :: r') := by
  cases s with
  | star | slash | less | greater =>
    by_cases hc : c = '*' ∨ c = '/' ∨ c = '='
    · rcases hc with rfl | rfl | rfl <;> first | rfl | cases h
    · simp only [not_or] at hc
      simp [Symbol.text, symbol?, hc]
  | _ => rfl

theorem symbol?_append (hd : endsToken d = true) {s : Symbol}
    (h : symbol? cs = some (s, rest)) (after : List Char) :
    symbol? (cs ++ d :: after) = some (s, rest ++ d :: after) := by
  obtain rfl := symbol?_eq_some h
  rw [List.append_assoc]
  cases rest with
  | nil => rcases eq_of_endsToken hd with rfl | rfl | rfl | rfl | rfl <;> cases s <;> rfl
  | cons c r => exact symbol?_cons h _

/-- A token is read as before when a character that ends every token is put behind the text. -/
theorem next?_append (hd : endsToken d = true) {t : Token} (h : next? cs = some (t, rest))
    (after : List Char) : next? (cs ++ d :: after) = some (t, rest ++ d :: after) := by
  cases cs with
  | nil => cases h
  | cons c cs =>
    have hname := isNameChar_of_endsToken hd
    rw [next?] at h
    rw [List.cons_append, next?, startsNumber_append hd]
    split at h
    · next hnumber =>
      rw [if_pos hnumber, ← List.cons_append, number_append hd, Option.some.inj h]
    · next hnumber =>
      rw [if_neg hnumber]
      split at h
      · next hstart =>
        cases h
        rw [if_pos hstart, ← List.cons_append, takeWhile_append_stop hname,
          dropWhile_append_stop hname]
      · next hstart =>
        rw [if_neg hstart]
        split at h
        · next hquote =>
          obtain ⟨⟨s, r⟩, hread, heq⟩ := Option.map_eq_some_iff.1 h
          cases heq
          have hslash : c ≠ '\\' := by
            rintro rfl
            cases hquote
          obtain ⟨inner, rfl, -, hinner⟩ := quoted?_eq_some hslash hread
          rw [if_pos hquote, List.append_assoc, hinner]
          rfl
        · next hquote =>
          obtain ⟨⟨s, r⟩, hread, heq⟩ := Option.map_eq_some_iff.1 h
          cases heq
          rw [if_neg hquote, ← List.cons_append, symbol?_append hd hread]
          rfl

end

/-- Blanks in front of a text that is cut into tokens. -/
theorem Spells.gap {gap cs : List Char} {ts : List Token}
    (hgap : ∀ c ∈ gap, Text.isGap c = true) (h : Spells cs ts) : Spells (gap ++ cs) ts := by
  cases h with
  | done hrest => exact .done (List.forall_mem_append.2 ⟨hgap, hrest⟩)
  | token hrest hnext hspells =>
    rw [← List.append_assoc]
    exact .token (List.forall_mem_append.2 ⟨hgap, hrest⟩) hnext hspells

/-- A text in front of another one that starts with a character that ends every token. -/
theorem Spells.append {d : Char} (hd : endsToken d = true) {cs after : List Char}
    {ts us : List Token} (h : Spells cs ts) (hafter : Spells (d :: after) us) :
    Spells (cs ++ d :: after) (ts ++ us) := by
  induction h with
  | done hgap => exact hafter.gap hgap
  | token hgap hnext _ ih =>
    rw [List.append_assoc]
    exact .token hgap (next?_append hd hnext after) ih

end Token

namespace Expr

open Token

/-! ## Readers and what is put behind -/

/-- What the reader makes of some tokens it makes of them also with others behind, and leaves
    those. -/
def GoesOn {α : Type} (tail : List Token) (read : List Token → Parsed α) : Prop :=
  ∀ {ts rest : List Token} {x : α}, read ts = some (x, rest) →
    read (ts ++ tail) = some (x, rest ++ tail)

/-- With some fuel the readers of the parser leave the tail to what comes after them. -/
structure ReadersGoOn (tail : List Token) (fuel : Nat) : Prop where
  expression (level : Nat) : GoesOn tail (Parser.expression fuel level)
  operand : GoesOn tail (Parser.operand fuel)
  extend (level : Nat) (e : Expr) : GoesOn tail (Parser.extend fuel level e)
  items {close : Symbol} (hclose : endsOperand close = true) (hcomma : close ≠ .comma) :
    GoesOn tail (Parser.items fuel close)
  entries : GoesOn tail (Parser.entries fuel)
  subscript (e : Expr) : GoesOn tail (Parser.subscript fuel e)
  upper (e : Expr) (low : Option Expr) : GoesOn tail (Parser.upper fuel e low)

section

variable {s : Symbol} {us : List Token}

theorem operand_nil (n : Nat) : Parser.operand n [] = none := by
  cases n <;> rfl

theorem unaryOp?_append {ts : List Token} (hne : ts ≠ []) (tail : List Token) :
    unaryOp? (ts ++ tail) = (unaryOp? ts).map fun (op, rest) => (op, rest ++ tail) := by
  obtain ⟨t, ts, rfl⟩ := List.exists_cons_of_ne_nil hne
  unfold unaryOp?
  split <;> simp_all

theorem binaryOp?_append_of_some {ts rest : List Token} {op : BinaryOp}
    (h : binaryOp? ts = some (op, rest)) (tail : List Token) :
    binaryOp? (ts ++ tail) = some (op, rest ++ tail) := by
  unfold binaryOp? at h
  split at h <;> cases h <;> rfl

/-- What ends an operand starts no operator, and makes no word before it one. -/
theorem binaryOp?_append_of_none (hs : endsOperand s = true) {ts : List Token}
    (h : binaryOp? ts = none) (us : List Token) : binaryOp? (ts ++ .symbol s :: us) = none := by
  rcases ts with _ | ⟨t, _ | ⟨t', ts⟩⟩
  · cases s <;> first | rfl | cases hs
  all_goals
    rw [List.cons_append]
    unfold binaryOp?
    split <;> first | rfl | (rename_i heq; cases heq <;> cases h)

theorem startsPostfix_append (hs : endsOperand s = true) {ts : List Token}
    (h : startsPostfix ts = false) (us : List Token) :
    startsPostfix (ts ++ .symbol s :: us) = false := by
  rcases ts with _ | ⟨t, _ | ⟨t', ts⟩⟩
  · cases s <;> first | rfl | cases hs
  all_goals
    rw [List.cons_append]
    unfold startsPostfix
    split <;> first | rfl | (rename_i heq; cases heq <;> cases h)

namespace ReadersGoOn

variable {fuel : Nat}

theorem expression_succ {tail : List Token} (ih : ReadersGoOn tail fuel) (level : Nat) :
    GoesOn tail (Parser.expression (fuel + 1) level) := by
  intro ts rest x h
  rw [Parser.expression] at h
  split at h
  · cases h
  · next hread => exact expression_of_operand (ih.operand hread) (ih.extend _ _ h) le_rfl le_rfl

theorem operand_succ {tail : List Token} (ih : ReadersGoOn tail fuel) :
    GoesOn tail (Parser.operand (fuel + 1)) := by
  intro ts rest x h
  have hne : ts ≠ [] := by
    rintro rfl
    rw [operand_nil] at h
    cases h
  have hunary := unaryOp?_append hne tail
  unfold Parser.operand at h
  split at h
  · next hop =>
    obtain ⟨⟨e, r⟩, hread, heq⟩ := Option.map_eq_some_iff.1 h
    cases heq
    rw [hop] at hunary
    exact operand_unary hunary (ih.expression _ hread)
  · next hop =>
    rw [hop] at hunary
    split at h
    · split at h
      · next hread =>
        cases h
        exact operand_parens (ih.expression _ hread)
      · cases h
    · obtain ⟨⟨es, r⟩, hread, heq⟩ := Option.map_eq_some_iff.1 h
      cases heq
      exact operand_list (ih.items rfl (by decide) hread)
    · obtain ⟨⟨es, r⟩, hread, heq⟩ := Option.map_eq_some_iff.1 h
      cases heq
      exact operand_dict (ih.entries hread)
    -- what is one token needs no more than that token
    · cases h
      rfl
    · cases h
      rfl
    · cases h
      rfl
    · cases h
      rw [List.cons_append] at hunary ⊢
      rw [Parser.operand, hunary]
      rfl
    · cases h

theorem extend_succ (hs : endsOperand s = true) (ih : ReadersGoOn (.symbol s :: us) fuel)
    (level : Nat) (e : Expr) : GoesOn (.symbol s :: us) (Parser.extend (fuel + 1) level e) := by
  intro ts rest x h
  unfold Parser.extend at h
  split at h
  · split at h
    · next hread => exact extend_call (ih.items rfl (by decide) hread) (ih.extend _ _ h)
    · cases h
  · split at h
    · next hread => exact extend_subscript (ih.subscript _ hread) (ih.extend _ _ h)
    · cases h
  · exact extend_field (ih.extend _ _ h)
  · next hcall hindex hfield =>
    have hplain : startsPostfix (ts ++ .symbol s :: us) = false := by
      refine startsPostfix_append hs ?_ us
      unfold startsPostfix
      split
      · exact (hcall _ rfl).elim
      · exact (hindex _ rfl).elim
      · exact (hfield _ _ rfl).elim
      · rfl
    split at h
    · next op r hop =>
      have hbinary := binaryOp?_append_of_some hop (.symbol s :: us)
      split at h
      · next hlevel =>
        split at h
        · next hright =>
          exact extend_binary hbinary hplain hlevel (ih.expression _ hright) (ih.extend _ _ h)
        · cases h
      · next hlevel =>
        cases h
        refine extend_of_stops ⟨fun op' r' hop' => ?_, hplain⟩ (Nat.succ_pos _)
        cases hbinary.symm.trans hop'
        exact Nat.le_of_not_lt hlevel
    · next hnone =>
      cases h
      have hbinary := binaryOp?_append_of_none hs hnone us
      exact extend_of_stops ⟨by simp [hbinary], hplain⟩ (Nat.succ_pos _)

theorem items_succ {tail : List Token} (ih : ReadersGoOn tail fuel) {close : Symbol}
    (hclose : endsOperand close = true) (hcomma : close ≠ .comma) :
    GoesOn tail (Parser.items (fuel + 1) close) := by
  intro ts rest x h
  rw [Parser.items] at h
  split at h
  · next hhead =>
    cases h
    cases ts with
    | nil => cases hhead
    | cons t ts =>
      obtain rfl : t = .symbol close := by simpa using hhead
      exact items_nil close
  · split at h
    · next hread =>
      obtain ⟨⟨es, r⟩, hmore, heq⟩ := Option.map_eq_some_iff.1 h
      cases heq
      exact items_cons hclose (ih.expression _ hread) (ih.items hclose hcomma hmore)
    · next t _ _ hread =>
      split at h
      · next hend =>
        cases h
        obtain rfl : t = .symbol close := by simpa using hend
        exact items_last hclose hcomma (ih.expression _ hread)
      · cases h
    · cases h

theorem entries_succ {tail : List Token} (ih : ReadersGoOn tail fuel) :
    GoesOn tail (Parser.entries (fuel + 1)) := by
  intro ts rest x h
  rw [Parser.entries] at h
  split at h
  · next hhead =>
    cases h
    cases ts with
    | nil => cases hhead
    | cons t ts =>
      obtain rfl : t = .symbol .closeBrace := by simpa using hhead
      exact entries_nil
  · split at h
    · next hkey =>
      split at h
      · next hvalue =>
        obtain ⟨⟨es, r⟩, hmore, heq⟩ := Option.map_eq_some_iff.1 h
        cases heq
        exact entries_cons (ih.expression _ hkey) (ih.expression _ hvalue) (ih.entries hmore)
      · next hvalue =>
        cases h
        exact entries_last (ih.expression _ hkey) (ih.expression _ hvalue)
      · cases h
    · cases h

theorem subscript_succ {tail : List Token} (ih : ReadersGoOn tail fuel) (e : Expr) :
    GoesOn tail (Parser.subscript (fuel + 1) e) := by
  intro ts rest x h
  unfold Parser.subscript at h
  split at h
  · exact ih.upper _ _ h
  · split at h
    · next hread =>
      cases h
      exact subscript_index (ih.expression _ hread)
    · next hread => exact subscript_low (ih.expression _ hread) (ih.upper _ _ h)
    · cases h

theorem upper_succ {tail : List Token} (ih : ReadersGoOn tail fuel) (e : Expr)
    (low : Option Expr) : GoesOn tail (Parser.upper (fuel + 1) e low) := by
  intro ts rest x h
  unfold Parser.upper at h
  split at h
  · cases h
    rfl
  · split at h
    · next hread =>
      cases h
      exact upper_high (ih.expression _ hread)
    · cases h

end ReadersGoOn

/-- By induction on the fuel, for all readers at once: what stands behind a closing bracket, a comma
    or a colon is not looked at. -/
theorem readersGoOn (hs : endsOperand s = true) (us : List Token) (fuel : Nat) :
    ReadersGoOn (.symbol s :: us) fuel := by
  induction fuel with
  | zero =>
    constructor
    all_goals
      intros
      intro ts rest x h
      cases h
  | succ fuel ih =>
    exact ⟨ih.expression_succ, ih.operand_succ, ih.extend_succ hs, ih.items_succ, ih.entries_succ,
      ih.subscript_succ, ih.upper_succ⟩

end

/-! ## Texts that are expressions -/

/-- The tokens of a text, none if it has no tokens. -/
def tokensOf (text : String) : List Token :=
  (scan? text.toList).getD []

/-- The text is cut into tokens that make up the expression, with all integers in range. -/
structure IsTextOf (e : Expr) (text : String) : Prop where
  spells : Spells text.toList (tokensOf text)
  made : ofTokens? (tokensOf text) = some e
  inRange : (tokensOf text).all Token.inRange = true

theorem isTextOf_of_parse {text : String} {e : Expr} (h : Expr.parse text = .ok e) :
    IsTextOf e text := by
  rw [Expr.parse] at h
  split at h
  · cases h
  · next ts hscan =>
    have htokens : tokensOf text = ts := by rw [tokensOf, hscan, Option.getD_some]
    split at h
    · cases h
    · next hmade =>
      split at h
      · next hrange =>
        cases h
        exact ⟨htokens ▸ scan?_eq_some_iff.1 hscan, htokens ▸ hmade, htokens ▸ hrange⟩
      · cases h

theorem parse_of_spells {text : String} {ts : List Token} {e : Expr}
    (hspells : Spells text.toList ts) (hmade : ofTokens? ts = some e)
    (hrange : ts.all Token.inRange = true) : Expr.parse text = .ok e := by
  rw [Expr.parse, scan?_eq_some_iff.2 hspells]
  dsimp only
  rw [hmade]
  exact if_pos hrange

/-- The tokens of an expression in front of a closing bracket, a comma or a colon. -/
theorem expression_of_ofTokens? {ts us : List Token} {e : Expr} {s : Symbol} {n : Nat}
    (h : ofTokens? ts = some e) (hs : endsOperand s = true) (hn : fuelFor ts ≤ n) :
    Parser.expression n 0 (ts ++ .symbol s :: us) = some (e, .symbol s :: us) := by
  rw [ofTokens?] at h
  split at h
  · next hread =>
    cases h
    exact expression_mono hn ((readersGoOn hs us _).expression 0 hread)
  · cases h

/-! ## Lists of texts -/

section

variable {args : List String} {es : List Expr}

theorem spells_commas {d : Char} (hd : endsToken d = true) {after : List Char} {us : List Token}
    (h : ∀ a ∈ args, Spells a.toList (tokensOf a)) (hafter : Spells (d :: after) us) :
    Spells ((", ".intercalate args).toList ++ d :: after)
      (commaTokens (args.map tokensOf) ++ us) := by
  induction args with
  | nil => exact hafter
  | cons a args ih =>
    have ha : Spells a.toList (tokensOf a) := h a List.mem_cons_self
    have hargs := ih fun b hb => h b (List.mem_cons_of_mem a hb)
    cases args with
    | nil => simpa [commaTokens_singleton] using ha.append hd hafter
    | cons b args =>
      have hcomma : Spells (',' :: ' ' :: ((", ".intercalate (b :: args)).toList ++ d :: after))
          (.symbol .comma :: (commaTokens ((b :: args).map tokensOf) ++ us)) :=
        .cons rfl hargs.space
      have hall := ha.append rfl hcomma
      rw [Line.toList_intercalate_cons] at hall ⊢
      rw [List.map_cons, List.map_cons, commaTokens_cons_cons]
      simpa using hall

/-- Texts of expressions with commas between them are read one after the other. -/
theorem items_of_texts (h : List.Forall₂ (fun a e => IsTextOf e a) args es) {close : Symbol}
    (hclose : endsOperand close = true) (hcomma : close ≠ .comma) (rest : List Token) {n : Nat}
    (hn : 4 * (commaTokens (args.map tokensOf)).length + 5 ≤ n) :
    Parser.items n close (commaTokens (args.map tokensOf) ++ .symbol close :: rest)
      = some (es, rest) := by
  induction h generalizing n with
  | nil =>
    obtain ⟨n, rfl⟩ : ∃ k, n = k + 1 := ⟨n - 1, by omega⟩
    exact items_nil close
  | @cons a e args es ha hargs ih =>
    obtain ⟨n, rfl⟩ : ∃ k, n = k + 1 := ⟨n - 1, by omega⟩
    cases hargs with
    | nil =>
      have htokens : commaTokens ([a].map tokensOf) = tokensOf a := commaTokens_singleton _
      rw [htokens] at hn ⊢
      exact items_last hclose hcomma
        (expression_of_ofTokens? ha.made hclose (by rw [fuelFor]; omega))
    | @cons b e' args es hb hargs =>
      have htokens : commaTokens ((a :: b :: args).map tokensOf)
          = tokensOf a ++ .symbol .comma :: commaTokens ((b :: args).map tokensOf) :=
        commaTokens_cons_cons _ _ _
      rw [htokens, List.length_append, List.length_cons] at hn
      rw [htokens, List.append_assoc, List.cons_append]
      exact items_cons hclose (expression_of_ofTokens? ha.made rfl (by rw [fuelFor]; omega))
        (ih (by omega))

end

/-! ## Paths and calls -/

/-- A field of a field, and so on: `a.b.c` from `a` along `b` and `c`. -/
def along (e : Expr) (names : List String) : Expr :=
  names.foldl .field e

/-- The tokens of names behind points. -/
def pointTokens (names : List String) : List Token :=
  names.flatMap fun n => [.symbol .dot, .word n]

theorem canFollow_points (names : List String) {rest : List Char} (hrest : CanFollow true rest) :
    CanFollow true ((names.flatMap fun n => ".".toList ++ n.toList) ++ rest) := by
  cases names with
  | nil => exact hrest
  | cons n names =>
    intro c hc
    cases hc
    exact ⟨by decide, fun _ => rfl⟩

theorem written_points {names : List String} (h : ∀ n ∈ names, Line.IsName n.toList) :
    Written true (names.flatMap fun n => ".".toList ++ n.toList) (pointTokens names) := by
  induction names with
  | nil => exact .nil
  | cons n names ih =>
    intro rest us hrest hspells
    have hnames := ih (fun m hm => h m (List.mem_cons_of_mem n hm)) rest us hrest hspells
    have hall := written_point (h n List.mem_cons_self) true _ _ (canFollow_points names hrest)
      hnames
    simpa [pointTokens] using hall

theorem written_path {root : String} {names : List String}
    (h : ∀ n ∈ root :: names, Line.IsName n.toList) :
    Written true (".".intercalate (root :: names)).toList (.word root :: pointTokens names) := by
  intro rest us hrest hspells
  have hnames := written_points (fun n hn => h n (List.mem_cons_of_mem root hn)) rest us hrest
    hspells
  have hall := written_name (h root List.mem_cons_self) true _ _ (canFollow_points names hrest)
    hnames
  rw [Line.toList_intercalate_cons, List.append_assoc]
  exact hall

theorem extend_along {names : List String} {n l : Nat} {e : Expr} {ts : List Token}
    {r : Expr × List Token} (h : Parser.extend n l (along e names) ts = some r) :
    Parser.extend (n + names.length) l e (pointTokens names ++ ts) = some r := by
  induction names generalizing e with
  | nil => exact h
  | cons name names ih => exact extend_field (ih h)

/-- The text of a call: a dotted name and argument texts in parentheses. -/
def callText (function : String) (args : List String) : String :=
  function ++ Statement.arguments args

/-- The tokens of a call: those of a path, and those of its arguments in parentheses. -/
def callTokens (root : String) (names args : List String) : List Token :=
  .word root :: (pointTokens names ++
    .symbol .openParen :: (commaTokens (args.map tokensOf) ++ [.symbol .closeParen]))

section

variable {root : String} {names args : List String} {es : List Expr}

theorem spells_callText (hnames : ∀ n ∈ root :: names, Line.IsName n.toList)
    (h : ∀ a ∈ args, Spells a.toList (tokensOf a)) :
    Spells (callText (".".intercalate (root :: names)) args).toList
      (callTokens root names args) := by
  have hclose : Spells [')'] [.symbol .closeParen] := .cons rfl (.done (by simp))
  have hargs := spells_commas (d := ')') rfl h hclose
  have hall := written_path hnames _ _ (canFollow_cons (by decide) true _)
    (.cons (show next? ('(' :: _) = some (.symbol .openParen, _) from rfl) hargs)
  simpa [callText, Statement.arguments, callTokens] using hall

theorem ofTokens?_callTokens (hroot : root ∉ reserved)
    (h : List.Forall₂ (fun a e => IsTextOf e a) args es) :
    ofTokens? (callTokens root names args) = some (.call (along (.name root) names) es) := by
  have hclose : endsOperand .closeParen = true := rfl
  have hargs := items_of_texts h hclose (by decide) [] le_rfl
  have hcall := extend_call hargs (extend_of_stops (e := .call (along (.name root) names) es)
    (l := 0) ⟨by simp [binaryOp?], rfl⟩ (Nat.succ_pos _))
  have hfollows : ∀ ts, Follows (.name root) ts := fun ts =>
    ⟨fun op _ _ => Nat.le_trans (level_bounds op).2.1 (Nat.le_of_ble_eq_true rfl), fun _ => rfl⟩
  have hread := Reads.name hroot 0 (Nat.succ_pos _) _ _ _ (hfollows _) (extend_along hcall)
  have hpoints : (pointTokens names).length = 2 * names.length := by
    simp [pointTokens, Nat.mul_comm]
  have htokens : (Expr.name root).tokens = [.word root] := by simp [tokens]
  rw [htokens, List.singleton_append, ← callTokens] at hread
  have hfuel : 4 * (commaTokens (args.map tokensOf)).length + 5 + 1 + names.length
      + 4 * [Token.word root].length ≤ fuelFor (callTokens root names args) := by
    simp only [fuelFor, callTokens, List.length_cons, List.length_append, List.length_nil, hpoints]
    omega
  rw [ofTokens?, expression_mono hfuel hread]

theorem all_inRange_callTokens (h : ∀ a ∈ args, (tokensOf a).all Token.inRange = true) :
    (callTokens root names args).all Token.inRange = true := by
  have hpoints : (pointTokens names).all Token.inRange = true := by
    simp [pointTokens, Token.inRange]
  have hargs : (commaTokens (args.map tokensOf)).all Token.inRange = true := by
    rw [all_inRange_commas, List.all_map, List.all_eq_true]
    exact h
  simp [callTokens, hpoints, hargs, Token.inRange]

/-- **A call put together from a path and the texts of its arguments is read as the call of that
    path on the expressions of those texts.** -/
theorem parse_callText (hnames : ∀ n ∈ root :: names, Line.IsName n.toList)
    (hroot : root ∉ reserved) (hargs : List.Forall₂ (fun a e => Expr.parse a = .ok e) args es) :
    Expr.parse (callText (".".intercalate (root :: names)) args)
      = .ok (.call (along (.name root) names) es) := by
  have htexts : List.Forall₂ (fun a e => IsTextOf e a) args es :=
    hargs.imp fun _ _ h => isTextOf_of_parse h
  have hmem : ∀ a ∈ args, ∃ e, IsTextOf e a :=
    ((List.forall₂_and_left args es).1 (htexts.imp fun _ e h => ⟨⟨e, h⟩, h⟩)).1
  refine parse_of_spells (spells_callText hnames fun a ha => ?_)
    (ofTokens?_callTokens hroot htexts) (all_inRange_callTokens fun a ha => ?_)
  · obtain ⟨e, he⟩ := hmem a ha
    exact he.spells
  · obtain ⟨e, he⟩ := hmem a ha
    exact he.inRange

end

end Expr

end StepScript
