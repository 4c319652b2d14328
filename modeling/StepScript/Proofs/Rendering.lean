import StepScript.Expr.Parser
import StepScript.Proofs.Arguments
import StepScript.Proofs.Lexemes
import StepScript.Value.Display

/-!
# Writing expressions

`render` writes an expression with as few parentheses as the precedence of its operators allows: an
operand is put in parentheses exactly when its operator binds looser than its position asks for.
`tokens` are the words of that text, and scanning the text gives them back (`scan?_render`).

The expressions that can be written are those that have a spelling at all (`IsWritable`): their
literals are numbers from zero on, texts, truth values and `None`, and no name is one of the words
that are read as something else.
-/

set_option autoImplicit false

namespace StepScript

/-! ## Tiers -/

/-- How tightly a unary operator binds, from 1 for the loosest operators on. -/
def UnaryOp.tier : UnaryOp → Nat
  | .not => 3
  | .neg | .pos => 7

namespace BinaryOp

/-- How tightly a binary operator binds, from 1 for the loosest operators on. -/
def tier : BinaryOp → Nat
  | .or => 1
  | .and => 2
  | .eq | .ne | .lt | .le | .gt | .ge | .isIn | .notIn => 4
  | .add | .sub => 5
  | .mul | .div | .floorDiv | .mod => 6
  | .pow => 8

/-- The tier that the left operand needs: all operators but the power group to the left. -/
def leftTier : BinaryOp → Nat
  | .pow => BinaryOp.pow.tier + 1
  | op => op.tier

/-- The tier that the right operand needs. -/
def rightTier : BinaryOp → Nat
  | .pow => BinaryOp.pow.tier
  | op => op.tier + 1

end BinaryOp

/-- The operator as it is written in front of its operand. -/
def UnaryOp.front : UnaryOp → String
  | .not => UnaryOp.not.symbol ++ " "
  | op => op.symbol

/-- The tokens of an operator in front of its operand. -/
def UnaryOp.token : UnaryOp → Token
  | .neg => .symbol .minus
  | .pos => .symbol .plus
  | .not => .word "not"

/-- The tokens of an operator between its operands. -/
def BinaryOp.tokens : BinaryOp → List Token
  | .or => [.word "or"]
  | .and => [.word "and"]
  | .eq => [.symbol .eqEq]
  | .ne => [.symbol .notEq]
  | .lt => [.symbol .less]
  | .le => [.symbol .lessEq]
  | .gt => [.symbol .greater]
  | .ge => [.symbol .greaterEq]
  | .isIn => [.word "in"]
  | .notIn => [.word "not", .word "in"]
  | .add => [.symbol .plus]
  | .sub => [.symbol .minus]
  | .mul => [.symbol .star]
  | .div => [.symbol .slash]
  | .floorDiv => [.symbol .slashSlash]
  | .mod => [.symbol .percent]
  | .pow => [.symbol .starStar]

/-- The token of a literal, an integer without its sign. -/
def Value.token : Value → Token
  | .nothing => .word "None"
  | .bool b => .word (if b then "True" else "False")
  | .int n => .int n.toInt.natAbs
  | .float x => .float x
  | .text s => .text s
  | v => .word v.repr

namespace Expr

/-- How tightly the outermost operator of an expression binds; calls, indices, slices and fields
    bind tightest, and what has no operator fits everywhere. -/
def tier : Expr → Nat
  | .unary op _ => op.tier
  | .binary op _ _ => op.tier
  | _ => 9

/-- The expression can stand in front of a call, an index or a field: a point behind a number would
    be taken for a part of it. -/
def isOwner (e : Expr) : Bool :=
  9 ≤ e.tier && !e.isNumeral

/-! ## Texts -/

/-- An operand, in parentheses unless it fits its position. -/
def enclosed (fits : Bool) (text : String) : String :=
  if fits then text else "(" ++ text ++ ")"

mutual

/-- The canonical text of an expression. -/
def render : Expr → String
  | .literal value => value.repr
  | .name n => n
  | .list items => "[" ++ ", ".intercalate (renderItems items) ++ "]"
  | .dict entries => "\x7b" ++ ", ".intercalate (renderEntries entries) ++ "\x7d"
  | .unary op e => op.front ++ enclosed (op.tier ≤ e.tier) (render e)
  | .binary op left right =>
    enclosed (op.leftTier ≤ left.tier) (render left) ++ " " ++ op.symbol ++ " "
      ++ enclosed (op.rightTier ≤ right.tier) (render right)
  | .call callee args =>
    enclosed callee.isOwner (render callee) ++ "(" ++ ", ".intercalate (renderItems args) ++ ")"
  | .index e i => enclosed e.isOwner (render e) ++ "[" ++ render i ++ "]"
  | .slice e low high =>
    enclosed e.isOwner (render e) ++ "[" ++ renderBound low ++ ":" ++ renderBound high ++ "]"
  | .field owner n => enclosed owner.isOwner (render owner) ++ "." ++ n
termination_by structural e => e

/-- The texts of items or arguments. -/
def renderItems : List Expr → List String
  | [] => []
  | e :: es => render e :: renderItems es
termination_by structural es => es

/-- The texts of entries. -/
def renderEntries : List (Expr × Expr) → List String
  | [] => []
  | e :: es => renderEntry e :: renderEntries es
termination_by structural es => es

/-- The text of an entry. -/
def renderEntry : Expr × Expr → String
  | (k, v) => render k ++ ": " ++ render v
termination_by structural e => e

/-- The text of a bound, nothing when it is missing. -/
def renderBound : Option Expr → String
  | none => ""
  | some e => render e
termination_by structural e => e

end

/-! ## Tokens -/

/-- The tokens of an operand, in parentheses unless it fits its position. -/
def enclosedTokens (fits : Bool) (ts : List Token) : List Token :=
  if fits then ts else .symbol .openParen :: (ts ++ [.symbol .closeParen])

/-- Tokens with commas between them. -/
def commaTokens (tss : List (List Token)) : List Token :=
  [Token.symbol .comma].intercalate tss

theorem commaTokens_singleton (ts : List Token) : commaTokens [ts] = ts := by
  simp [commaTokens]

theorem commaTokens_cons_cons (ts us : List Token) (tss : List (List Token)) :
    commaTokens (ts :: us :: tss) = ts ++ .symbol .comma :: commaTokens (us :: tss) := by
  simp [commaTokens, List.intercalate_cons_cons]

mutual

/-- The tokens of the canonical text. -/
def tokens : Expr → List Token
  | .literal value => [value.token]
  | .name n => [.word n]
  | .list items =>
    .symbol .openBracket :: (commaTokens (itemTokens items) ++ [.symbol .closeBracket])
  | .dict entries =>
    .symbol .openBrace :: (commaTokens (entriesTokens entries) ++ [.symbol .closeBrace])
  | .unary op e => op.token :: enclosedTokens (op.tier ≤ e.tier) (tokens e)
  | .binary op left right =>
    enclosedTokens (op.leftTier ≤ left.tier) (tokens left) ++ (op.tokens
      ++ enclosedTokens (op.rightTier ≤ right.tier) (tokens right))
  | .call callee args =>
    enclosedTokens callee.isOwner (tokens callee)
      ++ .symbol .openParen :: (commaTokens (itemTokens args) ++ [.symbol .closeParen])
  | .index e i =>
    enclosedTokens e.isOwner (tokens e)
      ++ .symbol .openBracket :: (tokens i ++ [.symbol .closeBracket])
  | .slice e low high =>
    enclosedTokens e.isOwner (tokens e)
      ++ .symbol .openBracket :: (boundTokens low ++ .symbol .colon ::
        (boundTokens high ++ [.symbol .closeBracket]))
  | .field owner n => enclosedTokens owner.isOwner (tokens owner) ++ [.symbol .dot, .word n]
termination_by structural e => e

/-- The tokens of items or arguments. -/
def itemTokens : List Expr → List (List Token)
  | [] => []
  | e :: es => tokens e :: itemTokens es
termination_by structural es => es

/-- The tokens of entries. -/
def entriesTokens : List (Expr × Expr) → List (List Token)
  | [] => []
  | e :: es => entryTokens e :: entriesTokens es
termination_by structural es => es

/-- The tokens of an entry. -/
def entryTokens : Expr × Expr → List Token
  | (k, v) => tokens k ++ .symbol .colon :: tokens v
termination_by structural e => e

/-- The tokens of a bound. -/
def boundTokens : Option Expr → List Token
  | none => []
  | some e => tokens e
termination_by structural e => e

end

/-! ## Expressions that can be written -/

/-- The words that are not read as names. -/
def reserved : List String :=
  ["True", "true", "False", "false", "None", "null", "not"]

/-- The expression has a spelling. Floating-point numbers are left out. -/
inductive IsWritable : Expr → Prop where
  | nothing : IsWritable (.literal .nothing)
  | bool (b : Bool) : IsWritable (.literal (.bool b))
  | int {n : Int64} (hn : 0 ≤ n.toInt) : IsWritable (.literal (.int n))
  | text (s : String) : IsWritable (.literal (.text s))
  | name {n : String} (hn : Line.IsName n.toList) (hreserved : n ∉ reserved) : IsWritable (.name n)
  | list {items : List Expr} (hitems : ∀ e ∈ items, IsWritable e) : IsWritable (.list items)
  | dict {entries : List (Expr × Expr)} (hkeys : ∀ e ∈ entries, IsWritable e.1)
      (hvalues : ∀ e ∈ entries, IsWritable e.2) : IsWritable (.dict entries)
  | unary (op : UnaryOp) {e : Expr} (he : IsWritable e) : IsWritable (.unary op e)
  | binary (op : BinaryOp) {left right : Expr} (hleft : IsWritable left)
      (hright : IsWritable right) : IsWritable (.binary op left right)
  | call {callee : Expr} {args : List Expr} (hcallee : IsWritable callee)
      (hargs : ∀ e ∈ args, IsWritable e) : IsWritable (.call callee args)
  | index {e i : Expr} (he : IsWritable e) (hi : IsWritable i) : IsWritable (.index e i)
  | slice {e : Expr} {low high : Option Expr} (he : IsWritable e)
      (hlow : ∀ b ∈ low, IsWritable b) (hhigh : ∀ b ∈ high, IsWritable b) :
      IsWritable (.slice e low high)
  | field {owner : Expr} {n : String} (howner : IsWritable owner) (hn : Line.IsName n.toList) :
      IsWritable (.field owner n)

theorem itemTokens_eq (es : List Expr) : itemTokens es = es.map tokens := by
  induction es with
  | nil => rfl
  | cons e es ih => rw [itemTokens, ih, List.map_cons]

theorem entriesTokens_eq (es : List (Expr × Expr)) : entriesTokens es = es.map entryTokens := by
  induction es with
  | nil => rfl
  | cons e es ih => rw [entriesTokens, ih, List.map_cons]

theorem renderItems_eq (es : List Expr) : renderItems es = es.map render := by
  induction es with
  | nil => rfl
  | cons e es ih => rw [renderItems, ih, List.map_cons]

theorem renderEntries_eq (es : List (Expr × Expr)) : renderEntries es = es.map renderEntry := by
  induction es with
  | nil => rfl
  | cons e es ih => rw [renderEntries, ih, List.map_cons]

end Expr

/-! ## Tokens in front of a text -/

namespace Token

open Line (IsName)

theorem not_isDigit_of_isNameStart {c : Char} (h : Text.isNameStart c = true) :
    Text.isDigit c = false := by
  simp only [Text.isNameStart, Text.isDigit, Bool.or_eq_true, Bool.and_eq_true, decide_eq_true_eq,
    beq_iff_eq, Bool.and_eq_false_iff, decide_eq_false_iff_not, Char.le_def,
    UInt32.le_iff_toNat_le] at h ⊢
  refine Or.inr (Nat.not_le.2 ?_)
  rcases h with (h | h) | rfl
  · exact Nat.lt_of_lt_of_le (by decide) h.1
  · exact Nat.lt_of_lt_of_le (by decide) h.1
  · decide

theorem startsNumber_of_isNameStart {c : Char} (h : Text.isNameStart c = true) (cs : List Char) :
    startsNumber (c :: cs) = false := by
  have hc : c ≠ '.' := by
    rintro rfl
    revert h
    decide
  unfold startsNumber
  split
  · next heq => exact absurd (List.cons.inj heq).1 hc
  · next heq =>
    rw [← (List.cons.inj heq).1]
    exact not_isDigit_of_isNameStart h
  · rfl

/-- What may follow a token: no character of a name, and a point only if `point`. -/
def CanFollow (point : Bool) (rest : List Char) : Prop :=
  ∀ c ∈ rest.head?, Text.isNameChar c = false ∧ (c = '.' → point = true)

theorem next?_name {n : String} (hn : IsName n.toList) {point : Bool} {rest : List Char}
    (hrest : CanFollow point rest) : next? (n.toList ++ rest) = some (.word n, rest) := by
  have hchars := hn.isNameChar
  obtain ⟨c, cs, hcs, hc, -⟩ := hn
  have hstop : ∀ d ∈ rest.head?, Text.isNameChar d = false := fun d hd => (hrest d hd).1
  have hread : next? (n.toList ++ rest)
      = some (.word (String.ofList ((n.toList ++ rest).takeWhile Text.isNameChar)),
        (n.toList ++ rest).dropWhile Text.isNameChar) := by
    rw [hcs, List.cons_append, next?, startsNumber_of_isNameStart hc, if_neg (by decide), if_pos hc]
  rw [hread, Text.takeWhile_run hchars hstop, Text.dropWhile_run hchars hstop,
    String.ofList_toList]

theorem exponent?_of_canFollow {rest : List Char} (h : CanFollow false rest) :
    exponent? rest = none := by
  cases rest with
  | nil => rfl
  | cons c cs =>
    have hc : (c == 'e' || c == 'E') = false := by
      rw [← Bool.not_eq_true]
      intro hmark
      have hname := (h c rfl).1
      rcases Bool.or_eq_true_iff.1 hmark with heq | heq
      · rw [eq_of_beq heq] at hname
        revert hname
        decide
      · rw [eq_of_beq heq] at hname
        revert hname
        decide
    simp [exponent?, hc]

theorem next?_digits (n : Nat) {rest : List Char} (hrest : CanFollow false rest) :
    next? (Text.digits n ++ rest) = some (.int n, rest) := by
  have hdigits : ∀ c ∈ Text.digits n, Text.isDigit c = true :=
    fun _ hc => Text.isDigit_of_mem_digits hc
  have hstop : ∀ c ∈ rest.head?, Text.isDigit c = false := by
    intro c hc
    exact (Bool.or_eq_false_iff.1 (hrest c hc).1).2
  have hnumber : number (Text.digits n ++ rest) = (.int n, rest) := by
    rw [number, Text.takeWhile_run hdigits hstop, Text.dropWhile_run hdigits hstop,
      Text.natOfDigits_digits]
    dsimp only
    split
    · exact absurd ((hrest '.' rfl).2 rfl) (by decide)
    · rw [exponent?_of_canFollow hrest]
  obtain ⟨d, ds, hcons⟩ := List.exists_cons_of_ne_nil (Text.digits_ne_nil n)
  have hstarts : startsNumber (Text.digits n ++ rest) = true := by
    have hd : Text.isDigit d = true := hdigits d (by simp [hcons])
    rw [hcons, List.cons_append]
    unfold startsNumber
    split
    · next heq =>
      rw [(List.cons.inj heq).1] at hd
      exact absurd hd (by decide)
    · next heq => rwa [← (List.cons.inj heq).1]
    · next heq => cases heq
  rw [← hnumber]
  rw [hcons, List.cons_append] at hstarts ⊢
  rw [next?, if_pos hstarts]

/-- Characters in quotes are read back. -/
theorem quoted?_quotedChars {q : Char} (hq : q = '"' ∨ q = '\'') (cs rest : List Char) :
    quoted? q (cs.flatMap (Value.quotedChar q) ++ q :: rest) = some (cs, rest) := by
  have hslash : q ≠ '\\' := by rcases hq with rfl | rfl <;> decide
  have hescape : unescaped q = q := by rcases hq with rfl | rfl <;> rfl
  induction cs with
  | nil => rw [List.flatMap_nil, List.nil_append, quoted?_cons hslash, if_pos rfl]
  | cons c cs ih =>
    -- each escape is read as the character that it was made for
    have hescaped : ∀ d, unescaped d = c →
        quoted? q ('\\' :: d :: (cs.flatMap (Value.quotedChar q) ++ q :: rest))
          = some (c :: cs, rest) := by
      intro d hd
      rw [quoted?, ih, Option.map_some, hd]
    rw [List.flatMap_cons, List.append_assoc]
    simp only [Value.quotedChar, beq_iff_eq]
    split
    · next hc => exact hescaped '\\' hc.symm
    · split
      · next hc => exact hescaped 'n' hc.symm
      · split
        · next hc => exact hescaped 't' hc.symm
        · split
          · next hc => exact hescaped c (hc ▸ hescape)
          · next hslash' _ _ hquote =>
            rw [List.singleton_append, quoted?_cons hslash', if_neg hquote, ih]
            rfl

theorem next?_quote (s : String) (rest : List Char) :
    next? ((Value.quote s).toList ++ rest) = some (.text s, rest) := by
  have hq : Value.delimiter s.toList = '"' ∨ Value.delimiter s.toList = '\'' := by
    rw [Value.delimiter]
    split
    · exact Or.inl rfl
    · exact Or.inr rfl
  have hquoted := quoted?_quotedChars hq s.toList rest
  have htext : (Value.quote s).toList ++ rest
      = Value.delimiter s.toList ::
        (s.toList.flatMap (Value.quotedChar (Value.delimiter s.toList)) ++
          Value.delimiter s.toList :: rest) := by
    rw [Value.quote, String.toList_ofList]
    simp
  rw [htext]
  generalize Value.delimiter s.toList = q at hq hquoted
  have hstarts :
      startsNumber (q :: (s.toList.flatMap (Value.quotedChar q) ++ q :: rest)) = false := by
    rcases hq with rfl | rfl <;> rfl
  have hname : Text.isNameStart q = false := by rcases hq with rfl | rfl <;> rfl
  rw [next?, hstarts, if_neg (by decide), hname, if_neg (by decide), if_pos (by simpa using hq),
    hquoted]
  simp

end Token

namespace Expr

open Token

/-! ## Scanning a written expression -/

/-- The text is cut into the tokens in front of everything that can follow it. -/
def Written (point : Bool) (cs : List Char) (ts : List Token) : Prop :=
  ∀ rest us, CanFollow point rest → Spells rest us → Spells (cs ++ rest) (ts ++ us)

theorem canFollow_cons {c : Char} (hc : Text.isNameChar c = false ∧ c ≠ '.') (point : Bool)
    (rest : List Char) : CanFollow point (c :: rest) := by
  intro d hd
  cases hd
  exact ⟨hc.1, fun h => absurd h hc.2⟩

namespace Written

variable {point : Bool} {cs : List Char} {ts : List Token}

theorem nil : Written point [] [] :=
  fun _ _ _ hspells => hspells

/-- Where no point follows, it does not matter whether one could. -/
theorem noPoint (h : Written point cs ts) : Written false cs ts :=
  fun rest us hrest hspells =>
    h rest us (fun c hc => ⟨(hrest c hc).1, fun heq => absurd ((hrest c hc).2 heq) (by decide)⟩)
      hspells

/-- A text in front of one that starts with neither a point nor a character of a name. -/
theorem append {c : Char} {cs' : List Char} {us : List Token} (h : Written true cs ts)
    (hc : Text.isNameChar c = false ∧ c ≠ '.') (h' : Written point (c :: cs') us) :
    Written point (cs ++ c :: cs') (ts ++ us) := by
  intro rest vs hrest hspells
  rw [List.append_assoc, List.append_assoc]
  exact h _ _ (canFollow_cons hc true _) (h' rest vs hrest hspells)

/-- Something in brackets. -/
theorem group {c closer : Char} {s close : Symbol} (hs : s.closer? = some close)
    (hc : s.text = [c]) (hcloser : close.text = [closer]) (h : Written false cs ts) :
    Written point (c :: (cs ++ [closer])) (.symbol s :: (ts ++ [.symbol close])) := by
  intro rest us _ hspells
  have hopen : ∀ cs, next? (c :: cs) = some (.symbol s, cs) := by
    cases s <;> cases hs <;> cases hc <;> exact fun _ => rfl
  have hclose : ∀ cs, next? (closer :: cs) = some (.symbol close, cs) := by
    cases s <;> cases hs <;> cases hcloser <;> exact fun _ => rfl
  have hfollow : Text.isNameChar closer = false ∧ closer ≠ '.' := by
    cases s <;> cases hs <;> cases hcloser <;> decide
  have hinner := h _ _ (canFollow_cons hfollow false rest) (.cons (hclose rest) hspells)
  have hall : Spells (c :: (cs ++ closer :: rest)) (.symbol s :: (ts ++ .symbol close :: us)) :=
    .cons (hopen _) hinner
  simpa using hall

theorem parens (h : Written false cs ts) :
    Written point ('(' :: (cs ++ [')'])) (.symbol .openParen :: (ts ++ [.symbol .closeParen])) :=
  group rfl rfl rfl h

theorem brackets (h : Written false cs ts) :
    Written point ('[' :: (cs ++ [']']))
      (.symbol .openBracket :: (ts ++ [.symbol .closeBracket])) :=
  group rfl rfl rfl h

theorem braces (h : Written false cs ts) :
    Written point ('\x7b' :: (cs ++ ['\x7d']))
      (.symbol .openBrace :: (ts ++ [.symbol .closeBrace])) :=
  group rfl rfl rfl h

theorem space (h : Written point cs ts) : Written point (' ' :: cs) ts :=
  fun rest us hrest hspells => (h rest us hrest hspells).space

/-- Texts with commas between them. -/
theorem commas {α : Type} {f : α → String} {g : α → List Token} {xs : List α}
    (h : ∀ x ∈ xs, Written false (f x).toList (g x)) :
    Written false (", ".intercalate (xs.map f)).toList (commaTokens (xs.map g)) := by
  induction xs with
  | nil => exact .nil
  | cons x xs ih =>
    have hx := h x List.mem_cons_self
    have hxs := ih fun y hy => h y (List.mem_cons_of_mem x hy)
    cases xs with
    | nil => simpa [commaTokens_singleton] using hx
    | cons y ys =>
      intro rest us hrest hspells
      have hcomma : Spells (',' :: ' ' :: ((", ".intercalate ((y :: ys).map f)).toList ++ rest))
          (.symbol .comma :: (commaTokens ((y :: ys).map g) ++ us)) :=
        .cons rfl (hxs rest us hrest hspells).space
      have hall := hx _ _ (canFollow_cons (by decide) false _) hcomma
      rw [List.map_cons, List.map_cons] at hall ⊢
      rw [Line.toList_intercalate_cons] at hall
      rw [Line.toList_intercalate_cons, List.map_cons, List.map_cons, commaTokens_cons_cons]
      simpa using hall

end Written

theorem toList_enclosed (fits : Bool) (text : String) :
    (enclosed fits text).toList = if fits then text.toList else '(' :: (text.toList ++ [')']) := by
  cases fits with
  | true => rfl
  | false => simp [enclosed]

/-- An operand, in parentheses or not. -/
theorem written_enclosed {e : Expr} (h : Written e.isOwner e.render.toList e.tokens) (fits : Bool) :
    Written false (enclosed fits e.render).toList (enclosedTokens fits e.tokens) := by
  rw [toList_enclosed]
  cases fits with
  | true => exact h.noPoint
  | false => exact h.noPoint.parens

/-- The owner of a postfix. -/
theorem written_owner {e : Expr} (h : Written e.isOwner e.render.toList e.tokens) :
    Written true (enclosed e.isOwner e.render).toList (enclosedTokens e.isOwner e.tokens) := by
  rw [toList_enclosed]
  cases howner : e.isOwner with
  | true =>
    rw [howner] at h
    exact h
  | false => exact h.noPoint.parens

/-- A unary operator and the gap behind it, if it is a word. -/
theorem spells_front (op : UnaryOp) {cs : List Char} {ts : List Token} (h : Spells cs ts) :
    Spells (op.front.toList ++ cs) (op.token :: ts) := by
  cases op with
  | neg => exact .cons rfl h
  | pos => exact .cons rfl h
  | not => exact .cons (show next? _ = some (.word "not", ' ' :: cs) from rfl) h.space

/-- A binary operator with a gap behind it. -/
theorem spells_symbol (op : BinaryOp) {cs : List Char} {ts : List Token} (h : Spells cs ts) :
    Spells (op.symbol.toList ++ ' ' :: cs) (op.tokens ++ ts) := by
  have hspace : Spells (' ' :: cs) ts := h.space
  cases op with
  | notIn =>
    have hin : Spells ('i' :: 'n' :: ' ' :: cs) (.word "in" :: ts) := .cons rfl hspace
    exact .cons (show next? _ = some (.word "not", ' ' :: 'i' :: 'n' :: ' ' :: cs) from rfl)
      hin.space
  | or | and | eq | ne | lt | le | gt | ge | isIn | add | sub | mul | div | floorDiv | mod | pow =>
    exact .cons (show next? _ = some (_, ' ' :: cs) from rfl) hspace

theorem written_name {n : String} (hn : Line.IsName n.toList) (point : Bool) :
    Written point n.toList [.word n] :=
  fun _ _ hrest hspells => .cons (next?_name hn hrest) hspells

theorem written_digits (k : Nat) : Written false (Text.digits k) [.int k] :=
  fun _ _ hrest hspells => .cons (next?_digits k hrest) hspells

theorem written_int {n : Int64} (hn : 0 ≤ n.toInt) :
    Written false (Value.int n).repr.toList [(Value.int n).token] := by
  obtain ⟨k, hk⟩ := Int.eq_ofNat_of_zero_le hn
  have htext : (Value.int n).repr.toList = Text.digits k := by
    show (Text.intText n.toInt).toList = _
    rw [hk]
    exact String.toList_ofList
  have htoken : (Value.int n).token = .int k := by simp [Value.token, hk]
  rw [htext, htoken]
  exact written_digits k

/-- A point and the name behind it. -/
theorem written_point {n : String} (hn : Line.IsName n.toList) (point : Bool) :
    Written point ('.' :: n.toList) [.symbol .dot, .word n] := by
  intro rest us hrest hspells
  have hname : Spells (n.toList ++ rest) (.word n :: us) := .cons (next?_name hn hrest) hspells
  refine .cons ?_ hname
  -- no digit is behind the point, so it starts no number
  obtain ⟨c, cs, hcs, hc, -⟩ := hn
  have hstarts : startsNumber ('.' :: c :: (cs ++ rest)) = false := not_isDigit_of_isNameStart hc
  rw [hcs, List.cons_append, List.cons_append, next?, hstarts]
  rfl

/-- The two sides of a colon, with the gap behind it if there is one. -/
theorem written_colon {cs cs' : List Char} {ts us : List Token} (h : Written false cs ts)
    (h' : Written false cs' us) :
    Written false (cs ++ ':' :: cs') (ts ++ .symbol .colon :: us) := by
  intro rest vs hrest hspells
  have hcolon : Spells (':' :: (cs' ++ rest)) (.symbol .colon :: (us ++ vs)) :=
    .cons rfl (h' rest vs hrest hspells)
  have hall := h _ _ (canFollow_cons (by decide) false _) hcolon
  simpa using hall

theorem written_bound {bound : Option Expr}
    (h : ∀ e ∈ bound, Written e.isOwner e.render.toList e.tokens) :
    Written false (renderBound bound).toList (boundTokens bound) := by
  cases bound with
  | none => exact .nil
  | some e => exact (h e rfl).noPoint

/-- Every expression that can be written is cut into its tokens. -/
theorem written_render {e : Expr} (h : e.IsWritable) :
    Written e.isOwner e.render.toList e.tokens := by
  induction h with
  | nothing => exact written_name (n := "None") (by decide) true
  | bool b =>
    cases b with
    | true => exact written_name (n := "True") (by decide) true
    | false => exact written_name (n := "False") (by decide) true
  | int hn => exact written_int hn
  | text s => exact fun rest us _ hspells => .cons (next?_quote s rest) hspells
  | name hn _ => exact written_name hn true
  | @list items _ ih =>
    have hitems := Written.commas fun e he => (ih e he).noPoint
    rw [← renderItems_eq, ← itemTokens_eq] at hitems
    simpa [render, tokens] using hitems.brackets
  | @dict entries _ _ ihkeys ihvalues =>
    have hentry : ∀ p ∈ entries, Written false (renderEntry p).toList (entryTokens p) := by
      rintro ⟨k, v⟩ hp
      have hcolon := written_colon (ihkeys _ hp).noPoint (ihvalues _ hp).noPoint.space
      simpa [renderEntry, entryTokens] using hcolon
    have hentries := Written.commas hentry
    rw [← renderEntries_eq, ← entriesTokens_eq] at hentries
    simpa [render, tokens] using hentries.braces
  | @unary op e _ ih =>
    have hno : (Expr.unary op e).isOwner = false := by cases op <;> rfl
    rw [hno]
    intro rest us hrest hspells
    have hoperand := written_enclosed ih (op.tier ≤ e.tier) rest us hrest hspells
    simpa [render, tokens] using spells_front op hoperand
  | @binary op left right _ _ ihleft ihright =>
    have hno : (Expr.binary op left right).isOwner = false := by cases op <;> rfl
    rw [hno]
    intro rest us hrest hspells
    -- from right to left, each part in front of a text that is known to be cut
    have hright := written_enclosed ihright (op.rightTier ≤ right.tier) rest us hrest hspells
    have hop := (spells_symbol op hright).space
    have hleft := written_enclosed ihleft (op.leftTier ≤ left.tier) _ _
      (canFollow_cons (by decide) false _) hop
    simpa [render, tokens] using hleft
  | @call callee args _ _ ihcallee ihargs =>
    have hargs := Written.commas fun e he => (ihargs e he).noPoint
    rw [← renderItems_eq, ← itemTokens_eq] at hargs
    simpa [render, tokens] using (written_owner ihcallee).append (by decide) hargs.parens
  | index _ _ ihe ihi =>
    simpa [render, tokens] using (written_owner ihe).append (by decide) ihi.noPoint.brackets
  | @slice e low high _ _ _ ihe ihlow ihhigh =>
    have hbounds := written_colon (written_bound ihlow) (written_bound ihhigh)
    simpa [render, tokens] using (written_owner ihe).append (by decide) hbounds.brackets
  | @field owner n _ hn ih =>
    intro rest us hrest hspells
    -- only here a point follows, which an owner without a number allows
    have hpoint : CanFollow true ('.' :: (n.toList ++ rest)) := by
      intro c hc
      cases hc
      exact ⟨by decide, fun _ => rfl⟩
    have hall := written_owner ih _ _ hpoint (written_point hn true rest us hrest hspells)
    simpa [render, tokens] using hall

theorem Written.scan? {point : Bool} {cs : List Char} {ts : List Token}
    (h : Written point cs ts) : Token.scan? cs = some ts := by
  have hspells := h [] [] (by simp [CanFollow]) (.done (by simp))
  rw [List.append_nil, List.append_nil] at hspells
  exact scan?_eq_some_iff.2 hspells

/-- **Scanning finds the tokens of an expression in its text.** -/
theorem scan?_render {e : Expr} (h : e.IsWritable) : scan? e.render.toList = some e.tokens :=
  (written_render h).scan?

end Expr

end StepScript
