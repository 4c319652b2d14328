import StepScript.Proofs.Rendering

/-!
# Reading written expressions back

Parsing the canonical text of an expression gives the expression (`parse_render`). An expression is
read at every level below its own, in front of whatever its own operator would not take in; what
comes behind it is then taken up by `Parser.extend`. The fuel of the parser grows by four with every
token, and more fuel never changes what was read.
-/

set_option autoImplicit false

namespace StepScript

namespace Expr

/-! ## More fuel -/

/-- What the readers of the parser find with some fuel they find with one more. -/
structure ReadersGrow (fuel : Nat) : Prop where
  expression {level : Nat} {ts : List Token} {r : Expr × List Token}
    (h : Parser.expression fuel level ts = some r) : Parser.expression (fuel + 1) level ts = some r
  operand {ts : List Token} {r : Expr × List Token}
    (h : Parser.operand fuel ts = some r) : Parser.operand (fuel + 1) ts = some r
  extend {level : Nat} {e : Expr} {ts : List Token} {r : Expr × List Token}
    (h : Parser.extend fuel level e ts = some r) : Parser.extend (fuel + 1) level e ts = some r
  items {close : Symbol} {ts : List Token} {r : List Expr × List Token}
    (h : Parser.items fuel close ts = some r) : Parser.items (fuel + 1) close ts = some r
  entries {ts : List Token} {r : List (Expr × Expr) × List Token}
    (h : Parser.entries fuel ts = some r) : Parser.entries (fuel + 1) ts = some r
  subscript {e : Expr} {ts : List Token} {r : Expr × List Token}
    (h : Parser.subscript fuel e ts = some r) : Parser.subscript (fuel + 1) e ts = some r
  upper {e : Expr} {low : Option Expr} {ts : List Token} {r : Expr × List Token}
    (h : Parser.upper fuel e low ts = some r) : Parser.upper (fuel + 1) e low ts = some r

namespace ReadersGrow

variable {fuel : Nat} {ts : List Token}

theorem expression_succ (ih : ReadersGrow fuel) {level : Nat} {r : Expr × List Token}
    (h : Parser.expression (fuel + 1) level ts = some r) :
    Parser.expression (fuel + 1 + 1) level ts = some r := by
  unfold Parser.expression at h ⊢
  split at h
  · cases h
  · next hread =>
    rw [ih.operand hread]
    exact ih.extend h

theorem operand_succ (ih : ReadersGrow fuel) {r : Expr × List Token}
    (h : Parser.operand (fuel + 1) ts = some r) :
    Parser.operand (fuel + 1 + 1) ts = some r := by
  unfold Parser.operand at h ⊢
  split at h
  · obtain ⟨read, hread, rfl⟩ := Option.map_eq_some_iff.1 h
    rw [ih.expression hread]
    rfl
  · split at h
    · split at h
      · next hread =>
        rw [← h, ih.expression hread]
      · cases h
    · obtain ⟨read, hread, rfl⟩ := Option.map_eq_some_iff.1 h
      dsimp only
      rw [ih.items hread]
      rfl
    · obtain ⟨read, hread, rfl⟩ := Option.map_eq_some_iff.1 h
      dsimp only
      rw [ih.entries hread]
      rfl
    -- what is one token needs no fuel
    all_goals exact h

theorem extend_succ (ih : ReadersGrow fuel) {level : Nat} {e : Expr} {r : Expr × List Token}
    (h : Parser.extend (fuel + 1) level e ts = some r) :
    Parser.extend (fuel + 1 + 1) level e ts = some r := by
  unfold Parser.extend at h ⊢
  split at h
  · split at h
    · next hread =>
      rw [ih.items hread]
      exact ih.extend h
    · cases h
  · split at h
    · next hread =>
      rw [ih.subscript hread]
      exact ih.extend h
    · cases h
  · exact ih.extend h
  · split at h
    · split at h
      · next hlevel =>
        split at h
        · next hread =>
          simp only [if_pos hlevel]
          rw [ih.expression hread]
          exact ih.extend h
        · cases h
      · next hlevel =>
        simp only [if_neg hlevel]
        exact h
    · exact h

theorem items_succ (ih : ReadersGrow fuel) {close : Symbol} {r : List Expr × List Token}
    (h : Parser.items (fuel + 1) close ts = some r) :
    Parser.items (fuel + 1 + 1) close ts = some r := by
  unfold Parser.items at h ⊢
  split at h
  · next hhead =>
    rw [if_pos hhead]
    exact h
  · next hhead =>
    rw [if_neg hhead]
    split at h
    · next hread =>
      obtain ⟨read, hmore, rfl⟩ := Option.map_eq_some_iff.1 h
      rw [ih.expression hread]
      dsimp only
      rw [ih.items hmore]
      rfl
    · next hcomma hread =>
      rw [ih.expression hread]
      -- the branch was taken because no comma follows, and none follows now
      split
      · next heq =>
        cases heq
        exact (hcomma rfl).elim
      · next heq =>
        cases heq
        exact h
      · next hnone => exact (hnone _ _ _ rfl).elim
    · cases h

theorem entries_succ (ih : ReadersGrow fuel) {r : List (Expr × Expr) × List Token}
    (h : Parser.entries (fuel + 1) ts = some r) :
    Parser.entries (fuel + 1 + 1) ts = some r := by
  unfold Parser.entries at h ⊢
  split at h
  · next hhead =>
    rw [if_pos hhead]
    exact h
  · next hhead =>
    rw [if_neg hhead]
    split at h
    · next hkey =>
      rw [ih.expression hkey]
      dsimp only
      split at h
      · next hvalue =>
        obtain ⟨read, hmore, rfl⟩ := Option.map_eq_some_iff.1 h
        rw [ih.expression hvalue]
        dsimp only
        rw [ih.entries hmore]
        rfl
      · next hvalue =>
        rw [ih.expression hvalue]
        exact h
      · cases h
    · cases h

theorem subscript_succ (ih : ReadersGrow fuel) {e : Expr} {r : Expr × List Token}
    (h : Parser.subscript (fuel + 1) e ts = some r) :
    Parser.subscript (fuel + 1 + 1) e ts = some r := by
  unfold Parser.subscript at h ⊢
  split at h
  · exact ih.upper h
  · split at h
    · next hread =>
      rw [ih.expression hread]
      exact h
    · next hread =>
      rw [ih.expression hread]
      exact ih.upper h
    · cases h

theorem upper_succ (ih : ReadersGrow fuel) {e : Expr} {low : Option Expr} {r : Expr × List Token}
    (h : Parser.upper (fuel + 1) e low ts = some r) :
    Parser.upper (fuel + 1 + 1) e low ts = some r := by
  unfold Parser.upper at h ⊢
  split at h
  · exact h
  · split at h
    · next hread =>
      rw [ih.expression hread]
      exact h
    · cases h

end ReadersGrow

theorem readersGrow (fuel : Nat) : ReadersGrow fuel := by
  induction fuel with
  | zero =>
    constructor
    all_goals
      intros
      rename_i h
      cases h
  | succ fuel ih =>
    exact ⟨ih.expression_succ, ih.operand_succ, ih.extend_succ, ih.items_succ, ih.entries_succ,
      ih.subscript_succ, ih.upper_succ⟩

/-- A reader that grows with its fuel keeps what it found. -/
private theorem some_of_le {α : Type} {f : Nat → Option α}
    (hf : ∀ n r, f n = some r → f (n + 1) = some r) {m n : Nat} (hmn : m ≤ n) {r : α}
    (h : f m = some r) : f n = some r := by
  induction hmn with
  | refl => exact h
  | step _ ih => exact hf _ r ih

section

variable {m n l : Nat} {ts : List Token}

theorem expression_mono (hmn : m ≤ n) {r : Expr × List Token}
    (h : Parser.expression m l ts = some r) : Parser.expression n l ts = some r :=
  some_of_le (f := fun k => Parser.expression k l ts)
    (fun k _ h => (readersGrow k).expression h) hmn h

theorem operand_mono (hmn : m ≤ n) {r : Expr × List Token}
    (h : Parser.operand m ts = some r) : Parser.operand n ts = some r :=
  some_of_le (f := fun k => Parser.operand k ts) (fun k _ h => (readersGrow k).operand h) hmn h

theorem extend_mono (hmn : m ≤ n) {e : Expr} {r : Expr × List Token}
    (h : Parser.extend m l e ts = some r) : Parser.extend n l e ts = some r :=
  some_of_le (f := fun k => Parser.extend k l e ts) (fun k _ h => (readersGrow k).extend h) hmn h

end

/-! ## One step of each reader -/

/-- The tokens go on with a call, an index or a field. -/
def startsPostfix : List Token → Bool
  | .symbol .openParen :: _ | .symbol .openBracket :: _ | .symbol .dot :: .word _ :: _ => true
  | _ => false

/-- The symbol stands behind an expression in brackets. -/
def endsOperand : Symbol → Bool
  | .closeParen | .closeBracket | .closeBrace | .comma | .colon => true
  | _ => false

section

variable {n l : Nat} {e : Expr} {ts rest : List Token} {r : Expr × List Token}

theorem pos_of_extend (h : Parser.extend n l e ts = some r) : 0 < n := by
  cases n with
  | zero => cases h
  | succ n => exact Nat.succ_pos n

theorem operand_unary {op : UnaryOp} {us : List Token} (hop : unaryOp? ts = some (op, us))
    (h : Parser.expression n op.operandLevel us = some (e, rest)) :
    Parser.operand (n + 1) ts = some (.unary op e, rest) := by
  unfold Parser.operand
  rw [hop]
  simp only [h, Option.map_some]

theorem operand_parens (h : Parser.expression n 0 ts = some (e, .symbol .closeParen :: rest)) :
    Parser.operand (n + 1) (.symbol .openParen :: ts) = some (e, rest) := by
  rw [Parser.operand]
  simp only [unaryOp?, h]

theorem operand_list {es : List Expr} (h : Parser.items n .closeBracket ts = some (es, rest)) :
    Parser.operand (n + 1) (.symbol .openBracket :: ts) = some (.list es, rest) := by
  rw [Parser.operand]
  simp only [unaryOp?, h, Option.map_some]

theorem operand_dict {es : List (Expr × Expr)} (h : Parser.entries n ts = some (es, rest)) :
    Parser.operand (n + 1) (.symbol .openBrace :: ts) = some (.dict es, rest) := by
  rw [Parser.operand]
  simp only [unaryOp?, h, Option.map_some]

/-- An operand and everything that goes on from it. -/
theorem expression_of_operand {k m : Nat} (hoperand : Parser.operand k ts = some (e, rest))
    (hextend : Parser.extend m l e rest = some r) (hk : k ≤ n) (hm : m ≤ n) :
    Parser.expression (n + 1) l ts = some r := by
  rw [Parser.expression, operand_mono hk hoperand]
  exact extend_mono hm hextend

theorem head_of_expression {s : Symbol} (hs : endsOperand s = true)
    (h : Parser.expression n l ts = some r) : ts.head? ≠ some (.symbol s) := by
  intro hhead
  cases ts with
  | nil => cases hhead
  | cons t ts =>
    cases hhead
    -- no operand starts with such a symbol
    have hnone : ∀ k, Parser.operand k (.symbol s :: ts) = none := by
      intro k
      cases k with
      | zero => rfl
      | succ k => cases s <;> first | rfl | cases hs
    cases n with
    | zero => cases h
    | succ n =>
      rw [Parser.expression, hnone n] at h
      cases h

theorem extend_call {args : List Expr} (hargs : Parser.items n .closeParen ts = some (args, rest))
    (h : Parser.extend n l (.call e args) rest = some r) :
    Parser.extend (n + 1) l e (.symbol .openParen :: ts) = some r := by
  rw [Parser.extend, hargs]
  exact h

theorem extend_subscript {e' : Expr} (he' : Parser.subscript n e ts = some (e', rest))
    (h : Parser.extend n l e' rest = some r) :
    Parser.extend (n + 1) l e (.symbol .openBracket :: ts) = some r := by
  rw [Parser.extend, he']
  exact h

theorem extend_field {w : String} (h : Parser.extend n l (.field e w) ts = some r) :
    Parser.extend (n + 1) l e (.symbol .dot :: .word w :: ts) = some r := by
  rw [Parser.extend]
  exact h

theorem extend_binary {op : BinaryOp} {right : Expr} {us : List Token}
    (hop : binaryOp? ts = some (op, us)) (hts : startsPostfix ts = false) (hl : l < op.level)
    (hright : Parser.expression n op.rightLevel us = some (right, rest))
    (h : Parser.extend n l (.binary op e right) rest = some r) :
    Parser.extend (n + 1) l e ts = some r := by
  unfold Parser.extend
  split
  · cases hts
  · cases hts
  · cases hts
  · rw [hop]
    simp only [if_pos hl]
    rw [hright]
    exact h

/-- Nothing is taken in at this level. -/
structure Stops (level : Nat) (ts : List Token) : Prop where
  operator : ∀ op rest, binaryOp? ts = some (op, rest) → op.level ≤ level
  noPostfix : startsPostfix ts = false

theorem stops_of_endsOperand {s : Symbol} (hs : endsOperand s = true) (l : Nat) (ts : List Token) :
    Stops l (.symbol s :: ts) := by
  cases s with
  | closeParen | closeBracket | closeBrace | comma | colon => exact ⟨by simp [binaryOp?], rfl⟩
  | _ => cases hs

theorem extend_of_stops (h : Stops l ts) (hn : 0 < n) :
    Parser.extend n l e ts = some (e, ts) := by
  obtain ⟨n, rfl⟩ : ∃ k, n = k + 1 := ⟨n - 1, by omega⟩
  have hts := h.noPostfix
  unfold Parser.extend
  split
  · cases hts
  · cases hts
  · cases hts
  · split
    · next op rest hop =>
      have hle := h.operator op rest hop
      rw [if_neg (by omega)]
    · rfl

theorem items_nil (close : Symbol) :
    Parser.items (n + 1) close (.symbol close :: rest) = some ([], rest) := by
  simp [Parser.items]

theorem items_last {close : Symbol} (hclose : endsOperand close = true)
    (hcomma : close ≠ .comma) (h : Parser.expression n 0 ts = some (e, .symbol close :: rest)) :
    Parser.items (n + 1) close ts = some ([e], rest) := by
  have hhead := head_of_expression hclose h
  rw [Parser.items, if_neg (by simpa using hhead), h]
  simp [hcomma]

theorem items_cons {close : Symbol} (hclose : endsOperand close = true) {es : List Expr}
    {us : List Token} (h : Parser.expression n 0 ts = some (e, .symbol .comma :: us))
    (hes : Parser.items n close us = some (es, rest)) :
    Parser.items (n + 1) close ts = some (e :: es, rest) := by
  have hhead := head_of_expression hclose h
  rw [Parser.items, if_neg (by simpa using hhead), h]
  simp [hes]

theorem entries_nil : Parser.entries (n + 1) (.symbol .closeBrace :: rest) = some ([], rest) := by
  simp [Parser.entries]

theorem entries_last {k v : Expr} {us : List Token}
    (hk : Parser.expression n 0 ts = some (k, .symbol .colon :: us))
    (hv : Parser.expression n 0 us = some (v, .symbol .closeBrace :: rest)) :
    Parser.entries (n + 1) ts = some ([(k, v)], rest) := by
  have hhead : ts.head? ≠ some (.symbol .closeBrace) := head_of_expression rfl hk
  rw [Parser.entries, if_neg (by simpa using hhead), hk]
  simp [hv]

theorem entries_cons {k v : Expr} {es : List (Expr × Expr)} {us vs : List Token}
    (hk : Parser.expression n 0 ts = some (k, .symbol .colon :: us))
    (hv : Parser.expression n 0 us = some (v, .symbol .comma :: vs))
    (hes : Parser.entries n vs = some (es, rest)) :
    Parser.entries (n + 1) ts = some ((k, v) :: es, rest) := by
  have hhead : ts.head? ≠ some (.symbol .closeBrace) := head_of_expression rfl hk
  rw [Parser.entries, if_neg (by simpa using hhead), hk]
  simp [hv, hes]

theorem upper_high {low : Option Expr} {high : Expr}
    (h : Parser.expression n 0 ts = some (high, .symbol .closeBracket :: rest)) :
    Parser.upper (n + 1) e low ts = some (.slice e low (some high), rest) := by
  have hhead : ts.head? ≠ some (.symbol .closeBracket) := head_of_expression rfl h
  unfold Parser.upper
  split
  · exact absurd rfl hhead
  · rw [h]

theorem subscript_index {i : Expr}
    (h : Parser.expression n 0 ts = some (i, .symbol .closeBracket :: rest)) :
    Parser.subscript (n + 1) e ts = some (.index e i, rest) := by
  have hhead : ts.head? ≠ some (.symbol .colon) := head_of_expression rfl h
  unfold Parser.subscript
  split
  · exact absurd rfl hhead
  · rw [h]

theorem subscript_low {low : Expr} {us : List Token}
    (hlow : Parser.expression n 0 ts = some (low, .symbol .colon :: us))
    (h : Parser.upper n e (some low) us = some r) : Parser.subscript (n + 1) e ts = some r := by
  have hhead : ts.head? ≠ some (.symbol .colon) := head_of_expression rfl hlow
  unfold Parser.subscript
  split
  · exact absurd rfl hhead
  · rw [hlow]
    exact h

end

/-! ## Tiers and levels -/

/-- The level of the outermost operator: the expression is read at every level below it. -/
def level : Expr → Nat
  | .unary op _ => op.operandLevel + 1
  | .binary op _ _ => op.level
  | _ => 90

/-- The level that the expression is read at on its right side. -/
def rightLevel : Expr → Nat
  | .unary op _ => op.operandLevel
  | .binary op _ _ => op.rightLevel
  | _ => 90

theorem level_bounds (op : BinaryOp) :
    10 ≤ op.level ∧ op.level ≤ 80 ∧ op.level ≤ op.rightLevel + 1 := by
  cases op <;> decide

theorem level_pos (e : Expr) : 0 < e.level := by
  cases e with
  | binary op left right => exact Nat.lt_of_lt_of_le (by decide) (level_bounds op).1
  | _ => exact Nat.succ_pos _

theorem level_le_rightLevel (e : Expr) : e.level ≤ e.rightLevel + 1 := by
  cases e with
  | unary op e => exact Nat.le_refl _
  | binary op left right => exact (level_bounds op).2.2
  | _ => exact Nat.le_succ 90

/-- Where a left operand needs no parentheses, it does not take in the operator behind it. -/
theorem level_le_of_leftTier {op : BinaryOp} {e : Expr} (h : op.leftTier ≤ e.tier) :
    op.level ≤ e.level ∧ op.level ≤ e.rightLevel := by
  have hunary : ∀ op' : UnaryOp, op.leftTier ≤ op'.tier → op.level ≤ op'.operandLevel := by
    intro op'
    cases op <;> cases op' <;> decide
  have hbinary : ∀ op ∈ BinaryOp.all, ∀ op' ∈ BinaryOp.all, op.leftTier ≤ op'.tier →
      op.level ≤ op'.level ∧ op.level ≤ op'.rightLevel := by decide
  cases e with
  | unary op' e =>
    have hle := hunary op' h
    exact ⟨Nat.le_succ_of_le hle, hle⟩
  | binary op' left right => exact hbinary op op.mem_all op' op'.mem_all h
  | _ =>
    have hle : op.level ≤ 90 := Nat.le_trans (level_bounds op).2.1 (by decide)
    exact ⟨hle, hle⟩

/-- Where a right operand needs no parentheses, it is read as a whole. -/
theorem level_lt_of_rightTier {op : BinaryOp} {e : Expr} (h : op.rightTier ≤ e.tier) :
    op.rightLevel < e.level := by
  have hunary : ∀ op' : UnaryOp, op.rightTier ≤ op'.tier →
      op.rightLevel < op'.operandLevel + 1 := by
    intro op'
    cases op <;> cases op' <;> decide
  have hbinary : ∀ op ∈ BinaryOp.all, ∀ op' ∈ BinaryOp.all, op.rightTier ≤ op'.tier →
      op.rightLevel < op'.level := by decide
  cases e with
  | unary op' e => exact hunary op' h
  | binary op' left right => exact hbinary op op.mem_all op' op'.mem_all h
  | _ =>
    have hlt : op.rightLevel < 90 := by cases op <;> decide
    exact hlt

/-- Where the operand of a unary operator needs no parentheses, it is read as a whole. -/
theorem level_lt_of_unaryTier {op : UnaryOp} {e : Expr} (h : op.tier ≤ e.tier) :
    op.operandLevel < e.level := by
  have hunary : ∀ op' : UnaryOp, op.tier ≤ op'.tier → op.operandLevel < op'.operandLevel + 1 := by
    intro op'
    cases op <;> cases op' <;> decide
  have hbinary : ∀ op' : BinaryOp, op.tier ≤ op'.tier → op.operandLevel < op'.level := by
    intro op'
    cases op <;> cases op' <;> decide
  cases e with
  | unary op' e => exact hunary op' h
  | binary op' left right => exact hbinary op' h
  | _ =>
    have hlt : op.operandLevel < 90 := by cases op <;> decide
    exact hlt

/-- An owner has no operator that could take in what follows. -/
theorem level_of_isOwner {e : Expr} (h : e.isOwner = true) : e.level = 90 := by
  have htier : 9 ≤ e.tier := of_decide_eq_true (Bool.and_eq_true_iff.1 h).1
  cases e with
  | unary op e =>
    have hlt : op.tier < 9 := by cases op <;> decide
    exact absurd htier (Nat.not_le.2 hlt)
  | binary op left right =>
    have hlt : op.tier < 9 := by cases op <;> decide
    exact absurd htier (Nat.not_le.2 hlt)
  | _ => rfl

/-- What may stand behind an expression without becoming a part of it. -/
structure Follows (e : Expr) (ts : List Token) : Prop where
  operator : ∀ op rest, binaryOp? ts = some (op, rest) → op.level ≤ e.rightLevel
  owner : startsPostfix ts = true → e.level = 90

theorem follows_of_stops {e : Expr} {l : Nat} {ts : List Token} (h : Stops l ts)
    (hl : l < e.level) : Follows e ts where
  operator op rest hop := by
    have hle := h.operator op rest hop
    have hright := e.level_le_rightLevel
    omega
  owner hts := by
    rw [h.noPostfix] at hts
    cases hts

theorem Follows.stops {e : Expr} {ts : List Token} (h : Follows e ts) (he : e.level < 90) :
    Stops e.rightLevel ts where
  operator := h.operator
  noPostfix := by
    rw [← Bool.not_eq_true]
    intro hts
    have heq := h.owner hts
    omega

/-! ## Reading back -/

/-- The expression is read from its tokens at each level below its own. What the parser makes of the
    tokens behind it is left to `Parser.extend`: a left operand is read before its operator is. -/
def Reads (e : Expr) : Prop :=
  ∀ l < e.level, ∀ (n : Nat) (rest : List Token) (r : Expr × List Token), Follows e rest →
    Parser.extend n l e rest = some r →
    Parser.expression (n + 4 * e.tokens.length) l (e.tokens ++ rest) = some r

namespace Reads

variable {e : Expr}

/-- An expression in front of what it does not take in. -/
theorem alone (h : Reads e) {l n : Nat} {rest : List Token} (hl : l < e.level)
    (hrest : Stops l rest) (hn : 4 * e.tokens.length < n) :
    Parser.expression n l (e.tokens ++ rest) = some (e, rest) :=
  expression_mono (by omega)
    (h l hl 1 rest (e, rest) (follows_of_stops hrest hl) (extend_of_stops hrest Nat.one_pos))

/-- An expression that a bracket, a comma or a colon follows. -/
theorem inBrackets (h : Reads e) {s : Symbol} (hs : endsOperand s = true) (rest : List Token)
    {n : Nat} (hn : 4 * e.tokens.length < n) :
    Parser.expression n 0 (e.tokens ++ .symbol s :: rest) = some (e, .symbol s :: rest) :=
  h.alone e.level_pos (stops_of_endsOperand hs 0 rest) hn

/-- An operand, in parentheses or not. -/
theorem enclosed (h : Reads e) (fits : Bool) {l n : Nat} {rest : List Token}
    {r : Expr × List Token} (hl : fits = true → l < e.level)
    (hrest : fits = true → Follows e rest) (hextend : Parser.extend n l e rest = some r) :
    Parser.expression (n + 4 * (enclosedTokens fits e.tokens).length) l
      (enclosedTokens fits e.tokens ++ rest) = some r := by
  cases fits with
  | true => exact h l (hl rfl) n rest r (hrest rfl) hextend
  | false =>
    -- in parentheses the level starts anew, and nothing in them sees what follows
    have hinner := h.inBrackets (s := .closeParen) rfl rest (Nat.lt_succ_self _)
    have hoperand := operand_parens hinner
    have hlength : n + 4 * (enclosedTokens false e.tokens).length
        = n + 4 * e.tokens.length + 7 + 1 := by
      simp [enclosedTokens]
      omega
    have htokens : enclosedTokens false e.tokens ++ rest
        = .symbol .openParen :: (e.tokens ++ .symbol .closeParen :: rest) := by
      simp [enclosedTokens]
    rw [hlength, htokens]
    exact expression_of_operand hoperand hextend (by omega) (by omega)

/-- An expression that one operand makes, with what goes on from it. -/
theorem of_operand {m : Nat} (hm : m < 4 * e.tokens.length)
    (h : ∀ rest, Parser.operand m (e.tokens ++ rest) = some (e, rest)) : Reads e := by
  intro l _ n rest r _ hextend
  have hn := pos_of_extend hextend
  obtain ⟨k, hk⟩ : ∃ k, n + 4 * e.tokens.length = k + 1 := ⟨n + 4 * e.tokens.length - 1, by omega⟩
  rw [hk]
  exact expression_of_operand (h rest) hextend (by omega) (by omega)

theorem items {es : List Expr} (h : ∀ e ∈ es, Reads e) (close : Symbol)
    (hclose : endsOperand close = true) (hcomma : close ≠ .comma) (rest : List Token) {n : Nat}
    (hn : 4 * (commaTokens (itemTokens es)).length + 1 < n) :
    Parser.items n close (commaTokens (itemTokens es) ++ .symbol close :: rest)
      = some (es, rest) := by
  induction es generalizing n with
  | nil =>
    obtain ⟨n, rfl⟩ : ∃ k, n = k + 1 := ⟨n - 1, by omega⟩
    exact items_nil close
  | cons e es ih =>
    obtain ⟨n, rfl⟩ : ∃ k, n = k + 1 := ⟨n - 1, by omega⟩
    have he : Reads e := h e List.mem_cons_self
    cases es with
    | nil =>
      have htokens : commaTokens (itemTokens [e]) = e.tokens := commaTokens_singleton _
      rw [htokens] at hn ⊢
      exact items_last hclose hcomma (he.inBrackets hclose rest (by omega))
    | cons e' es =>
      have htokens : commaTokens (itemTokens (e :: e' :: es))
          = e.tokens ++ .symbol .comma :: commaTokens (itemTokens (e' :: es)) :=
        commaTokens_cons_cons _ _ _
      have hlength := congrArg List.length htokens
      rw [List.length_append, List.length_cons] at hlength
      rw [htokens, List.append_assoc, List.cons_append]
      exact items_cons hclose (he.inBrackets rfl _ (by omega))
        (ih (fun e he => h e (List.mem_cons_of_mem _ he)) (by omega))

theorem entries {es : List (Expr × Expr)} (hkeys : ∀ p ∈ es, Reads p.1)
    (hvalues : ∀ p ∈ es, Reads p.2) (rest : List Token) {n : Nat}
    (hn : 4 * (commaTokens (entriesTokens es)).length + 1 < n) :
    Parser.entries n (commaTokens (entriesTokens es) ++ .symbol .closeBrace :: rest)
      = some (es, rest) := by
  induction es generalizing n with
  | nil =>
    obtain ⟨n, rfl⟩ : ∃ k, n = k + 1 := ⟨n - 1, by omega⟩
    exact entries_nil
  | cons p es ih =>
    obtain ⟨n, rfl⟩ : ∃ k, n = k + 1 := ⟨n - 1, by omega⟩
    obtain ⟨k, v⟩ := p
    have hk : Reads k := hkeys (k, v) List.mem_cons_self
    have hv : Reads v := hvalues (k, v) List.mem_cons_self
    cases es with
    | nil =>
      have htokens : commaTokens (entriesTokens [(k, v)])
          = k.tokens ++ .symbol .colon :: v.tokens :=
        commaTokens_singleton _
      have hlength := congrArg List.length htokens
      rw [List.length_append, List.length_cons] at hlength
      rw [htokens, List.append_assoc, List.cons_append]
      exact entries_last (hk.inBrackets rfl _ (by omega)) (hv.inBrackets rfl _ (by omega))
    | cons p es =>
      have htokens : commaTokens (entriesTokens ((k, v) :: p :: es))
          = k.tokens ++ .symbol .colon :: (v.tokens ++ .symbol .comma ::
            commaTokens (entriesTokens (p :: es))) := by
        simp [entriesTokens, entryTokens, commaTokens_cons_cons]
      have hlength := congrArg List.length htokens
      simp only [List.length_append, List.length_cons] at hlength
      rw [htokens, List.append_assoc, List.cons_append, List.append_assoc, List.cons_append]
      exact entries_cons (hk.inBrackets rfl _ (by omega)) (hv.inBrackets rfl _ (by omega))
        (ih (fun p hp => hkeys p (List.mem_cons_of_mem _ hp))
          (fun p hp => hvalues p (List.mem_cons_of_mem _ hp)) (by omega))

/-- The bounds of a slice, behind the opening bracket. -/
theorem bounds {low high : Option Expr} (hlow : ∀ b ∈ low, Reads b) (hhigh : ∀ b ∈ high, Reads b)
    (e : Expr) (rest : List Token) {n : Nat}
    (hn : 4 * ((boundTokens low).length + (boundTokens high).length) + 2 < n) :
    Parser.subscript n e (boundTokens low ++ .symbol .colon ::
      (boundTokens high ++ .symbol .closeBracket :: rest)) = some (.slice e low high, rest) := by
  obtain ⟨n, rfl⟩ : ∃ k, n = k + 2 := ⟨n - 2, by omega⟩
  have hupper : Parser.upper (n + 1) e low (boundTokens high ++ .symbol .closeBracket :: rest)
      = some (.slice e low high, rest) := by
    cases high with
    | none => rfl
    | some high =>
      have hlength : 4 * high.tokens.length < n := by
        rw [boundTokens] at hn
        omega
      exact upper_high ((hhigh high rfl).inBrackets rfl rest hlength)
  cases low with
  | none => exact hupper
  | some low =>
    have hlength : 4 * low.tokens.length < n + 1 := by
      rw [boundTokens] at hn
      omega
    exact subscript_low ((hlow low rfl).inBrackets rfl _ hlength) hupper

/-- A call, an index, a slice or a field: the owner is read first, and the parser goes on from it
    with the tokens behind it. -/
theorem of_owner (h : Reads e) {e' : Expr} (tail : List Token) (hlevel : e'.level = 90)
    (htokens : e'.tokens = enclosedTokens e.isOwner e.tokens ++ tail)
    (htail : ∀ rest, binaryOp? (tail ++ rest) = none)
    (hstep : ∀ l n rest r, Parser.extend n l e' rest = some r →
      Parser.extend (n + 4 * tail.length) l e (tail ++ rest) = some r) : Reads e' := by
  intro l hl n rest r _ hextend
  rw [hlevel] at hl
  have hbelow : e.isOwner = true → l < e.level := by
    intro howner
    rw [level_of_isOwner howner]
    exact hl
  have hfollows : e.isOwner = true → Follows e (tail ++ rest) :=
    fun howner => ⟨by simp [htail], fun _ => level_of_isOwner howner⟩
  have hall := h.enclosed e.isOwner hbelow hfollows (hstep l n rest r hextend)
  rw [htokens, List.append_assoc, List.length_append]
  exact expression_mono (by omega) hall

theorem name {w : String} (hw : w ∉ reserved) : Reads (.name w) := by
  refine of_operand (m := 1) (by simp [tokens]) fun rest => ?_
  simp only [reserved, List.mem_cons, not_or] at hw
  have hunary : unaryOp? (.word w :: rest) = none := by
    unfold unaryOp?
    split
    · next heq => cases heq
    · next heq => cases heq
    · next heq =>
      cases heq
      simp at hw
    · rfl
  have hword : ofWord w = .name w := by simp [ofWord, hw]
  show Parser.operand 1 (.word w :: rest) = _
  rw [Parser.operand, hunary]
  simp [hword]

/-- The integers that their digits without a sign give back: the least one is out of range without
    its sign, and wraps around. -/
theorem int {k : Int64} (hk : 0 ≤ k.toInt ∨ k = Int64.minValue) : Reads (.literal (.int k)) := by
  refine of_operand (m := 1) (by simp [tokens]) fun rest => ?_
  have hvalue : Int64.ofNat k.toInt.natAbs = k := by
    rcases hk with hk | rfl
    · have hlt := k.toInt_lt
      rw [← Int64.toInt_inj, Int64.toInt_ofNat_of_lt (by omega), Int.natAbs_of_nonneg hk]
    · decide
  show some (Expr.literal (.int (Int64.ofNat k.toInt.natAbs)), rest) = _
  rw [hvalue]

theorem list {es : List Expr} (h : ∀ e ∈ es, Reads e) : Reads (.list es) := by
  refine of_operand (m := 4 * (commaTokens (itemTokens es)).length + 3) ?_ fun rest => ?_
  · simp only [tokens, List.length_cons, List.length_append]
    omega
  · have hitems := Reads.items h .closeBracket rfl (by decide) rest (Nat.lt_succ_self _)
    have htokens : (Expr.list es).tokens ++ rest = .symbol .openBracket ::
        (commaTokens (itemTokens es) ++ .symbol .closeBracket :: rest) := by
      simp [tokens]
    rw [htokens]
    exact operand_list hitems

theorem dict {es : List (Expr × Expr)} (hkeys : ∀ p ∈ es, Reads p.1)
    (hvalues : ∀ p ∈ es, Reads p.2) : Reads (.dict es) := by
  refine of_operand (m := 4 * (commaTokens (entriesTokens es)).length + 3) ?_ fun rest => ?_
  · simp only [tokens, List.length_cons, List.length_append]
    omega
  · have hentries := Reads.entries hkeys hvalues rest (Nat.lt_succ_self _)
    have htokens : (Expr.dict es).tokens ++ rest = .symbol .openBrace ::
        (commaTokens (entriesTokens es) ++ .symbol .closeBrace :: rest) := by
      simp [tokens]
    rw [htokens]
    exact operand_dict hentries

theorem unary (op : UnaryOp) (h : Reads e) : Reads (.unary op e) := by
  intro l _ n rest r hrest hextend
  have hlevel : op.operandLevel + 1 < 90 := by cases op <;> decide
  -- the operand stops where the whole does
  have hstops : Stops op.operandLevel rest := hrest.stops hlevel
  have hbelow : decide (op.tier ≤ e.tier) = true → op.operandLevel < e.level :=
    fun hfits => level_lt_of_unaryTier (of_decide_eq_true hfits)
  have hread := h.enclosed (op.tier ≤ e.tier) hbelow
    (fun hfits => follows_of_stops hstops (hbelow hfits)) (extend_of_stops hstops Nat.one_pos)
  have hop : ∀ ts, unaryOp? (op.token :: ts) = some (op, ts) := by cases op <;> exact fun _ => rfl
  have htokens : (Expr.unary op e).tokens ++ rest
      = op.token :: (enclosedTokens (op.tier ≤ e.tier) e.tokens ++ rest) := by
    simp [tokens]
  have hlength : (Expr.unary op e).tokens.length
      = (enclosedTokens (op.tier ≤ e.tier) e.tokens).length + 1 := by
    rw [tokens, List.length_cons]
  obtain ⟨k, hk⟩ : ∃ k, n + 4 * (Expr.unary op e).tokens.length = k + 1 :=
    ⟨n + 4 * (Expr.unary op e).tokens.length - 1, by omega⟩
  rw [hk, htokens]
  exact expression_of_operand (operand_unary (hop _) hread) hextend (by omega) (by omega)

theorem binary (op : BinaryOp) {left right : Expr} (hleft : Reads left) (hright : Reads right) :
    Reads (.binary op left right) := by
  intro l hl n rest r hrest hextend
  have hn := pos_of_extend hextend
  have hlevel : op.level < 90 := Nat.lt_of_le_of_lt (level_bounds op).2.1 (by decide)
  have hstops : Stops op.rightLevel rest := hrest.stops hlevel
  have hbelow : decide (op.rightTier ≤ right.tier) = true → op.rightLevel < right.level :=
    fun hfits => level_lt_of_rightTier (of_decide_eq_true hfits)
  have hread := hright.enclosed (op.rightTier ≤ right.tier) hbelow
    (fun hfits => follows_of_stops hstops (hbelow hfits)) (extend_of_stops hstops Nat.one_pos)
  have hop : ∀ ts, binaryOp? (op.tokens ++ ts) = some (op, ts) := by
    cases op <;> exact fun _ => rfl
  have hplain : ∀ ts, startsPostfix (op.tokens ++ ts) = false := by
    cases op <;> exact fun _ => rfl
  have hcount : 0 < op.tokens.length := by cases op <;> decide
  -- the operator and its right operand, then what goes on from the whole
  have hstep := extend_binary (e := left) (n := n + 4 * (enclosedTokens (op.rightTier ≤ right.tier)
    right.tokens).length) (hop _) (hplain _) hl (expression_mono (by omega) hread)
    (extend_mono (by omega) hextend)
  have hfollows : decide (op.leftTier ≤ left.tier) = true →
      Follows left
        (op.tokens ++ (enclosedTokens (op.rightTier ≤ right.tier) right.tokens ++ rest)) := by
    intro hfits
    refine ⟨fun op' rest' hop' => ?_, fun hts => ?_⟩
    · rw [hop] at hop'
      cases hop'
      exact (level_le_of_leftTier (of_decide_eq_true hfits)).2
    · rw [hplain] at hts
      cases hts
  have hall := hleft.enclosed (op.leftTier ≤ left.tier)
    (fun hfits => Nat.lt_of_lt_of_le hl (level_le_of_leftTier (of_decide_eq_true hfits)).1)
    hfollows hstep
  have htokens : (Expr.binary op left right).tokens ++ rest
      = enclosedTokens (op.leftTier ≤ left.tier) left.tokens ++ (op.tokens ++
        (enclosedTokens (op.rightTier ≤ right.tier) right.tokens ++ rest)) := by
    simp [tokens]
  have hlength : (Expr.binary op left right).tokens.length
      = (enclosedTokens (op.leftTier ≤ left.tier) left.tokens).length + (op.tokens.length +
        (enclosedTokens (op.rightTier ≤ right.tier) right.tokens).length) := by
    rw [tokens, List.length_append, List.length_append]
  rw [htokens]
  exact expression_mono (by omega) hall

theorem call {args : List Expr} (h : Reads e) (hargs : ∀ a ∈ args, Reads a) :
    Reads (.call e args) := by
  refine h.of_owner (.symbol .openParen :: (commaTokens (itemTokens args) ++ [.symbol .closeParen]))
    rfl rfl (fun _ => rfl) fun l n rest r hextend => ?_
  have hitems := Reads.items hargs .closeParen rfl (by decide) rest
    (n := n + 4 * (commaTokens (itemTokens args)).length + 2) (by omega)
  have hcall := extend_call hitems (extend_mono (by omega) hextend)
  rw [List.cons_append, List.append_assoc, List.length_cons, List.length_append]
  exact extend_mono (by simp; omega) hcall

theorem index {i : Expr} (h : Reads e) (hi : Reads i) : Reads (.index e i) := by
  refine h.of_owner (.symbol .openBracket :: (i.tokens ++ [.symbol .closeBracket])) rfl rfl
    (fun _ => rfl) fun l n rest r hextend => ?_
  have hindex := subscript_index (e := e)
    (hi.inBrackets (s := .closeBracket) (n := n + 4 * i.tokens.length + 1) rfl rest (by omega))
  have hall := extend_subscript hindex (extend_mono (by omega) hextend)
  rw [List.cons_append, List.append_assoc, List.length_cons, List.length_append]
  exact extend_mono (by simp; omega) hall

theorem slice {low high : Option Expr} (h : Reads e) (hlow : ∀ b ∈ low, Reads b)
    (hhigh : ∀ b ∈ high, Reads b) : Reads (.slice e low high) := by
  refine h.of_owner (.symbol .openBracket :: (boundTokens low ++ .symbol .colon ::
    (boundTokens high ++ [.symbol .closeBracket]))) rfl rfl (fun _ => rfl)
    fun l n rest r hextend => ?_
  have hbounds := bounds hlow hhigh e rest
    (n := n + 4 * ((boundTokens low).length + (boundTokens high).length) + 3) (by omega)
  have hall := extend_subscript hbounds (extend_mono (by omega) hextend)
  rw [List.cons_append, List.append_assoc, List.cons_append, List.append_assoc]
  exact extend_mono (by simp; omega) hall

theorem field {w : String} (h : Reads e) : Reads (.field e w) :=
  h.of_owner [.symbol .dot, .word w] rfl rfl (fun _ => rfl) fun _ _ _ _ hextend =>
    extend_mono (by simp) (extend_field hextend)

end Reads

/-- Every expression that can be written is read from its tokens, by cases on its outermost
    operator. -/
theorem reads_of_isWritable {e : Expr} (h : e.IsWritable) : Reads e := by
  induction h with
  | nothing => exact .of_operand (m := 1) (by simp [tokens]) fun _ => rfl
  | bool b =>
    refine .of_operand (m := 1) (by simp [tokens]) fun rest => ?_
    cases b <;> rfl
  | int hn => exact .int (Or.inl hn)
  | text s => exact .of_operand (m := 1) (by simp [tokens]) fun _ => rfl
  | name _ hreserved => exact .name hreserved
  | list _ ih => exact .list ih
  | dict _ _ ihkeys ihvalues => exact .dict ihkeys ihvalues
  | unary op _ ih => exact .unary op ih
  | binary op _ _ ihleft ihright => exact .binary op ihleft ihright
  | call _ _ ihcallee ihargs => exact .call ihcallee ihargs
  | index _ _ ihe ihi => exact .index ihe ihi
  | slice _ _ _ ihe ihlow ihhigh => exact .slice ihe ihlow ihhigh
  | field _ _ ih => exact .field ih

theorem Reads.ofTokens? {e : Expr} (h : Reads e) : Expr.ofTokens? e.tokens = some e := by
  have hstops : Stops 0 [] := ⟨by simp [binaryOp?], rfl⟩
  have hread := h.alone e.level_pos hstops (n := fuelFor e.tokens) (by rw [fuelFor]; omega)
  rw [List.append_nil] at hread
  rw [Expr.ofTokens?, hread]

/-- The tokens of an expression make up the expression. -/
theorem ofTokens?_tokens {e : Expr} (h : e.IsWritable) : ofTokens? e.tokens = some e :=
  (reads_of_isWritable h).ofTokens?

/-! ## Ranges of integers -/

theorem all_inRange_enclosed (fits : Bool) (ts : List Token) :
    (enclosedTokens fits ts).all Token.inRange = ts.all Token.inRange := by
  cases fits <;> simp [enclosedTokens, Token.inRange]

theorem all_inRange_commas (tss : List (List Token)) :
    (commaTokens tss).all Token.inRange = tss.all fun ts => ts.all Token.inRange := by
  induction tss with
  | nil => rfl
  | cons ts tss ih =>
    cases tss with
    | nil => simp [commaTokens_singleton]
    | cons us tss =>
      rw [commaTokens_cons_cons, List.all_append, List.all_cons, ih, List.all_cons]
      rfl

theorem all_inRange_bound {bound : Option Expr}
    (h : ∀ b ∈ bound, b.tokens.all Token.inRange = true) :
    (boundTokens bound).all Token.inRange = true := by
  cases bound with
  | none => rfl
  | some b => exact h b rfl

/-- No integer that is written is out of range. -/
theorem all_inRange_tokens {e : Expr} (h : e.IsWritable) : e.tokens.all Token.inRange = true := by
  have hsymbol : ∀ s, (Token.symbol s).inRange = true := fun _ => rfl
  have hword : ∀ w, (Token.word w).inRange = true := fun _ => rfl
  induction h with
  | nothing | bool b | text s | name _ _ => rfl
  | @int n hn =>
    have hrange : n.toInt.natAbs < Nat.pow 2 63 := by
      have hlt : n.toInt < 2 ^ 63 := n.toInt_lt
      have hpow : Nat.pow 2 63 = 2 ^ 63 := rfl
      omega
    exact Bool.and_eq_true_iff.2 ⟨decide_eq_true hrange, rfl⟩
  | list _ ih => simpa [tokens, itemTokens_eq, all_inRange_commas, hsymbol] using ih
  | @dict entries _ _ ihkeys ihvalues =>
    have hentry : ∀ p ∈ entries, (entryTokens p).all Token.inRange = true := by
      rintro ⟨k, v⟩ hp
      simp only [entryTokens, List.all_append, List.all_cons, hsymbol, ihkeys _ hp, ihvalues _ hp,
        Bool.and_self]
    simpa [tokens, entriesTokens_eq, all_inRange_commas, hsymbol] using hentry
  | unary op _ ih =>
    have hop : op.token.inRange = true := by cases op <;> rfl
    rw [tokens, List.all_cons, all_inRange_enclosed, hop, ih, Bool.and_self]
  | binary op _ _ ihleft ihright =>
    have hop : op.tokens.all Token.inRange = true := by cases op <;> rfl
    rw [tokens, List.all_append, List.all_append, all_inRange_enclosed, all_inRange_enclosed, hop,
      ihleft, ihright, Bool.and_self, Bool.and_self]
  | call _ _ ihcallee ihargs =>
    simpa [tokens, itemTokens_eq, all_inRange_enclosed, all_inRange_commas, hsymbol, ihcallee]
      using ihargs
  | index _ _ ihe ihi =>
    simp only [tokens, List.all_append, List.all_cons, List.all_nil, all_inRange_enclosed, hsymbol,
      ihe, ihi, Bool.and_self]
  | slice _ _ _ ihe ihlow ihhigh =>
    simp only [tokens, List.all_append, List.all_cons, List.all_nil, all_inRange_enclosed, hsymbol,
      ihe, all_inRange_bound ihlow, all_inRange_bound ihhigh, Bool.and_self]
  | field _ _ ih =>
    simp only [tokens, List.all_append, List.all_cons, List.all_nil, all_inRange_enclosed, hsymbol,
      hword, ih, Bool.and_self]

/-! ## Texts -/

/-- **Parsing the canonical text of an expression gives the expression back.** -/
theorem parse_render {e : Expr} (h : e.IsWritable) : Expr.parse e.render = .ok e := by
  rw [Expr.parse, scan?_render h]
  dsimp only
  rw [ofTokens?_tokens h]
  exact if_pos (all_inRange_tokens h)

/-- Operators of all sorts, with the parentheses that they need and no others. -/
theorem parse_render_sorts :
    ∃ e : Expr, e.IsWritable ∧
      e.render = "not (a or b) and -(2).x ** f(\"it's\", [])[:1] - (3 - 1)" ∧
      Expr.parse "not (a or b) and -(2).x ** f(\"it's\", [])[:1] - (3 - 1)" = .ok e := by
  suffices h : ∃ e : Expr, e.IsWritable ∧
      e.render = "not (a or b) and -(2).x ** f(\"it's\", [])[:1] - (3 - 1)" by
    obtain ⟨e, he, htext⟩ := h
    exact ⟨e, he, htext, htext ▸ parse_render he⟩
  refine ⟨.binary .and (.unary .not (.binary .or (.name "a") (.name "b")))
    (.binary .sub (.unary .neg (.binary .pow (.field (.literal (.int 2)) "x")
      (.slice (.call (.name "f") [.literal (.text "it's"), .list []]) none
        (some (.literal (.int 1))))))
      (.binary .sub (.literal (.int 3)) (.literal (.int 1)))), ?_, by decide +kernel⟩
  have ha : IsWritable (.name "a") := .name (by decide) (by decide)
  have hb : IsWritable (.name "b") := .name (by decide) (by decide)
  have hf : IsWritable (.name "f") := .name (by decide) (by decide)
  have hone : IsWritable (.literal (.int 1)) := .int (by decide)
  have htwo : IsWritable (.literal (.int 2)) := .int (by decide)
  have hthree : IsWritable (.literal (.int 3)) := .int (by decide)
  have hargs : ∀ e ∈ [Expr.literal (.text "it's"), .list []], IsWritable e := by
    simp only [List.forall_mem_cons]
    exact ⟨.text _, .list (by simp), by simp⟩
  have hbound : ∀ e ∈ some (Expr.literal (.int 1)), IsWritable e := by
    simpa using hone
  have hnone : ∀ e ∈ (none : Option Expr), IsWritable e := by simp
  have hslice := IsWritable.slice (.call hf hargs) hnone hbound
  have hfield := IsWritable.field htwo (n := "x") (by decide)
  exact .binary .and (.unary .not (.binary .or ha hb))
    (.binary .sub (.unary .neg (.binary .pow hfield hslice)) (.binary .sub hthree hone))

end Expr

end StepScript
