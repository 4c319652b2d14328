import StepScript.Proofs.Splicing

/-!
# Derivations

The grammar of expressions as a relation: `Derives r ts x rest` says that the reader `r` makes `x`
of the tokens `ts` and leaves `rest`. The parser computes exactly this relation. What it finds with
any fuel is derived (`derives_of_run`), and what is derived it finds with fuel for the tokens
(`Derives.finds`), so that `ofTokens?` never runs out of fuel (`ofTokens?_eq_some_iff`).

Facts about all readers are proved by induction on the derivation, one case for each rule. The first
one is that a reader does not look at what stands behind the tokens it leaves (`Derives.cut`).
-/

set_option autoImplicit false

namespace StepScript

namespace Expr

/-! ## Readers -/

/-- The readers of the parser with what they are given, by what they make. -/
inductive Reader : Type → Type 1 where
  | expression (level : Nat) : Reader Expr
  | operand : Reader Expr
  | extend (level : Nat) (e : Expr) : Reader Expr
  | items (close : Symbol) (hclose : endsOperand close = true) (hcomma : close ≠ .comma) :
    Reader (List Expr)
  | entries : Reader (List (Expr × Expr))
  | subscript (e : Expr) : Reader Expr
  | upper (e : Expr) (low : Option Expr) : Reader Expr

namespace Reader

variable {α : Type}

/-- What the reader of the parser finds with some fuel. -/
def run (fuel : Nat) : Reader α → List Token → Parsed α
  | .expression level => Parser.expression fuel level
  | .operand => Parser.operand fuel
  | .extend level e => Parser.extend fuel level e
  | .items close _ _ => Parser.items fuel close
  | .entries => Parser.entries fuel
  | .subscript e => Parser.subscript fuel e
  | .upper e low => Parser.upper fuel e low

/-- The items up to a closing round bracket. -/
abbrev arguments : Reader (List Expr) :=
  .items .closeParen rfl (by decide)

/-- The items up to a closing square bracket. -/
abbrev elements : Reader (List Expr) :=
  .items .closeBracket rfl (by decide)

end Reader

/-! ## Rules -/

/-- The reader makes the result of the tokens and leaves the rest. -/
inductive Derives : {α : Type} → Reader α → List Token → α → List Token → Prop where
  | expression {level : Nat} {e e' : Expr} {ts us rest : List Token}
      (hoperand : Derives .operand ts e us) (hextend : Derives (.extend level e) us e' rest) :
    Derives (.expression level) ts e' rest
  | unary {op : UnaryOp} {e : Expr} {ts us rest : List Token} (hop : unaryOp? ts = some (op, us))
      (h : Derives (.expression op.operandLevel) us e rest) :
    Derives .operand ts (.unary op e) rest
  | parens {e : Expr} {ts rest : List Token}
      (h : Derives (.expression 0) ts e (.symbol .closeParen :: rest)) :
    Derives .operand (.symbol .openParen :: ts) e rest
  | list {es : List Expr} {ts rest : List Token} (h : Derives Reader.elements ts es rest) :
    Derives .operand (.symbol .openBracket :: ts) (.list es) rest
  | dict {es : List (Expr × Expr)} {ts rest : List Token} (h : Derives .entries ts es rest) :
    Derives .operand (.symbol .openBrace :: ts) (.dict es) rest
  | int (n : Nat) (rest : List Token) :
    Derives .operand (.int n :: rest) (.literal (.int (Int64.ofNat n))) rest
  | float (x : Binary64) (rest : List Token) :
    Derives .operand (.float x :: rest) (.literal (.float x)) rest
  | text (s : String) (rest : List Token) :
    Derives .operand (.text s :: rest) (.literal (.text s)) rest
  | word {w : String} (hw : w ≠ "not") (rest : List Token) :
    Derives .operand (.word w :: rest) (ofWord w) rest
  | call {level : Nat} {e e' : Expr} {args : List Expr} {ts us rest : List Token}
      (hargs : Derives Reader.arguments ts args us)
      (h : Derives (.extend level (.call e args)) us e' rest) :
    Derives (.extend level e) (.symbol .openParen :: ts) e' rest
  | subscript {level : Nat} {e e' e'' : Expr} {ts us rest : List Token}
      (hpart : Derives (.subscript e) ts e' us) (h : Derives (.extend level e') us e'' rest) :
    Derives (.extend level e) (.symbol .openBracket :: ts) e'' rest
  | field {level : Nat} {e e' : Expr} (w : String) {ts rest : List Token}
      (h : Derives (.extend level (.field e w)) ts e' rest) :
    Derives (.extend level e) (.symbol .dot :: .word w :: ts) e' rest
  | binary {level : Nat} {op : BinaryOp} {e e' right : Expr} {ts us vs rest : List Token}
      (hop : binaryOp? ts = some (op, us)) (hlevel : level < op.level)
      (hright : Derives (.expression op.rightLevel) us right vs)
      (h : Derives (.extend level (.binary op e right)) vs e' rest) :
    Derives (.extend level e) ts e' rest
  | stop {level : Nat} (e : Expr) {rest : List Token} (h : Stops level rest) :
    Derives (.extend level e) rest e rest
  | noItems {close : Symbol} (hclose : endsOperand close = true) (hcomma : close ≠ .comma)
      (rest : List Token) :
    Derives (.items close hclose hcomma) (.symbol close :: rest) [] rest
  | lastItem {close : Symbol} (hclose : endsOperand close = true) (hcomma : close ≠ .comma)
      {e : Expr} {ts rest : List Token}
      (h : Derives (.expression 0) ts e (.symbol close :: rest)) :
    Derives (.items close hclose hcomma) ts [e] rest
  | item {close : Symbol} (hclose : endsOperand close = true) (hcomma : close ≠ .comma)
      {e : Expr} {es : List Expr} {ts us rest : List Token}
      (h : Derives (.expression 0) ts e (.symbol .comma :: us))
      (hmore : Derives (.items close hclose hcomma) us es rest) :
    Derives (.items close hclose hcomma) ts (e :: es) rest
  | noEntries (rest : List Token) : Derives .entries (.symbol .closeBrace :: rest) [] rest
  | lastEntry {k v : Expr} {ts us rest : List Token}
      (hkey : Derives (.expression 0) ts k (.symbol .colon :: us))
      (hvalue : Derives (.expression 0) us v (.symbol .closeBrace :: rest)) :
    Derives .entries ts [(k, v)] rest
  | entry {k v : Expr} {es : List (Expr × Expr)} {ts us vs rest : List Token}
      (hkey : Derives (.expression 0) ts k (.symbol .colon :: us))
      (hvalue : Derives (.expression 0) us v (.symbol .comma :: vs))
      (hmore : Derives .entries vs es rest) :
    Derives .entries ts ((k, v) :: es) rest
  | index {e i : Expr} {ts rest : List Token}
      (h : Derives (.expression 0) ts i (.symbol .closeBracket :: rest)) :
    Derives (.subscript e) ts (.index e i) rest
  | fromLow {e low e' : Expr} {ts us rest : List Token}
      (hlow : Derives (.expression 0) ts low (.symbol .colon :: us))
      (h : Derives (.upper e (some low)) us e' rest) :
    Derives (.subscript e) ts e' rest
  | fromStart {e e' : Expr} {ts rest : List Token} (h : Derives (.upper e none) ts e' rest) :
    Derives (.subscript e) (.symbol .colon :: ts) e' rest
  | toEnd (e : Expr) (low : Option Expr) (rest : List Token) :
    Derives (.upper e low) (.symbol .closeBracket :: rest) (.slice e low none) rest
  | toHigh {e high : Expr} {low : Option Expr} {ts rest : List Token}
      (h : Derives (.expression 0) ts high (.symbol .closeBracket :: rest)) :
    Derives (.upper e low) ts (.slice e low (some high)) rest

/-! ## What the parser finds is derived -/

/-- With some fuel the readers of the parser find what is derived only. -/
def Sound (fuel : Nat) : Prop :=
  ∀ {α : Type} (r : Reader α) {ts rest : List Token} {x : α},
    r.run fuel ts = some (x, rest) → Derives r ts x rest

namespace Sound

variable {fuel : Nat} {ts rest : List Token}

theorem expression_succ (ih : Sound fuel) {level : Nat} {e : Expr}
    (h : Parser.expression (fuel + 1) level ts = some (e, rest)) :
    Derives (.expression level) ts e rest := by
  rw [Parser.expression] at h
  split at h
  · cases h
  · next hoperand => exact .expression (ih .operand hoperand) (ih (.extend _ _) h)

theorem operand_succ (ih : Sound fuel) {e : Expr}
    (h : Parser.operand (fuel + 1) ts = some (e, rest)) : Derives .operand ts e rest := by
  unfold Parser.operand at h
  split at h
  · next hop =>
    obtain ⟨⟨e', r⟩, hread, heq⟩ := Option.map_eq_some_iff.1 h
    cases heq
    exact .unary hop (ih (.expression _) hread)
  · next hop =>
    split at h
    · split at h
      · next hread =>
        cases h
        exact .parens (ih (.expression 0) hread)
      · cases h
    · obtain ⟨⟨es, r⟩, hread, heq⟩ := Option.map_eq_some_iff.1 h
      cases heq
      exact .list (ih Reader.elements hread)
    · obtain ⟨⟨es, r⟩, hread, heq⟩ := Option.map_eq_some_iff.1 h
      cases heq
      exact .dict (ih .entries hread)
    · cases h
      exact .int _ rest
    · cases h
      exact .float _ rest
    · cases h
      exact .text _ rest
    · cases h
      refine .word ?_ rest
      rintro rfl
      cases hop
    · cases h

theorem extend_succ (ih : Sound fuel) {level : Nat} {e e' : Expr}
    (h : Parser.extend (fuel + 1) level e ts = some (e', rest)) :
    Derives (.extend level e) ts e' rest := by
  unfold Parser.extend at h
  split at h
  · split at h
    · next hread => exact .call (ih Reader.arguments hread) (ih (.extend _ _) h)
    · cases h
  · split at h
    · next hread => exact .subscript (ih (.subscript _) hread) (ih (.extend _ _) h)
    · cases h
  · exact .field _ (ih (.extend _ _) h)
  · next hcall hindex hfield =>
    have hplain : startsPostfix ts = false := by
      unfold startsPostfix
      split
      · exact (hcall _ rfl).elim
      · exact (hindex _ rfl).elim
      · exact (hfield _ _ rfl).elim
      · rfl
    split at h
    · next op us hop =>
      split at h
      · next hlevel =>
        split at h
        · next hright =>
          exact .binary hop hlevel (ih (.expression _) hright) (ih (.extend _ _) h)
        · cases h
      · next hlevel =>
        cases h
        refine .stop e ⟨fun op' us' hop' => ?_, hplain⟩
        cases hop.symm.trans hop'
        exact Nat.le_of_not_lt hlevel
    · next hnone =>
      cases h
      exact .stop e ⟨by simp [hnone], hplain⟩

theorem items_succ (ih : Sound fuel) {close : Symbol} (hclose : endsOperand close = true)
    (hcomma : close ≠ .comma) {es : List Expr}
    (h : Parser.items (fuel + 1) close ts = some (es, rest)) :
    Derives (.items close hclose hcomma) ts es rest := by
  rw [Parser.items] at h
  split at h
  · next hhead =>
    cases h
    cases ts with
    | nil => cases hhead
    | cons t ts =>
      obtain rfl : t = .symbol close := by simpa using hhead
      exact .noItems hclose hcomma ts
  · split at h
    · next hread =>
      obtain ⟨⟨es', r⟩, hmore, heq⟩ := Option.map_eq_some_iff.1 h
      cases heq
      exact .item hclose hcomma (ih (.expression 0) hread) (ih (.items close hclose hcomma) hmore)
    · next t _ _ hread =>
      split at h
      · next hend =>
        cases h
        obtain rfl : t = .symbol close := by simpa using hend
        exact .lastItem hclose hcomma (ih (.expression 0) hread)
      · cases h
    · cases h

theorem entries_succ (ih : Sound fuel) {es : List (Expr × Expr)}
    (h : Parser.entries (fuel + 1) ts = some (es, rest)) : Derives .entries ts es rest := by
  rw [Parser.entries] at h
  split at h
  · next hhead =>
    cases h
    cases ts with
    | nil => cases hhead
    | cons t ts =>
      obtain rfl : t = .symbol .closeBrace := by simpa using hhead
      exact .noEntries ts
  · split at h
    · next hkey =>
      split at h
      · next hvalue =>
        obtain ⟨⟨es', r⟩, hmore, heq⟩ := Option.map_eq_some_iff.1 h
        cases heq
        exact .entry (ih (.expression 0) hkey) (ih (.expression 0) hvalue) (ih .entries hmore)
      · next hvalue =>
        cases h
        exact .lastEntry (ih (.expression 0) hkey) (ih (.expression 0) hvalue)
      · cases h
    · cases h

theorem subscript_succ (ih : Sound fuel) {e e' : Expr}
    (h : Parser.subscript (fuel + 1) e ts = some (e', rest)) :
    Derives (.subscript e) ts e' rest := by
  unfold Parser.subscript at h
  split at h
  · exact .fromStart (ih (.upper _ _) h)
  · split at h
    · next hread =>
      cases h
      exact .index (ih (.expression 0) hread)
    · next hread => exact .fromLow (ih (.expression 0) hread) (ih (.upper _ _) h)
    · cases h

theorem upper_succ (ih : Sound fuel) {e e' : Expr} {low : Option Expr}
    (h : Parser.upper (fuel + 1) e low ts = some (e', rest)) :
    Derives (.upper e low) ts e' rest := by
  unfold Parser.upper at h
  split at h
  · cases h
    exact .toEnd e low rest
  · split at h
    · next hread =>
      cases h
      exact .toHigh (ih (.expression 0) hread)
    · cases h

end Sound

/-- By induction on the fuel, which every reader hands down to those it calls. -/
theorem derives_of_run (fuel : Nat) : Sound fuel := by
  induction fuel with
  | zero =>
    intro α r ts rest x h
    cases r <;> cases h
  | succ fuel ih =>
    intro α r ts rest x h
    cases r with
    | expression level => exact ih.expression_succ h
    | operand => exact ih.operand_succ h
    | extend level e => exact ih.extend_succ h
    | items close hclose hcomma => exact ih.items_succ hclose hcomma h
    | entries => exact ih.entries_succ h
    | subscript e => exact ih.subscript_succ h
    | upper e low => exact ih.upper_succ h

/-! ## What is derived the parser finds -/

theorem exists_of_unaryOp? {op : UnaryOp} {ts us : List Token}
    (h : unaryOp? ts = some (op, us)) :
    ∃ t, ts = t :: us ∧ ∀ vs, unaryOp? (t :: vs) = some (op, vs) := by
  unfold unaryOp? at h
  split at h <;> cases h <;> exact ⟨_, rfl, fun _ => rfl⟩

theorem exists_of_binaryOp? {op : BinaryOp} {ts us : List Token}
    (h : binaryOp? ts = some (op, us)) :
    ∃ t taken, ts = t :: (taken ++ us) ∧
      ∀ vs, binaryOp? (t :: (taken ++ vs)) = some (op, vs) := by
  unfold binaryOp? at h
  split at h <;> cases h
  case h_3 => exact ⟨_, [.word "in"], rfl, fun _ => rfl⟩
  all_goals exact ⟨_, [], rfl, fun _ => rfl⟩

theorem length_lt_of_binaryOp? {op : BinaryOp} {ts us : List Token}
    (h : binaryOp? ts = some (op, us)) : us.length < ts.length := by
  obtain ⟨t, taken, rfl, -⟩ := exists_of_binaryOp? h
  simp only [List.length_cons, List.length_append]
  omega

/-- An operator starts no call, index or field. -/
theorem startsPostfix_of_binaryOp? {op : BinaryOp} {ts us : List Token}
    (h : binaryOp? ts = some (op, us)) : startsPostfix ts = false := by
  unfold binaryOp? at h
  split at h <;> first | rfl | cases h

theorem unaryOp?_word {w : String} (hw : w ≠ "not") (ts : List Token) :
    unaryOp? (.word w :: ts) = none := by
  unfold unaryOp?
  split
  · next heq => cases heq
  · next heq => cases heq
  · next heq =>
    cases heq
    exact (hw rfl).elim
  · rfl

namespace Reader

variable {α : Type}

/-- How many readers one after the other can be called from this one before a token is taken,
    itself included. -/
def depth : Reader α → Nat
  | .operand | .extend _ _ => 1
  | .expression _ => 2
  | _ => 3

/-- There is fuel for the readers that can be called before each of the tokens is taken, and for
    those that can be called afterwards. -/
def Suffices (r : Reader α) (ts : List Token) (n : Nat) : Prop :=
  4 * ts.length + r.depth ≤ n

/-- The reader finds the result with all fuel that suffices for the tokens. -/
def Finds (r : Reader α) (ts : List Token) (x : α) (rest : List Token) : Prop :=
  ∀ n, r.Suffices ts n → r.run n ts = some (x, rest)

section

variable {β : Type} {r : Reader α} {r' : Reader β} {ts us rest : List Token} {n : Nat}

theorem depth_pos (r : Reader α) : 0 < r.depth := by
  cases r <;> exact Nat.succ_pos _

theorem depth_le (r : Reader α) : r.depth ≤ 3 := by
  cases r <;> simp [depth]

/-- Once a token is taken, the fuel suffices for any reader. -/
theorem Suffices.shorter (h : r.Suffices ts (n + 1)) (hlt : us.length < ts.length) :
    r'.Suffices us n := by
  have hdepth := r'.depth_le
  unfold Suffices at h ⊢
  omega

/-- Before a token is taken, it suffices for the readers called from this one. -/
theorem Suffices.deeper (h : r.Suffices ts (n + 1)) (hdepth : r'.depth < r.depth)
    (hle : us.length ≤ ts.length) : r'.Suffices us n := by
  unfold Suffices at h ⊢
  omega

/-- There is always some fuel to be spent. -/
theorem finds_of_succ {x : α}
    (h : ∀ n, r.Suffices ts (n + 1) → r.run (n + 1) ts = some (x, rest)) : r.Finds ts x rest := by
  intro n hn
  have hdepth := r.depth_pos
  obtain ⟨k, rfl⟩ : ∃ k, n = k + 1 := ⟨n - 1, by unfold Suffices at hn; omega⟩
  exact h k hn

end

end Reader

namespace Derives

variable {α : Type} {r : Reader α} {ts rest : List Token} {x : α}

/-- A reader takes tokens from the front and leaves the others. -/
theorem suffix (h : Derives r ts x rest) : rest <:+ ts := by
  have hcons (t : Token) (us : List Token) : us <:+ t :: us := List.suffix_cons t us
  induction h with
  | expression hoperand hextend ihoperand ihextend => exact ihextend.trans ihoperand
  | unary hop h ih =>
    obtain ⟨t, rfl, -⟩ := exists_of_unaryOp? hop
    exact ih.trans (hcons t _)
  | parens h ih => exact (hcons _ _).trans (ih.trans (hcons _ _))
  | list h ih | dict h ih | fromStart h ih => exact ih.trans (hcons _ _)
  | int m rest | float x rest | text s rest => exact hcons _ rest
  | word hw rest | noItems hclose hcomma rest | noEntries rest | toEnd e low rest =>
    exact hcons _ rest
  | call hargs h ihargs ih => exact ih.trans (ihargs.trans (hcons _ _))
  | subscript hpart h ihpart ih => exact ih.trans (ihpart.trans (hcons _ _))
  | field w h ih => exact ih.trans ((hcons _ _).trans (hcons _ _))
  | binary hop hlevel hright h ihright ih =>
    obtain ⟨t, taken, rfl, -⟩ := exists_of_binaryOp? hop
    exact ih.trans (ihright.trans ((List.suffix_append taken _).trans (hcons t _)))
  | stop e h => exact List.suffix_rfl
  | lastItem hclose hcomma h ih | index h ih | toHigh h ih => exact (hcons _ _).trans ih
  | item hclose hcomma h hmore ih ihmore => exact ihmore.trans ((hcons _ _).trans ih)
  | lastEntry hkey hvalue ihkey ihvalue =>
    exact (hcons _ _).trans (ihvalue.trans ((hcons _ _).trans ihkey))
  | entry hkey hvalue hmore ihkey ihvalue ihmore =>
    exact ihmore.trans ((hcons _ _).trans (ihvalue.trans ((hcons _ _).trans ihkey)))
  | fromLow hlow h ihlow ih => exact ih.trans ((hcons _ _).trans ihlow)

theorem length_le (h : Derives r ts x rest) : rest.length ≤ ts.length :=
  h.suffix.length_le

/-- What follows a token is shorter, also when more was read behind it. -/
theorem length_lt (h : Derives r ts x rest) (t : Token) : rest.length < (t :: ts).length :=
  Nat.lt_succ_of_le h.length_le

/-- **What is derived the parser finds**, with fuel for the tokens. -/
theorem finds (h : Derives r ts x rest) : r.Finds ts x rest := by
  have hlt (t : Token) (us : List Token) : us.length < (t :: us).length := Nat.lt_succ_self _
  induction h with
  | expression hoperand hextend ihoperand ihextend =>
    refine Reader.finds_of_succ fun n hn => ?_
    have hfirst := ihoperand n (hn.deeper (Nat.lt_succ_self 1) le_rfl)
    have hrest := ihextend n (hn.deeper (Nat.lt_succ_self 1) hoperand.length_le)
    exact expression_of_operand hfirst hrest le_rfl le_rfl
  | unary hop h ih =>
    obtain ⟨t, rfl, -⟩ := exists_of_unaryOp? hop
    exact Reader.finds_of_succ fun n hn => operand_unary hop (ih n (hn.shorter (hlt t _)))
  | parens h ih =>
    exact Reader.finds_of_succ fun n hn => operand_parens (ih n (hn.shorter (hlt _ _)))
  | list h ih => exact Reader.finds_of_succ fun n hn => operand_list (ih n (hn.shorter (hlt _ _)))
  | dict h ih => exact Reader.finds_of_succ fun n hn => operand_dict (ih n (hn.shorter (hlt _ _)))
  | int m rest => exact Reader.finds_of_succ fun n hn => rfl
  | float x rest => exact Reader.finds_of_succ fun n hn => rfl
  | text s rest => exact Reader.finds_of_succ fun n hn => rfl
  | word hw rest =>
    refine Reader.finds_of_succ fun n hn => ?_
    simp only [Reader.run, Parser.operand, unaryOp?_word hw rest]
  | call hargs h ihargs ih =>
    refine Reader.finds_of_succ fun n hn => extend_call (ihargs n ?_) (ih n ?_)
    · exact hn.shorter (hlt _ _)
    · exact hn.shorter (hargs.length_lt _)
  | subscript hpart h ihpart ih =>
    refine Reader.finds_of_succ fun n hn => extend_subscript (ihpart n ?_) (ih n ?_)
    · exact hn.shorter (hlt _ _)
    · exact hn.shorter (hpart.length_lt _)
  | field w h ih =>
    refine Reader.finds_of_succ fun n hn => extend_field (ih n (hn.shorter ?_))
    exact (hlt _ _).trans (hlt _ _)
  | binary hop hlevel hright h ihright ih =>
    have htaken := length_lt_of_binaryOp? hop
    refine Reader.finds_of_succ fun n hn => ?_
    refine extend_binary hop (startsPostfix_of_binaryOp? hop) hlevel (ihright n ?_) (ih n ?_)
    · exact hn.shorter htaken
    · exact hn.shorter (hright.length_le.trans_lt htaken)
  | stop e h => exact Reader.finds_of_succ fun n hn => extend_of_stops h (Nat.succ_pos n)
  | noItems hclose hcomma rest => exact Reader.finds_of_succ fun n hn => items_nil _
  | lastItem hclose hcomma h ih =>
    refine Reader.finds_of_succ fun n hn => items_last hclose hcomma (ih n ?_)
    exact hn.deeper (Nat.lt_succ_self 2) le_rfl
  | item hclose hcomma h hmore ih ihmore =>
    refine Reader.finds_of_succ fun n hn => items_cons hclose (ih n ?_) (ihmore n ?_)
    · exact hn.deeper (Nat.lt_succ_self 2) le_rfl
    · exact hn.shorter h.length_le
  | noEntries rest => exact Reader.finds_of_succ fun n hn => entries_nil
  | lastEntry hkey hvalue ihkey ihvalue =>
    refine Reader.finds_of_succ fun n hn => entries_last (ihkey n ?_) (ihvalue n ?_)
    · exact hn.deeper (Nat.lt_succ_self 2) le_rfl
    · exact hn.shorter hkey.length_le
  | entry hkey hvalue hmore ihkey ihvalue ihmore =>
    refine Reader.finds_of_succ fun n hn => ?_
    refine entries_cons (ihkey n ?_) (ihvalue n ?_) (ihmore n ?_)
    · exact hn.deeper (Nat.lt_succ_self 2) le_rfl
    · exact hn.shorter hkey.length_le
    · exact hn.shorter ((hvalue.length_lt _).le.trans hkey.length_le)
  | index h ih =>
    refine Reader.finds_of_succ fun n hn => subscript_index (ih n ?_)
    exact hn.deeper (Nat.lt_succ_self 2) le_rfl
  | fromLow hlow h ihlow ih =>
    refine Reader.finds_of_succ fun n hn => subscript_low (ihlow n ?_) (ih n ?_)
    · exact hn.deeper (Nat.lt_succ_self 2) le_rfl
    · exact hn.shorter hlow.length_le
  | fromStart h ih => exact Reader.finds_of_succ fun n hn => ih n (hn.shorter (hlt _ _))
  | toEnd e low rest => exact Reader.finds_of_succ fun n hn => rfl
  | toHigh h ih =>
    refine Reader.finds_of_succ fun n hn => upper_high (ih n ?_)
    exact hn.deeper (Nat.lt_succ_self 2) le_rfl

end Derives

/-- **The expression of some tokens is the one derived from all of them**: the fuel hides
    nothing. -/
theorem ofTokens?_eq_some_iff {ts : List Token} {e : Expr} :
    ofTokens? ts = some e ↔ Derives (.expression 0) ts e [] := by
  constructor
  · intro h
    rw [ofTokens?] at h
    split at h
    · next hread =>
      cases h
      exact derives_of_run (fuelFor ts) (.expression 0) hread
    · cases h
  · intro h
    have hfuel : 4 * ts.length + 2 ≤ fuelFor ts := by
      rw [fuelFor]
      omega
    have hread : Parser.expression (fuelFor ts) 0 ts = some (e, []) := h.finds (fuelFor ts) hfuel
    rw [ofTokens?, hread]

/-! ## What stands behind -/

theorem Stops.of_append {level : Nat} {ts tail : List Token} (h : Stops level (ts ++ tail)) :
    Stops level ts := by
  refine ⟨fun op rest hop => h.operator op _ (binaryOp?_append_of_some hop tail), ?_⟩
  have hplain := h.noPostfix
  unfold startsPostfix at hplain ⊢
  split
  all_goals first | rfl | cases hplain

/-- What stands behind the tokens that a reader leaves has not been looked at. -/
theorem Derives.cut {α : Type} {r : Reader α} {ts rest tail : List Token} {x : α}
    (h : Derives r ts x rest) (before : List Token) (hrest : rest = before ++ tail) :
    ∃ taken, ts = taken ++ tail ∧ Derives r taken x before := by
  induction h generalizing before with
  | expression hoperand hextend ihoperand ihextend =>
    obtain ⟨us, hus, hextend'⟩ := ihextend before hrest
    obtain ⟨ts, rfl, hoperand'⟩ := ihoperand _ hus
    exact ⟨ts, rfl, .expression hoperand' hextend'⟩
  | unary hop h ih =>
    obtain ⟨us, rfl, h'⟩ := ih before hrest
    obtain ⟨t, rfl, hop'⟩ := exists_of_unaryOp? hop
    exact ⟨t :: us, rfl, .unary (hop' us) h'⟩
  | parens h ih =>
    obtain ⟨ts, rfl, h'⟩ := ih (_ :: before) (congrArg (_ :: ·) hrest)
    exact ⟨_ :: ts, rfl, .parens h'⟩
  | list h ih =>
    obtain ⟨ts, rfl, h'⟩ := ih before hrest
    exact ⟨_ :: ts, rfl, .list h'⟩
  | dict h ih =>
    obtain ⟨ts, rfl, h'⟩ := ih before hrest
    exact ⟨_ :: ts, rfl, .dict h'⟩
  | int m rest =>
    subst hrest
    exact ⟨_ :: before, rfl, .int m before⟩
  | float x rest =>
    subst hrest
    exact ⟨_ :: before, rfl, .float x before⟩
  | text s rest =>
    subst hrest
    exact ⟨_ :: before, rfl, .text s before⟩
  | word hw rest =>
    subst hrest
    exact ⟨_ :: before, rfl, .word hw before⟩
  | call hargs h ihargs ih =>
    obtain ⟨us, hus, h'⟩ := ih before hrest
    obtain ⟨ts, rfl, hargs'⟩ := ihargs _ hus
    exact ⟨_ :: ts, rfl, .call hargs' h'⟩
  | subscript hpart h ihpart ih =>
    obtain ⟨us, hus, h'⟩ := ih before hrest
    obtain ⟨ts, rfl, hpart'⟩ := ihpart _ hus
    exact ⟨_ :: ts, rfl, .subscript hpart' h'⟩
  | field w h ih =>
    obtain ⟨ts, rfl, h'⟩ := ih before hrest
    exact ⟨_ :: _ :: ts, rfl, .field w h'⟩
  | binary hop hlevel hright h ihright ih =>
    obtain ⟨vs, hvs, h'⟩ := ih before hrest
    obtain ⟨us, rfl, hright'⟩ := ihright _ hvs
    obtain ⟨t, taken, rfl, hop'⟩ := exists_of_binaryOp? hop
    exact ⟨t :: (taken ++ us), by simp, .binary (hop' us) hlevel hright' h'⟩
  | stop e h =>
    subst hrest
    exact ⟨before, rfl, .stop e h.of_append⟩
  | noItems hclose hcomma rest =>
    subst hrest
    exact ⟨_ :: before, rfl, .noItems hclose hcomma before⟩
  | lastItem hclose hcomma h ih =>
    obtain ⟨ts, rfl, h'⟩ := ih (_ :: before) (congrArg (_ :: ·) hrest)
    exact ⟨ts, rfl, .lastItem hclose hcomma h'⟩
  | item hclose hcomma h hmore ih ihmore =>
    obtain ⟨us, rfl, hmore'⟩ := ihmore before hrest
    obtain ⟨ts, rfl, h'⟩ := ih (_ :: us) rfl
    exact ⟨ts, rfl, .item hclose hcomma h' hmore'⟩
  | noEntries rest =>
    subst hrest
    exact ⟨_ :: before, rfl, .noEntries before⟩
  | lastEntry hkey hvalue ihkey ihvalue =>
    obtain ⟨us, rfl, hvalue'⟩ := ihvalue (_ :: before) (congrArg (_ :: ·) hrest)
    obtain ⟨ts, rfl, hkey'⟩ := ihkey (_ :: us) rfl
    exact ⟨ts, rfl, .lastEntry hkey' hvalue'⟩
  | entry hkey hvalue hmore ihkey ihvalue ihmore =>
    obtain ⟨vs, rfl, hmore'⟩ := ihmore before hrest
    obtain ⟨us, rfl, hvalue'⟩ := ihvalue (_ :: vs) rfl
    obtain ⟨ts, rfl, hkey'⟩ := ihkey (_ :: us) rfl
    exact ⟨ts, rfl, .entry hkey' hvalue' hmore'⟩
  | index h ih =>
    obtain ⟨ts, rfl, h'⟩ := ih (_ :: before) (congrArg (_ :: ·) hrest)
    exact ⟨ts, rfl, .index h'⟩
  | fromLow hlow h ihlow ih =>
    obtain ⟨us, rfl, h'⟩ := ih before hrest
    obtain ⟨ts, rfl, hlow'⟩ := ihlow (_ :: us) rfl
    exact ⟨ts, rfl, .fromLow hlow' h'⟩
  | fromStart h ih =>
    obtain ⟨ts, rfl, h'⟩ := ih before hrest
    exact ⟨_ :: ts, rfl, .fromStart h'⟩
  | toEnd e low rest =>
    subst hrest
    exact ⟨_ :: before, rfl, .toEnd e low before⟩
  | toHigh h ih =>
    obtain ⟨ts, rfl, h'⟩ := ih (_ :: before) (congrArg (_ :: ·) hrest)
    exact ⟨ts, rfl, .toHigh h'⟩

/-- **What is read in front of other tokens is the expression of the tokens taken**, all of them. -/
theorem Derives.ofTokens? {ts rest : List Token} {e : Expr}
    (h : Derives (.expression 0) ts e rest) :
    ∃ taken, ts = taken ++ rest ∧ Expr.ofTokens? taken = some e := by
  obtain ⟨taken, rfl, hread⟩ := h.cut [] rfl
  exact ⟨taken, rfl, ofTokens?_eq_some_iff.2 hread⟩

end Expr

end StepScript
