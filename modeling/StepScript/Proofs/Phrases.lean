import StepScript.Proofs.Brackets
import StepScript.Proofs.Precedence

/-!
# Phrases

The tokens that an expression takes, by what stands outside of brackets: operands, what is applied
to them, and operators between them (`Phrase`). Brackets keep what is in them to themselves, so of
their inside a phrase knows only that it is balanced.

A phrase is closed when it has no operator outside of brackets. The parser takes a phrase for every
expression, and a closed one where the expression names a place (`Expr.phrase_of_parse`): what binds
tightest is taken first, so an expression that ends in an operand is never followed by an index or
a field.
-/

set_option autoImplicit false

namespace StepScript

namespace Token

/-! ## Phrases -/

/-- The token is an operand by itself. -/
def isOperand : Token → Bool
  | .symbol _ => false
  | _ => true

/-- The token can stand in front of an operand. -/
def isFront : Token → Bool
  | .symbol .plus | .symbol .minus | .word _ => true
  | _ => false

/-- The tokens of an expression, up to what stands in brackets. -/
inductive Phrase : (closed : Bool) → List Token → Prop where
  | operand {t : Token} (ht : t.isOperand = true) : Phrase true [t]
  | group {s close : Symbol} {inner : List Token} (hs : s.closer? = some close)
      (hinner : Balanced true inner) : Phrase true (.symbol s :: (inner ++ [.symbol close]))
  /-- Arguments or an index behind a phrase. -/
  | applied {s close : Symbol} {ts inner : List Token} (h : Phrase true ts)
      (hs : s.closer? = some close) (hinner : Balanced true inner) :
      Phrase true (ts ++ .symbol s :: (inner ++ [.symbol close]))
  | field {ts : List Token} {w : String} (h : Phrase true ts) :
      Phrase true (ts ++ [.symbol .dot, .word w])
  | unary {closed : Bool} {t : Token} {ts : List Token} (ht : t.isFront = true)
      (h : Phrase closed ts) : Phrase false (t :: ts)
  | binary {closed closed' : Bool} {t : Token} {ts us : List Token} (h : Phrase closed ts)
      (ht : t.isPlain = true) (h' : Phrase closed' us) : Phrase false (ts ++ t :: us)

end Token

namespace Expr

open Token

/-! ## What binds tightest -/

/-- The tokens taken for an expression are a phrase, a closed one for a place. Nothing that binds
    tightest follows a phrase that is not closed. -/
def Phrased (e : Expr) (taken rest : List Token) : Prop :=
  ∃ closed, Phrase closed taken ∧ (e.isPlace = true → closed = true) ∧
    (closed = false → startsPostfix rest = false)

namespace Phrased

variable {e e' : Expr} {ts us taken rest : List Token}

theorem closed (h : Phrase true taken) : Phrased e taken rest :=
  ⟨true, h, fun _ => rfl, nofun⟩

theorem opened (h : Phrase false taken) (he : e.isPlace = false)
    (hrest : startsPostfix rest = false) : Phrased e taken rest :=
  ⟨false, h, fun hplace => absurd hplace (by simp [he]), fun _ => hrest⟩

/-- What goes on with something that binds tightest is closed. -/
theorem phrase_of_postfix (h : Phrased e taken rest) (hrest : startsPostfix rest = true) :
    Phrase true taken := by
  obtain ⟨closed, hphrase, -, hopen⟩ := h
  cases closed with
  | true => exact hphrase
  | false =>
    rw [hopen rfl] at hrest
    cases hrest

/-- Arguments or an index are taken with their brackets. -/
theorem applied {s close : Symbol} (h : Phrased e taken (.symbol s :: ts))
    (hs : s.closer? = some close) (hpost : startsPostfix (.symbol s :: ts) = true)
    (hinside : Takes true ts (.symbol close :: us)) :
    ∃ more, .symbol s :: ts = more ++ us ∧ Phrased e' (taken ++ more) us := by
  obtain ⟨inner, rfl, hinner⟩ := hinside
  exact ⟨.symbol s :: (inner ++ [.symbol close]), by simp,
    closed (.applied (h.phrase_of_postfix hpost) hs hinner)⟩

end Phrased

/-! ## Operators -/

/-- The operator between two phrases; `not in` is taken as an operator and a word in front. -/
theorem phrase_of_binaryOp? {ts rest taken right : List Token} {op : BinaryOp} {c c' : Bool}
    (h : binaryOp? ts = some (op, rest)) (hleft : Phrase c taken) (hright : Phrase c' right) :
    ∃ front, ts = front ++ rest ∧ Phrase false (taken ++ (front ++ right)) := by
  unfold binaryOp? at h
  split at h <;> cases h
  case h_3 =>
    exact ⟨[.word "not", .word "in"], rfl, .binary hleft rfl (.unary rfl hright)⟩
  all_goals exact ⟨[_], rfl, .binary hleft rfl hright⟩

theorem phrase_of_unaryOp? {ts rest right : List Token} {op : UnaryOp} {c : Bool}
    (h : unaryOp? ts = some (op, rest)) (hright : Phrase c right) :
    ∃ front, ts = front ++ rest ∧ Phrase false (front ++ right) := by
  unfold unaryOp? at h
  split at h <;> cases h <;> exact ⟨[_], rfl, .unary rfl hright⟩

/-! ## What the parser takes -/

/-- The phrases that the readers of the parser take with some fuel. -/
structure ReadersPhrase (fuel : Nat) : Prop where
  expression {level : Nat} {ts rest : List Token} {e : Expr}
    (h : Parser.expression fuel level ts = some (e, rest)) :
    ∃ taken, ts = taken ++ rest ∧ Phrased e taken rest ∧ startsPostfix rest = false
  operand {ts rest : List Token} {e : Expr} (h : Parser.operand fuel ts = some (e, rest)) :
    ∃ taken, ts = taken ++ rest ∧ Phrased e taken rest
  extend {level : Nat} {e e' : Expr} {before ts rest : List Token}
    (h : Parser.extend fuel level e ts = some (e', rest)) (hbefore : Phrased e before ts) :
    ∃ taken, ts = taken ++ rest ∧ Phrased e' (before ++ taken) rest ∧ startsPostfix rest = false

namespace ReadersPhrase

variable {fuel : Nat} {ts rest : List Token}

theorem expression_succ (ih : ReadersPhrase fuel) {level : Nat} {e : Expr}
    (h : Parser.expression (fuel + 1) level ts = some (e, rest)) :
    ∃ taken, ts = taken ++ rest ∧ Phrased e taken rest ∧ startsPostfix rest = false := by
  unfold Parser.expression at h
  split at h
  · cases h
  · next hoperand =>
    obtain ⟨first, rfl, hfirst⟩ := ih.operand hoperand
    obtain ⟨taken, rfl, htaken, hrest⟩ := ih.extend h hfirst
    exact ⟨first ++ taken, (List.append_assoc ..).symm, htaken, hrest⟩

theorem operand_succ (ih : ReadersPhrase fuel) {e : Expr}
    (h : Parser.operand (fuel + 1) ts = some (e, rest)) :
    ∃ taken, ts = taken ++ rest ∧ Phrased e taken rest := by
  have hgroup {s close : Symbol} {us : List Token} (hs : s.closer? = some close)
      (htakes : Takes true us (.symbol close :: rest)) :
      ∃ taken, .symbol s :: us = taken ++ rest ∧ Phrased e taken rest := by
    obtain ⟨inner, rfl, hinner⟩ := htakes
    exact ⟨.symbol s :: (inner ++ [.symbol close]), by simp, .closed (.group hs hinner)⟩
  unfold Parser.operand at h
  split at h
  · next op us hop =>
    obtain ⟨⟨e', r⟩, hread, heq⟩ := Option.map_eq_some_iff.1 h
    cases heq
    obtain ⟨taken, rfl, ⟨c, hphrase, -⟩, hrest⟩ := ih.expression hread
    obtain ⟨front, rfl, hfront⟩ := phrase_of_unaryOp? hop hphrase
    exact ⟨front ++ taken, (List.append_assoc ..).symm, .opened hfront rfl hrest⟩
  · split at h
    · split at h
      · next hread =>
        cases h
        exact hgroup rfl ((readersTake fuel).expression hread).allowCommas
      · cases h
    · obtain ⟨⟨es, r⟩, hread, heq⟩ := Option.map_eq_some_iff.1 h
      cases heq
      exact hgroup rfl ((readersTake fuel).items hread)
    · obtain ⟨⟨es, r⟩, hread, heq⟩ := Option.map_eq_some_iff.1 h
      cases heq
      exact hgroup rfl ((readersTake fuel).entries hread)
    -- all other operands are one token
    all_goals cases h
    all_goals exact ⟨[_], rfl, .closed (.operand rfl)⟩

theorem extend_succ (ih : ReadersPhrase fuel) {level : Nat} {e e' : Expr} {before : List Token}
    (h : Parser.extend (fuel + 1) level e ts = some (e', rest)) (hbefore : Phrased e before ts) :
    ∃ taken, ts = taken ++ rest ∧ Phrased e' (before ++ taken) rest ∧
      startsPostfix rest = false := by
  -- one more piece is taken, and what comes behind it goes to the induction hypothesis
  have hmore {e₁ : Expr} {us : List Token}
      (hread : Parser.extend fuel level e₁ us = some (e', rest))
      (hpiece : ∃ more, ts = more ++ us ∧ Phrased e₁ (before ++ more) us) :
      ∃ taken, ts = taken ++ rest ∧ Phrased e' (before ++ taken) rest ∧
        startsPostfix rest = false := by
    obtain ⟨more, rfl, hphrased⟩ := hpiece
    obtain ⟨taken, rfl, htaken, hrest⟩ := ih.extend hread hphrased
    exact ⟨more ++ taken, (List.append_assoc ..).symm, by rwa [← List.append_assoc], hrest⟩
  unfold Parser.extend at h
  split at h
  · split at h
    · next hread => exact hmore h (hbefore.applied rfl rfl ((readersTake fuel).items hread))
    · cases h
  · split at h
    · next hread => exact hmore h (hbefore.applied rfl rfl ((readersTake fuel).subscript hread))
    · cases h
  · next w us =>
    exact hmore h ⟨[.symbol .dot, .word w], rfl, .closed (.field (hbefore.phrase_of_postfix rfl))⟩
  · next hparen hbracket hdot =>
    have hnone : startsPostfix ts = false := by
      unfold startsPostfix
      split
      · exact (hparen _ rfl).elim
      · exact (hbracket _ rfl).elim
      · exact (hdot _ _ rfl).elim
      · rfl
    split at h
    · next op us hop =>
      split at h
      · split at h
        · next right vs hread =>
          obtain ⟨c, hleft, -⟩ := hbefore
          obtain ⟨taken, rfl, ⟨c', hright, -⟩, hrest⟩ := ih.expression hread
          obtain ⟨front, rfl, hphrase⟩ := phrase_of_binaryOp? hop hleft hright
          exact hmore h ⟨front ++ taken, by simp, .opened hphrase rfl hrest⟩
        · cases h
      · cases h
        exact ⟨[], rfl, by rwa [List.append_nil], hnone⟩
    · cases h
      exact ⟨[], rfl, by rwa [List.append_nil], hnone⟩

end ReadersPhrase

theorem readersPhrase (fuel : Nat) : ReadersPhrase fuel := by
  induction fuel with
  | zero => exact ⟨(nomatch ·), (nomatch ·), fun h _ => (nomatch h)⟩
  | succ fuel ih => exact ⟨ih.expression_succ, ih.operand_succ, ih.extend_succ⟩

/-- **A text that spells an expression spells a phrase**, a closed one if the expression names a
    place. -/
theorem phrase_of_parse {text : String} {e : Expr} (h : Expr.parse text = .ok e) :
    ∃ ts closed, Spells text.toList ts ∧ Phrase closed ts ∧ (e.isPlace = true → closed = true) := by
  rw [Expr.parse] at h
  split at h
  · cases h
  · next ts hscan =>
    split at h
    · cases h
    · next e' hparse =>
      split at h
      · cases h
        rw [ofTokens?] at hparse
        split at hparse
        · next hread =>
          cases hparse
          obtain ⟨taken, rfl, ⟨closed, hphrase, hplace, -⟩, -⟩ := (readersPhrase _).expression hread
          rw [List.append_nil] at hscan
          exact ⟨taken, closed, scan?_eq_some_iff.1 hscan, hphrase, hplace⟩
        · cases hparse
      · cases h

end Expr

end StepScript
