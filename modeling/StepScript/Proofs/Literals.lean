import StepScript.Eval
import StepScript.Proofs.Dictionary
import StepScript.Proofs.Precedence

/-!
# Values read back from their text

The text of a value made of `None`, truth values, integers, texts, lists and dictionaries is the
text of an expression (`toExpr`), in which an integer below zero is a sign and a numeral. Scanning
and parsing the text give that expression, and evaluating it gives the value, its entries in their
order: each key is new when it is inserted, because the keys of a sound dictionary are distinct.

One integer has no numeral. Without its sign the least one is beyond the range, so that a text which
holds it is refused.
-/

set_option autoImplicit false

namespace StepScript

namespace Value

/-- The value is made of `None`, truth values, integers, texts, lists and dictionaries. -/
inductive IsData : Value → Prop where
  | nothing : IsData .nothing
  | bool (b : Bool) : IsData (.bool b)
  | int (n : Int64) : IsData (.int n)
  | text (s : String) : IsData (.text s)
  | list {items : List Value} (hitems : ∀ v ∈ items, IsData v) : IsData (.list items)
  | dict {entries : Dict} (hkeys : ∀ e ∈ entries, IsData e.1)
      (hvalues : ∀ e ∈ entries, IsData e.2) : IsData (.dict entries)

/-! ## The expression of a value -/

mutual

/-- The expression that the text of a value spells. -/
def toExpr : Value → Expr
  | .int n => if n.toInt < 0 then .unary .neg (.literal (.int (-n))) else .literal (.int n)
  | .list items => .list (toExprItems items)
  | .dict entries => .dict (toExprEntries entries)
  | v => .literal v
termination_by structural v => v

def toExprItems : List Value → List Expr
  | [] => []
  | v :: vs => toExpr v :: toExprItems vs
termination_by structural vs => vs

def toExprEntries : List (Value × Value) → List (Expr × Expr)
  | [] => []
  | e :: es => toExprEntry e :: toExprEntries es
termination_by structural es => es

def toExprEntry : Value × Value → Expr × Expr
  | (k, v) => (toExpr k, toExpr v)
termination_by structural e => e

end

theorem toExprItems_eq (vs : List Value) : toExprItems vs = vs.map toExpr := by
  induction vs with
  | nil => rfl
  | cons v vs ih => rw [toExprItems, ih, List.map_cons]

theorem toExprEntries_eq (es : Dict) :
    toExprEntries es = es.map fun e => (e.1.toExpr, e.2.toExpr) := by
  induction es with
  | nil => rfl
  | cons e es ih => rw [toExprEntries, ih, List.map_cons, toExprEntry]

theorem renderItems_eq_map (vs : List Value) : renderItems vs = vs.map repr := by
  induction vs with
  | nil => rfl
  | cons v vs ih => rw [renderItems, ih, List.map_cons, repr]

theorem renderEntries_eq_map (es : Dict) : renderEntries es = es.map renderEntry := by
  induction es with
  | nil => rfl
  | cons e es ih => rw [renderEntries, ih, List.map_cons]

/-! ## Integers below zero -/

theorem toInt_neg_of_ne {n : Int64} (h : n ≠ Int64.minValue) : (-n).toInt = -n.toInt := by
  have hlow := n.le_toInt
  have hhigh := n.toInt_lt
  have hne : n.toInt ≠ -2 ^ 63 := fun heq => h (Int64.toInt_inj.1 heq)
  rw [Int64.toInt_neg]
  exact Int.bmod_eq_of_le (by omega) (by omega)

/-- A sign does not change the digits; of the least integer it does not even change the integer. -/
theorem natAbs_neg (n : Int64) : (-n).toInt.natAbs = n.toInt.natAbs := by
  by_cases h : n = Int64.minValue
  · rw [h]
    decide
  · rw [toInt_neg_of_ne h, Int.natAbs_neg]

end Value

namespace Expr

open Value

/-! ## Scanning and parsing -/

theorem tokens_neg (n : Int64) :
    (Expr.unary .neg (.literal (.int (-n)))).tokens = [.symbol .minus, .int n.toInt.natAbs] := by
  show [Token.symbol .minus, .int (-n).toInt.natAbs] = _
  rw [natAbs_neg]

theorem written_negative {n : Int64} (hn : n.toInt < 0) :
    Written false (Value.int n).repr.toList [.symbol .minus, .int n.toInt.natAbs] := by
  obtain ⟨k, hk⟩ := Int.eq_negSucc_of_lt_zero hn
  have htext : (Value.int n).repr.toList = '-' :: Text.digits (k + 1) := by
    show (Text.intText n.toInt).toList = _
    simp [hk, Text.intText, Text.natText]
  rw [htext, hk]
  exact fun rest us hrest hspells => .cons rfl (written_digits (k + 1) rest us hrest hspells)

/-- The text of a value is cut into the tokens of its expression. -/
theorem written_repr {v : Value} (h : v.IsData) : Written false v.repr.toList v.toExpr.tokens := by
  induction h with
  | nothing => exact written_name (n := "None") (by decide) false
  | bool b =>
    cases b with
    | true => exact written_name (n := "True") (by decide) false
    | false => exact written_name (n := "False") (by decide) false
  | int n =>
    by_cases hn : n.toInt < 0
    · rw [toExpr, if_pos hn, tokens_neg]
      exact written_negative hn
    · rw [toExpr, if_neg hn]
      exact written_int (Int.not_lt.1 hn)
  | text s => exact fun rest us _ hspells => .cons (Token.next?_quote s rest) hspells
  | @list items _ ih =>
    have hitems := Written.commas ih
    simpa [Value.repr, Value.render, renderItems_eq_map, toExpr, tokens, toExprItems_eq,
      itemTokens_eq, Function.comp_def] using hitems.brackets
  | @dict entries _ _ ihkeys ihvalues =>
    have hentry : ∀ e ∈ entries, Written false (Value.renderEntry e).toList
        (entryTokens (e.1.toExpr, e.2.toExpr)) := by
      rintro ⟨k, v⟩ he
      have hcolon := written_colon (ihkeys _ he) (ihvalues _ he).space
      simpa [Value.renderEntry, Value.repr, entryTokens] using hcolon
    have hentries := Written.commas hentry
    simpa [Value.repr, Value.render, renderEntries_eq_map, toExpr, tokens, toExprEntries_eq,
      entriesTokens_eq, Function.comp_def] using hentries.braces

/-- The expression of a value is read from its tokens. -/
theorem reads_toExpr {v : Value} (h : v.IsData) : Reads v.toExpr := by
  induction h with
  | nothing => exact .of_operand (m := 1) (by simp [toExpr, tokens]) fun _ => rfl
  | bool b =>
    refine .of_operand (m := 1) (by simp [toExpr, tokens]) fun rest => ?_
    cases b <;> rfl
  | int n =>
    rw [toExpr]
    split
    · next hn =>
      -- the least integer is its own negative, and its digits wrap around to it
      refine .unary .neg (.int ?_)
      by_cases hmin : n = Int64.minValue
      · rw [hmin]
        exact Or.inr (by decide)
      · rw [toInt_neg_of_ne hmin]
        exact Or.inl (by omega)
    · next hn => exact .int (Or.inl (Int.not_lt.1 hn))
  | text s => exact .of_operand (m := 1) (by simp [toExpr, tokens]) fun _ => rfl
  | list _ ih =>
    rw [toExpr, toExprItems_eq]
    exact .list (List.forall_mem_map.2 ih)
  | dict _ _ ihkeys ihvalues =>
    rw [toExpr, toExprEntries_eq]
    exact .dict (List.forall_mem_map.2 ihkeys) (List.forall_mem_map.2 ihvalues)

/-! ## The least integer -/

theorem natAbs_lt_iff (n : Int64) : n.toInt.natAbs < Nat.pow 2 63 ↔ n ≠ Int64.minValue := by
  have hlow := n.le_toInt
  have hhigh := n.toInt_lt
  have hpow : Nat.pow 2 63 = 2 ^ 63 := rfl
  have hmin : n = Int64.minValue ↔ n.toInt = -2 ^ 63 := Int64.toInt_inj.symm
  rw [Ne, hmin]
  omega

/-- No numeral of the text is out of range, unless the least integer is in the value. -/
theorem all_inRange_toExpr {v : Value} (h : v.IsData) :
    v.toExpr.tokens.all Token.inRange = true ↔ ¬ Within (.int Int64.minValue) v := by
  have hsymbol : ∀ s, (Token.symbol s).inRange = true := fun _ => rfl
  induction h with
  | nothing | bool _ | text _ =>
    rw [not_within_iff]
    simp [toExpr, tokens, Value.token, Token.inRange, children]
  | int n =>
    have htokens : (Value.int n).toExpr.tokens.all Token.inRange
        = decide (n.toInt.natAbs < Nat.pow 2 63) := by
      rw [toExpr]
      split
      · rw [tokens_neg]
        simp [Token.inRange]
      · simp [tokens, Value.token, Token.inRange]
    rw [htokens, decide_eq_true_iff, natAbs_lt_iff, not_within_iff]
    simp [children, eq_comm]
  | @list items _ ih =>
    have htokens : (Value.list items).toExpr.tokens.all Token.inRange
        = items.all fun v => v.toExpr.tokens.all Token.inRange := by
      simp [toExpr, tokens, toExprItems_eq, itemTokens_eq, all_inRange_commas, hsymbol,
        Function.comp_def]
    rw [htokens, List.all_eq_true, not_within_iff, and_iff_right (by simp)]
    exact forall₂_congr ih
  | @dict entries _ _ ihkeys ihvalues =>
    have htokens : (Value.dict entries).toExpr.tokens.all Token.inRange
        = entries.all fun e =>
          e.1.toExpr.tokens.all Token.inRange && e.2.toExpr.tokens.all Token.inRange := by
      simp [toExpr, tokens, toExprEntries_eq, entriesTokens_eq, entryTokens, all_inRange_commas,
        hsymbol, Function.comp_def]
    rw [htokens, List.all_eq_true, not_within_iff, and_iff_right (by simp), forall_children_dict]
    refine forall₂_congr fun e he => ?_
    rw [Bool.and_eq_true]
    exact and_congr (ihkeys e he) (ihvalues e he)

/-! ## Evaluating -/

theorem areLiterals_iff {es : List Expr} :
    areLiterals es = true ↔ ∀ e ∈ es, e.isLiteral = true := by
  induction es with
  | nil => simp [areLiterals]
  | cons e es ih => rw [areLiterals, Bool.and_eq_true, ih, List.forall_mem_cons]

theorem areLiteralEntries_iff {es : List (Expr × Expr)} :
    areLiteralEntries es = true ↔ ∀ e ∈ es, e.1.isLiteral = true ∧ e.2.isLiteral = true := by
  induction es with
  | nil => simp [areLiteralEntries]
  | cons e es ih =>
    rw [areLiteralEntries, Bool.and_eq_true, ih, List.forall_mem_cons, isLiteralEntry,
      Bool.and_eq_true]

theorem isLiteral_toExpr {v : Value} (h : v.IsData) : v.toExpr.isLiteral = true := by
  induction h with
  | nothing | bool _ | text _ => rfl
  | int n =>
    rw [toExpr]
    split <;> rfl
  | list _ ih =>
    rw [toExpr, toExprItems_eq, isLiteral, areLiterals_iff]
    exact List.forall_mem_map.2 ih
  | dict _ _ ihkeys ihvalues =>
    rw [toExpr, toExprEntries_eq, isLiteral, areLiteralEntries_iff]
    exact List.forall_mem_map.2 fun e he => ⟨ihkeys e he, ihvalues e he⟩

variable {σ : Type}

theorem evalAll_toExprItems {vs : List Value}
    (h : ∀ v ∈ vs, (v.toExpr.eval : Eval σ Value) = pure v) :
    (evalAll (toExprItems vs) : Eval σ (List Value)) = pure vs := by
  induction vs with
  | nil => rfl
  | cons v vs ih =>
    rw [List.forall_mem_cons] at h
    rw [toExprItems, evalAll, h.1, ih h.2]
    rfl

/-- Entries with new keys are inserted behind those that are there. -/
theorem evalEntries_toExprEntries {es d : Dict} (hdistinct : Dict.HasDistinctKeys (d ++ es))
    (h : ∀ e ∈ es, (e.1.toExpr.eval : Eval σ Value) = pure e.1 ∧
      (e.2.toExpr.eval : Eval σ Value) = pure e.2) :
    (evalEntries (toExprEntries es) d : Eval σ Dict) = pure (d ++ es) := by
  induction es generalizing d with
  | nil => rw [toExprEntries, evalEntries, List.append_nil]
  | cons e es ih =>
    rw [List.forall_mem_cons] at h
    -- the key differs from those in front of it, so that it goes last
    have hnew : d.contains e.1 = false := by
      refine Dict.contains_eq_false.2 fun f hf => ?_
      exact (List.pairwise_append.1 hdistinct).2.2 f hf e List.mem_cons_self
    have hinsert : Dict.insert e.1 e.2 d ++ es = d ++ e :: es := by
      rw [Dict.insert_of_not_contains hnew, List.append_assoc]
      rfl
    rw [toExprEntries, evalEntries, toExprEntry, evalEntry, h.1.1, h.1.2]
    have hrest := ih (d := Dict.insert e.1 e.2 d) (hinsert ▸ hdistinct) h.2
    rw [hinsert] at hrest
    simpa using hrest

theorem unary_neg_of_ne {n : Int64} (h : n ≠ Int64.minValue) :
    Value.unary .neg (.int (-n)) = .ok (.int n) := by
  have hfits : Value.fits n.toInt = true := by
    simpa [Value.fits] using ⟨n.minValue_le_toInt, n.toInt_le⟩
  show Value.ofInt (-(-n).toInt) = _
  rw [toInt_neg_of_ne h, Int.neg_neg, Value.ofInt, if_pos hfits, Int64.ofInt_toInt]

/-- The expression of a value has that value. -/
theorem eval_toExpr {v : Value} (h : v.IsData) (hsound : v.IsSound)
    (hmin : ¬ Within (.int Int64.minValue) v) : (v.toExpr.eval : Eval σ Value) = pure v := by
  induction h with
  | nothing | bool _ | text _ => rfl
  | int n =>
    have hne : n ≠ Int64.minValue := by
      rintro rfl
      exact hmin (.self _)
    rw [toExpr]
    split
    · show (do Eval.lift (Value.unary .neg (← pure (Value.int (-n)))) : Eval σ Value) = _
      rw [pure_bind, unary_neg_of_ne hne]
      rfl
    · rfl
  | @list items _ ih =>
    have hitems : ∀ v ∈ items, (v.toExpr.eval : Eval σ Value) = pure v := fun v hv =>
      ih v hv ((isSound_iff.1 hsound).2 v hv) ((not_within_iff.1 hmin).2 v hv)
    rw [toExpr, eval, evalAll_toExprItems hitems]
    rfl
  | @dict entries _ _ ihkeys ihvalues =>
    obtain ⟨hdistinct, hsound⟩ := isSound_dict.1 hsound
    have hmin := forall_children_dict.1 (not_within_iff.1 hmin).2
    have hentries : ∀ e ∈ entries, (e.1.toExpr.eval : Eval σ Value) = pure e.1 ∧
        (e.2.toExpr.eval : Eval σ Value) = pure e.2 :=
      fun e he => ⟨ihkeys e he (hsound e he).1 (hmin e he).1,
        ihvalues e he (hsound e he).2 (hmin e he).2⟩
    rw [toExpr, eval, evalEntries_toExprEntries (d := []) hdistinct hentries]
    rfl

/-! ## Texts -/

/-- The text of a value spells its expression. -/
theorem parse_repr {v : Value} (h : v.IsData) :
    Expr.parse v.repr =
      if v.toExpr.tokens.all Token.inRange then .ok v.toExpr
      else .error (.expression v.repr .integerRange) := by
  rw [Expr.parse, (written_repr h).scan?]
  dsimp only
  rw [(reads_toExpr h).ofTokens?]

/-- **A value is read back from its text**, except that the text of a value which holds the least
    integer is no expression. -/
theorem literalValue_repr {v : Value} (hdata : v.IsData) (hsound : v.IsSound) :
    (¬ Within (.int Int64.minValue) v → literalValue v.repr = .ok v) ∧
      (Within (.int Int64.minValue) v →
        literalValue v.repr = .error (.expression v.repr .integerRange)) := by
  constructor
  · intro hmin
    have hparse : Expr.parse v.repr = .ok v.toExpr := by
      rw [parse_repr hdata, if_pos ((all_inRange_toExpr hdata).2 hmin)]
    have heval : (v.toExpr.evaluate ({ host := () } : Env Unit)).1 = .ok v := by
      rw [evaluate, eval_toExpr hdata hsound hmin]
      rfl
    rw [literalValue, hparse]
    show (if v.toExpr.isLiteral then (v.toExpr.evaluate ({ host := () } : Env Unit)).1 else _) = _
    rw [if_pos (isLiteral_toExpr hdata), heval]
  · intro hmin
    have hrange : ¬ v.toExpr.tokens.all Token.inRange = true :=
      fun h => (all_inRange_toExpr hdata).1 h hmin
    rw [literalValue, parse_repr hdata, if_neg hrange]
    rfl

/-- A text with both quotes, an escape and a line end, a sign, and a dictionary as a key; and the
    same beside the least integer. -/
theorem literalValue_repr_nested :
    let v : Value :=
      .dict [(.text "it's \"\\\"\n", .list [.int (-3), .nothing]),
        (.dict [(.int 1, .bool false)], .text "")]
    let w : Value := .list [v, .int Int64.minValue]
    v.IsData ∧ v.IsSound ∧ w.IsSound ∧ literalValue v.repr = .ok v ∧
      literalValue w.repr = .error (.expression w.repr .integerRange) := by
  intro v w
  have hinner : (Value.dict [(.int 1, .bool false)]).IsData :=
    .dict (by simp [IsData.int]) (by simp [IsData.bool])
  have hlist : (Value.list [.int (-3), .nothing]).IsData :=
    .list (by simp [IsData.int, IsData.nothing])
  have hv : v.IsData := .dict (by simp [IsData.text, hinner]) (by simp [IsData.text, hlist])
  have hw : w.IsData := .list (by simp [IsData.int, hv])
  have hsound : v.IsSound := by decide
  have hsound' : w.IsSound := by decide
  have hmin : ¬ Within (.int Int64.minValue) v := (all_inRange_toExpr hv).1 (by decide)
  have hmin' : Within (.int Int64.minValue) w := .child (.self _) (by simp [w, children])
  exact ⟨hv, hsound, hsound', (literalValue_repr hv hsound).1 hmin,
    (literalValue_repr hw hsound').2 hmin'⟩

end Expr

end StepScript
