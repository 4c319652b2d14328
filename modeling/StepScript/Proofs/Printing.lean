import StepScript.Machine.Action
import StepScript.Proofs.Brackets
import StepScript.Proofs.FaultLayers
import StepScript.Proofs.Imports
import StepScript.Proofs.Readable

/-!
# Printing lists of operands

`PRINT` puts its operands between square brackets and evaluates the text that comes out. Where the
operands are texts of expressions with commas between them, that is the list of their values, and
they are printed on one line (`Act.print_operands`).

The text between the brackets is not looked at before. Whatever is accepted is such a list, unless
it closes a square bracket that it has not opened: then the bracket put in front of it ends early,
and what is printed is something else (`Act.print_closesEarly`).
-/

set_option autoImplicit false

namespace StepScript

namespace Token

/-! ## Texts cut at a token -/

section

variable {d : Char} {cs rest after : List Char}

theorem symbol?_of_append {s : Symbol}
    (h : symbol? (cs ++ d :: after) = some (s, rest ++ d :: after)) :
    symbol? cs = some (s, rest) := by
  have hcs : cs = s.text ++ rest := by
    have hall := symbol?_eq_some h
    rw [← List.append_assoc] at hall
    exact List.append_cancel_right hall
  subst hcs
  rw [List.append_assoc] at h
  cases rest with
  | nil => cases s <;> rfl
  | cons c r => exact symbol?_cons h r

/-- A token does not depend on a character that ends every token, nor on what comes after it. -/
theorem next?_of_append (hd : endsToken d = true) {t : Token}
    (h : next? (cs ++ d :: after) = some (t, rest ++ d :: after)) : next? cs = some (t, rest) := by
  obtain ⟨front, hall, hfront⟩ := lexeme_of_next? h
  rw [← List.append_assoc] at hall
  have hcs : cs = front ++ rest := List.append_cancel_right hall
  have hne : cs ≠ [] := by
    rw [hcs]
    exact List.append_ne_nil_of_left_ne_nil hfront.ne_nil rest
  obtain ⟨c, cs, rfl⟩ := List.exists_cons_of_ne_nil hne
  have hname := isNameChar_of_endsToken hd
  rw [List.cons_append, next?, startsNumber_append hd] at h
  rw [next?]
  split at h
  · next hnumber =>
    rw [← List.cons_append, number_append hd] at h
    rw [if_pos hnumber]
    obtain ⟨ht, hrest⟩ := Prod.mk.inj (Option.some.inj h)
    rw [← ht, ← List.append_cancel_right hrest]
  · next hnumber =>
    rw [if_neg hnumber]
    split at h
    · next hstart =>
      rw [← List.cons_append, takeWhile_append_stop hname, dropWhile_append_stop hname] at h
      rw [if_pos hstart]
      obtain ⟨ht, hrest⟩ := Prod.mk.inj (Option.some.inj h)
      rw [ht, List.append_cancel_right hrest]
    · next hstart =>
      rw [if_neg hstart]
      split at h
      · next hquote =>
        obtain ⟨⟨s, r⟩, hread, heq⟩ := Option.map_eq_some_iff.1 h
        cases heq
        have hslash : c ≠ '\\' := by
          rintro rfl
          cases hquote
        obtain ⟨inner, hinner, -, hquoted⟩ := quoted?_eq_some hslash hread
        rw [← List.append_assoc] at hinner
        rw [if_pos hquote, List.append_cancel_right hinner, hquoted]
        rfl
      · next hquote =>
        obtain ⟨⟨s, r⟩, hread, heq⟩ := Option.map_eq_some_iff.1 h
        cases heq
        rw [if_neg hquote, symbol?_of_append hread]
        rfl

/-- The text in front of a symbol that ends every token, and the text behind it. -/
theorem Spells.cut {s : Symbol} (hs : s.text = [d]) (hd : endsToken d = true) {cs : List Char}
    {ts us : List Token} (h : Spells cs (ts ++ .symbol s :: us)) :
    ∃ before after, cs = before ++ d :: after ∧ Spells before ts ∧ Spells after us := by
  induction ts generalizing cs with
  | nil =>
    obtain ⟨gap, front, rest, hgap, hfront, rfl, hrest⟩ := Line.exists_of_spells_cons h
    rw [Line.eq_of_lexeme_symbol hfront, hs]
    exact ⟨gap, rest, rfl, .done hgap, hrest⟩
  | cons t ts ih =>
    cases h with
    | @token gap cs rest _ _ hgap hnext hrest =>
      obtain ⟨before, after, rfl, hbefore, hafter⟩ := ih hrest
      obtain ⟨front, rfl, -⟩ := lexeme_of_next? hnext
      rw [← List.append_assoc] at hnext
      refine ⟨gap ++ (front ++ before), after, by simp, ?_, hafter⟩
      exact .token hgap (next?_of_append hd hnext) hbefore

end

theorem Spells.isGap {cs : List Char} (h : Spells cs []) : ∀ c ∈ cs, Text.isGap c = true := by
  cases h with
  | done hgap => exact hgap

theorem Spells.eq_nil {ts : List Token} (h : Spells [] ts) : ts = [] := by
  generalize hall : ([] : List Char) = all at h
  cases h with
  | done hgap => rfl
  | token hgap hnext hrest =>
    rw [(List.append_eq_nil_iff.1 hall.symm).2] at hnext
    cases hnext

/-- The first character of a text is a token of its own. -/
theorem Spells.of_cons {c : Char} (hc : Text.isGap c = false) {t : Token} {cs : List Char}
    (hnext : next? (c :: cs) = some (t, cs)) {ts : List Token} (h : Spells (c :: cs) ts) :
    ∃ us, ts = t :: us ∧ Spells cs us := by
  generalize hall : c :: cs = all at h
  cases h with
  | done hgap =>
    have hfirst := hgap c (hall ▸ List.mem_cons_self)
    cases hc.symm.trans hfirst
  | @token gap rest _ _ _ hgap hnext' hrest =>
    cases gap with
    | cons d gap =>
      cases hall
      cases hc.symm.trans (hgap c List.mem_cons_self)
    | nil =>
      rw [List.nil_append] at hall
      subst hall
      cases hnext.symm.trans hnext'
      exact ⟨_, rfl, hrest⟩

end Token

namespace Expr

open Token

/-! ## Lists of operands -/

/-- The text is blank, or it is made of texts of expressions with commas between them; one comma may
    follow the last. -/
inductive IsOperandList : String → List Expr → Prop where
  | blank {text : String} (h : ∀ c ∈ text.toList, Text.isGap c = true) : IsOperandList text []
  | last {text : String} {e : Expr} (h : Expr.parse text = .ok e) : IsOperandList text [e]
  | cons {first rest : String} {e : Expr} {es : List Expr} (h : Expr.parse first = .ok e)
      (hrest : IsOperandList rest es) : IsOperandList (first ++ "," ++ rest) (e :: es)

/-- The text closes a square bracket that it has not opened. -/
def ClosesEarly (text : String) : Prop :=
  ∃ before after, text = before ++ "]" ++ after ∧
    ∃ ts, scan? before.toList = some ts ∧ Balanced true ts

/-- Operands in front of a closing bracket are read one after the other. -/
theorem IsOperandList.derives {text : String} {es : List Expr} (h : IsOperandList text es) :
    ∃ ts, Spells (text.toList ++ [']']) (ts ++ [.symbol .closeBracket]) ∧
      ts.all Token.inRange = true ∧
      Derives Reader.elements (ts ++ [.symbol .closeBracket]) es [] := by
  have hend : Spells [']'] [.symbol .closeBracket] := .cons rfl (.done (by simp))
  have hread {text : String} {e : Expr} (htext : IsTextOf e text) {s : Symbol}
      (hs : endsOperand s = true) (us : List Token) :
      Derives (.expression 0) (tokensOf text ++ .symbol s :: us) e (.symbol s :: us) :=
    derives_of_run (fuelFor (tokensOf text)) (.expression 0)
      (expression_of_ofTokens? htext.made hs le_rfl)
  induction h with
  | blank h => exact ⟨[], hend.gap h, rfl, .noItems rfl (by decide) []⟩
  | last h =>
    have htext := isTextOf_of_parse h
    exact ⟨_, htext.spells.append rfl hend, htext.inRange, .lastItem rfl _ (hread htext rfl [])⟩
  | @cons first rest e es h hrest ih =>
    have htext := isTextOf_of_parse h
    obtain ⟨ts, hspells, hrange, hderives⟩ := ih
    have hcomma : Spells (',' :: (rest.toList ++ [']']))
        (.symbol .comma :: (ts ++ [.symbol .closeBracket])) := .cons rfl hspells
    refine ⟨tokensOf first ++ .symbol .comma :: ts, ?_, ?_, ?_⟩
    · simpa using htext.spells.append rfl hcomma
    · simp [htext.inRange, hrange, Token.inRange]
    · rw [List.append_assoc, List.cons_append]
      exact .item rfl _ (hread htext rfl _) hderives

/-- **Operands between square brackets are the list of their expressions.** -/
theorem IsOperandList.parse {text : String} {es : List Expr} (h : IsOperandList text es) :
    Expr.parse ("[" ++ text ++ "]") = .ok (.list es) := by
  obtain ⟨ts, hspells, hrange, hderives⟩ := h.derives
  have hstop : Stops 0 [] := ⟨by simp [binaryOp?], rfl⟩
  have hall : Spells ('[' :: (text.toList ++ [']']))
      (.symbol .openBracket :: (ts ++ [.symbol .closeBracket])) := .cons rfl hspells
  refine parse_of_spells (by simpa using hall)
    (ofTokens?_eq_some_iff.2 (.expression (.list hderives) (.stop _ hstop))) ?_
  simp [hrange, Token.inRange]

/-! ## What is accepted between brackets -/

/-- The end of a list is the end of what stands behind another item of it. -/
theorem exists_of_append_singleton {α : Type} {xs ys zs : List α} {x y : α} (hne : x ≠ y)
    (h : xs ++ [x] = ys ++ y :: zs) : ∃ ws, zs = ws ++ [x] ∧ xs = ys ++ y :: ws := by
  rcases List.eq_nil_or_concat' zs with rfl | ⟨ws, z, rfl⟩
  · exact absurd (List.singleton_inj.1 (List.append_inj_right' h rfl)) hne
  · rw [← List.cons_append, ← List.append_assoc] at h
    obtain ⟨hxs, hz⟩ := List.append_inj' h rfl
    cases hz
    exact ⟨ws, rfl, hxs⟩

/-- By induction on the fuel, which goes down with each operand. -/
theorem isOperandList_of_items {fuel : Nat} {cs : List Char} {ts : List Token} {es : List Expr}
    (hspells : Spells cs ts) (hrange : ts.all Token.inRange = true)
    (h : Parser.items fuel .closeBracket (ts ++ [.symbol .closeBracket]) = some (es, [])) :
    IsOperandList (String.ofList cs) es := by
  induction fuel generalizing cs ts es with
  | zero => cases h
  | succ fuel ih =>
    -- what is read in front of a comma or the bracket is the expression of a text of its own
    have hpiece {before : List Char} {taken : List Token} {e : Expr} (hbefore : Spells before taken)
        (htaken : taken.all Token.inRange = true) (hmade : ofTokens? taken = some e) :
        Expr.parse (String.ofList before) = .ok e :=
      parse_of_spells (by rwa [String.toList_ofList]) hmade htaken
    rw [Parser.items] at h
    split at h
    · obtain ⟨rfl, htail⟩ := Prod.mk.inj (Option.some.inj h)
      have hts : ts = [] := by
        cases ts with
        | nil => rfl
        | cons t ts => simp at htail
      subst hts
      exact .blank (by simpa using hspells.isGap)
    · split at h
      · next e us hread =>
        obtain ⟨⟨es', r⟩, hmore, heq⟩ := Option.map_eq_some_iff.1 h
        cases heq
        obtain ⟨taken, hts, hmade⟩ := (derives_of_run fuel (.expression 0) hread).ofTokens?
        obtain ⟨us, rfl, rfl⟩ := exists_of_append_singleton (by decide) hts
        obtain ⟨before, after, rfl, hbefore, hafter⟩ := hspells.cut (d := ',') rfl rfl
        simp only [List.all_append, List.all_cons, Bool.and_eq_true] at hrange
        have htext : String.ofList (before ++ ',' :: after)
            = String.ofList before ++ "," ++ String.ofList after := by simp [← String.toList_inj]
        rw [htext]
        exact .cons (hpiece hbefore hrange.1 hmade) (ih hafter hrange.2.2 hmore)
      · next e t us hcomma hread =>
        split at h
        · next ht =>
          obtain ⟨rfl, rfl⟩ := Prod.mk.inj (Option.some.inj h)
          obtain rfl : t = .symbol .closeBracket := by simpa using ht
          obtain ⟨taken, hts, hmade⟩ := (derives_of_run fuel (.expression 0) hread).ofTokens?
          rw [List.append_cancel_right hts] at hspells hrange
          exact .last (hpiece hspells hrange hmade)
        · cases h
      · cases h

/-- An expression that starts with a square bracket starts with a list. -/
theorem exists_items {ts : List Token} {e : Expr}
    (h : ofTokens? (.symbol .openBracket :: ts) = some e) :
    ∃ n es us, Parser.items n .closeBracket ts = some (es, us) := by
  have hfuel : fuelFor (.symbol .openBracket :: ts) = 4 * ts.length + 6 + 1 + 1 := by
    rw [fuelFor, List.length_cons]
    omega
  rw [ofTokens?, hfuel, Parser.expression, Parser.operand] at h
  cases hitems : Parser.items (4 * ts.length + 6) .closeBracket ts with
  | none => simp [unaryOp?, hitems] at h
  | some r => exact ⟨_, r.1, r.2, hitems⟩

/-- **A text that is accepted between square brackets is a list of operands, or closes a bracket
    that it has not opened.** -/
theorem isOperandList_or_closesEarly {text : String} {e : Expr}
    (h : Expr.parse ("[" ++ text ++ "]") = .ok e) :
    (∃ es, IsOperandList text es) ∨ ClosesEarly text := by
  have htext := isTextOf_of_parse h
  have hall : Spells ('[' :: (text.toList ++ [']'])) (tokensOf ("[" ++ text ++ "]")) := by
    simpa using htext.spells
  obtain ⟨ts, hts, hspells⟩ := hall.of_cons (t := .symbol .openBracket) rfl rfl
  have hmade := htext.made
  have hrange := htext.inRange
  rw [hts] at hmade hrange
  obtain ⟨n, es, us, hitems⟩ := exists_items hmade
  obtain ⟨taken, rfl, htaken⟩ := (readersTake n).items hitems
  obtain ⟨before, after, hcut, hbefore, hafter⟩ := hspells.cut (d := ']') rfl rfl
  rcases List.eq_nil_or_concat' after with rfl | ⟨after, c, rfl⟩
  · -- the bracket found is the one put behind the text
    obtain rfl := hafter.eq_nil
    obtain rfl : text.toList = before := List.append_cancel_right hcut
    have hinner : taken.all Token.inRange = true := by
      rw [List.all_cons, List.all_append, Bool.and_eq_true, Bool.and_eq_true] at hrange
      exact hrange.2.1
    have hlist := isOperandList_of_items hbefore hinner hitems
    rw [String.ofList_toList] at hlist
    exact Or.inl ⟨es, hlist⟩
  · rw [← List.cons_append, ← List.append_assoc] at hcut
    have htext : text.toList = before ++ ']' :: after := (List.append_inj' hcut rfl).1
    refine Or.inr ⟨String.ofList before, String.ofList after, ?_, taken, ?_, htaken⟩
    · simp [← String.toList_inj, htext]
    · rw [String.toList_ofList]
      exact scan?_eq_some_iff.2 hbefore

end Expr

/-! ## Printing -/

namespace Act

open StepScript.Expr (IsOperandList ClosesEarly evalAll)

variable {σ : Type} (h : Host σ)

/-- The action does not end in the fault of a text that is no expression. -/
def IsUnderstood {α : Type} (a : Act σ α) (w : World σ) : Prop :=
  ∀ text cause, (a.run.run w).1 ≠ .error (.expression text cause)

/-- Printing that is not refused has read the text between the brackets. -/
theorem exists_parse_of_isUnderstood {text : String} {w : World σ}
    (hread : IsUnderstood (perform h (.print text)) w) :
    ∃ e, Expr.parse ("[" ++ text ++ "]") = .ok e := by
  cases hparse : Expr.parse ("[" ++ text ++ "]") with
  | ok e => exact ⟨e, rfl⟩
  | error fault =>
    obtain ⟨cause, rfl⟩ := Expr.parse_error hparse
    have hrun : ((perform h (.print text)).run.run w).1
        = .error (.expression ("[" ++ text ++ "]") cause) := by
      show ((do emit (← printed text) : Act σ Unit).run.run w).1 = _
      rw [Act.run_bind, printed, Act.run_bind, evalText, Act.run_eval, StepScript.evalText, hparse]
      rfl
    exact absurd hrun (hread _ cause)

/-- A list of operands is evaluated from left to right, and the values make one line. -/
theorem run_print {text : String} {es : List Expr} (hlist : IsOperandList text es)
    (w : World σ) :
    (perform h (.print text)).run.run w =
      match (evalAll es).run.run w.env with
      | (.ok vs, env) =>
        (.ok (), { w with env, output := w.output.push (" ".intercalate (vs.map Value.display)) })
      | (.error fault, env) => (.error fault, { w with env }) := by
  have hvalue : (evalText ("[" ++ text ++ "]") : Act σ Value)
      = eval (evalAll es) >>= fun vs => eval (pure (.list vs)) := by
    rw [evalText, evalText_of_parse hlist.parse, Expr.eval, eval_bind]
  show ((do emit (← printed text) : Act σ Unit).run.run w) = _
  rw [run_bind, printed, hvalue, bind_assoc, run_bind, run_eval]
  rcases (evalAll es).run.run w.env with ⟨r, env⟩
  cases r <;> rfl

/-- **`PRINT` of a list of operands prints their values on one line.** The operands are evaluated
    from left to right, no text is refused, and the values are joined by single blanks. Whatever
    else is accepted closes a square bracket that it has not opened. -/
theorem print_operands (text : String) :
    (∀ es, IsOperandList text es → ∀ w : World σ,
      IsUnderstood (perform h (.print text)) w ∧
      (perform h (.print text)).run.run w =
        match (evalAll es).run.run w.env with
        | (.ok vs, env) =>
          (.ok (), { w with env, output := w.output.push (" ".intercalate (vs.map Value.display)) })
        | (.error fault, env) => (.error fault, { w with env })) ∧
    ∀ w : World σ, IsUnderstood (perform h (.print text)) w →
      (∃ es, IsOperandList text es) ∨ ClosesEarly text := by
  constructor
  · intro es hlist w
    have hrun := run_print h hlist w
    refine ⟨?_, hrun⟩
    intro badText cause
    rw [hrun]
    have hevaluate : FaultsUpTo 1 ((evalAll es).run.run w.env).1 :=
      Expr.raisesUpTo_evalAll es w.env
    rcases hvalues : (evalAll es).run.run w.env with ⟨r, env⟩
    rw [hvalues] at hevaluate
    cases r with
    | ok vs => nofun
    | error fault =>
      rintro ⟨⟩
      exact absurd (hevaluate _ rfl) (by simp)
  · intro w hread
    obtain ⟨e, hparse⟩ := exists_parse_of_isUnderstood h hread
    exact Expr.isOperandList_or_closesEarly hparse

/-- A text, a sum and a comma at the end. -/
theorem print_operands_textAndSum :
    let text := "\"sum:\", 1 + 2,"
    let host : Host (Library.State Unit Unit) := (Library.standard .plain).host
    let w : World (Library.State Unit Unit) := ⟨{ host := { memory := () } }, #[], none⟩
    (∃ es, IsOperandList text es) ∧
      (perform host (.print text)).run.run w = (.ok (), { w with output := #["sum: 3"] }) ∧
      ((∃ es, IsOperandList text es) ∨ ClosesEarly text) := by
  intro text host w
  have hfirst : Expr.parse "\"sum:\"" = .ok (.literal (.text "sum:")) := by
    have hscan : Token.scan? "\"sum:\"".toList = some [.text "sum:"] := by decide +kernel
    rw [Expr.parse, hscan]
    rfl
  have hsecond : Expr.parse " 1 + 2"
      = .ok (.binary .add (.literal (.int 1)) (.literal (.int 2))) := by
    have hscan : Token.scan? " 1 + 2".toList = some [.int 1, .symbol .plus, .int 2] := by
      decide +kernel
    rw [Expr.parse, hscan]
    rfl
  have hend : IsOperandList "" [] := .blank (by simp)
  have hlist : IsOperandList text [.literal (.text "sum:"),
      .binary .add (.literal (.int 1)) (.literal (.int 2))] :=
    .cons hfirst (.cons hsecond hend)
  obtain ⟨hprints, haccepted⟩ := print_operands host text
  obtain ⟨hread, hrun⟩ := hprints _ hlist w
  refine ⟨⟨_, hlist⟩, hrun.trans ?_, haccepted w hread⟩
  rfl

/-- `1] + [2` is no list of operands: what is evaluated is the sum of two lists, whose items are
    printed. -/
theorem print_closesEarly :
    let text := "1] + [2"
    let host : Host (Library.State Unit Unit) := (Library.standard .plain).host
    let w : World (Library.State Unit Unit) := ⟨{ host := { memory := () } }, #[], none⟩
    IsUnderstood (perform host (.print text)) w ∧
      (perform host (.print text)).run.run w = (.ok (), { w with output := #["1 2"] }) ∧
      ClosesEarly text ∧ ¬ ∃ es, IsOperandList text es := by
  intro text host w
  have hparse : Expr.parse ("[" ++ text ++ "]")
      = .ok (.binary .add (.list [.literal (.int 1)]) (.list [.literal (.int 2)])) := by
    have hscan : Token.scan? ("[" ++ text ++ "]").toList
        = some [.symbol .openBracket, .int 1, .symbol .closeBracket, .symbol .plus,
          .symbol .openBracket, .int 2, .symbol .closeBracket] := by
      decide +kernel
    rw [Expr.parse, hscan]
    rfl
  have hrun : (perform host (.print text)).run.run w
      = (.ok (), { w with output := #["1 2"] }) := by
    show ((do emit (← printed text) : Act _ Unit).run.run w) = _
    rw [run_bind, printed, evalText, evalText_of_parse hparse]
    rfl
  have hbefore : Token.scan? "1".toList = some [.int 1] := by decide +kernel
  refine ⟨?_, hrun, ⟨"1", " + [2", rfl, _, hbefore, .plain rfl .nil⟩, ?_⟩
  · intro badText cause
    rw [hrun]
    intro h
    cases h
  · rintro ⟨es, hlist⟩
    cases hparse.symm.trans hlist.parse

end Act

end StepScript
