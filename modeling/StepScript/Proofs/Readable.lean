import StepScript.Proofs.Derivation
import StepScript.Proofs.Dictionary
import StepScript.Proofs.Literals

/-!
# Expressions that can be read

What parsing gives is made of what a text can hold: its literals are `None`, truth values, integers
not below zero, numbers and texts, and its names and fields are names (`isReadable_of_parse`). In
particular no literal of a parsed expression is a function, a module or a model.

So a text that holds literals only has a value that is plain data, whatever it is evaluated in, and
the text that a user gives as an input stands for plain data in any case
(`literalValue_isPlainData`).
-/

set_option autoImplicit false

namespace StepScript

open Token

/-! ## Tokens of a text -/

/-- Words are names, and integers are in range. -/
def Token.IsProper : Token → Prop
  | .word w => Line.IsName w.toList
  | .int n => n < Nat.pow 2 63
  | _ => True

theorem Token.number_ne_word (cs : List Char) (w : String) : (number cs).1 ≠ .word w := by
  unfold number
  split
  · dsimp only
    split <;> nofun
  · split <;> nofun

theorem Token.isName_of_next? {cs rest : List Char} {w : String}
    (h : next? cs = some (.word w, rest)) : Line.IsName w.toList := by
  unfold next? at h
  split at h
  · cases h
  · split at h
    · exact absurd (congrArg Prod.fst (Option.some.inj h)) (number_ne_word _ w)
    · split at h
      · next c cs _ hstart =>
        cases h
        have hc : Text.isNameChar c = true := Line.isNameChar_of_isNameStart hstart
        refine ⟨c, cs.takeWhile Text.isNameChar, by simp [hc], hstart, fun d hd => ?_⟩
        exact List.mem_takeWhile_imp hd
      · split at h
        · obtain ⟨_, _, heq⟩ := Option.map_eq_some_iff.1 h
          cases heq
        · obtain ⟨_, _, heq⟩ := Option.map_eq_some_iff.1 h
          cases heq

theorem Token.Spells.isProper {cs : List Char} {ts : List Token} (h : Spells cs ts)
    (hrange : ts.all inRange = true) : ∀ t ∈ ts, t.IsProper := by
  induction h with
  | done hgap => exact fun _ ht => nomatch ht
  | @token gap cs rest t ts hgap hnext hrest ih =>
    rw [List.all_cons, Bool.and_eq_true] at hrange
    refine List.forall_mem_cons.2 ⟨?_, ih hrange.2⟩
    cases t with
    | word w => exact isName_of_next? hnext
    | int n =>
      show n < Nat.pow 2 63
      exact of_decide_eq_true hrange.1
    | _ => trivial

/-! ## Readable expressions -/

/-- The value is written as one literal. -/
inductive Value.IsLiteral : Value → Prop where
  | nothing : IsLiteral .nothing
  | bool (b : Bool) : IsLiteral (.bool b)
  | int {n : Int64} (hn : 0 ≤ n.toInt) : IsLiteral (.int n)
  | float (x : Binary64) : IsLiteral (.float x)
  | text (s : String) : IsLiteral (.text s)

namespace Expr

/-- The expression is made of literals, names and what the grammar puts together. -/
inductive IsReadable : Expr → Prop where
  | literal {v : Value} (hv : v.IsLiteral) : IsReadable (.literal v)
  | name {n : String} (hn : Line.IsName n.toList) (hreserved : n ∉ reserved) : IsReadable (.name n)
  | list {items : List Expr} (hitems : ∀ e ∈ items, IsReadable e) : IsReadable (.list items)
  | dict {entries : List (Expr × Expr)} (hkeys : ∀ e ∈ entries, IsReadable e.1)
      (hvalues : ∀ e ∈ entries, IsReadable e.2) : IsReadable (.dict entries)
  | unary (op : UnaryOp) {e : Expr} (he : IsReadable e) : IsReadable (.unary op e)
  | binary (op : BinaryOp) {left right : Expr} (hleft : IsReadable left)
      (hright : IsReadable right) : IsReadable (.binary op left right)
  | call {callee : Expr} {args : List Expr} (hcallee : IsReadable callee)
      (hargs : ∀ e ∈ args, IsReadable e) : IsReadable (.call callee args)
  | index {e i : Expr} (he : IsReadable e) (hi : IsReadable i) : IsReadable (.index e i)
  | slice {e : Expr} {low high : Option Expr} (he : IsReadable e)
      (hlow : ∀ b ∈ low, IsReadable b) (hhigh : ∀ b ∈ high, IsReadable b) :
    IsReadable (.slice e low high)
  | field {owner : Expr} {n : String} (howner : IsReadable owner) (hn : Line.IsName n.toList) :
    IsReadable (.field owner n)

/-- What a name stands for where an operand is read. -/
theorem isReadable_ofWord {w : String} (hw : Line.IsName w.toList) (hnot : w ≠ "not") :
    IsReadable (ofWord w) := by
  unfold ofWord
  split
  · exact .literal (.bool true)
  · split
    · exact .literal (.bool false)
    · split
      · exact .literal .nothing
      · next htrue hfalse hnone =>
        refine .name hw ?_
        simp only [Bool.or_eq_true, beq_iff_eq, not_or] at htrue hfalse hnone
        simp [reserved, htrue, hfalse, hnone, hnot]

theorem isLiteral_int {n : Nat} (h : n < Nat.pow 2 63) :
    Value.IsLiteral (.int (Int64.ofNat n)) := by
  have hpow : Nat.pow 2 63 = 2 ^ 63 := rfl
  refine .int ?_
  rw [Int64.toInt_ofNat_of_lt (by omega)]
  exact Int.natCast_nonneg n

/-! ## What is read is readable -/

namespace Reader

variable {α : Type}

/-- What the reader was given is readable. -/
def IsGivenReadable : Reader α → Prop
  | .extend _ e | .subscript e => IsReadable e
  | .upper e low => IsReadable e ∧ ∀ b ∈ low, IsReadable b
  | _ => True

/-- What the reader makes is readable. -/
def MakesReadable : Reader α → α → Prop
  | .expression _, e | .operand, e => IsReadable e
  | .extend _ _, e | .subscript _, e | .upper _ _, e => IsReadable e
  | .items _ _ _, es => ∀ e ∈ es, IsReadable e
  | .entries, es => ∀ e ∈ es, IsReadable e.1 ∧ IsReadable e.2

end Reader

theorem Derives.isReadable {α : Type} {r : Reader α} {ts rest : List Token} {x : α}
    (h : Derives r ts x rest) (hts : ∀ t ∈ ts, t.IsProper) (hgiven : r.IsGivenReadable) :
    r.MakesReadable x := by
  have hsub {ts us : List Token} (hts : ∀ t ∈ ts, t.IsProper) (hus : us <:+ ts) :
      ∀ t ∈ us, t.IsProper := fun t ht => hts t (hus.subset ht)
  induction h with
  | expression hoperand hextend ihoperand ihextend =>
    exact ihextend (hsub hts hoperand.suffix) (ihoperand hts trivial)
  | unary hop h ih =>
    obtain ⟨t, rfl, -⟩ := exists_of_unaryOp? hop
    exact .unary _ (ih (List.forall_mem_cons.1 hts).2 trivial)
  | parens h ih => exact ih (List.forall_mem_cons.1 hts).2 trivial
  | list h ih => exact .list (ih (List.forall_mem_cons.1 hts).2 trivial)
  | dict h ih =>
    have hentries := ih (List.forall_mem_cons.1 hts).2 trivial
    exact .dict (fun e he => (hentries e he).1) fun e he => (hentries e he).2
  | int n rest => exact .literal (isLiteral_int (List.forall_mem_cons.1 hts).1)
  | float x rest => exact .literal (.float x)
  | text s rest => exact .literal (.text s)
  | word hw rest => exact isReadable_ofWord (List.forall_mem_cons.1 hts).1 hw
  | call hargs h ihargs ih =>
    have hrest := (List.forall_mem_cons.1 hts).2
    exact ih (hsub hrest hargs.suffix) (.call hgiven (ihargs hrest trivial))
  | subscript hpart h ihpart ih =>
    have hrest := (List.forall_mem_cons.1 hts).2
    exact ih (hsub hrest hpart.suffix) (ihpart hrest hgiven)
  | field w h ih =>
    obtain ⟨-, hw, hrest⟩ := by simpa only [List.forall_mem_cons] using hts
    exact ih hrest (.field hgiven hw)
  | binary hop hlevel hright h ihright ih =>
    obtain ⟨t, taken, rfl, -⟩ := exists_of_binaryOp? hop
    have hus := hsub hts ((List.suffix_append taken _).trans (List.suffix_cons t _))
    exact ih (hsub hus hright.suffix) (.binary _ hgiven (ihright hus trivial))
  | stop e h => exact hgiven
  | noItems hclose hcomma rest => exact fun _ he => nomatch he
  | lastItem hclose hcomma h ih => exact List.forall_mem_singleton.2 (ih hts trivial)
  | item hclose hcomma h hmore ih ihmore =>
    have hrest := hsub hts ((List.suffix_cons _ _).trans h.suffix)
    exact List.forall_mem_cons.2 ⟨ih hts trivial, ihmore hrest trivial⟩
  | noEntries rest => exact fun _ he => nomatch he
  | lastEntry hkey hvalue ihkey ihvalue =>
    have hrest := hsub hts ((List.suffix_cons _ _).trans hkey.suffix)
    exact List.forall_mem_singleton.2 ⟨ihkey hts trivial, ihvalue hrest trivial⟩
  | entry hkey hvalue hmore ihkey ihvalue ihmore =>
    have hus := hsub hts ((List.suffix_cons _ _).trans hkey.suffix)
    have hvs := hsub hus ((List.suffix_cons _ _).trans hvalue.suffix)
    exact List.forall_mem_cons.2 ⟨⟨ihkey hts trivial, ihvalue hus trivial⟩, ihmore hvs trivial⟩
  | index h ih => exact .index hgiven (ih hts trivial)
  | fromLow hlow h ihlow ih =>
    have hrest := hsub hts ((List.suffix_cons _ _).trans hlow.suffix)
    refine ih hrest ⟨hgiven, ?_⟩
    rintro _ ⟨⟩
    exact ihlow hts trivial
  | fromStart h ih => exact ih (List.forall_mem_cons.1 hts).2 ⟨hgiven, by simp⟩
  | toEnd e low rest => exact .slice hgiven.1 hgiven.2 (by simp)
  | toHigh h ih =>
    refine .slice hgiven.1 hgiven.2 ?_
    rintro _ ⟨⟩
    exact ih hts trivial

/-- **A parsed expression is readable.** -/
theorem isReadable_of_parse {text : String} {e : Expr} (h : Expr.parse text = .ok e) :
    e.IsReadable := by
  have htext := isTextOf_of_parse h
  have hproper := htext.spells.isProper htext.inRange
  exact (ofTokens?_eq_some_iff.1 htext.made).isReadable hproper trivial

end Expr

/-! ## Values of literals -/

/-- The value is plain data: built from `None`, truth values, numbers and texts with lists and
    dictionaries. -/
inductive Value.IsPlainData : Value → Prop where
  | nothing : IsPlainData .nothing
  | bool (b : Bool) : IsPlainData (.bool b)
  | int (n : Int64) : IsPlainData (.int n)
  | float (x : Binary64) : IsPlainData (.float x)
  | text (s : String) : IsPlainData (.text s)
  | list {items : List Value} (hitems : ∀ v ∈ items, IsPlainData v) : IsPlainData (.list items)
  | dict {entries : Dict} (hkeys : ∀ e ∈ entries, IsPlainData e.1)
      (hvalues : ∀ e ∈ entries, IsPlainData e.2) : IsPlainData (.dict entries)

theorem Value.IsLiteral.isPlainData {v : Value} (h : v.IsLiteral) : v.IsPlainData := by
  cases h with
  | nothing => exact .nothing
  | bool b => exact .bool b
  | int hn => exact .int _
  | float x => exact .float x
  | text s => exact .text s

namespace Expr

/-- The evaluation gives plain data, without a fault and whatever the environment is. -/
def IsConstant (e : Expr) : Prop :=
  ∃ v : Value, v.IsPlainData ∧ ∀ σ : Type, (e.eval : Eval σ Value) = pure v

/-- A numeral below the range of its negative does not exist, so that a sign never overflows. -/
theorem isConstant_signed {op : UnaryOp} (hop : op = .neg ∨ op = .pos) {v : Value}
    (hv : v.IsLiteral) (hnumeral : (literal v).isNumeral = true) :
    (unary op (.literal v)).IsConstant := by
  have heval (w : Value) (hw : Value.unary op v = .ok w) (σ : Type) :
      ((unary op (.literal v)).eval : Eval σ Value) = pure w := by
    show (do Eval.lift (Value.unary op (← pure v)) : Eval σ Value) = _
    rw [pure_bind, hw]
    rfl
  cases hv with
  | @int n hn =>
    rcases hop with rfl | rfl
    · have hlow : -n ≠ Int64.minValue := by
        intro heq
        have hneg : n = -Int64.minValue := by rw [← heq, Int64.neg_neg]
        rw [hneg] at hn
        exact absurd hn (by decide)
      refine ⟨.int (-n), .int _, heval _ ?_⟩
      have hunary := unary_neg_of_ne hlow
      rwa [Int64.neg_neg] at hunary
    · exact ⟨.int n, .int n, heval _ rfl⟩
  | float x =>
    rcases hop with rfl | rfl
    · exact ⟨.float x.neg, .float _, heval _ rfl⟩
    · exact ⟨.float x, .float x, heval _ rfl⟩
  | nothing | bool _ | text _ => cases hnumeral

theorem isConstant_list {es : List Expr} (h : ∀ e ∈ es, e.IsConstant) :
    ∃ vs : List Value, (∀ v ∈ vs, v.IsPlainData) ∧
      ∀ σ : Type, (evalAll es : Eval σ (List Value)) = pure vs := by
  induction es with
  | nil => exact ⟨[], by simp, fun σ => rfl⟩
  | cons e es ih =>
    obtain ⟨⟨v, hv, heval⟩, hes⟩ := List.forall_mem_cons.1 h
    obtain ⟨vs, hvs, hevals⟩ := ih hes
    refine ⟨v :: vs, List.forall_mem_cons.2 ⟨hv, hvs⟩, fun σ => ?_⟩
    rw [evalAll, heval, hevals]
    rfl

theorem isConstant_entries {es : List (Expr × Expr)}
    (h : ∀ e ∈ es, e.1.IsConstant ∧ e.2.IsConstant) {d : Dict}
    (hd : ∀ e ∈ d, e.1.IsPlainData ∧ e.2.IsPlainData) :
    ∃ d' : Dict, (∀ e ∈ d', e.1.IsPlainData ∧ e.2.IsPlainData) ∧
      ∀ σ : Type, (evalEntries es d : Eval σ Dict) = pure d' := by
  induction es generalizing d with
  | nil => exact ⟨d, hd, fun σ => rfl⟩
  | cons e es ih =>
    obtain ⟨k, v⟩ := e
    obtain ⟨⟨⟨key, hkey, hevalKey⟩, value, hvalue, hevalValue⟩, hes⟩ := List.forall_mem_cons.1 h
    have hinsert : ∀ e ∈ Dict.insert key value d, e.1.IsPlainData ∧ e.2.IsPlainData :=
      Dict.forall_mem_insert ⟨hkey, hvalue⟩ fun e he => ⟨hd e he, (hd e he).1, hvalue⟩
    obtain ⟨d', hd', heval⟩ := ih hes hinsert
    refine ⟨d', hd', fun σ => ?_⟩
    rw [evalEntries, evalEntry, hevalKey, hevalValue]
    simpa using heval σ

/-- By induction on what is readable: literals hold no other forms of expressions. -/
theorem IsReadable.isConstant {e : Expr} (h : e.IsReadable) (hliteral : e.isLiteral = true) :
    e.IsConstant := by
  induction h with
  | literal hv => exact ⟨_, hv.isPlainData, fun σ => rfl⟩
  | list hitems ih =>
    rw [isLiteral, areLiterals_iff] at hliteral
    obtain ⟨vs, hvs, heval⟩ := isConstant_list fun e he => ih e he (hliteral e he)
    refine ⟨.list vs, .list hvs, fun σ => ?_⟩
    rw [eval, heval]
    rfl
  | dict hkeys hvalues ihkeys ihvalues =>
    rw [isLiteral, areLiteralEntries_iff] at hliteral
    obtain ⟨d, hd, heval⟩ := isConstant_entries (d := [])
      (fun e he => ⟨ihkeys e he (hliteral e he).1, ihvalues e he (hliteral e he).2⟩) (by simp)
    refine ⟨.dict d, .dict (fun e he => (hd e he).1) (fun e he => (hd e he).2), fun σ => ?_⟩
    rw [eval, heval]
    rfl
  | unary op he ih =>
    have hsign : op = .neg ∨ op = .pos := by
      cases op with
      | not => cases hliteral
      | neg => exact Or.inl rfl
      | pos => exact Or.inr rfl
    have hnumeral := hliteral
    rcases hsign with rfl | rfl <;> cases he with
    | literal hv => exact isConstant_signed (by simp) hv hnumeral
    | _ => cases hnumeral
  | _ => cases hliteral

theorem parse_error {text : String} {fault : Fault} (h : Expr.parse text = .error fault) :
    ∃ cause, fault = .expression text cause := by
  unfold Expr.parse at h
  split at h
  · cases h
    exact ⟨_, rfl⟩
  · split at h
    · cases h
      exact ⟨_, rfl⟩
    · split at h
      · cases h
      · cases h
        exact ⟨_, rfl⟩

/-- A text that holds a literal has its value everywhere. -/
theorem exists_literalValue {text : String} {e : Expr} (hparse : Expr.parse text = .ok e)
    (hliteral : e.isLiteral = true) :
    ∃ v : Value, v.IsPlainData ∧ literalValue text = .ok v ∧
      ∀ (σ : Type) (env : Env σ), e.evaluate env = (.ok v, env) := by
  obtain ⟨v, hv, heval⟩ := (isReadable_of_parse hparse).isConstant hliteral
  have hevaluate (σ : Type) (env : Env σ) : e.evaluate env = (.ok v, env) := by
    rw [evaluate, heval]
    rfl
  refine ⟨v, hv, ?_, hevaluate⟩
  rw [literalValue, hparse]
  show (if e.isLiteral then (e.evaluate ({ host := () } : Env Unit)).1 else _) = _
  rw [if_pos hliteral, hevaluate]

/-- A text that holds more than a literal is refused. -/
theorem literalValue_of_not_isLiteral {text : String} {e : Expr}
    (hparse : Expr.parse text = .ok e) (hliteral : e.isLiteral ≠ true) :
    literalValue text = .error (.value (.notLiteral text)) := by
  rw [literalValue, hparse]
  exact if_neg hliteral

theorem literalValue_of_error {text : String} {fault : Fault}
    (hparse : Expr.parse text = .error fault) : literalValue text = .error fault := by
  rw [literalValue, hparse]
  rfl

theorem isPlainData_of_literalValue {text : String} {v : Value}
    (h : literalValue text = .ok v) : v.IsPlainData := by
  cases hparse : Expr.parse text with
  | error fault => cases h.symm.trans (literalValue_of_error hparse)
  | ok e =>
    by_cases hliteral : e.isLiteral = true
    · obtain ⟨w, hw, hvalue, -⟩ := exists_literalValue hparse hliteral
      cases h.symm.trans hvalue
      exact hw
    · cases h.symm.trans (literalValue_of_not_isLiteral hparse hliteral)

/-- **A literal is plain data and never faults.** A text is refused for one of two reasons: it is no
    expression, or the expression is more than a literal. Otherwise it has a value that is plain
    data, the same in every environment and without an effect on it. So an input neither names a
    variable nor calls a function; whatever it is, it stands for plain data. -/
theorem literalValue_isPlainData (text : String) :
    (match Expr.parse text with
      | .ok e =>
        if e.isLiteral then
          ∃ v : Value, v.IsPlainData ∧ literalValue text = .ok v ∧
            ∀ (σ : Type) (env : Env σ), e.evaluate env = (.ok v, env)
        else literalValue text = .error (.value (.notLiteral text))
      | .error fault =>
        literalValue text = .error fault ∧ ∃ cause, fault = .expression text cause) ∧
    (inputValue text).IsPlainData := by
  constructor
  · cases hparse : Expr.parse text with
    | error fault => exact ⟨literalValue_of_error hparse, parse_error hparse⟩
    | ok e =>
      dsimp only
      split
      · next hliteral => exact exists_literalValue hparse hliteral
      · next hliteral => exact literalValue_of_not_isLiteral hparse hliteral
  · unfold inputValue
    split
    · next hvalue => exact isPlainData_of_literalValue hvalue
    · exact .text text

end Expr

end StepScript
