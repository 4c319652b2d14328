import StepScript.Proofs.Imports

/-!
# Statements that change a list

`APPEND` and `REMOVE` do what the methods `append` and `remove` do when they are called on the
variable (`Act.listStatements_agree`). The statement evaluates its operand and then looks for the
list; the call looks for the list first, evaluates its argument, and looks for the list again. Both
change what they find last, and the operand, which may itself change the list, leaves a list there.
-/

set_option autoImplicit false

namespace StepScript

variable {σ : Type}

namespace Expr

/-- A method called on a variable with one argument. -/
def calledOnName (name method : String) (arg : Expr) : Expr :=
  .call (.field (.name name) method) [arg]

section

variable {name method : String} {e : Expr} {env mid : Env σ} {items : List Value}

theorem run_evalAll_singleton (e : Expr) (env : Env σ) :
    (evalAll [e]).run.run env
      = match e.evaluate env with
        | (.ok v, mid) => (.ok [v], mid)
        | (.error fault, mid) => (.error fault, mid) := by
  rw [evalAll, Eval.run_bind, evaluate]
  rcases e.eval.run.run env with ⟨r, mid⟩
  cases r <;> rfl

/-- The text of the call. -/
theorem parse_calledOnName {text : String} (hname : Line.IsName name.toList)
    (hreserved : name ∉ reserved) (hmethod : Line.IsName method.toList)
    (hparse : Expr.parse text = .ok e) :
    Expr.parse (name ++ "." ++ method ++ "(" ++ text ++ ")")
      = .ok (calledOnName name method e) := by
  have hnames : ∀ n ∈ [name, method], Line.IsName n.toList := by simp [hname, hmethod]
  have hargs : List.Forall₂ (fun a e => Expr.parse a = .ok e) [text] [e] := .cons hparse .nil
  have hcall := parse_callText hnames hreserved hargs
  have htext : callText (".".intercalate [name, method]) [text]
      = name ++ "." ++ method ++ "(" ++ text ++ ")" := by
    simp [callText, Statement.arguments, ← String.toList_inj]
  rwa [htext] at hcall

/-- A fault of the argument is the fault of the call. -/
theorem evaluate_calledOnName_error {fault : Fault} (hlist : env.get? name = some (.list items))
    (he : e.evaluate env = (.error fault, mid)) :
    (calledOnName name method e).evaluate env = (.error fault, mid) := by
  have howner : (eval (.name name)).run.run env = (.ok (.list items), env) := by
    show (Eval.lift (env.nameValue name)).run.run env = _
    rw [Env.nameValue_of_get? hlist, Eval.run_lift]
  have hargs : (evalAll [e]).run.run env = (.error fault, mid) := by
    rw [run_evalAll_singleton, he]
  unfold evaluate calledOnName eval
  rw [Eval.run_bind, howner]
  dsimp only
  rw [Eval.run_bind, hargs]

/-- The argument leaves a list in the variable, and the method changes that one. -/
theorem evaluate_calledOnName {v : Value} (hlist : env.get? name = some (.list items))
    (hmutates : Method.mutates method = true) (he : e.evaluate env = (.ok v, mid)) :
    ∃ now, mid.lookup name = .ok (.list now) ∧
      (calledOnName name method e).evaluate env
        = (changeVariable name (Method.mutate method [v])).run.run mid := by
  have hargs : (evalAll [e]).run.run env = (.ok [v], mid) := by
    rw [run_evalAll_singleton, he]
  obtain ⟨object, hobject, -, hkind, hcall⟩ :=
    evaluate_named_method (Env.nameValue_of_get? hlist) rfl hmutates hargs
  obtain ⟨now, rfl⟩ : ∃ now, object = .list now := by
    cases object with
    | list now => exact ⟨now, rfl⟩
    | _ => cases hkind
  refine ⟨now, hobject, hcall.trans ?_⟩
  rw [run_changeVariable_mutate, hobject]
  rfl

end

end Expr

namespace Act

section

variable {name method text : String} {e : Expr} {items : List Value} {w : World σ}

theorem run_discard_eval (e : Expr) (w : World σ) :
    (discard (eval e.eval) : Act σ Unit).run.run w
      = ((e.evaluate w.env).1.map fun _ => (), { w with env := (e.evaluate w.env).2 }) := by
  show ((fun _ => ()) <$> eval e.eval : Act σ Unit).run.run w = _
  rw [map_eq_pure_bind, run_bind, run_eval, ← Expr.evaluate]
  rcases e.evaluate w.env with ⟨r, env⟩
  cases r <;> rfl

/-- Changing the list in a variable by the value of an operand is calling the method that makes the
    same change. -/
theorem change_agrees {change : Value → Change (List Value) Unit}
    (hparse : Expr.parse text = .ok e) (hlist : w.env.get? name = some (.list items))
    (hmutates : Method.mutates method = true)
    (hmethod : ∀ v, Method.mutateList method [v] = do change v; return .nothing) :
    ((do let v ← evalText text; changeList name method (change v)) : Act σ Unit).run.run w
      = (discard (eval (Expr.calledOnName name method e).eval) : Act σ Unit).run.run w := by
  rw [run_discard_eval, run_bind, evalText, evalText_of_parse hparse, run_eval, ← Expr.evaluate]
  rcases he : e.evaluate w.env with ⟨r, mid⟩
  cases r with
  | error fault => rw [Expr.evaluate_calledOnName_error hlist he]; rfl
  | ok v =>
    obtain ⟨now, hnow, hcall⟩ := Expr.evaluate_calledOnName hlist hmutates he
    have hsame : (Method.mutate method [v]).run.run (.list now)
        = (((change v).run.run now).1.map fun _ => .nothing,
          .list ((change v).run.run now).2) := by
      show ((Method.mutateList method [v]).within .list now) = _
      rw [hmethod, Change.within, Change.run_bind]
      rcases (change v).run.run now with ⟨r, after⟩
      cases r <;> rfl
    rw [hcall, run_changeVariable, hnow]
    dsimp only
    rw [changeList, run_eval, run_changeVariable, hnow, hsame]
    show (((change v).run.run now).1, _) = _
    cases ((change v).run.run now).1 <;> rfl

/-- **`APPEND` and `REMOVE` agree with the methods of lists.** On a variable that holds a list,
    whatever the operand does to it, the statement and the method call leave the same environment
    and end in the same fault, if any. If the variable has a name that expressions can hold, the
    text of the call, which has the operand in parentheses, is read as this call. -/
theorem listStatements_agree (h : Host σ) (hparse : Expr.parse text = .ok e)
    (hlist : w.env.get? name = some (.list items)) :
    (perform h (.listAppend name text)).run.run w
        = (discard (eval (Expr.calledOnName name "append" e).eval) : Act σ Unit).run.run w ∧
      (perform h (.listRemove name text)).run.run w
        = (discard (eval (Expr.calledOnName name "remove" e).eval) : Act σ Unit).run.run w ∧
      (Line.IsName name.toList → name ∉ Expr.reserved → ∀ method ∈ ["append", "remove"],
        Expr.parse (name ++ "." ++ method ++ "(" ++ text ++ ")")
          = .ok (Expr.calledOnName name method e)) := by
  refine ⟨?_, ?_, ?_⟩
  · exact change_agrees hparse hlist (by decide) fun v => rfl
  · exact change_agrees hparse hlist (by decide) fun v => rfl
  · intro hname hreserved method hmethod
    have hmethodName : Line.IsName method.toList := by
      rcases List.mem_pair.1 hmethod with rfl | rfl <;> decide
    exact Expr.parse_calledOnName hname hreserved hmethodName hparse

/-- Appending the item taken away puts it back; removing it afterwards removes the other one that
    equals it. -/
theorem listStatements_agree_popped :
    let w : World (Library.State Unit Unit) :=
      ⟨{ vars := ⟨[("xs", .list [.text "a", .text "b", .text "a"])]⟩
         host := { memory := () } }, #[], none⟩
    let host : Host (Library.State Unit Unit) := (Library.standard .plain).host
    let pop : Expr := .call (.field (.name "xs") "pop") []
    Expr.parse "xs.pop()" = .ok pop ∧
      (perform host (.listAppend "xs" "xs.pop()")).run.run w = (.ok (), w) ∧
      (perform host (.listRemove "xs" "xs.pop()")).run.run w
        = (.ok (), { w with env := w.env.set "xs" (.list [.text "b"]) }) ∧
      Expr.parse "xs.append(xs.pop())" = .ok (Expr.calledOnName "xs" "append" pop) := by
  intro w host pop
  have hscan : Token.scan? "xs.pop()".toList
      = some [.word "xs", .symbol .dot, .word "pop", .symbol .openParen, .symbol .closeParen] := by
    decide +kernel
  have hparse : Expr.parse "xs.pop()" = .ok pop := by
    rw [Expr.parse, hscan]
    rfl
  have hlist : w.env.get? "xs" = some (.list [.text "a", .text "b", .text "a"]) := rfl
  obtain ⟨happend, hremove, hcalled⟩ := listStatements_agree host hparse hlist
  refine ⟨hparse, happend.trans ?_, hremove.trans ?_, ?_⟩
  · rw [run_discard_eval]
    rfl
  · rw [run_discard_eval]
    rfl
  · exact hcalled (by decide) (by decide) "append" (by simp)

end

end Act

end StepScript
