import StepScript.Proofs.Atomicity
import StepScript.Proofs.Moves
import StepScript.Proofs.Places

/-!
# Assignments that combine

`t op= e` evaluates `e`, reads the place `t` as an expression, and then assigns the combined value
to `t`, which finds the place once more. So every index of `t` is evaluated twice, and the second
time it meets what the first time has left behind. Indices that call no changing method on a
variable, and pure functions only, come to the same both times, and then one slot is read and
overwritten (`Act.raw_reads_then_stores`); others need not, and then the combined value may land in
another slot than the one it was made from (`Act.raw_stores_elsewhere`).
-/

set_option autoImplicit false

namespace StepScript

variable {σ : Type}

namespace Act

/-! ## How it goes -/

theorem run_eval_ok {α : Type} {e : Eval σ α} {x : α} {w w' : World σ}
    (hrun : (eval e : Act σ α).run.run w = (.ok x, w')) :
    e.run.run w.env = (.ok x, w'.env) ∧ w' = { w with env := w'.env } := by
  rw [run_eval, Prod.mk.injEq] at hrun
  obtain ⟨hx, rfl⟩ := hrun
  exact ⟨Prod.ext hx rfl, rfl⟩

/-- The steps of an assignment that combines, when it ends well. -/
theorem run_store_ok {place : Expr} {op : BinaryOp} {expr : String} {w w' : World σ}
    (hrun : (store place (some op) expr : Act σ Unit).run.run w = (.ok (), w')) :
    ∃ e v old new env₁ env₂, Expr.parse expr = .ok e ∧ e.evaluate w.env = (.ok v, env₁) ∧
      place.evaluate env₁ = (.ok old, env₂) ∧ Value.binary op old v = .ok new ∧
      (place.assign new).run.run env₂ = (.ok (), w'.env) ∧ w' = { w with env := w'.env } := by
  obtain ⟨v, w₁, hv, hrun⟩ := run_bind_ok hrun
  obtain ⟨old, w₂, hold, hrun⟩ := run_bind_ok hrun
  obtain ⟨new, hnew, hrun⟩ := run_lift_ok hrun
  obtain ⟨hv, hw₁⟩ := run_eval_ok hv
  obtain ⟨hold, hw₂⟩ := run_eval_ok hold
  obtain ⟨hassign, hw'⟩ := run_eval_ok hrun
  obtain ⟨e, env, he, hv⟩ := Eval.run_bind_ok hv
  rw [Eval.run_lift, Prod.mk.injEq] at he
  obtain ⟨he, rfl⟩ := he
  refine ⟨e, v, old, new, w₁.env, w₂.env, he, hv, hold, hnew, hassign, ?_⟩
  rw [hw', hw₂, hw₁]

/-! ## Which slot is meant -/

/-- **An assignment that combines** evaluates its expression, reads the place as it is then, and
    looks for the place again to store the combined value: each of the three meets what the one
    before has left. If the indices of the place call no changing method on a variable and the
    functions in reach are pure, then both times they lead to one slot, which held the old value
    and holds the combined one, and nothing else is different from what evaluating the expression
    has left. -/
theorem raw_reads_then_stores {text : String} {place : Expr} {a : Assignment} {op : BinaryOp}
    {w w' : World σ} (htext : assignment? text = some (place, a)) (hop : a.op = some op)
    (hrun : (raw text).run.run w = (.ok (), w')) :
    ∃ e v old new env₁ env₂ env₃ p,
      Expr.parse a.expr = .ok e ∧ e.evaluate w.env = (.ok v, env₁) ∧
        place.evaluate env₁ = (.ok old, env₂) ∧ place.place.run.run env₂ = (.ok p, env₃) ∧
        Value.binary op old v = .ok new ∧ p.store new env₃ = .ok w'.env ∧
        w' = { w with env := w'.env } ∧
      ((∀ i ∈ place.indices, i.receivers = []) → w.env.PureFunctions →
        env₂ = env₁ ∧ env₃ = env₁ ∧ env₁.partOf p = .ok old ∧ w'.env.partOf p = .ok new ∧
          ((∀ a ∈ p.path, a.IsSound) → p.KeepsRest env₁ w'.env)) := by
  have hraw : (raw text : Act σ Unit) = store place (some op) a.expr := by
    rw [raw, htext, ← hop]
  rw [hraw] at hrun
  obtain ⟨e, v, old, new, env₁, env₂, he, hv, hold, hnew, hassign, hw'⟩ := run_store_ok hrun
  obtain ⟨p, env₃, hp, hstored⟩ := Expr.run_assign_eq_ok_iff.1 hassign
  refine ⟨e, v, old, new, env₁, env₂, env₃, p, he, hv, hold, hp, hnew,
    Place.store_eq_ok_iff.2 hstored, hw', fun hquiet hpure => ?_⟩
  obtain ⟨root, path⟩ := p
  have hroot : place.root? = some root := Expr.root?_of_run_place hp
  have hpure₁ : env₁.PureFunctions := hpure.evolves (e.changes_eval.of_run hv)
  -- reading has no effect, so that the place is looked for where it was read
  obtain rfl : env₁ = env₂ := by
    have heval := Expr.run_eval_of_receivers (Expr.receivers_eq_nil hroot hquiet) hpure₁
    exact congrArg Prod.snd (heval.symm.trans hold)
  obtain ⟨_, hpath, ⟨⟩, rfl⟩ := Expr.pathIn_of_run_place hroot hquiet hpure₁ hp
  have hread : env₃.partOf ⟨root, path⟩ = .ok old := by
    have heval := Expr.evaluate_of_pathIn hroot hquiet hpure₁ hpath
    rw [hold] at heval
    exact (congrArg Prod.fst heval).symm
  exact ⟨rfl, rfl, hread, hstored.partOf_eq (Or.inr ⟨old, hread⟩), hstored.keepsRest⟩

theorem assignment?_of_parse {text : String} {a : Assignment} {place : Expr}
    (htext : Assignment.ofText? text = some a) (hparse : Expr.parse a.target = .ok place)
    (hplace : place.isPlace = true) : assignment? text = some (place, a) := by
  simp only [assignment?, htext, hparse, hplace, if_true]

private theorem assignment?_addPopped : assignment? "xs[i] += ys.pop()"
    = some (.index (.name "xs") (.name "i"), ⟨"xs[i]", some .add, "ys.pop()"⟩) := by
  refine assignment?_of_parse (by decide +kernel) ?_ rfl
  have hscan : Token.scan? "xs[i]".toList
      = some [.word "xs", .symbol .openBracket, .word "i", .symbol .closeBracket] := by
    decide +kernel
  rw [Expr.parse, hscan]
  rfl

private theorem parse_popped : Expr.parse "ys.pop()"
    = .ok (.call (.field (.name "ys") "pop") []) := by
  have hscan : Token.scan? "ys.pop()".toList
      = some [.word "ys", .symbol .dot, .word "pop", .symbol .openParen, .symbol .closeParen] := by
    decide +kernel
  rw [Expr.parse, hscan]
  rfl

/-- `xs[i] += ys.pop()` adds to the last item of `xs` what was the last item of `ys`, and does
    nothing besides taking that one away. -/
theorem raw_reads_then_stores_lastItem :
    let env : Env Unit :=
      { vars := ⟨[("xs", .list [.int 10, .int 20]), ("ys", .list [.int 5]), ("i", .int (-1))]⟩
        host := () }
    let w : World Unit := ⟨env, #[], none⟩
    ∃ w', (raw "xs[i] += ys.pop()").run.run w = (.ok (), w') ∧
      ∃ env₁ p, env₁.get? "ys" = some (.list []) ∧ env₁.partOf p = .ok (.int 20) ∧
        w'.env.partOf p = .ok (.int 25) ∧ p.KeepsRest env₁ w'.env := by
  intro env w
  have hraw : (raw "xs[i] += ys.pop()" : Act Unit Unit)
      = store (.index (.name "xs") (.name "i")) (some .add) "ys.pop()" := by
    rw [raw, assignment?_addPopped]
  obtain ⟨w', hrun⟩ : ∃ w', (raw "xs[i] += ys.pop()").run.run w = (.ok (), w') := by
    rw [hraw]
    simp only [store, evalText, StepScript.evalText, parse_popped]
    exact ⟨_, rfl⟩
  obtain ⟨e, v, old, new, env₁, env₂, env₃, p, he, hv, hold, hp, hnew, -, -, hslot⟩ :=
    raw_reads_then_stores assignment?_addPopped rfl hrun
  obtain ⟨rfl, rfl, hread, hstored, hkeeps⟩ :=
    hslot (by decide) (Env.pureFunctions_of_empty rfl rfl)
  cases parse_popped.symm.trans he
  cases hv
  cases hold
  cases hp
  cases hnew
  exact ⟨w', hrun, _, _, rfl, hread, hstored, hkeeps (by decide)⟩

private theorem assignment?_popIndex : assignment? "xs[ys.pop()] += 1"
    = some (.index (.name "xs") (.call (.field (.name "ys") "pop") []),
        ⟨"xs[ys.pop()]", some .add, "1"⟩) := by
  refine assignment?_of_parse (by decide +kernel) ?_ rfl
  have hscan : Token.scan? "xs[ys.pop()]".toList
      = some [.word "xs", .symbol .openBracket, .word "ys", .symbol .dot, .word "pop",
        .symbol .openParen, .symbol .closeParen, .symbol .closeBracket] := by
    decide +kernel
  rw [Expr.parse, hscan]
  rfl

private theorem parse_one : Expr.parse "1" = .ok (.literal (.int 1)) := by
  have hscan : Token.scan? "1".toList = some [.int 1] := by decide +kernel
  rw [Expr.parse, hscan]
  rfl

/-- In `xs[ys.pop()] += 1` the place is read under one index and stored under another: the item `30`
    makes the value that overwrites the item `10`, and no item holds its own value increased. -/
theorem raw_stores_elsewhere :
    let xs : List Value := [.int 10, .int 20, .int 30]
    let env : Env Unit :=
      { vars := ⟨[("xs", .list xs), ("ys", .list [.int 0, .int 2])]⟩, host := () }
    let w : World Unit := ⟨env, #[], none⟩
    ∃ w', (raw "xs[ys.pop()] += 1").run.run w = (.ok (), w') ∧
      w'.env.get? "xs" = some (.list [.int 31, .int 20, .int 30]) ∧
      w'.env.get? "ys" = some (.list []) ∧
      ¬ ∃ i old new, xs[i]? = some old ∧ Value.binary .add old (.int 1) = .ok new ∧
        w'.env.get? "xs" = some (.list (xs.set i new)) := by
  intro xs env w
  have hraw : (raw "xs[ys.pop()] += 1" : Act Unit Unit)
      = store (.index (.name "xs") (.call (.field (.name "ys") "pop") [])) (some .add) "1" := by
    rw [raw, assignment?_popIndex]
  obtain ⟨w', hrun, hxs, hys⟩ : ∃ w', (raw "xs[ys.pop()] += 1").run.run w = (.ok (), w') ∧
      w'.env.get? "xs" = some (.list [.int 31, .int 20, .int 30]) ∧
      w'.env.get? "ys" = some (.list []) := by
    rw [hraw]
    simp only [store, evalText, StepScript.evalText, parse_one]
    exact ⟨_, rfl, rfl, rfl⟩
  refine ⟨w', hrun, hxs, hys, ?_⟩
  rintro ⟨i, old, new, hold, hnew, hset⟩
  rw [hxs, Option.some.injEq, Value.list.injEq] at hset
  match i with
  | 0 =>
    -- the first item would be its own value increased
    cases hold
    cases hnew
    exact absurd (Value.int.inj (List.cons.inj hset).1) (by decide)
  | i + 1 =>
    -- the first item would not have changed
    exact absurd (Value.int.inj (List.cons.inj hset).1) (by decide)

end Act

end StepScript
