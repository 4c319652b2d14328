import StepScript.Host.Library
import StepScript.Machine.Action
import StepScript.Proofs.Effects

/-!
# Statements over items

`FILTER`, `MAP` and `REDUCE` evaluate their operand once for each item of a list, with `x` bound to
the item and, in a reduction, `acc` to what the items before it make. An operand that calls no
changing method on a variable has then no effect but on these two names, and they are put back, so
that the whole statement binds its target or ends in the first fault, and leaves the rest of the
world exactly as it was.

Two facts carry this. Binding the names again undoes having bound them before (`Env.HasItem`,
`Env.HasPair`), so that each evaluation starts from the environment of the statement with the names
bound and nothing else. And taking them back leads to that environment again, whether the names
were bound before or not.
-/

set_option autoImplicit false

namespace StepScript

variable {σ : Type}

/-! ## Evaluations with names bound -/

namespace Expr

/-- The value of an expression with `x` bound to an item. -/
def valueAt (e : Expr) (env : Env σ) (item : Value) : Except Fault Value :=
  (e.evaluate (env.set "x" item)).1

/-- The value of an expression with `acc` and `x` bound. -/
def combined (e : Expr) (env : Env σ) (acc item : Value) : Except Fault Value :=
  (e.evaluate ((env.set "acc" acc).set "x" item)).1

end Expr

namespace Env

/-- The environment as it is, or with `x` bound. -/
def HasItem (env cur : Env σ) : Prop :=
  cur = env ∨ ∃ item, cur = env.set "x" item

/-- The environment as it is, or with `acc` and `x` bound. -/
def HasPair (env cur : Env σ) : Prop :=
  cur = env ∨ ∃ acc item, cur = (env.set "acc" acc).set "x" item

variable {env cur : Env σ}

theorem HasItem.set_eq (h : env.HasItem cur) (item : Value) :
    cur.set "x" item = env.set "x" item := by
  rcases h with rfl | ⟨_, rfl⟩
  · rfl
  · exact set_set env "x" _ item

theorem HasPair.set_eq (h : env.HasPair cur) (acc item : Value) :
    (cur.set "acc" acc).set "x" item = (env.set "acc" acc).set "x" item := by
  rcases h with rfl | ⟨_, _, rfl⟩
  · rfl
  · rw [set_set_set env (by decide), set_set]

theorem HasItem.pureFunctions (h : env.HasItem cur) (hpure : env.PureFunctions) :
    cur.PureFunctions := by
  rcases h with rfl | ⟨item, rfl⟩
  · exact hpure
  · exact hpure.set "x" item

theorem HasPair.pureFunctions (h : env.HasPair cur) (hpure : env.PureFunctions) :
    cur.PureFunctions := by
  rcases h with rfl | ⟨acc, item, rfl⟩
  · exact hpure
  · exact (hpure.set "acc" acc).set "x" item

theorem HasItem.restore_eq (h : env.HasItem cur) : cur.restore "x" (env.get? "x") = env := by
  rcases h with rfl | ⟨item, rfl⟩
  · exact restore_self cur "x"
  · exact restore_set env "x" item

theorem HasPair.restore_eq (h : env.HasPair cur) :
    (cur.restore "acc" (env.get? "acc")).restore "x" (env.get? "x") = env := by
  rcases h with rfl | ⟨acc, item, rfl⟩
  · rw [restore_self, restore_self]
  · rw [restore_set_set env (by decide), restore_set]

end Env

/-! ## Loops over items -/

namespace Eval

variable {e : Expr} {env cur : Env σ}

theorem run_withItem (hquiet : e.receivers = []) (hpure : env.PureFunctions) (item : Value) :
    (withItem e item).run.run env = (e.valueAt env item, env.set "x" item) :=
  e.run_eval_of_receivers hquiet (hpure.set "x" item)

/-- Every item is evaluated in the environment that the loop has started from. -/
theorem run_mapItems (hquiet : e.receivers = []) (hpure : env.PureFunctions)
    (hcur : env.HasItem cur)
    (items : List Value) :
    ∃ last, env.HasItem last ∧
      (mapItems e items).run.run cur = (items.mapM (e.valueAt env), last) := by
  induction items generalizing cur with
  | nil => exact ⟨cur, hcur, rfl⟩
  | cons item items ih =>
    have hitem : env.HasItem (env.set "x" item) := Or.inr ⟨item, rfl⟩
    have hstep : (withItem e item).run.run cur = (e.valueAt env item, env.set "x" item) := by
      rw [run_withItem hquiet (hcur.pureFunctions hpure), Expr.valueAt, hcur.set_eq, Expr.valueAt]
    obtain ⟨last, hlast, hrest⟩ := ih hitem
    rw [mapItems, run_bind, hstep, List.mapM_cons]
    cases hvalue : e.valueAt env item with
    | error fault => exact ⟨_, hitem, rfl⟩
    | ok v =>
      dsimp only
      rw [run_bind, hrest]
      refine ⟨last, hlast, ?_⟩
      cases items.mapM (e.valueAt env) <;> rfl

/-- The items that are kept, given what the predicate is for each. -/
def kept (items vs : List Value) : List Value :=
  ((items.zip vs).filter fun p => p.2.truthy).map Prod.fst

/-- Filtering is evaluating the predicate for all items, and then choosing. -/
theorem filterItems_eq (e : Expr) (items : List Value) :
    (filterItems e items : Eval σ (List Value)) = kept items <$> mapItems e items := by
  induction items with
  | nil => rfl
  | cons item items ih =>
    have hkept (v : Value) (vs : List Value) : kept (item :: items) (v :: vs)
        = if v.truthy then item :: kept items vs else kept items vs := by
      simp only [kept, List.zip_cons_cons, List.filter_cons]
      split <;> rfl
    simp only [filterItems, mapItems, ih, map_bind, bind_map_left, map_pure, hkept]

theorem run_reduceItems (hquiet : e.receivers = []) (hpure : env.PureFunctions)
    (hcur : env.HasPair cur) (acc : Value) (items : List Value) :
    ∃ last, env.HasPair last ∧
      (reduceItems e acc items).run.run cur = (items.foldlM (e.combined env) acc, last) := by
  induction items generalizing cur acc with
  | nil => exact ⟨cur, hcur, rfl⟩
  | cons item items ih =>
    have hpair : env.HasPair ((env.set "acc" acc).set "x" item) := Or.inr ⟨acc, item, rfl⟩
    have hstep : (withItem e item).run.run (cur.set "acc" acc)
        = (e.combined env acc item, (env.set "acc" acc).set "x" item) := by
      rw [run_withItem hquiet ((hcur.pureFunctions hpure).set "acc" acc), Expr.valueAt, hcur.set_eq,
        Expr.combined]
    have hbind : (reduceItems e acc (item :: items)).run.run cur
        = (withItem e item >>= fun acc => reduceItems e acc items).run.run (cur.set "acc" acc) :=
      rfl
    rw [hbind, run_bind, hstep, List.foldlM_cons]
    cases hvalue : e.combined env acc item with
    | error fault => exact ⟨_, hpair, rfl⟩
    | ok next => exact ih hpair next

/-! ## Names put back -/

theorem run_map {α β : Type} (f : α → β) (a : Eval σ α) (env : Env σ) :
    (f <$> a).run.run env = (f <$> (a.run.run env).1, (a.run.run env).2) := by
  rw [map_eq_pure_bind, run_bind]
  rcases a.run.run env with ⟨r, last⟩
  cases r <;> rfl

/-- Names that lead back to the environment before leave it as it was. -/
theorem run_restoring {α : Type} {names : List String} {a : Eval σ α} {r : Except Fault α}
    {last : Env σ} (hrun : a.run.run env = (r, last))
    (hback : names.foldl (fun after name => after.restore name (env.get? name)) last = env) :
    (restoring names a).run.run env = (r, env) := by
  show ((a.run.run env).1, names.foldl (fun after name => after.restore name (env.get? name))
    (a.run.run env).2) = _
  rw [hrun, hback]

theorem run_restoring_mapItems (hquiet : e.receivers = []) (hpure : env.PureFunctions)
    (items : List Value) :
    (restoring ["x"] (mapItems e items)).run.run env = (items.mapM (e.valueAt env), env) := by
  obtain ⟨last, hlast, hrun⟩ := run_mapItems hquiet hpure (Or.inl rfl : env.HasItem env) items
  exact run_restoring hrun hlast.restore_eq

theorem run_restoring_filterItems (hquiet : e.receivers = []) (hpure : env.PureFunctions)
    (items : List Value) :
    (restoring ["x"] (filterItems e items)).run.run env
      = (kept items <$> items.mapM (e.valueAt env), env) := by
  obtain ⟨last, hlast, hrun⟩ := run_mapItems hquiet hpure (Or.inl rfl : env.HasItem env) items
  refine run_restoring ?_ hlast.restore_eq
  rw [filterItems_eq, run_map, hrun]

theorem run_restoring_reduceItems (hquiet : e.receivers = []) (hpure : env.PureFunctions)
    (acc : Value) (items : List Value) :
    (restoring ["acc", "x"] (reduceItems e acc items)).run.run env
      = (items.foldlM (e.combined env) acc, env) := by
  obtain ⟨last, hlast, hrun⟩ :=
    run_reduceItems hquiet hpure (Or.inl rfl : env.HasPair env) acc items
  exact run_restoring hrun hlast.restore_eq

end Eval

/-! ## Statements -/

/-- The items of a variable. -/
def Env.itemsOf (env : Env σ) (name : String) : Except Fault (List Value) :=
  env.lookup name >>= Value.items

/-- A statement that comes to a value binds its target, and otherwise does nothing. -/
def World.settle (w : World σ) (target : String) :
    Except Fault Value → Except Fault Unit × World σ
  | .ok v => (.ok (), { w with env := w.env.set target v })
  | .error fault => (.error fault, w)

namespace Act

variable {text : String} {e : Expr} {w : World σ}

theorem run_itemsOf (name : String) (w : World σ) :
    (itemsOf name : Act σ (List Value)).run.run w = (w.env.itemsOf name, w) := by
  rw [itemsOf, run_bind, run_lookup, Env.itemsOf]
  cases w.env.lookup name <;> rfl

/-- An evaluation that leaves the environment alone, and its value bound to the target. -/
theorem run_eval_assign {α : Type} {a : Eval σ α} {r : Except Fault α} {w : World σ}
    (hrun : a.run.run w.env = (r, w.env)) (make : α → Value) (target : String) :
    (eval a >>= fun x => assign target (make x) : Act σ Unit).run.run w
      = w.settle target (make <$> r) := by
  rw [run_bind, run_eval, hrun]
  cases r <;> rfl

theorem run_filter (hparse : Expr.parse text = .ok e) (hquiet : e.receivers = [])
    (hpure : w.env.PureFunctions) (source target : String) :
    (filter source text target).run.run w = w.settle target (w.env.itemsOf source >>= fun items =>
      (fun vs => .list (Eval.kept items vs)) <$> items.mapM (e.valueAt w.env)) := by
  rw [filter, run_bind, run_itemsOf]
  cases w.env.itemsOf source with
  | error fault => rfl
  | ok items =>
    have hrun := run_eval_assign (Eval.run_restoring_filterItems hquiet hpure items) .list target
    rw [Functor.map_map] at hrun
    dsimp only
    rw [run_bind, parse, hparse, run_lift]
    exact hrun

theorem run_map (hparse : Expr.parse text = .ok e) (hquiet : e.receivers = [])
    (hpure : w.env.PureFunctions) (source target : String) :
    (map source text target).run.run w = w.settle target (w.env.itemsOf source >>= fun items =>
      .list <$> items.mapM (e.valueAt w.env)) := by
  rw [map, run_bind, run_itemsOf]
  cases w.env.itemsOf source with
  | error fault => rfl
  | ok items =>
    dsimp only
    rw [run_bind, parse, hparse, run_lift]
    exact run_eval_assign (Eval.run_restoring_mapItems hquiet hpure items) .list target

theorem run_reduce (hparse : Expr.parse text = .ok e) (hquiet : e.receivers = [])
    (hpure : w.env.PureFunctions) (source target : String) :
    (reduce source text target).run.run w
      = w.settle target (w.env.itemsOf source >>= fun
        | [] => .error (.type .emptyReduction)
        | first :: items => items.foldlM (e.combined w.env) first) := by
  rw [reduce, run_bind, run_itemsOf]
  cases w.env.itemsOf source with
  | error fault => rfl
  | ok items =>
    cases items with
    | nil => rfl
    | cons first items =>
      have hrun :=
        run_eval_assign (Eval.run_restoring_reduceItems hquiet hpure first items) id target
      rw [id_map] at hrun
      dsimp only
      rw [run_bind, parse, hparse, run_lift]
      exact hrun

end Act

/-! ## Values of all items, and the first fault -/

section

variable {value : Value → Except Fault Value} {combine : Value → Value → Except Fault Value}

theorem map_mapM_of_forall {items : List Value} {f : Value → Value}
    (h : ∀ item ∈ items, value item = .ok (f item)) (make : List Value → Value) :
    make <$> items.mapM value = .ok (make (items.map f)) := by
  have hvalues : items.mapM value = .ok (items.map f) := by
    induction items with
    | nil => rfl
    | cons item items ih =>
      rw [List.forall_mem_cons] at h
      rw [List.mapM_cons, h.1, ih h.2]
      rfl
  rw [hvalues]
  rfl

theorem map_mapM_of_first_fault {before after : List Value} {item : Value} {fault : Fault}
    (hbefore : ∀ i ∈ before, ∃ v, value i = .ok v) (hitem : value item = .error fault)
    (make : List Value → Value) :
    make <$> (before ++ item :: after).mapM value = .error fault := by
  have hfault : (before ++ item :: after).mapM value = .error fault := by
    induction before with
    | nil =>
      rw [List.nil_append, List.mapM_cons, hitem]
      rfl
    | cons i before ih =>
      obtain ⟨⟨v, hv⟩, hbefore⟩ := List.forall_mem_cons.1 hbefore
      rw [List.cons_append, List.mapM_cons, hv, ih hbefore]
      rfl
  rw [hfault]
  rfl

theorem kept_map (items : List Value) (f : Value → Value) :
    Eval.kept items (items.map f) = items.filter fun item => (f item).truthy := by
  induction items with
  | nil => rfl
  | cons item items ih =>
    simp only [Eval.kept, List.map_cons, List.zip_cons_cons, List.filter_cons] at ih ⊢
    split <;> simp [ih]

/-- Each item, combined with what those before it make, has the value of a function. -/
def Combines (combine : Value → Value → Except Fault Value) (f : Value → Value → Value)
    (first : Value) (items : List Value) : Prop :=
  ∀ before item after, items = before ++ item :: after →
    combine (before.foldl f first) item = .ok (f (before.foldl f first) item)

theorem foldlM_of_combines {f : Value → Value → Value} {first : Value} {items : List Value}
    (h : Combines combine f first items) :
    items.foldlM combine first = .ok (items.foldl f first) := by
  induction items generalizing first with
  | nil => rfl
  | cons item items ih =>
    have hfirst : combine first item = .ok (f first item) := h [] item items rfl
    rw [List.foldlM_cons, hfirst]
    refine ih fun before i after hsplit => ?_
    exact h (item :: before) i after (by rw [hsplit, List.cons_append])

theorem foldlM_of_first_fault {f : Value → Value → Value} {first item : Value}
    {before after : List Value} {fault : Fault} (hbefore : Combines combine f first before)
    (hitem : combine (before.foldl f first) item = .error fault) :
    (before ++ item :: after).foldlM combine first = .error fault := by
  rw [List.foldlM_append, foldlM_of_combines hbefore]
  show (item :: after).foldlM combine (before.foldl f first) = .error fault
  rw [List.foldlM_cons, hitem]
  rfl

end

/-! ## All together -/

theorem World.get?_settle (w : World σ) {target y : String} (hne : y ≠ target)
    (r : Except Fault Value) : (w.settle target r).2.env.get? y = w.env.get? y := by
  cases r with
  | error fault => rfl
  | ok v =>
    show (w.env.set target v).get? y = _
    rw [Env.get?_set, if_neg (Ne.symm hne)]

namespace Act

/-- **Statements over items compute the list functions and leave no trace.** Let the operand call no
    changing method on a variable, and let the functions in reach be pure. If the operand has a
    value for every item, then the target is bound to the items of truthy values, to the values, or
    to the items folded from the left starting with the first one. The first fault, of the source or
    of the operand, is the fault of the statement, which then has done nothing, and so is a
    reduction of no items. No variable but the target changes, be it one of the names that are bound
    in between. -/
theorem perform_items_without_trace (h : Host σ) (w : World σ) (source target : String)
    {text : String} {e : Expr} (hparse : Expr.parse text = .ok e) (hquiet : e.receivers = [])
    (hpure : w.env.PureFunctions) :
    let filtered := (perform h (.filter source text target)).run.run w
    let mapped := (perform h (.map source text target)).run.run w
    let reduced := (perform h (.reduce source text target)).run.run w
    (∀ items, w.env.itemsOf source = .ok items →
      (∀ f, (∀ item ∈ items, e.valueAt w.env item = .ok (f item)) →
        filtered = w.settle target (.ok (.list (items.filter fun item => (f item).truthy))) ∧
        mapped = w.settle target (.ok (.list (items.map f)))) ∧
      (∀ before item after fault, items = before ++ item :: after →
        (∀ i ∈ before, ∃ v, e.valueAt w.env i = .ok v) → e.valueAt w.env item = .error fault →
        filtered = w.settle target (.error fault) ∧ mapped = w.settle target (.error fault)) ∧
      (items = [] → reduced = w.settle target (.error (.type .emptyReduction))) ∧
      (∀ first rest f, items = first :: rest → Combines (e.combined w.env) f first rest →
        reduced = w.settle target (.ok (rest.foldl f first))) ∧
      (∀ first before item after f fault, items = first :: (before ++ item :: after) →
        Combines (e.combined w.env) f first before →
        e.combined w.env (before.foldl f first) item = .error fault →
        reduced = w.settle target (.error fault))) ∧
    (∀ fault, w.env.itemsOf source = .error fault →
      filtered = w.settle target (.error fault) ∧ mapped = w.settle target (.error fault) ∧
        reduced = w.settle target (.error fault)) ∧
    ∀ y, y ≠ target →
      filtered.2.env.get? y = w.env.get? y ∧ mapped.2.env.get? y = w.env.get? y ∧
        reduced.2.env.get? y = w.env.get? y := by
  have hfilter := run_filter hparse hquiet hpure source target
  have hmap := run_map hparse hquiet hpure source target
  have hreduce := run_reduce hparse hquiet hpure source target
  refine ⟨?_, ?_, ?_⟩
  · intro items hitems
    rw [hitems] at hfilter hmap hreduce
    refine ⟨?_, ?_, ?_, ?_, ?_⟩
    · intro f hf
      have hkept : .list (items.filter fun item => (f item).truthy)
          = Value.list (Eval.kept items (items.map f)) := by rw [kept_map]
      rw [hkept]
      exact ⟨hfilter.trans (congrArg (w.settle target) (map_mapM_of_forall hf _)),
        hmap.trans (congrArg (w.settle target) (map_mapM_of_forall hf _))⟩
    · rintro before item after fault rfl hbefore hitem
      exact ⟨hfilter.trans (congrArg (w.settle target) (map_mapM_of_first_fault hbefore hitem _)),
        hmap.trans (congrArg (w.settle target) (map_mapM_of_first_fault hbefore hitem _))⟩
    · rintro rfl
      exact hreduce
    · rintro first rest f rfl hcombines
      exact hreduce.trans (congrArg (w.settle target) (foldlM_of_combines hcombines))
    · rintro first before item after f fault rfl hcombines hitem
      exact hreduce.trans (congrArg (w.settle target) (foldlM_of_first_fault hcombines hitem))
  · intro fault hfault
    rw [hfault] at hfilter hmap hreduce
    exact ⟨hfilter, hmap, hreduce⟩
  · intro y hne
    have hkept {s : Except Fault Unit × World σ} {r : Except Fault Value}
        (hs : s = w.settle target r) : s.2.env.get? y = w.env.get? y :=
      hs ▸ w.get?_settle hne r
    exact ⟨hkept hfilter, hkept hmap, hkept hreduce⟩

/-- The operand of the statements below. -/
private theorem parse_accPlusItem : Expr.parse "acc + x"
    = .ok (.binary .add (.name "acc") (.name "x")) := by
  have hscan : Token.scan? "acc + x".toList = some [.word "acc", .symbol .plus, .word "x"] := by
    decide +kernel
  rw [Expr.parse, hscan]
  rfl

/-- `REDUCE x WITH acc + x → y`, where `x` is the list itself and `acc` is not bound: the sum is
    bound, `x` is the list again and `acc` not bound; `MAP x BY acc + x → y` has no `acc` for the
    first item, and does nothing. -/
theorem perform_items_without_trace_sum :
    let env : Env (Library.State Unit Unit) :=
      { vars := ⟨[("x", .list [.int 1, .int 2, .int 3])]⟩
        objects := ⟨[("nothing", .function (.pure fun _ => .ok .nothing))]⟩
        host := { memory := () } }
    let w : World (Library.State Unit Unit) := ⟨env, #[], none⟩
    let h := Library.host (Library.standard .plain)
    env.PureFunctions ∧
      (perform h (.reduce "x" "acc + x" "y")).run.run w = w.settle "y" (.ok (.int 6)) ∧
      ((perform h (.reduce "x" "acc + x" "y")).run.run w).2.env.get? "x" = env.get? "x" ∧
      ((perform h (.reduce "x" "acc + x" "y")).run.run w).2.env.get? "acc" = none ∧
      (perform h (.map "x" "acc + x" "y")).run.run w = (.error (.undefined "acc"), w) := by
  intro env w h
  have hpure : env.PureFunctions := by
    refine ⟨fun hobject => ?_, fun hfunction => ?_⟩
    · cases List.mem_singleton.1 (Table.mem_of_find? hobject)
      exact ⟨_, rfl⟩
    · unfold Env.moduleFunction? at hfunction
      split at hfunction <;> cases hfunction
  obtain ⟨hitems, -, hkept⟩ :=
    perform_items_without_trace h w "x" "y" parse_accPlusItem rfl hpure
  obtain ⟨-, hfault, -, hvalue, -⟩ := hitems _ rfl
  let add (acc item : Value) : Value := (Value.binary .add acc item).toOption.getD .nothing
  have hcombines : Combines ((Expr.binary .add (.name "acc") (.name "x")).combined env) add (.int 1)
      [.int 2, .int 3] := by
    intro before item after hsplit
    rcases before with _ | ⟨b, _ | ⟨b', before⟩⟩
    · obtain ⟨rfl, rfl⟩ : .int 2 = item ∧ [.int 3] = after := by simpa using hsplit
      rfl
    · obtain ⟨rfl, rfl, rfl⟩ : .int 2 = b ∧ .int 3 = item ∧ [] = after := by simpa using hsplit
      rfl
    · simp at hsplit
  refine ⟨hpure, hvalue (.int 1) [.int 2, .int 3] add rfl hcombines, (hkept "x" (by decide)).2.2,
    (hkept "acc" (by decide)).2.2, ?_⟩
  exact (hfault [] (.int 1) [.int 2, .int 3] (.undefined "acc") rfl (by simp) rfl).2

end Act

end StepScript
