import StepScript.Host.Library
import StepScript.Proofs.Effects
import StepScript.Proofs.FaultLayers
import StepScript.Proofs.Threading

/-!
# Statements that end in a fault

A statement that ends in a fault has done nothing that a program could see, apart from what its
operands did while they were evaluated: no line is printed, no model is loaded, no block is entered
or left, and no variable is bound, changed or unbound, the receivers of changing methods in the
operands excepted. `execute_keeps_on_fault` says this for every statement.

The argument is the same for all statements. First come evaluations and requests, after each of
which the statement may end in a fault, and which bind nothing (`Keeps`); then come bindings, after
which it cannot (`Total`). A computation of this shape is `Atomic`.
-/

set_option autoImplicit false

namespace StepScript

variable {σ α β : Type}

/-! ## Environments and worlds up to some variables -/

/-- The same bindings, apart from some variables. -/
def Env.SameUpTo (changed : List String) (env after : Env σ) : Prop :=
  ∀ x, x ∉ changed → after.get? x = env.get? x

/-- The same printed lines, the same model and, apart from some variables, the same bindings. -/
structure World.SameUpTo (changed : List String) (w after : World σ) : Prop where
  output : after.output = w.output
  lastModel : after.lastModel = w.lastModel
  bindings : w.env.SameUpTo changed after.env

section

variable {changed more : List String}

instance : Std.Refl (Env.SameUpTo (σ := σ) changed) :=
  ⟨fun _ _ _ => rfl⟩

instance : Trans (Env.SameUpTo (σ := σ) changed) (Env.SameUpTo (σ := σ) changed)
    (Env.SameUpTo (σ := σ) changed) :=
  ⟨fun h₁ h₂ x hx => (h₂ x hx).trans (h₁ x hx)⟩

instance : Std.Refl (World.SameUpTo (σ := σ) changed) :=
  ⟨fun w => ⟨rfl, rfl, Std.Refl.refl w.env⟩⟩

instance : Trans (World.SameUpTo (σ := σ) changed) (World.SameUpTo changed)
    (World.SameUpTo changed) :=
  ⟨fun h₁ h₂ => ⟨h₂.output.trans h₁.output, h₂.lastModel.trans h₁.lastModel,
    Trans.trans h₁.bindings h₂.bindings⟩⟩

theorem Env.Evolves.sameUpTo {env after : Env σ} (h : env.Evolves changed after)
    (hsub : changed ⊆ more) : env.SameUpTo more after :=
  fun _ hx => h.get?_eq fun hmem => hx (hsub hmem)

end

/-! ## Operands -/

/-- The receivers of changing methods in a text that is read as an expression. -/
def receiversOf (text : String) : List String :=
  match Expr.parse text with
  | .ok e => e.receivers
  | .error _ => []

namespace Statement

/-- The texts of a statement that are read as expressions when it runs. -/
def operands : Statement → List String
  | .assign target expr => [expr, target]
  | .forRange _ start stop => [start, stop]
  | .forEach _ iterable => [iterable]
  | .whileLoop cond | .ifThen cond => [cond]
  | .returnValue expr => [expr]
  | .print operands => ["[" ++ operands ++ "]"]
  | .listCreate _ expr | .dictCreate _ expr | .getValue expr _ => [expr]
  | .listAppend _ expr | .listRemove _ expr => [expr]
  | .filter _ predicate _ => [predicate]
  | .map _ transform _ => [transform]
  | .reduce _ combine _ => [combine]
  | .call _ args _ | .create _ _ args => args
  | .predict input _ => [input]
  | .train _ data => [data]
  | .raw text =>
    match Act.assignment? text with
    | some (_, a) => [a.target, a.expr]
    | none => [text]
  | _ => []

/-- The variables that are receivers of changing methods in the operands of a statement. -/
def receivers (s : Statement) : List String :=
  s.operands.flatMap receiversOf

theorem receiversOf_subset {s : Statement} {text : String} (htext : text ∈ s.operands) :
    receiversOf text ⊆ s.receivers :=
  fun _ hx => List.mem_flatMap.2 ⟨text, htext, hx⟩

end Statement

theorem receiversOf_of_parse {text : String} {e : Expr} (hparse : Expr.parse text = .ok e) :
    receiversOf text = e.receivers := by
  simp only [receiversOf, hparse]

/-! ## Evaluations -/

namespace Eval

variable {changed : List String}

theorem Changes.keeps {e : Eval σ α} {own : List String} (he : Changes own e)
    (hsub : own ⊆ changed) : Keeps (Env.SameUpTo changed) e :=
  Keeps.imp he fun h => h.sameUpTo hsub

/-- Names that are put back are as they were, and others as they are. -/
theorem get?_restored (env : Env σ) (names : List String) (after : Env σ) (x : String) :
    (names.foldl (fun after name => after.restore name (env.get? name)) after).get? x
      = if x ∈ names then env.get? x else after.get? x := by
  induction names generalizing after with
  | nil => simp
  | cons name names ih =>
    rw [List.foldl_cons, ih]
    by_cases hname : name = x
    · subst hname
      cases hget : env.get? name <;> simp [Env.restore, Env.get?_set, Env.get?_unset]
    · cases hget : env.get? name <;>
        simp [Env.restore, Env.get?_set, Env.get?_unset, hname, Ne.symm hname]

/-- Names that are put back may be changed in between. -/
theorem keeps_restoring {names : List String} {e : Eval σ α}
    (he : Keeps (Env.SameUpTo (names ++ changed)) e) :
    Keeps (Env.SameUpTo changed) (restoring names e) := by
  intro env x hx
  show (names.foldl (fun after name => after.restore name (env.get? name))
    (e.run.run env).2).get? x = env.get? x
  rw [get?_restored]
  split
  · rfl
  · next hname => exact he env x (by simp [hname, hx])

theorem keeps_bindName {name : String} (hname : name ∈ changed) (v : Value) :
    Keeps (Env.SameUpTo changed) (modify (·.set name v) : Eval σ PUnit) := by
  intro env x hx
  show (env.set name v).get? x = env.get? x
  rw [Env.get?_set, if_neg (by rintro rfl; exact hx hname)]

theorem keeps_withItem {e : Expr} (hsub : e.receivers ⊆ changed) (hitem : "x" ∈ changed)
    (item : Value) : Keeps (Env.SameUpTo changed) (withItem e item : Eval σ Value) :=
  Keeps.bind (keeps_bindName hitem item) fun _ => (e.changes_eval).keeps hsub

/-! What is kept for one item is kept for all of them. -/

section

variable {R : Env σ → Env σ → Prop} [Std.Refl R] [Trans R R R] {e : Expr}
  (hitem : ∀ item, Keeps R (withItem e item))

include hitem

theorem keeps_filterItems (items : List Value) : Keeps R (filterItems e items) := by
  induction items with
  | nil => exact keeps_pure _
  | cons item items ih =>
    exact Keeps.bind (hitem item) fun keep => Keeps.bind ih fun kept => keeps_pure _

theorem keeps_mapItems (items : List Value) : Keeps R (mapItems e items) := by
  induction items with
  | nil => exact keeps_pure _
  | cons item items ih =>
    exact Keeps.bind (hitem item) fun v => Keeps.bind ih fun vs => keeps_pure _

theorem keeps_reduceItems (hacc : ∀ acc, Keeps R (modify (·.set "acc" acc) : Eval σ PUnit))
    (acc : Value) (items : List Value) : Keeps R (reduceItems e acc items) := by
  induction items generalizing acc with
  | nil => exact keeps_pure _
  | cons item items ih =>
    exact Keeps.bind (hacc acc) fun _ => Keeps.bind (hitem item) fun acc => ih acc

end

end Eval

namespace Expr

theorem changes_place (e : Expr) :
    Eval.Changes e.receivers (e.place : Eval σ Place) := by
  fun_induction place e with
  | case1 n => exact keeps_pure _
  | case2 c i ih =>
    refine Keeps.bind (i.changes_eval.mono (List.subset_append_right _ _)) fun key => ?_
    exact Keeps.bind (Eval.Changes.mono ih (List.subset_append_left _ _)) fun p => keeps_pure _
  | case3 c member ih => exact Keeps.bind ih fun p => keeps_pure _
  | case4 => exact Eval.changes_lift _

/-- The value is stored after everything that may end in a fault. -/
theorem atomic_assign {changed : List String} (e : Expr) (v : Value)
    (hsub : e.receivers ⊆ changed) :
    Atomic (Env.SameUpTo changed) (e.assign v : Eval σ Unit) := by
  refine Atomic.bind (e.changes_place.keeps hsub) fun p => Atomic.bind keeps_get fun env => ?_
  exact Atomic.bind ((Eval.changes_lift _).keeps hsub) fun env => (total_set env).atomic

end Expr

/-! ## Actions -/

namespace Act

variable {changed : List String}

theorem keeps_lift {R : World σ → World σ → Prop} [Std.Refl R] (r : Except Fault α) :
    Keeps R (lift r : Act σ α) :=
  fun w => Std.Refl.refl w

theorem keeps_eval {e : Eval σ α} (he : Keeps (Env.SameUpTo changed) e) :
    Keeps (World.SameUpTo changed) (eval e : Act σ α) :=
  fun w => ⟨rfl, rfl, he w.env⟩

theorem atomic_eval {e : Eval σ α} (he : Atomic (Env.SameUpTo changed) e) :
    Atomic (World.SameUpTo changed) (eval e : Act σ α) := by
  intro w fault w' hrun
  rw [run_eval, Prod.mk.injEq] at hrun
  obtain ⟨hfault, rfl⟩ := hrun
  exact ⟨rfl, rfl, he w.env fault _ (Prod.ext hfault rfl)⟩

/-- A text read as an expression, and what is done with it. -/
theorem atomic_bind_parse {text : String} {f : Expr → Act σ β} (hsub : receiversOf text ⊆ changed)
    (hf : ∀ e : Expr, e.receivers ⊆ changed → Atomic (World.SameUpTo changed) (f e)) :
    Atomic (World.SameUpTo changed) (parse text >>= f) := by
  cases hparse : Expr.parse text with
  | ok e =>
    have hparsed : (parse text >>= f) = f e := by
      unfold parse
      rw [hparse]
      rfl
    rw [hparsed]
    exact hf e (receiversOf_of_parse hparse ▸ hsub)
  | error fault =>
    intro w cause w' hrun
    rw [run_bind, parse, run_lift, hparse] at hrun
    cases hrun
    exact Std.Refl.refl w

theorem keeps_evalText {text : String} (hsub : receiversOf text ⊆ changed) :
    Keeps (World.SameUpTo changed) (evalText text : Act σ Value) := by
  refine keeps_eval ?_
  cases hparse : Expr.parse text with
  | ok e =>
    have hparsed : StepScript.evalText text = (e.eval : Eval σ Value) := by
      unfold StepScript.evalText
      rw [hparse]
      rfl
    rw [hparsed]
    exact e.changes_eval.keeps (receiversOf_of_parse hparse ▸ hsub)
  | error fault =>
    have hparsed : StepScript.evalText text = (Eval.lift (.error fault) : Eval σ Value) := by
      unfold StepScript.evalText
      rw [hparse]
      rfl
    rw [hparsed]
    exact Eval.Changes.keeps (Eval.changes_lift _) (List.nil_subset _)

/-- A call leaves the variables alone. -/
theorem keeps_call (f : Env σ → Except Fault α × σ) :
    Keeps (World.SameUpTo changed) (eval (Eval.call f) : Act σ α) :=
  fun _ => ⟨rfl, rfl, fun _ _ => rfl⟩

theorem keeps_consult (request : σ → α × σ) :
    Keeps (World.SameUpTo changed) (consult request : Act σ α) :=
  fun _ => ⟨rfl, rfl, fun _ _ => rfl⟩

theorem keeps_ask (request : σ → Except HostFault α × σ) :
    Keeps (World.SameUpTo changed) (ask request : Act σ α) :=
  Keeps.bind (keeps_consult request) fun _ => keeps_lift _

theorem keeps_lookup {R : World σ → World σ → Prop} [Std.Refl R] [Trans R R R] (name : String) :
    Keeps R (lookup name : Act σ Value) :=
  Keeps.bind keeps_get fun _ => keeps_lift _

theorem keeps_itemsOf {R : World σ → World σ → Prop} [Std.Refl R] [Trans R R R] (name : String) :
    Keeps R (itemsOf name : Act σ (List Value)) :=
  Keeps.bind (keeps_lookup name) fun _ => keeps_lift _

theorem total_assign (name : String) (v : Value) : Total (assign name v : Act σ Unit) :=
  total_modify _

theorem total_emit (line : String) : Total (emit line : Act σ Unit) :=
  total_modify _

/-- Remembering a function binds no variable. -/
theorem keeps_resolve (h : Host σ) (name : String) :
    Keeps (World.SameUpTo changed) (resolve h name) := by
  refine Keeps.bind keeps_get fun w => ?_
  split
  · exact keeps_pure _
  · refine Keeps.bind (keeps_consult _) fun object => ?_
    split
    · exact Keeps.bind (fun w => ⟨rfl, rfl, fun _ _ => rfl⟩) fun _ => keeps_pure _
    · exact keeps_pure _

theorem keeps_arguments {args : List String} (hsub : ∀ arg ∈ args, receiversOf arg ⊆ changed) :
    Keeps (World.SameUpTo changed) (arguments args : Act σ (List Value)) := by
  induction args with
  | nil => exact keeps_pure _
  | cons arg args ih =>
    rw [List.forall_mem_cons] at hsub
    refine Keeps.bind (keeps_evalText hsub.1) fun v => ?_
    exact Keeps.bind (ih hsub.2) fun vs => keeps_pure _

/-! ## Plain statements -/

/-- The placeholders of a statement over items are put back whatever happens. -/
theorem atomic_restoring {names : List String} {e : Eval σ α} {target : String} {f : α → Value}
    (he : Keeps (Env.SameUpTo (names ++ changed)) e) :
    Atomic (World.SameUpTo changed)
      (eval (Eval.restoring names e) >>= fun v => assign target (f v) : Act σ Unit) :=
  Atomic.bind (keeps_eval (Eval.keeps_restoring he)) fun _ => (total_assign _ _).atomic

theorem atomic_filter {source predicate target : String} (hsub : receiversOf predicate ⊆ changed) :
    Atomic (World.SameUpTo changed) (filter source predicate target : Act σ Unit) := by
  refine Atomic.bind (keeps_itemsOf source) fun items => atomic_bind_parse hsub fun e he => ?_
  refine atomic_restoring (Eval.keeps_filterItems (Eval.keeps_withItem ?_ (by simp)) items)
  exact List.Subset.trans he (List.subset_append_right _ _)

theorem atomic_map {source transform target : String} (hsub : receiversOf transform ⊆ changed) :
    Atomic (World.SameUpTo changed) (map source transform target : Act σ Unit) := by
  refine Atomic.bind (keeps_itemsOf source) fun items => atomic_bind_parse hsub fun e he => ?_
  refine atomic_restoring (Eval.keeps_mapItems (Eval.keeps_withItem ?_ (by simp)) items)
  exact List.Subset.trans he (List.subset_append_right _ _)

theorem atomic_reduce {source combine target : String} (hsub : receiversOf combine ⊆ changed) :
    Atomic (World.SameUpTo changed) (reduce source combine target : Act σ Unit) := by
  refine Atomic.bind (keeps_itemsOf source) fun items => ?_
  split
  · exact (keeps_lift _).atomic
  · refine atomic_bind_parse hsub fun e he => ?_
    refine atomic_restoring (Eval.keeps_reduceItems ?_ (Eval.keeps_bindName (by simp)) _ _)
    exact Eval.keeps_withItem (List.Subset.trans he (List.subset_append_right _ _)) (by simp)

theorem atomic_changeList (name method : String) {change : Change (List Value) Unit}
    (hchange : Atomic Eq change) :
    Atomic (World.SameUpTo changed) (changeList name method change : Act σ Unit) := by
  have honList : Atomic Eq (onList method change) := by
    intro v fault v' hrun
    cases v with
    | list items =>
      rcases hitems : change.run.run items with ⟨r, items'⟩
      have hwithin : (r, Value.list items') = (.error fault, v') := by
        rw [← hrun]
        show _ = change.within .list items
        rw [Change.within, hitems]
      obtain ⟨rfl, rfl⟩ := Prod.mk.inj hwithin
      rw [hchange items fault items' hitems]
    | _ => exact congrArg Prod.snd hrun
  refine atomic_eval (Atomic.imp (atomic_changeVariable name honList) ?_)
  rintro env _ rfl
  exact Std.Refl.refl env

theorem atomic_callInto (h : Host σ) (name : String) {args : List String} (target : Option String)
    (hsub : ∀ arg ∈ args, receiversOf arg ⊆ changed) :
    Atomic (World.SameUpTo changed) (callInto h name args target) := by
  have hcall : Keeps (World.SameUpTo changed) (call? h name args) := by
    refine Keeps.bind (keeps_resolve h name) fun callee => ?_
    split
    · exact keeps_pure _
    · refine Keeps.bind (keeps_arguments hsub) fun vs => ?_
      exact Keeps.bind (keeps_call _) fun v => keeps_pure _
  refine Atomic.bind hcall fun result => ?_
  split
  · exact (total_assign _ _).atomic
  · exact (keeps_pure _).atomic

theorem atomic_predict (h : Host σ) {input : String} (target : String)
    (hsub : receiversOf input ⊆ changed) :
    Atomic (World.SameUpTo changed) (predict h input target) := by
  refine Atomic.bind (keeps_evalText hsub) fun v => Atomic.bind keeps_get fun w => ?_
  split
  · exact (keeps_lift _).atomic
  · exact Atomic.bind (keeps_ask _) fun v => (total_assign _ _).atomic

theorem keeps_train (h : Host σ) (name : String) {data : String}
    (hsub : receiversOf data ⊆ changed) :
    Keeps (World.SameUpTo changed) (train h name data) := by
  refine Keeps.bind (keeps_lookup name) fun v => ?_
  split
  · exact Keeps.bind (keeps_evalText hsub) fun v => keeps_ask _
  · exact keeps_lift _

theorem keeps_printed {operands : String} (hsub : receiversOf ("[" ++ operands ++ "]") ⊆ changed) :
    Keeps (World.SameUpTo changed) (printed operands : Act σ String) := by
  refine Keeps.bind (keeps_evalText hsub) fun v => ?_
  split <;> exact keeps_pure _

theorem atomic_store {place : Expr} (op : Option BinaryOp) {expr : String}
    (hplace : place.receivers ⊆ changed) (hsub : receiversOf expr ⊆ changed) :
    Atomic (World.SameUpTo changed) (store place op expr : Act σ Unit) := by
  have hassign (v : Value) : Atomic (World.SameUpTo changed) (eval (place.assign v) : Act σ Unit) :=
    atomic_eval (place.atomic_assign v hplace)
  refine Atomic.bind (keeps_evalText hsub) fun v => ?_
  cases op with
  | none => exact Atomic.bind (keeps_pure v) hassign
  | some op =>
    refine Atomic.bind (keeps_eval (place.changes_eval.keeps hplace)) fun old => ?_
    exact Atomic.bind (keeps_lift _) hassign

theorem atomic_runExpression {text : String} (hsub : receiversOf text ⊆ changed) :
    Atomic (World.SameUpTo changed) (runExpression text : Act σ Unit) := by
  refine atomic_bind_parse hsub fun e he => Atomic.bind keeps_get fun w => ?_
  split
  · next args hargs =>
    have hsubArgs : Expr.receiversAll args ⊆ changed := by
      obtain rfl := eq_call_of_printArguments? hargs
      exact he
    refine Atomic.bind (keeps_eval ?_) fun vs => (total_emit _).atomic
    exact (Expr.changes_evalAll args).keeps hsubArgs
  · refine Keeps.atomic (Keeps.bind (keeps_eval (e.changes_eval.keeps he)) fun v => ?_)
    exact keeps_pure _

/-- **A plain statement that ends in a fault has bound nothing.** -/
theorem atomic_perform (h : Host σ) (s : Statement) :
    Atomic (World.SameUpTo s.receivers) (perform h s) := by
  have hop {text : String} (htext : text ∈ s.operands) : receiversOf text ⊆ s.receivers :=
    s.receiversOf_subset htext
  cases s with
  | assign target expr =>
    refine Atomic.bind (keeps_evalText (hop (by simp [Statement.operands]))) fun v => ?_
    refine atomic_bind_parse (hop (by simp [Statement.operands])) fun place hplace => ?_
    exact atomic_eval (place.atomic_assign v hplace)
  | importModule name =>
    refine Atomic.bind (keeps_ask _) fun m => Total.atomic ?_
    exact Total.bind (total_modify _) fun _ => total_assign _ _
  | apiKey text =>
    exact Total.atomic (Total.bind (total_modify _) fun _ => total_assign _ _)
  | print operands =>
    refine Atomic.bind (keeps_printed (hop (by simp [Statement.operands]))) fun line => ?_
    exact (total_emit line).atomic
  | listCreate name expr | dictCreate name expr | getValue expr name =>
    refine Atomic.bind (keeps_evalText (hop (by simp [Statement.operands]))) fun v => ?_
    exact (total_assign _ _).atomic
  | listAppend name expr =>
    refine Atomic.bind (keeps_evalText (hop (by simp [Statement.operands]))) fun v => ?_
    exact atomic_changeList name _ (total_modify _).atomic
  | listRemove name expr =>
    refine Atomic.bind (keeps_evalText (hop (by simp [Statement.operands]))) fun v => ?_
    refine atomic_changeList name _ (Atomic.bind keeps_get fun items => ?_)
    split
    · exact (total_modify _).atomic
    · exact (keeps_result _).atomic
  | sort source target =>
    refine Atomic.bind (keeps_itemsOf source) fun items => ?_
    exact Atomic.bind (keeps_lift _) fun sorted => (total_assign _ _).atomic
  | filter source predicate target => exact atomic_filter (hop (by simp [Statement.operands]))
  | map source transform target => exact atomic_map (hop (by simp [Statement.operands]))
  | reduce source combine target => exact atomic_reduce (hop (by simp [Statement.operands]))
  | call function args result => exact atomic_callInto h function result fun arg harg => hop harg
  | create var className args =>
    exact atomic_callInto h className (some var) fun arg harg => hop harg
  | loadModel model var =>
    refine Atomic.bind (keeps_ask _) fun handle => Total.atomic ?_
    exact Total.bind (total_assign _ _) fun _ => total_modify _
  | predict input output => exact atomic_predict h output (hop (by simp [Statement.operands]))
  | train model data => exact (keeps_train h model (hop (by simp [Statement.operands]))).atomic
  | raw text =>
    show Atomic _ (Act.raw text)
    unfold Act.raw
    split
    · next place a hassignment =>
      refine atomic_store a.op ?_ (hop (by simp [Statement.operands, hassignment]))
      rw [← receiversOf_of_parse (parse_of_assignment? hassignment)]
      exact hop (by simp [Statement.operands, hassignment])
    · next hassignment =>
      exact atomic_runExpression (hop (by simp [Statement.operands, hassignment]))
  | _ => exact (total_pure _).atomic

end Act

/-! ## Statements that concern control -/

theorem Course.keeps_returned {changed : List String} {expr : String}
    (hsub : receiversOf expr ⊆ changed) :
    Keeps (World.SameUpTo changed) (returned expr : Act σ Value) := by
  unfold returned
  split
  · exact keeps_pure _
  · exact Act.keeps_evalText hsub

namespace Move

variable {changed : List String}

theorem atomic_enterFor (span : Span) (var : String) {start stop : String} (ip : Nat)
    (frames : List Frame) (hstart : receiversOf start ⊆ changed)
    (hstop : receiversOf stop ⊆ changed) :
    Atomic (World.SameUpTo changed) (enterFor span var start stop ip frames : Act σ Move) := by
  refine Atomic.bind (Act.keeps_evalText hstart) fun v => ?_
  refine Atomic.bind (Act.keeps_lift _) fun first => ?_
  refine Atomic.bind (Act.keeps_evalText hstop) fun v => ?_
  refine Atomic.bind (Act.keeps_lift _) fun last => ?_
  exact Total.atomic (Total.bind (Act.total_assign _ _) fun _ => total_pure _)

theorem atomic_enterForEach (span : Span) (var : String) {iterable : String} (ip : Nat)
    (frames : List Frame) (hsub : receiversOf iterable ⊆ changed) :
    Atomic (World.SameUpTo changed) (enterForEach span var iterable ip frames : Act σ Move) := by
  refine Atomic.bind (Act.keeps_evalText hsub) fun v => ?_
  refine Atomic.bind (Act.keeps_lift _) fun items => ?_
  split
  · exact (total_pure _).atomic
  · exact Total.atomic (Total.bind (Act.total_assign _ _) fun _ => total_pure _)

theorem keeps_enterWhile (span : Span) {cond : String} (ip : Nat) (frames : List Frame)
    (hsub : receiversOf cond ⊆ changed) :
    Keeps (World.SameUpTo changed) (enterWhile span cond ip frames : Act σ Move) := by
  refine Keeps.bind (Act.keeps_evalText hsub) fun v => ?_
  split <;> exact keeps_pure _

theorem keeps_branch (span : Span) {cond : String} (frames : List Frame)
    (hsub : receiversOf cond ⊆ changed) :
    Keeps (World.SameUpTo changed) (branch span cond frames : Act σ Move) := by
  refine Keeps.bind (Act.keeps_evalText hsub) fun v => ?_
  split <;> exact keeps_pure _

/-- The variable of a counting loop counts on after everything that may end in a fault. -/
theorem atomic_endFor (ip : Nat) (frames : List Frame) :
    Atomic (World.SameUpTo changed) (endFor ip frames : Act σ Move) := by
  refine Atomic.bind (Act.keeps_lift _) fun pair => ?_
  dsimp only
  split
  · refine Atomic.bind (Act.keeps_lookup _) fun v => Atomic.bind (Act.keeps_lift _) fun count => ?_
    refine Atomic.bind (Act.keeps_lift _) fun next => Total.atomic ?_
    refine Total.bind (Act.total_assign _ _) fun _ => ?_
    split <;> exact total_pure _
  · exact (Act.keeps_lift _).atomic

theorem atomic_endForEach (ip : Nat) (frames : List Frame) :
    Atomic (World.SameUpTo changed) (endForEach ip frames : Act σ Move) := by
  refine Atomic.bind (Act.keeps_lift _) fun pair => ?_
  dsimp only
  split
  · split
    · exact Total.atomic (Total.bind (Act.total_assign _ _) fun _ => total_pure _)
    · exact (total_pure _).atomic
  · exact (Act.keeps_lift _).atomic

end Move

/-- **A statement that ends in a fault has done nothing but evaluate operands.** -/
theorem atomic_moveOf (h : Host σ) (body : List Statement) (ip : Nat) (frames : List Frame)
    (s : Statement) : Atomic (World.SameUpTo s.receivers) (moveOf h body ip frames s) := by
  have hop {text : String} (htext : text ∈ s.operands) : receiversOf text ⊆ s.receivers :=
    s.receiversOf_subset htext
  have hperform : Atomic (World.SameUpTo s.receivers)
      (Act.perform h s >>= fun _ => (pure ⟨.next, frames⟩ : Act σ Move)) :=
    Atomic.andThen (Act.atomic_perform h s) fun _ => total_pure _
  cases s with
  | ifThen cond =>
    refine Atomic.bind (Act.keeps_lift _) fun span => Keeps.atomic ?_
    exact Move.keeps_branch span frames (hop (by simp [Statement.operands]))
  | orElse | catchFault name =>
    exact Atomic.bind (Act.keeps_lift _) fun stop => (total_pure _).atomic
  | endIf | endTry => exact (total_pure _).atomic
  | forRange var start stop =>
    refine Atomic.bind (Act.keeps_lift _) fun span => ?_
    exact Move.atomic_enterFor span var ip frames (hop (by simp [Statement.operands]))
      (hop (by simp [Statement.operands]))
  | endFor => exact Move.atomic_endFor ip frames
  | forEach var iterable =>
    refine Atomic.bind (Act.keeps_lift _) fun span => ?_
    exact Move.atomic_enterForEach span var ip frames (hop (by simp [Statement.operands]))
  | endForEach => exact Move.atomic_endForEach ip frames
  | whileLoop cond =>
    refine Atomic.bind (Act.keeps_lift _) fun span => Keeps.atomic ?_
    exact Move.keeps_enterWhile span ip frames (hop (by simp [Statement.operands]))
  | endWhile | breakLoop | continueLoop => exact (Act.keeps_lift _).atomic
  | tryBlock => exact Atomic.bind (Act.keeps_lift _) fun span => (total_pure _).atomic
  | returnValue expr =>
    refine Atomic.andThen (Keeps.atomic ?_) fun _ => total_pure _
    exact Course.keeps_returned (hop (by simp [Statement.operands]))
  | _ => exact hperform

/-! ## Faults of methods -/

/-- A method call that ends in a fault has changed no variable; only a function that was called may
    have left the host in another state. -/
theorem atomic_callMethod (receiver : Expr) (object : Value) (method : String)
    (args : List Value) :
    Atomic Env.SameButHost (callMethod receiver object method args : Eval σ Value) := by
  have hmember (owner : Value) : Atomic Env.SameButHost (do
      let target ← Eval.lift ((← get).attributeOf owner method)
      Eval.call (·.callValue target args) : Eval σ Value) :=
    Keeps.atomic (Keeps.bind keeps_get fun env =>
      Keeps.bind (Eval.keeps_lift _) fun target => callsKeep_sameButHost target args)
  unfold callMethod
  split
  · exact hmember _
  · exact hmember _
  · split
    · split
      · refine (atomic_changeVariable _ (Method.atomic_mutate method args)).imp ?_
        rintro env _ rfl
        exact Std.Refl.refl env
      · exact (Eval.keeps_lift _).atomic
    · exact (Eval.keeps_lift _).atomic

/-- Methods of lists and dictionaries do not call functions. -/
theorem atomic_callMethod_of_isContainer (receiver : Expr) {object : Value} (method : String)
    (args : List Value) (hobject : isContainer object = true) :
    Atomic Eq (callMethod receiver object method args : Eval σ Value) := by
  unfold callMethod
  split
  · cases hobject
  · cases hobject
  · split
    · split
      · exact atomic_changeVariable _ (Method.atomic_mutate method args)
      · exact (Eval.keeps_lift _).atomic
    · exact (Eval.keeps_lift _).atomic

/-- What a method call does after the receiver and the arguments have got values. -/
theorem Expr.run_method {owner : Expr} {method : String} {args : List Expr} {object : Value}
    {vs : List Value} {env mid after : Env σ} (howner : owner.evaluate env = (.ok object, mid))
    (hargs : (evalAll args).run.run mid = (.ok vs, after)) :
    (Expr.call (.field owner method) args).evaluate env
      = (callMethod owner object method vs).run.run after := by
  unfold evaluate at howner
  unfold evaluate eval
  rw [Eval.run_bind, howner]
  dsimp only
  rw [Eval.run_bind, hargs]

/-! ## The machine -/

namespace Machine

/-- **A statement that ends in a fault leaves the machine as it was**: the position, the active
    blocks, the printed lines, the model loaded last, and every variable that is not the receiver of
    a changing method in an operand; the fault is raised there. A changing method that itself ends
    in a fault leaves its receiver as it was, and a method call that does leaves all variables as
    its arguments have left them. -/
theorem execute_keeps_on_fault {h : Host σ} {body : List Statement} {m m' : Machine σ}
    {s : Statement} {fault : Fault} (hrun : (execute h body s).run.run m = (.error fault, m')) :
    m'.ip = m.ip ∧ m'.frames = m.frames ∧ m'.control = m.control ∧
      m'.world.output = m.world.output ∧ m'.world.lastModel = m.world.lastModel ∧
      (∀ x, x ∉ s.receivers → m'.world.env.get? x = m.world.env.get? x) ∧
      (∀ p : Program, p.body = body → body[m.ip]? = some s → m.isRunning = true →
        m.step h p = m'.raise h p fault) ∧
      (∀ (method : String) (args : List Value) (receiver receiver' : Value) (cause : Fault),
        (Method.mutate method args).run.run receiver = (.error cause, receiver') →
        receiver' = receiver) ∧
      ∀ (owner : Expr) (method : String) (args : List Expr) (object : Value) (vs : List Value)
        (cause : Fault) (env mid after env' : Env σ),
        owner.evaluate env = (.ok object, mid) →
        (Expr.evalAll args).run.run mid = (.ok vs, after) →
        (Expr.call (.field owner method) args).evaluate env = (.error cause, env') →
        env' = { after with host := env'.host } ∧ (isContainer object = true → env' = after) := by
  have hmove := hrun
  rw [run_execute] at hmove
  rcases hw : (moveOf h body m.ip m.frames s).run.run m.world with ⟨r, w⟩
  rw [hw] at hmove
  cases r with
  | ok move => cases congrArg Prod.fst hmove
  | error cause =>
    obtain ⟨hcause, rfl⟩ := Prod.mk.inj hmove
    have hsame := atomic_moveOf h body m.ip m.frames s m.world cause w hw
    refine ⟨rfl, rfl, rfl, hsame.output, hsame.lastModel, hsame.bindings, ?_, ?_, ?_⟩
    · rintro p rfl hs hrunning
      simp only [step, hrunning, if_true, hs, hrun]
    · intro method args receiver receiver' cause hmutate
      exact (Method.atomic_mutate method args receiver cause receiver' hmutate).symm
    · intro owner method args object vs cause env mid after env' howner hargs hcall
      rw [Expr.run_method howner hargs] at hcall
      refine ⟨atomic_callMethod owner object method vs after cause env' hcall, fun hobject => ?_⟩
      exact (atomic_callMethod_of_isContainer owner method vs hobject after cause env' hcall).symm

/-- The predicate of the statement below. -/
private theorem parse_popIndex : Expr.parse "x[ys.pop()]"
    = .ok (.index (.name "x") (.call (.field (.name "ys") "pop") [])) := by
  have hscan : Token.scan? "x[ys.pop()]".toList
      = some [.word "x", .symbol .openBracket, .word "ys", .symbol .dot, .word "pop",
        .symbol .openParen, .symbol .closeParen, .symbol .closeBracket] := by
    decide +kernel
  rw [Expr.parse, hscan]
  rfl

/-- `FILTER xs WHERE x[ys.pop()] → zs` in a loop fails at the second item, which has no items: `ys`
    is empty by then, but `x` and `zs` are as unbound as they were, and the loop is still active. -/
theorem execute_keeps_on_fault_filter :
    let env : Env (Library.State Unit Unit) :=
      { vars := ⟨[("xs", .list [.list [.int 7], .nothing]), ("ys", .list [.int 0, .int 0])]⟩
        host := { memory := () } }
    let m : Machine (Library.State Unit Unit) :=
      ⟨⟨env, #["line"], none⟩, 1, [⟨.whileLoop, 0, 2⟩], .running⟩
    let s : Statement := .filter "xs" "x[ys.pop()]" "zs"
    ∃ fault m', (execute (Library.host (Library.standard .plain)) [s] s).run.run m
        = (.error fault, m') ∧ m'.ip = 1 ∧ m'.frames.length = 1 ∧ m'.world.output = #["line"] ∧
      m'.world.env.get? "ys" = some (.list []) ∧ m'.world.env.get? "x" = none ∧
      m'.world.env.get? "zs" = none := by
  intro env m s
  have hexecute : execute (Library.host (Library.standard .plain)) [s] s = (do
      Course.act (do
        let items ← Act.itemsOf "xs"
        let kept ← Act.eval (Eval.restoring ["x"] (Eval.filterItems
          (.index (.name "x") (.call (.field (.name "ys") "pop") [])) items))
        Act.assign "zs" (.list kept))
      return .next) := by
    show (Course.act (Act.filter "xs" "x[ys.pop()]" "zs") >>= fun _ => _) = _
    simp only [Act.filter, Act.parse, parse_popIndex]
    rfl
  obtain ⟨fault, m', hrun, hys⟩ : ∃ fault m',
      (execute (Library.host (Library.standard .plain)) [s] s).run.run m = (.error fault, m') ∧
        m'.world.env.get? "ys" = some (.list []) := by
    rw [hexecute]
    exact ⟨_, _, rfl, rfl⟩
  have hreceivers : s.receivers = ["ys"] := by
    simp only [s, Statement.receivers, Statement.operands, List.flatMap_cons, List.flatMap_nil,
      receiversOf_of_parse parse_popIndex]
    rfl
  obtain ⟨hip, hframes, -, houtput, -, hkept, -⟩ := execute_keeps_on_fault hrun
  exact ⟨fault, m', hrun, hip, congrArg List.length hframes, houtput, hys,
    (hkept "x" (by simp [hreceivers])).trans rfl, (hkept "zs" (by simp [hreceivers])).trans rfl⟩

end Machine

end StepScript
