import StepScript.Proofs.Bindings
import StepScript.Proofs.Places

/-!
# What the host has handed out

An environment holds more than variables: the functions and classes that the host has handed out,
and the modules that were imported. Expressions leave both alone, and so does nearly every
statement (`Act.keepsHandouts_perform`): only a call can bring in a function or class, and a module
comes in by an import alone (`Act.keepsModules_perform`).
-/

set_option autoImplicit false

namespace StepScript

variable {σ α : Type}

/-! ## The same handouts -/

/-- The same functions, classes and modules of the host are in reach. -/
structure Env.SameHandouts (env after : Env σ) : Prop where
  objects : after.objects = env.objects
  modules : after.modules = env.modules

/-- The same functions, classes and modules of the host are in reach of the program. -/
def World.SameHandouts (w after : World σ) : Prop :=
  w.env.SameHandouts after.env

/-- The same modules are in reach of the program. -/
def World.SameModules (w after : World σ) : Prop :=
  after.env.modules = w.env.modules

section

variable {env mid after : Env σ}

theorem Env.SameHandouts.trans (h₁ : env.SameHandouts mid) (h₂ : mid.SameHandouts after) :
    env.SameHandouts after :=
  ⟨h₂.objects.trans h₁.objects, h₂.modules.trans h₁.modules⟩

instance : Std.Refl (Env.SameHandouts (σ := σ)) :=
  ⟨fun _ => ⟨rfl, rfl⟩⟩

instance : Trans (Env.SameHandouts (σ := σ)) Env.SameHandouts Env.SameHandouts :=
  ⟨Env.SameHandouts.trans⟩

instance : Std.Refl (World.SameHandouts (σ := σ)) :=
  ⟨fun w => Std.Refl.refl w.env⟩

instance : Trans (World.SameHandouts (σ := σ)) World.SameHandouts World.SameHandouts :=
  ⟨Env.SameHandouts.trans⟩

instance : Std.Refl (World.SameModules (σ := σ)) :=
  ⟨fun _ => rfl⟩

instance : Trans (World.SameModules (σ := σ)) World.SameModules World.SameModules :=
  ⟨fun h₁ h₂ => Eq.trans h₂ h₁⟩

theorem Env.sameHandouts_set (env : Env σ) (name : String) (v : Value) :
    env.SameHandouts (env.set name v) :=
  ⟨rfl, rfl⟩

theorem Env.sameHandouts_restore (env : Env σ) (name : String) (v : Option Value) :
    env.SameHandouts (env.restore name v) := by
  cases v <;> exact ⟨rfl, rfl⟩

end

/-- The statement can bring in something that the host hands out. -/
def Statement.bringsIn : Statement → Bool
  | .call _ _ _ | .create _ _ _ | .importModule _ => true
  | _ => false

/-! ## Evaluations -/

namespace Eval

theorem Changes.keepsHandouts {e : Eval σ α} {changed : List String} (he : Changes changed e) :
    Keeps Env.SameHandouts e :=
  Keeps.imp he fun h => ⟨h.objects, h.modules⟩

theorem keepsHandouts_bindName (name : String) (v : Value) :
    Keeps Env.SameHandouts (modify (·.set name v) : Eval σ PUnit) :=
  fun env => env.sameHandouts_set name v

theorem keepsHandouts_withItem (e : Expr) (item : Value) :
    Keeps Env.SameHandouts (withItem e item : Eval σ Value) :=
  Keeps.bind (keepsHandouts_bindName "x" item) fun _ => e.changes_eval.keepsHandouts

/-- Names that are put back are variables. -/
theorem keepsHandouts_restoring {e : Eval σ α} (names : List String)
    (he : Keeps Env.SameHandouts e) : Keeps Env.SameHandouts (restoring names e) := by
  intro env
  have hfold : ∀ after : Env σ, env.SameHandouts after → env.SameHandouts
      (names.foldl (fun after name => after.restore name (env.get? name)) after) := by
    induction names with
    | nil => exact fun _ h => h
    | cons name names ih =>
      exact fun after h => ih _ (h.trans (after.sameHandouts_restore name _))
  exact hfold _ (he env)

end Eval

theorem Place.sameHandouts_store {p : Place} {v : Value} {env after : Env σ}
    (h : p.store v env = .ok after) : env.SameHandouts after := by
  cases store_eq_ok_iff.1 h with
  | whole => exact env.sameHandouts_set _ v
  | part => exact env.sameHandouts_set _ _

theorem Expr.keepsHandouts_assign (e : Expr) (v : Value) :
    Keeps Env.SameHandouts (e.assign v : Eval σ Unit) := by
  refine Keeps.bind e.changes_place.keepsHandouts fun p => ?_
  intro env
  show env.SameHandouts ((Eval.lift (p.store v env) >>= set).run.run env).2
  rw [Eval.run_bind, Eval.run_lift]
  cases hstore : p.store v env with
  | error fault => exact Std.Refl.refl env
  | ok after => exact Place.sameHandouts_store hstore

/-! ## Actions -/

namespace Act

theorem keepsHandouts_eval {e : Eval σ α} (he : Keeps Env.SameHandouts e) :
    Keeps World.SameHandouts (eval e : Act σ α) :=
  fun w => he w.env

theorem keepsHandouts_evalText (text : String) :
    Keeps World.SameHandouts (evalText text : Act σ Value) :=
  keepsHandouts_eval (Keeps.bind (Eval.keeps_lift _) fun e => e.changes_eval.keepsHandouts)

theorem keepsHandouts_call (f : Env σ → Except Fault α × σ) :
    Keeps World.SameHandouts (eval (Eval.call f) : Act σ α) :=
  fun _ => ⟨rfl, rfl⟩

theorem keepsHandouts_ask (request : σ → Except HostFault α × σ) :
    Keeps World.SameHandouts (ask request : Act σ α) :=
  fun _ => ⟨rfl, rfl⟩

theorem keepsHandouts_assign (name : String) (v : Value) :
    Keeps World.SameHandouts (assign name v : Act σ Unit) :=
  fun w => w.env.sameHandouts_set name v

theorem keepsHandouts_arguments (args : List String) :
    Keeps World.SameHandouts (arguments args : Act σ (List Value)) := by
  induction args with
  | nil => exact keeps_pure _
  | cons arg args ih =>
    exact Keeps.bind (keepsHandouts_evalText arg) fun v => Keeps.bind ih fun vs => keeps_pure _

theorem keepsHandouts_changeList (name method : String) (change : Change (List Value) Unit) :
    Keeps World.SameHandouts (changeList name method change : Act σ Unit) := by
  refine keepsHandouts_eval fun env => ?_
  rw [run_changeVariable]
  cases env.lookup name with
  | error fault => exact Std.Refl.refl env
  | ok v => exact env.sameHandouts_set name _

theorem keepsHandouts_store (place : Expr) (op : Option BinaryOp) (expr : String) :
    Keeps World.SameHandouts (store place op expr : Act σ Unit) := by
  have hassign (v : Value) : Keeps World.SameHandouts (eval (place.assign v) : Act σ Unit) :=
    keepsHandouts_eval (place.keepsHandouts_assign v)
  refine Keeps.bind (keepsHandouts_evalText expr) fun v => ?_
  cases op with
  | none => exact Keeps.bind (keeps_pure v) hassign
  | some op =>
    refine Keeps.bind (keepsHandouts_eval place.changes_eval.keepsHandouts) fun old => ?_
    exact Keeps.bind (keeps_lift _) hassign

theorem keepsHandouts_runExpression (text : String) :
    Keeps World.SameHandouts (runExpression text : Act σ Unit) := by
  refine Keeps.bind (keeps_lift _) fun e => Keeps.bind keeps_get fun w => ?_
  split
  · next args _ =>
    refine Keeps.bind (keepsHandouts_eval (Expr.changes_evalAll args).keepsHandouts) fun vs => ?_
    exact fun w => Std.Refl.refl w.env
  · exact Keeps.bind (keepsHandouts_eval e.changes_eval.keepsHandouts) fun v => keeps_pure _

theorem keepsHandouts_collect {names : List String} {e : Eval σ α} (target : String)
    (f : α → Value) (he : Keeps Env.SameHandouts e) :
    Keeps World.SameHandouts
      (eval (Eval.restoring names e) >>= fun v => assign target (f v) : Act σ Unit) :=
  Keeps.bind (keepsHandouts_eval (Eval.keepsHandouts_restoring names he))
    fun v => keepsHandouts_assign target (f v)

/-- A call can bring in a function or class; what the rest of it keeps is the same for every
    relation that does not tell worlds with the same handouts apart. -/
theorem keeps_callInto {R : World σ → World σ → Prop} [Std.Refl R] [Trans R R R]
    (hR : ∀ {w after}, World.SameHandouts w after → R w after) {h : Host σ}
    (hresolve : ∀ name, Keeps R (resolve h name)) (name : String) (args : List String)
    (target : Option String) : Keeps R (callInto h name args target) := by
  have hcall : Keeps R (call? h name args) := by
    refine Keeps.bind (hresolve name) fun callee => ?_
    split
    · exact keeps_pure _
    · refine Keeps.bind ((keepsHandouts_arguments args).imp hR) fun vs => ?_
      exact Keeps.bind ((keepsHandouts_call _).imp hR) fun v => keeps_pure _
  refine Keeps.bind hcall fun result => ?_
  split
  · exact (keepsHandouts_assign _ _).imp hR
  · exact keeps_pure _

/-! ## Statements -/

/-- **Only calls and imports change what the host has handed out.** -/
theorem keepsHandouts_perform (h : Host σ) {s : Statement} (hs : s.bringsIn = false) :
    Keeps World.SameHandouts (perform h s) := by
  cases s with
  | call _ _ _ | create _ _ _ | importModule _ => cases hs
  | assign target expr =>
    refine Keeps.bind (keepsHandouts_evalText expr) fun v => Keeps.bind (keeps_lift _) fun e => ?_
    exact keepsHandouts_eval (e.keepsHandouts_assign v)
  | apiKey text =>
    exact Keeps.bind (fun _ => ⟨rfl, rfl⟩) fun _ => keepsHandouts_assign _ _
  | print operands =>
    refine Keeps.bind (Keeps.bind (keepsHandouts_evalText _) fun v => ?_) fun line =>
      fun (w : World σ) => Std.Refl.refl w.env
    split <;> exact keeps_pure _
  | listCreate name expr | dictCreate name expr | getValue expr name =>
    exact Keeps.bind (keepsHandouts_evalText expr) fun v => keepsHandouts_assign _ v
  | listAppend name expr | listRemove name expr =>
    exact Keeps.bind (keepsHandouts_evalText expr) fun v => keepsHandouts_changeList name _ _
  | sort source target =>
    refine Keeps.bind (keeps_itemsOf source) fun items => ?_
    exact Keeps.bind (keeps_lift _) fun sorted => keepsHandouts_assign target _
  | filter source predicate target =>
    refine Keeps.bind (keeps_itemsOf source) fun items => Keeps.bind (keeps_lift _) fun e => ?_
    exact keepsHandouts_collect target _
      (Eval.keeps_filterItems (Eval.keepsHandouts_withItem e) items)
  | map source transform target =>
    refine Keeps.bind (keeps_itemsOf source) fun items => Keeps.bind (keeps_lift _) fun e => ?_
    exact keepsHandouts_collect target _
      (Eval.keeps_mapItems (Eval.keepsHandouts_withItem e) items)
  | reduce source combine target =>
    refine Keeps.bind (keeps_itemsOf source) fun items => ?_
    split
    · exact keeps_lift _
    · refine Keeps.bind (keeps_lift _) fun e => ?_
      exact keepsHandouts_collect target id (Eval.keeps_reduceItems (Eval.keepsHandouts_withItem e)
        (Eval.keepsHandouts_bindName "acc") _ _)
  | loadModel model var =>
    refine Keeps.bind (keepsHandouts_ask _) fun handle => ?_
    exact Keeps.bind (keepsHandouts_assign var _) fun _ (w : World σ) => Std.Refl.refl w.env
  | predict input output =>
    refine Keeps.bind (keepsHandouts_evalText input) fun v => Keeps.bind keeps_get fun w => ?_
    split
    · exact keeps_lift _
    · exact Keeps.bind (keepsHandouts_ask _) fun v => keepsHandouts_assign output v
  | train model data =>
    refine Keeps.bind (keeps_lookup model) fun v => ?_
    split
    · exact Keeps.bind (keepsHandouts_evalText data) fun v => keepsHandouts_ask _
    · exact keeps_lift _
  | raw text =>
    show Keeps _ (Act.raw text)
    unfold Act.raw
    split
    · exact keepsHandouts_store _ _ _
    · exact keepsHandouts_runExpression text
  | _ => exact keeps_pure _

/-- A function or class that the host gives is remembered beside the modules. -/
theorem keepsModules_resolve (h : Host σ) (name : String) :
    Keeps World.SameModules (resolve h name) := by
  refine Keeps.bind keeps_get fun w => ?_
  split
  · exact keeps_pure _
  · refine Keeps.bind (fun _ => rfl) fun object => ?_
    split
    · exact Keeps.bind (fun _ => rfl) fun _ => keeps_pure _
    · exact keeps_pure _

/-- **Only an import changes the modules in reach.** -/
theorem keepsModules_perform (h : Host σ) {s : Statement}
    (himport : ∀ name, s ≠ .importModule name) : Keeps World.SameModules (perform h s) := by
  have hmodules {w after : World σ} (hsame : w.SameHandouts after) : w.SameModules after :=
    hsame.modules
  cases s with
  | call function args result =>
    exact keeps_callInto hmodules (keepsModules_resolve h) function args result
  | create var className args =>
    exact keeps_callInto hmodules (keepsModules_resolve h) className args (some var)
  | importModule name => exact absurd rfl (himport name)
  | _ => exact (keepsHandouts_perform h rfl).imp hmodules

end Act

end StepScript
