import StepScript.Proofs.Atomicity

/-!
# Names that statements bind

The names that a statement can bind stand in its text (`Statement.binds`). A name that it does not
bind may still hold a list, dictionary or object, of which the statement changes a part. A value
without parts is out of reach: a variable that holds one keeps it through every statement that does
not bind the variable (`Act.keepsScalar_perform`).

This holds however the statement ends. The names that work on items binds while it runs are put
back, so that they are not among those it binds.
-/

set_option autoImplicit false

namespace StepScript

variable {σ α β : Type}

/-! ## Names -/

/-- The name that is bound by storing a value in the place that an expression names; a part of a
    value is no name. -/
def Expr.boundName : Expr → List String
  | .name n => [n]
  | _ => []

/-- The names that a statement can bind. -/
def Statement.binds : Statement → List String
  | .assign target _ =>
    match Expr.parse target with
    | .ok place => place.boundName
    | .error _ => []
  | .raw text =>
    match Act.assignment? text with
    | some (place, _) => place.boundName
    | none => []
  | .importModule name => [Act.rootOf name]
  | .apiKey _ => ["api_key"]
  | .forRange var _ _ | .forEach var _ => [var]
  | .listCreate name _ | .dictCreate name _ => [name]
  | .getValue _ target | .sort _ target => [target]
  | .filter _ _ target | .map _ _ target | .reduce _ _ target => [target]
  | .catchFault var => [var]
  | .call _ _ result => result.toList
  | .create var _ _ | .loadModel _ var => [var]
  | .predict _ output => [output]
  | _ => []

/-! ## Values without parts -/

/-- The value has no parts that could be changed. -/
def Value.isScalar : Value → Bool
  | .list _ | .dict _ | .object _ _ => false
  | _ => true

/-- A value without parts that the variable holds, it holds afterwards. -/
def Env.ScalarKept (x : String) (env after : Env σ) : Prop :=
  ∀ v, v.isScalar = true → env.get? x = some v → after.get? x = some v

/-- A value without parts that the variable holds in one world, it holds in the other one. -/
def World.ScalarKept (x : String) (w after : World σ) : Prop :=
  w.env.ScalarKept x after.env

section

variable {x name : String} {env after : Env σ}

theorem Env.ScalarKept.trans {mid : Env σ} (h₁ : env.ScalarKept x mid)
    (h₂ : mid.ScalarKept x after) : env.ScalarKept x after :=
  fun v hscalar hv => h₂ v hscalar (h₁ v hscalar hv)

instance : Std.Refl (Env.ScalarKept (σ := σ) x) :=
  ⟨fun _ _ _ hv => hv⟩

instance : Trans (Env.ScalarKept (σ := σ) x) (Env.ScalarKept x) (Env.ScalarKept x) :=
  ⟨Env.ScalarKept.trans⟩

instance : Std.Refl (World.ScalarKept (σ := σ) x) :=
  ⟨fun w => Std.Refl.refl w.env⟩

instance : Trans (World.ScalarKept (σ := σ) x) (World.ScalarKept x) (World.ScalarKept x) :=
  ⟨Env.ScalarKept.trans⟩

theorem Env.scalarKept_of_eq (h : after.get? x = env.get? x) : env.ScalarKept x after :=
  fun _ _ hv => h.trans hv

theorem Env.scalarKept_set (hne : name ≠ x) (v : Value) : env.ScalarKept x (env.set name v) :=
  scalarKept_of_eq (by rw [Env.get?_set, if_neg hne])

/-- Evaluation changes lists and dictionaries only. -/
theorem Env.Evolves.scalarKept {changed : List String} (h : env.Evolves changed after) :
    env.ScalarKept x after := by
  intro v hscalar hv
  rcases h.bindings x with hsame | ⟨-, v₀, _, hv₀, -, hcont, -⟩
  · exact hsame.trans hv
  · obtain rfl : v₀ = v := Option.some.inj (hv₀.symm.trans hv)
    cases v₀ with
    | list items | dict entries => cases hscalar
    | _ => cases hcont

end

/-! ## Evaluations -/

namespace Eval

variable {x : String}

theorem Changes.keepsScalar {e : Eval σ α} {changed : List String} (he : Changes changed e) :
    Keeps (Env.ScalarKept x) e :=
  Keeps.imp he Env.Evolves.scalarKept

theorem keepsScalar_bindName {name : String} (hne : name ≠ x) (v : Value) :
    Keeps (Env.ScalarKept x) (modify (·.set name v) : Eval σ PUnit) :=
  fun _ => Env.scalarKept_set hne v

theorem keepsScalar_withItem (hne : "x" ≠ x) (e : Expr) (item : Value) :
    Keeps (Env.ScalarKept x) (withItem e item : Eval σ Value) :=
  Keeps.bind (keepsScalar_bindName hne item) fun _ => e.changes_eval.keepsScalar

/-- A name that is put back keeps its value, whatever happens in between. -/
theorem keepsScalar_restoring {names : List String} {e : Eval σ α}
    (he : x ∉ names → Keeps (Env.ScalarKept x) e) :
    Keeps (Env.ScalarKept x) (restoring names e) := by
  intro env v hscalar hv
  show (names.foldl (fun after name => after.restore name (env.get? name))
    (e.run.run env).2).get? x = some v
  rw [get?_restored]
  by_cases hx : x ∈ names
  · rwa [if_pos hx]
  · rw [if_neg hx]
    exact he hx env v hscalar hv

end Eval

/-! ## Places -/

namespace Place

/-- A value without parts has no place for a value inside. -/
theorem storeAlong_scalar {v new v' : Value} {path : List Accessor} (hscalar : v.isScalar = true)
    (hpath : path ≠ []) : storeAlong v path new ≠ .ok v' := by
  obtain ⟨a, path, rfl⟩ := List.exists_cons_of_ne_nil hpath
  have hchild (part : Value) : child v a ≠ .ok part := by
    intro h
    cases v <;> cases a <;> cases hscalar <;> cases h
  have hstore (part : Value) : storeIn v a part ≠ .ok v' := by
    intro h
    cases v <;> cases a <;> cases hscalar <;> cases h
  cases path with
  | nil => exact hstore new
  | cons b path =>
    intro h
    rw [storeAlong] at h
    · cases hc : child v a with
      | ok part => exact hchild part hc
      | error fault =>
        rw [hc] at h
        cases h
    · simp

/-- A store replaces a value without parts only where it binds the whole variable. -/
theorem scalarKept_store {p : Place} {x : String} {v : Value} {env after : Env σ}
    (h : p.store v env = .ok after) (hroot : p.path = [] → p.root ≠ x) :
    env.ScalarKept x after := by
  unfold store at h
  split at h
  · next hempty =>
    cases h
    exact Env.scalarKept_set (hroot (List.isEmpty_iff.1 hempty)) v
  · next hpath =>
    have hpath : p.path ≠ [] := fun hnil => hpath (List.isEmpty_iff.2 hnil)
    cases hget : env.get? p.root with
    | none =>
      simp only [Env.lookup, hget] at h
      cases h
    | some old =>
      cases hstored : storeAlong old p.path v with
      | error fault =>
        simp only [Env.lookup, hget, bind, Except.bind, hstored] at h
        cases h
      | ok new =>
        simp only [Env.lookup, hget, bind, Except.bind, hstored] at h
        cases h
        intro v₀ hscalar hv₀
        by_cases hx : p.root = x
        · rw [hx, hv₀] at hget
          cases hget
          exact absurd hstored (storeAlong_scalar hscalar hpath)
        · rw [Env.get?_set, if_neg hx, hv₀]

end Place

namespace Expr

/-- Only a name leads to a place without a path. -/
theorem root_of_place {e : Expr} {p : Place} {env after : Env σ}
    (h : e.place.run.run env = (.ok p, after)) (hpath : p.path = []) : e.boundName = [p.root] := by
  cases e with
  | name n =>
    cases h
    rfl
  | index c i =>
    simp only [place, Eval.run_bind] at h
    rcases hi : i.eval.run.run env with ⟨ri, env₁⟩
    rw [hi] at h
    cases ri with
    | error fault => cases h
    | ok key =>
      dsimp only at h
      rcases hc : c.place.run.run env₁ with ⟨rc, env₂⟩
      rw [hc] at h
      cases rc with
      | error fault => cases h
      | ok q =>
        cases h
        simp at hpath
  | field c member =>
    simp only [place, Eval.run_bind] at h
    rcases hc : c.place.run.run env with ⟨rc, env₁⟩
    rw [hc] at h
    cases rc with
    | error fault => cases h
    | ok q =>
      cases h
      simp at hpath
  | _ => cases h

theorem keepsScalar_assign {x : String} (e : Expr) (v : Value) (hx : x ∉ e.boundName) :
    Keeps (Env.ScalarKept x) (e.assign v : Eval σ Unit) := by
  intro env
  have hplace : env.ScalarKept x (e.place.run.run env).2 := e.changes_place.keepsScalar env
  unfold assign
  rw [Eval.run_bind]
  rcases hrun : e.place.run.run env with ⟨r, mid⟩
  rw [hrun] at hplace
  cases r with
  | error fault => exact hplace
  | ok p =>
    show env.ScalarKept x ((Eval.lift (p.store v mid) >>= set).run.run mid).2
    rw [Eval.run_bind, Eval.run_lift]
    cases hstore : p.store v mid with
    | error fault => exact hplace
    | ok after =>
      refine hplace.trans (Place.scalarKept_store hstore ?_)
      rintro hpath rfl
      exact hx (by simp [root_of_place hrun hpath])

end Expr

/-! ## Actions -/

namespace Act

variable {x : String}

/-- An action that leaves the variables alone. -/
theorem keepsScalar_of_vars {a : Act σ α}
    (h : ∀ w, ((a.run.run w).2).env.vars = w.env.vars) : Keeps (World.ScalarKept x) a := by
  intro w
  exact Env.scalarKept_of_eq (congrArg (Table.get? · x) (h w))

theorem keepsScalar_eval {e : Eval σ α} (he : Keeps (Env.ScalarKept x) e) :
    Keeps (World.ScalarKept x) (eval e : Act σ α) :=
  fun w => he w.env

theorem keepsScalar_evalText (text : String) :
    Keeps (World.ScalarKept x) (evalText text : Act σ Value) :=
  keepsScalar_eval (Keeps.bind (Eval.keeps_lift _) fun e => e.changes_eval.keepsScalar)

theorem keepsScalar_call (f : Env σ → Except Fault α × σ) :
    Keeps (World.ScalarKept x) (eval (Eval.call f) : Act σ α) :=
  keepsScalar_of_vars fun _ => rfl

theorem keepsScalar_ask (request : σ → Except HostFault α × σ) :
    Keeps (World.ScalarKept x) (ask request : Act σ α) :=
  keepsScalar_of_vars fun _ => rfl

theorem keepsScalar_assign {name : String} (hne : name ≠ x) (v : Value) :
    Keeps (World.ScalarKept x) (assign name v : Act σ Unit) :=
  fun _ => Env.scalarKept_set hne v

theorem keepsScalar_arguments (args : List String) :
    Keeps (World.ScalarKept x) (arguments args : Act σ (List Value)) := by
  induction args with
  | nil => exact keeps_pure _
  | cons arg args ih =>
    exact Keeps.bind (keepsScalar_evalText arg) fun v => Keeps.bind ih fun vs => keeps_pure _

/-- Remembering a function binds no variable. -/
theorem keepsScalar_resolve (h : Host σ) (name : String) :
    Keeps (World.ScalarKept x) (resolve h name) := by
  refine Keeps.bind keeps_get fun w => ?_
  split
  · exact keeps_pure _
  · refine Keeps.bind (keepsScalar_of_vars fun _ => rfl) fun object => ?_
    split
    · exact Keeps.bind (keepsScalar_of_vars fun _ => rfl) fun _ => keeps_pure _
    · exact keeps_pure _

theorem keepsScalar_callInto (h : Host σ) (name : String) (args : List String)
    {target : Option String} (hx : x ∉ target.toList) :
    Keeps (World.ScalarKept x) (callInto h name args target) := by
  have hcall : Keeps (World.ScalarKept x) (call? h name args) := by
    refine Keeps.bind (keepsScalar_resolve h name) fun callee => ?_
    split
    · exact keeps_pure _
    · refine Keeps.bind (keepsScalar_arguments args) fun vs => ?_
      exact Keeps.bind (keepsScalar_call _) fun v => keeps_pure _
  refine Keeps.bind hcall fun result => ?_
  split
  · exact keepsScalar_assign (by simpa [eq_comm] using hx) _
  · exact keeps_pure _

/-- A list is changed only where there is one. -/
theorem keepsScalar_changeList (name method : String) (change : Change (List Value) Unit) :
    Keeps (World.ScalarKept x) (changeList name method change : Act σ Unit) := by
  refine keepsScalar_eval fun env => ?_
  rw [run_changeVariable]
  cases hget : env.get? name with
  | none =>
    simp only [Env.lookup, hget]
    exact Std.Refl.refl env
  | some receiver =>
    simp only [Env.lookup, hget]
    intro v hscalar hv
    by_cases hx : name = x
    · obtain rfl : receiver = v := by
        rw [hx, hv] at hget
        exact (Option.some.inj hget).symm
      have hsame : ((onList method change).run.run receiver).2 = receiver := by
        cases receiver with
        | list items => cases hscalar
        | _ => rfl
      rw [hsame, Env.set_eq_self hget, hv]
    · exact Env.scalarKept_set hx _ v hscalar hv

theorem keepsScalar_store {place : Expr} (op : Option BinaryOp) (expr : String)
    (hx : x ∉ place.boundName) :
    Keeps (World.ScalarKept x) (store place op expr : Act σ Unit) := by
  have hassign (v : Value) : Keeps (World.ScalarKept x) (eval (place.assign v) : Act σ Unit) :=
    keepsScalar_eval (place.keepsScalar_assign v hx)
  refine Keeps.bind (keepsScalar_evalText expr) fun v => ?_
  cases op with
  | none => exact Keeps.bind (keeps_pure v) hassign
  | some op =>
    refine Keeps.bind (keepsScalar_eval place.changes_eval.keepsScalar) fun old => ?_
    exact Keeps.bind (keeps_lift _) hassign

theorem keepsScalar_runExpression (text : String) :
    Keeps (World.ScalarKept x) (runExpression text : Act σ Unit) := by
  refine Keeps.bind (keeps_lift _) fun e => Keeps.bind keeps_get fun w => ?_
  split
  · next args _ =>
    refine Keeps.bind (keepsScalar_eval (Expr.changes_evalAll args).keepsScalar) fun vs => ?_
    exact keepsScalar_of_vars fun _ => rfl
  · exact Keeps.bind (keepsScalar_eval e.changes_eval.keepsScalar) fun v => keeps_pure _

/-! ## Statements -/

/-- Work on items binds its target; the names it uses meanwhile are put back. -/
theorem keepsScalar_restoring {names : List String} {e : Eval σ α} {target : String}
    {f : α → Value} (hne : target ≠ x) (he : x ∉ names → Keeps (Env.ScalarKept x) e) :
    Keeps (World.ScalarKept x)
      (eval (Eval.restoring names e) >>= fun v => assign target (f v) : Act σ Unit) :=
  Keeps.bind (keepsScalar_eval (Eval.keepsScalar_restoring he))
    fun v => keepsScalar_assign hne (f v)

/-- **A statement that does not bind a variable leaves a value without parts in it**, whether it
    ends well or in a fault. -/
theorem keepsScalar_perform (h : Host σ) {s : Statement} (hx : x ∉ s.binds) :
    Keeps (World.ScalarKept x) (perform h s) := by
  have hbind {name : String} (hname : x ∉ [name]) (v : Value) :
      Keeps (World.ScalarKept x) (assign name v : Act σ Unit) :=
    keepsScalar_assign (by simpa [eq_comm] using hname) v
  cases s with
  | assign target expr =>
    refine Keeps.bind (keepsScalar_evalText expr) fun v => ?_
    cases hparse : Expr.parse target with
    | error fault =>
      refine keepsScalar_of_vars fun w => ?_
      rw [run_bind, parse, hparse, run_lift]
    | ok place =>
      simp only [Statement.binds, hparse] at hx
      unfold parse
      rw [hparse]
      exact keepsScalar_eval (place.keepsScalar_assign v hx)
  | importModule name =>
    refine Keeps.bind (keepsScalar_ask _) fun m => ?_
    exact Keeps.bind (keepsScalar_of_vars fun _ => rfl) fun _ => hbind hx _
  | apiKey text => exact Keeps.bind (keepsScalar_of_vars fun _ => rfl) fun _ => hbind hx _
  | print operands =>
    refine Keeps.bind (Keeps.bind (keepsScalar_evalText _) fun v => ?_) fun line =>
      keepsScalar_of_vars fun _ => rfl
    split <;> exact keeps_pure _
  | listCreate name expr | dictCreate name expr | getValue expr name =>
    exact Keeps.bind (keepsScalar_evalText expr) fun v => hbind hx v
  | listAppend name expr | listRemove name expr =>
    exact Keeps.bind (keepsScalar_evalText expr) fun v => keepsScalar_changeList name _ _
  | sort source target =>
    refine Keeps.bind (keeps_itemsOf source) fun items => ?_
    exact Keeps.bind (keeps_lift _) fun sorted => hbind hx _
  | filter source predicate target =>
    refine Keeps.bind (keeps_itemsOf source) fun items => Keeps.bind (keeps_lift _) fun e => ?_
    refine keepsScalar_restoring (by simpa [Statement.binds, eq_comm] using hx) fun hnames => ?_
    exact Eval.keeps_filterItems (Eval.keepsScalar_withItem (by simpa [eq_comm] using hnames) e) _
  | map source transform target =>
    refine Keeps.bind (keeps_itemsOf source) fun items => Keeps.bind (keeps_lift _) fun e => ?_
    refine keepsScalar_restoring (by simpa [Statement.binds, eq_comm] using hx) fun hnames => ?_
    exact Eval.keeps_mapItems (Eval.keepsScalar_withItem (by simpa [eq_comm] using hnames) e) _
  | reduce source combine target =>
    refine Keeps.bind (keeps_itemsOf source) fun items => ?_
    split
    · exact keeps_lift _
    · refine Keeps.bind (keeps_lift _) fun e => ?_
      refine keepsScalar_restoring (by simpa [Statement.binds, eq_comm] using hx) fun hnames => ?_
      simp only [List.mem_cons, List.not_mem_nil, or_false, not_or] at hnames
      exact Eval.keeps_reduceItems (Eval.keepsScalar_withItem (Ne.symm hnames.2) e)
        (Eval.keepsScalar_bindName (Ne.symm hnames.1)) _ _
  | call function args result => exact keepsScalar_callInto h function args hx
  | create var className args => exact keepsScalar_callInto h className args hx
  | loadModel model var =>
    refine Keeps.bind (keepsScalar_ask _) fun handle => Keeps.bind (hbind hx _) fun _ => ?_
    exact keepsScalar_of_vars fun _ => rfl
  | predict input output =>
    refine Keeps.bind (keepsScalar_evalText input) fun v => Keeps.bind keeps_get fun w => ?_
    split
    · exact keeps_lift _
    · exact Keeps.bind (keepsScalar_ask _) fun v => hbind hx v
  | train model data =>
    refine Keeps.bind (keeps_lookup model) fun v => ?_
    split
    · exact Keeps.bind (keepsScalar_evalText data) fun v => keepsScalar_ask _
    · exact keeps_lift _
  | raw text =>
    show Keeps _ (Act.raw text)
    unfold Act.raw
    cases hassignment : assignment? text with
    | some pair =>
      obtain ⟨place, a⟩ := pair
      simp only [Statement.binds, hassignment] at hx
      exact keepsScalar_store a.op a.expr hx
    | none => exact keepsScalar_runExpression text
  | _ => exact keeps_pure _

end Act

end StepScript
