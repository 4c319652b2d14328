import StepScript.Eval
import StepScript.Proofs.Keeping

/-!
# Effects of evaluation

Evaluating an expression changes an environment in one way only: a changing method that is called on
a variable puts another list, or another dictionary, in the place of the old one; and a function of
the host may leave the host in another state. `receivers` collects those variables from the text of
an expression, and `Env.Evolves` says what the rest of the environment looks like afterwards, after
a fault as well as after a value.

Every function of the evaluator gets one lemma that says what it keeps, with `Keeps` for the
relation between the environments before and after, so that the whole is an induction over the
expression: what the functions in reach and the changing methods of its receivers keep, the
expression keeps (`Expr.keeps_eval`). It follows that an expression without receivers leaves the
environment alone when the functions in reach are pure (`Expr.run_eval_of_receivers`), and that a
variable whose method is called still holds a list or dictionary when the arguments have been
evaluated (`Expr.evaluate_named_method`).
-/

set_option autoImplicit false

namespace StepScript

variable {σ α β : Type}

/-! ## Receivers -/

namespace Expr

/-- The variable that a call of this callee may change: the one whose changing method it is. -/
def calledOn : Expr → List String
  | .field (.name x) method => if Method.mutates method then [x] else []
  | _ => []

mutual

/-- The variables that are the direct receivers of calls of changing methods. -/
def receivers : Expr → List String
  | .literal _ | .name _ => []
  | .list items => receiversAll items
  | .dict entries => receiversEntries entries
  | .unary _ e => receivers e
  | .binary _ l r => receivers l ++ receivers r
  | .call callee args => calledOn callee ++ (receivers callee ++ receiversAll args)
  | .index c i => receivers c ++ receivers i
  | .slice c low high => receivers c ++ (receiversBound low ++ receiversBound high)
  | .field owner _ => receivers owner
termination_by structural e => e

/-- The receivers in a list of expressions. -/
def receiversAll : List Expr → List String
  | [] => []
  | e :: es => receivers e ++ receiversAll es
termination_by structural es => es

/-- The receivers in the entries of a dictionary. -/
def receiversEntries : List (Expr × Expr) → List String
  | [] => []
  | e :: es => receiversEntry e ++ receiversEntries es
termination_by structural es => es

/-- The receivers in a key and its value. -/
def receiversEntry : Expr × Expr → List String
  | (k, v) => receivers k ++ receivers v
termination_by structural e => e

/-- The receivers in a slice bound. -/
def receiversBound : Option Expr → List String
  | none => []
  | some e => receivers e
termination_by structural e => e

end

end Expr

/-! ## Environments that evolve -/

/-- Methods can change lists and dictionaries. -/
theorem isContainer_iff {v : Value} : isContainer v = true ↔ v.kind = .list ∨ v.kind = .dict := by
  cases v <;> simp [isContainer, Value.kind]

theorem isContainer_of_kind_eq {v v' : Value} (hkind : v'.kind = v.kind) :
    isContainer v' = isContainer v := by
  rw [Bool.eq_iff_iff, isContainer_iff, isContainer_iff, hkind]

/-- The environment after an evaluation that may change some variables: what the host has handed
    out is the same, and a variable is as it was, unless it is one of those, held a list or
    dictionary and holds one of the same kind again. -/
structure Env.Evolves (changed : List String) (env after : Env σ) : Prop where
  objects : after.objects = env.objects
  modules : after.modules = env.modules
  bindings : ∀ x, after.get? x = env.get? x ∨
    x ∈ changed ∧ ∃ v v', env.get? x = some v ∧ after.get? x = some v' ∧
      isContainer v = true ∧ v'.kind = v.kind

namespace Env.Evolves

variable {changed more : List String} {env mid after : Env σ}

theorem refl (changed : List String) (env : Env σ) : env.Evolves changed env :=
  ⟨rfl, rfl, fun _ => Or.inl rfl⟩

theorem mono (h : env.Evolves changed after) (hsub : changed ⊆ more) : env.Evolves more after := by
  refine ⟨h.objects, h.modules, fun x => ?_⟩
  rcases h.bindings x with hsame | ⟨hx, hkept⟩
  · exact Or.inl hsame
  · exact Or.inr ⟨hsub hx, hkept⟩

theorem trans (h₁ : env.Evolves changed mid) (h₂ : mid.Evolves changed after) :
    env.Evolves changed after := by
  refine ⟨h₂.objects.trans h₁.objects, h₂.modules.trans h₁.modules, fun x => ?_⟩
  rcases h₁.bindings x with hsame₁ | ⟨hx, v, v₁, hv, hv₁, hcont, hkind₁⟩
  · rw [← hsame₁]
    exact h₂.bindings x
  · rcases h₂.bindings x with hsame₂ | ⟨-, v₁', v₂, hv₁', hv₂, -, hkind₂⟩
    · exact Or.inr ⟨hx, v, v₁, hv, hsame₂.trans hv₁, hcont, hkind₁⟩
    · -- both steps start or end at the value in between
      obtain rfl : v₁' = v₁ := Option.some.inj (hv₁'.symm.trans hv₁)
      exact Or.inr ⟨hx, v, v₂, hv, hv₂, hcont, hkind₂.trans hkind₁⟩

instance : Std.Refl (Env.Evolves (σ := σ) changed) :=
  ⟨refl changed⟩

instance : Trans (Env.Evolves (σ := σ) changed) (Env.Evolves (σ := σ) changed)
    (Env.Evolves (σ := σ) changed) :=
  ⟨trans⟩

/-- The same names are bound. -/
theorem isSome_eq (h : env.Evolves changed after) (x : String) :
    (after.get? x).isSome = (env.get? x).isSome := by
  rcases h.bindings x with hsame | ⟨-, v, v', hv, hv', -⟩
  · rw [hsame]
  · rw [hv, hv']
    rfl

/-- A variable that may not be changed is not. -/
theorem get?_eq (h : env.Evolves changed after) {x : String} (hx : x ∉ changed) :
    after.get? x = env.get? x := by
  rcases h.bindings x with hsame | ⟨hmem, -⟩
  · exact hsame
  · exact absurd hmem hx

/-- A list stays a list and a dictionary stays a dictionary; nothing else is changed. -/
theorem kind_eq (h : env.Evolves changed after) {x : String} {v v' : Value}
    (hv : env.get? x = some v) (hv' : after.get? x = some v') (hne : v' ≠ v) :
    isContainer v = true ∧ v'.kind = v.kind := by
  rcases h.bindings x with hsame | ⟨-, w, w', hw, hw', hcont, hkind⟩
  · rw [hsame, hv, Option.some.injEq] at hv'
    exact absurd hv'.symm hne
  · obtain rfl : w = v := Option.some.inj (hw.symm.trans hv)
    obtain rfl : w' = v' := Option.some.inj (hw'.symm.trans hv')
    exact ⟨hcont, hkind⟩

/-- A bound variable is bound to a value of the same kind afterwards. -/
theorem exists_same_kind (h : env.Evolves changed after) {x : String} {v : Value}
    (hv : env.get? x = some v) : ∃ v', after.get? x = some v' ∧ v'.kind = v.kind := by
  rcases h.bindings x with hsame | ⟨-, w, w', hw, hw', -, hkind⟩
  · exact ⟨v, hsame.trans hv, rfl⟩
  · obtain rfl : w = v := Option.some.inj (hw.symm.trans hv)
    exact ⟨w', hw', hkind⟩

/-- A variable given a value of its own kind. -/
theorem set {x : String} {v v' : Value} (hv : env.get? x = some v) (hcont : isContainer v = true)
    (hkind : v'.kind = v.kind) : env.Evolves [x] (env.set x v') := by
  refine ⟨rfl, rfl, fun y => ?_⟩
  by_cases hxy : x = y
  · subst hxy
    exact Or.inr ⟨List.mem_singleton_self x, v, v', hv, by simp [Env.get?_set], hcont, hkind⟩
  · exact Or.inl (by simp [Env.get?_set, hxy])

end Env.Evolves

/-! ## Evaluations and what they change -/

/-- The evaluation changes no more than some variables, whether it ends well or in a fault. -/
abbrev Eval.Changes (changed : List String) (e : Eval σ α) : Prop :=
  Keeps (Env.Evolves changed) e

namespace Eval

variable {changed more : List String}

theorem keeps_lift {R : Env σ → Env σ → Prop} [Std.Refl R] (r : Except Fault α) :
    Keeps R (Eval.lift r) :=
  fun env => Std.Refl.refl env

theorem changes_lift (r : Except Fault α) : Changes changed (Eval.lift r : Eval σ α) :=
  keeps_lift r

theorem Changes.mono {e : Eval σ α} (he : Changes changed e) (hsub : changed ⊆ more) :
    Changes more e :=
  Keeps.imp he fun h => h.mono hsub

end Eval

/-! ## Functions of the host -/

/-- The functions in reach do not look at the host and do not change it. -/
structure Env.PureFunctions (env : Env σ) : Prop where
  objects : ∀ {name object}, env.objects.get? name = some object →
    ∃ f, object.run = Native.pure f
  functions : ∀ {name run}, env.moduleFunction? name = some run → ∃ f, run = Native.pure f

/-- The environment is as it was, provided that the functions in reach are pure. -/
def Env.SameIfPure (env after : Env σ) : Prop :=
  env.PureFunctions → after = env

/-- The environment is as it was, apart from the host. -/
def Env.SameButHost (env after : Env σ) : Prop :=
  after = { env with host := after.host }

instance : Std.Refl (Env.SameIfPure (σ := σ)) :=
  ⟨fun _ _ => rfl⟩

instance : Trans (Env.SameIfPure (σ := σ)) (Env.SameIfPure (σ := σ)) (Env.SameIfPure (σ := σ)) where
  trans h₁ h₂ hpure := by
    obtain rfl := h₁ hpure
    exact h₂ hpure

instance : Std.Refl (Env.SameButHost (σ := σ)) :=
  ⟨fun _ => rfl⟩

instance : Trans (Env.SameButHost (σ := σ)) (Env.SameButHost (σ := σ))
    (Env.SameButHost (σ := σ)) where
  trans h₁ h₂ := by
    rw [Env.SameButHost] at h₁ h₂ ⊢
    rw [h₂, h₁]

/-- Where nothing has been handed out, only built-in functions are in reach. -/
theorem Env.pureFunctions_of_empty {env : Env σ} (hobjects : env.objects = {})
    (hmodules : env.modules = {}) : env.PureFunctions := by
  refine ⟨fun hobject => ?_, fun hfunction => ?_⟩
  · rw [hobjects] at hobject
    cases hobject
  · unfold Env.moduleFunction? at hfunction
    rw [hmodules] at hfunction
    split at hfunction <;> cases hfunction

theorem Env.PureFunctions.set {env : Env σ} (hpure : env.PureFunctions) (name : String)
    (v : Value) : (env.set name v).PureFunctions :=
  ⟨hpure.objects, hpure.functions⟩

/-- Evaluation does not change which functions are in reach. -/
theorem Env.PureFunctions.evolves {changed : List String} {env after : Env σ}
    (hpure : env.PureFunctions) (h : env.Evolves changed after) : after.PureFunctions := by
  refine ⟨fun hobject => hpure.objects (h.objects ▸ hobject), fun hfunction => ?_⟩
  unfold Env.moduleFunction? at hfunction
  rw [h.modules] at hfunction
  exact hpure.functions hfunction

/-- Pure functions leave the host alone. -/
theorem Env.PureFunctions.callNamed_host {env : Env σ} (hpure : env.PureFunctions) (name : String)
    (args : List Value) : (env.callNamed name args).2 = env.host := by
  unfold Env.callNamed
  split
  · next object hobject =>
    obtain ⟨f, hf⟩ := hpure.objects hobject
    rw [hf]
    rfl
  · split
    · next run hrun =>
      obtain ⟨f, rfl⟩ := hpure.functions hrun
      rfl
    · split <;> rfl

/-- Calls of functions keep a relation, whatever is called with whatever arguments. -/
def CallsKeep (R : Env σ → Env σ → Prop) : Prop :=
  ∀ target args, Keeps R (Eval.call (·.callValue target args))

theorem callsKeep_evolves (changed : List String) : CallsKeep (σ := σ) (Env.Evolves changed) :=
  fun _ _ _ => ⟨rfl, rfl, fun _ => Or.inl rfl⟩

theorem callsKeep_sameButHost : CallsKeep (σ := σ) Env.SameButHost :=
  fun _ _ _ => rfl

theorem callsKeep_sameIfPure : CallsKeep (σ := σ) Env.SameIfPure := by
  intro target args env hpure
  have hhost : (env.callValue target args).2 = env.host := by
    unfold Env.callValue
    split
    · exact hpure.callNamed_host _ args
    · rfl
  show { env with host := (env.callValue target args).2 } = env
  rw [hhost]

/-! ## Methods -/

namespace Method

/-- Taking out a key that is not there takes out nothing. -/
theorem eq_of_take_none {key : Value} {d rest : Dict} (h : Dict.take key d = (none, rest)) :
    rest = d := by
  induction d generalizing rest with
  | nil => exact (congrArg Prod.snd h).symm
  | cons e d ih =>
    rw [Dict.take] at h
    split at h
    · cases congrArg Prod.fst h
    · obtain ⟨hfst, rfl⟩ := Prod.mk.inj h
      exact congrArg (e :: ·) (ih (Prod.ext hfst rfl))

theorem atomic_removeItem (item : Value) : Atomic Eq (removeItem item) := by
  refine Atomic.bind keeps_get fun items => ?_
  split
  · exact (total_modify _).atomic
  · exact (keeps_result _).atomic

theorem atomic_popItem (index : Int) : Atomic Eq (popItem index) := by
  refine Atomic.bind keeps_get fun items => ?_
  split
  · exact (Total.bind (total_set _) fun _ => total_pure _).atomic
  · exact (keeps_result _).atomic

/-- A list is changed after everything that may end in a fault. -/
theorem atomic_mutateList (method : String) (args : List Value) :
    Atomic Eq (mutateList method args) := by
  unfold mutateList
  split
  · refine Atomic.bind (keeps_result _) fun item => Total.atomic ?_
    exact Total.bind (total_modify _) fun _ => total_pure _
  · refine Atomic.bind (keeps_result _) fun more => Total.atomic ?_
    exact Total.bind (total_modify _) fun _ => total_pure _
  · refine Atomic.bind (keeps_result _) fun position => ?_
    split
    · refine Atomic.bind (keeps_result _) fun item => Total.atomic ?_
      exact Total.bind (total_modify _) fun _ => total_pure _
    · exact (keeps_result _).atomic
  · split
    · exact atomic_popItem _
    · split
      · exact atomic_popItem _
      · exact (keeps_result _).atomic
  · refine Atomic.bind (keeps_result _) fun item => ?_
    exact Atomic.andThen (atomic_removeItem item) fun _ => total_pure _
  · exact (Total.bind (total_set _) fun _ => total_pure _).atomic
  · exact Atomic.bind keeps_get fun items => (keeps_result _).atomic

theorem run_popKey (key : Value) (default : Option Value) (d : Dict) :
    (popKey key default).run.run d
      = (match (Dict.take key d).1, default with
        | some v, _ => .ok v
        | none, some v => .ok v
        | none, none => .error (noKey key), (Dict.take key d).2) := by
  show (match (Dict.take key d).1, default with
    | some v, _ => pure v
    | none, some v => pure v
    | none, none => Change.lift (.error (noKey key)) : Change Dict Value).run.run
      (Dict.take key d).2 = _
  cases (Dict.take key d).1 <;> cases default <;> rfl

/-- The key is taken out before it is known that there is nothing to give; but then it was not
    there. -/
theorem atomic_popKey (key : Value) (default : Option Value) : Atomic Eq (popKey key default) := by
  intro d fault d' hrun
  rw [run_popKey] at hrun
  obtain ⟨hfault, rfl⟩ := Prod.mk.inj hrun
  cases htake : (Dict.take key d).1 with
  | some v =>
    rw [htake] at hfault
    cases hfault
  | none => exact (eq_of_take_none (Prod.ext htake rfl)).symm

theorem atomic_mutateDict (method : String) (args : List Value) :
    Atomic Eq (mutateDict method args) := by
  unfold mutateDict
  split
  · exact Atomic.bind (keeps_result _) fun key => atomic_popKey key _
  · refine Atomic.bind (keeps_result _) fun other => ?_
    split
    · exact (Total.bind (total_modify _) fun _ => total_pure _).atomic
    · exact (keeps_result _).atomic
  · exact (Total.bind (total_set _) fun _ => total_pure _).atomic
  · exact Atomic.bind keeps_get fun d => (keeps_result _).atomic

/-- **A changing method that ends in a fault leaves its receiver as it was.** -/
theorem atomic_mutate (method : String) (args : List Value) : Atomic Eq (mutate method args) := by
  intro v fault v' hrun
  cases v with
  | list items =>
    rcases hlist : (mutateList method args).run.run items with ⟨r, items'⟩
    have hrun : (r, Value.list items') = (.error fault, v') := by
      rw [← hrun]
      show _ = (mutateList method args).within .list items
      rw [Change.within, hlist]
    obtain ⟨rfl, rfl⟩ := Prod.mk.inj hrun
    rw [atomic_mutateList method args items fault items' hlist]
  | dict d =>
    rcases hdict : (mutateDict method args).run.run d with ⟨r, d'⟩
    have hrun : (r, Value.dict d') = (.error fault, v') := by
      rw [← hrun]
      show _ = (mutateDict method args).within .dict d
      rw [Change.within, hdict]
    obtain ⟨rfl, rfl⟩ := Prod.mk.inj hrun
    rw [atomic_mutateDict method args d fault d' hdict]
  | _ => exact congrArg Prod.snd hrun

/-- What a changing method leaves is of the kind of the receiver. -/
theorem kind_mutate (method : String) (args : List Value) (v : Value) :
    ((mutate method args).run.run v).2.kind = v.kind := by
  cases v <;> rfl

/-- Only lists and dictionaries have changing methods. -/
theorem isContainer_of_mutate {method : String} {args : List Value} {v v' result : Value}
    (h : (mutate method args).run.run v = (.ok result, v')) : isContainer v = true := by
  cases v with
  | list _ | dict _ => rfl
  | _ => cases congrArg Prod.fst h

end Method

/-- What is done to the value of a variable is done to nothing else, and undone when it is. -/
theorem atomic_changeVariable (name : String) {change : Change Value α} (h : Atomic Eq change) :
    Atomic Eq (changeVariable name change : Eval σ α) := by
  intro env fault env' hrun
  rw [run_changeVariable] at hrun
  cases hget : env.get? name with
  | none =>
    simp only [Env.lookup, hget] at hrun
    exact congrArg Prod.snd hrun
  | some v =>
    simp only [Env.lookup, hget] at hrun
    rcases hchange : change.run.run v with ⟨r, v'⟩
    rw [hchange] at hrun
    obtain ⟨rfl, rfl⟩ := Prod.mk.inj hrun
    obtain rfl := h v fault v' hchange
    rw [Env.set_eq_self hget]

/-- A changing method called on a variable: the variable is replaced when the method gives a
    result, and a fault leaves the environment alone. -/
theorem run_changeVariable_mutate (name method : String) (args : List Value) (env : Env σ) :
    (changeVariable name (Method.mutate method args)).run.run env
      = match env.lookup name with
        | .error fault => (.error fault, env)
        | .ok receiver =>
          match (Method.mutate method args).run.run receiver with
          | (.error fault, _) => (.error fault, env)
          | (.ok result, receiver) => (.ok result, env.set name receiver) := by
  have hatomic := atomic_changeVariable name (Method.atomic_mutate method args) env
  rw [run_changeVariable] at hatomic ⊢
  cases hlookup : env.lookup name with
  | error fault => rfl
  | ok receiver =>
    simp only [hlookup] at hatomic ⊢
    rcases hrun : (Method.mutate method args).run.run receiver with ⟨r, after⟩
    rw [hrun] at hatomic
    cases r with
    | ok result => rfl
    | error fault => exact congrArg (Prod.mk _) (hatomic fault _ rfl).symm

theorem changes_changeVariable_mutate (name method : String) (args : List Value) :
    Eval.Changes [name] (changeVariable name (Method.mutate method args) : Eval σ Value) := by
  intro env
  rw [run_changeVariable_mutate]
  cases hget : env.get? name with
  | none =>
    simp only [Env.lookup, hget]
    exact .refl _ env
  | some receiver =>
    simp only [Env.lookup, hget]
    have hkind := Method.kind_mutate method args receiver
    rcases hrun : (Method.mutate method args).run.run receiver with ⟨r, after⟩
    cases r with
    | error fault => exact .refl _ env
    | ok result =>
      rw [hrun] at hkind
      exact .set hget (Method.isContainer_of_mutate hrun) hkind

/-- Changing methods of some variables keep a relation, whatever their arguments are. -/
def MethodsKeep (R : Env σ → Env σ → Prop) (changed : List String) : Prop :=
  ∀ x ∈ changed, ∀ method args, Keeps R (changeVariable x (Method.mutate method args))

theorem methodsKeep_append {R : Env σ → Env σ → Prop} {changed more : List String} :
    MethodsKeep R (changed ++ more) ↔ MethodsKeep R changed ∧ MethodsKeep R more :=
  List.forall_mem_append

/-- A method call works on the variable it is called on, if the method is a changing one, or is a
    call of a function. -/
theorem keeps_callMethod {R : Env σ → Env σ → Prop} [Std.Refl R] [Trans R R R]
    (hcalls : CallsKeep R) {receiver : Expr} {method : String}
    (hmethods : MethodsKeep R (Expr.calledOn (.field receiver method))) (object : Value)
    (args : List Value) : Keeps R (callMethod receiver object method args) := by
  unfold callMethod
  split
  · exact Keeps.bind keeps_get fun env => Keeps.bind (Eval.keeps_lift _) fun v => hcalls v args
  · exact Keeps.bind keeps_get fun env => Keeps.bind (Eval.keeps_lift _) fun v => hcalls v args
  · split
    · next hchanging =>
      simp only [Bool.and_eq_true] at hchanging
      split
      · next name =>
        exact hmethods name (by simp [Expr.calledOn, hchanging.2]) method args
      · exact Eval.keeps_lift _
    · exact Eval.keeps_lift _

/-! ## Expressions -/

namespace Expr

open Eval

section

variable {R : Env σ → Env σ → Prop} [Std.Refl R] [Trans R R R]

/-- A method is called on the owner of the field, which the field has evaluated as well. -/
theorem keeps_eval_call (hcalls : CallsKeep R) {callee : Expr} {args : List Expr}
    (hcalled : MethodsKeep R callee.calledOn)
    (hcallee : Keeps R callee.eval) (hargs : Keeps R (evalAll args)) :
    Keeps R (eval (.call callee args)) := by
  cases callee with
  | field owner method =>
    have howner : Keeps R owner.eval := by
      unfold eval at hcallee
      exact Keeps.of_bind hcallee fun _ _ => rfl
    unfold eval
    refine Keeps.bind howner fun object => Keeps.bind hargs fun vs => ?_
    exact keeps_callMethod hcalls hcalled object vs
  | _ =>
    rw [eval]
    · exact Keeps.bind hcallee fun target => Keeps.bind hargs fun vs => hcalls target vs
    · simp

mutual

/-- **An expression keeps what the functions in reach and the changing methods of its receivers
    keep.** -/
theorem keeps_eval (hcalls : CallsKeep R) : (e : Expr) → MethodsKeep R e.receivers → Keeps R e.eval
  | .literal v, _ => by
    unfold eval
    exact keeps_pure v
  | .name n, _ => by
    unfold eval
    exact Keeps.bind keeps_get fun env => keeps_lift _
  | .list items, h => by
    unfold eval
    exact Keeps.bind (keeps_evalAll hcalls items h) fun _ => keeps_pure _
  | .dict entries, h => by
    unfold eval
    exact Keeps.bind (keeps_evalEntries hcalls entries h []) fun _ => keeps_pure _
  | .unary op e, h => by
    unfold eval
    exact Keeps.bind (keeps_eval hcalls e h) fun _ => keeps_lift _
  | .binary op l r, h => by
    obtain ⟨hl, hr⟩ := methodsKeep_append.1 h
    cases op with
    | and | or =>
      unfold eval
      refine Keeps.bind (keeps_eval hcalls l hl) fun left => ?_
      split
      · first | exact keeps_eval hcalls r hr | exact keeps_pure _
      · first | exact keeps_eval hcalls r hr | exact keeps_pure _
    | _ =>
      unfold eval
      refine Keeps.bind (keeps_eval hcalls l hl) fun left => ?_
      exact Keeps.bind (keeps_eval hcalls r hr) fun right => keeps_lift _
  | .call callee args, h => by
    obtain ⟨hcalled, h⟩ := methodsKeep_append.1 h
    obtain ⟨hcallee, hargs⟩ := methodsKeep_append.1 h
    exact keeps_eval_call hcalls hcalled (keeps_eval hcalls callee hcallee)
      (keeps_evalAll hcalls args hargs)
  | .index c i, h => by
    obtain ⟨hc, hi⟩ := methodsKeep_append.1 h
    unfold eval
    refine Keeps.bind (keeps_eval hcalls c hc) fun _ => ?_
    exact Keeps.bind (keeps_eval hcalls i hi) fun _ => keeps_lift _
  | .slice c low high, h => by
    obtain ⟨hc, h⟩ := methodsKeep_append.1 h
    obtain ⟨hlow, hhigh⟩ := methodsKeep_append.1 h
    unfold eval
    refine Keeps.bind (keeps_eval hcalls c hc) fun _ => ?_
    refine Keeps.bind (keeps_evalBound hcalls low hlow) fun _ => ?_
    exact Keeps.bind (keeps_evalBound hcalls high hhigh) fun _ => keeps_lift _
  | .field owner member, h => by
    unfold eval
    refine Keeps.bind (keeps_eval hcalls owner h) fun _ => ?_
    exact Keeps.bind keeps_get fun env => keeps_lift _
termination_by structural e => e

theorem keeps_evalAll (hcalls : CallsKeep R) :
    (es : List Expr) → MethodsKeep R (receiversAll es) → Keeps R (evalAll es)
  | [], _ => by
    unfold evalAll
    exact keeps_pure _
  | e :: es, h => by
    obtain ⟨he, hes⟩ := methodsKeep_append.1 h
    unfold evalAll
    refine Keeps.bind (keeps_eval hcalls e he) fun _ => ?_
    exact Keeps.bind (keeps_evalAll hcalls es hes) fun _ => keeps_pure _
termination_by structural es => es

theorem keeps_evalEntries (hcalls : CallsKeep R) :
    (es : List (Expr × Expr)) → MethodsKeep R (receiversEntries es) →
      (d : Dict) → Keeps R (evalEntries es d)
  | [], _, d => by
    unfold evalEntries
    exact keeps_pure _
  | e :: es, h, d => by
    obtain ⟨he, hes⟩ := methodsKeep_append.1 h
    unfold evalEntries
    exact Keeps.bind (keeps_evalEntry hcalls e he) fun _ => keeps_evalEntries hcalls es hes _
termination_by structural es => es

theorem keeps_evalEntry (hcalls : CallsKeep R) :
    (e : Expr × Expr) → MethodsKeep R (receiversEntry e) → Keeps R (evalEntry e)
  | (k, v), h => by
    obtain ⟨hk, hv⟩ := methodsKeep_append.1 h
    unfold evalEntry
    refine Keeps.bind (keeps_eval hcalls k hk) fun _ => ?_
    exact Keeps.bind (keeps_eval hcalls v hv) fun _ => keeps_pure _
termination_by structural e => e

theorem keeps_evalBound (hcalls : CallsKeep R) :
    (bound : Option Expr) → MethodsKeep R (receiversBound bound) → Keeps R (evalBound bound)
  | none, _ => by
    unfold evalBound
    exact keeps_pure _
  | some e, h => by
    unfold evalBound
    exact Keeps.bind (keeps_eval hcalls e h) fun _ => keeps_lift _
termination_by structural e => e

end

end

theorem methodsKeep_nil {R : Env σ → Env σ → Prop} : MethodsKeep R [] :=
  fun _ hx => absurd hx List.not_mem_nil

/-- An expression that calls no changing method on a variable leaves the environment alone, if the
    functions that it may call leave the host alone. -/
theorem run_eval_of_receivers {e : Expr} (h : e.receivers = []) {env : Env σ}
    (hpure : env.PureFunctions) : e.eval.run.run env = ((e.evaluate env).1, env) :=
  Prod.ext rfl (keeps_eval callsKeep_sameIfPure e (h ▸ methodsKeep_nil) env hpure)

/-- A changing method changes its own variable. -/
theorem methodsKeep_evolves (changed : List String) :
    MethodsKeep (σ := σ) (Env.Evolves changed) changed :=
  fun x hx method args =>
    Changes.mono (changes_changeVariable_mutate x method args) (by simpa using hx)

/-- **An expression changes no variable but the receivers of its changing methods.** -/
theorem changes_eval (e : Expr) : Changes (σ := σ) e.receivers e.eval :=
  keeps_eval (callsKeep_evolves _) e (methodsKeep_evolves _)

theorem changes_evalAll (es : List Expr) : Changes (σ := σ) (receiversAll es) (evalAll es) :=
  keeps_evalAll (callsKeep_evolves _) es (methodsKeep_evolves _)

end Expr

/-! ## Methods of variables -/

/-- A name that stands for a list or dictionary is a variable. -/
theorem Env.get?_of_nameValue {env : Env σ} {x : String} {object : Value}
    (hname : env.nameValue x = .ok object) (hcont : isContainer object = true) :
    env.get? x = some object := by
  unfold Env.nameValue at hname
  split at hname
  · next v hget =>
    rw [hget, Except.ok.inj hname]
  · split at hname
    · -- functions are no containers
      cases hname
      cases hcont
    · cases hname

/-- A changing method of a list or dictionary that a name stands for works on the variable. -/
theorem run_callMethod_name {x method : String} {object : Value} {args : List Value} (env : Env σ)
    (hcont : isContainer object = true) (hmutates : Method.mutates method = true) :
    (callMethod (.name x) object method args).run.run env
      = (changeVariable x (Method.mutate method args)).run.run env := by
  cases object with
  | list items | dict entries =>
    show (if isContainer _ && Method.mutates method then _ else _ : Eval σ Value).run.run env = _
    rw [hmutates]
    rfl
  | _ => cases hcont

namespace Expr

/-- **A changing method called on a variable finds its list or dictionary there**, whatever the
    arguments have done to it, and works on what it finds; a fault of the method leaves the
    environment as the arguments have left it. -/
theorem evaluate_named_method {x method : String} {args : List Expr} {object : Value}
    {vs : List Value} {env mid : Env σ} (hname : env.nameValue x = .ok object)
    (hcont : isContainer object = true) (hmutates : Method.mutates method = true)
    (hargs : (evalAll args).run.run env = (.ok vs, mid)) :
    ∃ v, mid.lookup x = .ok v ∧ isContainer v = true ∧ v.kind = object.kind ∧
      evaluate (.call (.field (.name x) method) args) env
        = match (Method.mutate method vs).run.run v with
          | (.error fault, _) => (.error fault, mid)
          | (.ok result, v') => (.ok result, mid.set x v') := by
  have hevolves : env.Evolves (receiversAll args) mid := by
    simpa only [hargs] using changes_evalAll args env
  obtain ⟨v, hv, hkind⟩ := hevolves.exists_same_kind (env.get?_of_nameValue hname hcont)
  have hlookup : mid.lookup x = .ok v := by
    simp only [Env.lookup, hv]
  refine ⟨v, hlookup, (isContainer_of_kind_eq hkind).trans hcont, hkind, ?_⟩
  have howner : (eval (.name x)).run.run env = (.ok object, env) := by
    show (Eval.lift (env.nameValue x)).run.run env = _
    rw [hname, Eval.run_lift]
  unfold evaluate eval
  rw [Eval.run_bind, howner]
  dsimp only
  rw [Eval.run_bind, hargs]
  dsimp only
  rw [run_callMethod_name mid hcont hmutates, run_changeVariable_mutate, hlookup]
  rfl

/-- **What evaluation does to an environment**, whether it gives a value or a fault: the functions
    and modules are the same and the same variables are bound; variables that are not receivers of
    changing methods are unchanged, and a variable that is changed was a list or dictionary and is
    one of the same kind. So the receiver that a changing method call looks up again is there, and
    is a list or dictionary. -/
theorem evaluate_effects (e : Expr) (env : Env σ) :
    (e.evaluate env).2.objects = env.objects ∧ (e.evaluate env).2.modules = env.modules ∧
      (∀ x, ((e.evaluate env).2.get? x).isSome = (env.get? x).isSome) ∧
      (∀ x, x ∉ e.receivers → (e.evaluate env).2.get? x = env.get? x) ∧
      (∀ x v v', env.get? x = some v → (e.evaluate env).2.get? x = some v' → v' ≠ v →
        (v.kind = .list ∨ v.kind = .dict) ∧ v'.kind = v.kind) ∧
      ∀ x method args object vs mid, env.nameValue x = .ok object → isContainer object = true →
        Method.mutates method = true → (evalAll args).run.run env = (.ok vs, mid) →
        ∃ v, mid.lookup x = .ok v ∧ (v.kind = .list ∨ v.kind = .dict) ∧
          evaluate (.call (.field (.name x) method) args) env
            = match (Method.mutate method vs).run.run v with
              | (.error fault, _) => (.error fault, mid)
              | (.ok result, v') => (.ok result, mid.set x v') := by
  have hevolves : env.Evolves e.receivers (e.evaluate env).2 := changes_eval e env
  refine ⟨hevolves.objects, hevolves.modules, hevolves.isSome_eq, fun x hx => hevolves.get?_eq hx,
    ?_, ?_⟩
  · intro x v v' hv hv' hne
    obtain ⟨hcont, hkind⟩ := hevolves.kind_eq hv hv' hne
    exact ⟨isContainer_iff.1 hcont, hkind⟩
  · intro x method args object vs mid hname hcont hmutates hargs
    obtain ⟨v, hlookup, hv, -, hcall⟩ := evaluate_named_method hname hcont hmutates hargs
    exact ⟨v, hlookup, isContainer_iff.1 hv, hcall⟩

/-- In `xs.append(xs.pop())` the argument shortens the list before it is extended; the list is
    still there, and no other variable is touched. -/
theorem evaluate_effects_popAppend :
    let env : Env Unit :=
      { vars := ⟨[("xs", .list [.int 1, .int 2]), ("n", .int 3)]⟩, host := () }
    let pop : Expr := .call (.field (.name "xs") "pop") []
    let append : Expr := .call (.field (.name "xs") "append") [pop]
    (append.evaluate env).2.get? "n" = some (.int 3) ∧
      ∃ v, ((evalAll [pop]).run.run env).2.lookup "xs" = .ok v ∧
        (v.kind = .list ∨ v.kind = .dict) := by
  intro env pop append
  obtain ⟨-, -, -, hkept, -, hmethod⟩ := evaluate_effects append env
  refine ⟨(hkept "n" (by decide)).trans rfl, ?_⟩
  obtain ⟨v, hlookup, hkind, -⟩ := hmethod "xs" "append" [pop] (.list [.int 1, .int 2]) [.int 2]
    ((evalAll [pop]).run.run env).2 rfl rfl rfl rfl
  exact ⟨v, hlookup, hkind⟩

end Expr

end StepScript
