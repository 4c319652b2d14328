import StepScript.Table
import StepScript.Value.Basic

/-!
# Environments

What expressions are evaluated against: one flat space of variables, the functions and classes
that the host has handed out, and the modules that were imported.

A function of the host takes values and gives a value or a fault of the host. It may also look at
what the host remembers and change it, so the host's own state is part of the environment, and a
call leaves another one behind. Functions that do neither are made by `Native.pure`.
-/

set_option autoImplicit false

namespace StepScript

variable {σ τ : Type}

/-! ## What the host hands out -/

/-- A function of a host that has states of its own. -/
abbrev Native (σ : Type) :=
  List Value → σ → Except HostFault Value × σ

/-- A function whose result depends on its arguments alone, and which does nothing else. -/
def Native.pure (f : List Value → Except HostFault Value) : Native σ :=
  fun args s => (f args, s)

/-- A callable thing of the host. -/
inductive HostObject (σ : Type) where
  | function (run : Native σ)
  /-- A class, called to make an object. -/
  | maker (run : Native σ)

/-- What is called. -/
def HostObject.run : HostObject σ → Native σ
  | .function run => run
  | .maker run => run

/-- The thing with another function inside. -/
def HostObject.map (f : Native σ → Native τ) : HostObject σ → HostObject τ
  | .function run => .function (f run)
  | .maker run => .maker (f run)

@[simp] theorem HostObject.run_map (f : Native σ → Native τ) (object : HostObject σ) :
    (object.map f).run = f object.run := by
  cases object <;> rfl

/-- A module: named functions and constants. -/
structure Module (σ : Type) where
  name : String
  functions : Table (Native σ) := {}
  constants : Table Value := {}

/-- The module with other functions under the same names. -/
def Module.map (f : Native σ → Native τ) (m : Module σ) : Module τ where
  name := m.name
  functions := m.functions.map f
  constants := m.constants

/-! ## The environment -/

/-- Variables, host objects and modules in reach of an expression. -/
structure Env (σ : Type) where
  vars : Table Value := {}
  objects : Table (HostObject σ) := {}
  modules : Table (Module σ) := {}
  /-- What the host remembers. -/
  host : σ

namespace Env

/-- The value of a variable. -/
def get? (env : Env σ) (name : String) : Option Value :=
  env.vars.get? name

/-- The value of a variable, or the fault that there is none. -/
def lookup (env : Env σ) (name : String) : Except Fault Value :=
  match env.get? name with
  | some v => .ok v
  | none => .error (.undefined name)

/-- A variable bound to a value. -/
def set (env : Env σ) (name : String) (value : Value) : Env σ :=
  { env with vars := env.vars.set name value }

/-- A variable unbound. -/
def unset (env : Env σ) (name : String) : Env σ :=
  { env with vars := env.vars.erase name }

/-- A variable put back to an earlier state. -/
def restore (env : Env σ) (name : String) : Option Value → Env σ
  | some v => env.set name v
  | none => env.unset name

/-- A host object made callable by a name. -/
def register (env : Env σ) (name : String) (object : HostObject σ) : Env σ :=
  { env with objects := env.objects.set name object }

/-- A module brought in under its own name. -/
def addModule (env : Env σ) (m : Module σ) : Env σ :=
  { env with modules := env.modules.set m.name m }

theorem get?_set (env : Env σ) (name other : String) (v : Value) :
    (env.set name v).get? other = if name = other then some v else env.get? other :=
  Table.get?_set env.vars name other v

theorem get?_set_self (env : Env σ) (name : String) (v : Value) :
    (env.set name v).get? name = some v :=
  Table.get?_set_self env.vars name v

theorem get?_unset (env : Env σ) (name other : String) :
    (env.unset name).get? other = if name = other then none else env.get? other :=
  Table.get?_erase env.vars name other

theorem set_eq_self {env : Env σ} {name : String} {v : Value} (h : env.get? name = some v) :
    env.set name v = env := by
  simp only [set, Table.set, Table.put_of_find? h]

theorem set_set (env : Env σ) (name : String) (v w : Value) :
    (env.set name v).set name w = env.set name w := by
  simp only [set, Table.set, Table.put_put]

theorem set_set_set (env : Env σ) {name other : String} (h : name ≠ other) (u v w : Value) :
    ((env.set name u).set other v).set name w = (env.set name w).set other v := by
  simp only [set, Table.set, Table.put_put_put h]

/-! A name that is bound in between is put back to what it was. -/

theorem restore_self (env : Env σ) (name : String) : env.restore name (env.get? name) = env := by
  cases h : env.get? name with
  | none => simp only [restore, unset, Table.erase, Table.filter_ne_of_find? h]
  | some v => exact set_eq_self h

theorem restore_set (env : Env σ) (name : String) (v : Value) :
    (env.set name v).restore name (env.get? name) = env := by
  have hself := env.restore_self name
  cases h : env.get? name with
  | none =>
    rw [h] at hself
    simpa only [restore, unset, set, Table.set, Table.erase, Table.filter_ne_put] using hself
  | some u =>
    rw [h] at hself
    rw [restore, set_set]
    exact hself

theorem restore_set_set (env : Env σ) {name other : String} (h : name ≠ other) (v w : Value) :
    ((env.set name v).set other w).restore name (env.get? name) = env.set other w := by
  have hset := env.restore_set name v
  cases hget : env.get? name with
  | none =>
    rw [hget] at hset
    have hunset : ((env.set name v).set other w).unset name
        = ((env.set name v).unset name).set other w := by
      simp only [unset, set, Table.set, Table.erase, Table.filter_ne_put_of_ne (Ne.symm h)]
    rw [restore, hunset]
    exact congrArg (·.set other w) hset
  | some u =>
    rw [hget, restore, set_set] at hset
    rw [restore, set_set_set env h]
    exact congrArg (·.set other w) hset

end Env

end StepScript
