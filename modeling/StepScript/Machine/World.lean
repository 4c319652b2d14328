import StepScript.Eval
import StepScript.Host.Basic

/-!
# Worlds

What statements act on, apart from the control of the program: the environment with its variables
and the host, printed lines, and the model loaded last. An action may end in a fault; what it did
before the fault stays done.
-/

set_option autoImplicit false

namespace StepScript

variable {σ α : Type}

/-- What statements act on. -/
structure World (σ : Type) where
  env : Env σ
  /-- The printed lines, the first one first. -/
  output : Array String := #[]
  lastModel : Option ModelHandle := none

/-- What the host remembers. -/
abbrev World.host (w : World σ) : σ :=
  w.env.host

/-- The model that predictions come from: the one bound to `model`, else the one loaded last. -/
def World.model? (w : World σ) : Option ModelHandle :=
  match w.env.get? "model" with
  | some (.modelRef model) => some model
  | _ => w.lastModel

/-- An action on a world. -/
abbrev Act (σ α : Type) :=
  ExceptT Fault (StateM (World σ)) α

namespace Act

/-- A result that needs no world. -/
def lift (r : Except Fault α) : Act σ α :=
  ExceptT.mk (pure r)

/-- An evaluation, which acts on the environment only. -/
def eval (e : Eval σ α) : Act σ α :=
  ExceptT.mk fun w =>
    let (r, env) := e.run.run w.env
    (r, { w with env })

/-- A text evaluated. -/
def evalText (text : String) : Act σ Value :=
  eval (StepScript.evalText text)

/-- A request to the host. -/
def consult (request : σ → α × σ) : Act σ α :=
  ExceptT.mk fun w =>
    let (answer, host) := request w.env.host
    (.ok answer, { w with env := { w.env with host } })

/-- A request to the host that it may refuse. -/
def ask (request : σ → Except HostFault α × σ) : Act σ α := do
  lift (hosted (← consult request))

/-- The value of a variable. -/
def lookup (name : String) : Act σ Value := do
  lift ((← get).env.lookup name)

/-- A variable bound to a value. -/
def assign (name : String) (v : Value) : Act σ Unit :=
  modify fun w => { w with env := w.env.set name v }

/-- A line printed. -/
def emit (line : String) : Act σ Unit :=
  modify fun w => { w with output := w.output.push line }

/-! ## What actions do -/

@[simp] theorem run_get (w : World σ) : (get : Act σ (World σ)).run.run w = (.ok w, w) :=
  rfl

@[simp] theorem run_lift (r : Except Fault α) (w : World σ) :
    (lift r : Act σ α).run.run w = (r, w) :=
  rfl

@[simp] theorem run_eval (e : Eval σ α) (w : World σ) :
    (eval e : Act σ α).run.run w = ((e.run.run w.env).1, { w with env := (e.run.run w.env).2 }) :=
  rfl

@[simp] theorem run_consult (request : σ → α × σ) (w : World σ) :
    (consult request : Act σ α).run.run w
      = (.ok (request w.env.host).1,
        { w with env := { w.env with host := (request w.env.host).2 } }) :=
  rfl

@[simp] theorem run_ask (request : σ → Except HostFault α × σ) (w : World σ) :
    (ask request : Act σ α).run.run w
      = (hosted (request w.env.host).1,
        { w with env := { w.env with host := (request w.env.host).2 } }) :=
  rfl

@[simp] theorem run_lookup (name : String) (w : World σ) :
    (lookup name : Act σ Value).run.run w = (w.env.lookup name, w) :=
  rfl

@[simp] theorem run_assign (name : String) (v : Value) (w : World σ) :
    (assign name v : Act σ Unit).run.run w = (.ok (), { w with env := w.env.set name v }) :=
  rfl

@[simp] theorem run_emit (line : String) (w : World σ) :
    (emit line : Act σ Unit).run.run w = (.ok (), { w with output := w.output.push line }) :=
  rfl

/-- One action after another: the second one starts where the first one has left the world, and
    not at all after a fault. -/
theorem run_bind {β : Type} (a : Act σ α) (f : α → Act σ β) (w : World σ) :
    (a >>= f).run.run w
      = match a.run.run w with
        | (.ok x, w) => (f x).run.run w
        | (.error fault, w) => (.error fault, w) := by
  simp only [ExceptT.run_bind, StateT.run_bind]
  rcases a.run.run w with ⟨r, w'⟩
  cases r <;> rfl

end Act

end StepScript
