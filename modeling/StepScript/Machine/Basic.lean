import StepScript.Machine.World
import StepScript.Program.Basic

/-!
# Machines

The state of a running program: the world it acts on, the position of the next statement, and the
loops and protected blocks it is inside of, innermost first.
-/

set_option autoImplicit false

namespace StepScript

variable {σ : Type}

/-! ## Frames -/

/-- What is kept about an active block. -/
inductive FrameKind where
  /-- A counting loop: its variable and the last value that makes a pass. -/
  | forRange (var : String) (last : Int64)
  /-- A loop over items: its variable, the items as they were on entry, and the current one. -/
  | forEach (var : String) (items : List Value) (cursor : Nat)
  | whileLoop
  /-- A protected block, and where its faults are handled. -/
  | tryBlock (handler : Option Nat)

/-- The family of the block. -/
def FrameKind.block : FrameKind → Block
  | .forRange _ _ => .forRange
  | .forEach _ _ _ => .forEach
  | .whileLoop => .whileLoop
  | .tryBlock _ => .tryBlock

/-- An active block: its kind and the positions of its opener and closer. -/
structure Frame where
  kind : FrameKind
  start : Nat
  stop : Nat

/-- The block is a loop. -/
def Frame.isLoop (f : Frame) : Bool :=
  f.kind.block.isLoop

/-! ## Faults with places -/

/-- A fault, and the place of the statement that raised it. -/
structure RuntimeFault where
  fault : Fault
  location : Option Location := none
deriving DecidableEq, Repr

/-- The wording of a fault with its place. -/
def RuntimeFault.text (wording : Wording) (f : RuntimeFault) : String :=
  match f.location with
  | some l =>
    "STEP " ++ Text.natText l.step ++ " (line " ++ Text.natText l.line ++ "): "
      ++ f.fault.message wording
  | none => f.fault.message wording

/-! ## Machines -/

/-- Whether a program still runs. -/
inductive Control where
  | running
  /-- Ended by a statement that returns. -/
  | returned (value : Value)
  /-- Ended by a fault that was not handled. -/
  | faulted (fault : RuntimeFault)

/-- The state of a running program. -/
structure Machine (σ : Type) where
  world : World σ
  /-- The position of the next statement. -/
  ip : Nat := 0
  /-- The active blocks, innermost first. -/
  frames : List Frame := []
  control : Control := .running

namespace Machine

/-- The program has not been ended by a statement. -/
def isRunning (m : Machine σ) : Bool :=
  match m.control with
  | .running => true
  | _ => false

/-- Nothing is left to do. -/
def isDone (p : Program) (m : Machine σ) : Bool :=
  !m.isRunning || p.body.length ≤ m.ip

/-- What the program gave: nothing, if it was not ended by a statement. -/
def result (m : Machine σ) : Except RuntimeFault Value :=
  match m.control with
  | .running => .ok .nothing
  | .returned v => .ok v
  | .faulted fault => .error fault

end Machine

/-- The machine that starts a program on its inputs. -/
def Program.start (p : Program) (inputs : List Value) (host : σ) :
    Except RuntimeFault (Machine σ) :=
  if inputs.length = p.inputs.length then
    let env := (p.inputs.zip inputs).foldl (fun env (name, v) => env.set name v) { host }
    .ok ⟨⟨env, #[], none⟩, 0, [], .running⟩
  else .error ⟨.arity p.inputs.length inputs.length, none⟩

end StepScript
