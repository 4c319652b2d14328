import StepScript.Machine.Step
import StepScript.Proofs.Regions

/-!
# Structured evaluation

What a program means when it is read as a tree of nested blocks, without positions to go to and
without active blocks to keep. Evaluation of a tree ends in an outcome, which the blocks around it
catch or pass on. Positions serve to locate faults only.

A loop is evaluated pass by pass. Between two passes of a guarded loop there is nothing but the
loop itself; a counting loop keeps its last value, and a loop over items those that are left, so
these two have tasks of their own.
-/

set_option autoImplicit false

namespace StepScript

variable {σ : Type}

/-! ## Outcomes -/

/-- How the evaluation of a tree ends. -/
inductive Outcome where
  | normal
  /-- The innermost loop is left. -/
  | breaks
  /-- The current pass through the innermost loop is over. -/
  | continues
  | returns (value : Value)
  /-- A fault, raised by the statement at a position. -/
  | faults (fault : Fault) (position : Nat)

namespace Outcome

/-- The outcome of a loop whose body ends so, if its current pass is the last one. -/
def leaves? : Outcome → Option Outcome
  | .normal => none
  | .continues => none
  | .breaks => some .normal
  | .returns v => some (.returns v)
  | .faults fault position => some (.faults fault position)

/-- The outcome is no fault. -/
def isQuiet : Outcome → Bool
  | .faults _ _ => false
  | _ => true

/-- What a program gives that ends so; jumps do not end a program. -/
def result? (p : Program) : Outcome → Option (Except RuntimeFault Value)
  | .normal => some (.ok .nothing)
  | .returns v => some (.ok v)
  | .faults fault position => some (.error ⟨fault, p.location? position⟩)
  | _ => none

end Outcome

/-! ## Loops -/

namespace Loop

/-- The integer that a value is, truth values being 0 and 1. -/
def integerOf : Value → Except Fault Int64
  | .int n => .ok n
  | .bool false => .ok 0
  | .bool true => .ok 1
  | v => .error (.type (.notInteger v.kind))

/-- The bounds of a counting loop, the first of them bound to its variable. Gives the last one. -/
def boundsOf (var start stop : String) : Act σ Int64 := do
  let first ← Act.lift (integerOf (← Act.evalText start))
  let last ← Act.lift (integerOf (← Act.evalText stop))
  Act.assign var (.int first)
  return last

/-- One added to the value that the variable of a counting loop has now; there is nothing after the
    greatest integer. -/
def countUp (var : String) : Act σ Int64 := do
  let n ← Act.lift (integerOf (← Act.lookup var))
  if n = Int64.maxValue then Act.lift (.error (.value .overflow))
  else
    Act.assign var (.int (n + 1))
    return n + 1

/-- The items that a loop walks, the first of them, if there is one, bound to its variable. -/
def itemsOf (var iterable : String) : Act σ (List Value) := do
  match ← Act.lift (← Act.evalText iterable).items with
  | [] => return []
  | first :: left =>
    Act.assign var first
    return first :: left

end Loop

/-- The statement acts on the world alone. -/
def Statement.isSimple : Statement → Bool
  | .returnValue _ => false
  | s => !s.isMarker && !s.isJump

/-- A variable bound to a value in a world. -/
def World.bind (w : World σ) (name : String) (v : Value) : World σ :=
  { w with env := w.env.set name v }

/-! ## Evaluation -/

/-- What is evaluated: a tree, or the rest of a loop from the start of a pass on. -/
inductive Task where
  | code (t : Tree)
  | counting (var : String) (last : Int64) (body : Tree)
  /-- The items that come after the one of this pass are left. -/
  | walking (var : String) (left : List Value) (body : Tree)

/-- The task that stands at a position turns a world into another one and ends in an outcome. -/
inductive Evaluates (h : Host σ) : Nat → Task → World σ → Outcome → World σ → Prop
  | skip {position w} : Evaluates h position (.code .skip) w .normal w
  | perform {position s} {hplain : s.isMarker = false} {w w'} (hsimple : s.isSimple = true)
    (hrun : (Act.perform h s).run.run w = (.ok (), w')) :
    Evaluates h position (.code (.plain s hplain)) w .normal w'
  | performFault {position s} {hplain : s.isMarker = false} {w w' fault}
    (hsimple : s.isSimple = true) (hrun : (Act.perform h s).run.run w = (.error fault, w')) :
    Evaluates h position (.code (.plain s hplain)) w (.faults fault position) w'
  | breakLoop {position} {hplain : Statement.isMarker .breakLoop = false} {w} :
    Evaluates h position (.code (.plain .breakLoop hplain)) w .breaks w
  | continueLoop {position} {hplain : Statement.isMarker .continueLoop = false} {w} :
    Evaluates h position (.code (.plain .continueLoop hplain)) w .continues w
  | returnNothing {position expr} {hplain : Statement.isMarker (.returnValue expr) = false} {w}
    (hblank : Text.trim expr.toList = []) :
    Evaluates h position (.code (.plain (.returnValue expr) hplain)) w (.returns .nothing) w
  | returnValue {position expr} {hplain : Statement.isMarker (.returnValue expr) = false} {w w' v}
    (hsome : Text.trim expr.toList ≠ []) (hexpr : (Act.evalText expr).run.run w = (.ok v, w')) :
    Evaluates h position (.code (.plain (.returnValue expr) hplain)) w (.returns v) w'
  | returnFault {position expr} {hplain : Statement.isMarker (.returnValue expr) = false}
    {w w' fault} (hsome : Text.trim expr.toList ≠ [])
    (hexpr : (Act.evalText expr).run.run w = (.error fault, w')) :
    Evaluates h position (.code (.plain (.returnValue expr) hplain)) w (.faults fault position) w'
  | seqNext {position first second w w₁ w₂ o}
    (hfirst : Evaluates h position (.code first) w .normal w₁)
    (hsecond : Evaluates h (position + first.size) (.code second) w₁ o w₂) :
    Evaluates h position (.code (.seq first second)) w o w₂
  | seqStop {position first second w w₁ o} (hfirst : Evaluates h position (.code first) w o w₁)
    (hstop : o ≠ .normal) : Evaluates h position (.code (.seq first second)) w o w₁
  | ifThenFault {position cond yes w w' fault}
    (hcond : (Act.evalText cond).run.run w = (.error fault, w')) :
    Evaluates h position (.code (.ifThen cond yes)) w (.faults fault position) w'
  | ifThenYes {position cond yes w w₁ w₂ v o}
    (hcond : (Act.evalText cond).run.run w = (.ok v, w₁)) (htruthy : v.truthy = true)
    (hyes : Evaluates h (position + 1) (.code yes) w₁ o w₂) :
    Evaluates h position (.code (.ifThen cond yes)) w o w₂
  | ifThenNo {position cond yes w w' v} (hcond : (Act.evalText cond).run.run w = (.ok v, w'))
    (hfalsy : v.truthy = false) : Evaluates h position (.code (.ifThen cond yes)) w .normal w'
  | ifElseFault {position cond yes no w w' fault}
    (hcond : (Act.evalText cond).run.run w = (.error fault, w')) :
    Evaluates h position (.code (.ifElse cond yes no)) w (.faults fault position) w'
  | ifElseYes {position cond yes no w w₁ w₂ v o}
    (hcond : (Act.evalText cond).run.run w = (.ok v, w₁)) (htruthy : v.truthy = true)
    (hyes : Evaluates h (position + 1) (.code yes) w₁ o w₂) :
    Evaluates h position (.code (.ifElse cond yes no)) w o w₂
  | ifElseNo {position cond yes no w w₁ w₂ v o}
    (hcond : (Act.evalText cond).run.run w = (.ok v, w₁)) (hfalsy : v.truthy = false)
    (hno : Evaluates h (position + 1 + yes.size + 1) (.code no) w₁ o w₂) :
    Evaluates h position (.code (.ifElse cond yes no)) w o w₂
  | guardFault {position cond body w w' fault}
    (hcond : (Act.evalText cond).run.run w = (.error fault, w')) :
    Evaluates h position (.code (.loop (.guarded cond) body)) w (.faults fault position) w'
  | guardFails {position cond body w w' v} (hcond : (Act.evalText cond).run.run w = (.ok v, w'))
    (hfalsy : v.truthy = false) :
    Evaluates h position (.code (.loop (.guarded cond) body)) w .normal w'
  | guardedLast {position cond body w w₁ w₂ v o o'}
    (hcond : (Act.evalText cond).run.run w = (.ok v, w₁)) (htruthy : v.truthy = true)
    (hbody : Evaluates h (position + 1) (.code body) w₁ o w₂) (hleaves : o.leaves? = some o') :
    Evaluates h position (.code (.loop (.guarded cond) body)) w o' w₂
  | guardedNext {position cond body w w₁ w₂ w₃ v o o'}
    (hcond : (Act.evalText cond).run.run w = (.ok v, w₁)) (htruthy : v.truthy = true)
    (hbody : Evaluates h (position + 1) (.code body) w₁ o w₂) (hleaves : o.leaves? = none)
    (hagain : Evaluates h position (.code (.loop (.guarded cond) body)) w₂ o' w₃) :
    Evaluates h position (.code (.loop (.guarded cond) body)) w o' w₃
  | boundFault {position var start stop body w w' fault}
    (hbounds : (Loop.boundsOf var start stop).run.run w = (.error fault, w')) :
    Evaluates h position (.code (.loop (.counting var start stop) body)) w
      (.faults fault position) w'
  | count {position var start stop body w w₁ w₂ last o}
    (hbounds : (Loop.boundsOf var start stop).run.run w = (.ok last, w₁))
    (hpass : Evaluates h position (.counting var last body) w₁ o w₂) :
    Evaluates h position (.code (.loop (.counting var start stop) body)) w o w₂
  | countLast {position var last body w w₁ o o'}
    (hbody : Evaluates h (position + 1) (.code body) w o w₁) (hleaves : o.leaves? = some o') :
    Evaluates h position (.counting var last body) w o' w₁
  /-- The closer of a counting loop counts, so it is the closer that raises the fault. -/
  | countFault {position var last body w w₁ w₂ o fault}
    (hbody : Evaluates h (position + 1) (.code body) w o w₁) (hleaves : o.leaves? = none)
    (hcount : (Loop.countUp var).run.run w₁ = (.error fault, w₂)) :
    Evaluates h position (.counting var last body) w (.faults fault (position + 1 + body.size)) w₂
  | countOut {position var last next body w w₁ w₂ o}
    (hbody : Evaluates h (position + 1) (.code body) w o w₁) (hleaves : o.leaves? = none)
    (hcount : (Loop.countUp var).run.run w₁ = (.ok next, w₂)) (hlast : ¬next ≤ last) :
    Evaluates h position (.counting var last body) w .normal w₂
  | countNext {position var last next body w w₁ w₂ w₃ o o'}
    (hbody : Evaluates h (position + 1) (.code body) w o w₁) (hleaves : o.leaves? = none)
    (hcount : (Loop.countUp var).run.run w₁ = (.ok next, w₂)) (hlast : next ≤ last)
    (hagain : Evaluates h position (.counting var last body) w₂ o' w₃) :
    Evaluates h position (.counting var last body) w o' w₃
  | itemsFault {position var iterable body w w' fault}
    (hitems : (Loop.itemsOf var iterable).run.run w = (.error fault, w')) :
    Evaluates h position (.code (.loop (.walking var iterable) body)) w (.faults fault position) w'
  | walkNone {position var iterable body w w'}
    (hitems : (Loop.itemsOf var iterable).run.run w = (.ok [], w')) :
    Evaluates h position (.code (.loop (.walking var iterable) body)) w .normal w'
  | walk {position var iterable body w w₁ w₂ first left o}
    (hitems : (Loop.itemsOf var iterable).run.run w = (.ok (first :: left), w₁))
    (hpass : Evaluates h position (.walking var left body) w₁ o w₂) :
    Evaluates h position (.code (.loop (.walking var iterable) body)) w o w₂
  | walkLast {position var left body w w₁ o o'}
    (hbody : Evaluates h (position + 1) (.code body) w o w₁) (hleaves : o.leaves? = some o') :
    Evaluates h position (.walking var left body) w o' w₁
  | walkOut {position var body w w₁ o} (hbody : Evaluates h (position + 1) (.code body) w o w₁)
    (hleaves : o.leaves? = none) : Evaluates h position (.walking var [] body) w .normal w₁
  | walkNext {position var next left body w w₁ w₂ o o'}
    (hbody : Evaluates h (position + 1) (.code body) w o w₁) (hleaves : o.leaves? = none)
    (hagain : Evaluates h position (.walking var left body) (w₁.bind var next) o' w₂) :
    Evaluates h position (.walking var (next :: left) body) w o' w₂
  | tryOnly {position body w w' o} (hbody : Evaluates h (position + 1) (.code body) w o w') :
    Evaluates h position (.code (.tryOnly body)) w o w'
  | tryQuiet {position body handler var w w' o}
    (hbody : Evaluates h (position + 1) (.code body) w o w') (hquiet : o.isQuiet = true) :
    Evaluates h position (.code (.tryCatch body var handler)) w o w'
  /-- The handler is not protected by its own block. -/
  | tryHandled {position raised body handler var w w₁ w₂ fault o}
    (hbody : Evaluates h (position + 1) (.code body) w (.faults fault raised) w₁)
    (hhandler : Evaluates h (position + 1 + body.size + 1) (.code handler)
      (w₁.bind var (.text (fault.message h.wording))) o w₂) :
    Evaluates h position (.code (.tryCatch body var handler)) w o w₂

end StepScript
