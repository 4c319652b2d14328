import StepScript.Machine.Action
import StepScript.Machine.Basic

/-!
# Steps

One statement executed, and the machine after it. A statement works on the machine in place, on its
active blocks as on the world, and says where the program goes on; what it has done before a fault
stays done. The fault goes to the innermost protected block that handles faults.
-/

set_option autoImplicit false

namespace StepScript

variable {σ α β : Type}

/-- Where a program goes on after a statement. -/
inductive Flow where
  | next
  | jump (target : Nat)
  /-- Nowhere: the program ends with a value. -/
  | finish (value : Value)

/-- What a statement does to a machine. -/
abbrev Course (σ α : Type) :=
  ExceptT Fault (StateM (Machine σ)) α

namespace Course

/-- A result that needs no machine. -/
def lift (r : Except Fault α) : Course σ α :=
  ExceptT.mk (pure r)

/-- An action, which concerns the world only. -/
def act (a : Act σ α) : Course σ α :=
  ExceptT.mk fun m =>
    let (r, world) := a.run.run m.world
    (r, { m with world })

/-- The active blocks replaced. -/
def setFrames (frames : List Frame) : Course σ Unit :=
  modify fun m => { m with frames }

/-- A block entered. -/
def push (frame : Frame) : Course σ Unit :=
  modify fun m => { m with frames := frame :: m.frames }

/-- The innermost block left. -/
def pop : Course σ Unit :=
  modify fun m => { m with frames := m.frames.tail }

/-! ## What courses do -/

@[simp] theorem run_lift (r : Except Fault α) (m : Machine σ) :
    (lift r : Course σ α).run.run m = (r, m) :=
  rfl

@[simp] theorem run_act (a : Act σ α) (m : Machine σ) :
    (act a).run.run m = ((a.run.run m.world).1, { m with world := (a.run.run m.world).2 }) :=
  rfl

/-- One course after another: the second one starts where the first one has left the machine, and
    not at all after a fault. -/
theorem run_bind (c : Course σ α) (f : α → Course σ β) (m : Machine σ) :
    (c >>= f).run.run m
      = match c.run.run m with
        | (.ok x, m) => (f x).run.run m
        | (.error fault, m) => (.error fault, m) := by
  simp only [ExceptT.run_bind, StateT.run_bind]
  rcases c.run.run m with ⟨r, m'⟩
  cases r <;> rfl

/-! ## Loops -/

/-- A value that counts a loop. -/
def loopBound (v : Value) : Except Fault Int64 :=
  match v.int? with
  | some n => .ok n
  | none => .error (.type (.notInteger v.kind))

/-- The value after one that counts a loop. -/
def nextCount (n : Int64) : Except Fault Int64 :=
  if Value.fits (n.toInt + 1) then .ok (n + 1) else .error (.value .overflow)

/-- The block that the statement of the machine opens. -/
def span (body : List Statement) : Course σ Span := do
  lift (Block.spanOf body (← get).ip)

/-- A counting loop entered: the first pass is made whatever the bounds are. -/
def enterFor (body : List Statement) (var start stop : String) : Course σ Flow := do
  let span ← span body
  let first ← lift (loopBound (← act (Act.evalText start)))
  let last ← lift (loopBound (← act (Act.evalText stop)))
  act (Act.assign var (.int first))
  push ⟨.forRange var last, (← get).ip, span.stop⟩
  return .next

/-- A loop over items entered, or passed over when there are none. -/
def enterForEach (body : List Statement) (var iterable : String) : Course σ Flow := do
  let span ← span body
  match ← lift (← act (Act.evalText iterable)).items with
  | [] => return .jump (span.stop + 1)
  | first :: items =>
    act (Act.assign var first)
    push ⟨.forEach var (first :: items) 0, (← get).ip, span.stop⟩
    return .next

/-- A guarded loop entered, or passed over when the guard does not hold. -/
def enterWhile (body : List Statement) (cond : String) : Course σ Flow := do
  let span ← span body
  if (← act (Act.evalText cond)).truthy then
    push ⟨.whileLoop, (← get).ip, span.stop⟩
    return .next
  else return .jump (span.stop + 1)

/-- The innermost block, which must be the one that is closed at a position. -/
def closing (b : Block) : Course σ Frame := do
  let m ← get
  match m.frames with
  | frame :: _ =>
    if frame.stop = m.ip then return frame
    else lift (.error (.structural (.inactiveLoop b.closerKeyword m.ip)))
  | [] => lift (.error (.structural (.inactiveLoop b.closerKeyword m.ip)))

/-- The fault of a closer that meets a block of another family. -/
def otherBlock (b : Block) : Course σ α := do
  lift (.error (.structural (.otherBlock b.closerKeyword (← get).ip)))

/-- The end of a pass through a counting loop: its variable counts on from the value it has. -/
def endFor : Course σ Flow := do
  let frame ← closing .forRange
  match frame.kind with
  | .forRange var last =>
    let count ← lift (loopBound (← act (Act.lookup var)))
    let next ← lift (nextCount count)
    act (Act.assign var (.int next))
    if next ≤ last then return .jump (frame.start + 1)
    else
      pop
      return .next
  | _ => otherBlock .forRange

/-- The end of a pass through a loop over items. The loop has gone on to the next item before it is
    known whether there is one. -/
def endForEach : Course σ Flow := do
  let frame ← closing .forEach
  match frame.kind with
  | .forEach var items cursor =>
    setFrames ({ frame with kind := .forEach var items (cursor + 1) } :: (← get).frames.tail)
    match items[cursor + 1]? with
    | some item =>
      act (Act.assign var item)
      return .jump (frame.start + 1)
    | none =>
      pop
      return .next
  | _ => otherBlock .forEach

/-- The end of a pass through a guarded loop, which goes back to its guard. -/
def endWhile : Course σ Flow := do
  let frame ← closing .whileLoop
  match frame.kind with
  | .whileLoop =>
    pop
    return .jump frame.start
  | _ => otherBlock .whileLoop

/-- The innermost loop, and the blocks around it. -/
def innermostLoop (keyword : String) (frames : List Frame) : Except Fault (Frame × List Frame) :=
  match frames.dropWhile fun f => !f.isLoop with
  | loop :: outer => .ok (loop, outer)
  | [] => .error (.structural (.outsideLoop keyword))

/-- The innermost loop left. -/
def breakLoop : Course σ Flow := do
  let (loop, outer) ← lift (innermostLoop "BREAK" (← get).frames)
  setFrames outer
  return .jump (loop.stop + 1)

/-- The current pass through the innermost loop left. -/
def continueLoop : Course σ Flow := do
  let (loop, outer) ← lift (innermostLoop "CONTINUE" (← get).frames)
  setFrames (loop :: outer)
  return .jump loop.stop

/-! ## Other blocks -/

/-- The branch of a condition: the first one, or what comes after the middle or the end. -/
def branch (body : List Statement) (cond : String) : Course σ Flow := do
  let span ← span body
  if (← act (Act.evalText cond)).truthy then return .next
  else return .jump (span.middle.getD span.stop + 1)

/-- The closer of the block that the statement of the machine is in the middle of. -/
def closer (body : List Statement) : Course σ Nat := do
  lift (Block.closerOf body (← get).ip)

/-- A protected block entered. -/
def enterTry (body : List Statement) : Course σ Flow := do
  let span ← span body
  push ⟨.tryBlock span.middle, (← get).ip, span.stop⟩
  return .next

/-- The end of a protected block, which is no longer active when a fault has left it. -/
def endTry : Course σ Unit := do
  let m ← get
  match m.frames with
  | ⟨.tryBlock _, _, stop⟩ :: _ => if stop = m.ip then pop
  | _ => return ()

/-- The value that a program ends with; an operand may be missing. -/
def returned (expr : String) : Act σ Value :=
  if (Text.trim expr.toList).isEmpty then pure .nothing else Act.evalText expr

end Course

/-! ## Execution -/

/-- The statement of a machine executed. -/
def execute (h : Host σ) (body : List Statement) (s : Statement) : Course σ Flow :=
  match s with
  | .ifThen cond => Course.branch body cond
  | .orElse => do return .jump ((← Course.closer body) + 1)
  | .endIf => return .next
  | .forRange var start stop => Course.enterFor body var start stop
  | .endFor => Course.endFor
  | .forEach var iterable => Course.enterForEach body var iterable
  | .endForEach => Course.endForEach
  | .whileLoop cond => Course.enterWhile body cond
  | .endWhile => Course.endWhile
  | .breakLoop => Course.breakLoop
  | .continueLoop => Course.continueLoop
  | .tryBlock => Course.enterTry body
  | .catchFault _ => do return .jump (← Course.closer body)
  | .endTry => do
    Course.endTry
    return .next
  | .returnValue expr => do return .finish (← Course.act (Course.returned expr))
  | s => do
    Course.act (Act.perform h s)
    return .next

namespace Machine

/-! ## Faults -/

/-- The innermost place where faults are handled, and the blocks around its block. -/
def handler? : List Frame → Option (Nat × List Frame)
  | [] => none
  | frame :: outer =>
    match frame.kind with
    | .tryBlock (some handler) => some (handler, outer)
    | _ => handler? outer

/-- The variable that a handler binds the text of a fault to. -/
def errorVariable (body : List Statement) (handler : Nat) : String :=
  match body[handler]? with
  | some (.catchFault name) => name
  | _ => "error"

/-- A fault handled by the innermost block that does, or the end of the program. -/
def raise (h : Host σ) (p : Program) (fault : Fault) (m : Machine σ) : Machine σ :=
  match handler? m.frames with
  | some (handler, outer) =>
    let message := fault.message h.wording
    let env := m.world.env.set (errorVariable p.body handler) (.text message)
    { m with world := { m.world with env }, ip := handler + 1, frames := outer }
  | none => { m with control := .faulted ⟨fault, p.location? m.ip⟩ }

/-! ## Steps -/

/-- The machine going on where a statement says. -/
def follow (m : Machine σ) : Flow → Machine σ
  | .next => { m with ip := m.ip + 1 }
  | .jump target => { m with ip := target }
  | .finish v => { m with control := .returned v }

/-- The machine after one statement; a machine that is done stays as it is. -/
def step (h : Host σ) (p : Program) (m : Machine σ) : Machine σ :=
  if m.isRunning then
    match p.body[m.ip]? with
    | none => m
    | some s =>
      match (execute h p.body s).run.run m with
      | (.ok flow, m) => m.follow flow
      | (.error fault, m) => m.raise h p fault
  else m

/-- A machine that is done stays as it is. -/
theorem step_of_isDone {h : Host σ} {p : Program} {m : Machine σ} (done : m.isDone p = true) :
    m.step h p = m := by
  simp only [isDone, Bool.or_eq_true, Bool.not_eq_true', decide_eq_true_eq] at done
  rcases done with stopped | past
  · simp [step, stopped]
  · simp [step, List.getElem?_eq_none past]

/-- The machine after at most `fuel` statements. -/
def run (h : Host σ) (p : Program) : (fuel : Nat) → Machine σ → Machine σ
  | 0, m => m
  | fuel + 1, m => if m.isDone p then m else run h p fuel (m.step h p)

end Machine

end StepScript
