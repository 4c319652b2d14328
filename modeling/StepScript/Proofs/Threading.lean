import StepScript.Machine.Step

/-!
# Control as a function

A statement works on the active blocks of the machine in place. Here the same is computed in the
open: `moveOf` takes the position and the active blocks as they are and gives, next to what it does
to the world, one `Move` that says where the program goes on and with which blocks. `run_execute`
says that the two agree, and so that a statement which ends in a fault has touched neither the
position nor the blocks, although it could have: every course changes them after its last fault.
-/

set_option autoImplicit false

namespace StepScript

variable {σ α β : Type}

/-- Where a program goes on, and the blocks that are active then. -/
structure Move where
  flow : Flow
  frames : List Frame

namespace Move

/-! ## Loops -/

/-- A counting loop entered. -/
def enterFor (span : Span) (var start stop : String) (ip : Nat) (frames : List Frame) :
    Act σ Move := do
  let first ← Act.lift (Course.loopBound (← Act.evalText start))
  let last ← Act.lift (Course.loopBound (← Act.evalText stop))
  Act.assign var (.int first)
  return ⟨.next, ⟨.forRange var last, ip, span.stop⟩ :: frames⟩

/-- A loop over items entered, or passed over. -/
def enterForEach (span : Span) (var iterable : String) (ip : Nat) (frames : List Frame) :
    Act σ Move := do
  match ← Act.lift (← Act.evalText iterable).items with
  | [] => return ⟨.jump (span.stop + 1), frames⟩
  | first :: items =>
    Act.assign var first
    return ⟨.next, ⟨.forEach var (first :: items) 0, ip, span.stop⟩ :: frames⟩

/-- A guarded loop entered, or passed over. -/
def enterWhile (span : Span) (cond : String) (ip : Nat) (frames : List Frame) : Act σ Move := do
  if (← Act.evalText cond).truthy then
    return ⟨.next, ⟨.whileLoop, ip, span.stop⟩ :: frames⟩
  else return ⟨.jump (span.stop + 1), frames⟩

/-- The innermost block, which must be the one that is closed at a position, and the blocks
    around it. -/
def closing (b : Block) (ip : Nat) : List Frame → Except Fault (Frame × List Frame)
  | frame :: outer =>
    if frame.stop = ip then .ok (frame, outer)
    else .error (.structural (.inactiveLoop b.closerKeyword ip))
  | [] => .error (.structural (.inactiveLoop b.closerKeyword ip))

/-- The fault of a closer that meets a block of another family. -/
def otherBlock (b : Block) (ip : Nat) : Fault :=
  .structural (.otherBlock b.closerKeyword ip)

/-- The end of a pass through a counting loop. -/
def endFor (ip : Nat) (frames : List Frame) : Act σ Move := do
  let (frame, outer) ← Act.lift (closing .forRange ip frames)
  match frame.kind with
  | .forRange var last =>
    let count ← Act.lift (Course.loopBound (← Act.lookup var))
    let next ← Act.lift (Course.nextCount count)
    Act.assign var (.int next)
    if next ≤ last then return ⟨.jump (frame.start + 1), frames⟩ else return ⟨.next, outer⟩
  | _ => Act.lift (.error (otherBlock .forRange ip))

/-- The end of a pass through a loop over items. -/
def endForEach (ip : Nat) (frames : List Frame) : Act σ Move := do
  let (frame, outer) ← Act.lift (closing .forEach ip frames)
  match frame.kind with
  | .forEach var items cursor =>
    match items[cursor + 1]? with
    | some item =>
      Act.assign var item
      return ⟨.jump (frame.start + 1),
        { frame with kind := .forEach var items (cursor + 1) } :: outer⟩
    | none => return ⟨.next, outer⟩
  | _ => Act.lift (.error (otherBlock .forEach ip))

/-- The end of a pass through a guarded loop. -/
def endWhile (ip : Nat) (frames : List Frame) : Except Fault Move := do
  let (frame, outer) ← closing .whileLoop ip frames
  match frame.kind with
  | .whileLoop => return ⟨.jump frame.start, outer⟩
  | _ => .error (otherBlock .whileLoop ip)

/-- The innermost loop left. -/
def breakLoop (frames : List Frame) : Except Fault Move := do
  let (loop, outer) ← Course.innermostLoop "BREAK" frames
  return ⟨.jump (loop.stop + 1), outer⟩

/-- The current pass through the innermost loop left. -/
def continueLoop (frames : List Frame) : Except Fault Move := do
  let (loop, outer) ← Course.innermostLoop "CONTINUE" frames
  return ⟨.jump loop.stop, loop :: outer⟩

/-! ## Other blocks -/

/-- The branch of a condition. -/
def branch (span : Span) (cond : String) (frames : List Frame) : Act σ Move := do
  if (← Act.evalText cond).truthy then return ⟨.next, frames⟩
  else return ⟨.jump (span.middle.getD span.stop + 1), frames⟩

/-- The blocks that are active after the end of a protected block. -/
def endTry (ip : Nat) (frames : List Frame) : List Frame :=
  match frames with
  | ⟨.tryBlock _, _, stop⟩ :: outer => if stop = ip then outer else frames
  | _ => frames

end Move

/-- What a statement does to the world at a position and with some blocks active, and the move that
    it makes. -/
def moveOf (h : Host σ) (body : List Statement) (ip : Nat) (frames : List Frame) (s : Statement) :
    Act σ Move :=
  match s with
  | .ifThen cond => do Move.branch (← Act.lift (Block.spanOf body ip)) cond frames
  | .orElse => do return ⟨.jump ((← Act.lift (Block.closerOf body ip)) + 1), frames⟩
  | .endIf => return ⟨.next, frames⟩
  | .forRange var start stop => do
    Move.enterFor (← Act.lift (Block.spanOf body ip)) var start stop ip frames
  | .endFor => Move.endFor ip frames
  | .forEach var iterable => do
    Move.enterForEach (← Act.lift (Block.spanOf body ip)) var iterable ip frames
  | .endForEach => Move.endForEach ip frames
  | .whileLoop cond => do Move.enterWhile (← Act.lift (Block.spanOf body ip)) cond ip frames
  | .endWhile => Act.lift (Move.endWhile ip frames)
  | .breakLoop => Act.lift (Move.breakLoop frames)
  | .continueLoop => Act.lift (Move.continueLoop frames)
  | .tryBlock => do
    let span ← Act.lift (Block.spanOf body ip)
    return ⟨.next, ⟨.tryBlock span.middle, ip, span.stop⟩ :: frames⟩
  | .catchFault _ => do return ⟨.jump (← Act.lift (Block.closerOf body ip)), frames⟩
  | .endTry => return ⟨.next, Move.endTry ip frames⟩
  | .returnValue expr => do return ⟨.finish (← Course.returned expr), frames⟩
  | s => do
    Act.perform h s
    return ⟨.next, frames⟩

/-! ## Courses and moves -/

namespace Course

/-- The outcome of an action that gives a move, as that of a course: the move is carried out, and a
    fault leaves everything but the world alone. -/
def settled (m : Machine σ) : Except Fault Move × World σ → Except Fault Flow × Machine σ
  | (.ok move, world) => (.ok move.flow, { m with world, frames := move.frames })
  | (.error fault, world) => (.error fault, { m with world })

/-- A course does what an action says, from every machine at a position with some blocks active. -/
def Follows (ip : Nat) (frames : List Frame) (c : Course σ Flow) (a : Act σ Move) : Prop :=
  ∀ m : Machine σ, m.ip = ip → m.frames = frames →
    c.run.run m = settled m (a.run.run m.world)

variable {ip : Nat} {frames : List Frame}

theorem follows_act {a : Act σ α} {f : α → Course σ Flow} {g : α → Act σ Move}
    (hfg : ∀ x, Follows ip frames (f x) (g x)) : Follows ip frames (act a >>= f) (a >>= g) := by
  rintro m hip hframes
  rw [run_bind, run_act, Act.run_bind]
  rcases a.run.run m.world with ⟨r, world⟩
  cases r with
  | error fault => rfl
  | ok x =>
    refine (hfg x { m with world } hip hframes).trans ?_
    dsimp only
    rcases (g x).run.run world with ⟨r, world'⟩
    cases r <;> rfl

theorem follows_lift {r : Except Fault α} {f : α → Course σ Flow} {g : α → Act σ Move}
    (hfg : ∀ x, r = .ok x → Follows ip frames (f x) (g x)) :
    Follows ip frames (lift r >>= f) (Act.lift r >>= g) := by
  rintro m hip hframes
  cases r with
  | error fault => rfl
  | ok x => exact hfg x rfl m hip hframes

theorem follows_fault (fault : Fault) :
    Follows ip frames (lift (.error fault) : Course σ Flow) (Act.lift (.error fault)) :=
  fun _ _ _ => rfl

theorem follows_fault_bind (fault : Fault) {f : α → Course σ Flow} {g : β → Act σ Move} :
    Follows ip frames (lift (.error fault) >>= f) (Act.lift (.error fault) >>= g) :=
  fun _ _ _ => rfl

/-- Courses may look at the machine first. -/
theorem follows_get {f : Machine σ → Course σ Flow} {a : Act σ Move}
    (hf : ∀ m : Machine σ, m.ip = ip → m.frames = frames → Follows ip frames (f m) a) :
    Follows ip frames (get >>= f) a :=
  fun m hip hframes => hf m hip hframes m hip hframes

/-- Blocks are replaced after the last fault. -/
theorem follows_pure (flow : Flow) :
    Follows ip frames (pure flow : Course σ Flow) (pure ⟨flow, frames⟩) := by
  rintro m rfl rfl
  rfl

theorem follows_setFrames (flow : Flow) (frames' : List Frame) :
    Follows ip frames (setFrames frames' >>= fun _ => pure flow : Course σ Flow)
      (pure ⟨flow, frames'⟩) := by
  rintro m rfl rfl
  rfl

theorem follows_push (flow : Flow) (frame : Frame) :
    Follows ip frames (push frame >>= fun _ => pure flow : Course σ Flow)
      (pure ⟨flow, frame :: frames⟩) := by
  rintro m rfl rfl
  rfl

theorem follows_pop (flow : Flow) :
    Follows ip frames (pop >>= fun _ => pure flow : Course σ Flow)
      (pure ⟨flow, frames.tail⟩) := by
  rintro m rfl rfl
  rfl

theorem follows_span {body : List Statement} {f : Span → Course σ Flow} {g : Span → Act σ Move}
    (hfg : ∀ s, Follows ip frames (f s) (g s)) :
    Follows ip frames (span body >>= f) (Act.lift (Block.spanOf body ip) >>= g) := by
  unfold span
  rw [bind_assoc]
  refine follows_get fun m hip _ => ?_
  rw [hip]
  exact follows_lift fun s _ => hfg s

theorem follows_closer {body : List Statement} {f : Nat → Course σ Flow} {g : Nat → Act σ Move}
    (hfg : ∀ n, Follows ip frames (f n) (g n)) :
    Follows ip frames (closer body >>= f) (Act.lift (Block.closerOf body ip) >>= g) := by
  unfold closer
  rw [bind_assoc]
  refine follows_get fun m hip _ => ?_
  rw [hip]
  exact follows_lift fun n _ => hfg n

theorem follows_closing {b : Block} {f : Frame → Course σ Flow}
    {g : Frame × List Frame → Act σ Move}
    (hfg : ∀ frame outer, frames = frame :: outer →
      Follows ip frames (f frame) (g (frame, outer))) :
    Follows ip frames (closing b >>= f) (Act.lift (Move.closing b ip frames) >>= g) := by
  unfold closing
  rw [bind_assoc]
  refine follows_get fun m hip hframes => ?_
  subst hip hframes
  cases hm : m.frames with
  | nil => exact follows_fault_bind _
  | cons frame outer =>
    rw [← hm]
    by_cases hstop : frame.stop = m.ip
    · simp only [Move.closing, hm, if_pos hstop]
      exact hm ▸ hfg frame outer hm
    · simp only [Move.closing, hm, if_neg hstop]
      exact follows_fault_bind _

theorem follows_otherBlock (b : Block) :
    Follows ip frames (otherBlock b : Course σ Flow)
      (Act.lift (.error (Move.otherBlock b ip))) := by
  refine follows_get fun m hip _ => ?_
  rw [hip]
  exact follows_fault _

/-! ## One lemma per block -/

theorem follows_enterFor (body : List Statement) (var start stop : String) :
    Follows ip frames (enterFor body var start stop : Course σ Flow)
      (do Move.enterFor (← Act.lift (Block.spanOf body ip)) var start stop ip frames) := by
  refine follows_span fun span => follows_act fun v => follows_lift fun first _ => ?_
  refine follows_act fun v => follows_lift fun last _ => follows_act fun _ => ?_
  refine follows_get fun m hip _ => ?_
  rw [hip]
  exact follows_push _ _

theorem follows_enterForEach (body : List Statement) (var iterable : String) :
    Follows ip frames (enterForEach body var iterable : Course σ Flow)
      (do Move.enterForEach (← Act.lift (Block.spanOf body ip)) var iterable ip frames) := by
  refine follows_span fun span => follows_act fun v => follows_lift fun items _ => ?_
  cases items with
  | nil => exact follows_pure _
  | cons first items =>
    refine follows_act fun _ => follows_get fun m hip _ => ?_
    rw [hip]
    exact follows_push _ _

theorem follows_enterWhile (body : List Statement) (cond : String) :
    Follows ip frames (enterWhile body cond : Course σ Flow)
      (do Move.enterWhile (← Act.lift (Block.spanOf body ip)) cond ip frames) := by
  refine follows_span fun span => follows_act fun v => ?_
  split
  · refine follows_get fun m hip _ => ?_
    rw [hip]
    exact follows_push _ _
  · exact follows_pure _

theorem follows_branch (body : List Statement) (cond : String) :
    Follows ip frames (branch body cond : Course σ Flow)
      (do Move.branch (← Act.lift (Block.spanOf body ip)) cond frames) := by
  refine follows_span fun span => follows_act fun v => ?_
  split <;> exact follows_pure _

theorem follows_endFor : Follows ip frames (endFor : Course σ Flow) (Move.endFor ip frames) := by
  refine follows_closing fun frame outer hframes => ?_
  dsimp only
  cases frame.kind with
  | forRange var last =>
    refine follows_act fun v => follows_lift fun count _ => follows_lift fun next _ => ?_
    refine follows_act fun _ => ?_
    split
    · exact follows_pure _
    · rw [show outer = frames.tail by rw [hframes, List.tail_cons]]
      exact follows_pop _
  | _ => exact follows_otherBlock _

/-- The cursor has moved when the loop is found to be at its end, but the block is gone then. -/
theorem follows_endForEach :
    Follows ip frames (endForEach : Course σ Flow) (Move.endForEach ip frames) := by
  refine follows_closing fun frame outer hframes => ?_
  dsimp only
  cases frame.kind with
  | forEach var items cursor =>
    dsimp only
    refine follows_get fun m _ hm => ?_
    rw [hm, hframes, List.tail_cons]
    cases items[cursor + 1]? with
    | some item => exact fun _ _ _ => rfl
    | none => exact fun _ _ _ => rfl
  | _ => exact follows_otherBlock _

theorem follows_endWhile :
    Follows ip frames (endWhile : Course σ Flow) (Act.lift (Move.endWhile ip frames)) := by
  have hbind : (Act.lift (Move.endWhile ip frames) : Act σ Move)
      = Act.lift (Move.closing .whileLoop ip frames) >>= fun pair =>
        match pair.1.kind with
        | .whileLoop => pure ⟨.jump pair.1.start, pair.2⟩
        | _ => Act.lift (.error (Move.otherBlock .whileLoop ip)) := by
    unfold Move.endWhile
    cases Move.closing .whileLoop ip frames with
    | error fault => rfl
    | ok pair =>
      obtain ⟨⟨kind, _, _⟩, _⟩ := pair
      cases kind <;> rfl
  rw [hbind]
  refine follows_closing fun frame outer hframes => ?_
  dsimp only
  cases frame.kind with
  | whileLoop =>
    rw [show outer = frames.tail by rw [hframes, List.tail_cons]]
    exact follows_pop _
  | _ => exact follows_otherBlock _

theorem follows_breakLoop :
    Follows ip frames (breakLoop : Course σ Flow) (Act.lift (Move.breakLoop frames)) := by
  refine follows_get fun m _ hframes => ?_
  unfold Move.breakLoop
  rw [hframes]
  cases innermostLoop "BREAK" frames with
  | error fault => exact follows_fault fault
  | ok pair => exact follows_setFrames _ _

theorem follows_continueLoop :
    Follows ip frames (continueLoop : Course σ Flow) (Act.lift (Move.continueLoop frames)) := by
  refine follows_get fun m _ hframes => ?_
  unfold Move.continueLoop
  rw [hframes]
  cases innermostLoop "CONTINUE" frames with
  | error fault => exact follows_fault fault
  | ok pair => exact follows_setFrames _ _

theorem follows_enterTry (body : List Statement) :
    Follows ip frames (enterTry body : Course σ Flow) (do
      let span ← Act.lift (Block.spanOf body ip)
      return ⟨.next, ⟨.tryBlock span.middle, ip, span.stop⟩ :: frames⟩) := by
  refine follows_span fun span => follows_get fun m hip _ => ?_
  rw [hip]
  exact follows_push _ _

theorem follows_endTry :
    Follows ip frames (endTry >>= fun _ => pure .next : Course σ Flow)
      (pure ⟨.next, Move.endTry ip frames⟩) := by
  unfold endTry
  rw [bind_assoc]
  refine follows_get fun m hip hframes => ?_
  rw [hframes, hip]
  rcases frames with _ | ⟨⟨kind, start, stop⟩, outer⟩
  · exact follows_pure _
  · cases kind with
    | tryBlock handler =>
      by_cases hstop : stop = ip
      · simp only [Move.endTry, if_pos hstop]
        exact follows_pop _
      · simp only [Move.endTry, if_neg hstop]
        exact follows_pure _
    | _ => exact follows_pure _

end Course

open Course in
/-- **A statement makes its move.** What it does to the machine is what `moveOf` does to the world,
    and the move; when it ends in a fault, the machine is as it was but for the world. -/
theorem run_execute (h : Host σ) (body : List Statement) (s : Statement) (m : Machine σ) :
    (execute h body s).run.run m
      = settled m ((moveOf h body m.ip m.frames s).run.run m.world) := by
  have hfollows : Follows m.ip m.frames (execute h body s) (moveOf h body m.ip m.frames s) := by
    cases s with
    | ifThen cond => exact follows_branch body cond
    | orElse => exact follows_closer fun stop => follows_pure _
    | endIf => exact follows_pure _
    | forRange var start stop => exact follows_enterFor body var start stop
    | endFor => exact follows_endFor
    | forEach var iterable => exact follows_enterForEach body var iterable
    | endForEach => exact follows_endForEach
    | whileLoop cond => exact follows_enterWhile body cond
    | endWhile => exact follows_endWhile
    | breakLoop => exact follows_breakLoop
    | continueLoop => exact follows_continueLoop
    | tryBlock => exact follows_enterTry body
    | catchFault name => exact follows_closer fun stop => follows_pure _
    | endTry => exact follows_endTry
    | returnValue expr => exact follows_act fun v => follows_pure _
    | _ => exact follows_act fun _ => follows_pure _
  exact hfollows m rfl rfl

/-- A statement ends in the faults of its move. -/
theorem fault_of_execute {h : Host σ} {body : List Statement} {s : Statement} {m : Machine σ}
    {fault : Fault} (hfault : ((execute h body s).run.run m).1 = .error fault) :
    ((moveOf h body m.ip m.frames s).run.run m.world).1 = .error fault := by
  rw [run_execute] at hfault
  rcases hrun : (moveOf h body m.ip m.frames s).run.run m.world with ⟨r, world⟩
  rw [hrun] at hfault
  cases r with
  | ok move => cases hfault
  | error cause => exact congrArg Except.error (Except.error.inj hfault)

namespace Machine

/-- The machine after a move. -/
def apply (m : Machine σ) (move : Move) : Machine σ :=
  match move.flow with
  | .next => { m with ip := m.ip + 1, frames := move.frames }
  | .jump target => { m with ip := target, frames := move.frames }
  | .finish v => { m with frames := move.frames, control := .returned v }

theorem follow_eq_apply (m : Machine σ) (move : Move) :
    { m with frames := move.frames }.follow move.flow = m.apply move := by
  unfold follow apply
  cases move.flow <;> rfl

/-- One step in terms of moves. -/
theorem step_eq (h : Host σ) (p : Program) (m : Machine σ) :
    m.step h p
      = if m.isRunning then
          match p.body[m.ip]? with
          | none => m
          | some s =>
            match (moveOf h p.body m.ip m.frames s).run.run m.world with
            | (.ok move, world) => { m with world }.apply move
            | (.error fault, world) => { m with world }.raise h p fault
        else m := by
  unfold step
  cases p.body[m.ip]? with
  | none => rfl
  | some s =>
    simp only [run_execute]
    rcases (moveOf h p.body m.ip m.frames s).run.run m.world with ⟨r, world⟩
    cases r with
    | error fault => rfl
    | ok move =>
      show (if m.isRunning then { m with world, frames := move.frames }.follow move.flow else m)
        = if m.isRunning then { m with world }.apply move else m
      rw [← follow_eq_apply]

end Machine

end StepScript
