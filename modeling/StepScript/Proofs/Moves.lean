import Mathlib.Data.List.TakeWhile
import StepScript.Proofs.FaultLayers
import StepScript.Proofs.Threading

/-!
# What a statement does to control

`Moves` lists, once and for all, where a statement can send a program and which blocks are active
afterwards; `moves_of_run` says that nothing else happens, and `step_cases` lifts it to a step
of the machine. Invariants of running programs are then shown by cases on `Moves`, without another
look at how a statement is executed.

A machine is `Reachable` when some number of steps leads to it from the start of the program.
-/

set_option autoImplicit false

namespace StepScript

variable {σ α β : Type}

/-! ## Actions that end well -/

/-- An action that ends well goes well in both its parts. -/
theorem Act.run_bind_ok {a : Act σ α} {f : α → Act σ β} {w w' : World σ} {y : β}
    (hrun : (a >>= f).run.run w = (.ok y, w')) :
    ∃ x w₁, a.run.run w = (.ok x, w₁) ∧ (f x).run.run w₁ = (.ok y, w') := by
  rw [Act.run_bind] at hrun
  rcases ha : a.run.run w with ⟨r, w₁⟩
  rw [ha] at hrun
  cases r with
  | ok x => exact ⟨x, w₁, rfl, hrun⟩
  | error fault => cases congrArg Prod.fst hrun

/-- A result that needs no world is there before anything happens. -/
theorem Act.run_lift_ok {r : Except Fault α} {f : α → Act σ β} {w w' : World σ} {y : β}
    (hrun : (Act.lift r >>= f).run.run w = (.ok y, w')) :
    ∃ x, r = .ok x ∧ (f x).run.run w = (.ok y, w') := by
  obtain ⟨x, w₁, hr, hf⟩ := Act.run_bind_ok hrun
  rw [Act.run_lift, Prod.mk.injEq] at hr
  obtain ⟨hr, rfl⟩ := hr
  exact ⟨x, hr, hf⟩

/-- What an action without effect gives. -/
theorem Act.run_pure_ok {x y : α} {w w' : World σ}
    (hrun : (pure x : Act σ α).run.run w = (.ok y, w')) : x = y :=
  Except.ok.inj (congrArg Prod.fst hrun)

/-- A fault of an action that starts with a result that needs no world: of the result, or of the
    rest. -/
theorem Act.run_lift_error {r : Except Fault α} {f : α → Act σ β} {w w' : World σ} {fault : Fault}
    (hrun : (Act.lift r >>= f).run.run w = (.error fault, w')) :
    r = .error fault ∨ ∃ x, r = .ok x ∧ (f x).run.run w = (.error fault, w') := by
  rw [Act.run_bind, Act.run_lift] at hrun
  cases r with
  | ok x => exact Or.inr ⟨x, rfl, hrun⟩
  | error cause =>
    cases congrArg Prod.fst hrun
    exact Or.inl rfl

/-- An action that raises faults of expressions only ends in no fault of block structure. -/
theorem RaisesUpTo.not_structural {a : Act σ α} (ha : RaisesUpTo 2 a) {w w' : World σ}
    {cause : StructureFault} (hrun : a.run.run w = (.error (.structural cause), w')) : False :=
  absurd (ha w _ (congrArg Prod.fst hrun)) (by simp)

/-! ## Frames -/

/-- The frame of a block is as the text of the program has it: the state of a loop over items
    points at one of them, and a protected block is handled at its middle. -/
def FrameKind.Fits (span : Span) : FrameKind → Prop
  | .forEach _ items cursor => cursor < items.length
  | .tryBlock handler => handler = span.middle
  | _ => True

/-- Statements that open, divide or close a block. -/
def Statement.isMarker (s : Statement) : Bool :=
  s.opens?.isSome || s.divides?.isSome || s.closes?.isSome

/-! ## Moves -/

/-- Where a statement at a position can send a program that has some blocks active. -/
inductive Moves (body : List Statement) (ip : Nat) (frames : List Frame) :
    Statement → Move → Prop
  | proceed {s : Statement} (hmarker : s.isMarker = false) (hjump : s.isJump = false) :
    Moves body ip frames s ⟨.next, frames⟩
  | finish (expr : String) (v : Value) :
    Moves body ip frames (.returnValue expr) ⟨.finish v, frames⟩
  | ifTaken (cond : String) {span : Span} (hspan : Block.spanOf body ip = .ok span) :
    Moves body ip frames (.ifThen cond) ⟨.next, frames⟩
  | ifPassed (cond : String) {span : Span} (hspan : Block.spanOf body ip = .ok span) :
    Moves body ip frames (.ifThen cond) ⟨.jump (span.middle.getD span.stop + 1), frames⟩
  | orElse {stop : Nat} (hstop : Block.closerOf body ip = .ok stop) :
    Moves body ip frames .orElse ⟨.jump (stop + 1), frames⟩
  | endIf : Moves body ip frames .endIf ⟨.next, frames⟩
  | enter {s : Statement} {span : Span} {kind : FrameKind} (hopens : s.opens? = some kind.block)
    (hspan : Block.spanOf body ip = .ok span) (hfits : kind.Fits span) :
    Moves body ip frames s ⟨.next, ⟨kind, ip, span.stop⟩ :: frames⟩
  | passLoop {s : Statement} {b : Block} {span : Span} (hopens : s.opens? = some b)
    (hloop : b.isLoop = true) (hspan : Block.spanOf body ip = .ok span) :
    Moves body ip frames s ⟨.jump (span.stop + 1), frames⟩
  | countOn {frame : Frame} {outer : List Frame} {var : String} {last : Int64}
    (hframes : frames = frame :: outer) (hstop : frame.stop = ip)
    (hkind : frame.kind = .forRange var last) :
    Moves body ip frames .endFor ⟨.jump (frame.start + 1), frames⟩
  | countOut {frame : Frame} {outer : List Frame} {var : String} {last : Int64}
    (hframes : frames = frame :: outer) (hstop : frame.stop = ip)
    (hkind : frame.kind = .forRange var last) : Moves body ip frames .endFor ⟨.next, outer⟩
  | walkOn {frame : Frame} {outer : List Frame} {var : String} {items : List Value} {cursor : Nat}
    (hframes : frames = frame :: outer) (hstop : frame.stop = ip)
    (hkind : frame.kind = .forEach var items cursor) (hnext : cursor + 1 < items.length) :
    Moves body ip frames .endForEach
      ⟨.jump (frame.start + 1), { frame with kind := .forEach var items (cursor + 1) } :: outer⟩
  | walkOut {frame : Frame} {outer : List Frame} {var : String} {items : List Value} {cursor : Nat}
    (hframes : frames = frame :: outer) (hstop : frame.stop = ip)
    (hkind : frame.kind = .forEach var items cursor) :
    Moves body ip frames .endForEach ⟨.next, outer⟩
  | again {frame : Frame} {outer : List Frame} (hframes : frames = frame :: outer)
    (hstop : frame.stop = ip) (hkind : frame.kind = .whileLoop) :
    Moves body ip frames .endWhile ⟨.jump frame.start, outer⟩
  | breakLoop {loop : Frame} {outer : List Frame}
    (hloop : frames.dropWhile (fun f => !f.isLoop) = loop :: outer) :
    Moves body ip frames .breakLoop ⟨.jump (loop.stop + 1), outer⟩
  | continueLoop {loop : Frame} {outer : List Frame}
    (hloop : frames.dropWhile (fun f => !f.isLoop) = loop :: outer) :
    Moves body ip frames .continueLoop ⟨.jump loop.stop, loop :: outer⟩
  | catchFault (name : String) {stop : Nat} (hstop : Block.closerOf body ip = .ok stop) :
    Moves body ip frames (.catchFault name) ⟨.jump stop, frames⟩
  | endTry : Moves body ip frames .endTry ⟨.next, Move.endTry ip frames⟩

/-- The innermost block is the one that is closed here. -/
theorem Move.closing_eq_ok {b : Block} {ip : Nat} {frames outer : List Frame} {frame : Frame}
    (h : Move.closing b ip frames = .ok (frame, outer)) :
    frames = frame :: outer ∧ frame.stop = ip := by
  cases frames with
  | nil => simp [Move.closing] at h
  | cons f fs =>
    simp only [Move.closing] at h
    split at h
    · next hstop =>
      simp only [Except.ok.injEq, Prod.mk.injEq] at h
      obtain ⟨rfl, rfl⟩ := h
      exact ⟨rfl, hstop⟩
    · simp at h

theorem Course.innermostLoop_eq_ok {keyword : String} {frames outer : List Frame} {loop : Frame}
    (h : Course.innermostLoop keyword frames = .ok (loop, outer)) :
    frames.dropWhile (fun f => !f.isLoop) = loop :: outer := by
  unfold Course.innermostLoop at h
  split at h
  · next hdrop =>
    simp only [Except.ok.injEq, Prod.mk.injEq] at h
    obtain ⟨rfl, rfl⟩ := h
    exact hdrop
  · simp at h

section

variable {h : Host σ} {body : List Statement} {ip : Nat} {frames : List Frame} {move : Move}
  {w w' : World σ}

theorem moves_of_enterFor {span : Span} {var start stop : String}
    (hspan : Block.spanOf body ip = .ok span)
    (hrun : (Move.enterFor span var start stop ip frames).run.run w = (.ok move, w')) :
    Moves body ip frames (.forRange var start stop) move := by
  obtain ⟨_, _, _, hrun⟩ := Act.run_bind_ok hrun
  obtain ⟨_, _, hrun⟩ := Act.run_lift_ok hrun
  obtain ⟨_, _, _, hrun⟩ := Act.run_bind_ok hrun
  obtain ⟨_, _, hrun⟩ := Act.run_lift_ok hrun
  obtain ⟨_, _, _, hrun⟩ := Act.run_bind_ok hrun
  rw [← Act.run_pure_ok hrun]
  exact .enter rfl hspan trivial

theorem moves_of_enterForEach {span : Span} {var iterable : String}
    (hspan : Block.spanOf body ip = .ok span)
    (hrun : (Move.enterForEach span var iterable ip frames).run.run w = (.ok move, w')) :
    Moves body ip frames (.forEach var iterable) move := by
  obtain ⟨_, _, _, hrun⟩ := Act.run_bind_ok hrun
  obtain ⟨_, _, hrun⟩ := Act.run_lift_ok hrun
  split at hrun
  · rw [← Act.run_pure_ok hrun]
    exact .passLoop rfl rfl hspan
  · obtain ⟨_, _, _, hrun⟩ := Act.run_bind_ok hrun
    rw [← Act.run_pure_ok hrun]
    exact .enter rfl hspan (Nat.zero_lt_succ _)

theorem moves_of_enterWhile {span : Span} {cond : String}
    (hspan : Block.spanOf body ip = .ok span)
    (hrun : (Move.enterWhile span cond ip frames).run.run w = (.ok move, w')) :
    Moves body ip frames (.whileLoop cond) move := by
  obtain ⟨_, _, _, hrun⟩ := Act.run_bind_ok hrun
  split at hrun
  · rw [← Act.run_pure_ok hrun]
    exact .enter rfl hspan trivial
  · rw [← Act.run_pure_ok hrun]
    exact .passLoop rfl rfl hspan

theorem moves_of_branch {span : Span} {cond : String} (hspan : Block.spanOf body ip = .ok span)
    (hrun : (Move.branch span cond frames).run.run w = (.ok move, w')) :
    Moves body ip frames (.ifThen cond) move := by
  obtain ⟨_, _, _, hrun⟩ := Act.run_bind_ok hrun
  split at hrun
  · rw [← Act.run_pure_ok hrun]
    exact .ifTaken cond hspan
  · rw [← Act.run_pure_ok hrun]
    exact .ifPassed cond hspan

theorem moves_of_endFor (hrun : (Move.endFor ip frames).run.run w = (.ok move, w')) :
    Moves body ip frames .endFor move := by
  obtain ⟨⟨frame, outer⟩, hclosing, hrun⟩ := Act.run_lift_ok hrun
  obtain ⟨hframes, hstop⟩ := Move.closing_eq_ok hclosing
  dsimp only at hrun
  split at hrun
  · next var last hkind =>
    obtain ⟨_, _, _, hrun⟩ := Act.run_bind_ok hrun
    obtain ⟨_, _, hrun⟩ := Act.run_lift_ok hrun
    obtain ⟨_, _, hrun⟩ := Act.run_lift_ok hrun
    obtain ⟨_, _, _, hrun⟩ := Act.run_bind_ok hrun
    split at hrun
    · rw [← Act.run_pure_ok hrun]
      exact .countOn hframes hstop hkind
    · rw [← Act.run_pure_ok hrun]
      exact .countOut hframes hstop hkind
  · cases congrArg Prod.fst hrun

theorem moves_of_endForEach (hrun : (Move.endForEach ip frames).run.run w = (.ok move, w')) :
    Moves body ip frames .endForEach move := by
  obtain ⟨⟨frame, outer⟩, hclosing, hrun⟩ := Act.run_lift_ok hrun
  obtain ⟨hframes, hstop⟩ := Move.closing_eq_ok hclosing
  dsimp only at hrun
  split at hrun
  · next var items cursor hkind =>
    split at hrun
    · next item hitem =>
      obtain ⟨_, _, _, hrun⟩ := Act.run_bind_ok hrun
      rw [← Act.run_pure_ok hrun]
      exact .walkOn hframes hstop hkind (List.getElem?_eq_some_iff.1 hitem).1
    · rw [← Act.run_pure_ok hrun]
      exact .walkOut hframes hstop hkind
  · cases congrArg Prod.fst hrun

theorem moves_of_endWhile (hrun : Move.endWhile ip frames = .ok move) :
    Moves body ip frames .endWhile move := by
  unfold Move.endWhile at hrun
  cases hclosing : Move.closing .whileLoop ip frames with
  | error fault => simp [hclosing, bind, Except.bind] at hrun
  | ok pair =>
    obtain ⟨frame, outer⟩ := pair
    obtain ⟨hframes, hstop⟩ := Move.closing_eq_ok hclosing
    simp only [hclosing, bind, Except.bind] at hrun
    split at hrun
    · next hkind =>
      obtain rfl : _ = move := Except.ok.inj hrun
      exact .again hframes hstop hkind
    · simp at hrun

theorem moves_of_breakLoop (hrun : Move.breakLoop frames = .ok move) :
    Moves body ip frames .breakLoop move := by
  unfold Move.breakLoop at hrun
  cases hloop : Course.innermostLoop "BREAK" frames with
  | error fault => simp [hloop, bind, Except.bind] at hrun
  | ok pair =>
    simp only [hloop, bind, Except.bind] at hrun
    obtain rfl : _ = move := Except.ok.inj hrun
    exact .breakLoop (Course.innermostLoop_eq_ok hloop)

theorem moves_of_continueLoop (hrun : Move.continueLoop frames = .ok move) :
    Moves body ip frames .continueLoop move := by
  unfold Move.continueLoop at hrun
  cases hloop : Course.innermostLoop "CONTINUE" frames with
  | error fault => simp [hloop, bind, Except.bind] at hrun
  | ok pair =>
    simp only [hloop, bind, Except.bind] at hrun
    obtain rfl : _ = move := Except.ok.inj hrun
    exact .continueLoop (Course.innermostLoop_eq_ok hloop)

/-- **A statement that ends well makes one of the moves.** -/
theorem moves_of_run {s : Statement}
    (hrun : (moveOf h body ip frames s).run.run w = (.ok move, w')) :
    Moves body ip frames s move := by
  cases s with
  | ifThen cond =>
    obtain ⟨span, hspan, hrun⟩ := Act.run_lift_ok hrun
    exact moves_of_branch hspan hrun
  | orElse =>
    obtain ⟨stop, hstop, hrun⟩ := Act.run_lift_ok hrun
    rw [← Act.run_pure_ok hrun]
    exact .orElse hstop
  | endIf =>
    rw [← Act.run_pure_ok hrun]
    exact .endIf
  | forRange var start stop =>
    obtain ⟨span, hspan, hrun⟩ := Act.run_lift_ok hrun
    exact moves_of_enterFor hspan hrun
  | endFor => exact moves_of_endFor hrun
  | forEach var iterable =>
    obtain ⟨span, hspan, hrun⟩ := Act.run_lift_ok hrun
    exact moves_of_enterForEach hspan hrun
  | endForEach => exact moves_of_endForEach hrun
  | whileLoop cond =>
    obtain ⟨span, hspan, hrun⟩ := Act.run_lift_ok hrun
    exact moves_of_enterWhile hspan hrun
  | endWhile => exact moves_of_endWhile (congrArg Prod.fst hrun)
  | breakLoop => exact moves_of_breakLoop (congrArg Prod.fst hrun)
  | continueLoop => exact moves_of_continueLoop (congrArg Prod.fst hrun)
  | tryBlock =>
    obtain ⟨span, hspan, hrun⟩ := Act.run_lift_ok hrun
    rw [← Act.run_pure_ok hrun]
    exact .enter rfl hspan rfl
  | catchFault name =>
    obtain ⟨stop, hstop, hrun⟩ := Act.run_lift_ok hrun
    rw [← Act.run_pure_ok hrun]
    exact .catchFault name hstop
  | endTry =>
    rw [← Act.run_pure_ok hrun]
    exact .endTry
  | returnValue expr =>
    obtain ⟨v, _, _, hrun⟩ := Act.run_bind_ok hrun
    rw [← Act.run_pure_ok hrun]
    exact .finish expr v
  | _ =>
    obtain ⟨_, _, _, hrun⟩ := Act.run_bind_ok hrun
    rw [← Act.run_pure_ok hrun]
    exact .proceed rfl rfl

end

/-! ## Faults of block structure -/

/-- Why a statement at a position ends in a fault of block structure. -/
inductive Blocked (body : List Statement) (ip : Nat) (frames : List Frame) :
    Statement → StructureFault → Prop
  | opener {s : Statement} {b : Block} {cause : StructureFault} (hopens : s.opens? = some b)
    (hspan : Block.spanOf body ip = .error (.structural cause)) : Blocked body ip frames s cause
  | middle {s : Statement} {b : Block} {cause : StructureFault} (hdivides : s.divides? = some b)
    (hstop : Block.closerOf body ip = .error (.structural cause)) : Blocked body ip frames s cause
  | inactive {s : Statement} {b : Block} (hcloses : s.closes? = some b) (hloop : b.isLoop = true)
    (hnone : ∀ frame outer, frames = frame :: outer → frame.stop ≠ ip) :
    Blocked body ip frames s (.inactiveLoop b.closerKeyword ip)
  | other {s : Statement} {b : Block} {frame : Frame} {outer : List Frame}
    (hcloses : s.closes? = some b) (hframes : frames = frame :: outer) (hstop : frame.stop = ip)
    (hblock : frame.kind.block ≠ b) : Blocked body ip frames s (.otherBlock b.closerKeyword ip)
  | outside {s : Statement} (hjump : s.isJump = true) (hnone : ∀ f ∈ frames, f.isLoop = false) :
    Blocked body ip frames s (.outsideLoop s.keyword)

theorem Move.closing_eq_error {b : Block} {ip : Nat} {frames : List Frame}
    {cause : StructureFault} (h : Move.closing b ip frames = .error (.structural cause)) :
    cause = .inactiveLoop b.closerKeyword ip ∧
      ∀ frame outer, frames = frame :: outer → frame.stop ≠ ip := by
  cases frames with
  | nil =>
    simp only [Move.closing, Except.error.injEq, Fault.structural.injEq] at h
    exact ⟨h.symm, by simp⟩
  | cons f fs =>
    simp only [Move.closing] at h
    split at h
    · simp at h
    · next hstop =>
      simp only [Except.error.injEq, Fault.structural.injEq] at h
      refine ⟨h.symm, ?_⟩
      rintro frame outer ⟨⟩
      exact hstop

theorem Course.innermostLoop_eq_error {keyword : String} {frames : List Frame} {fault : Fault}
    (h : Course.innermostLoop keyword frames = .error fault) :
    fault = .structural (.outsideLoop keyword) ∧ ∀ f ∈ frames, f.isLoop = false := by
  unfold Course.innermostLoop at h
  split at h
  · simp at h
  · next hdrop =>
    simp only [Except.error.injEq] at h
    rw [List.dropWhile_eq_nil_iff] at hdrop
    exact ⟨h.symm, fun f hf => by simpa using hdrop f hf⟩

namespace Course

@[simp] theorem faultsUpTo_loopBound (v : Value) : FaultsUpTo 2 (loopBound v) := by
  unfold loopBound
  split <;> simp

@[simp] theorem faultsUpTo_nextCount (n : Int64) : FaultsUpTo 2 (nextCount n) := by
  unfold nextCount
  split <;> simp

theorem raisesUpTo_returned (expr : String) : RaisesUpTo 2 (returned expr : Act σ Value) := by
  unfold returned
  split
  · exact raisesUpTo_pure _
  · exact Act.raisesUpTo_evalText expr

end Course

namespace Move

theorem raisesUpTo_enterFor (span : Span) (var start stop : String) (ip : Nat)
    (frames : List Frame) :
    RaisesUpTo 2 (enterFor span var start stop ip frames : Act σ Move) := by
  refine raisesUpTo_bind (Act.raisesUpTo_evalText start) fun v => ?_
  refine raisesUpTo_bind (Act.raisesUpTo_lift (by simp)) fun first => ?_
  refine raisesUpTo_bind (Act.raisesUpTo_evalText stop) fun v => ?_
  refine raisesUpTo_bind (Act.raisesUpTo_lift (by simp)) fun last => ?_
  exact raisesUpTo_bind (Act.raisesUpTo_assign _ _) fun _ => raisesUpTo_pure _

theorem raisesUpTo_enterForEach (span : Span) (var iterable : String) (ip : Nat)
    (frames : List Frame) :
    RaisesUpTo 2 (enterForEach span var iterable ip frames : Act σ Move) := by
  refine raisesUpTo_bind (Act.raisesUpTo_evalText iterable) fun v => ?_
  refine raisesUpTo_bind (Act.raisesUpTo_lift (by simp)) fun items => ?_
  split
  · exact raisesUpTo_pure _
  · exact raisesUpTo_bind (Act.raisesUpTo_assign _ _) fun _ => raisesUpTo_pure _

theorem raisesUpTo_enterWhile (span : Span) (cond : String) (ip : Nat) (frames : List Frame) :
    RaisesUpTo 2 (enterWhile span cond ip frames : Act σ Move) := by
  refine raisesUpTo_bind (Act.raisesUpTo_evalText cond) fun v => ?_
  split <;> exact raisesUpTo_pure _

theorem raisesUpTo_branch (span : Span) (cond : String) (frames : List Frame) :
    RaisesUpTo 2 (branch span cond frames : Act σ Move) := by
  refine raisesUpTo_bind (Act.raisesUpTo_evalText cond) fun v => ?_
  split <;> exact raisesUpTo_pure _

end Move

section

variable {h : Host σ} {body : List Statement} {ip : Nat} {frames : List Frame}
  {cause : StructureFault} {w w' : World σ}

/-- An opener is blocked by a missing closer only. -/
theorem blocked_of_opener {s : Statement} {b : Block} {f : Span → Act σ Move}
    (hopens : s.opens? = some b) (hf : ∀ span, RaisesUpTo 2 (f span))
    (hrun : (Act.lift (Block.spanOf body ip) >>= f).run.run w = (.error (.structural cause), w')) :
    Blocked body ip frames s cause := by
  rcases Act.run_lift_error hrun with hspan | ⟨span, -, hrun⟩
  · exact .opener hopens hspan
  · exact ((hf span).not_structural hrun).elim

/-- A middle marker is blocked by a missing closer only. -/
theorem blocked_of_middle {s : Statement} {b : Block} {f : Nat → Act σ Move}
    (hdivides : s.divides? = some b) (hf : ∀ stop, RaisesUpTo 2 (f stop))
    (hrun : (Act.lift (Block.closerOf body ip) >>= f).run.run w
      = (.error (.structural cause), w')) :
    Blocked body ip frames s cause := by
  rcases Act.run_lift_error hrun with hstop | ⟨stop, -, hrun⟩
  · exact .middle hdivides hstop
  · exact ((hf stop).not_structural hrun).elim

theorem blocked_of_endFor
    (hrun : (Move.endFor ip frames).run.run w = (.error (.structural cause), w')) :
    Blocked body ip frames .endFor cause := by
  rcases Act.run_lift_error hrun with hclosing | ⟨⟨frame, outer⟩, hclosing, hrun⟩
  · obtain ⟨rfl, hnone⟩ := Move.closing_eq_error hclosing
    exact .inactive rfl rfl hnone
  · obtain ⟨hframes, hstop⟩ := Move.closing_eq_ok hclosing
    dsimp only at hrun
    split at hrun
    · refine (RaisesUpTo.not_structural ?_ hrun).elim
      refine raisesUpTo_bind (Act.raisesUpTo_lookup _) fun v => ?_
      refine raisesUpTo_bind (Act.raisesUpTo_lift (by simp)) fun count => ?_
      refine raisesUpTo_bind (Act.raisesUpTo_lift (by simp)) fun next => ?_
      refine raisesUpTo_bind (Act.raisesUpTo_assign _ _) fun _ => ?_
      split <;> exact raisesUpTo_pure _
    · next hkind =>
      cases congrArg Prod.fst hrun
      refine .other rfl hframes hstop fun hblock => ?_
      cases hk : frame.kind <;> simp_all [FrameKind.block]

theorem blocked_of_endForEach
    (hrun : (Move.endForEach ip frames).run.run w = (.error (.structural cause), w')) :
    Blocked body ip frames .endForEach cause := by
  rcases Act.run_lift_error hrun with hclosing | ⟨⟨frame, outer⟩, hclosing, hrun⟩
  · obtain ⟨rfl, hnone⟩ := Move.closing_eq_error hclosing
    exact .inactive rfl rfl hnone
  · obtain ⟨hframes, hstop⟩ := Move.closing_eq_ok hclosing
    dsimp only at hrun
    split at hrun
    · refine (RaisesUpTo.not_structural ?_ hrun).elim
      split
      · exact raisesUpTo_bind (Act.raisesUpTo_assign _ _) fun _ => raisesUpTo_pure _
      · exact raisesUpTo_pure _
    · next hkind =>
      cases congrArg Prod.fst hrun
      refine .other rfl hframes hstop fun hblock => ?_
      cases hk : frame.kind <;> simp_all [FrameKind.block]

theorem blocked_of_endWhile (hrun : Move.endWhile ip frames = .error (.structural cause)) :
    Blocked body ip frames .endWhile cause := by
  unfold Move.endWhile at hrun
  cases hclosing : Move.closing .whileLoop ip frames with
  | error fault =>
    simp only [hclosing, bind, Except.bind, Except.error.injEq] at hrun
    subst hrun
    obtain ⟨rfl, hnone⟩ := Move.closing_eq_error hclosing
    exact .inactive rfl rfl hnone
  | ok pair =>
    obtain ⟨frame, outer⟩ := pair
    obtain ⟨hframes, hstop⟩ := Move.closing_eq_ok hclosing
    simp only [hclosing, bind, Except.bind] at hrun
    split at hrun
    · cases hrun
    · next hkind =>
      cases hrun
      refine .other rfl hframes hstop fun hblock => ?_
      cases hk : frame.kind <;> simp_all [FrameKind.block]

/-- A jump is blocked where no loop is active. -/
theorem blocked_of_innermostLoop {s : Statement} {f : Frame × List Frame → Except Fault Move}
    (hjump : s.isJump = true) (hf : ∀ pair, FaultsUpTo 2 (f pair))
    (hrun : (Act.lift (Course.innermostLoop s.keyword frames >>= f)).run.run w
      = (.error (.structural cause), w')) :
    Blocked body ip frames s cause := by
  have hfault : (Course.innermostLoop s.keyword frames >>= f) = .error (.structural cause) :=
    congrArg Prod.fst hrun
  cases hloop : Course.innermostLoop s.keyword frames with
  | error fault =>
    obtain ⟨rfl, hnone⟩ := Course.innermostLoop_eq_error hloop
    rw [hloop] at hfault
    cases hfault
    exact .outside hjump hnone
  | ok pair =>
    rw [hloop] at hfault
    exact absurd (hf pair _ hfault) (by simp)

/-- **A statement that ends in a fault of block structure is blocked for one of the reasons.** -/
theorem blocked_of_run {s : Statement}
    (hrun : (moveOf h body ip frames s).run.run w = (.error (.structural cause), w')) :
    Blocked body ip frames s cause := by
  cases s with
  | ifThen cond => exact blocked_of_opener rfl (fun _ => Move.raisesUpTo_branch _ _ _) hrun
  | orElse => exact blocked_of_middle rfl (fun _ => raisesUpTo_pure _) hrun
  | forRange var start stop =>
    exact blocked_of_opener rfl (fun _ => Move.raisesUpTo_enterFor _ _ _ _ _ _) hrun
  | endFor => exact blocked_of_endFor hrun
  | forEach var iterable =>
    exact blocked_of_opener rfl (fun _ => Move.raisesUpTo_enterForEach _ _ _ _ _) hrun
  | endForEach => exact blocked_of_endForEach hrun
  | whileLoop cond =>
    exact blocked_of_opener rfl (fun _ => Move.raisesUpTo_enterWhile _ _ _ _) hrun
  | endWhile => exact blocked_of_endWhile (congrArg Prod.fst hrun)
  | breakLoop => exact blocked_of_innermostLoop rfl (fun _ => faultsUpTo_pure _) hrun
  | continueLoop => exact blocked_of_innermostLoop rfl (fun _ => faultsUpTo_pure _) hrun
  | tryBlock => exact blocked_of_opener rfl (fun _ => raisesUpTo_pure _) hrun
  | catchFault name => exact blocked_of_middle rfl (fun _ => raisesUpTo_pure _) hrun
  | endIf | endTry => exact ((raisesUpTo_pure _).not_structural hrun).elim
  | returnValue expr =>
    refine (RaisesUpTo.not_structural ?_ hrun).elim
    exact raisesUpTo_bind (Course.raisesUpTo_returned expr) fun _ => raisesUpTo_pure _
  | _ =>
    refine (RaisesUpTo.not_structural ?_ hrun).elim
    exact raisesUpTo_bind (Act.raisesUpTo_perform h _) fun _ => raisesUpTo_pure _

end

/-! ## Steps -/

namespace Machine

variable {h : Host σ} {p : Program} {m : Machine σ}

/-- **A step does nothing, makes a move, or raises the fault of a statement.** -/
theorem step_cases (h : Host σ) (p : Program) (m : Machine σ) :
    m.step h p = m ∨
      ∃ s, m.isRunning = true ∧ p.body[m.ip]? = some s ∧
        ((∃ move w, (moveOf h p.body m.ip m.frames s).run.run m.world = (.ok move, w) ∧
            m.step h p = { m with world := w }.apply move) ∨
          ∃ fault w, (moveOf h p.body m.ip m.frames s).run.run m.world = (.error fault, w) ∧
            m.step h p = { m with world := w }.raise h p fault) := by
  by_cases hrun : m.isRunning = true
  · cases hs : p.body[m.ip]? with
    | none => exact Or.inl (by simp [step, hrun, hs])
    | some s =>
      refine Or.inr ⟨s, hrun, rfl, ?_⟩
      rcases hexec : (moveOf h p.body m.ip m.frames s).run.run m.world with ⟨r, w⟩
      cases r with
      | ok move => exact Or.inl ⟨move, w, rfl, by simp [step_eq, hrun, hs, hexec]⟩
      | error fault => exact Or.inr ⟨fault, w, rfl, by simp [step_eq, hrun, hs, hexec]⟩
  · exact Or.inl (by simp [step, hrun])

/-- The machines that a program comes through, on any inputs it accepts. -/
inductive Reachable (h : Host σ) (p : Program) : Machine σ → Prop
  | start {inputs : List Value} {host : σ} {m : Machine σ}
    (hstart : p.start inputs host = .ok m) : Reachable h p m
  | step {m : Machine σ} (hm : Reachable h p m) : Reachable h p (m.step h p)

/-- A started program stands at its first statement, with no block active. -/
theorem of_start {inputs : List Value} {host : σ} (hstart : p.start inputs host = .ok m) :
    m.ip = 0 ∧ m.frames = [] ∧ m.control = .running := by
  unfold Program.start at hstart
  split at hstart
  · cases hstart
    exact ⟨rfl, rfl, rfl⟩
  · cases hstart

/-- What holds at the start and survives every step holds at all times. -/
theorem Reachable.invariant {P : Machine σ → Prop}
    (hstart : ∀ m : Machine σ, m.ip = 0 → m.frames = [] → m.control = .running → P m)
    (hstep : ∀ m : Machine σ, P m → P (m.step h p)) (hm : Reachable h p m) : P m := by
  induction hm with
  | start hs =>
    obtain ⟨hip, hframes, hcontrol⟩ := of_start hs
    exact hstart _ hip hframes hcontrol
  | step _ ih => exact hstep _ ih

end Machine

end StepScript
