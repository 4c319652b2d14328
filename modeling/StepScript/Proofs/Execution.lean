import Mathlib.Logic.Function.Iterate
import StepScript.Proofs.Structured
import StepScript.Proofs.Threading

/-!
# Execution of single statements

What one step of the machine does at each statement of a tree, with the actions that structured
evaluation speaks of: a statement is an action whose result says where the program goes on
(`Acts`), and the ways into and through blocks follow.
-/

set_option autoImplicit false

namespace StepScript

variable {σ α : Type}

theorem Act.lift_ok_bind {β : Type} {r : Except Fault α} {x : α} (hr : r = .ok x)
    (f : α → Act σ β) : (Act.lift r >>= f) = f x := by
  rw [hr]
  rfl

namespace Loop

/-- The machine takes the same values for integers. -/
theorem loopBound_eq (v : Value) : Course.loopBound v = integerOf v := by
  cases v with
  | bool b => cases b <;> rfl
  | _ => rfl

theorem integerOf_of_int? {v : Value} {n : Int64} (h : v.int? = some n) : integerOf v = .ok n := by
  rw [← loopBound_eq, Course.loopBound, h]

/-- The machine counts on from every integer but the greatest. -/
theorem nextCount_eq (n : Int64) :
    Course.nextCount n
      = if n = Int64.maxValue then .error (.value .overflow) else .ok (n + 1) := by
  have hfits : Value.fits (n.toInt + 1) = true ↔ n ≠ Int64.maxValue := by
    have hle : n.toInt ≤ 9223372036854775807 := Int64.toInt_le n
    have hge : -9223372036854775808 ≤ n.toInt := Int64.le_toInt n
    rw [Ne, ← Int64.toInt_inj, Int64.toInt_maxValue, Value.fits, Int64.toInt_maxValue,
      Int64.toInt_minValue, Bool.and_eq_true, decide_eq_true_eq, decide_eq_true_eq]
    omega
  by_cases hn : n = Int64.maxValue
  · rw [Course.nextCount, if_neg (fun h => hfits.1 h hn), if_pos hn]
  · rw [Course.nextCount, if_pos (hfits.2 hn), if_neg hn]

theorem countUp_eq (var : String) :
    (countUp var : Act σ Int64) = (do
      let count ← Act.lift (Course.loopBound (← Act.lookup var))
      let next ← Act.lift (Course.nextCount count)
      Act.assign var (.int next)
      return next) := by
  unfold countUp
  refine bind_congr fun v => ?_
  rw [loopBound_eq]
  refine bind_congr fun n => ?_
  rw [nextCount_eq]
  by_cases hn : n = Int64.maxValue
  · rw [if_pos hn, if_pos hn]
    rfl
  · rw [if_neg hn, if_neg hn]
    rfl

end Loop

namespace Machine

variable {h : Host σ} {p : Program} {m m' m'' : Machine σ}

/-! ## Runs -/

/-- Some number of steps leads from one machine to the other. -/
def Leads (h : Host σ) (p : Program) (m m' : Machine σ) : Prop :=
  ∃ n, (step h p)^[n] m = m'

theorem Leads.refl (m : Machine σ) : Leads h p m m :=
  ⟨0, rfl⟩

theorem Leads.trans (hm : Leads h p m m') (hm' : Leads h p m' m'') : Leads h p m m'' := by
  obtain ⟨n, rfl⟩ := hm
  obtain ⟨n', rfl⟩ := hm'
  exact ⟨n' + n, Function.iterate_add_apply ..⟩

theorem Leads.step (hstep : m.step h p = m') (hm' : Leads h p m' m'') : Leads h p m m'' :=
  Leads.trans ⟨1, hstep⟩ hm'

theorem run_eq_iterate (fuel : Nat) (m : Machine σ) : m.run h p fuel = (step h p)^[fuel] m := by
  induction fuel generalizing m with
  | zero => rfl
  | succ fuel ih =>
    rw [run, Function.iterate_succ_apply]
    split
    · next hdone =>
      have hstay := step_of_isDone (h := h) hdone
      rw [hstay, Function.iterate_fixed hstay]
    · exact ih _

/-- The machine is done after a number of steps. -/
def HaltsIn (h : Host σ) (p : Program) (n : Nat) (m : Machine σ) : Prop :=
  ((Machine.step h p)^[n] m).isDone p = true

/-- What comes later on the way of a machine that halts halts as well. -/
theorem HaltsIn.leads {n : Nat} (hm : HaltsIn h p n m) (hleads : Leads h p m m') :
    HaltsIn h p n m' := by
  obtain ⟨k, rfl⟩ := hleads
  unfold HaltsIn at hm ⊢
  rwa [← Function.iterate_add_apply, Nat.add_comm, Function.iterate_add_apply,
    Function.iterate_fixed (step_of_isDone hm)]

/-! ## Actions of statements -/

/-- A running machine. -/
def running (w : World σ) (ip : Nat) (frames : List Frame) : Machine σ :=
  ⟨w, ip, frames, .running⟩

/-- A machine at a statement that halts is nearer to its end after a step. -/
theorem HaltsIn.next {n ip : Nat} {w : World σ} {frames : List Frame} {s : Statement}
    (hm : HaltsIn h p n (running w ip frames)) (hs : p.body[ip]? = some s)
    (hstep : (running w ip frames).step h p = m') : ∃ n' < n, HaltsIn h p n' m' := by
  cases n with
  | zero =>
    have hlt := (List.getElem?_eq_some_iff.1 hs).1
    simp [HaltsIn, running, Machine.isDone, isRunning, Nat.not_le_of_lt hlt] at hm
  | succ n =>
    rw [HaltsIn, Function.iterate_succ_apply, hstep] at hm
    exact ⟨n, Nat.lt_succ_self n, hm⟩

/-- The statement at a position is an action whose result says where the program goes on. -/
def Acts (h : Host σ) (p : Program) (ip : Nat) (frames : List Frame) (a : Act σ α)
    (move : α → Move) : Prop :=
  ∃ s, p.body[ip]? = some s ∧
    ∃ f : α → Act σ Move, (∀ x, f x = pure (move x)) ∧ moveOf h p.body ip frames s = a >>= f

section

variable {w w' : World σ} {ip : Nat} {frames : List Frame} {a : Act σ α} {move : α → Move}

theorem Acts.step_ok (hacts : Acts h p ip frames a move) {x : α}
    (ha : a.run.run w = (.ok x, w')) :
    (running w ip frames).step h p = (running w' ip frames).apply (move x) := by
  obtain ⟨s, hs, f, hf, hexec⟩ := hacts
  have hrun : (moveOf h p.body ip frames s).run.run w = (.ok (move x), w') := by
    rw [hexec, Act.run_bind, ha]
    show (f x).run.run w' = _
    rw [hf]
    rfl
  simp [step_eq, running, isRunning, hs, hrun]

theorem Acts.step_error (hacts : Acts h p ip frames a move) {fault : Fault}
    (ha : a.run.run w = (.error fault, w')) :
    (running w ip frames).step h p = (running w' ip frames).raise h p fault := by
  obtain ⟨s, hs, f, hf, hexec⟩ := hacts
  have hrun : (moveOf h p.body ip frames s).run.run w = (.error fault, w') := by
    rw [hexec, Act.run_bind, ha]
  simp [step_eq, running, isRunning, hs, hrun]

end

section

variable {w : World σ} {ip : Nat} {frames : List Frame}

/-- A step that only goes somewhere. -/
theorem Acts.step_pure {move : Unit → Move} (hacts : Acts h p ip frames (pure ()) move) :
    (running w ip frames).step h p = (running w ip frames).apply (move ()) :=
  hacts.step_ok rfl

theorem acts_simple {s : Statement} (hs : p.body[ip]? = some s) (hsimple : s.isSimple = true) :
    Acts h p ip frames (Act.perform h s) fun _ => ⟨.next, frames⟩ := by
  refine ⟨s, hs, fun _ => pure ⟨.next, frames⟩, fun _ => rfl, ?_⟩
  cases s <;> first | rfl | cases hsimple

theorem acts_returnNothing {expr : String} (hs : p.body[ip]? = some (.returnValue expr))
    (hblank : Text.trim expr.toList = []) :
    Acts h p ip frames (pure ()) fun _ => ⟨.finish .nothing, frames⟩ := by
  refine ⟨_, hs, fun _ => pure ⟨.finish .nothing, frames⟩, fun _ => rfl, ?_⟩
  simp only [moveOf, Course.returned, hblank, List.isEmpty_nil, if_true]
  rfl

theorem acts_returnValue {expr : String} (hs : p.body[ip]? = some (.returnValue expr))
    (hsome : Text.trim expr.toList ≠ []) :
    Acts h p ip frames (Act.evalText expr) fun v => ⟨.finish v, frames⟩ := by
  refine ⟨_, hs, _, fun _ => rfl, ?_⟩
  simp only [moveOf, Course.returned, List.isEmpty_iff, if_neg hsome]

theorem acts_ifThen {cond : String} {span : Span} (hs : p.body[ip]? = some (.ifThen cond))
    (hspan : Block.spanOf p.body ip = .ok span) :
    Acts h p ip frames (Act.evalText cond) fun v =>
      if v.truthy then ⟨.next, frames⟩
      else ⟨.jump (span.middle.getD span.stop + 1), frames⟩ := by
  refine ⟨_, hs, fun v => if v.truthy then pure ⟨.next, frames⟩
    else pure ⟨.jump (span.middle.getD span.stop + 1), frames⟩, fun v => ?_, ?_⟩
  · dsimp only
    split <;> rfl
  · exact Act.lift_ok_bind hspan _

theorem acts_orElse {stop : Nat} (hs : p.body[ip]? = some .orElse)
    (hstop : Block.closerOf p.body ip = .ok stop) :
    Acts h p ip frames (pure ()) fun _ => ⟨.jump (stop + 1), frames⟩ := by
  refine ⟨_, hs, fun _ => pure ⟨.jump (stop + 1), frames⟩, fun _ => rfl, ?_⟩
  exact Act.lift_ok_bind hstop _

theorem acts_endIf (hs : p.body[ip]? = some .endIf) :
    Acts h p ip frames (pure ()) fun _ => ⟨.next, frames⟩ :=
  ⟨_, hs, _, fun _ => rfl, rfl⟩

theorem acts_guarded {cond : String} {span : Span} (hs : p.body[ip]? = some (.whileLoop cond))
    (hspan : Block.spanOf p.body ip = .ok span) :
    Acts h p ip frames (Act.evalText cond) fun v =>
      if v.truthy then ⟨.next, ⟨.whileLoop, ip, span.stop⟩ :: frames⟩
      else ⟨.jump (span.stop + 1), frames⟩ := by
  refine ⟨_, hs, fun v => if v.truthy then pure ⟨.next, ⟨.whileLoop, ip, span.stop⟩ :: frames⟩
    else pure ⟨.jump (span.stop + 1), frames⟩, fun v => ?_, ?_⟩
  · dsimp only
    split <;> rfl
  · exact Act.lift_ok_bind hspan _

theorem acts_endWhile {start : Nat} (hs : p.body[ip]? = some .endWhile) :
    Acts h p ip (⟨.whileLoop, start, ip⟩ :: frames) (pure ()) fun _ => ⟨.jump start, frames⟩ := by
  refine ⟨_, hs, fun _ => pure ⟨.jump start, frames⟩, fun _ => rfl, ?_⟩
  show Act.lift (Move.endWhile ip _) = _
  simp only [Move.endWhile, Move.closing, if_true]
  rfl

theorem acts_counting {var start stop : String} {span : Span}
    (hs : p.body[ip]? = some (.forRange var start stop))
    (hspan : Block.spanOf p.body ip = .ok span) :
    Acts h p ip frames (Loop.boundsOf var start stop) fun last =>
      ⟨.next, ⟨.forRange var last, ip, span.stop⟩ :: frames⟩ := by
  refine ⟨_, hs, _, fun _ => rfl, ?_⟩
  simp only [Loop.boundsOf, ← Loop.loopBound_eq, bind_assoc, pure_bind]
  exact Act.lift_ok_bind hspan _

theorem acts_countUp {var : String} {last : Int64} {start : Nat}
    (hs : p.body[ip]? = some .endFor) :
    Acts h p ip (⟨.forRange var last, start, ip⟩ :: frames) (Loop.countUp var) fun next =>
      if next ≤ last then ⟨.jump (start + 1), ⟨.forRange var last, start, ip⟩ :: frames⟩
      else ⟨.next, frames⟩ := by
  refine ⟨_, hs, fun next => if next ≤ last
    then pure ⟨.jump (start + 1), ⟨.forRange var last, start, ip⟩ :: frames⟩
    else pure ⟨.next, frames⟩, fun next => ?_, ?_⟩
  · dsimp only
    split <;> rfl
  · show Move.endFor ip _ = _
    simp only [Move.endFor, Move.closing, if_true, Loop.countUp_eq, bind_assoc, pure_bind]
    rfl

theorem acts_walking {var iterable : String} {span : Span}
    (hs : p.body[ip]? = some (.forEach var iterable))
    (hspan : Block.spanOf p.body ip = .ok span) :
    Acts h p ip frames (Loop.itemsOf var iterable) fun items =>
      match items with
      | [] => ⟨.jump (span.stop + 1), frames⟩
      | first :: left => ⟨.next, ⟨.forEach var (first :: left) 0, ip, span.stop⟩ :: frames⟩ := by
  refine ⟨_, hs, fun items => match items with
    | [] => pure ⟨.jump (span.stop + 1), frames⟩
    | first :: left => pure ⟨.next, ⟨.forEach var (first :: left) 0, ip, span.stop⟩ :: frames⟩,
    fun items => ?_, ?_⟩
  · cases items <;> rfl
  · refine (Act.lift_ok_bind hspan _).trans ?_
    simp only [Move.enterForEach, Loop.itemsOf, bind_assoc]
    congr 1
    funext v
    congr 1
    funext items
    cases items <;> rfl

theorem acts_walkNext {var : String} {items left : List Value} {next : Value} {start cursor : Nat}
    (hs : p.body[ip]? = some .endForEach) (hleft : items.drop (cursor + 1) = next :: left) :
    Acts h p ip (⟨.forEach var items cursor, start, ip⟩ :: frames) (Act.assign var next) fun _ =>
      ⟨.jump (start + 1), ⟨.forEach var items (cursor + 1), start, ip⟩ :: frames⟩ := by
  have hitem : items[cursor + 1]? = some next := by
    rw [← List.head?_drop, hleft]
    rfl
  refine ⟨_, hs, _, fun _ => rfl, ?_⟩
  show Move.endForEach ip _ = _
  simp only [Move.endForEach, Move.closing, if_true, Act.lift_ok_bind rfl, hitem]

theorem acts_walkOut {var : String} {items : List Value} {start cursor : Nat}
    (hs : p.body[ip]? = some .endForEach) (hleft : items.drop (cursor + 1) = []) :
    Acts h p ip (⟨.forEach var items cursor, start, ip⟩ :: frames) (pure ()) fun _ =>
      ⟨.next, frames⟩ := by
  have hitem : items[cursor + 1]? = none := by
    rw [← List.head?_drop, hleft]
    rfl
  refine ⟨_, hs, fun _ => pure ⟨.next, frames⟩, fun _ => rfl, ?_⟩
  show Move.endForEach ip _ = _
  simp only [Move.endForEach, Move.closing, if_true, Act.lift_ok_bind rfl, hitem]
  rfl

theorem acts_breakLoop {loop : Frame} {around : List Frame} (hs : p.body[ip]? = some .breakLoop)
    (hloop : frames.dropWhile (fun f => !f.isLoop) = loop :: around) :
    Acts h p ip frames (pure ()) fun _ => ⟨.jump (loop.stop + 1), around⟩ := by
  refine ⟨_, hs, fun _ => pure ⟨.jump (loop.stop + 1), around⟩, fun _ => rfl, ?_⟩
  show Act.lift (Move.breakLoop frames) = _
  simp only [Move.breakLoop, Course.innermostLoop, hloop]
  rfl

theorem acts_continueLoop {loop : Frame} {around : List Frame}
    (hs : p.body[ip]? = some .continueLoop)
    (hloop : frames.dropWhile (fun f => !f.isLoop) = loop :: around) :
    Acts h p ip frames (pure ()) fun _ => ⟨.jump loop.stop, loop :: around⟩ := by
  refine ⟨_, hs, fun _ => pure ⟨.jump loop.stop, loop :: around⟩, fun _ => rfl, ?_⟩
  show Act.lift (Move.continueLoop frames) = _
  simp only [Move.continueLoop, Course.innermostLoop, hloop]
  rfl

theorem acts_tryBlock {span : Span} (hs : p.body[ip]? = some .tryBlock)
    (hspan : Block.spanOf p.body ip = .ok span) :
    Acts h p ip frames (pure ()) fun _ =>
      ⟨.next, ⟨.tryBlock span.middle, ip, span.stop⟩ :: frames⟩ := by
  refine ⟨_, hs, fun _ => pure ⟨.next, ⟨.tryBlock span.middle, ip, span.stop⟩ :: frames⟩,
    fun _ => rfl, ?_⟩
  exact Act.lift_ok_bind hspan _

theorem acts_catchFault {name : String} {stop : Nat} (hs : p.body[ip]? = some (.catchFault name))
    (hstop : Block.closerOf p.body ip = .ok stop) :
    Acts h p ip frames (pure ()) fun _ => ⟨.jump stop, frames⟩ := by
  refine ⟨_, hs, fun _ => pure ⟨.jump stop, frames⟩, fun _ => rfl, ?_⟩
  exact Act.lift_ok_bind hstop _

theorem acts_endTry (hs : p.body[ip]? = some .endTry) :
    Acts h p ip frames (pure ()) fun _ => ⟨.next, Move.endTry ip frames⟩ :=
  ⟨_, hs, _, fun _ => rfl, rfl⟩

end

/-! ## Ways into blocks -/

variable {position : Nat} {outer : List Frame} {inside : Tree} {w w₁ : World σ} {v : Value}

section

variable {cond : String} {span : Span}

theorem leads_ifYes (hs : p.body[position]? = some (.ifThen cond))
    (hspan : Block.spanOf p.body position = .ok span)
    (hcond : (Act.evalText cond).run.run w = (.ok v, w₁)) (htruthy : v.truthy = true) :
    Leads h p (running w position outer) (running w₁ (position + 1) outer) := by
  have hstep : (running w position outer).step h p = _ := (acts_ifThen hs hspan).step_ok hcond
  rw [if_pos htruthy] at hstep
  exact .step hstep (.refl _)

theorem leads_ifNo (hs : p.body[position]? = some (.ifThen cond))
    (hspan : Block.spanOf p.body position = .ok span)
    (hcond : (Act.evalText cond).run.run w = (.ok v, w₁)) (hfalsy : v.truthy = false) :
    Leads h p (running w position outer)
      (running w₁ (span.middle.getD span.stop + 1) outer) := by
  have hstep : (running w position outer).step h p = _ := (acts_ifThen hs hspan).step_ok hcond
  rw [if_neg (by simp [hfalsy])] at hstep
  exact .step hstep (.refl _)

theorem leads_tryBlock (hs : p.body[position]? = some .tryBlock)
    (hspan : Block.spanOf p.body position = .ok span) :
    Leads h p (running w position outer)
      (running w (position + 1) (⟨.tryBlock span.middle, position, span.stop⟩ :: outer)) :=
  .step (acts_tryBlock hs hspan).step_pure (.refl _)

/-- The active block of a loop around a tree. -/
def loopFrame (kind : FrameKind) (position : Nat) (inside : Tree) : Frame :=
  ⟨kind, position, position + 1 + inside.size⟩

theorem leads_guarded (hblock : Block.Undivided p.body position (.whileLoop cond) inside .endWhile)
    (hcond : (Act.evalText cond).run.run w = (.ok v, w₁)) (htruthy : v.truthy = true) :
    Leads h p (running w position outer)
      (running w₁ (position + 1) (loopFrame .whileLoop position inside :: outer)) := by
  have hstep : (running w position outer).step h p = _ :=
    (acts_guarded hblock.opener hblock.span).step_ok hcond
  rw [if_pos htruthy] at hstep
  exact .step hstep (.refl _)

theorem leads_guardFails
    (hblock : Block.Undivided p.body position (.whileLoop cond) inside .endWhile)
    (hcond : (Act.evalText cond).run.run w = (.ok v, w₁)) (hfalsy : v.truthy = false) :
    Leads h p (running w position outer) (running w₁ (position + 1 + inside.size + 1) outer) := by
  have hstep : (running w position outer).step h p = _ :=
    (acts_guarded hblock.opener hblock.span).step_ok hcond
  rw [if_neg (by simp [hfalsy])] at hstep
  exact .step hstep (.refl _)

theorem step_endWhile (hs : p.body[position + 1 + inside.size]? = some .endWhile) :
    (running w (position + 1 + inside.size)
      (loopFrame .whileLoop position inside :: outer)).step h p = running w position outer :=
  (acts_endWhile hs).step_pure

end

section

variable {var start stop : String} {last next : Int64}

theorem leads_counting
    (hblock : Block.Undivided p.body position (.forRange var start stop) inside .endFor)
    (hbounds : (Loop.boundsOf var start stop).run.run w = (.ok last, w₁)) :
    Leads h p (running w position outer)
      (running w₁ (position + 1) (loopFrame (.forRange var last) position inside :: outer)) :=
  .step ((acts_counting hblock.opener hblock.span).step_ok hbounds) (.refl _)

theorem step_countNext (hs : p.body[position + 1 + inside.size]? = some .endFor)
    (hcount : (Loop.countUp var).run.run w = (.ok next, w₁)) (hlast : next ≤ last) :
    (running w (position + 1 + inside.size)
      (loopFrame (.forRange var last) position inside :: outer)).step h p
        = running w₁ (position + 1) (loopFrame (.forRange var last) position inside :: outer) := by
  refine ((acts_countUp hs).step_ok hcount).trans ?_
  rw [if_pos hlast]
  rfl

theorem step_countOut (hs : p.body[position + 1 + inside.size]? = some .endFor)
    (hcount : (Loop.countUp var).run.run w = (.ok next, w₁)) (hlast : ¬next ≤ last) :
    (running w (position + 1 + inside.size)
      (loopFrame (.forRange var last) position inside :: outer)).step h p
        = running w₁ (position + 1 + inside.size + 1) outer := by
  refine ((acts_countUp hs).step_ok hcount).trans ?_
  rw [if_neg hlast]
  rfl

end

section

variable {var iterable : String} {items left : List Value} {item : Value} {cursor : Nat}

theorem leads_walking
    (hblock : Block.Undivided p.body position (.forEach var iterable) inside .endForEach)
    (hitems : (Loop.itemsOf var iterable).run.run w = (.ok (item :: left), w₁)) :
    Leads h p (running w position outer) (running w₁ (position + 1)
      (loopFrame (.forEach var (item :: left) 0) position inside :: outer)) :=
  .step ((acts_walking hblock.opener hblock.span).step_ok hitems) (.refl _)

theorem leads_walkNone
    (hblock : Block.Undivided p.body position (.forEach var iterable) inside .endForEach)
    (hitems : (Loop.itemsOf var iterable).run.run w = (.ok [], w₁)) :
    Leads h p (running w position outer) (running w₁ (position + 1 + inside.size + 1) outer) :=
  .step ((acts_walking hblock.opener hblock.span).step_ok hitems) (.refl _)

/-- The closer of a loop over items goes on to the next one, -/
theorem step_walkNext {start stop : Nat} (hs : p.body[stop]? = some .endForEach)
    (hleft : items.drop (cursor + 1) = item :: left) :
    (running w stop (⟨.forEach var items cursor, start, stop⟩ :: outer)).step h p
      = running (w.bind var item) (start + 1)
        (⟨.forEach var items (cursor + 1), start, stop⟩ :: outer) :=
  (acts_walkNext hs hleft).step_ok (Act.run_assign var item w)

/-- or leaves the loop after the last one. -/
theorem step_walkOut {start stop : Nat} (hs : p.body[stop]? = some .endForEach)
    (hleft : items.drop (cursor + 1) = []) :
    (running w stop (⟨.forEach var items cursor, start, stop⟩ :: outer)).step h p
      = running w (stop + 1) outer :=
  (acts_walkOut hs hleft).step_pure

end

end Machine

end StepScript
