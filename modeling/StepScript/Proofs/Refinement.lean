import StepScript.Host.Library
import StepScript.Proofs.Execution
import StepScript.Proofs.Nesting

/-!
# The machine refines structured evaluation

A machine that starts at the first statement of a tree ends where the outcome of the tree leads:
after the tree, at the innermost loop or handler around it, or nowhere (`Exits`). Every evaluation
of a tree is traced by the machine (`Machine.traces_of_evaluates`, by induction on the evaluation),
and when the machine comes to an end, there is an evaluation for it to trace
(`Machine.complete`, by induction on the tree and, for the passes of a loop, on the
number of steps).
-/

set_option autoImplicit false

namespace StepScript

variable {σ α : Type}

namespace Machine

variable {h : Host σ} {p : Program} {m m' m'' : Machine σ}

/-! ## Exits -/

/-- Where an outcome leads a machine, `outer` being the blocks active around a tree and `next` the
    position after it. -/
def Exits (h : Host σ) (p : Program) (outer : List Frame) (next : Nat) :
    Outcome → World σ → Machine σ → Prop
  | .normal, w, m => m = running w next outer
  | .breaks, w, m => ∃ loop around, outer.dropWhile (fun f => !f.isLoop) = loop :: around ∧
      m = running w (loop.stop + 1) around
  | .continues, w, m => ∃ loop around, outer.dropWhile (fun f => !f.isLoop) = loop :: around ∧
      m = running w loop.stop (loop :: around)
  | .returns v, w, m => m.world = w ∧ m.control = .returned v
  | .faults fault position, w, m =>
    match handler? outer with
    | some (handler, around) =>
      m = running (w.bind (errorVariable p.body handler) (.text (fault.message h.wording)))
        (handler + 1) around
    | none => m.world = w ∧ m.control = .faulted ⟨fault, p.location? position⟩

namespace Exits

variable {outer : List Frame} {next next' : Nat} {o o' : Outcome} {w : World σ} {frame : Frame}

theorem raise (w : World σ) (ip : Nat) (outer : List Frame) (next : Nat) (fault : Fault) :
    Exits h p outer next (.faults fault ip) w ((running w ip outer).raise h p fault) := by
  unfold Exits Machine.raise running
  cases hhandler : handler? outer with
  | none => exact ⟨rfl, rfl⟩
  | some pair => rfl

/-- What comes after a tree matters only when it ends well. -/
theorem of_ne_normal (hm : Exits h p outer next o w m) (ho : o ≠ .normal) :
    Exits h p outer next' o w m := by
  cases o with
  | normal => exact (ho rfl).elim
  | _ => exact hm

theorem handler?_cons (hframe : ∀ handler, frame.kind ≠ .tryBlock (some handler)) :
    handler? (frame :: outer) = handler? outer := by
  rw [handler?]
  split
  · next hkind => exact (hframe _ hkind).elim
  · rfl

/-- A loop catches the jumps of its body. -/
theorem leave_loop (hm : Exits h p (frame :: outer) next o w m) (hloop : frame.isLoop = true)
    (ho : o.leaves? = some o') : Exits h p outer (frame.stop + 1) o' w m := by
  have hhandler : handler? (frame :: outer) = handler? outer := by
    refine handler?_cons fun handler hkind => ?_
    rw [Frame.isLoop, hkind] at hloop
    cases hloop
  cases o with
  | normal | continues => cases ho
  | breaks =>
    cases ho
    obtain ⟨loop, around, hdrop, rfl⟩ := hm
    rw [List.dropWhile_cons_of_neg (by simp [hloop])] at hdrop
    cases hdrop
    rfl
  | returns v =>
    cases ho
    exact hm
  | faults fault position =>
    cases ho
    unfold Exits at hm ⊢
    rwa [hhandler] at hm

/-- The end of a pass through a loop is its closer. -/
theorem end_pass (hm : Exits h p (frame :: outer) frame.stop o w m) (hloop : frame.isLoop = true)
    (ho : o.leaves? = none) : m = running w frame.stop (frame :: outer) := by
  cases o with
  | normal => exact hm
  | continues =>
    obtain ⟨loop, around, hdrop, rfl⟩ := hm
    rw [List.dropWhile_cons_of_neg (by simp [hloop])] at hdrop
    cases hdrop
    rfl
  | breaks | returns | faults => cases ho

/-- A protected block lets jumps and returns through, and faults when it has no handler. -/
theorem leave_try {start stop : Nat} {handler : Option Nat}
    (hm : Exits h p (⟨.tryBlock handler, start, stop⟩ :: outer) next o w m) (ho : o ≠ .normal)
    (hquiet : o.isQuiet = true ∨ handler = none) : Exits h p outer next' o w m := by
  have hdrop : (⟨.tryBlock handler, start, stop⟩ :: outer).dropWhile (fun f => !f.isLoop)
      = outer.dropWhile (fun f => !f.isLoop) := rfl
  cases o with
  | normal => exact (ho rfl).elim
  | breaks | continues =>
    unfold Exits at hm ⊢
    rwa [hdrop] at hm
  | returns v => exact hm
  | faults fault position =>
    obtain rfl : handler = none := hquiet.resolve_left (by simp [Outcome.isQuiet])
    exact hm

end Exits

/-- The machine comes to where an outcome leads. -/
def Reaches (h : Host σ) (p : Program) (m : Machine σ) (outer : List Frame) (next : Nat)
    (o : Outcome) (w : World σ) : Prop :=
  ∃ m', Leads h p m m' ∧ Exits h p outer next o w m'

namespace Reaches

variable {outer : List Frame} {next next' ip : Nat} {o o' : Outcome} {w w' : World σ}
  {frame : Frame}

theorem lead (hleads : Leads h p m m') (hm' : Reaches h p m' outer next o w) :
    Reaches h p m outer next o w := by
  obtain ⟨m'', hleads', hexits⟩ := hm'
  exact ⟨m'', hleads.trans hleads', hexits⟩

theorem step (hstep : m.step h p = m') (hm' : Reaches h p m' outer next o w) :
    Reaches h p m outer next o w :=
  hm'.lead (.step hstep (.refl _))

theorem normal (w : World σ) (next : Nat) (outer : List Frame) :
    Reaches h p (running w next outer) outer next .normal w :=
  ⟨_, .refl _, rfl⟩

theorem fault {a : Act σ α} {move : α → Move} {cause : Fault}
    (hacts : Acts h p ip outer a move) (ha : a.run.run w = (.error cause, w')) :
    Reaches h p (running w ip outer) outer next (.faults cause ip) w' :=
  ⟨_, .step (hacts.step_error ha) (.refl _), Exits.raise w' ip outer next cause⟩

/-- What follows a part of a tree that ends well is done in its turn. -/
theorem after (hm : Reaches h p m outer next o w)
    (hnext : ∀ w, Leads h p (running w next outer) (running w next' outer)) :
    Reaches h p m outer next' o w := by
  obtain ⟨m', hleads, hexits⟩ := hm
  by_cases ho : o = .normal
  · subst ho
    obtain rfl : m' = running w next outer := hexits
    exact ⟨_, hleads.trans (hnext w), rfl⟩
  · exact ⟨m', hleads, hexits.of_ne_normal ho⟩

/-- A part that ends well, and what comes behind it. -/
theorem behind (hsecond : Reaches h p (running w next outer) outer next' o w')
    (hfirst : Reaches h p m outer next .normal w) : Reaches h p m outer next' o w' := by
  obtain ⟨_, hleads, rfl⟩ := hfirst
  exact hsecond.lead hleads

/-- A part that does not end well ends the whole. -/
theorem of_ne_normal (hm : Reaches h p m outer next o w) (ho : o ≠ .normal) :
    Reaches h p m outer next' o w := by
  obtain ⟨m', hleads, hexits⟩ := hm
  exact ⟨m', hleads, hexits.of_ne_normal ho⟩

/-- A protected block is left at its end, or by what it does not handle. -/
theorem after_try {start stop : Nat} {handler : Option Nat}
    (hm : Reaches h p m (⟨.tryBlock handler, start, stop⟩ :: outer) next o w)
    (hquiet : o.isQuiet = true ∨ handler = none)
    (hnext : ∀ w, Leads h p (running w next (⟨.tryBlock handler, start, stop⟩ :: outer))
      (running w next' outer)) :
    Reaches h p m outer next' o w := by
  obtain ⟨m', hleads, hexits⟩ := hm
  by_cases ho : o = .normal
  · subst ho
    obtain rfl : m' = running w next _ := hexits
    exact ⟨_, hleads.trans (hnext w), rfl⟩
  · exact ⟨m', hleads, hexits.leave_try ho hquiet⟩

theorem leave_loop (hm : Reaches h p m (frame :: outer) next o w) (hloop : frame.isLoop = true)
    (ho : o.leaves? = some o') : Reaches h p m outer (frame.stop + 1) o' w := by
  obtain ⟨m', hleads, hexits⟩ := hm
  exact ⟨m', hleads, hexits.leave_loop hloop ho⟩

theorem end_pass (hm : Reaches h p m (frame :: outer) frame.stop o w) (hloop : frame.isLoop = true)
    (ho : o.leaves? = none) : Leads h p m (running w frame.stop (frame :: outer)) := by
  obtain ⟨m', hleads, hexits⟩ := hm
  rwa [hexits.end_pass hloop ho] at hleads

end Reaches

end Machine

/-! ## Starts -/

/-- The blocks active around a task are closed after it. -/
def ClosedAfter (next : Nat) (outer : List Frame) : Prop :=
  ∀ f ∈ outer, next ≤ f.stop

theorem ClosedAfter.mono {next next' : Nat} {outer : List Frame} (h : ClosedAfter next' outer)
    (hle : next ≤ next') : ClosedAfter next outer :=
  fun f hf => Nat.le_trans hle (h f hf)

theorem ClosedAfter.cons {next : Nat} {frame : Frame} {outer : List Frame}
    (h : ClosedAfter (frame.stop + 1) outer) (hle : next ≤ frame.stop) :
    ClosedAfter next (frame :: outer) :=
  List.forall_mem_cons.2 ⟨hle, h.mono (Nat.le_succ_of_le hle)⟩

/-- Where a machine starts a task, `outer` being the blocks active around it: the position, the
    active blocks, and the position after the task. -/
inductive Task.Starts (body : List Statement) (outer : List Frame) (position : Nat) :
    Task → Nat → List Frame → Nat → Prop
  | code {t : Tree} (hat : StandsFrom body position t.statements)
    (hjumps : t.jumpsInside (outer.any Frame.isLoop) = true)
    (houter : ClosedAfter (position + t.size) outer) :
    Starts body outer position (.code t) position outer (position + t.size)
  | counting {var : String} {last : Int64} {inside : Tree}
    (hat : StandsFrom body (position + 1) inside.statements)
    (hcloser : body[position + 1 + inside.size]? = some .endFor)
    (hjumps : inside.jumpsInside true = true)
    (houter : ClosedAfter (position + 1 + inside.size + 1) outer) :
    Starts body outer position (.counting var last inside) (position + 1)
      (Machine.loopFrame (.forRange var last) position inside :: outer)
      (position + 1 + inside.size + 1)
  | walking {var : String} {items left : List Value} {cursor : Nat} {inside : Tree}
    (hat : StandsFrom body (position + 1) inside.statements)
    (hcloser : body[position + 1 + inside.size]? = some .endForEach)
    (hjumps : inside.jumpsInside true = true) (hleft : items.drop (cursor + 1) = left)
    (houter : ClosedAfter (position + 1 + inside.size + 1) outer) :
    Starts body outer position (.walking var left inside) (position + 1)
      (Machine.loopFrame (.forEach var items cursor) position inside :: outer)
      (position + 1 + inside.size + 1)

namespace Task.Starts

variable {body : List Statement} {outer frames : List Frame} {position ip next stop : Nat}
  {inside : Tree}

/-- A pass through a loop. -/
theorem pass (kind : FrameKind) (hloop : kind.block.isLoop = true)
    (hat : StandsFrom body (position + 1) inside.statements)
    (hjumps : inside.jumpsInside true = true)
    (houter : ClosedAfter (position + 1 + inside.size + 1) outer) :
    Starts body (Machine.loopFrame kind position inside :: outer) (position + 1) (.code inside)
      (position + 1) (Machine.loopFrame kind position inside :: outer)
      (position + 1 + inside.size) := by
  refine .code hat ?_ (houter.cons (Nat.le_refl _))
  rw [List.any_cons, Frame.isLoop, Machine.loopFrame, hloop, Bool.true_or]
  exact hjumps

/-- The first part of a protected block. -/
theorem protect (handler : Option Nat) (hat : StandsFrom body (position + 1) inside.statements)
    (hjumps : inside.jumpsInside (outer.any Frame.isLoop) = true)
    (hstop : position + 1 + inside.size ≤ stop) (houter : ClosedAfter (stop + 1) outer) :
    Starts body (⟨.tryBlock handler, position, stop⟩ :: outer) (position + 1) (.code inside)
      (position + 1) (⟨.tryBlock handler, position, stop⟩ :: outer) (position + 1 + inside.size) :=
  .code hat hjumps (houter.cons hstop)

end Task.Starts

/-! ## The parts of a tree that starts

What the start of a tree says, construct by construct: its markers are in place, its parts start
where they stand, and where it ends.
-/

theorem Tree.after_undivided {t inside : Tree} (position : Nat) (hsize : t.size = inside.size + 2) :
    position + t.size = position + 1 + inside.size + 1 := by
  omega

theorem Tree.after_divided {t inside behind : Tree} (position : Nat)
    (hsize : t.size = inside.size + behind.size + 3) :
    position + t.size = position + 1 + inside.size + 1 + behind.size + 1 := by
  omega

namespace Task.Starts

variable {body : List Statement} {outer frames : List Frame} {position ip next : Nat}
  {inside behind : Tree}

/-- The start of a tree among the active blocks around it. -/
abbrev At (body : List Statement) (outer : List Frame) (position : Nat) (t : Tree) : Prop :=
  Starts body outer position (.code t) position outer (position + t.size)

theorem seq {first second : Tree}
    (h : Starts body outer position (.code (.seq first second)) ip frames next) :
    At body outer position first ∧ At body outer (position + first.size) second ∧
      ip = position ∧ frames = outer ∧ next = position + first.size + second.size := by
  obtain ⟨hat, hjumps, houter⟩ := h
  obtain ⟨hat₁, hat₂⟩ := standsFrom_append.1 hat
  obtain ⟨hjumps₁, hjumps₂⟩ := Bool.and_eq_true_iff.1 hjumps
  rw [Tree.size_seq, ← Nat.add_assoc] at houter ⊢
  exact ⟨.code hat₁ hjumps₁ (houter.mono (Nat.le_add_right _ _)), .code hat₂ hjumps₂ houter,
    rfl, rfl, rfl⟩

theorem ifThen {cond : String}
    (h : Starts body outer position (.code (.ifThen cond inside)) ip frames next) :
    Block.Undivided body position (.ifThen cond) inside .endIf ∧
      At body outer (position + 1) inside ∧
      ip = position ∧ frames = outer ∧ next = position + 1 + inside.size + 1 := by
  obtain ⟨hat, hjumps, houter⟩ := h
  have hblock := Block.undivided_of_standsFrom rfl rfl hat
  rw [Tree.after_undivided _ (Tree.size_ifThen ..)] at houter ⊢
  exact ⟨hblock, .code hblock.first hjumps (houter.mono (Nat.le_succ _)), rfl, rfl, rfl⟩

theorem ifElse {cond : String}
    (h : Starts body outer position (.code (.ifElse cond inside behind)) ip frames next) :
    Block.Divided body position (.ifThen cond) inside .orElse behind .endIf ∧
      At body outer (position + 1) inside ∧
      At body outer (position + 1 + inside.size + 1) behind ∧
      ip = position ∧ frames = outer ∧
      next = position + 1 + inside.size + 1 + behind.size + 1 := by
  obtain ⟨hat, hjumps, houter⟩ := h
  have hblock := Block.divided_of_standsFrom rfl rfl rfl hat
  obtain ⟨hjumps₁, hjumps₂⟩ := Bool.and_eq_true_iff.1 hjumps
  rw [Tree.after_divided _ (Tree.size_ifElse ..)] at houter ⊢
  exact ⟨hblock, .code hblock.first hjumps₁ (houter.mono (by omega)),
    .code hblock.second hjumps₂ (houter.mono (Nat.le_succ _)), rfl, rfl, rfl⟩

theorem loop {l : Loop} (h : Starts body outer position (.code (.loop l inside)) ip frames next) :
    Block.Undivided body position l.opener inside l.closer ∧ inside.jumpsInside true = true ∧
      ClosedAfter (position + 1 + inside.size + 1) outer ∧
      ip = position ∧ frames = outer ∧ next = position + 1 + inside.size + 1 := by
  obtain ⟨hat, hjumps, houter⟩ := h
  have hblock := Block.undivided_of_standsFrom l.opens?_opener l.closes?_closer hat
  rw [Tree.after_undivided _ (Tree.size_loop ..)] at houter ⊢
  exact ⟨hblock, hjumps, houter, rfl, rfl, rfl⟩

theorem tryOnly (h : Starts body outer position (.code (.tryOnly inside)) ip frames next) :
    Block.Undivided body position .tryBlock inside .endTry ∧
      At body (⟨.tryBlock none, position, position + 1 + inside.size⟩ :: outer) (position + 1)
        inside ∧
      ip = position ∧ frames = outer ∧ next = position + 1 + inside.size + 1 := by
  obtain ⟨hat, hjumps, houter⟩ := h
  have hblock := Block.undivided_of_standsFrom rfl rfl hat
  rw [Tree.after_undivided _ (Tree.size_tryOnly ..)] at houter ⊢
  exact ⟨hblock, .protect none hblock.first hjumps (Nat.le_refl _) houter, rfl, rfl, rfl⟩

end Task.Starts

namespace Machine

/-- The active block of a protected tree with a handler. -/
def guardFrame (position : Nat) (inside behind : Tree) : Frame :=
  ⟨.tryBlock (some (position + 1 + inside.size)), position,
    position + 1 + inside.size + 1 + behind.size⟩

end Machine

/-- The handler stands outside of the protection. -/
theorem Task.Starts.tryCatch {body : List Statement} {outer frames : List Frame}
    {position ip next : Nat} {inside behind : Tree} {var : String}
    (h : Starts body outer position (.code (.tryCatch inside var behind)) ip frames next) :
    Block.Divided body position .tryBlock inside (.catchFault var) behind .endTry ∧
      ClosedAfter (position + 1 + inside.size + 1 + behind.size + 1) outer ∧
      At body (Machine.guardFrame position inside behind :: outer) (position + 1) inside ∧
      At body outer (position + 1 + inside.size + 1) behind ∧
      ip = position ∧ frames = outer ∧
      next = position + 1 + inside.size + 1 + behind.size + 1 := by
  obtain ⟨hat, hjumps, houter⟩ := h
  have hblock := Block.divided_of_standsFrom rfl rfl rfl hat
  obtain ⟨hjumps₁, hjumps₂⟩ := Bool.and_eq_true_iff.1 hjumps
  rw [Tree.after_divided _ (Tree.size_tryCatch ..)] at houter ⊢
  exact ⟨hblock, houter, .protect _ hblock.first hjumps₁ (by omega) houter,
    .code hblock.second hjumps₂ (houter.mono (Nat.le_succ _)), rfl, rfl, rfl⟩

/-! ## Evaluations are followed -/

namespace Machine

open Task.Starts (At)

variable {h : Host σ} {p : Program} {position next : Nat} {outer : List Frame}
  {inside behind : Tree} {w w₁ w₂ : World σ} {o o' : Outcome} {frame : Frame}

/-- The innermost loop around a jump. -/
theorem exists_loop (hloop : outer.any Frame.isLoop = true) :
    ∃ loop around, outer.dropWhile (fun f => !f.isLoop) = loop :: around := by
  cases hdrop : outer.dropWhile (fun f => !f.isLoop) with
  | cons loop around => exact ⟨loop, around, rfl⟩
  | nil =>
    obtain ⟨f, hf, hisLoop⟩ := List.any_eq_true.1 hloop
    have hnot := List.dropWhile_eq_nil_iff.1 hdrop f hf
    rw [hisLoop] at hnot
    cases hnot

/-- A fault at the closer of a loop leaves the loop. -/
theorem reaches_countFault {var : String} {last : Int64} {fault : Fault}
    (hs : p.body[position + 1 + inside.size]? = some .endFor)
    (hcount : (Loop.countUp var).run.run w = (.error fault, w₁)) :
    Reaches h p
      (running w (position + 1 + inside.size)
        (loopFrame (.forRange var last) position inside :: outer))
      outer (position + 1 + inside.size + 1) (.faults fault (position + 1 + inside.size)) w₁ := by
  have hfault : Reaches h p _ (loopFrame (.forRange var last) position inside :: outer)
      (position + 1 + inside.size) (.faults fault _) w₁ := .fault (acts_countUp hs) hcount
  exact hfault.leave_loop rfl rfl

theorem reaches_tryOnly (hblock : Block.Undivided p.body position .tryBlock inside .endTry)
    (hbody : Reaches h p
      (running w (position + 1) (⟨.tryBlock none, position, position + 1 + inside.size⟩ :: outer))
      (⟨.tryBlock none, position, position + 1 + inside.size⟩ :: outer)
      (position + 1 + inside.size) o w₁) :
    Reaches h p (running w position outer) outer (position + 1 + inside.size + 1) o w₁ := by
  refine .lead (leads_tryBlock hblock.opener hblock.span) ?_
  refine hbody.after_try (Or.inr rfl) fun w => .step (acts_endTry hblock.closer).step_pure ?_
  simp only [Move.endTry, if_true]
  exact .refl _

section

variable {var : String}

theorem reaches_tryQuiet
    (hblock : Block.Divided p.body position .tryBlock inside (.catchFault var) behind .endTry)
    (hbody : Reaches h p (running w (position + 1) (guardFrame position inside behind :: outer))
      (guardFrame position inside behind :: outer) (position + 1 + inside.size) o w₁)
    (hquiet : o.isQuiet = true) :
    Reaches h p (running w position outer) outer
      (position + 1 + inside.size + 1 + behind.size + 1) o w₁ := by
  refine .lead (leads_tryBlock hblock.opener hblock.span) ?_
  refine hbody.after_try (Or.inl hquiet) fun w => ?_
  refine .step (acts_catchFault hblock.divider hblock.partner).step_pure ?_
  refine .step (acts_endTry hblock.closer).step_pure ?_
  simp only [Move.endTry, if_true]
  exact .refl _

/-- A fault in a protected tree leads to its handler. -/
theorem leads_handler {fault : Fault} {raised : Nat}
    (hblock : Block.Divided p.body position .tryBlock inside (.catchFault var) behind .endTry)
    (hbody : Reaches h p (running w (position + 1) (guardFrame position inside behind :: outer))
      (guardFrame position inside behind :: outer) (position + 1 + inside.size)
      (.faults fault raised) w₁) :
    Leads h p (running w position outer)
      (running (w₁.bind var (.text (fault.message h.wording)))
        (position + 1 + inside.size + 1) outer) := by
  obtain ⟨m, hleads, hexits⟩ := hbody
  have hname : errorVariable p.body (position + 1 + inside.size) = var := by
    simp only [errorVariable, hblock.divider]
  obtain rfl : m = running (w₁.bind (errorVariable p.body (position + 1 + inside.size))
    (.text (fault.message h.wording))) (position + 1 + inside.size + 1) outer := hexits
  rw [hname] at hleads
  exact (leads_tryBlock hblock.opener hblock.span).trans hleads

/-- The end of a protected tree whose handler was used. -/
theorem leads_endTry (hs : p.body[position]? = some .endTry)
    (houter : ClosedAfter (position + 1) outer) :
    Leads h p (running w position outer) (running w (position + 1) outer) := by
  -- The block is gone, and those around it are closed later.
  have hend : Move.endTry position outer = outer := by
    unfold Move.endTry
    split
    · next stop around =>
      have hlater : position + 1 ≤ stop := houter _ List.mem_cons_self
      exact if_neg (by omega)
    · rfl
  have hstep : (running w position outer).step h p = _ := (acts_endTry hs).step_pure
  rw [hend] at hstep
  exact .step hstep (.refl _)

end

/-- The handler is done outside of the protection, up to the end of the protected tree. -/
theorem reaches_tryHandled {var : String} {fault : Fault} {raised : Nat}
    (hblock : Block.Divided p.body position .tryBlock inside (.catchFault var) behind .endTry)
    (houter : ClosedAfter (position + 1 + inside.size + 1 + behind.size + 1) outer)
    (hbody : Reaches h p (running w (position + 1) (guardFrame position inside behind :: outer))
      (guardFrame position inside behind :: outer) (position + 1 + inside.size)
      (.faults fault raised) w₁)
    (hhandler : Reaches h p
      (running (w₁.bind var (.text (fault.message h.wording)))
        (position + 1 + inside.size + 1) outer)
      outer (position + 1 + inside.size + 1 + behind.size) o w₂) :
    Reaches h p (running w position outer) outer
      (position + 1 + inside.size + 1 + behind.size + 1) o w₂ :=
  .lead (leads_handler hblock hbody) (hhandler.after fun _ => leads_endTry hblock.closer houter)

/-! ## Jumps, branches and guarded loops -/

section

variable {cond : String} {v : Value}

theorem reaches_breakLoop (hs : p.body[position]? = some .breakLoop)
    (hloop : outer.any Frame.isLoop = true) :
    Reaches h p (running w position outer) outer next .breaks w := by
  obtain ⟨loop, around, hdrop⟩ := exists_loop hloop
  exact ⟨_, .step (acts_breakLoop hs hdrop).step_pure (.refl _), loop, around, hdrop, rfl⟩

theorem reaches_continueLoop (hs : p.body[position]? = some .continueLoop)
    (hloop : outer.any Frame.isLoop = true) :
    Reaches h p (running w position outer) outer next .continues w := by
  obtain ⟨loop, around, hdrop⟩ := exists_loop hloop
  exact ⟨_, .step (acts_continueLoop hs hdrop).step_pure (.refl _), loop, around, hdrop, rfl⟩

theorem reaches_ifThen (hblock : Block.Undivided p.body position (.ifThen cond) inside .endIf)
    (hcond : (Act.evalText cond).run.run w = (.ok v, w₁)) (htruthy : v.truthy = true)
    (hyes : Reaches h p (running w₁ (position + 1) outer) outer (position + 1 + inside.size) o w₂) :
    Reaches h p (running w position outer) outer (position + 1 + inside.size + 1) o w₂ := by
  refine .lead (leads_ifYes hblock.opener hblock.span hcond htruthy) (hyes.after fun w => ?_)
  exact .step (acts_endIf hblock.closer).step_pure (.refl _)

section

variable (hblock : Block.Divided p.body position (.ifThen cond) inside .orElse behind .endIf)
  (hcond : (Act.evalText cond).run.run w = (.ok v, w₁))

include hblock hcond

/-- The branch that is taken first ends at the marker between the branches. -/
theorem reaches_ifYes (htruthy : v.truthy = true)
    (hyes : Reaches h p (running w₁ (position + 1) outer) outer (position + 1 + inside.size) o w₂) :
    Reaches h p (running w position outer) outer
      (position + 1 + inside.size + 1 + behind.size + 1) o w₂ := by
  refine .lead (leads_ifYes hblock.opener hblock.span hcond htruthy) (hyes.after fun w => ?_)
  exact .step (acts_orElse hblock.divider hblock.partner).step_pure (.refl _)

theorem reaches_ifNo (hfalsy : v.truthy = false)
    (hno : Reaches h p (running w₁ (position + 1 + inside.size + 1) outer) outer
      (position + 1 + inside.size + 1 + behind.size) o w₂) :
    Reaches h p (running w position outer) outer
      (position + 1 + inside.size + 1 + behind.size + 1) o w₂ := by
  refine .lead (leads_ifNo hblock.opener hblock.span hcond hfalsy) (hno.after fun w => ?_)
  exact .step (acts_endIf hblock.closer).step_pure (.refl _)

end

section

variable (hblock : Block.Undivided p.body position (.whileLoop cond) inside .endWhile)
  (hcond : (Act.evalText cond).run.run w = (.ok v, w₁)) (htruthy : v.truthy = true)
  (hbody : Reaches h p (running w₁ (position + 1) (loopFrame .whileLoop position inside :: outer))
    (loopFrame .whileLoop position inside :: outer) (position + 1 + inside.size) o w₂)

include hblock hcond htruthy hbody

theorem reaches_guardedLast (hleaves : o.leaves? = some o') :
    Reaches h p (running w position outer) outer (position + 1 + inside.size + 1) o' w₂ :=
  .lead (leads_guarded hblock hcond htruthy) (hbody.leave_loop rfl hleaves)

/-- The closer of a guarded loop goes back to its opener. -/
theorem leads_guardedNext (hleaves : o.leaves? = none) :
    Leads h p (running w position outer) (running w₂ position outer) := by
  refine (leads_guarded hblock hcond htruthy).trans ((hbody.end_pass rfl hleaves).trans ?_)
  exact .step (step_endWhile hblock.closer) (.refl _)

end

end

/-! ## Evaluations that the machine traces -/

/-- The machine goes where an evaluation of the task leads, wherever the task stands. -/
structure Traces (h : Host σ) (p : Program) (position : Nat) (task : Task) (w : World σ)
    (o : Outcome) (w' : World σ) : Prop where
  reaches : ∀ {outer frames : List Frame} {ip next : Nat},
    task.Starts p.body outer position ip frames next →
      Reaches h p (running w ip frames) outer next o w'

namespace Traces

variable {w' : World σ}

theorem skip (w : World σ) : Traces h p position (.code .skip) w .normal w := by
  constructor
  rintro outer _ _ _ ⟨⟩
  exact .normal _ _ _

theorem plain {s : Statement} {hplain : s.isMarker = false}
    (hreaches : ∀ {outer}, p.body[position]? = some s →
      (s.isJump = true → outer.any Frame.isLoop = true) →
      Reaches h p (running w position outer) outer (position + 1) o w') :
    Traces h p position (.code (.plain s hplain)) w o w' := by
  constructor
  rintro outer _ _ _ ⟨hat, hjumps, -⟩
  refine hreaches (standsFrom_cons.1 hat).1 fun hjump => ?_
  simpa [Tree.jumpsInside, hjump] using hjumps

theorem seq {first second : Tree}
    (hreaches : ∀ {outer}, At p.body outer position first →
      At p.body outer (position + first.size) second →
      Reaches h p (running w position outer) outer (position + first.size + second.size) o w') :
    Traces h p position (.code (.seq first second)) w o w' := by
  constructor
  intro outer frames ip next hstarts
  obtain ⟨hfirst, hsecond, rfl, rfl, rfl⟩ := hstarts.seq
  exact hreaches hfirst hsecond

theorem ifThen {cond : String}
    (hreaches : ∀ {outer}, Block.Undivided p.body position (.ifThen cond) inside .endIf →
      At p.body outer (position + 1) inside →
      Reaches h p (running w position outer) outer (position + 1 + inside.size + 1) o w') :
    Traces h p position (.code (.ifThen cond inside)) w o w' := by
  constructor
  intro outer frames ip next hstarts
  obtain ⟨hblock, hyes, rfl, rfl, rfl⟩ := hstarts.ifThen
  exact hreaches hblock hyes

theorem ifElse {cond : String}
    (hreaches : ∀ {outer},
      Block.Divided p.body position (.ifThen cond) inside .orElse behind .endIf →
      At p.body outer (position + 1) inside → At p.body outer (position + 1 + inside.size + 1) behind →
      Reaches h p (running w position outer) outer
        (position + 1 + inside.size + 1 + behind.size + 1) o w') :
    Traces h p position (.code (.ifElse cond inside behind)) w o w' := by
  constructor
  intro outer frames ip next hstarts
  obtain ⟨hblock, hyes, hno, rfl, rfl, rfl⟩ := hstarts.ifElse
  exact hreaches hblock hyes hno

/-- A loop may start again where it has started. -/
theorem loop {l : Loop}
    (hreaches : ∀ {outer}, Block.Undivided p.body position l.opener inside l.closer →
      inside.jumpsInside true = true → ClosedAfter (position + 1 + inside.size + 1) outer →
      Task.Starts p.body outer position (.code (.loop l inside)) position outer
        (position + 1 + inside.size + 1) →
      Reaches h p (running w position outer) outer (position + 1 + inside.size + 1) o w') :
    Traces h p position (.code (.loop l inside)) w o w' := by
  constructor
  intro outer frames ip next hstarts
  obtain ⟨hblock, hjumps, houter, rfl, rfl, rfl⟩ := hstarts.loop
  exact hreaches hblock hjumps houter hstarts

/-- The start of a pass through a loop, which is active as a block. -/
abbrev AtPass (p : Program) (outer : List Frame) (position : Nat) (kind : FrameKind)
    (inside : Tree) : Prop :=
  At p.body (loopFrame kind position inside :: outer) (position + 1) inside

theorem guarded {cond : String}
    (hreaches : ∀ {outer}, Block.Undivided p.body position (.whileLoop cond) inside .endWhile →
      AtPass p outer position .whileLoop inside →
      Task.Starts p.body outer position (.code (.loop (.guarded cond) inside)) position outer
        (position + 1 + inside.size + 1) →
      Reaches h p (running w position outer) outer (position + 1 + inside.size + 1) o w') :
    Traces h p position (.code (.loop (.guarded cond) inside)) w o w' :=
  .loop fun hblock hjumps houter => hreaches hblock (.pass _ rfl hblock.first hjumps houter)

/-- A pass through a counting loop, and the next one. -/
theorem counting {var : String} {last : Int64}
    (hreaches : ∀ {outer}, p.body[position + 1 + inside.size]? = some .endFor →
      AtPass p outer position (.forRange var last) inside →
      Task.Starts p.body outer position (.counting var last inside) (position + 1)
        (loopFrame (.forRange var last) position inside :: outer)
        (position + 1 + inside.size + 1) →
      Reaches h p
        (running w (position + 1) (loopFrame (.forRange var last) position inside :: outer))
        outer (position + 1 + inside.size + 1) o w') :
    Traces h p position (.counting var last inside) w o w' := by
  constructor
  intro outer _ _ _ hstarts
  cases hstarts with
  | counting hat hcloser hjumps houter =>
    exact hreaches hcloser (.pass _ rfl hat hjumps houter) (.counting hat hcloser hjumps houter)

/-- A pass through a loop over items, and the next one, which has one item less to go. -/
theorem walking {var : String} {left : List Value}
    (hreaches : ∀ {outer items cursor}, p.body[position + 1 + inside.size]? = some .endForEach →
      items.drop (cursor + 1) = left →
      AtPass p outer position (.forEach var items cursor) inside →
      (∀ next rest, left = next :: rest →
        Task.Starts p.body outer position (.walking var rest inside) (position + 1)
          (loopFrame (.forEach var items (cursor + 1)) position inside :: outer)
          (position + 1 + inside.size + 1)) →
      Reaches h p
        (running w (position + 1) (loopFrame (.forEach var items cursor) position inside :: outer))
        outer (position + 1 + inside.size + 1) o w') :
    Traces h p position (.walking var left inside) w o w' := by
  constructor
  intro outer _ _ _ hstarts
  cases hstarts with
  | walking hat hcloser hjumps hleft houter =>
    refine hreaches hcloser hleft (.pass _ rfl hat hjumps houter) fun next rest hcons => ?_
    refine .walking hat hcloser hjumps ?_ houter
    rw [← List.tail_drop, hleft, hcons, List.tail_cons]

theorem tryOnly
    (hreaches : ∀ {outer}, Block.Undivided p.body position .tryBlock inside .endTry →
      At p.body (⟨.tryBlock none, position, position + 1 + inside.size⟩ :: outer) (position + 1)
        inside →
      Reaches h p (running w position outer) outer (position + 1 + inside.size + 1) o w') :
    Traces h p position (.code (.tryOnly inside)) w o w' := by
  constructor
  intro outer frames ip next hstarts
  obtain ⟨hblock, hbody, rfl, rfl, rfl⟩ := hstarts.tryOnly
  exact hreaches hblock hbody

/-- The handler stands outside of the protection. -/
theorem tryCatch {var : String}
    (hreaches : ∀ {outer},
      Block.Divided p.body position .tryBlock inside (.catchFault var) behind .endTry →
      ClosedAfter (position + 1 + inside.size + 1 + behind.size + 1) outer →
      At p.body (guardFrame position inside behind :: outer) (position + 1) inside →
      At p.body outer (position + 1 + inside.size + 1) behind →
      Reaches h p (running w position outer) outer
        (position + 1 + inside.size + 1 + behind.size + 1) o w') :
    Traces h p position (.code (.tryCatch inside var behind)) w o w' := by
  constructor
  intro outer frames ip next hstarts
  obtain ⟨hblock, houter, hbody, hhandler, rfl, rfl, rfl⟩ := hstarts.tryCatch
  exact hreaches hblock houter hbody hhandler

end Traces

/-- **The machine traces every evaluation.** By induction on the evaluation; what the machine does
    in a case is in the lemma about the construct, and the rules of `Traces` say where its parts
    stand. -/
theorem traces_of_evaluates {task : Task} {w' : World σ}
    (heval : Evaluates h position task w o w') : Traces h p position task w o w' := by
  induction heval with
  | skip => exact .skip _
  | perform hsimple hrun =>
    exact .plain fun hs _ => .step ((acts_simple hs hsimple).step_ok hrun) (.normal _ _ _)
  | performFault hsimple hrun => exact .plain fun hs _ => .fault (acts_simple hs hsimple) hrun
  | breakLoop => exact .plain fun hs hloop => reaches_breakLoop hs (hloop rfl)
  | continueLoop => exact .plain fun hs hloop => reaches_continueLoop hs (hloop rfl)
  | returnNothing hblank =>
    exact .plain fun hs _ => ⟨_, .step (acts_returnNothing hs hblank).step_pure (.refl _), rfl, rfl⟩
  | returnValue hsome hexpr =>
    exact .plain fun hs _ =>
      ⟨_, .step ((acts_returnValue hs hsome).step_ok hexpr) (.refl _), rfl, rfl⟩
  | returnFault hsome hexpr => exact .plain fun hs _ => .fault (acts_returnValue hs hsome) hexpr
  | seqNext _ _ ihfirst ihsecond =>
    exact .seq fun hfirst hsecond => (ihsecond.reaches hsecond).behind (ihfirst.reaches hfirst)
  | seqStop _ hstop ih => exact .seq fun hfirst _ => (ih.reaches hfirst).of_ne_normal hstop
  | ifThenFault hcond =>
    exact .ifThen fun hblock _ => .fault (acts_ifThen hblock.opener hblock.span) hcond
  | ifThenYes hcond htruthy _ ih =>
    exact .ifThen fun hblock hyes => reaches_ifThen hblock hcond htruthy (ih.reaches hyes)
  | ifThenNo hcond hfalsy =>
    exact .ifThen fun hblock _ =>
      .lead (leads_ifNo hblock.opener hblock.span hcond hfalsy) (.normal _ _ _)
  | ifElseFault hcond =>
    exact .ifElse fun hblock _ _ => .fault (acts_ifThen hblock.opener hblock.span) hcond
  | ifElseYes hcond htruthy _ ih =>
    exact .ifElse fun hblock hyes _ => reaches_ifYes hblock hcond htruthy (ih.reaches hyes)
  | ifElseNo hcond hfalsy _ ih =>
    exact .ifElse fun hblock _ hno => reaches_ifNo hblock hcond hfalsy (ih.reaches hno)
  | guardFault hcond =>
    exact .guarded fun hblock _ _ => .fault (acts_guarded hblock.opener hblock.span) hcond
  | guardFails hcond hfalsy =>
    exact .guarded fun hblock _ _ => .lead (leads_guardFails hblock hcond hfalsy) (.normal _ _ _)
  | guardedLast hcond htruthy _ hleaves ih =>
    exact .guarded fun hblock hpass _ =>
      reaches_guardedLast hblock hcond htruthy (ih.reaches hpass) hleaves
  | guardedNext hcond htruthy _ hleaves _ ih ihagain =>
    exact .guarded fun hblock hpass hagain =>
      .lead (leads_guardedNext hblock hcond htruthy (ih.reaches hpass) hleaves)
        (ihagain.reaches hagain)
  | boundFault hbounds =>
    exact .loop fun hblock _ _ _ => .fault (acts_counting hblock.opener hblock.span) hbounds
  | count hbounds _ ih =>
    exact .loop fun hblock hjumps houter _ =>
      .lead (leads_counting hblock hbounds)
        (ih.reaches (.counting hblock.first hblock.closer hjumps houter))
  | countLast _ hleaves ih =>
    exact .counting fun _ hpass _ => (ih.reaches hpass).leave_loop rfl hleaves
  | countFault _ hleaves hcount ih =>
    exact .counting fun hs hpass _ =>
      .lead ((ih.reaches hpass).end_pass rfl hleaves) (reaches_countFault hs hcount)
  | countOut _ hleaves hcount hlast ih =>
    exact .counting fun hs hpass _ =>
      .lead ((ih.reaches hpass).end_pass rfl hleaves)
        (.step (step_countOut hs hcount hlast) (.normal _ _ _))
  | countNext _ hleaves hcount hlast _ ih ihagain =>
    exact .counting fun hs hpass hagain =>
      .lead ((ih.reaches hpass).end_pass rfl hleaves)
        (.step (step_countNext hs hcount hlast) (ihagain.reaches hagain))
  | itemsFault hitems =>
    exact .loop fun hblock _ _ _ => .fault (acts_walking hblock.opener hblock.span) hitems
  | walkNone hitems =>
    exact .loop fun hblock _ _ _ => .lead (leads_walkNone hblock hitems) (.normal _ _ _)
  | walk hitems _ ih =>
    exact .loop fun hblock hjumps houter _ =>
      .lead (leads_walking hblock hitems)
        (ih.reaches (.walking hblock.first hblock.closer hjumps rfl houter))
  | walkLast _ hleaves ih =>
    exact .walking fun _ _ hpass _ => (ih.reaches hpass).leave_loop rfl hleaves
  | walkOut _ hleaves ih =>
    exact .walking fun hs hleft hpass _ =>
      .lead ((ih.reaches hpass).end_pass rfl hleaves)
        (.step (step_walkOut hs hleft) (.normal _ _ _))
  | walkNext _ hleaves _ ih ihagain =>
    exact .walking fun hs hleft hpass hagain =>
      .lead ((ih.reaches hpass).end_pass rfl hleaves)
        (.step (step_walkNext hs hleft) (ihagain.reaches (hagain _ _ rfl)))
  | tryOnly _ ih => exact .tryOnly fun hblock hbody => reaches_tryOnly hblock (ih.reaches hbody)
  | tryQuiet _ hquiet ih =>
    exact .tryCatch fun hblock _ hbody _ => reaches_tryQuiet hblock (ih.reaches hbody) hquiet
  | tryHandled _ _ ihbody ihhandler =>
    exact .tryCatch fun hblock houter hbody hhandler =>
      reaches_tryHandled hblock houter (ihbody.reaches hbody) (ihhandler.reaches hhandler)

/-! ## Runs that end are evaluations -/

/-- Where the machine comes to an end, the tree at a position has an evaluation. -/
def Complete (h : Host σ) (p : Program) (position : Nat) (t : Tree) : Prop :=
  ∀ {outer : List Frame} {n : Nat} {w : World σ}, At p.body outer position t →
    HaltsIn h p n (running w position outer) → ∃ o w', Evaluates h position (.code t) w o w'

/-- A statement by itself always comes to an end. -/
theorem exists_evaluates_plain (h : Host σ) (position : Nat) (s : Statement)
    (hplain : s.isMarker = false) (w : World σ) :
    ∃ o w', Evaluates h position (.code (.plain s hplain)) w o w' := by
  by_cases hsimple : s.isSimple = true
  · rcases hrun : (Act.perform h s).run.run w with ⟨r, w'⟩
    cases r with
    | ok _ => exact ⟨_, _, .perform hsimple hrun⟩
    | error fault => exact ⟨_, _, .performFault hsimple hrun⟩
  · cases s with
    | breakLoop => exact ⟨_, _, .breakLoop⟩
    | continueLoop => exact ⟨_, _, .continueLoop⟩
    | returnValue expr =>
      by_cases hblank : Text.trim expr.toList = []
      · exact ⟨_, _, .returnNothing hblank⟩
      · rcases hexpr : (Act.evalText expr).run.run w with ⟨r, w'⟩
        cases r with
        | ok v => exact ⟨_, _, .returnValue hblank hexpr⟩
        | error fault => exact ⟨_, _, .returnFault hblank hexpr⟩
    | _ => simp_all [Statement.isSimple, Statement.isJump]

theorem complete_plain (s : Statement) (hplain : s.isMarker = false) :
    Complete h p position (.plain s hplain) :=
  fun _ _ => exists_evaluates_plain h position s hplain _

theorem complete_seq {first second : Tree} (hfirst : Complete h p position first)
    (hsecond : Complete h p (position + first.size) second) :
    Complete h p position (.seq first second) := by
  intro outer n w hstarts hhalts
  obtain ⟨hstarts₁, hstarts₂, -⟩ := hstarts.seq
  obtain ⟨o, w₁, heval⟩ := hfirst hstarts₁ hhalts
  by_cases ho : o = .normal
  · subst ho
    obtain ⟨_, hleads, rfl⟩ := (traces_of_evaluates heval).reaches hstarts₁
    obtain ⟨o', w₂, heval'⟩ := hsecond hstarts₂ (hhalts.leads hleads)
    exact ⟨o', w₂, .seqNext heval heval'⟩
  · exact ⟨o, w₁, .seqStop heval ho⟩

theorem complete_ifThen {cond : String} (hyes : Complete h p (position + 1) inside) :
    Complete h p position (.ifThen cond inside) := by
  intro outer n w hstarts hhalts
  obtain ⟨hblock, hinside, -⟩ := hstarts.ifThen
  rcases hcond : (Act.evalText cond).run.run w with ⟨r, w₁⟩
  cases r with
  | error fault => exact ⟨_, _, .ifThenFault hcond⟩
  | ok v =>
    cases htruthy : v.truthy with
    | false => exact ⟨_, _, .ifThenNo hcond htruthy⟩
    | true =>
      obtain ⟨o, w₂, heval⟩ := hyes hinside
        (hhalts.leads (leads_ifYes hblock.opener hblock.span hcond htruthy))
      exact ⟨o, w₂, .ifThenYes hcond htruthy heval⟩

theorem complete_ifElse {cond : String} (hyes : Complete h p (position + 1) inside)
    (hno : Complete h p (position + 1 + inside.size + 1) behind) :
    Complete h p position (.ifElse cond inside behind) := by
  intro outer n w hstarts hhalts
  obtain ⟨hblock, hinside, hbehind, -⟩ := hstarts.ifElse
  rcases hcond : (Act.evalText cond).run.run w with ⟨r, w₁⟩
  cases r with
  | error fault => exact ⟨_, _, .ifElseFault hcond⟩
  | ok v =>
    cases htruthy : v.truthy with
    | false =>
      obtain ⟨o, w₂, heval⟩ := hno hbehind
        (hhalts.leads (leads_ifNo hblock.opener hblock.span hcond htruthy))
      exact ⟨o, w₂, .ifElseNo hcond htruthy heval⟩
    | true =>
      obtain ⟨o, w₂, heval⟩ := hyes hinside
        (hhalts.leads (leads_ifYes hblock.opener hblock.span hcond htruthy))
      exact ⟨o, w₂, .ifElseYes hcond htruthy heval⟩

theorem complete_tryOnly (hbody : Complete h p (position + 1) inside) :
    Complete h p position (.tryOnly inside) := by
  intro outer n w hstarts hhalts
  obtain ⟨hblock, hinside, -⟩ := hstarts.tryOnly
  obtain ⟨o, w₁, heval⟩ := hbody hinside
    (hhalts.leads (leads_tryBlock hblock.opener hblock.span))
  exact ⟨o, w₁, .tryOnly heval⟩

theorem complete_tryCatch {var : String} (hbody : Complete h p (position + 1) inside)
    (hhandler : Complete h p (position + 1 + inside.size + 1) behind) :
    Complete h p position (.tryCatch inside var behind) := by
  intro outer n w hstarts hhalts
  obtain ⟨hblock, -, hinside, hbehind, -⟩ := hstarts.tryCatch
  obtain ⟨o, w₁, heval⟩ := hbody hinside
    (hhalts.leads (leads_tryBlock hblock.opener hblock.span))
  cases o with
  | faults fault raised =>
    have hleads := leads_handler hblock ((traces_of_evaluates heval).reaches hinside)
    obtain ⟨o, w₂, heval'⟩ := hhandler hbehind (hhalts.leads hleads)
    exact ⟨o, w₂, .tryHandled heval heval'⟩
  | _ => exact ⟨_, w₁, .tryQuiet heval rfl⟩

/-- A pass through a loop that is over: the machine stands at the closer. -/
theorem haltsIn_closer {n : Nat} {kind : FrameKind} (hloop : kind.block.isLoop = true)
    (hstarts : At p.body (loopFrame kind position inside :: outer) (position + 1) inside)
    (heval : Evaluates h (position + 1) (.code inside) w o w₁) (ho : o.leaves? = none)
    (hhalts : HaltsIn h p n
      (running w (position + 1) (loopFrame kind position inside :: outer))) :
    HaltsIn h p n
      (running w₁ (position + 1 + inside.size) (loopFrame kind position inside :: outer)) :=
  hhalts.leads (((traces_of_evaluates heval).reaches hstarts).end_pass hloop ho)

theorem complete_guarded {cond : String} (hinside : Complete h p (position + 1) inside) :
    Complete h p position (.loop (.guarded cond) inside) := by
  intro outer n w hloop hhalts
  obtain ⟨hblock, hjumps, houter, -⟩ := hloop.loop
  have hstarts := Task.Starts.pass .whileLoop rfl hblock.first hjumps houter
  -- Each pass takes a step at least: the one at the closer.
  induction n using Nat.strong_induction_on generalizing w with
  | _ n ih =>
  rcases hcond : (Act.evalText cond).run.run w with ⟨r, w₁⟩
  cases r with
  | error fault => exact ⟨_, _, .guardFault hcond⟩
  | ok v =>
    cases htruthy : v.truthy with
    | false => exact ⟨_, _, .guardFails hcond htruthy⟩
    | true =>
      have hpass := hhalts.leads (leads_guarded hblock hcond htruthy)
      obtain ⟨o, w₂, heval⟩ := hinside hstarts hpass
      cases ho : o.leaves? with
      | some o' => exact ⟨o', w₂, .guardedLast hcond htruthy heval ho⟩
      | none =>
        obtain ⟨n', hlt, hnext⟩ := (haltsIn_closer rfl hstarts heval ho hpass).next hblock.closer
          (step_endWhile hblock.closer)
        obtain ⟨o', w₃, hagain⟩ := ih n' hlt hnext
        exact ⟨o', w₃, .guardedNext hcond htruthy heval ho hagain⟩

/-- The passes of a counting loop. -/
theorem evaluates_counting {n : Nat} {var : String} {last : Int64}
    (hinside : Complete h p (position + 1) inside)
    (hcloser : p.body[position + 1 + inside.size]? = some .endFor)
    (hstarts : At p.body (loopFrame (.forRange var last) position inside :: outer) (position + 1)
      inside)
    (hhalts : HaltsIn h p n
      (running w (position + 1) (loopFrame (.forRange var last) position inside :: outer))) :
    ∃ o w', Evaluates h position (.counting var last inside) w o w' := by
  induction n using Nat.strong_induction_on generalizing w with
  | _ n ih =>
  obtain ⟨o, w₁, heval⟩ := hinside hstarts hhalts
  cases ho : o.leaves? with
  | some o' => exact ⟨o', w₁, .countLast heval ho⟩
  | none =>
    rcases hcount : (Loop.countUp var).run.run w₁ with ⟨r, w₂⟩
    cases r with
    | error fault => exact ⟨_, _, .countFault heval ho hcount⟩
    | ok next =>
      by_cases hlast : next ≤ last
      · obtain ⟨n', hlt, hnext⟩ := (haltsIn_closer rfl hstarts heval ho hhalts).next hcloser
          (step_countNext hcloser hcount hlast)
        obtain ⟨o', w₃, hagain⟩ := ih n' hlt hnext
        exact ⟨o', w₃, .countNext heval ho hcount hlast hagain⟩
      · exact ⟨_, _, .countOut heval ho hcount hlast⟩

/-- The passes of a loop over items. -/
theorem evaluates_walking {n : Nat} {var : String} {items left : List Value} {cursor : Nat}
    (hinside : Complete h p (position + 1) inside)
    (hcloser : p.body[position + 1 + inside.size]? = some .endForEach)
    (hstarts : ∀ cursor, At p.body
      (loopFrame (.forEach var items cursor) position inside :: outer) (position + 1) inside)
    (hleft : items.drop (cursor + 1) = left)
    (hhalts : HaltsIn h p n
      (running w (position + 1) (loopFrame (.forEach var items cursor) position inside :: outer))) :
    ∃ o w', Evaluates h position (.walking var left inside) w o w' := by
  induction left generalizing cursor w with
  | nil =>
    obtain ⟨o, w₁, heval⟩ := hinside (hstarts cursor) hhalts
    cases ho : o.leaves? with
    | some o' => exact ⟨o', w₁, .walkLast heval ho⟩
    | none => exact ⟨_, _, .walkOut heval ho⟩
  | cons item left ih =>
    obtain ⟨o, w₁, heval⟩ := hinside (hstarts cursor) hhalts
    cases ho : o.leaves? with
    | some o' => exact ⟨o', w₁, .walkLast heval ho⟩
    | none =>
      have hclosing := haltsIn_closer rfl (hstarts cursor) heval ho hhalts
      have hdrop : items.drop (cursor + 1 + 1) = left := by
        rw [← List.tail_drop, hleft, List.tail_cons]
      obtain ⟨o', w₂, hagain⟩ := ih hdrop
        (hclosing.leads (.step (step_walkNext hcloser hleft) (.refl _)))
      exact ⟨o', w₂, .walkNext heval ho hagain⟩

theorem complete_loop (l : Loop) (hinside : Complete h p (position + 1) inside) :
    Complete h p position (.loop l inside) := by
  cases l with
  | guarded cond => exact complete_guarded hinside
  | counting var start stop =>
    intro outer n w hstarts hhalts
    obtain ⟨hblock, hjumps, houter, -⟩ := hstarts.loop
    rcases hbounds : (Loop.boundsOf var start stop).run.run w with ⟨r, w₁⟩
    cases r with
    | error fault => exact ⟨_, _, .boundFault hbounds⟩
    | ok last =>
      obtain ⟨o, w₂, hpass⟩ := evaluates_counting hinside hblock.closer
        (.pass (.forRange var last) rfl hblock.first hjumps houter)
        (hhalts.leads (leads_counting hblock hbounds))
      exact ⟨o, w₂, .count hbounds hpass⟩
  | walking var iterable =>
    intro outer n w hstarts hhalts
    obtain ⟨hblock, hjumps, houter, -⟩ := hstarts.loop
    rcases hitems : (Loop.itemsOf var iterable).run.run w with ⟨r, w₁⟩
    cases r with
    | error fault => exact ⟨_, _, .itemsFault hitems⟩
    | ok items =>
      cases items with
      | nil => exact ⟨_, _, .walkNone hitems⟩
      | cons item left =>
        obtain ⟨o, w₂, hpass⟩ := evaluates_walking hinside hblock.closer
          (fun cursor => .pass (.forEach var (item :: left) cursor) rfl hblock.first hjumps houter)
          (by rfl) (hhalts.leads (leads_walking hblock hitems))
        exact ⟨o, w₂, .walk hitems hpass⟩

/-- **Where the machine comes to an end, every tree has an evaluation.** -/
theorem complete (h : Host σ) (p : Program) (t : Tree) (position : Nat) :
    Complete h p position t := by
  induction t generalizing position with
  | skip => exact fun _ _ => ⟨_, _, .skip⟩
  | plain s hplain => exact complete_plain s hplain
  | seq first second ihfirst ihsecond => exact complete_seq (ihfirst _) (ihsecond _)
  | ifThen cond yes ih => exact complete_ifThen (ih _)
  | ifElse cond yes no ihyes ihno => exact complete_ifElse (ihyes _) (ihno _)
  | loop l body ih => exact complete_loop l (ih _)
  | tryOnly body ih => exact complete_tryOnly (ih _)
  | tryCatch body var handler ihbody ihhandler =>
    exact complete_tryCatch (ihbody _) (ihhandler _)

/-! ## Whole programs -/

/-- Where no block is active, an outcome ends the program. -/
theorem Exits.ends {m : Machine σ} (hm : Exits h p [] p.body.length o w m) :
    m.isDone p = true ∧ m.world = w ∧ o.result? p = some m.result := by
  cases o with
  | normal =>
    obtain rfl : m = running w p.body.length [] := hm
    exact ⟨by simp [isDone, running], rfl, rfl⟩
  | breaks | continues =>
    obtain ⟨loop, around, hdrop, -⟩ := hm
    cases hdrop
  | returns v | faults fault position =>
    obtain ⟨hworld, hcontrol⟩ := hm
    exact ⟨by simp [isDone, isRunning, hcontrol], hworld,
      by simp [Outcome.result?, result, hcontrol]⟩

/-- A machine comes to one end only. -/
theorem eq_of_isDone {m m' : Machine σ} {n : Nat} (hn : HaltsIn h p n m) (hm' : Leads h p m m')
    (hdone : m'.isDone p = true) : (Machine.step h p)^[n] m = m' := by
  obtain ⟨k, rfl⟩ := hm'
  calc (Machine.step h p)^[n] m
      = (Machine.step h p)^[k] ((Machine.step h p)^[n] m) :=
        (Function.iterate_fixed (step_of_isDone hn) k).symm
    _ = (Machine.step h p)^[n] ((Machine.step h p)^[k] m) := by
        rw [← Function.iterate_add_apply, Nat.add_comm, Function.iterate_add_apply]
    _ = (Machine.step h p)^[k] m := Function.iterate_fixed (step_of_isDone hdone) n

end Machine

/-- The program ends on its inputs, with a result and the world it leaves behind: variables,
    printed lines and the state of the host. -/
def Program.Runs (h : Host σ) (p : Program) (inputs : List Value) (host : σ)
    (result : Except RuntimeFault Value) (w : World σ) : Prop :=
  match p.start inputs host with
  | .ok m => ∃ fuel, (m.run h p fuel).isDone p = true ∧ (m.run h p fuel).result = result ∧
      (m.run h p fuel).world = w
  | .error fault => .error fault = result ∧ { env := { host } } = w

/-- The evaluation of a tree on the inputs of a program ends, with a result and the world it leaves
    behind. -/
def Tree.Runs (h : Host σ) (p : Program) (t : Tree) (inputs : List Value) (host : σ)
    (result : Except RuntimeFault Value) (w : World σ) : Prop :=
  match p.start inputs host with
  | .ok m => ∃ o, Evaluates h 0 (.code t) m.world o w ∧ o.result? p = some result
  | .error fault => .error fault = result ∧ { env := { host } } = w

namespace Program

variable {h : Host σ} {p : Program}

/-- **The machine refines structured evaluation.** A well-nested program is read as a tree, and on
    all inputs and every host it ends with a value or a located fault, final variables, printed
    lines and state of the host exactly when the evaluation of the tree ends with the same. -/
theorem runs_iff_tree_runs (hp : p.structureIssues = []) :
    (∃ t : Tree, t.statements = p.body) ∧
      ∀ t : Tree, t.statements = p.body → ∀ inputs (host : σ) result w,
        p.Runs h inputs host result w ↔ t.Runs h p inputs host result w := by
  refine ⟨exists_tree hp, fun t ht inputs host result w => ?_⟩
  unfold Program.Runs Tree.Runs
  cases hstart : p.start inputs host with
  | error fault => rfl
  | ok m =>
    obtain ⟨w₀, ip, frames, control⟩ := m
    obtain ⟨rfl, rfl, rfl⟩ := Machine.of_start hstart
    have hstarts : Task.Starts p.body [] 0 (.code t) 0 [] (0 + t.size) :=
      .code (ht ▸ standsFrom_self t.statements) ((structureIssues_of_tree ht).1 hp)
        (fun f hf => by cases hf)
    have hsize : 0 + t.size = p.body.length := by rw [Nat.zero_add, Tree.size, ht]
    simp only [Machine.run_eq_iterate]
    constructor
    · rintro ⟨fuel, hdone, rfl, rfl⟩
      obtain ⟨o, w', heval⟩ := Machine.complete h p t 0 hstarts hdone
      obtain ⟨m', hleads, hexits⟩ := (Machine.traces_of_evaluates heval).reaches hstarts
      rw [hsize] at hexits
      obtain ⟨hdone', rfl, hresult⟩ := hexits.ends
      rw [Machine.eq_of_isDone hdone hleads hdone']
      exact ⟨o, heval, hresult⟩
    · rintro ⟨o, heval, hresult⟩
      obtain ⟨m', ⟨n, rfl⟩, hexits⟩ := (Machine.traces_of_evaluates heval).reaches hstarts
      rw [hsize] at hexits
      obtain ⟨hdone, hworld, hresult'⟩ := hexits.ends
      rw [hresult', Option.some.injEq] at hresult
      exact ⟨n, hdone, hresult, hworld⟩

/-- A loop that handles the same fault in each of its passes, and prints how far it has counted. -/
def countedFaults : Program where
  name := "Counted"
  kind := .algorithm
  body := [.forRange "i" "1" "3", .tryBlock, .raw "missing", .catchFault "e", .print "i", .endTry,
    .endFor, .returnValue "e"]

/-- Its blocks as a tree. -/
def countedFaultsTree : Tree :=
  .seq
    (.loop (.counting "i" "1" "3")
      (.tryCatch (.plain (.raw "missing") rfl) "e" (.plain (.print "i") rfl)))
    (.plain (.returnValue "e") rfl)

/-- All three passes are made, and the text that the last fault was bound to is returned. -/
theorem runs_iff_tree_runs_countedFaults :
    countedFaults.structureIssues = [] ∧ countedFaultsTree.statements = countedFaults.body ∧
      ∃ w : World (Library.State Unit Unit), w.output = #["1", "2", "3"] ∧
        countedFaults.Runs (Library.host (Library.standard .plain)) [] { memory := () }
          (.ok (.text "name 'missing' is not defined")) w ∧
        countedFaultsTree.Runs (Library.host (Library.standard .plain)) countedFaults []
          { memory := () } (.ok (.text "name 'missing' is not defined")) w := by
  have hp : countedFaults.structureIssues = [] := rfl
  have hruns : countedFaults.Runs (Library.host (Library.standard .plain)) []
      ({ memory := () } : Library.State Unit Unit)
      (.ok (.text "name 'missing' is not defined")) _ := ⟨17, rfl, rfl, rfl⟩
  exact ⟨hp, rfl, _, rfl, hruns,
    ((runs_iff_tree_runs hp).2 countedFaultsTree rfl [] _ _ _).1 hruns⟩

end Program

end StepScript
