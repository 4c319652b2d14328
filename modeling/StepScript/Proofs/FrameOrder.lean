import StepScript.Host.Library
import StepScript.Proofs.Moves
import StepScript.Proofs.Partners

/-!
# Order of the active blocks

An invariant of every program, well nested or not: the active blocks were opened one after the
other, all before the current position, and each of them carries what the text of the program says
about it. Blocks may cross and stay behind, but they never pile up: there are at most as many
active blocks as the program has openers.

The order is kept because every way back leads to the opener of a block that is active, and drops
the blocks opened after it.
-/

set_option autoImplicit false

namespace StepScript

variable {σ : Type}

/-! ## The invariant -/

/-- The frame is that of the block opened at its start: the opener there is of its family, and the
    closer and the handler are the partners of that opener. -/
def Frame.Matches (body : List Statement) (f : Frame) : Prop :=
  ∃ s span, body[f.start]? = some s ∧ s.opens? = some f.kind.block ∧
    Block.spanOf body f.start = .ok span ∧ f.stop = span.stop ∧ f.kind.Fits span

/-- The statement opens a block that stays active: a loop or a protected block. -/
def Statement.opensFrame (s : Statement) : Bool :=
  match s.opens? with
  | some b => b != .ifThen
  | none => false

/-- The active blocks, innermost first, at a position of a program. -/
structure FramesOrdered (body : List Statement) (ip : Nat) (frames : List Frame) : Prop where
  ip_le : ip ≤ body.length
  descending : frames.Pairwise fun inner outer => outer.start < inner.start
  below : ∀ f ∈ frames, f.start < ip
  matched : ∀ f ∈ frames, f.Matches body

/-- The partners of the block that a frame stands for. -/
theorem Frame.Matches.partners {body : List Statement} {f : Frame} (h : f.Matches body) :
    ∃ span, Block.Partners body f.kind.block f.start span ∧ f.stop = span.stop ∧
      f.kind.Fits span := by
  obtain ⟨s, span, hs, hopens, hspan, hstop, hfits⟩ := h
  exact ⟨span, Block.partners_of_opener hs hopens hspan, hstop, hfits⟩

/-- The closer of an active block stands after its opener, inside the program. -/
theorem Frame.Matches.stop_bounds {body : List Statement} {f : Frame} (h : f.Matches body) :
    f.start < f.stop ∧ f.stop < body.length := by
  obtain ⟨span, hpartners, hstop, -⟩ := h.partners
  rw [hstop]
  exact ⟨hpartners.lt_stop, hpartners.stop_lt⟩

namespace FramesOrdered

variable {body : List Statement} {ip : Nat} {frames : List Frame}

/-- No block is active at the start. -/
theorem nil (body : List Statement) : FramesOrdered body 0 [] :=
  ⟨Nat.zero_le _, .nil, by simp, by simp⟩

/-- Blocks may be left, innermost first, and the position may change to one after the openers of
    those that stay. -/
theorem leave {ip' : Nat} {outer : List Frame} (h : FramesOrdered body ip frames)
    (hsuffix : outer <:+ frames) (hip : ip' ≤ body.length) (hbelow : ∀ f ∈ outer, f.start < ip') :
    FramesOrdered body ip' outer :=
  ⟨hip, h.descending.sublist hsuffix.sublist, hbelow, fun f hf => h.matched f (hsuffix.subset hf)⟩

/-- A position further on changes nothing. -/
theorem forward {ip' : Nat} (h : FramesOrdered body ip frames) (hle : ip ≤ ip')
    (hip : ip' ≤ body.length) : FramesOrdered body ip' frames :=
  h.leave (List.suffix_refl _) hip fun f hf => Nat.lt_of_lt_of_le (h.below f hf) hle

/-- A block may be entered at its opener. -/
theorem enter {f : Frame} (h : FramesOrdered body ip frames) (hstart : f.start = ip)
    (hmatches : f.Matches body) : FramesOrdered body (ip + 1) (f :: frames) := by
  have hbounds := hmatches.stop_bounds
  refine ⟨by omega, ?_, ?_, ?_⟩
  · exact List.pairwise_cons.2 ⟨fun g hg => hstart ▸ h.below g hg, h.descending⟩
  · intro g hg
    rcases List.mem_cons.1 hg with rfl | hg
    · omega
    · exact Nat.lt_succ_of_lt (h.below g hg)
  · intro g hg
    rcases List.mem_cons.1 hg with rfl | hg
    · exact hmatches
    · exact h.matched g hg

/-- The openers of the blocks around an active block stand before its opener. -/
theorem outer_below {f : Frame} {outer : List Frame} (h : FramesOrdered body ip frames)
    (hsuffix : f :: outer <:+ frames) : ∀ g ∈ outer, g.start < f.start :=
  (List.pairwise_cons.1 (h.descending.sublist hsuffix.sublist)).1

/-- A jump back to just after the opener of an active block keeps that block active. -/
theorem reenter {f : Frame} {outer : List Frame} (h : FramesOrdered body ip frames)
    (hsuffix : f :: outer <:+ frames) : FramesOrdered body (f.start + 1) (f :: outer) := by
  have hbounds := (h.matched f (hsuffix.subset List.mem_cons_self)).stop_bounds
  refine h.leave hsuffix (by omega) fun g hg => ?_
  rcases List.mem_cons.1 hg with rfl | hg
  · exact Nat.lt_succ_self _
  · exact Nat.lt_succ_of_lt (h.outer_below hsuffix g hg)

/-- A jump to a place after the opener of an active block may leave that block. -/
theorem exit {ip' : Nat} {f : Frame} {outer : List Frame} (h : FramesOrdered body ip frames)
    (hsuffix : f :: outer <:+ frames) (hle : f.start ≤ ip') (hip : ip' ≤ body.length) :
    FramesOrdered body ip' outer :=
  h.leave ((List.suffix_cons f outer).trans hsuffix) hip fun g hg =>
    Nat.lt_of_lt_of_le (h.outer_below hsuffix g hg) hle

/-- The innermost loop and the blocks around it. -/
theorem suffix_of_innermost {loop : Frame} {outer : List Frame}
    (hloop : frames.dropWhile (fun f => !f.isLoop) = loop :: outer) : loop :: outer <:+ frames :=
  hloop ▸ List.dropWhile_suffix _

/-! ## Steps -/

/-- Where a move leads to. -/
def target (ip : Nat) : Flow → Nat
  | .next => ip + 1
  | .jump target => target
  | .finish _ => ip

/-- **Every move keeps the active blocks in order.** -/
theorem moves {s : Statement} {move : Move} (h : FramesOrdered body ip frames)
    (hs : body[ip]? = some s) (hmoves : Moves body ip frames s move) :
    FramesOrdered body (target ip move.flow) move.frames := by
  have hlt : ip < body.length := (List.getElem?_eq_some_iff.1 hs).1
  cases hmoves with
  | proceed | ifTaken | endIf => exact h.forward (Nat.le_succ ip) hlt
  | finish => exact h
  | ifPassed cond hspan =>
    obtain ⟨_, b, -, -, hpartners⟩ := Block.partners_of_spanOf hspan
    obtain ⟨hlow, hhigh⟩ := hpartners.middle_bounds
    exact h.forward (by simp only [target]; omega) (by simp only [target]; omega)
  | orElse hstop | catchFault _ hstop =>
    obtain ⟨hlow, hhigh⟩ := Block.lt_of_closerOf hstop
    exact h.forward (by simp only [target]; omega) (by simp only [target]; omega)
  | enter hopens hspan hfits => exact h.enter rfl ⟨s, _, hs, hopens, hspan, rfl, hfits⟩
  | passLoop hopens hloop hspan =>
    obtain ⟨_, b, -, -, hpartners⟩ := Block.partners_of_spanOf hspan
    have hlow := hpartners.lt_stop
    have hhigh := hpartners.stop_lt
    exact h.forward (by simp only [target]; omega) (by simp only [target]; omega)
  | countOn hframes hstop hkind =>
    subst hframes
    exact h.reenter (List.suffix_refl _)
  | countOut hframes hstop hkind | walkOut hframes hstop hkind =>
    subst hframes
    have hbelow := h.below _ List.mem_cons_self
    exact h.exit (List.suffix_refl _) (by simp only [target]; omega) hlt
  | walkOn hframes hstop hkind hnext =>
    subst hframes
    rename_i frame outer var items cursor
    have hre := h.reenter (List.suffix_refl _)
    refine ⟨hre.ip_le, ?_, ?_, ?_⟩
    · exact List.pairwise_cons.2 (List.pairwise_cons.1 hre.descending)
    · exact List.forall_mem_cons.2 (List.forall_mem_cons.1 hre.below)
    · obtain ⟨hframe, houter⟩ := List.forall_mem_cons.1 hre.matched
      obtain ⟨s', span, hs', hopens, hspan, hend, -⟩ := hframe
      rw [hkind] at hopens
      exact List.forall_mem_cons.2 ⟨⟨s', span, hs', hopens, hspan, hend, hnext⟩, houter⟩
  | again hframes hstop hkind =>
    subst hframes
    have hbelow := h.below _ List.mem_cons_self
    exact h.exit (List.suffix_refl _) (Nat.le_refl _) (by simp only [target]; omega)
  | breakLoop hloop =>
    have hsuffix := suffix_of_innermost hloop
    have hbounds := (h.matched _ (hsuffix.subset List.mem_cons_self)).stop_bounds
    exact h.exit hsuffix (by simp only [target]; omega) (by simp only [target]; omega)
  | continueLoop hloop =>
    have hsuffix := suffix_of_innermost hloop
    have hbounds := (h.matched _ (hsuffix.subset List.mem_cons_self)).stop_bounds
    exact (h.reenter hsuffix).forward (by simp only [target]; omega) (by simp only [target]; omega)
  | endTry =>
    simp only [Move.endTry]
    split
    · split
      · have hbelow := Nat.le_of_lt (h.below _ List.mem_cons_self)
        exact h.exit (List.suffix_refl _) (Nat.le_succ_of_le hbelow) hlt
      · exact h.forward (Nat.le_succ ip) hlt
    · exact h.forward (Nat.le_succ ip) hlt

/-- The handler of a fault belongs to an active protected block. -/
theorem handler_suffix {handler : Nat} {outer : List Frame}
    (hhandler : Machine.handler? frames = some (handler, outer)) :
    ∃ f : Frame, f.kind = .tryBlock (some handler) ∧ f :: outer <:+ frames := by
  induction frames with
  | nil => simp [Machine.handler?] at hhandler
  | cons f fs ih =>
    unfold Machine.handler? at hhandler
    split at hhandler
    · next hkind =>
      cases hhandler
      exact ⟨f, hkind, List.suffix_refl _⟩
    · obtain ⟨g, hg, hsuffix⟩ := ih hhandler
      exact ⟨g, hg, hsuffix.trans (List.suffix_cons f fs)⟩

/-- Faults are handled at the middle of an active protected block. -/
theorem handler_bounds {handler : Nat} {outer : List Frame} (h : FramesOrdered body ip frames)
    (hhandler : Machine.handler? frames = some (handler, outer)) :
    ∃ f : Frame, f :: outer <:+ frames ∧ f.start < handler ∧ handler < body.length ∧
      ∃ name, body[handler]? = some (.catchFault name) := by
  obtain ⟨f, hkind, hsuffix⟩ := handler_suffix hhandler
  obtain ⟨span, hpartners, -, hfits⟩ := (h.matched f (hsuffix.subset List.mem_cons_self)).partners
  rw [hkind] at hfits hpartners
  obtain ⟨hlow, hhigh, d, hd, hdivides⟩ := hpartners.divides handler hfits.symm
  refine ⟨f, hsuffix, hlow, Nat.lt_trans hhigh hpartners.stop_lt, ?_⟩
  cases d with
  | catchFault name => exact ⟨name, hd⟩
  | _ => simp [Statement.divides?, FrameKind.block] at hdivides

/-- Positions that go down, each holding a statement of a sort, are no more than the statements of
    that sort before the position they start from. -/
theorem length_le_countP {sort : Statement → Bool} {positions : List Nat} {n : Nat}
    (hdescending : positions.Pairwise (· > ·))
    (hsort : ∀ i ∈ positions, i < n ∧ ∃ s, body[i]? = some s ∧ sort s = true) :
    positions.length ≤ (body.take n).countP sort := by
  induction positions generalizing n with
  | nil => simp
  | cons i rest ih =>
    obtain ⟨hbelow, hrest⟩ := List.pairwise_cons.1 hdescending
    obtain ⟨⟨hi, s, hs, hsorts⟩, hsort⟩ := List.forall_mem_cons.1 hsort
    have hle := ih hrest fun j hj => ⟨hbelow j hj, (hsort j hj).2⟩
    have htake : body.take (i + 1) = body.take i ++ [s] := by
      rw [List.take_add_one, hs]
      rfl
    calc (i :: rest).length ≤ (body.take i).countP sort + 1 := Nat.succ_le_succ hle
      _ = (body.take (i + 1)).countP sort := by simp [htake, hsorts]
      _ ≤ (body.take n).countP sort := (List.take_sublist_take_left hi).countP_le

/-- There are no more active blocks than openers of loops and protected blocks. -/
theorem length_le (h : FramesOrdered body ip frames) :
    frames.length ≤ body.countP Statement.opensFrame := by
  have hcount : (frames.map Frame.start).length
      ≤ (body.take body.length).countP Statement.opensFrame := by
    refine length_le_countP (List.pairwise_map.2 h.descending) fun i hi => ?_
    obtain ⟨f, hf, rfl⟩ := List.mem_map.1 hi
    obtain ⟨s, -, hs, hopens, -⟩ := h.matched f hf
    refine ⟨Nat.lt_of_lt_of_le (h.below f hf) h.ip_le, s, hs, ?_⟩
    unfold Statement.opensFrame
    rw [hopens]
    cases f.kind <;> rfl
  rwa [List.length_map, List.take_length] at hcount

end FramesOrdered

namespace Machine

variable {h : Host σ} {p : Program} {m : Machine σ}

/-- **Every step keeps the active blocks in order.** -/
theorem framesOrdered_step (hm : FramesOrdered p.body m.ip m.frames) :
    FramesOrdered p.body (m.step h p).ip (m.step h p).frames := by
  rcases step_cases h p m with hstep | ⟨s, -, hs, ⟨move, w, hrun, hstep⟩ | ⟨fault, w, -, hstep⟩⟩
  · rw [hstep]
    exact hm
  · have hmoves := hm.moves hs (moves_of_run hrun)
    rw [hstep]
    unfold apply
    split
    · next hflow =>
      rw [hflow] at hmoves
      exact hmoves
    · next hflow =>
      rw [hflow] at hmoves
      exact hmoves
    · next hflow =>
      rw [hflow] at hmoves
      exact hmoves
  · rw [hstep]
    unfold raise
    split
    · next handler outer hhandler =>
      obtain ⟨f, hsuffix, hlow, hhigh, -⟩ := hm.handler_bounds hhandler
      exact hm.exit hsuffix (by show f.start ≤ handler + 1; omega) hhigh
    · exact hm

/-- The active blocks of a running program are in order at all times. -/
theorem Reachable.framesOrdered (hm : Reachable h p m) : FramesOrdered p.body m.ip m.frames := by
  refine hm.invariant (P := fun m => FramesOrdered p.body m.ip m.frames) ?_ ?_
  · intro m hip hframes _
    rw [hip, hframes]
    exact FramesOrdered.nil p.body
  · intro m hm
    exact framesOrdered_step hm

/-- A closer meets no block of another family: the closer of an active block is of its family. -/
theorem execute_ne_otherBlock {s : Statement} {closer : String} {position : Nat}
    (hm : FramesOrdered p.body m.ip m.frames) (hs : p.body[m.ip]? = some s) :
    ((execute h p.body s).run.run m).1 ≠ .error (.structural (.otherBlock closer position)) := by
  intro hfault
  replace hfault := fault_of_execute hfault
  have hrun : (moveOf h p.body m.ip m.frames s).run.run m.world
      = (.error (.structural (.otherBlock closer position)), _) := Prod.ext hfault rfl
  cases blocked_of_run hrun with
  | opener _ hspan => exact Block.spanOf_ne_otherBlock hspan
  | middle _ hstop => exact Block.closerOf_ne_otherBlock hstop
  | other hcloses hframes hstop hblock =>
    rename_i b frame outer
    have hmem : frame ∈ m.frames := hframes ▸ List.mem_cons_self
    obtain ⟨span, hpartners, hend, -⟩ := (hm.matched frame hmem).partners
    obtain ⟨c, hc, hfamily⟩ := hpartners.closes
    rw [← hend, hstop, hs] at hc
    cases hc
    rw [hcloses] at hfamily
    exact hblock (Option.some.inj hfamily).symm

/-- **The active blocks of every program, well nested or not, are in order at all times.** The
    position is in the program. The active blocks, outermost first, were opened one after the
    other before the position; each is of the family of its opener and carries the partners of
    that opener, and a loop over items is at one of them. So there are at most as many as the
    program has openers of loops and protected blocks, no closer meets a block of another family,
    and every fault that is handled is handled by a marker that names a variable. -/
theorem frames_in_order (hm : Reachable h p m) :
    m.ip ≤ p.body.length ∧
      (m.frames.reverse.map Frame.start).Pairwise (· < ·) ∧
      (∀ f ∈ m.frames, f.start < m.ip ∧ f.Matches p.body) ∧
      m.frames.length ≤ p.body.countP Statement.opensFrame ∧
      (∀ s, p.body[m.ip]? = some s → ∀ closer position,
        ((execute h p.body s).run.run m).1
          ≠ .error (.structural (.otherBlock closer position))) ∧
      (∀ handler outer, handler? m.frames = some (handler, outer) →
        ∃ name, p.body[handler]? = some (.catchFault name)) := by
  have hordered := hm.framesOrdered
  refine ⟨hordered.ip_le, ?_, ?_, hordered.length_le, ?_, ?_⟩
  · rw [List.pairwise_map, List.pairwise_reverse]
    exact hordered.descending
  · exact fun f hf => ⟨hordered.below f hf, hordered.matched f hf⟩
  · exact fun s hs closer position => execute_ne_otherBlock hordered hs
  · intro handler outer hhandler
    obtain ⟨f, -, -, -, hname⟩ := hordered.handler_bounds hhandler
    exact hname

/-- A protected block with a closer in it that closes nothing. -/
def strayCloser : Program where
  name := "Stray"
  kind := .algorithm
  body := [.tryBlock, .endFor, .catchFault "e", .endTry]

/-- One step into the program, its protected block is the only active one. -/
theorem frames_in_order_strayCloser :
    ∃ m : Machine (Library.State Unit Unit),
      Reachable (Library.host (Library.standard .plain)) strayCloser m ∧
      m.frames.length = 1 ∧ m.ip ≤ strayCloser.body.length ∧
      m.frames.length ≤ strayCloser.body.countP Statement.opensFrame := by
  have hstart : strayCloser.start [] ({ memory := () } : Library.State Unit Unit)
      = .ok ⟨⟨{ host := { memory := () } }, #[], none⟩, 0, [], .running⟩ := rfl
  have hm := (Reachable.start (h := Library.host (Library.standard .plain)) hstart).step
  obtain ⟨hip, -, -, hlength, -⟩ := frames_in_order hm
  exact ⟨_, hm, rfl, hip, hlength⟩

end Machine

end StepScript
