import Mathlib.Tactic.IntervalCases
import StepScript.Proofs.Enclosing
import StepScript.Proofs.Integers
import StepScript.Proofs.Termination

/-!
# Passes through loops

What a well-nested program does between two visits of the closer of a loop. As long as the program
stays in the loop, the frame of the loop stays active with all frames below it
(`Reachable.keeps_loop`), whatever blocks are entered and left in between; so the closer finds it on
top (`Reachable.frames_at_closer`), and the passes can be counted by induction on what is left to
count (`counts_to_last`).

The passes of a counting loop are told apart by the entries into its body, which come from its
opener or its closer and lead to the first statement (`entersBody`). `entryValues` lists what a
variable is bound to at each of them.
-/

set_option autoImplicit false

namespace StepScript

variable {σ : Type}

/-! ## What a step does to the active blocks -/

/-- The active blocks after a step at a position: some are left, one is entered, or the innermost
    one, closed there, goes on with another item. -/
inductive FramesStep (ip : Nat) (frames : List Frame) : List Frame → Prop
  | leave {frames' : List Frame} (hsuffix : frames' <:+ frames) : FramesStep ip frames frames'
  | enter (frame : Frame) : FramesStep ip frames (frame :: frames)
  | walk {frame : Frame} {outer : List Frame} (kind : FrameKind) (hframes : frames = frame :: outer)
    (hstop : frame.stop = ip) : FramesStep ip frames ({ frame with kind := kind } :: outer)

namespace FramesStep

variable {body : List Statement} {ip : Nat} {frames frames' base : List Frame} {loop : Frame}

theorem stay : FramesStep ip frames frames :=
  .leave (List.suffix_refl _)

theorem of_endTry : FramesStep ip frames (Move.endTry ip frames) := by
  unfold Move.endTry
  split
  · split
    · exact .leave (List.suffix_cons _ _)
    · exact .stay
  · exact .stay

theorem of_moves {s : Statement} {move : Move} (hmoves : Moves body ip frames s move) :
    FramesStep ip frames move.frames := by
  cases hmoves with
  | enter => exact .enter _
  | walkOn hframes hstop hkind hnext => exact .walk _ hframes hstop
  | countOut hframes hstop hkind | walkOut hframes hstop hkind =>
    exact .leave (hframes ▸ List.suffix_cons _ _)
  | again hframes hstop hkind => exact .leave (hframes ▸ List.suffix_cons _ _)
  | breakLoop hloop =>
    exact .leave ((List.suffix_cons _ _).trans (FramesOrdered.suffix_of_innermost hloop))
  | continueLoop hloop => exact .leave (FramesOrdered.suffix_of_innermost hloop)
  | endTry => exact .of_endTry
  | _ => exact .stay

theorem of_step (h : Host σ) (p : Program) (m : Machine σ) :
    FramesStep m.ip m.frames (m.step h p).frames := by
  rcases Machine.step_cases h p m with
    hstep | ⟨s, -, -, ⟨move, w, hrun, hstep⟩ | ⟨fault, w, -, hstep⟩⟩
  · rw [hstep]
    exact .stay
  · have hframes : (m.step h p).frames = move.frames := by
      rw [hstep]
      unfold Machine.apply
      split <;> rfl
    rw [hframes]
    exact .of_moves (moves_of_run hrun)
  · rw [hstep]
    unfold Machine.raise
    split
    · next hhandler =>
      obtain ⟨frame, -, hsuffix⟩ := FramesOrdered.handler_suffix hhandler
      exact .leave ((List.suffix_cons _ _).trans hsuffix)
    · exact .stay

/-- A block that is still active after a step elsewhere than at its closer stays as it is, with the
    blocks around it. -/
theorem keeps (hstep : FramesStep ip frames frames') (hsuffix : loop :: base <:+ frames)
    (hbelow : ∀ f ∈ base, f.start < loop.start) (hip : ip ≠ loop.stop)
    (hactive : ∃ f ∈ frames', f.start = loop.start) : loop :: base <:+ frames' := by
  cases hstep with
  | enter frame => exact hsuffix.trans (List.suffix_cons _ _)
  | leave hsuffix' =>
    rcases List.suffix_or_suffix_of_suffix hsuffix hsuffix' with hkept | hleft
    · exact hkept
    · rcases List.suffix_cons_iff.1 hleft with rfl | hbase
      · exact List.suffix_refl _
      · obtain ⟨f, hf, hstart⟩ := hactive
        exact absurd hstart (hbelow f (hbase.subset hf)).ne
  | walk kind hframes hstop =>
    subst hframes
    rcases List.suffix_cons_iff.1 hsuffix with heq | houter
    · obtain ⟨rfl, rfl⟩ := List.cons.inj heq
      exact absurd hstop.symm hip
    · exact houter.trans (List.suffix_cons _ _)

end FramesStep

namespace Machine

variable {h : Host σ} {p : Program} {m m' : Machine σ} {rs : List Region}

/-! ## The frame of a loop -/

section

variable {loop : Frame} {base : List Frame}

/-- **In a loop its frame stays active**, with all frames below it. -/
theorem Reachable.keeps_loop (hm : Reachable h p m) (hlaid : Laid p.body rs)
    (hloop : loop.isLoop = true) (hsuffix : loop :: base <:+ m.frames) (hip : m.ip ≠ loop.stop)
    (hlow : loop.start < (m.step h p).ip) (hhigh : (m.step h p).ip ≤ loop.stop) :
    loop :: base <:+ (m.step h p).frames := by
  have hordered := hm.framesOrdered
  have hmem : loop.region ∈ rs :=
    hlaid.region_mem (hordered.matched loop (hsuffix.subset List.mem_cons_self))
  have hcovers : loop.region.covers (m.step h p).ip = true := by
    rw [Region.covers_iff, Enclosed.last_of_isLoop hlaid hmem hloop]
    exact ⟨hlow, hhigh⟩
  have hactive := (hm.step.enclosed hlaid).complete _ hmem loop.kind.block_ne_ifThen hcovers
  obtain ⟨f, hf, hregion⟩ := List.mem_map.1 hactive
  exact (FramesStep.of_step h p m).keeps hsuffix (hordered.outer_below hsuffix) hip
    ⟨f, hf, congrArg Region.start hregion⟩

/-- The closer of a loop finds the frame of the loop on top. -/
theorem Reachable.frames_at_closer (hm : Reachable h p m) (hlaid : Laid p.body rs)
    (hsuffix : loop :: base <:+ m.frames) (hip : m.ip = loop.stop) : m.frames = loop :: base := by
  have hdescending := Enclosed.descending_regions hm.framesOrdered
  have hmem : loop.region ∈ m.frames.map Frame.region :=
    List.mem_map_of_mem (hsuffix.subset List.mem_cons_self)
  obtain ⟨_, houter⟩ :=
    (hm.enclosed hlaid).exists_outer_of_stop hlaid hdescending hmem hip.symm
  obtain ⟨frame, outer, hframes, hregion, -⟩ := List.map_eq_cons_iff.1 houter
  rw [hframes] at hsuffix ⊢
  rcases List.suffix_cons_iff.1 hsuffix with heq | hinner
  · exact heq.symm
  · have hordered := hm.framesOrdered.descending
    rw [hframes] at hordered
    have hlt := (List.pairwise_cons.1 hordered).1 loop (hinner.subset List.mem_cons_self)
    have hstart : frame.start = loop.start := congrArg Region.start hregion
    omega

end

/-! ## Runs -/

theorem run_succ (h : Host σ) (p : Program) (m : Machine σ) (n : Nat) :
    m.run h p (n + 1) = (m.step h p).run h p n := by
  simp only [run_eq_iterate, Function.iterate_succ_apply]

theorem run_succ' (h : Host σ) (p : Program) (m : Machine σ) (n : Nat) :
    m.run h p (n + 1) = (m.run h p n).step h p := by
  simp only [run_eq_iterate, Function.iterate_succ_apply']

theorem run_add (h : Host σ) (p : Program) (m : Machine σ) (n k : Nat) :
    m.run h p (n + k) = (m.run h p n).run h p k := by
  simp only [run_eq_iterate, Nat.add_comm n k, Function.iterate_add_apply]

theorem Reachable.run (hm : Reachable h p m) (n : Nat) : Reachable h p (m.run h p n) := by
  induction n with
  | zero => exact hm
  | succ n ih =>
    rw [run_succ']
    exact ih.step

/-- A machine that a step has moved still runs. -/
theorem isRunning_step (hip : (m.step h p).ip ≠ m.ip) : (m.step h p).isRunning = true := by
  rcases step_cases h p m with hstep | ⟨s, hrunning, -, ⟨move, w, -, hstep⟩ | ⟨fault, w, -, hstep⟩⟩
  · exact absurd (congrArg Machine.ip hstep) hip
  · rw [hstep] at hip ⊢
    unfold apply at hip ⊢
    split at hip
    · exact hrunning
    · exact hrunning
    · exact absurd rfl hip
  · rw [hstep] at hip ⊢
    unfold raise at hip ⊢
    split at hip
    · exact hrunning
    · exact absurd rfl hip

theorem eq_running (hm : m.isRunning = true) : m = running m.world m.ip m.frames := by
  obtain ⟨w, ip, frames, control⟩ := m
  cases control with
  | running => rfl
  | _ => cases hm

/-! ## Entries and passes -/

/-- A step enters the body of a loop: it comes from the opener or the closer, and leads to the first
    statement. -/
def entersBody (start stop : Nat) (m m' : Machine σ) : Bool :=
  (m.ip == start || m.ip == stop) && m'.ip == start + 1

/-- What a variable is bound to whenever the body of a loop is entered in the next `n` steps. -/
def entryValues (h : Host σ) (p : Program) (start stop : Nat) (var : String) :
    (n : Nat) → Machine σ → List (Option Value)
  | 0, _ => []
  | n + 1, m =>
    let m' := m.step h p
    let later := entryValues h p start stop var n m'
    if entersBody start stop m m' then m'.world.env.get? var :: later else later

/-- In the next `n` steps the program does not leave a loop, neither forwards nor backwards. -/
def StaysIn (h : Host σ) (p : Program) (start stop n : Nat) (m : Machine σ) : Prop :=
  ∀ i, 0 < i → i ≤ n → start < (m.run h p i).ip ∧ (m.run h p i).ip ≤ stop

/-- After `n` steps between the opener and the closer of a loop, the program comes to the closer:
    a pass ends, at the end of the body or before it. -/
structure PassEnds (h : Host σ) (p : Program) (start stop n : Nat) (m : Machine σ) : Prop where
  inside : ∀ i < n, start < (m.run h p i).ip ∧ (m.run h p i).ip < stop
  closer : (m.run h p n).ip = stop

/-- Every pass that is begun before the program leaves a loop comes to its end, and the variable has
    the value then that it had at the beginning. -/
def PassesEnd (h : Host σ) (p : Program) (start stop : Nat) (var : String) (m : Machine σ) : Prop :=
  ∀ n, StaysIn h p start stop n m →
    entersBody start stop (m.run h p n) (m.run h p (n + 1)) = true →
    ∃ k, PassEnds h p start stop k (m.run h p (n + 1)) ∧
      ((m.run h p (n + 1)).run h p k).world.env.get? var
        = (m.run h p (n + 1)).world.env.get? var

section

variable {start stop n k : Nat} {var : String}

theorem entersBody_iff :
    entersBody start stop m m' = true ↔ (m.ip = start ∨ m.ip = stop) ∧ m'.ip = start + 1 := by
  simp [entersBody]

theorem entryValues_add (h : Host σ) (p : Program) (start stop : Nat) (var : String) (n k : Nat)
    (m : Machine σ) :
    entryValues h p start stop var (n + k) m
      = entryValues h p start stop var n m ++ entryValues h p start stop var k (m.run h p n) := by
  induction n generalizing m with
  | zero =>
    rw [Nat.zero_add]
    rfl
  | succ n ih =>
    rw [Nat.succ_add, run_succ]
    simp only [entryValues, ih]
    split <;> rfl

/-- The step that enters the body is an entry. -/
theorem entryValues_one (henters : entersBody start stop m (m.step h p) = true) :
    entryValues h p start stop var 1 m = [(m.step h p).world.env.get? var] := by
  simp only [entryValues, henters, if_true]

/-- A step that is no entry into the body lists nothing. -/
theorem entryValues_none
    (hnone : ¬((m.ip = start ∨ m.ip = stop) ∧ (m.step h p).ip = start + 1)) :
    entryValues h p start stop var 1 m = [] := by
  rw [← entersBody_iff] at hnone
  simp only [entryValues, hnone]
  rfl

/-- A pass does not enter the body again. -/
theorem PassEnds.entryValues_eq (hpass : PassEnds h p start stop n m) :
    entryValues h p start stop var n m = [] := by
  obtain ⟨hinside, -⟩ := hpass
  induction n generalizing m with
  | zero => rfl
  | succ n ih =>
    obtain ⟨hlow, hhigh⟩ : start < m.ip ∧ m.ip < stop := hinside 0 (Nat.succ_pos n)
    have hlater := ih (m := m.step h p) fun i hi => by
      rw [← run_succ]
      exact hinside (i + 1) (Nat.succ_lt_succ hi)
    rw [Nat.add_comm, entryValues_add, entryValues_none (by omega), run_succ]
    exact hlater

theorem StaysIn.add (hn : StaysIn h p start stop n m)
    (hk : StaysIn h p start stop k (m.run h p n)) : StaysIn h p start stop (n + k) m := by
  intro i hpos hi
  rcases Nat.le_total i n with hle | hle
  · exact hn i hpos hle
  · obtain ⟨j, rfl⟩ := Nat.exists_eq_add_of_le hle
    cases j with
    | zero => exact hn n hpos (Nat.le_refl n)
    | succ j =>
      rw [run_add]
      exact hk (j + 1) (Nat.succ_pos j) (Nat.le_of_add_le_add_left hi)

theorem StaysIn.mono (hn : StaysIn h p start stop n m) (hk : k ≤ n) :
    StaysIn h p start stop k m :=
  fun i hpos hi => hn i hpos (hi.trans hk)

theorem StaysIn.later (hn : StaysIn h p start stop (k + n) m) :
    StaysIn h p start stop n (m.run h p k) := by
  intro i hpos hi
  rw [← run_add]
  exact hn (k + i) (by omega) (by omega)

theorem staysIn_zero : StaysIn h p start stop 0 m :=
  fun _ hpos hi => absurd hpos (Nat.not_lt.2 hi)

theorem staysIn_one (hlow : start < (m.step h p).ip) (hhigh : (m.step h p).ip ≤ stop) :
    StaysIn h p start stop 1 m := by
  intro i hpos hi
  obtain rfl : i = 1 := by omega
  rw [run_succ]
  exact ⟨hlow, hhigh⟩

theorem PassEnds.staysIn (hpass : PassEnds h p start stop n m) (hlt : start < stop) :
    StaysIn h p start stop n m := by
  intro i hpos hi
  rcases Nat.lt_or_eq_of_le hi with hlt' | rfl
  · obtain ⟨hlow, hhigh⟩ := hpass.inside i hlt'
    exact ⟨hlow, hhigh.le⟩
  · rw [hpass.closer]
    exact ⟨hlt, Nat.le_refl _⟩

/-- What ends in time from the opener on does so from every later moment in the loop on. -/
theorem PassesEnd.after (hm : PassesEnd h p start stop var m) (hn : StaysIn h p start stop n m) :
    PassesEnd h p start stop var (m.run h p n) := by
  intro k hk henters
  rw [← run_add, ← run_add] at henters
  have hpass := hm (n + k) (hn.add hk) henters
  rwa [← run_add]

/-- A pass through a loop gives its frame back to the closer. -/
theorem PassEnds.frames_eq {loop : Frame} {base : List Frame}
    (hpass : PassEnds h p loop.start loop.stop n m) (hm : Reachable h p m)
    (hlaid : Laid p.body rs) (hloop : loop.isLoop = true) (hframes : m.frames = loop :: base) :
    (m.run h p n).frames = loop :: base := by
  have hmem : loop ∈ m.frames := hframes ▸ List.mem_cons_self
  have hstays := hpass.staysIn (hm.framesOrdered.matched loop hmem).stop_bounds.1
  have hsuffix : ∀ i ≤ n, loop :: base <:+ (m.run h p i).frames := by
    intro i hi
    induction i with
    | zero => exact hframes ▸ List.suffix_refl _
    | succ i ih =>
      obtain ⟨hlow, hhigh⟩ := hstays (i + 1) (Nat.succ_pos i) hi
      rw [run_succ'] at hlow hhigh ⊢
      exact (hm.run i).keeps_loop hlaid hloop (ih (Nat.le_of_succ_le hi)) (hpass.inside i hi).2.ne
        hlow hhigh
  exact (hm.run n).frames_at_closer hlaid (hsuffix n (Nat.le_refl n)) hpass.closer

/-- A pass whose closer binds the variable and goes back to the first statement is followed by an
    entry with that value. -/
theorem PassEnds.enter_again {w : World σ} {v : Value} {frames : List Frame}
    (hends : PassEnds h p start stop n m) (horder : start < stop)
    (hstep : (m.run h p n).step h p = running (w.bind var v) (start + 1) frames) :
    m.run h p (n + 1) = running (w.bind var v) (start + 1) frames ∧
      StaysIn h p start stop (n + 1) m ∧
      entersBody start stop (m.run h p n) (m.run h p (n + 1)) = true ∧
      entryValues h p start stop var (n + 1) m = [some v] := by
  have henters : entersBody start stop (m.run h p n) ((m.run h p n).step h p) = true := by
    rw [hstep]
    exact entersBody_iff.2 ⟨Or.inr hends.closer, rfl⟩
  refine ⟨(run_succ' ..).trans hstep, (hends.staysIn horder).add (staysIn_one ?_ ?_), ?_, ?_⟩
  · rw [hstep]
    exact Nat.lt_succ_self _
  · rw [hstep]
    exact horder
  · rw [run_succ']
    exact henters
  · rw [entryValues_add, hends.entryValues_eq, entryValues_one henters, hstep]
    exact congrArg (fun v => [v]) (Env.get?_set_self _ _ _)

/-- A program that comes to the end of a pass still runs. -/
theorem PassEnds.isRunning (hpass : PassEnds h p start stop n m) (hm : m.isRunning = true) :
    (m.run h p n).isRunning = true := by
  cases n with
  | zero => exact hm
  | succ n =>
    have hbefore := (hpass.inside n (Nat.lt_succ_self n)).2
    rw [run_succ']
    refine isRunning_step ?_
    rw [← run_succ', hpass.closer]
    exact hbefore.ne'

end

/-! ## Counting loops -/

/-- The integers from the first one on. -/
def countFrom (first : Int) (n : Nat) : List (Option Value) :=
  (List.range n).map fun i : Nat => some (.int (Int64.ofInt (first + i)))

theorem countFrom_succ (first : Int) (n : Nat) :
    countFrom first (n + 1) = some (.int (Int64.ofInt first)) :: countFrom (first + 1) n := by
  have hshift : ∀ i : Nat, first + ((i + 1 : Nat) : Int) = first + 1 + i := by
    intro i
    omega
  simp only [countFrom, List.range_succ_eq_map, List.map_cons, List.map_map, Function.comp_def,
    Nat.succ_eq_add_one, hshift]
  simp

/-- The bounds of a counting loop, evaluated one after the other, are integers. -/
def BoundsAre (start stop : String) (w : World σ) (first last : Int64) (w' : World σ) : Prop :=
  ∃ v w₁ v', (Act.evalText start).run.run w = (.ok v, w₁) ∧ v.int? = some first ∧
    (Act.evalText stop).run.run w₁ = (.ok v', w') ∧ v'.int? = some last

/-- Bounds that are integers are those that the loop starts with. -/
theorem boundsOf_eq {var start stop : String} {w w' : World σ} {first last : Int64}
    (hbounds : BoundsAre start stop w first last w') :
    (Loop.boundsOf var start stop).run.run w = (.ok last, w'.bind var (.int first)) := by
  obtain ⟨v, w₁, v', hv, hfirst, hv', hlast⟩ := hbounds
  simp only [Loop.boundsOf, Act.run_bind, hv, hv', Act.run_lift, Loop.integerOf_of_int? hfirst,
    Loop.integerOf_of_int? hlast, Act.run_assign]
  rfl

section

variable {var : String} {last c : Int64} {loop : Frame} {base : List Frame} {w : World σ}

/-- The closer of a counting loop as long as there is a next number. -/
theorem step_endFor (base : List Frame) (hs : p.body[loop.stop]? = some .endFor)
    (hkind : loop.kind = .forRange var last) (hc : w.env.get? var = some (.int c))
    (hmax : c ≠ Int64.maxValue) :
    (running w loop.stop (loop :: base)).step h p
      = if c + 1 ≤ last then running (w.bind var (.int (c + 1))) (loop.start + 1) (loop :: base)
        else running (w.bind var (.int (c + 1))) (loop.stop + 1) base := by
  obtain ⟨kind, start, stop⟩ := loop
  obtain rfl : kind = .forRange var last := hkind
  have hcount := Loop.run_countUp hc
  rw [if_neg hmax] at hcount
  rw [(acts_countUp hs).step_ok hcount]
  split <;> rfl

/-- The closer of a counting loop at the last number of 64 bits. -/
theorem step_endFor_overflow (base : List Frame) (hs : p.body[loop.stop]? = some .endFor)
    (hkind : loop.kind = .forRange var last) (hc : w.env.get? var = some (.int c))
    (hmax : c = Int64.maxValue) :
    (running w loop.stop (loop :: base)).step h p
      = (running w loop.stop (loop :: base)).raise h p (.value .overflow) := by
  obtain ⟨kind, start, stop⟩ := loop
  obtain rfl : kind = .forRange var last := hkind
  have hcount := Loop.run_countUp hc
  rw [if_pos hmax] at hcount
  exact (acts_countUp hs).step_error hcount

/-- The closer of a counting loop leaves it when the last number is reached. -/
theorem step_endFor_leaves (base : List Frame) (hs : p.body[loop.stop]? = some .endFor)
    (hkind : loop.kind = .forRange var last) (hc : w.env.get? var = some (.int c))
    (hlast : last.toInt ≤ c.toInt) (hlt : c.toInt < Int64.maxValue.toInt) :
    ∃ w' next, (running w loop.stop (loop :: base)).step h p = running w' (loop.stop + 1) base ∧
      w'.env.get? var = some (.int next) ∧ next.toInt = c.toInt + 1 := by
  have hmax : c ≠ Int64.maxValue := by
    rintro rfl
    exact absurd hlt (Int.lt_irrefl _)
  have hnext := toInt_succ hmax
  have hleave := step_endFor (h := h) base hs hkind hc hmax
  rw [if_neg (mt Int64.le_iff_toInt_le.1 (by omega))] at hleave
  exact ⟨_, c + 1, hleave, Env.get?_set_self _ _ _, hnext⟩

/-- A pass ends at the closer, with the frame of the loop on top. -/
theorem PassEnds.run_eq {n : Nat}
    (hends : PassEnds h p loop.start loop.stop n (running w (loop.start + 1) (loop :: base)))
    (hm : Reachable h p (running w (loop.start + 1) (loop :: base))) (hlaid : Laid p.body rs)
    (hloop : loop.isLoop = true) :
    ∃ w', (running w (loop.start + 1) (loop :: base)).run h p n
      = running w' loop.stop (loop :: base) := by
  have hrun := eq_running (hends.isRunning rfl)
  rw [hends.frames_eq hm hlaid hloop rfl, hends.closer] at hrun
  exact ⟨_, hrun⟩

/-- After a pass below the last number, the next one is begun. -/
theorem PassEnds.count_on {n : Nat} {w' : World σ} (hends : PassEnds h p loop.start loop.stop n m)
    (hrun : m.run h p n = running w' loop.stop (loop :: base))
    (hs : p.body[loop.stop]? = some .endFor) (hkind : loop.kind = .forRange var last)
    (horder : loop.start < loop.stop) (hc : w'.env.get? var = some (.int c))
    (hlt : c.toInt < last.toInt) :
    ∃ next, next.toInt = c.toInt + 1 ∧
      m.run h p (n + 1) = running (w'.bind var (.int next)) (loop.start + 1) (loop :: base) ∧
      StaysIn h p loop.start loop.stop (n + 1) m ∧
      entersBody loop.start loop.stop (m.run h p n) (m.run h p (n + 1)) = true ∧
      entryValues h p loop.start loop.stop var (n + 1) m = [some (.int next)] := by
  have hmax : c ≠ Int64.maxValue := by
    rintro rfl
    exact absurd (Int64.toInt_le last) (by simpa using hlt)
  have hnext := toInt_succ hmax
  have hstep := step_endFor (h := h) base hs hkind hc hmax
  rw [if_pos (Int64.le_iff_toInt_le.2 (by omega)), ← hrun] at hstep
  exact ⟨c + 1, hnext, hends.enter_again horder hstep⟩

/-- **The passes of a counting loop.** From the beginning of a pass on, the variable counts to the
    last value, if it has not passed it already, with one entry into the body for each number. -/
theorem counts_to_last (hlaid : Laid p.body rs) (hs : p.body[loop.stop]? = some .endFor)
    (hkind : loop.kind = .forRange var last) (hm : Reachable h p m)
    (hstart : m = running w (loop.start + 1) (loop :: base))
    (hc : w.env.get? var = some (.int c))
    (hpass : ∃ k, PassEnds h p loop.start loop.stop k m ∧
      (m.run h p k).world.env.get? var = m.world.env.get? var)
    (hlater : PassesEnd h p loop.start loop.stop var m) :
    ∃ n w' d, m.run h p n = running w' loop.stop (loop :: base) ∧
      StaysIn h p loop.start loop.stop n m ∧
      w'.env.get? var = some (.int d) ∧ d.toInt = max c.toInt last.toInt ∧
      entryValues h p loop.start loop.stop var n m
        = countFrom (c.toInt + 1) (last.toInt - c.toInt).toNat := by
  have hloop : loop.isLoop = true := by
    rw [Frame.isLoop, hkind]
    rfl
  -- induction on how far the variable is from the last value
  induction hleft : (last.toInt - c.toInt).toNat generalizing c w m with
  | zero =>
    subst hstart
    obtain ⟨k, hends, hkept⟩ := hpass
    obtain ⟨w', hrun⟩ := hends.run_eq hm hlaid hloop
    rw [hrun] at hkept
    have horder := (hm.framesOrdered.matched loop List.mem_cons_self).stop_bounds.1
    exact ⟨k, w', c, hrun, hends.staysIn horder, hkept.trans hc, by omega, hends.entryValues_eq⟩
  | succ left ih =>
    subst hstart
    obtain ⟨k, hends, hkept⟩ := hpass
    obtain ⟨w', hrun⟩ := hends.run_eq hm hlaid hloop
    rw [hrun] at hkept
    have horder := (hm.framesOrdered.matched loop List.mem_cons_self).stop_bounds.1
    obtain ⟨next, hnext, hrun', hstays, henters, hvalue⟩ :=
      hends.count_on hrun hs hkind horder (hkept.trans hc) (by omega)
    have hpass' := hlater k (hends.staysIn horder) henters
    obtain ⟨n, w₂, d, hrun₂, hstays₂, hd, hmax, hvalues⟩ := ih (hm.run (k + 1)) hrun'
      (Env.get?_set_self _ _ _) hpass' (hlater.after hstays) (by omega)
    refine ⟨k + 1 + n, w₂, d, ?_, hstays.add hstays₂, hd, by omega, ?_⟩
    · rw [run_add, hrun₂]
    · rw [entryValues_add, hvalue, hvalues, countFrom_succ, ← hnext, Int64.ofInt_toInt]
      rfl

end

theorem eq_endFor {s : Statement} (hcloses : s.closes? = some .forRange) : s = .endFor := by
  cases s with
  | endFor => rfl
  | _ => cases hcloses

/-- How a counting loop goes that is entered with two bounds: in the first `n` steps it makes its
    passes, and then its closer ends it. -/
structure CountsThrough (h : Host σ) (p : Program) (stop : Nat) (var : String)
    (first last : Int64) (n : Nat) (m : Machine σ) : Prop where
  closer : (m.run h p n).ip = stop
  staysIn : StaysIn h p m.ip stop n m
  /-- The first pass is made whatever the bounds are. -/
  entries : entryValues h p m.ip stop var n m
    = countFrom first.toInt (max 1 (last.toInt - first.toInt + 1)).toNat
  /-- The loop is left with the number after the last one, -/
  leaves : max first.toInt last.toInt < Int64.maxValue.toInt →
    ∃ w next, m.run h p (n + 1) = running w (stop + 1) m.frames ∧
      w.env.get? var = some (.int next) ∧ next.toInt = max first.toInt last.toInt + 1
  /-- or in a fault where there is none. -/
  overflows : max first.toInt last.toInt = Int64.maxValue.toInt →
    (m.run h p n).world.env.get? var = some (.int Int64.maxValue) ∧
      m.run h p (n + 1) = (m.run h p n).raise h p (.value .overflow)

section

variable {var start stop : String} {span : Span} {first last : Int64} {w : World σ}

/-- A counting loop is entered with its first bound in the variable. -/
theorem step_forRange (hrunning : m.isRunning = true)
    (hs : p.body[m.ip]? = some (.forRange var start stop))
    (hspan : Block.spanOf p.body m.ip = .ok span)
    (hbounds : BoundsAre start stop m.world first last w) :
    m.step h p = running (w.bind var (.int first)) (m.ip + 1)
      (⟨.forRange var last, m.ip, span.stop⟩ :: m.frames) :=
  (congrArg (step h p) (eq_running hrunning)).trans
    ((acts_counting hs hspan).step_ok (boundsOf_eq hbounds))

/-- **A counting loop makes one pass for each number from the first bound to the last**, and one if
    there is none, as long as its passes come to their end and leave the variable alone. Then the
    loop is left with the variable one further, or ends in a fault at the last number of 64 bits. -/
theorem forRange_countsThrough (hp : p.structureIssues = []) (hm : Reachable h p m)
    (hrunning : m.isRunning = true) (hs : p.body[m.ip]? = some (.forRange var start stop))
    (hspan : Block.spanOf p.body m.ip = .ok span)
    (hbounds : BoundsAre start stop m.world first last w)
    (hpasses : PassesEnd h p m.ip span.stop var m) :
    ∃ n, CountsThrough h p span.stop var first last n m := by
  obtain ⟨rs, hlaid⟩ := Program.exists_laid hp
  have hpartners := Block.partners_of_opener hs rfl hspan
  obtain ⟨s, hcloser, hcloses⟩ := hpartners.closes
  obtain rfl := eq_endFor hcloses
  have horder := hpartners.lt_stop
  have hstep := step_forRange (h := h) hrunning hs hspan hbounds
  have hstays : StaysIn h p m.ip span.stop 1 m := staysIn_one
    (by rw [hstep]; exact Nat.lt_succ_self _) (by rw [hstep]; exact horder)
  have henters : entersBody m.ip span.stop m (m.step h p) = true := by
    rw [hstep]
    exact entersBody_iff.2 ⟨Or.inl rfl, rfl⟩
  have hone : m.run h p 1 = m.step h p := run_succ h p m 0
  have hpass := hpasses 0 (fun i hpos hi => absurd hpos (Nat.not_lt.2 hi))
    (by rw [Nat.zero_add, hone]; exact henters)
  have hkind : Frame.kind ⟨.forRange var last, m.ip, span.stop⟩ = .forRange var last := rfl
  obtain ⟨n, w', d, hrun, hstays', hd, hmax, hvalues⟩ := counts_to_last hlaid hcloser hkind
    (hm.run 1) (hone.trans hstep) (Env.get?_set_self _ _ _) hpass (hpasses.after hstays)
  have hend : m.run h p (1 + n) = _ := (run_add h p m 1 n).trans hrun
  refine ⟨1 + n, ?_, hstays.add hstays', ?_, ?_, ?_⟩
  · rw [hend]
    rfl
  · have hcount : (max 1 (last.toInt - first.toInt + 1)).toNat
        = (last.toInt - first.toInt).toNat + 1 := by
      omega
    rw [entryValues_add, entryValues_one henters, hcount, countFrom_succ, Int64.ofInt_toInt,
      hstep]
    exact congrArg₂ List.cons (Env.get?_set_self _ _ _) hvalues
  · intro hlt
    obtain ⟨w₂, next, hleave, hget, hnext⟩ :=
      step_endFor_leaves (h := h) m.frames hcloser hkind hd (by omega) (by omega)
    exact ⟨w₂, next, (run_succ' ..).trans ((congrArg _ hend).trans hleave), hget, by omega⟩
  · intro heq
    obtain rfl : d = Int64.maxValue := Int64.toInt_inj.1 (hmax.trans heq)
    have hfault := step_endFor_overflow (h := h) m.frames hcloser hkind hd rfl
    rw [run_succ', hend]
    exact ⟨hd, hfault⟩

end

/-- A counting loop with a pass that is cut short. -/
def shortPass : Program where
  name := "Short"
  kind := .algorithm
  body := [.forRange "i" "1" "2", .ifThen "i - 1", .continueLoop, .endIf, .print "i", .endFor]

/-- Its machine at the opener of the loop. -/
def shortPassStart : Machine (Library.State Unit Unit) :=
  ⟨⟨{ host := { memory := () } }, #[], none⟩, 0, [], .running⟩

/-- The two passes of the loop come to their end. -/
theorem passesEnd_shortPass :
    PassesEnd (Library.host (Library.standard .plain)) shortPass 0 5 "i" shortPassStart := by
  intro n hstays henters
  have hleft : (shortPassStart.run (Library.standard .plain).host shortPass 7).ip = 6 := by
    decide +kernel
  have hn : n < 7 := by
    by_contra hle
    have hstop := (hstays 7 (by omega) (by omega)).2
    omega
  interval_cases n
  · exact ⟨2, ⟨by decide +kernel, by decide +kernel⟩, rfl⟩
  · exact absurd henters (by decide +kernel)
  · exact absurd henters (by decide +kernel)
  · exact ⟨2, ⟨by decide +kernel, by decide +kernel⟩, rfl⟩
  · exact absurd henters (by decide +kernel)
  · exact absurd henters (by decide +kernel)
  · exact absurd henters (by decide +kernel)

/-- The body is entered with 1 and with 2. -/
theorem forRange_countsThrough_shortPass :
    shortPass.structureIssues = [] ∧
      Reachable (Library.host (Library.standard .plain)) shortPass shortPassStart ∧
      PassesEnd (Library.host (Library.standard .plain)) shortPass 0 5 "i" shortPassStart ∧
      ∃ n, CountsThrough (Library.host (Library.standard .plain)) shortPass 5 "i" 1 2 n
        shortPassStart := by
  have hp : shortPass.structureIssues = [] := rfl
  have hstart : shortPass.start [] { memory := () } = .ok shortPassStart := rfl
  have hm : Reachable (Library.host (Library.standard .plain)) shortPass shortPassStart :=
    .start hstart
  have hbounds : BoundsAre "1" "2" shortPassStart.world 1 2 shortPassStart.world :=
    ⟨_, _, _, rfl, rfl, rfl, rfl⟩
  exact ⟨hp, hm, passesEnd_shortPass,
    forRange_countsThrough hp hm rfl rfl rfl hbounds passesEnd_shortPass⟩

end Machine

end StepScript
