import StepScript.Host.Demo
import StepScript.Proofs.Execution
import StepScript.Proofs.Resolution

/-!
# Where functions come from

A running program holds functions in its variables and in the items that its loops remember. This
module follows them back: a function that is held after some step was denoted by the tables that the
step evaluated its operands with (`Machine.Grounded.step`), and from then on its name denotes the
same. So a function that a program holds can always be called, and calling it calls what it was when
it came in (`Machine.functions_never_dangle`).

The inputs must hold no functions, and nothing of the host may make any, whatever its functions
remember; results that hand on the functions in their arguments are allowed.
-/

set_option autoImplicit false

namespace StepScript

open Value (CallsOnly Within)
open Library (Loaded State)

variable {σ μ π : Type}

/-! ## Functions in machines -/

/-- The items that a loop goes through, as they were on entry. -/
def Frame.snapshot (f : Frame) : List Value :=
  match f.kind with
  | .forEach _ items _ => items
  | _ => []

namespace Machine

/-- The function occurs in a variable or in the items of a loop, at some depth. -/
def Holds (m : Machine σ) (n : String) : Prop :=
  (∃ x v, m.world.env.get? x = some v ∧ Within (.callable n) v) ∨
    ∃ f ∈ m.frames, ∃ v ∈ f.snapshot, Within (.callable n) v

/-- The environment that the operands of the next statement are evaluated in. -/
def operandEnv (h : Host σ) (p : Program) (m : Machine σ) : Env σ :=
  if m.isRunning then
    match p.body[m.ip]? with
    | none => m.world.env
    | some s => m.world.operandEnv h s
  else m.world.env

end Machine

/-- The functions inside the items of the loops are denoted. -/
def Env.KnowsFrames (tables : Env σ) (frames : List Frame) : Prop :=
  ∀ f ∈ frames, ∀ v ∈ f.snapshot, v.CallsOnly tables.Denotes

section

variable {tables : Env σ} {frames outer : List Frame} {frame : Frame}

theorem Env.KnowsFrames.cons (h : tables.KnowsFrames frames)
    (hframe : ∀ v ∈ frame.snapshot, v.CallsOnly tables.Denotes) :
    tables.KnowsFrames (frame :: frames) :=
  List.forall_mem_cons.2 ⟨hframe, h⟩

theorem Env.KnowsFrames.of_suffix (h : tables.KnowsFrames frames) (hsuffix : outer <:+ frames) :
    tables.KnowsFrames outer :=
  fun f hf => h f (hsuffix.subset hf)

end

/-! ## Steps -/

namespace Move

section

variable {P : σ → Prop} {tables : Env σ} {span : Span} {ip : Nat} {frames : List Frame}
  (htables : MakeNoFunctions P tables.objects tables.modules) (hframes : tables.KnowsFrames frames)

include htables hframes

theorem ensures_enterFor (var start stop : String) :
    Ensures (World.KnownTo P tables) (fun move => tables.KnowsFrames move.frames)
      (enterFor span var start stop ip frames) := by
  refine (Act.ensures_evalText htables start).bind fun v _ => ?_
  refine (Act.ensures_lift (Yields.trivial _)).bind fun first _ => ?_
  refine (Act.ensures_evalText htables stop).bind fun v _ => ?_
  refine (Act.ensures_lift (Yields.trivial _)).bind fun last _ => ?_
  refine (Act.ensures_assign var (by simp)).bind fun _ _ => ensures_pure ?_
  exact hframes.cons (by simp [Frame.snapshot])

/-- The items that a loop remembers are those of a value. -/
theorem ensures_enterForEach (var iterable : String) :
    Ensures (World.KnownTo P tables) (fun move => tables.KnowsFrames move.frames)
      (enterForEach span var iterable ip frames) := by
  refine (Act.ensures_evalText htables iterable).bind fun v hv => ?_
  refine (Act.ensures_lift (Value.yields_items hv)).bind fun items hitems => ?_
  split
  · exact ensures_pure hframes
  · refine (Act.ensures_assign var (hitems _ List.mem_cons_self)).bind fun _ _ => ensures_pure ?_
    exact hframes.cons hitems

theorem ensures_enterWhile (cond : String) :
    Ensures (World.KnownTo P tables) (fun move => tables.KnowsFrames move.frames)
      (enterWhile span cond ip frames) := by
  refine (Act.ensures_evalText htables cond).bind fun v _ => ?_
  split
  · exact ensures_pure (hframes.cons (by simp [Frame.snapshot]))
  · exact ensures_pure hframes

theorem ensures_branch (cond : String) :
    Ensures (World.KnownTo P tables) (fun move => tables.KnowsFrames move.frames)
      (branch span cond frames) := by
  refine (Act.ensures_evalText htables cond).bind fun v _ => ?_
  split <;> exact ensures_pure hframes

end

section

variable {P : σ → Prop} {tables : Env σ} {ip : Nat} {frames : List Frame}
  (hframes : tables.KnowsFrames frames)

include hframes

theorem yields_closing (b : Block) (ip : Nat) :
    Yields (fun r => (∀ v ∈ r.1.snapshot, v.CallsOnly tables.Denotes) ∧ tables.KnowsFrames r.2)
      (closing b ip frames) := by
  rintro ⟨frame, outer⟩ hclosing
  obtain ⟨rfl, -⟩ := closing_eq_ok hclosing
  exact List.forall_mem_cons.1 hframes

theorem yields_innermostLoop (keyword : String) :
    Yields (fun r => tables.KnowsFrames (r.1 :: r.2)) (Course.innermostLoop keyword frames) := by
  rintro ⟨loop, outer⟩ hloop
  refine hframes.of_suffix ?_
  rw [← Course.innermostLoop_eq_ok hloop]
  exact List.dropWhile_suffix _

theorem ensures_endFor :
    Ensures (World.KnownTo P tables) (fun move => tables.KnowsFrames move.frames)
      (endFor ip frames) := by
  refine (Act.ensures_lift (yields_closing hframes _ ip)).bind fun r hr => ?_
  split
  · next frame outer =>
    split
    · refine (Act.ensures_lookup _).bind fun v _ => ?_
      refine (Act.ensures_lift (Yields.trivial _)).bind fun count _ => ?_
      refine (Act.ensures_lift (Yields.trivial _)).bind fun next _ => ?_
      refine (Act.ensures_assign _ (by simp)).bind fun _ _ => ?_
      split
      · exact ensures_pure hframes
      · exact ensures_pure hr.2
    · exact Act.ensures_lift (yields_error _)

/-- The next item is one of those remembered on entry. -/
theorem ensures_endForEach :
    Ensures (World.KnownTo P tables) (fun move => tables.KnowsFrames move.frames)
      (endForEach ip frames) := by
  refine (Act.ensures_lift (yields_closing hframes _ ip)).bind fun r hr => ?_
  split
  · next frame outer =>
    obtain ⟨hitems, houter⟩ := hr
    split
    · next var items cursor hkind =>
      simp only [Frame.snapshot, hkind] at hitems
      split
      · next item hitem =>
        have hknown := hitems item (List.mem_of_getElem? hitem)
        refine (Act.ensures_assign var hknown).bind fun _ _ => ensures_pure ?_
        exact houter.cons hitems
      · exact ensures_pure houter
    · exact Act.ensures_lift (yields_error _)

theorem yields_endWhile (ip : Nat) :
    Yields (fun move => tables.KnowsFrames move.frames) (endWhile ip frames) := by
  refine (yields_closing hframes _ ip).bind fun r hr => ?_
  split
  · split
    · exact yields_pure.2 hr.2
    · exact yields_error _

theorem knowsFrames_endTry (ip : Nat) : tables.KnowsFrames (endTry ip frames) := by
  unfold endTry
  split
  · split
    · exact hframes.of_suffix (List.suffix_cons _ _)
    · exact hframes
  · exact hframes

end

end Move

section

variable {P : μ → Prop} {l : Library μ π} {body : List Statement} {ip : Nat} {frames : List Frame}

/-- A statement that brings nothing in, with the functions and modules there are. -/
theorem ensures_moveOf {tables : Env (State μ π)} (hl : l.MakesNoFunctions P)
    (htables : MakeNoFunctions (State.MakesNoFunctions P) tables.objects tables.modules)
    (hframes : tables.KnowsFrames frames) {s : Statement} (hs : s.bringsIn = false) :
    Ensures (World.KnownTo (State.MakesNoFunctions P) tables)
      (fun move => tables.KnowsFrames move.frames) (moveOf l.host body ip frames s) := by
  cases s with
  | call _ _ _ | create _ _ _ | importModule _ => cases hs
  | ifThen cond =>
    exact (Act.ensures_lift (Yields.trivial _)).bind fun span _ =>
      Move.ensures_branch htables hframes cond
  | orElse | tryBlock | catchFault _ =>
    refine (Act.ensures_lift (Yields.trivial _)).bind fun _ _ => ensures_pure ?_
    first
    | exact hframes
    | exact hframes.cons (by simp [Frame.snapshot])
  | endIf => exact ensures_pure hframes
  | forRange var start stop =>
    exact (Act.ensures_lift (Yields.trivial _)).bind fun span _ =>
      Move.ensures_enterFor htables hframes var start stop
  | endFor => exact Move.ensures_endFor hframes
  | forEach var iterable =>
    exact (Act.ensures_lift (Yields.trivial _)).bind fun span _ =>
      Move.ensures_enterForEach htables hframes var iterable
  | endForEach => exact Move.ensures_endForEach hframes
  | whileLoop cond =>
    exact (Act.ensures_lift (Yields.trivial _)).bind fun span _ =>
      Move.ensures_enterWhile htables hframes cond
  | endWhile => exact Act.ensures_lift (Move.yields_endWhile hframes ip)
  | breakLoop =>
    refine Act.ensures_lift ((Move.yields_innermostLoop hframes _).bind fun r hr => ?_)
    exact yields_pure.2 (hr.of_suffix (List.suffix_cons _ _))
  | continueLoop =>
    refine Act.ensures_lift ((Move.yields_innermostLoop hframes _).bind fun r hr => ?_)
    exact yields_pure.2 hr
  | endTry => exact ensures_pure (Move.knowsFrames_endTry hframes ip)
  | returnValue expr =>
    have hreturned : Ensures (World.KnownTo (State.MakesNoFunctions P) tables) (fun _ => True)
        (Course.returned expr) := by
      unfold Course.returned
      split
      · exact ensures_pure trivial
      · exact (Act.ensures_evalText htables expr).imp fun _ _ => trivial
    exact hreturned.bind fun v _ => ensures_pure hframes
  | _ => exact (Act.ensures_perform htables hl hs).bind fun _ _ => ensures_pure hframes

/-- A statement that brings something in leaves control alone. -/
theorem moveOf_of_bringsIn {h : Host σ} {s : Statement} (hs : s.bringsIn = true) :
    moveOf h body ip frames s = do
      Act.perform h s
      return ⟨.next, frames⟩ := by
  cases s with
  | call _ _ _ | create _ _ _ | importModule _ => rfl
  | _ => cases hs

theorem follows_moveOf (body : List Statement) (ip : Nat) {w : World (State μ π)}
    (hl : l.MakesNoFunctions P) (hnames : l.WellNamed) (hw : w.Grounded P l)
    (hframes : w.env.KnowsFrames frames) (s : Statement) :
    w.env.Grows (w.operandEnv l.host s) ∧
      ((moveOf l.host body ip frames s).run.run w).2.Follows P l (w.operandEnv l.host s) ∧
      Yields (fun move => (w.operandEnv l.host s).KnowsFrames move.frames)
        ((moveOf l.host body ip frames s).run.run w).1 := by
  cases hs : s.bringsIn with
  | false =>
    rw [World.operandEnv_of_bringsIn hs]
    have htables := hw.supplies.makeNoFunctions hl
    obtain ⟨hkept, hgiven⟩ := ensures_moveOf hl htables hframes hs w hw.known
    exact ⟨.refl w.env, World.KnownTo.follows hkept hw.supplies, hgiven⟩
  | true =>
    obtain ⟨hgrows, hfollows⟩ := Act.follows_perform hl hnames hw s
    rw [moveOf_of_bringsIn hs, Act.run_bind]
    rcases hrun : (Act.perform l.host s).run.run w with ⟨r, w'⟩
    rw [hrun] at hfollows
    cases r with
    | error fault => exact ⟨hgrows, hfollows, yields_error fault⟩
    | ok _ =>
      refine ⟨hgrows, hfollows, yields_ok.2 fun f hf v hv => ?_⟩
      exact (hframes f hf v hv).imp fun _ => hgrows.denotes

end

namespace Machine

variable {P : μ → Prop} {l : Library μ π} {p : Program} {tables : Env (State μ π)}
  {m : Machine (State μ π)} {n : String}

/-- Whatever function the machine holds is denoted by what the library has supplied so far. -/
structure Grounded (P : μ → Prop) (l : Library μ π) (m : Machine (State μ π)) : Prop where
  world : m.world.Grounded P l
  frames : m.world.env.KnowsFrames m.frames

/-- A statement whose operands were evaluated with these functions and modules has led to the
    machine. -/
structure Follows (P : μ → Prop) (l : Library μ π) (tables : Env (State μ π))
    (m : Machine (State μ π)) : Prop where
  world : m.world.Follows P l tables
  frames : tables.KnowsFrames m.frames

theorem Follows.grounded (h : m.Follows P l tables) : m.Grounded P l where
  world := h.world.grounded
  frames f hf v hv := (h.frames f hf v hv).imp fun _ => h.world.grows.denotes

theorem Follows.denotes (h : m.Follows P l tables) (hn : m.Holds n) : tables.Denotes n := by
  rcases hn with ⟨x, v, hv, hn⟩ | ⟨f, hf, v, hv, hn⟩
  · exact h.world.vars x v hv n hn
  · exact h.frames f hf v hv n hn

theorem handler?_suffix {frames outer : List Frame} {handler : Nat}
    (h : handler? frames = some (handler, outer)) : outer <:+ frames := by
  induction frames with
  | nil => cases h
  | cons frame frames ih =>
    unfold handler? at h
    split at h
    · cases h
      exact List.suffix_cons _ _
    · exact (ih h).trans (List.suffix_cons _ _)

theorem Follows.apply (h : m.Follows P l tables) {move : Move}
    (hmove : tables.KnowsFrames move.frames) : (m.apply move).Follows P l tables := by
  unfold Machine.apply
  split <;> exact ⟨h.world, hmove⟩

/-- The text of a fault is no function, and the blocks around a handler were there before. -/
theorem Follows.raise (h : m.Follows P l tables) (fault : Fault) :
    (m.raise l.host p fault).Follows P l tables := by
  unfold Machine.raise
  split
  · next handler outer hhandler =>
    refine ⟨⟨⟨h.world.supplies.objects, h.world.supplies.modules⟩, h.world.grows, ?_,
      h.world.host⟩, h.frames.of_suffix (handler?_suffix hhandler)⟩
    intro x v hv
    have hv' : (m.world.env.set (errorVariable p.body handler)
        (.text (fault.message l.host.wording))).get? x = some v := hv
    rw [Env.get?_set] at hv'
    split at hv'
    · cases hv'
      simp
    · exact h.world.vars x v hv'
  · exact ⟨h.world, h.frames⟩

/-- A machine that stays as it is. -/
theorem Grounded.follows (h : m.Grounded P l) : m.Follows P l m.world.env where
  world := World.KnownTo.follows h.world.known h.world.supplies
  frames := h.frames

/-- **Whatever function is held after a step was denoted during the step.** -/
theorem Grounded.step (hl : l.MakesNoFunctions P) (hnames : l.WellNamed) (h : m.Grounded P l) :
    m.world.env.Grows (m.operandEnv l.host p) ∧
      (m.step l.host p).Follows P l (m.operandEnv l.host p) := by
  rw [step_eq, operandEnv]
  by_cases hrunning : m.isRunning = true
  · rw [if_pos hrunning, if_pos hrunning]
    cases hs : p.body[m.ip]? with
    | none => exact ⟨.refl _, h.follows⟩
    | some s =>
      obtain ⟨hgrows, hworld, hmoves⟩ :=
        follows_moveOf p.body m.ip hl hnames h.world h.frames s
      have hframes : (m.world.operandEnv l.host s).KnowsFrames m.frames :=
        fun f hf v hv => (h.frames f hf v hv).imp fun _ => hgrows.denotes
      refine ⟨hgrows, ?_⟩
      dsimp only
      rcases hrun : (moveOf l.host p.body m.ip m.frames s).run.run m.world with ⟨r, w⟩
      rw [hrun] at hworld hmoves
      -- the blocks are still the old ones when the statement has run, and a move or a handler
      -- replaces them
      have hfollows : Follows P l (m.world.operandEnv l.host s) { m with world := w } :=
        ⟨hworld, hframes⟩
      cases r with
      | ok move => exact hfollows.apply (hmoves move rfl)
      | error fault => exact hfollows.raise fault
  · rw [if_neg hrunning, if_neg hrunning]
    exact ⟨.refl _, h.follows⟩

/-! ## Runs -/

/-- At the start there are the inputs, and nothing that the host has handed out. -/
theorem fresh_of_start {inputs : List Value} {s : σ} {m₀ : Machine σ}
    (hstart : p.start inputs s = .ok m₀) :
    m₀.frames = [] ∧ m₀.world.host = s ∧ Env.SameHandouts { host := s } m₀.world.env ∧
      ∀ x v, m₀.world.env.get? x = some v → v ∈ inputs := by
  have hfold (entries : List (String × Value)) (env : Env σ) :
      entries.foldl (fun env e => env.set e.1 e.2) env
        = { env with vars := entries.foldl (fun t e => t.set e.1 e.2) env.vars } := by
    induction entries generalizing env with
    | nil => rfl
    | cons e entries ih => exact ih _
  unfold Program.start at hstart
  split at hstart
  · cases hstart
    have henv := hfold (p.inputs.zip inputs) { host := s }
    refine ⟨rfl, congrArg Env.host henv, henv ▸ ⟨rfl, rfl⟩, fun x v hv => ?_⟩
    have hget : (List.foldl (fun (env : Env σ) e => env.set e.1 e.2) { host := s }
        (p.inputs.zip inputs)).get? x = some v := hv
    rw [henv] at hget
    have hmem : (x, v) ∈ p.inputs.zip inputs :=
      (Table.get?_foldl_set hget).resolve_left (by intro h; cases h)
    exact (List.of_mem_zip hmem).2
  · cases hstart

section

variable {inputs : List Value} {s : State μ π} {m₀ : Machine (State μ π)}

theorem not_holds_of_start (hstart : p.start inputs s = .ok m₀)
    (hinputs : ∀ v ∈ inputs, v.IsFunctionFree) (n : String) : ¬ m₀.Holds n := by
  obtain ⟨hframes, -, -, hvars⟩ := fresh_of_start hstart
  rintro (⟨x, v, hv, hn⟩ | ⟨f, hf, -⟩)
  · exact hinputs v (hvars x v hv) n hn
  · rw [hframes] at hf
    cases hf

theorem grounded_of_start (hstart : p.start inputs s = .ok m₀)
    (hinputs : ∀ v ∈ inputs, v.IsFunctionFree) (hs : s.MakesNoFunctions P) :
    m₀.Grounded P l := by
  obtain ⟨hframes, rfl, hhandouts, hvars⟩ := fresh_of_start hstart
  refine ⟨⟨⟨?_, ?_⟩, ⟨Std.Refl.refl _, hs, fun x v hv n hn => ?_⟩⟩, ?_⟩
  · rw [hhandouts.objects]
    exact nofun
  · rw [hhandouts.modules]
    exact nofun
  · exact absurd hn (hinputs v (hvars x v hv) n)
  · rw [hframes]
    exact fun _ hf => nomatch hf

theorem grounded_iterate (hl : l.MakesNoFunctions P) (hnames : l.WellNamed) (h : m₀.Grounded P l)
    (k : Nat) : ((Machine.step l.host p)^[k] m₀).Grounded P l := by
  induction k with
  | zero => exact h
  | succ k ih =>
    rw [Function.iterate_succ_apply']
    exact (ih.step hl hnames).2.grounded

end

/-- A function that a machine holds after `k` steps came in with one of them, the one after `i`
    steps: it was not held before and is held since. In every statement from that one on its name
    denoted the same, when the operands were evaluated. -/
structure ComesFrom (h : Host σ) (p : Program) (m₀ : Machine σ) (k : Nat) (n : String)
    (d : Callee σ) (i : Nat) : Prop where
  lt : i < k
  not_held : ¬ ((Machine.step h p)^[i] m₀).Holds n
  held : ∀ j, i < j → j ≤ k → ((Machine.step h p)^[j] m₀).Holds n
  denoted : ∀ j, i ≤ j → j < k →
    (((Machine.step h p)^[j] m₀).operandEnv h p).denoted? n = some d

section

variable {h : Host σ} {m₀ : Machine σ} {k i : Nat} {d : Callee σ}

theorem ComesFrom.succ (hcame : ComesFrom h p m₀ k n d i)
    (hheld : ((Machine.step h p)^[k + 1] m₀).Holds n)
    (hdenoted : (((Machine.step h p)^[k] m₀).operandEnv h p).denoted? n = some d) :
    ComesFrom h p m₀ (k + 1) n d i where
  lt := hcame.lt.trans k.lt_succ_self
  not_held := hcame.not_held
  held j hij hjk := by
    rcases Nat.lt_or_eq_of_le hjk with hjk | rfl
    · exact hcame.held j hij (Nat.le_of_lt_succ hjk)
    · exact hheld
  denoted j hij hjk := by
    rcases Nat.lt_or_eq_of_le (Nat.le_of_lt_succ hjk) with hjk | rfl
    · exact hcame.denoted j hij hjk
    · exact hdenoted

theorem comesFrom_last (hnot : ¬ ((Machine.step h p)^[k] m₀).Holds n)
    (hheld : ((Machine.step h p)^[k + 1] m₀).Holds n)
    (hdenoted : (((Machine.step h p)^[k] m₀).operandEnv h p).denoted? n = some d) :
    ComesFrom h p m₀ (k + 1) n d k where
  lt := k.lt_succ_self
  not_held := hnot
  held j hkj hjk := by
    obtain rfl : j = k + 1 := le_antisymm hjk hkj
    exact hheld
  denoted j hkj hjk := by
    obtain rfl : j = k := le_antisymm (Nat.le_of_lt_succ hjk) hkj
    exact hdenoted

end

section

variable {inputs : List Value} {s : State μ π} {m₀ : Machine (State μ π)}
  (hl : l.MakesNoFunctions P) (hnames : l.WellNamed) (hstart : p.start inputs s = .ok m₀)
  (hinputs : ∀ v ∈ inputs, v.IsFunctionFree) (hs : s.MakesNoFunctions P)

include hl hnames hstart hinputs hs

/-- By induction on the steps: what is held was held before the last one, or came in with it. -/
theorem exists_comesFrom (k : Nat) (hn : ((Machine.step l.host p)^[k] m₀).Holds n) :
    ∃ d, ((Machine.step l.host p)^[k] m₀).world.env.denoted? n = some d ∧
      ∃ i, ComesFrom l.host p m₀ k n d i := by
  induction k with
  | zero => exact absurd hn (not_holds_of_start hstart hinputs n)
  | succ k ih =>
    have hground : ((Machine.step l.host p)^[k] m₀).Grounded P l :=
      grounded_iterate hl hnames (grounded_of_start hstart hinputs hs) k
    have hstep : ((Machine.step l.host p)^[k + 1] m₀)
        = ((Machine.step l.host p)^[k] m₀).step l.host p := Function.iterate_succ_apply' ..
    obtain ⟨hgrows, hfollows⟩ : _ ∧
        Follows P l _ (((Machine.step l.host p)^[k] m₀).step l.host p) :=
      hground.step hl hnames
    rw [← hstep] at hfollows
    by_cases hbefore : ((Machine.step l.host p)^[k] m₀).Holds n
    · obtain ⟨d, hd, i, hcame⟩ := ih hbefore
      have hstill := hgrows n d hd
      exact ⟨d, hfollows.world.grows n d hstill, i, hcame.succ hn hstill⟩
    · obtain ⟨d, hd⟩ := hfollows.denotes hn
      exact ⟨d, hfollows.world.grows n d hd, k, comesFrom_last hbefore hn hd⟩

/-- **Functions never dangle.** In a run whose inputs hold no functions, on a library that makes
    none as long as its memory has a property that it keeps and starts with, take a function that is
    held in a variable or in the items of a loop. Its name denotes something, so that calling it is
    never undefined; and it denotes what it denoted when the function came in, and ever since. -/
theorem functions_never_dangle (k : Nat) (hn : ((Machine.step l.host p)^[k] m₀).Holds n) :
    let env := ((Machine.step l.host p)^[k] m₀).world.env
    ∃ d, env.denoted? n = some d ∧
      (∀ args, env.callNamed n args = d.call args env.host ∧
        ∀ name, (env.callNamed n args).1 ≠ .error (.undefined name)) ∧
      ∃ i, ComesFrom l.host p m₀ k n d i := by
  intro env
  obtain ⟨d, hd, hcame⟩ := exists_comesFrom hl hnames hstart hinputs hs k hn
  have hcall (args : List Value) : env.callNamed n args = d.call args env.host := by
    rw [Env.callNamed_eq, hd]
  refine ⟨d, hd, fun args => ⟨hcall args, fun name => ?_⟩, hcame⟩
  rw [hcall]
  exact d.call_ne_undefined args env.host name

end

/-- A program that has three kinds of functions in a list and goes through it. -/
def handing : Program where
  name := "Handing"
  kind := .algorithm
  body := [.importModule "math", .call "echo" ["math.floor", "[len, echo]"] (some "fs"),
    .forEach "f" "fs", .endForEach]

/-- A library with a function that gives its arguments back. -/
def handingLibrary : Library Unit Unit :=
  (Library.standard .plain).withFunction "echo" (.pure Demo.echo)

/-- The start of the program, when no model was loaded. -/
def handingStart : Machine (State Unit Unit) :=
  ⟨⟨{ host := { memory := () } }, #[], none⟩, 0, [], .running⟩

theorem makesNoFunctions_handingLibrary : handingLibrary.MakesNoFunctions fun _ => True := by
  refine (Library.makesNoFunctions_standard _ .plain).withFunction fun args s hs => ⟨hs, ?_⟩
  rintro v ⟨⟩ n hn
  cases hn with
  | child hn ha => exact ⟨_, ha, hn⟩

/-- The call has its own function among its arguments, which is not known before. -/
theorem functions_never_dangle_handing :
    ((Machine.step handingLibrary.host handing)^[1] handingStart).world.env.denoted? "echo" = none ∧
      ((Machine.step handingLibrary.host handing)^[3] handingStart).Holds "echo" ∧
      ∃ d, ((Machine.step handingLibrary.host handing)^[3] handingStart).world.env.denoted? "echo"
          = some d ∧
        ∃ i, ComesFrom handingLibrary.host handing handingStart 3 "echo" d i := by
  have hnames : handingLibrary.WellNamed :=
    (Library.wellNamed_default .plain).withFunction "echo" (.pure Demo.echo)
  have hstart : handing.start [] { memory := () } = .ok handingStart := rfl
  -- the kernel can run the program and look through the items, but not decide `Holds`
  have htest : ∃ f ∈ ((Machine.step handingLibrary.host handing)^[3] handingStart).frames,
      ∃ v ∈ f.snapshot, ¬ v.CallsOnly (· ≠ "echo") := by
    decide +kernel
  have hheld : ((Machine.step handingLibrary.host handing)^[3] handingStart).Holds "echo" := by
    obtain ⟨f, hf, v, hv, hn⟩ := htest
    exact Or.inr ⟨f, hf, v, hv, by simpa [CallsOnly] using hn⟩
  obtain ⟨d, hd, -, hcame⟩ := functions_never_dangle makesNoFunctions_handingLibrary hnames hstart
    (by simp) ⟨trivial, nofun⟩ 3 hheld
  exact ⟨rfl, hheld, d, hd, hcame⟩

end Machine

end StepScript
