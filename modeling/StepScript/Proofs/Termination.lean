import StepScript.Proofs.Bindings
import StepScript.Proofs.Refinement

/-!
# Programs that come to an end

A program without guarded loops comes to an end when the statements in its counting loops leave
the variables of the loops alone.

The argument is about trees. A tree that does not bind a variable leaves a value without parts in
it (`Evaluates.scalarKept`, by induction on the evaluation), so a counting loop finds its count as
it was at the start of the pass and comes closer to its last value. A loop over items has its items
from the start, whatever its body does to them. So every tree of bounded loops has an evaluation
(`Tree.IsBounded.ends`, by induction on the tree), and the machine follows it.
-/

set_option autoImplicit false

namespace StepScript

variable {σ : Type}

/-! ## Trees that leave a variable alone -/

/-- No statement of the tree binds the variable. -/
def Tree.Avoids (x : String) : Tree → Prop
  | .skip => True
  | .plain s _ => x ∉ s.binds
  | .seq first second => first.Avoids x ∧ second.Avoids x
  | .ifThen _ yes => yes.Avoids x
  | .ifElse _ yes no => yes.Avoids x ∧ no.Avoids x
  | .loop l body => x ∉ l.opener.binds ∧ body.Avoids x
  | .tryOnly body => body.Avoids x
  | .tryCatch body var handler => body.Avoids x ∧ var ≠ x ∧ handler.Avoids x

/-- No statement of the task binds the variable, and neither does the task between its passes. -/
def Task.Avoids (x : String) : Task → Prop
  | .code t => t.Avoids x
  | .counting var _ body | .walking var _ body => var ≠ x ∧ body.Avoids x

theorem Tree.avoids_of_statements {x : String} {t : Tree} (h : ∀ s ∈ t.statements, x ∉ s.binds) :
    t.Avoids x := by
  induction t with
  | skip => trivial
  | plain s hplain => exact h s (List.mem_singleton_self s)
  | seq first second ihfirst ihsecond =>
    obtain ⟨hfirst, hsecond⟩ := List.forall_mem_append.1 h
    exact ⟨ihfirst hfirst, ihsecond hsecond⟩
  | ifThen cond yes ih | tryOnly yes ih =>
    exact ih (List.forall_mem_append.1 (List.forall_mem_cons.1 h).2).1
  | ifElse cond yes no ihyes ihno =>
    obtain ⟨hyes, hrest⟩ := List.forall_mem_append.1 (List.forall_mem_cons.1 h).2
    exact ⟨ihyes hyes, ihno (List.forall_mem_append.1 (List.forall_mem_cons.1 hrest).2).1⟩
  | loop l body ih =>
    obtain ⟨hopener, hrest⟩ := List.forall_mem_cons.1 h
    exact ⟨hopener, ih (List.forall_mem_append.1 hrest).1⟩
  | tryCatch body var handler ihbody ihhandler =>
    obtain ⟨hbody, hrest⟩ := List.forall_mem_append.1 (List.forall_mem_cons.1 h).2
    obtain ⟨hvar, hrest⟩ := List.forall_mem_cons.1 hrest
    refine ⟨ihbody hbody, ?_, ihhandler (List.forall_mem_append.1 hrest).1⟩
    rintro rfl
    exact hvar (List.mem_singleton_self var)

/-! ## What loops do between their passes -/

namespace Loop

variable {x var : String}

theorem keepsScalar_boundsOf (hne : var ≠ x) (start stop : String) :
    Keeps (World.ScalarKept x) (boundsOf var start stop : Act σ Int64) := by
  refine Keeps.bind (Act.keepsScalar_evalText start) fun _ => ?_
  refine Keeps.bind (Act.keeps_lift _) fun _ => ?_
  refine Keeps.bind (Act.keepsScalar_evalText stop) fun _ => ?_
  refine Keeps.bind (Act.keeps_lift _) fun _ => ?_
  exact Keeps.bind (Act.keepsScalar_assign hne _) fun _ => keeps_pure _

theorem keepsScalar_countUp (hne : var ≠ x) :
    Keeps (World.ScalarKept x) (countUp var : Act σ Int64) := by
  refine Keeps.bind (Act.keeps_lookup var) fun v => Keeps.bind (Act.keeps_lift _) fun _ => ?_
  split
  · exact Act.keeps_lift _
  · exact Keeps.bind (Act.keepsScalar_assign hne _) fun _ => keeps_pure _

theorem keepsScalar_itemsOf (hne : var ≠ x) (iterable : String) :
    Keeps (World.ScalarKept x) (itemsOf var iterable : Act σ (List Value)) := by
  refine Keeps.bind (Act.keepsScalar_evalText iterable) fun v => ?_
  refine Keeps.bind (Act.keeps_lift _) fun items => ?_
  split
  · exact keeps_pure _
  · exact Keeps.bind (Act.keepsScalar_assign hne _) fun _ => keeps_pure _

end Loop

/-- **A task that does not bind a variable leaves a value without parts in it**, whatever its
    outcome is. -/
theorem Evaluates.scalarKept {h : Host σ} {x : String} {position : Nat} {task : Task}
    {w w' : World σ} {o : Outcome} (heval : Evaluates h position task w o w')
    (hx : task.Avoids x) : w.ScalarKept x w' := by
  have hcondition {cond : String} {w w' : World σ} {r : Except Fault Value}
      (hrun : (Act.evalText cond).run.run w = (r, w')) : w.ScalarKept x w' :=
    (Act.keepsScalar_evalText cond).of_run hrun
  have hvar {var : String} (hmem : x ∉ [var]) : var ≠ x := by
    simpa [eq_comm] using hmem
  induction heval with
  | skip | breakLoop | continueLoop | returnNothing hblank => exact Std.Refl.refl _
  | perform hsimple hrun | performFault hsimple hrun =>
    exact (Act.keepsScalar_perform h hx).of_run hrun
  | returnValue hsome hexpr | returnFault hsome hexpr => exact hcondition hexpr
  | seqNext hfirst hsecond ihfirst ihsecond => exact (ihfirst hx.1).trans (ihsecond hx.2)
  | seqStop hfirst hstop ih => exact ih hx.1
  | ifThenFault hcond | ifElseFault hcond | guardFault hcond => exact hcondition hcond
  | ifThenNo hcond hfalsy | guardFails hcond hfalsy => exact hcondition hcond
  | ifThenYes hcond htruthy hyes ih => exact (hcondition hcond).trans (ih hx)
  | ifElseYes hcond htruthy hyes ih => exact (hcondition hcond).trans (ih hx.1)
  | ifElseNo hcond hfalsy hno ih => exact (hcondition hcond).trans (ih hx.2)
  | guardedLast hcond htruthy hbody hleaves ih => exact (hcondition hcond).trans (ih hx.2)
  | guardedNext hcond htruthy hbody hleaves hagain ihbody ihagain =>
    exact ((hcondition hcond).trans (ihbody hx.2)).trans (ihagain hx)
  | boundFault hbounds => exact (Loop.keepsScalar_boundsOf (hvar hx.1) _ _).of_run hbounds
  | count hbounds hpass ih =>
    have hbound := (Loop.keepsScalar_boundsOf (hvar hx.1) _ _).of_run hbounds
    exact hbound.trans (ih ⟨hvar hx.1, hx.2⟩)
  | countLast hbody hleaves ih | walkLast hbody hleaves ih | walkOut hbody hleaves ih =>
    exact ih hx.2
  | countFault hbody hleaves hcount ih | countOut hbody hleaves hcount hlast ih =>
    exact (ih hx.2).trans ((Loop.keepsScalar_countUp hx.1).of_run hcount)
  | countNext hbody hleaves hcount hlast hagain ihbody ihagain =>
    have hcounted := (Loop.keepsScalar_countUp hx.1).of_run hcount
    exact ((ihbody hx.2).trans hcounted).trans (ihagain hx)
  | itemsFault hitems | walkNone hitems =>
    exact (Loop.keepsScalar_itemsOf (hvar hx.1) _).of_run hitems
  | walk hitems hpass ih =>
    have hitem := (Loop.keepsScalar_itemsOf (hvar hx.1) _).of_run hitems
    exact hitem.trans (ih ⟨hvar hx.1, hx.2⟩)
  | walkNext hbody hleaves hagain ihbody ihagain =>
    exact ((ihbody hx.2).trans (Env.scalarKept_set hx.1 _)).trans (ihagain hx)
  | tryOnly hbody ih => exact ih hx
  | tryQuiet hbody hquiet ih => exact ih hx.1
  | tryHandled hbody hhandler ihbody ihhandler =>
    exact ((ihbody hx.1).trans (Env.scalarKept_set hx.2.1 _)).trans (ihhandler hx.2.2)

/-! ## Trees of bounded loops -/

/-- No loop of the tree is guarded, and the body of a counting loop leaves its variable alone. -/
def Tree.IsBounded : Tree → Prop
  | .skip | .plain _ _ => True
  | .seq first second => first.IsBounded ∧ second.IsBounded
  | .ifThen _ yes => yes.IsBounded
  | .ifElse _ yes no => yes.IsBounded ∧ no.IsBounded
  | .loop (.counting var _ _) body => body.Avoids var ∧ body.IsBounded
  | .loop (.walking _ _) body => body.IsBounded
  | .loop (.guarded _) _ => False
  | .tryOnly body => body.IsBounded
  | .tryCatch body _ handler => body.IsBounded ∧ handler.IsBounded

/-- The tree has an evaluation from every world. -/
def Tree.Ends (h : Host σ) (t : Tree) : Prop :=
  ∀ (position : Nat) (w : World σ), ∃ o w', Evaluates h position (.code t) w o w'

/-- Every number but the greatest has a next one. -/
theorem toInt_succ {n : Int64} (hn : n ≠ Int64.maxValue) : (n + 1).toInt = n.toInt + 1 := by
  have hle : n.toInt ≤ 9223372036854775807 := Int64.toInt_le n
  have hge : -9223372036854775808 ≤ n.toInt := Int64.le_toInt n
  rw [Ne, ← Int64.toInt_inj, Int64.toInt_maxValue] at hn
  rw [Int64.toInt_add, Int64.toInt_one]
  exact Int.bmod_eq_of_le (by omega) (by omega)

namespace Loop

/-- Counting adds one to the count, or ends in a fault where there is no next number. -/
theorem run_countUp {var : String} {w : World σ} {n : Int64}
    (hn : w.env.get? var = some (.int n)) :
    (countUp var).run.run w
      = if n = Int64.maxValue then (.error (.value .overflow), w)
        else (.ok (n + 1), w.bind var (.int (n + 1))) := by
  have hlookup : w.env.lookup var = .ok (.int n) := by
    simp only [Env.lookup, hn]
  unfold countUp
  rw [Act.run_bind, Act.run_lookup, hlookup]
  show (if n = Int64.maxValue then Act.lift (.error (.value .overflow)) else do
    Act.assign var (.int (n + 1))
    return n + 1 : Act σ Int64).run.run w = _
  by_cases hmax : n = Int64.maxValue
  · rw [if_pos hmax, if_pos hmax]
    rfl
  · rw [if_neg hmax, if_neg hmax]
    rfl

/-- A counting loop starts from a number. -/
theorem get?_of_boundsOf {var start stop : String} {w w' : World σ} {last : Int64}
    (h : (boundsOf var start stop).run.run w = (.ok last, w')) :
    ∃ first, w'.env.get? var = some (.int first) := by
  obtain ⟨v₁, w₁, -, h⟩ := Act.run_bind_ok h
  obtain ⟨first, -, h⟩ := Act.run_lift_ok h
  obtain ⟨v₂, w₂, -, h⟩ := Act.run_bind_ok h
  obtain ⟨last', -, h⟩ := Act.run_lift_ok h
  obtain ⟨_, w₃, hassign, h⟩ := Act.run_bind_ok h
  rw [Act.run_assign] at hassign
  cases hassign
  cases h
  exact ⟨first, by simp [Env.get?_set]⟩

end Loop

namespace Tree

variable {h : Host σ} {body : Tree}

/-- A counting loop comes closer to its last value with every pass. -/
theorem Ends.counting {var : String} (hbody : body.Ends h) (havoids : body.Avoids var)
    (position : Nat) (last : Int64) {w : World σ} {n : Int64}
    (hn : w.env.get? var = some (.int n)) :
    ∃ o w', Evaluates h position (.counting var last body) w o w' := by
  induction hleft : (last.toInt - n.toInt).toNat using Nat.strong_induction_on generalizing w n with
  | _ left ih =>
    obtain ⟨o, w₁, hpass⟩ := hbody (position + 1) w
    -- the body has left the count as it was
    have hn₁ : w₁.env.get? var = some (.int n) := hpass.scalarKept havoids (.int n) rfl hn
    cases ho : o.leaves? with
    | some o' => exact ⟨o', w₁, .countLast hpass ho⟩
    | none =>
      have hcount := Loop.run_countUp hn₁
      by_cases hmax : n = Int64.maxValue
      · rw [if_pos hmax] at hcount
        exact ⟨_, _, .countFault hpass ho hcount⟩
      · have hnext := toInt_succ hmax
        rw [if_neg hmax] at hcount
        by_cases hlast : n + 1 ≤ last
        · have hle : (n + 1).toInt ≤ last.toInt := Int64.le_iff_toInt_le.1 hlast
          have hn₂ : (w₁.bind var (.int (n + 1))).env.get? var = some (.int (n + 1)) := by
            simp [World.bind, Env.get?_set]
          obtain ⟨o', w₂, hagain⟩ := ih _ (by omega) hn₂ rfl
          exact ⟨o', w₂, .countNext hpass ho hcount hlast hagain⟩
        · exact ⟨_, _, .countOut hpass ho hcount hlast⟩

/-- A loop over items has one item less to go with every pass. -/
theorem Ends.walking (hbody : body.Ends h) (var : String) (position : Nat) (left : List Value)
    (w : World σ) : ∃ o w', Evaluates h position (.walking var left body) w o w' := by
  induction left generalizing w with
  | nil =>
    obtain ⟨o, w₁, hpass⟩ := hbody (position + 1) w
    cases ho : o.leaves? with
    | some o' => exact ⟨o', w₁, .walkLast hpass ho⟩
    | none => exact ⟨_, _, .walkOut hpass ho⟩
  | cons next left ih =>
    obtain ⟨o, w₁, hpass⟩ := hbody (position + 1) w
    cases ho : o.leaves? with
    | some o' => exact ⟨o', w₁, .walkLast hpass ho⟩
    | none =>
      obtain ⟨o', w₂, hagain⟩ := ih (w₁.bind var next)
      exact ⟨o', w₂, .walkNext hpass ho hagain⟩

theorem Ends.loop {l : Loop} (hbounded : (loop l body).IsBounded) (hbody : body.Ends h) :
    (loop l body).Ends h := by
  intro position w
  cases l with
  | guarded cond => exact hbounded.elim
  | counting var start stop =>
    rcases hbounds : (Loop.boundsOf var start stop).run.run w with ⟨r, w₁⟩
    cases r with
    | error fault => exact ⟨_, _, .boundFault hbounds⟩
    | ok last =>
      obtain ⟨first, hfirst⟩ := Loop.get?_of_boundsOf hbounds
      obtain ⟨o, w₂, hpass⟩ := hbody.counting hbounded.1 position last hfirst
      exact ⟨o, w₂, .count hbounds hpass⟩
  | walking var iterable =>
    rcases hitems : (Loop.itemsOf var iterable).run.run w with ⟨r, w₁⟩
    cases r with
    | error fault => exact ⟨_, _, .itemsFault hitems⟩
    | ok items =>
      cases items with
      | nil => exact ⟨_, _, .walkNone hitems⟩
      | cons first left =>
        obtain ⟨o, w₂, hpass⟩ := hbody.walking var position left w₁
        exact ⟨o, w₂, .walk hitems hpass⟩

theorem Ends.seq {first second : Tree} (hfirst : first.Ends h) (hsecond : second.Ends h) :
    (seq first second).Ends h := by
  intro position w
  obtain ⟨o, w₁, heval₁⟩ := hfirst position w
  by_cases ho : o = .normal
  · subst ho
    obtain ⟨o', w₂, heval₂⟩ := hsecond (position + first.size) w₁
    exact ⟨o', w₂, .seqNext heval₁ heval₂⟩
  · exact ⟨o, w₁, .seqStop heval₁ ho⟩

theorem Ends.ifThen (cond : String) {yes : Tree} (hyes : yes.Ends h) :
    (ifThen cond yes).Ends h := by
  intro position w
  rcases hcond : (Act.evalText cond).run.run w with ⟨r, w₁⟩
  cases r with
  | error fault => exact ⟨_, _, .ifThenFault hcond⟩
  | ok v =>
    by_cases htruthy : v.truthy = true
    · obtain ⟨o, w₂, heval⟩ := hyes (position + 1) w₁
      exact ⟨o, w₂, .ifThenYes hcond htruthy heval⟩
    · exact ⟨_, _, .ifThenNo hcond (Bool.eq_false_iff.2 htruthy)⟩

theorem Ends.ifElse (cond : String) {yes no : Tree} (hyes : yes.Ends h) (hno : no.Ends h) :
    (ifElse cond yes no).Ends h := by
  intro position w
  rcases hcond : (Act.evalText cond).run.run w with ⟨r, w₁⟩
  cases r with
  | error fault => exact ⟨_, _, .ifElseFault hcond⟩
  | ok v =>
    by_cases htruthy : v.truthy = true
    · obtain ⟨o, w₂, heval⟩ := hyes (position + 1) w₁
      exact ⟨o, w₂, .ifElseYes hcond htruthy heval⟩
    · obtain ⟨o, w₂, heval⟩ := hno (position + 1 + yes.size + 1) w₁
      exact ⟨o, w₂, .ifElseNo hcond (Bool.eq_false_iff.2 htruthy) heval⟩

theorem Ends.tryCatch (var : String) {handler : Tree} (hbody : body.Ends h)
    (hhandler : handler.Ends h) : (tryCatch body var handler).Ends h := by
  intro position w
  obtain ⟨o, w₁, heval⟩ := hbody (position + 1) w
  cases o with
  | faults fault raised =>
    obtain ⟨o, w₂, hhandled⟩ := hhandler (position + 1 + body.size + 1)
      (w₁.bind var (.text (fault.message h.wording)))
    exact ⟨o, w₂, .tryHandled heval hhandled⟩
  | _ => exact ⟨_, w₁, .tryQuiet heval rfl⟩

/-- **A tree of bounded loops has an evaluation from every world.** -/
theorem IsBounded.ends {t : Tree} (h : Host σ) (ht : t.IsBounded) : t.Ends h := by
  induction t with
  | skip => exact fun _ w => ⟨_, w, .skip⟩
  | plain s hplain => exact fun position w => Machine.exists_evaluates_plain h position s hplain w
  | seq first second ihfirst ihsecond => exact .seq (ihfirst ht.1) (ihsecond ht.2)
  | ifThen cond yes ih => exact .ifThen cond (ih ht)
  | ifElse cond yes no ihyes ihno => exact .ifElse cond (ihyes ht.1) (ihno ht.2)
  | loop l body ih =>
    refine Ends.loop ht (ih ?_)
    cases l with
    | counting var start stop => exact ht.2
    | walking var iterable => exact ht
    | guarded cond => exact ht.elim
  | tryOnly body ih =>
    intro position w
    obtain ⟨o, w', heval⟩ := ih ht (position + 1) w
    exact ⟨o, w', .tryOnly heval⟩
  | tryCatch body var handler ihbody ihhandler => exact .tryCatch var (ihbody ht.1) (ihhandler ht.2)

end Tree

/-! ## Programs -/

/-- No statement strictly between the opener of a counting loop and its closer binds the variable
    of the loop. -/
def CountersLeftAlone (body : List Statement) : Prop :=
  ∀ (opener : Nat) (var start stop : String) (span : Span),
    body[opener]? = some (.forRange var start stop) → Block.spanOf body opener = .ok span →
    ∀ (position : Nat) (s : Statement), opener < position → position < span.stop →
      body[position]? = some s → var ∉ s.binds

theorem getElem?_of_standsFrom {body ss : List Statement} {position i : Nat} {s : Statement}
    (hat : StandsFrom body position ss) (hs : ss[i]? = some s) : body[position + i]? = some s := by
  obtain ⟨rest, hrest⟩ := hat
  have hlt : i < ss.length := (List.getElem?_eq_some_iff.1 hs).1
  rw [← List.getElem?_drop, ← hrest, List.getElem?_append_left hlt, hs]

/-- The trees of a program without guarded loops that leaves its counters alone are bounded. -/
theorem Tree.isBounded_of_standsFrom {body : List Statement} {t : Tree} {position : Nat}
    (hat : StandsFrom body position t.statements) (hguards : ∀ cond, .whileLoop cond ∉ body)
    (hcounters : CountersLeftAlone body) : t.IsBounded := by
  induction t generalizing position with
  | skip | plain => trivial
  | seq first second ihfirst ihsecond =>
    obtain ⟨hfirst, hsecond⟩ := standsFrom_append.1 hat
    exact ⟨ihfirst hfirst, ihsecond hsecond⟩
  | ifThen cond yes ih => exact ih (Block.undivided_of_standsFrom rfl rfl hat).first
  | ifElse cond yes no ihyes ihno =>
    have hblock := Block.divided_of_standsFrom rfl rfl rfl hat
    exact ⟨ihyes hblock.first, ihno hblock.second⟩
  | loop l inside ih =>
    have hblock := Block.undivided_of_standsFrom l.opens?_opener l.closes?_closer hat
    cases l with
    | counting var start stop =>
      refine ⟨Tree.avoids_of_statements fun s hs => ?_, ih hblock.first⟩
      obtain ⟨i, hi⟩ := List.getElem?_of_mem hs
      have hlt : i < inside.size := (List.getElem?_eq_some_iff.1 hi).1
      exact hcounters position var start stop _ hblock.opener hblock.span (position + 1 + i) s
        (by omega) (by simp only; omega) (getElem?_of_standsFrom hblock.first hi)
    | walking var iterable => exact ih hblock.first
    | guarded cond => exact (hguards cond (List.mem_of_getElem? hblock.opener)).elim
  | tryOnly inside ih => exact ih (Block.undivided_of_standsFrom rfl rfl hat).first
  | tryCatch inside var handler ihinside ihhandler =>
    have hblock := Block.divided_of_standsFrom rfl rfl rfl hat
    exact ⟨ihinside hblock.first, ihhandler hblock.second⟩

namespace Program

/-- **A well-nested program without guarded loops comes to an end** when no statement in a counting
    loop binds the variable of that loop: it is done after finitely many statements, on all inputs
    and with every host. -/
theorem halts_of_countersLeftAlone {p : Program} (hp : p.structureIssues = [])
    (hguards : ∀ cond, .whileLoop cond ∉ p.body) (hcounters : CountersLeftAlone p.body)
    (h : Host σ) (inputs : List Value) (host : σ) {m : Machine σ}
    (hstart : p.start inputs host = .ok m) : ∃ fuel, (m.run h p fuel).isDone p = true := by
  obtain ⟨t, ht⟩ := exists_tree hp
  have hat : StandsFrom p.body 0 t.statements := ht ▸ standsFrom_self t.statements
  have hstarts : Task.Starts p.body [] 0 (.code t) 0 [] (0 + t.size) :=
    .code hat ((structureIssues_of_tree ht).1 hp) (fun f hf => by cases hf)
  obtain ⟨w₀, ip, frames, control⟩ := m
  obtain ⟨rfl, rfl, rfl⟩ := Machine.of_start hstart
  obtain ⟨o, w, heval⟩ := (Tree.isBounded_of_standsFrom hat hguards hcounters).ends h 0 w₀
  obtain ⟨m', ⟨n, rfl⟩, hexits⟩ := (Machine.traces_of_evaluates heval).reaches hstarts
  rw [Nat.zero_add, Tree.size, ht] at hexits
  exact ⟨n, by rw [Machine.run_eq_iterate]; exact hexits.ends.1⟩

/-- A counting loop around a loop that extends the list it walks, with faults that are handled. -/
def growingWalk : Program where
  name := "Growing"
  kind := .algorithm
  inputs := ["xs"]
  body := [.forRange "i" "1" "2", .forEach "x" "xs", .listAppend "xs" "i", .tryBlock,
    .assign "y" "10 / x", .catchFault "e", .continueLoop, .endTry, .endForEach, .endFor]

/-- The variable `i` is bound by its own loop only, so the program comes to an end. -/
theorem halts_of_countersLeftAlone_growingWalk :
    growingWalk.structureIssues = [] ∧ (∀ cond, .whileLoop cond ∉ growingWalk.body) ∧
      CountersLeftAlone growingWalk.body ∧
      ∃ m, growingWalk.start [.list [.int 0, .int 1]]
          ({ memory := () } : Library.State Unit Unit) = .ok m ∧
        ∃ fuel, (m.run (Library.host (Library.standard .plain)) growingWalk fuel).isDone growingWalk
          = true := by
  have hp : growingWalk.structureIssues = [] := rfl
  have hguards : ∀ cond, .whileLoop cond ∉ growingWalk.body := by
    simp [growingWalk]
  have hrest : ∀ s ∈ growingWalk.body.tail, "i" ∉ s.binds := by
    decide +kernel
  have hcounters : CountersLeftAlone growingWalk.body := by
    intro opener var start stop span hopener hspan position s hlt hstop hs
    cases opener with
    | succ opener =>
      have hmem : .forRange var start stop ∈ growingWalk.body.tail := List.mem_of_getElem? hopener
      simp [growingWalk] at hmem
    | zero =>
      cases hopener
      obtain ⟨position, rfl⟩ : ∃ i, position = i + 1 := Nat.exists_eq_succ_of_ne_zero hlt.ne'
      exact hrest s (List.mem_of_getElem? hs)
  have hstart : growingWalk.start [.list [.int 0, .int 1]]
      ({ memory := () } : Library.State Unit Unit) = .ok _ := rfl
  exact ⟨hp, hguards, hcounters, _, hstart,
    halts_of_countersLeftAlone hp hguards hcounters _ _ _ hstart⟩

end Program

end StepScript
