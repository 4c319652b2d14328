import StepScript.Proofs.Passes

/-!
# Walks over items

A loop over items keeps them in its frame, as they were when it was entered. Nothing but the closer
of the loop changes that frame, and the closer only moves on to the next item. So, as long as the
program is in the loop, the entries into its body have been made with the items up to the current
one (`AtItem.run`), whatever has become of the value they came from and of the variable; and when
every pass comes to its end, with all of them (`walks_to_end`).

Unlike a counting loop the walk asks nothing of its passes, so entries can be told also where a pass
is cut short by leaving the loop or by the end of the program. A program that has ended stays where
it is, which is never the closer (`AtItem.alive`).
-/

set_option autoImplicit false

namespace StepScript

variable {σ : Type}

namespace Machine

variable {h : Host σ} {p : Program} {m m' : Machine σ} {rs : List Region}

/-! ## At an item -/

/-- The frame of a loop over items, at one of them. -/
def walkFrame (var : String) (items : List Value) (start stop cursor : Nat) : Frame :=
  ⟨.forEach var items cursor, start, stop⟩

/-- In a loop over items, which is at one of them. -/
structure AtItem (h : Host σ) (p : Program) (var : String) (items : List Value) (start stop : Nat)
    (base : List Frame) (cursor : Nat) (m : Machine σ) : Prop where
  reachable : Reachable h p m
  frame : walkFrame var items start stop cursor :: base <:+ m.frames
  bound : cursor < items.length
  inside : start < m.ip ∧ m.ip ≤ stop
  alive : m.ip = stop → m.isRunning = true

section

variable {var : String} {items left : List Value} {item : Value} {start stop cursor n : Nat}
variable {base : List Frame} {w : World σ}

/-- The closer finds the frame on top. -/
theorem AtItem.eq_running (hm : AtItem h p var items start stop base cursor m)
    (hlaid : Laid p.body rs) (hip : m.ip = stop) :
    m = running m.world stop (walkFrame var items start stop cursor :: base) := by
  have hframes := hm.reachable.frames_at_closer hlaid hm.frame hip
  rw [← hframes, ← hip]
  exact Machine.eq_running (hm.alive hip)

/-- Elsewhere than at the closer a step keeps the loop at its item. -/
theorem AtItem.step_before (hm : AtItem h p var items start stop base cursor m)
    (hlaid : Laid p.body rs) (hip : m.ip ≠ stop)
    (hinside : start < (m.step h p).ip ∧ (m.step h p).ip ≤ stop) :
    AtItem h p var items start stop base cursor (m.step h p) := by
  refine ⟨hm.reachable.step, ?_, hm.bound, hinside, fun hstop => ?_⟩
  · exact hm.reachable.keeps_loop hlaid rfl hm.frame hip hinside.1 hinside.2
  · refine isRunning_step ?_
    rw [hstop]
    exact hip.symm

/-- A step that stays in the loop stays at the item without entering the body, or enters it with the
    next item. -/
theorem AtItem.step (hm : AtItem h p var items start stop base cursor m) (hlaid : Laid p.body rs)
    (hs : p.body[stop]? = some .endForEach)
    (hinside : start < (m.step h p).ip ∧ (m.step h p).ip ≤ stop) :
    AtItem h p var items start stop base cursor (m.step h p) ∧
        entryValues h p start stop var 1 m = [] ∨
      ∃ item, items[cursor + 1]? = some item ∧
        AtItem h p var items start stop base (cursor + 1) (m.step h p) ∧
        entryValues h p start stop var 1 m = [some item] := by
  by_cases hip : m.ip = stop
  · have hm' := hm.eq_running hlaid hip
    cases hleft : items.drop (cursor + 1) with
    | nil =>
      -- the step leaves the loop
      have hend : m.step h p = _ := (congrArg _ hm').trans (step_walkOut hs hleft)
      rw [hend] at hinside
      exact absurd hinside.2 (Nat.not_succ_le_self stop)
    | cons item left =>
      have hnext : m.step h p = _ := (congrArg _ hm').trans (step_walkNext hs hleft)
      have henters : entersBody start stop m (m.step h p) = true := by
        rw [hnext]
        exact entersBody_iff.2 ⟨Or.inr hip, rfl⟩
      have hitem : items[cursor + 1]? = some item := by
        rw [← List.head?_drop, hleft]
        rfl
      have hbound := (List.getElem?_eq_some_iff.1 hitem).1
      refine Or.inr ⟨item, hitem, ⟨hm.reachable.step, ?_, hbound, hinside, fun _ => ?_⟩, ?_⟩
      · rw [hnext]
        exact List.suffix_refl _
      · rw [hnext]
        rfl
      · rw [entryValues_one henters, hnext]
        exact congrArg (fun v => [v]) (Env.get?_set_self _ _ _)
  · have hlow := hm.inside.1
    exact Or.inl ⟨hm.step_before hlaid hip hinside, entryValues_none (by omega)⟩

/-- A step out of the loop does not enter the body. -/
theorem AtItem.step_out (hm : AtItem h p var items start stop base cursor m)
    (hout : ¬(start < (m.step h p).ip ∧ (m.step h p).ip ≤ stop)) :
    entryValues h p start stop var 1 m = [] := by
  have hinside := hm.inside
  exact entryValues_none (by omega)

/-- **The walk follows the items**: as long as the program is in the loop, the body has been entered
    once with each item up to the current one, in their order. -/
theorem AtItem.run (hm : AtItem h p var items start stop base 0 m) (hlaid : Laid p.body rs)
    (hs : p.body[stop]? = some .endForEach) (hn : StaysIn h p start stop n m) :
    ∃ cursor, AtItem h p var items start stop base cursor (m.run h p n) ∧
      entryValues h p start stop var n m = (items.tail.take cursor).map some := by
  induction n with
  | zero => exact ⟨0, hm, by simp [entryValues]⟩
  | succ n ih =>
    obtain ⟨cursor, hcursor, hvalues⟩ := ih (hn.mono (Nat.le_succ n))
    have hinside := hn (n + 1) (Nat.succ_pos n) (Nat.le_refl _)
    rw [run_succ'] at hinside ⊢
    rw [entryValues_add, hvalues]
    rcases hcursor.step hlaid hs hinside with ⟨hstay, hnone⟩ | ⟨item, hitem, hnext, hone⟩
    · exact ⟨cursor, hstay, by rw [hnone, List.append_nil]⟩
    · refine ⟨cursor + 1, hnext, ?_⟩
      rw [hone, List.take_add_one, List.getElem?_tail, hitem]
      simp

/-- The step after that, which may leave the loop, adds the next item at most. -/
theorem AtItem.entryValues_isPrefix (hm : AtItem h p var items start stop base 0 m)
    (hlaid : Laid p.body rs) (hs : p.body[stop]? = some .endForEach)
    (hn : StaysIn h p start stop n m) :
    entryValues h p start stop var (n + 1) m <+: items.tail.map some := by
  by_cases hinside : start < ((m.run h p n).step h p).ip ∧ ((m.run h p n).step h p).ip ≤ stop
  · obtain ⟨cursor, -, hvalues⟩ :=
      hm.run hlaid hs (hn.add (staysIn_one hinside.1 hinside.2))
    rw [hvalues]
    exact (List.take_prefix _ _).map some
  · obtain ⟨cursor, hcursor, hvalues⟩ := hm.run hlaid hs hn
    rw [entryValues_add, hcursor.step_out hinside, List.append_nil, hvalues]
    exact (List.take_prefix _ _).map some

/-- Every pass that is begun before the program leaves a loop comes to its end, whatever it does to
    the variable. -/
def EveryPassEnds (h : Host σ) (p : Program) (start stop : Nat) (m : Machine σ) : Prop :=
  ∀ n, StaysIn h p start stop n m →
    entersBody start stop (m.run h p n) (m.run h p (n + 1)) = true →
    ∃ k, PassEnds h p start stop k (m.run h p (n + 1))

theorem EveryPassEnds.after (hm : EveryPassEnds h p start stop m)
    (hn : StaysIn h p start stop n m) : EveryPassEnds h p start stop (m.run h p n) := by
  intro k hk henters
  rw [← run_add, ← run_add] at henters
  have hpass := hm (n + k) (hn.add hk) henters
  rwa [← run_add]

/-- A pass ends at the closer, with the walk at the same item. -/
theorem PassEnds.run_walk (hends : PassEnds h p start stop n m) (hm : Reachable h p m)
    (hlaid : Laid p.body rs)
    (hstart : m = running w (start + 1) (walkFrame var items start stop cursor :: base)) :
    ∃ w', m.run h p n = running w' stop (walkFrame var items start stop cursor :: base) := by
  subst hstart
  have hloop : (walkFrame var items start stop cursor).isLoop = true := rfl
  exact hends.run_eq hm hlaid hloop

/-- **A walk whose passes come to their end goes through all items**: from the beginning of a pass
    on the body is entered once more with each item that is left, and then the loop is left, its
    frame gone. -/
theorem walks_to_end (hlaid : Laid p.body rs) (hs : p.body[stop]? = some .endForEach)
    (horder : start < stop) (hm : Reachable h p m)
    (hstart : m = running w (start + 1) (walkFrame var items start stop cursor :: base))
    (hpass : ∃ k, PassEnds h p start stop k m) (hlater : EveryPassEnds h p start stop m) :
    ∃ n w', StaysIn h p start stop n m ∧ m.run h p (n + 1) = running w' (stop + 1) base ∧
      entryValues h p start stop var n m = (items.drop (cursor + 1)).map some := by
  -- induction on the items that are left
  induction hleft : items.drop (cursor + 1) generalizing cursor w m with
  | nil =>
    obtain ⟨k, hends⟩ := hpass
    obtain ⟨w', hrun⟩ := hends.run_walk hm hlaid hstart
    refine ⟨k, w', hends.staysIn horder, ?_, hends.entryValues_eq⟩
    rw [run_succ', hrun]
    exact step_walkOut hs hleft
  | cons item left ih =>
    obtain ⟨k, hends⟩ := hpass
    obtain ⟨w', hrun⟩ := hends.run_walk hm hlaid hstart
    have hstep : (m.run h p k).step h p = _ := (congrArg _ hrun).trans (step_walkNext hs hleft)
    obtain ⟨hrun', hstays, henters, hvalue⟩ := hends.enter_again horder hstep
    have hpass' := hlater k (hends.staysIn horder) henters
    have hrest : items.drop (cursor + 1 + 1) = left := by
      rw [← List.tail_drop, hleft, List.tail_cons]
    obtain ⟨n, w₂, hstays₂, hrun₂, hvalues⟩ :=
      ih (hm.run (k + 1)) hrun' hpass' (hlater.after hstays) hrest
    refine ⟨k + 1 + n, w₂, hstays.add hstays₂, ?_, ?_⟩
    · rw [Nat.add_assoc, run_add, hrun₂]
    · rw [entryValues_add, hvalue, hvalues]
      rfl

end

theorem eq_endForEach {s : Statement} (hcloses : s.closes? = some .forEach) : s = .endForEach := by
  cases s with
  | endForEach => rfl
  | _ => cases hcloses

/-! ## Whole walks -/

/-- What is iterated over, evaluated, has these items. -/
def ItemsAre (iterable : String) (w : World σ) (items : List Value) (w' : World σ) : Prop :=
  ∃ v, (Act.evalText iterable).run.run w = (.ok v, w') ∧ v.items = .ok items

/-- How a loop over items goes that is entered with these: its closer is at `stop`, and the world
    after the evaluation of what it iterates over is `w`. -/
structure WalksThrough (h : Host σ) (p : Program) (stop : Nat) (var : String) (items : List Value)
    (w : World σ) (m : Machine σ) : Prop where
  /-- In the loop the body has been entered with each item up to the current one, which its frame
      tells, the frame being active above those that were active before. -/
  inside : ∀ n, StaysIn h p m.ip stop (n + 1) m → ∃ cursor < items.length,
    walkFrame var items m.ip stop cursor :: m.frames <:+ (m.run h p (n + 1)).frames ∧
      entryValues h p m.ip stop var (n + 1) m = (items.take (cursor + 1)).map some
  /-- The step that leaves the loop, wherever it goes, adds no other entry. -/
  leaves : ∀ n, StaysIn h p m.ip stop n m →
    entryValues h p m.ip stop var (n + 1) m <+: items.map some
  /-- When all passes come to their end, the body is entered with all items, and then the loop is
      left, its frame gone. -/
  ends : EveryPassEnds h p m.ip stop m → ∃ n w', StaysIn h p m.ip stop n m ∧
    entryValues h p m.ip stop var n m = items.map some ∧
      m.run h p (n + 1) = running w' (stop + 1) m.frames
  /-- Without items the loop is passed over, with nothing bound and no frame. -/
  skips : items = [] → m.step h p = running w (stop + 1) m.frames

section

variable {var iterable : String} {items left : List Value} {item : Value} {span : Span}
variable {w : World σ}

/-- The items are those that the loop starts with, the first of them bound. -/
theorem itemsOf_eq (var : String) (hitems : ItemsAre iterable m.world items w) :
    (Loop.itemsOf var iterable).run.run m.world
      = (.ok items, match items with | [] => w | first :: _ => w.bind var first) := by
  obtain ⟨v, hv, hitems⟩ := hitems
  simp only [Loop.itemsOf, Act.run_bind, hv, Act.run_lift, hitems]
  cases items with
  | nil => rfl
  | cons first left => rfl

/-- A loop over items is entered with the first one in its variable, -/
theorem step_forEach (hrunning : m.isRunning = true)
    (hs : p.body[m.ip]? = some (.forEach var iterable))
    (hspan : Block.spanOf p.body m.ip = .ok span)
    (hitems : ItemsAre iterable m.world (item :: left) w) :
    m.step h p = running (w.bind var item) (m.ip + 1)
      (walkFrame var (item :: left) m.ip span.stop 0 :: m.frames) :=
  (congrArg (step h p) (eq_running hrunning)).trans
    ((acts_walking hs hspan).step_ok (itemsOf_eq var hitems))

/-- or passed over when there is none. -/
theorem step_forEach_nil (hrunning : m.isRunning = true)
    (hs : p.body[m.ip]? = some (.forEach var iterable))
    (hspan : Block.spanOf p.body m.ip = .ok span)
    (hitems : ItemsAre iterable m.world [] w) :
    m.step h p = running w (span.stop + 1) m.frames :=
  (congrArg (step h p) (eq_running hrunning)).trans
    ((acts_walking hs hspan).step_ok (itemsOf_eq var hitems))

theorem walksThrough_nil (hlt : m.ip < span.stop)
    (hstep : m.step h p = running w (span.stop + 1) m.frames) :
    WalksThrough h p span.stop var [] w m := by
  have hleft {n : Nat} : ¬StaysIn h p m.ip span.stop (n + 1) m := by
    intro hn
    have hhigh := (hn 1 (Nat.succ_pos 0) (Nat.succ_le_succ (Nat.zero_le n))).2
    rw [run_succ, hstep] at hhigh
    exact absurd hhigh (Nat.not_succ_le_self span.stop)
  constructor
  · intro n hn
    exact absurd hn hleft
  · intro n hn
    cases n with
    | succ n => exact absurd hn hleft
    | zero =>
      have hip : (m.step h p).ip = span.stop + 1 := by
        rw [hstep]
        rfl
      rw [entryValues_none (by omega)]
      exact List.nil_prefix
  · intro _
    exact ⟨0, w, staysIn_zero, rfl, (run_succ ..).trans hstep⟩
  · intro _
    exact hstep

theorem walksThrough_cons (hlaid : Laid p.body rs) (hm : Reachable h p m) (hlt : m.ip < span.stop)
    (hcloser : p.body[span.stop]? = some .endForEach)
    (hstep : m.step h p = running (w.bind var item) (m.ip + 1)
      (walkFrame var (item :: left) m.ip span.stop 0 :: m.frames)) :
    WalksThrough h p span.stop var (item :: left) w m := by
  have hone : m.run h p 1 = m.step h p := run_succ h p m 0
  have hstays : StaysIn h p m.ip span.stop 1 m := staysIn_one
    (by rw [hstep]; exact Nat.lt_succ_self _) (by rw [hstep]; exact hlt)
  have henters : entersBody m.ip span.stop m (m.step h p) = true := by
    rw [hstep]
    exact entersBody_iff.2 ⟨Or.inl rfl, rfl⟩
  have hfirst (n : Nat) : entryValues h p m.ip span.stop var (1 + n) m
      = some item :: entryValues h p m.ip span.stop var n (m.run h p 1) := by
    rw [entryValues_add, entryValues_one henters, hstep]
    exact congrArg₂ List.cons (Env.get?_set_self _ _ _) rfl
  have hat : AtItem h p var (item :: left) m.ip span.stop m.frames 0 (m.run h p 1) := by
    refine ⟨hm.run 1, ?_, Nat.succ_pos _, hstays 1 (Nat.succ_pos 0) (Nat.le_refl 1), fun _ => ?_⟩
    · rw [hone, hstep]
      exact List.suffix_refl _
    · rw [hone, hstep]
      rfl
  constructor
  · intro n hn
    rw [Nat.add_comm] at hn ⊢
    obtain ⟨cursor, hcursor, hvalues⟩ := hat.run hlaid hcloser hn.later
    rw [hfirst, hvalues, run_add]
    exact ⟨cursor, hcursor.bound, hcursor.frame, rfl⟩
  · intro n hn
    rw [Nat.add_comm, hfirst, List.map_cons, List.cons_prefix_cons]
    refine ⟨rfl, ?_⟩
    cases n with
    | zero => exact List.nil_prefix
    | succ n =>
      rw [Nat.add_comm] at hn
      exact hat.entryValues_isPrefix hlaid hcloser hn.later
  · intro hpasses
    have hpass := hpasses 0 staysIn_zero (by rw [Nat.zero_add, hone]; exact henters)
    obtain ⟨n, w', hstays', hrun, hvalues⟩ := walks_to_end hlaid hcloser hlt (hm.run 1)
      (hone.trans hstep) hpass (hpasses.after hstays)
    refine ⟨1 + n, w', hstays.add hstays', ?_, ?_⟩
    · rw [hfirst, hvalues]
      rfl
    · rw [Nat.add_assoc, run_add, hrun]
  · nofun

/-- **A loop over items walks through a snapshot of them.** Whatever its passes do to the value they
    came from, to the variable or to anything else, the body is entered with one item after the
    other, each just bound to the variable; with all of them, when every pass comes to its end, and
    with the first ones of them, however a pass leaves the loop. -/
theorem forEach_walksThrough (hp : p.structureIssues = []) (hm : Reachable h p m)
    (hrunning : m.isRunning = true) (hs : p.body[m.ip]? = some (.forEach var iterable))
    (hspan : Block.spanOf p.body m.ip = .ok span) (hitems : ItemsAre iterable m.world items w) :
    WalksThrough h p span.stop var items w m := by
  obtain ⟨rs, hlaid⟩ := Program.exists_laid hp
  have hpartners := Block.partners_of_opener hs rfl hspan
  obtain ⟨s, hcloser, hcloses⟩ := hpartners.closes
  obtain rfl := eq_endForEach hcloses
  cases items with
  | nil => exact walksThrough_nil hpartners.lt_stop (step_forEach_nil hrunning hs hspan hitems)
  | cons item left =>
    exact walksThrough_cons hlaid hm hpartners.lt_stop hcloser
      (step_forEach hrunning hs hspan hitems)

end

/-- A loop whose passes extend the list that it walks over, overwrite its variable, and are cut
    short. -/
def growingItems : Program where
  name := "Growing"
  kind := .algorithm
  inputs := ["xs"]
  body := [.forEach "x" "xs", .listAppend "xs" "x", .assign "x" "0", .continueLoop, .endForEach]

/-- Its machine at the opener of the loop. -/
def growingItemsStart : Machine (Library.State Unit Unit) :=
  ⟨⟨{ vars := ⟨[("xs", .list [.int 1, .int 2])]⟩, host := { memory := () } }, #[], none⟩, 0, [],
    .running⟩

/-- The two passes of the loop come to their end. -/
theorem everyPassEnds_growingItems :
    EveryPassEnds (Library.host (Library.standard .plain)) growingItems 0 4 growingItemsStart := by
  intro n hstays henters
  have hleft :
      (growingItemsStart.run (Library.host (Library.standard .plain)) growingItems 9).ip = 5 := by
    decide +kernel
  have hn : n < 9 := by
    by_contra hle
    have hstop := (hstays 9 (by omega) (by omega)).2
    omega
  interval_cases n
  · exact ⟨3, by decide +kernel, by decide +kernel⟩
  · exact absurd henters (by decide +kernel)
  · exact absurd henters (by decide +kernel)
  · exact absurd henters (by decide +kernel)
  · exact ⟨3, by decide +kernel, by decide +kernel⟩
  · exact absurd henters (by decide +kernel)
  · exact absurd henters (by decide +kernel)
  · exact absurd henters (by decide +kernel)
  · exact absurd henters (by decide +kernel)

/-- The body is entered with 1 and with 2, though the list has four items in the end. -/
theorem forEach_walksThrough_growingItems :
    growingItems.structureIssues = [] ∧
      Reachable (Library.host (Library.standard .plain)) growingItems growingItemsStart ∧
      ItemsAre "xs" growingItemsStart.world [.int 1, .int 2] growingItemsStart.world ∧
      EveryPassEnds (Library.host (Library.standard .plain)) growingItems 0 4 growingItemsStart ∧
      ∃ n w, entryValues (Library.host (Library.standard .plain)) growingItems 0 4 "x" n
          growingItemsStart = [some (.int 1), some (.int 2)] ∧
        growingItemsStart.run (Library.host (Library.standard .plain)) growingItems (n + 1)
          = running w 5 [] := by
  have hp : growingItems.structureIssues = [] := rfl
  have hstart : growingItems.start [.list [.int 1, .int 2]] { memory := () }
      = .ok growingItemsStart := rfl
  have hm : Reachable (Library.host (Library.standard .plain)) growingItems growingItemsStart :=
    .start hstart
  have hitems : ItemsAre "xs" growingItemsStart.world [.int 1, .int 2] growingItemsStart.world :=
    ⟨_, rfl, rfl⟩
  obtain ⟨n, w, -, hvalues, hrun⟩ :=
    (forEach_walksThrough hp hm rfl rfl rfl hitems).ends everyPassEnds_growingItems
  exact ⟨hp, hm, hitems, everyPassEnds_growingItems, n, w, hvalues, hrun⟩

end Machine

end StepScript
