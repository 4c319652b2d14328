import StepScript.Proofs.Moves
import StepScript.Proofs.Partners

/-!
# Programs as nested blocks

The tree of a well-nested program. A tree spells a list of statements (`Tree.statements`), and a
program is read as a tree whose statements are its body.

The forward scans for partners pass over the statements of a whole tree (`Tree.passes`), so the
partners of every marker are where the tree has them: `spanOf_block`, `spanOf_split` and
`closerOf_split` say so for the three forms a block can have.
-/

set_option autoImplicit false

namespace StepScript

/-! ## Trees -/

/-- What repeats the body of a loop. -/
inductive Loop where
  | counting (var start stop : String)
  | walking (var iterable : String)
  | guarded (cond : String)

namespace Loop

/-- The family of the loop. -/
def block : Loop → Block
  | .counting _ _ _ => .forRange
  | .walking _ _ => .forEach
  | .guarded _ => .whileLoop

/-- The statement that opens the loop. -/
def opener : Loop → Statement
  | .counting var start stop => .forRange var start stop
  | .walking var iterable => .forEach var iterable
  | .guarded cond => .whileLoop cond

/-- The statement that closes the loop. -/
def closer : Loop → Statement
  | .counting _ _ _ => .endFor
  | .walking _ _ => .endForEach
  | .guarded _ => .endWhile

@[simp] theorem opens?_opener (l : Loop) : l.opener.opens? = some l.block := by
  cases l <;> rfl

@[simp] theorem closes?_closer (l : Loop) : l.closer.closes? = some l.block := by
  cases l <;> rfl

@[simp] theorem isLoop_block (l : Loop) : l.block.isLoop = true := by
  cases l <;> rfl

end Loop

/-- A list of statements read as nested blocks. -/
inductive Tree where
  | skip
  /-- A statement that opens, divides and closes nothing. -/
  | plain (s : Statement) (hplain : s.isMarker = false)
  | seq (first second : Tree)
  | ifThen (cond : String) (yes : Tree)
  | ifElse (cond : String) (yes no : Tree)
  | loop (l : Loop) (body : Tree)
  /-- A protected block whose faults are not handled. -/
  | tryOnly (body : Tree)
  | tryCatch (body : Tree) (var : String) (handler : Tree)

namespace Tree

/-- The statements that a tree spells. -/
def statements : Tree → List Statement
  | .skip => []
  | .plain s _ => [s]
  | .seq first second => first.statements ++ second.statements
  | .ifThen cond yes => .ifThen cond :: (yes.statements ++ [.endIf])
  | .ifElse cond yes no =>
    .ifThen cond :: (yes.statements ++ .orElse :: (no.statements ++ [.endIf]))
  | .loop l body => l.opener :: (body.statements ++ [l.closer])
  | .tryOnly body => .tryBlock :: (body.statements ++ [.endTry])
  | .tryCatch body var handler =>
    .tryBlock :: (body.statements ++ .catchFault var :: (handler.statements ++ [.endTry]))

/-- The number of statements. -/
def size (t : Tree) : Nat :=
  t.statements.length

/-- Loops are left, and their next pass started, only from inside of one: `inLoop` says whether
    the tree stands in a loop. -/
def jumpsInside (inLoop : Bool) : Tree → Bool
  | .skip => true
  | .plain s _ => !s.isJump || inLoop
  | .seq first second => first.jumpsInside inLoop && second.jumpsInside inLoop
  | .ifThen _ yes => yes.jumpsInside inLoop
  | .ifElse _ yes no => yes.jumpsInside inLoop && no.jumpsInside inLoop
  | .loop _ body => body.jumpsInside true
  | .tryOnly body => body.jumpsInside inLoop
  | .tryCatch body _ handler => body.jumpsInside inLoop && handler.jumpsInside inLoop

end Tree

/-! ## Places of statements in a body -/

/-- The statements stand in a body from a position on. -/
def StandsFrom (body : List Statement) (position : Nat) (ss : List Statement) : Prop :=
  ss <+: body.drop position

theorem drop_eq_cons_iff {body rest : List Statement} {position : Nat} {s : Statement} :
    body.drop position = s :: rest ↔
      body[position]? = some s ∧ body.drop (position + 1) = rest := by
  rw [← List.tail_drop, ← List.head?_drop]
  cases body.drop position with
  | nil => simp
  | cons head tail => simp

theorem standsFrom_nil (body : List Statement) (position : Nat) : StandsFrom body position [] :=
  List.nil_prefix

@[simp] theorem standsFrom_cons {body ss : List Statement} {position : Nat} {s : Statement} :
    StandsFrom body position (s :: ss) ↔
      body[position]? = some s ∧ StandsFrom body (position + 1) ss := by
  constructor
  · rintro ⟨rest, hrest⟩
    obtain ⟨hs, htail⟩ := drop_eq_cons_iff.1 hrest.symm
    exact ⟨hs, rest, htail.symm⟩
  · rintro ⟨hs, rest, hrest⟩
    exact ⟨rest, (drop_eq_cons_iff.2 ⟨hs, hrest.symm⟩).symm⟩

@[simp] theorem standsFrom_append {body first second : List Statement} {position : Nat} :
    StandsFrom body position (first ++ second) ↔
      StandsFrom body position first ∧ StandsFrom body (position + first.length) second := by
  induction first generalizing position with
  | nil => simp [standsFrom_nil]
  | cons s first ih =>
    rw [List.cons_append, standsFrom_cons, standsFrom_cons, ih, List.length_cons, and_assoc,
      Nat.add_right_comm, Nat.add_assoc]

/-- A body stands in itself. -/
theorem standsFrom_self (body : List Statement) : StandsFrom body 0 body :=
  List.prefix_refl _

/-! ## Markers are of one sort -/

namespace Statement

variable {s : Statement} {b : Block}

theorem of_opens? (h : s.opens? = some b) : s.closes? = none ∧ s.divides? = none := by
  cases s <;> simp [opens?, closes?, divides?] at h ⊢

theorem of_divides? (h : s.divides? = some b) : s.opens? = none ∧ s.closes? = none := by
  cases s <;> simp [opens?, closes?, divides?] at h ⊢

theorem of_closes? (h : s.closes? = some b) : s.opens? = none ∧ s.divides? = none := by
  cases s <;> simp [opens?, closes?, divides?] at h ⊢

theorem of_isMarker (h : s.isMarker = false) :
    s.opens? = none ∧ s.divides? = none ∧ s.closes? = none := by
  simpa [isMarker, Option.isSome_eq_false_iff, and_assoc] using h

theorem isMarker_breakLoop : Statement.breakLoop.isMarker = false :=
  rfl

end Statement

/-! ## Scans over trees -/

namespace Block

/-- The scan for partners of a family passes over the statements. -/
def Passes (b : Block) (ss : List Statement) : Prop :=
  ∀ rest position depth middle, b.spanFrom? (ss ++ rest) position depth middle
    = b.spanFrom? rest (position + ss.length) depth middle

/-- The scans for partners and for the closer alone end at the same place. -/
theorem closerFrom?_eq_map (b : Block) (after : List Statement) (position depth : Nat)
    (middle : Option Nat) :
    b.closerFrom? after position depth
      = (b.spanFrom? after position depth middle).map Span.stop := by
  induction after generalizing position depth middle with
  | nil => rfl
  | cons s rest ih =>
    unfold closerFrom? spanFrom?
    split
    · exact ih _ _ _
    · split
      · cases depth with
        | zero => rfl
        | succ depth => exact ih _ _ _
      · split
        · exact ih _ _ _
        · exact ih _ _ _

/-! ### One statement -/

section

variable {b : Block} {s : Statement} {rest : List Statement} {position depth : Nat}
  {middle : Option Nat}

theorem spanFrom?_opener (h : s.opens? = some b) :
    b.spanFrom? (s :: rest) position depth middle
      = b.spanFrom? rest (position + 1) (depth + 1) middle := by
  rw [spanFrom?.eq_def]
  exact if_pos h

theorem spanFrom?_inner_closer (h : s.closes? = some b) :
    b.spanFrom? (s :: rest) position (depth + 1) middle
      = b.spanFrom? rest (position + 1) depth middle := by
  have hopens : s.opens? ≠ some b := by simp [(Statement.of_closes? h).1]
  rw [spanFrom?, if_neg hopens, if_pos h]

theorem spanFrom?_closer (h : s.closes? = some b) :
    b.spanFrom? (s :: rest) position 0 middle = some ⟨middle, position⟩ := by
  have hopens : s.opens? ≠ some b := by simp [(Statement.of_closes? h).1]
  rw [spanFrom?, if_neg hopens, if_pos h]

theorem spanFrom?_middle_marker (h : s.divides? = some b) :
    b.spanFrom? (s :: rest) position 0 none
      = b.spanFrom? rest (position + 1) 0 (some position) := by
  have hopens : s.opens? ≠ some b := by simp [(Statement.of_divides? h).1]
  have hcloses : s.closes? ≠ some b := by simp [(Statement.of_divides? h).2]
  rw [spanFrom?, if_neg hopens, if_neg hcloses, if_pos ⟨rfl, rfl, h⟩]

/-- Markers of blocks inside and of other families do not count. -/
theorem spanFrom?_other (hopens : s.opens? ≠ some b) (hcloses : s.closes? ≠ some b)
    (hdivides : depth ≠ 0 ∨ s.divides? ≠ some b) :
    b.spanFrom? (s :: rest) position depth middle
      = b.spanFrom? rest (position + 1) depth middle := by
  have hmiddle : ¬(depth = 0 ∧ middle = none ∧ s.divides? = some b) := by
    rintro ⟨hdepth, -, hd⟩
    exact hdivides.elim (· hdepth) (· hd)
  rw [spanFrom?.eq_def]
  simp only [if_neg hopens, if_neg hcloses, if_neg hmiddle]

end

/-! ### Whole blocks -/

namespace Passes

variable {b b' : Block} {first second : List Statement}

theorem append (hfirst : b.Passes first) (hsecond : b.Passes second) :
    b.Passes (first ++ second) := by
  intro rest position depth middle
  rw [List.append_assoc, hfirst, hsecond, List.length_append, Nat.add_assoc]

theorem plain {s : Statement} (h : s.isMarker = false) : b.Passes [s] := by
  intro rest position depth middle
  obtain ⟨hopens, hdivides, hcloses⟩ := Statement.of_isMarker h
  exact spanFrom?_other (by simp [hopens]) (by simp [hcloses]) (Or.inr (by simp [hdivides]))

/-- A block passes when its inside does. -/
theorem block {o c : Statement} (ho : o.opens? = some b') (hc : c.closes? = some b')
    (hinside : b.Passes first) : b.Passes (o :: (first ++ [c])) := by
  intro rest position depth middle
  rw [List.cons_append, List.append_assoc]
  have hlength : position + (o :: (first ++ [c])).length = position + 1 + first.length + 1 := by
    simp only [List.length_cons, List.length_append, List.length_nil]
    omega
  rw [hlength]
  by_cases hb : b' = b
  · subst hb
    rw [spanFrom?_opener ho, hinside, List.singleton_append, spanFrom?_inner_closer hc]
  · have hne : some b' ≠ some b := by simpa using hb
    obtain ⟨hoc, hod⟩ := Statement.of_opens? ho
    obtain ⟨hco, hcd⟩ := Statement.of_closes? hc
    rw [spanFrom?_other (ho ▸ hne) (by simp [hoc]) (Or.inr (by simp [hod])), hinside,
      List.singleton_append, spanFrom?_other (by simp [hco]) (hc ▸ hne) (Or.inr (by simp [hcd]))]

/-- A block in two parts passes when both do. -/
theorem split {o d c : Statement} (ho : o.opens? = some b') (hd : d.divides? = some b')
    (hc : c.closes? = some b') (hfirst : b.Passes first) (hsecond : b.Passes second) :
    b.Passes (o :: (first ++ d :: (second ++ [c]))) := by
  intro rest position depth middle
  have hlength : position + (o :: (first ++ d :: (second ++ [c]))).length
      = position + 1 + first.length + 1 + second.length + 1 := by
    simp only [List.length_cons, List.length_append, List.length_nil]
    omega
  rw [hlength]
  simp only [List.cons_append, List.append_assoc, List.nil_append]
  obtain ⟨hdo, hdc⟩ := Statement.of_divides? hd
  by_cases hb : b' = b
  · subst hb
    -- Inside of the block the depth is not zero, so its middle does not count.
    rw [spanFrom?_opener ho, hfirst,
      spanFrom?_other (by simp [hdo]) (by simp [hdc]) (Or.inl (Nat.succ_ne_zero _)), hsecond,
      spanFrom?_inner_closer hc]
  · have hne : some b' ≠ some b := by simpa using hb
    obtain ⟨hoc, hod⟩ := Statement.of_opens? ho
    obtain ⟨hco, hcd⟩ := Statement.of_closes? hc
    rw [spanFrom?_other (ho ▸ hne) (by simp [hoc]) (Or.inr (by simp [hod])), hfirst,
      spanFrom?_other (by simp [hdo]) (by simp [hdc]) (Or.inr (hd ▸ hne)), hsecond,
      spanFrom?_other (by simp [hco]) (hc ▸ hne) (Or.inr (by simp [hcd]))]

end Passes

end Block

/-- **The scan of every family passes over the statements of a tree.** -/
theorem Tree.passes (b : Block) (t : Tree) : b.Passes t.statements := by
  induction t with
  | skip =>
    intro rest position depth middle
    rfl
  | plain s hplain => exact .plain hplain
  | seq first second ihfirst ihsecond => exact ihfirst.append ihsecond
  | ifThen cond yes ih => exact .block rfl rfl ih
  | ifElse cond yes no ihyes ihno => exact .split rfl rfl rfl ihyes ihno
  | loop l body ih => exact .block l.opens?_opener l.closes?_closer ih
  | tryOnly body ih => exact .block rfl rfl ih
  | tryCatch body var handler ihbody ihhandler => exact .split rfl rfl rfl ihbody ihhandler

/-! ## Partners in a tree -/

namespace Block

variable {b : Block} {body first second : List Statement} {position : Nat} {o d c : Statement}

/-- The opener of an undivided block finds its closer. -/
theorem spanOf_block (ho : o.opens? = some b) (hc : c.closes? = some b) (hfirst : b.Passes first)
    (hat : StandsFrom body position (o :: (first ++ [c]))) :
    spanOf body position = .ok ⟨none, position + 1 + first.length⟩ := by
  obtain ⟨hopener, rest, hrest⟩ := standsFrom_cons.1 hat
  have hspan : b.spanFrom? (body.drop (position + 1)) (position + 1) 0 none
      = some ⟨none, position + 1 + first.length⟩ := by
    rw [← hrest, List.append_assoc, hfirst, List.singleton_append, spanFrom?_closer hc]
  simp only [spanOf, hopener, ho, hspan]

/-- The opener of a divided block finds its middle and its closer. -/
theorem spanOf_split (ho : o.opens? = some b) (hd : d.divides? = some b) (hc : c.closes? = some b)
    (hfirst : b.Passes first) (hsecond : b.Passes second)
    (hat : StandsFrom body position (o :: (first ++ d :: (second ++ [c])))) :
    spanOf body position
      = .ok ⟨some (position + 1 + first.length),
          position + 1 + first.length + 1 + second.length⟩ := by
  obtain ⟨hopener, rest, hrest⟩ := standsFrom_cons.1 hat
  have hspan : b.spanFrom? (body.drop (position + 1)) (position + 1) 0 none
      = some ⟨some (position + 1 + first.length),
          position + 1 + first.length + 1 + second.length⟩ := by
    rw [← hrest]
    simp only [List.cons_append, List.append_assoc, List.nil_append]
    rw [hfirst, spanFrom?_middle_marker hd, hsecond, spanFrom?_closer hc]
  simp only [spanOf, hopener, ho, hspan]

/-- The middle of a divided block finds its closer. -/
theorem closerOf_split (hd : d.divides? = some b) (hc : c.closes? = some b)
    (hsecond : b.Passes second) (hat : StandsFrom body position (d :: (second ++ [c]))) :
    closerOf body position = .ok (position + 1 + second.length) := by
  obtain ⟨hmiddle, rest, hrest⟩ := standsFrom_cons.1 hat
  have hstop : b.closerFrom? (body.drop (position + 1)) (position + 1) 0
      = some (position + 1 + second.length) := by
    rw [closerFrom?_eq_map b _ _ _ none, ← hrest, List.append_assoc, hsecond,
      List.singleton_append, spanFrom?_closer hc]
    rfl
  simp only [closerOf, hmiddle, hd, hstop]

/-- A block without a middle marker stands at a position, and its opener finds its closer. -/
structure Undivided (body : List Statement) (position : Nat) (o : Statement) (inside : Tree)
    (c : Statement) : Prop where
  opener : body[position]? = some o
  first : StandsFrom body (position + 1) inside.statements
  closer : body[position + 1 + inside.size]? = some c
  span : spanOf body position = .ok ⟨none, position + 1 + inside.size⟩

theorem undivided_of_standsFrom {inside : Tree} (ho : o.opens? = some b) (hc : c.closes? = some b)
    (hat : StandsFrom body position (o :: (inside.statements ++ [c]))) :
    Undivided body position o inside c := by
  obtain ⟨hopener, hrest⟩ := standsFrom_cons.1 hat
  obtain ⟨hfirst, hlast⟩ := standsFrom_append.1 hrest
  exact ⟨hopener, hfirst, (standsFrom_cons.1 hlast).1, spanOf_block ho hc (inside.passes b) hat⟩

/-- A block with a middle marker stands at a position, and its markers find their partners. -/
structure Divided (body : List Statement) (position : Nat) (o : Statement) (inside : Tree)
    (d : Statement) (behind : Tree) (c : Statement) : Prop where
  opener : body[position]? = some o
  first : StandsFrom body (position + 1) inside.statements
  divider : body[position + 1 + inside.size]? = some d
  second : StandsFrom body (position + 1 + inside.size + 1) behind.statements
  closer : body[position + 1 + inside.size + 1 + behind.size]? = some c
  span : spanOf body position = .ok ⟨some (position + 1 + inside.size),
    position + 1 + inside.size + 1 + behind.size⟩
  partner : closerOf body (position + 1 + inside.size)
    = .ok (position + 1 + inside.size + 1 + behind.size)

theorem divided_of_standsFrom {inside behind : Tree} (ho : o.opens? = some b)
    (hd : d.divides? = some b) (hc : c.closes? = some b)
    (hat : StandsFrom body position
      (o :: (inside.statements ++ d :: (behind.statements ++ [c])))) :
    Divided body position o inside d behind c := by
  obtain ⟨hopener, hrest⟩ := standsFrom_cons.1 hat
  obtain ⟨hfirst, hmiddle⟩ := standsFrom_append.1 hrest
  obtain ⟨hdivider, hrest⟩ := standsFrom_cons.1 hmiddle
  obtain ⟨hsecond, hlast⟩ := standsFrom_append.1 hrest
  exact ⟨hopener, hfirst, hdivider, hsecond, (standsFrom_cons.1 hlast).1,
    spanOf_split ho hd hc (inside.passes b) (behind.passes b) hat,
    closerOf_split hd hc (behind.passes b) hmiddle⟩

end Block

end StepScript
