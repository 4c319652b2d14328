import StepScript.Program.Structure
import StepScript.Proofs.Tree

/-!
# Well-nested programs

The check of block structure has nothing to say about a program exactly when its statements are
spelled by a tree whose jumps stand inside of loops: such a tree exists (`exists_tree`), and any
tree that spells the program will do (`structureIssues_of_tree`).

That a tree passes is shown by induction on it: its statements leave the open blocks as they were.
The other way round, the statements up to the first marker that belongs to the innermost open block
are read as a tree (`readsTree_of_issues`), by induction on their number.
-/

set_option autoImplicit false

namespace StepScript

namespace Structure

/-! ## One statement -/

section

variable {s : Statement} {b : Block} {line : Nat} {rest : List (Statement × Nat)}
  {opened : List OpenBlock}

/-- An opener is always in its place. -/
theorem issues_opener (h : s.opens? = some b) :
    issues ((s, line) :: rest) opened = issues rest (⟨b, line, false⟩ :: opened) := by
  simp [issues, pass, h]

/-- A middle marker is in its place in an undivided block of its family. -/
theorem issues_middle {top : OpenBlock} {outer : List OpenBlock} (h : s.divides? = some b) :
    issues ((s, line) :: rest) (top :: outer) = [] ↔
      top.block = b ∧ top.divided = false ∧
        issues rest ({ top with divided := true } :: outer) = [] := by
  obtain ⟨hopens, hcloses⟩ := Statement.of_divides? h
  by_cases hblock : top.block = b
  · cases hdivided : top.divided <;> simp [issues, pass, divide, h, hopens, hblock, hdivided]
  · simp [issues, pass, divide, h, hopens, hblock]

/-- A closer is in its place where the innermost block is of its family. -/
theorem issues_closer {top : OpenBlock} {outer : List OpenBlock} (h : s.closes? = some b) :
    issues ((s, line) :: rest) (top :: outer) = [] ↔ top.block = b ∧ issues rest outer = [] := by
  obtain ⟨hopens, hdivides⟩ := Statement.of_closes? h
  by_cases hblock : top.block = b
  · simp [issues, pass, close, h, hopens, hdivides, hblock]
  · -- The innermost block would be closed together with the one that the closer belongs to.
    simp only [issues, pass, h, hopens, hdivides, hblock, false_and, iff_false]
    unfold close
    split <;> simp [hblock]

/-- Outside of all blocks there is no place for a middle marker or a closer. -/
theorem exists_top (h : s.divides? = some b ∨ s.closes? = some b)
    (hissues : issues ((s, line) :: rest) opened = []) : ∃ top outer, opened = top :: outer := by
  cases opened with
  | nil =>
    rcases h with h | h
    · simp [issues, pass, divide, h, (Statement.of_divides? h).1] at hissues
    · simp [issues, pass, close, h, (Statement.of_closes? h).1, (Statement.of_closes? h).2]
        at hissues
  | cons top outer => exact ⟨top, outer, rfl⟩

/-- Other statements are in their place, but for jumps outside of all loops. -/
theorem issues_plain (h : s.isMarker = false) :
    issues ((s, line) :: rest) opened = [] ↔
      (!s.isJump || opened.any fun o => o.block.isLoop) = true ∧ issues rest opened = [] := by
  obtain ⟨hopens, hdivides, hcloses⟩ := Statement.of_isMarker h
  cases hjump : s.isJump <;> cases hloop : opened.any (fun o => o.block.isLoop) <;>
    simp [issues, pass, hopens, hdivides, hcloses, hjump, hloop]

end

/-! ## Trees pass the check -/

section

variable {b : Block} {o d c : Statement} {first second : Tree} {rest l : List (Statement × Nat)}
  {opened : List OpenBlock} {inLoop : Bool}

/-- The statements of the tree have no issue but jumps outside of loops, and leave the open blocks
    as they were. -/
def Clean (t : Tree) : Prop :=
  ∀ (l rest : List (Statement × Nat)) (opened : List OpenBlock), l.map Prod.fst = t.statements →
    (issues (l ++ rest) opened = [] ↔
      t.jumpsInside (opened.any fun o => o.block.isLoop) = true ∧ issues rest opened = [])

/-- A block is clean when its inside is. -/
theorem issues_block (ho : o.opens? = some b) (hc : c.closes? = some b) (hfirst : Clean first)
    (hl : l.map Prod.fst = o :: (first.statements ++ [c])) :
    issues (l ++ rest) opened = [] ↔
      first.jumpsInside (b.isLoop || opened.any fun o => o.block.isLoop) = true ∧
        issues rest opened = [] := by
  obtain ⟨⟨_, line⟩, l', rfl, rfl, hl'⟩ := List.map_eq_cons_iff.1 hl
  obtain ⟨inside, last, rfl, hinside, hlast⟩ := List.map_eq_append_iff.1 hl'
  obtain ⟨⟨_, stop⟩, rfl, rfl⟩ := List.map_eq_singleton_iff.1 hlast
  rw [List.cons_append, List.append_assoc, issues_opener ho, hfirst _ _ _ hinside,
    List.singleton_append, issues_closer hc]
  simp

/-- A block in two parts is clean when both are. -/
theorem issues_split (ho : o.opens? = some b) (hd : d.divides? = some b) (hc : c.closes? = some b)
    (hloop : b.isLoop = false) (hfirst : Clean first) (hsecond : Clean second)
    (hl : l.map Prod.fst = o :: (first.statements ++ d :: (second.statements ++ [c]))) :
    issues (l ++ rest) opened = [] ↔
      (first.jumpsInside (opened.any fun o => o.block.isLoop)
        && second.jumpsInside (opened.any fun o => o.block.isLoop)) = true ∧
        issues rest opened = [] := by
  obtain ⟨⟨_, line⟩, l₁, rfl, rfl, hl₁⟩ := List.map_eq_cons_iff.1 hl
  obtain ⟨inside, l₂, rfl, hinside, hl₂⟩ := List.map_eq_append_iff.1 hl₁
  obtain ⟨⟨_, middle⟩, l₃, rfl, rfl, hl₃⟩ := List.map_eq_cons_iff.1 hl₂
  obtain ⟨inside', last, rfl, hinside', hlast⟩ := List.map_eq_append_iff.1 hl₃
  obtain ⟨⟨_, stop⟩, rfl, rfl⟩ := List.map_eq_singleton_iff.1 hlast
  rw [List.cons_append, List.append_assoc, issues_opener ho, hfirst _ _ _ hinside,
    List.cons_append, issues_middle hd]
  simp [hsecond _ _ _ hinside', issues_closer hc, hloop, and_assoc]

/-- **Every tree is clean.** -/
theorem clean (t : Tree) : Clean t := by
  induction t with
  | skip =>
    intro l rest opened hl
    obtain rfl : l = [] := List.map_eq_nil_iff.1 hl
    simp [Tree.jumpsInside]
  | plain s hplain =>
    intro l rest opened hl
    obtain ⟨⟨_, line⟩, rfl, rfl⟩ := List.map_eq_singleton_iff.1 hl
    exact issues_plain hplain
  | seq first second ihfirst ihsecond =>
    intro l rest opened hl
    obtain ⟨l₁, l₂, rfl, hl₁, hl₂⟩ := List.map_eq_append_iff.1 hl
    rw [List.append_assoc, ihfirst _ _ _ hl₁, ihsecond _ _ _ hl₂, Tree.jumpsInside,
      Bool.and_eq_true, and_assoc]
  | ifThen cond yes ih => exact fun l rest opened => issues_block (b := .ifThen) rfl rfl ih
  | ifElse cond yes no ihyes ihno =>
    exact fun l rest opened => issues_split rfl rfl rfl rfl ihyes ihno
  | loop k body ih =>
    intro l rest opened hl
    have hblock : issues (l ++ rest) opened = [] ↔ _ ∧ issues rest opened = [] :=
      issues_block k.opens?_opener k.closes?_closer ih hl
    rwa [k.isLoop_block, Bool.true_or] at hblock
  | tryOnly body ih => exact fun l rest opened => issues_block (b := .tryBlock) rfl rfl ih
  | tryCatch body var handler ihbody ihhandler =>
    exact fun l rest opened => issues_split rfl rfl rfl rfl ihbody ihhandler

end

/-! ## What passes the check is a tree -/

/-- Statements that an opener and a closer enclose. -/
theorem exists_tree_block {o c : Statement} {b : Block} (ho : o.opens? = some b)
    (hc : c.closes? = some b) (t : Tree) :
    ∃ t' : Tree, t'.statements = o :: (t.statements ++ [c]) := by
  cases o with
  | ifThen cond => cases ho; cases c <;> simp [Statement.closes?] at hc; exact ⟨.ifThen cond t, rfl⟩
  | forRange var start stop =>
    cases ho; cases c <;> simp [Statement.closes?] at hc
    exact ⟨.loop (.counting var start stop) t, rfl⟩
  | forEach var iterable =>
    cases ho; cases c <;> simp [Statement.closes?] at hc
    exact ⟨.loop (.walking var iterable) t, rfl⟩
  | whileLoop cond =>
    cases ho; cases c <;> simp [Statement.closes?] at hc
    exact ⟨.loop (.guarded cond) t, rfl⟩
  | tryBlock => cases ho; cases c <;> simp [Statement.closes?] at hc; exact ⟨.tryOnly t, rfl⟩
  | _ => simp [Statement.opens?] at ho

/-- Statements that an opener, a middle marker and a closer enclose. -/
theorem exists_tree_split {o d c : Statement} {b : Block} (ho : o.opens? = some b)
    (hd : d.divides? = some b) (hc : c.closes? = some b) (t t' : Tree) :
    ∃ t'' : Tree, t''.statements = o :: (t.statements ++ d :: (t'.statements ++ [c])) := by
  cases d with
  | orElse =>
    cases hd; cases o <;> simp [Statement.opens?] at ho
    cases c <;> simp [Statement.closes?] at hc
    exact ⟨.ifElse _ t t', rfl⟩
  | catchFault var =>
    cases hd; cases o <;> simp [Statement.opens?] at ho
    cases c <;> simp [Statement.closes?] at hc
    exact ⟨.tryCatch t var t', rfl⟩
  | _ => simp [Statement.divides?] at hd

/-- The statements start with a marker that belongs to the innermost open block. -/
def Returns (l : List (Statement × Nat)) (opened : List OpenBlock) : Prop :=
  ∃ s line rest top outer, l = (s, line) :: rest ∧ opened = top :: outer ∧
    (s.closes? = some top.block ∨ s.divides? = some top.block ∧ top.divided = false)

/-- The statements are read as a tree, up to the end or to a marker of the block around them. -/
def ReadsTree (l : List (Statement × Nat)) (opened : List OpenBlock) : Prop :=
  ∃ (t : Tree) (l₁ l₂ : List (Statement × Nat)), l = l₁ ++ l₂ ∧
    l₁.map Prod.fst = t.statements ∧ issues l₂ opened = [] ∧
    (l₂ = [] ∧ opened = [] ∨ Returns l₂ opened)

/-- A tree in front of one that is read already. -/
theorem ReadsTree.prepend {l l₀ : List (Statement × Nat)} {opened : List OpenBlock} {t : Tree}
    (h₀ : l₀.map Prod.fst = t.statements) (h : ReadsTree l opened) :
    ReadsTree (l₀ ++ l) opened := by
  obtain ⟨t', l₁, l₂, rfl, h₁, hl₂⟩ := h
  refine ⟨.seq t t', l₀ ++ l₁, l₂, (List.append_assoc ..).symm, ?_, hl₂⟩
  rw [List.map_append, h₀, h₁, Tree.statements]

/-- A block is not over before a marker of its own. -/
theorem ReadsTree.returns {l : List (Statement × Nat)} {top : OpenBlock} {outer : List OpenBlock}
    (h : ReadsTree l (top :: outer)) :
    ∃ (t : Tree) (l₁ : List (Statement × Nat)) (s : Statement) (line : Nat)
      (rest : List (Statement × Nat)), l = l₁ ++ (s, line) :: rest ∧
      l₁.map Prod.fst = t.statements ∧ issues ((s, line) :: rest) (top :: outer) = [] ∧
      (s.closes? = some top.block ∨ s.divides? = some top.block ∧ top.divided = false) := by
  obtain ⟨t, l₁, l₂, rfl, h₁, hl₂, ⟨-, hnone⟩ | ⟨s, line, rest, _, _, rfl, htop, hs⟩⟩ := h
  · cases hnone
  · cases htop
    exact ⟨t, l₁, s, line, rest, rfl, h₁, hl₂, hs⟩

/-- A marker that belongs to the block around it ends the tree before it. -/
theorem readsTree_of_returns {l : List (Statement × Nat)} {opened : List OpenBlock}
    (h : issues l opened = []) (hreturns : Returns l opened) : ReadsTree l opened :=
  ⟨.skip, [], l, rfl, rfl, h, Or.inr hreturns⟩

/-- **Statements without issues are read as a tree.** -/
theorem readsTree_of_issues (l : List (Statement × Nat)) (opened : List OpenBlock)
    (h : issues l opened = []) : ReadsTree l opened := by
  -- What follows a block is shorter than the whole, but not its tail.
  induction hlength : l.length using Nat.strong_induction_on generalizing l opened with
  | _ n ih =>
  subst hlength
  match l with
  | [] =>
    refine ⟨.skip, [], [], rfl, rfl, h, Or.inl ⟨rfl, ?_⟩⟩
    simpa [issues, leftOpen] using h
  | (s, line) :: rest =>
    cases hopens : s.opens? with
    | some b =>
      rw [issues_opener hopens] at h
      obtain ⟨t₁, l₁, s', line', rest', rfl, h₁, hl₂, hcloses | ⟨hdivides, -⟩⟩ :=
        (ih _ (by simp) _ _ h rfl).returns
      · obtain ⟨t, ht⟩ := exists_tree_block hopens hcloses t₁
        obtain ⟨-, hrest⟩ := (issues_closer hcloses).1 hl₂
        have hwhole : ReadsTree (((s, line) :: (l₁ ++ [(s', line')])) ++ rest') opened :=
          (ih _ (by simp; omega) _ _ hrest rfl).prepend (t := t) (by simp [ht, h₁])
        simpa using hwhole
      · obtain ⟨-, -, hsecond⟩ := (issues_middle hdivides).1 hl₂
        obtain ⟨t₂, l₃, c, stop, rest'', rfl, h₃, hl₄, hcloses | ⟨-, hdivided⟩⟩ :=
          (ih _ (by simp; omega) _ _ hsecond rfl).returns
        · obtain ⟨t, ht⟩ := exists_tree_split hopens hdivides hcloses t₁ t₂
          obtain ⟨-, hrest⟩ := (issues_closer hcloses).1 hl₄
          have hwhole : ReadsTree
              (((s, line) :: (l₁ ++ (s', line') :: (l₃ ++ [(c, stop)]))) ++ rest'') opened :=
            (ih _ (by simp; omega) _ _ hrest rfl).prepend (t := t) (by simp [ht, h₁, h₃])
          simpa using hwhole
        · cases hdivided
    | none =>
      cases hdivides : s.divides? with
      | some b =>
        obtain ⟨top, outer, rfl⟩ := exists_top (Or.inl hdivides) h
        obtain ⟨rfl, hdivided, -⟩ := (issues_middle hdivides).1 h
        exact readsTree_of_returns h
          ⟨s, line, rest, top, outer, rfl, rfl, Or.inr ⟨hdivides, hdivided⟩⟩
      | none =>
        cases hcloses : s.closes? with
        | some b =>
          obtain ⟨top, outer, rfl⟩ := exists_top (Or.inr hcloses) h
          obtain ⟨rfl, -⟩ := (issues_closer hcloses).1 h
          exact readsTree_of_returns h ⟨s, line, rest, top, outer, rfl, rfl, Or.inl hcloses⟩
        | none =>
          have hplain : s.isMarker = false := by
            simp [Statement.isMarker, hopens, hdivides, hcloses]
          obtain ⟨-, hrest⟩ := (issues_plain hplain).1 h
          have hwhole : ReadsTree ([(s, line)] ++ rest) opened :=
            (ih _ (by simp) _ _ hrest rfl).prepend (t := .plain s hplain) rfl
          exact hwhole

end Structure

/-! ## Programs -/

namespace Program

variable {p : Program}

theorem map_fst_withLines (p : Program) (position : Nat) (body : List Statement) :
    (p.withLines position body).map Prod.fst = body := by
  induction body generalizing position with
  | nil => rfl
  | cons s body ih => rw [withLines, List.map_cons, ih]

/-- A program that a tree spells has no issues exactly when the jumps stand inside of loops. -/
theorem structureIssues_of_tree {t : Tree} (ht : t.statements = p.body) :
    p.structureIssues = [] ↔ t.jumpsInside false = true := by
  have hclean := Structure.clean t (p.withLines 0 p.body) [] []
    ((p.map_fst_withLines 0 p.body).trans ht.symm)
  rw [List.append_nil] at hclean
  rw [structureIssues, hclean]
  simp [Structure.issues, Structure.leftOpen]

/-- A program without issues is spelled by a tree. -/
theorem exists_tree (h : p.structureIssues = []) : ∃ t : Tree, t.statements = p.body := by
  obtain ⟨t, l₁, l₂, hl, h₁, -, ⟨rfl, -⟩ | ⟨_, _, _, _, _, _, hnone, _⟩⟩ :=
    Structure.readsTree_of_issues _ _ h
  · rw [List.append_nil] at hl
    exact ⟨t, by rw [← h₁, ← hl, map_fst_withLines]⟩
  · cases hnone

end Program

end StepScript
