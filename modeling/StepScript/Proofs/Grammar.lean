import StepScript.Proofs.Nesting

/-!
# The grammar of blocks

The bodies that the check of block structure accepts, as a grammar: a body is a sequence of items,
and an item is a plain statement or a block around one or two bodies. Jumps are plain statements
that need a loop around them, at any depth, so the grammar carries along whether there is one.

The check has nothing to say about a program exactly when its body is derived by the grammar
(`structureIssues_eq_nil_iff_isBody`). A derivation is turned into a tree of nested blocks and back,
and trees are what the check is known to accept.
-/

set_option autoImplicit false

namespace StepScript

/-! ## The grammar -/

namespace Grammar

mutual

/-- A sequence of items; `inLoop` says whether a loop stands around it. -/
inductive IsBody : (inLoop : Bool) → List Statement → Prop where
  | empty {inLoop : Bool} : IsBody inLoop []
  | cons {inLoop : Bool} {item rest : List Statement} (hitem : IsItem inLoop item)
      (hrest : IsBody inLoop rest) : IsBody inLoop (item ++ rest)

/-- A plain statement, or a block with its markers. -/
inductive IsItem : (inLoop : Bool) → List Statement → Prop where
  | plain {inLoop : Bool} (s : Statement) (hplain : s.isMarker = false)
      (hjump : s.isJump = true → inLoop = true) : IsItem inLoop [s]
  | ifThen {inLoop : Bool} (cond : String) {yes : List Statement} (hyes : IsBody inLoop yes) :
      IsItem inLoop (.ifThen cond :: (yes ++ [.endIf]))
  | ifElse {inLoop : Bool} (cond : String) {yes no : List Statement} (hyes : IsBody inLoop yes)
      (hno : IsBody inLoop no) :
      IsItem inLoop (.ifThen cond :: (yes ++ .orElse :: (no ++ [.endIf])))
  | forRange {inLoop : Bool} (var start stop : String) {body : List Statement}
      (hbody : IsBody true body) : IsItem inLoop (.forRange var start stop :: (body ++ [.endFor]))
  | forEach {inLoop : Bool} (var iterable : String) {body : List Statement}
      (hbody : IsBody true body) : IsItem inLoop (.forEach var iterable :: (body ++ [.endForEach]))
  | whileLoop {inLoop : Bool} (cond : String) {body : List Statement}
      (hbody : IsBody true body) : IsItem inLoop (.whileLoop cond :: (body ++ [.endWhile]))
  | tryOnly {inLoop : Bool} {body : List Statement} (hbody : IsBody inLoop body) :
      IsItem inLoop (.tryBlock :: (body ++ [.endTry]))
  | tryCatch {inLoop : Bool} (var : String) {body handler : List Statement}
      (hbody : IsBody inLoop body) (hhandler : IsBody inLoop handler) :
      IsItem inLoop (.tryBlock :: (body ++ .catchFault var :: (handler ++ [.endTry])))

end

/-! ## From trees to derivations -/

theorem IsItem.isBody {inLoop : Bool} {item : List Statement} (h : IsItem inLoop item) :
    IsBody inLoop item := by
  have hone : IsBody inLoop (item ++ []) := .cons h .empty
  rwa [List.append_nil] at hone

theorem IsBody.append {inLoop : Bool} {first second : List Statement} (h : IsBody inLoop first)
    (hsecond : IsBody inLoop second) : IsBody inLoop (first ++ second) := by
  -- the recursion is on the derivation of the first part, item by item
  match h with
  | .empty => exact hsecond
  | .cons hitem hrest =>
    rw [List.append_assoc]
    exact .cons hitem (hrest.append hsecond)

/-- The statements of a tree are derived when its jumps stand inside of loops. -/
theorem isBody_of_jumpsInside (t : Tree) {inLoop : Bool} (h : t.jumpsInside inLoop = true) :
    IsBody inLoop t.statements := by
  induction t generalizing inLoop with
  | skip => exact .empty
  | plain s hplain =>
    refine (IsItem.plain s hplain fun hjump => ?_).isBody
    simpa [Tree.jumpsInside, hjump] using h
  | seq first second ihfirst ihsecond =>
    obtain ⟨hfirst, hsecond⟩ := Bool.and_eq_true_iff.1 h
    exact (ihfirst hfirst).append (ihsecond hsecond)
  | ifThen cond yes ih => exact (IsItem.ifThen cond (ih h)).isBody
  | ifElse cond yes no ihyes ihno =>
    obtain ⟨hyes, hno⟩ := Bool.and_eq_true_iff.1 h
    exact (IsItem.ifElse cond (ihyes hyes) (ihno hno)).isBody
  | loop l body ih =>
    cases l with
    | counting var start stop => exact (IsItem.forRange var start stop (ih h)).isBody
    | walking var iterable => exact (IsItem.forEach var iterable (ih h)).isBody
    | guarded cond => exact (IsItem.whileLoop cond (ih h)).isBody
  | tryOnly body ih => exact (IsItem.tryOnly (ih h)).isBody
  | tryCatch body var handler ihbody ihhandler =>
    obtain ⟨hbody, hhandler⟩ := Bool.and_eq_true_iff.1 h
    exact (IsItem.tryCatch var (ihbody hbody) (ihhandler hhandler)).isBody

/-! ## From derivations to trees -/

/-- A tree spells the statements, and its jumps stand inside of loops. -/
def HasTree (inLoop : Bool) (body : List Statement) : Prop :=
  ∃ t : Tree, t.statements = body ∧ t.jumpsInside inLoop = true

mutual

theorem IsBody.hasTree {inLoop : Bool} {body : List Statement} (h : IsBody inLoop body) :
    HasTree inLoop body := by
  match h with
  | .empty => exact ⟨.skip, rfl, rfl⟩
  | .cons hitem hrest =>
    obtain ⟨first, rfl, hfirst⟩ := hitem.hasTree
    obtain ⟨second, rfl, hsecond⟩ := hrest.hasTree
    exact ⟨.seq first second, rfl, by simp [Tree.jumpsInside, hfirst, hsecond]⟩

theorem IsItem.hasTree {inLoop : Bool} {item : List Statement} (h : IsItem inLoop item) :
    HasTree inLoop item := by
  match h with
  | .plain s hplain hjump =>
    refine ⟨.plain s hplain, rfl, ?_⟩
    cases hs : s.isJump with
    | false => simp [Tree.jumpsInside, hs]
    | true => simp [Tree.jumpsInside, hjump hs]
  | .ifThen cond hyes =>
    obtain ⟨yes, rfl, hjumps⟩ := hyes.hasTree
    exact ⟨.ifThen cond yes, rfl, hjumps⟩
  | .ifElse cond hyes hno =>
    obtain ⟨yes, rfl, hfirst⟩ := hyes.hasTree
    obtain ⟨no, rfl, hsecond⟩ := hno.hasTree
    exact ⟨.ifElse cond yes no, rfl, by simp [Tree.jumpsInside, hfirst, hsecond]⟩
  | .forRange var start stop hbody =>
    obtain ⟨body, rfl, hjumps⟩ := hbody.hasTree
    exact ⟨.loop (.counting var start stop) body, rfl, hjumps⟩
  | .forEach var iterable hbody =>
    obtain ⟨body, rfl, hjumps⟩ := hbody.hasTree
    exact ⟨.loop (.walking var iterable) body, rfl, hjumps⟩
  | .whileLoop cond hbody =>
    obtain ⟨body, rfl, hjumps⟩ := hbody.hasTree
    exact ⟨.loop (.guarded cond) body, rfl, hjumps⟩
  | .tryOnly hbody =>
    obtain ⟨body, rfl, hjumps⟩ := hbody.hasTree
    exact ⟨.tryOnly body, rfl, hjumps⟩
  | .tryCatch var hbody hhandler =>
    obtain ⟨body, rfl, hfirst⟩ := hbody.hasTree
    obtain ⟨handler, rfl, hsecond⟩ := hhandler.hasTree
    exact ⟨.tryCatch body var handler, rfl, by simp [Tree.jumpsInside, hfirst, hsecond]⟩

end

theorem hasTree_iff_isBody {inLoop : Bool} {body : List Statement} :
    HasTree inLoop body ↔ IsBody inLoop body := by
  constructor
  · rintro ⟨t, rfl, hjumps⟩
    exact isBody_of_jumpsInside t hjumps
  · exact IsBody.hasTree

end Grammar

/-! ## Programs -/

/-- **The check of block structure accepts exactly the block grammar.** -/
theorem Program.structureIssues_eq_nil_iff_isBody (p : Program) :
    p.structureIssues = [] ↔ Grammar.IsBody false p.body := by
  rw [← Grammar.hasTree_iff_isBody]
  constructor
  · intro h
    obtain ⟨t, ht⟩ := exists_tree h
    exact ⟨t, ht, (structureIssues_of_tree ht).1 h⟩
  · rintro ⟨t, ht, hjumps⟩
    exact (structureIssues_of_tree ht).2 hjumps

end StepScript
