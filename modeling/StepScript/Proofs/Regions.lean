import Mathlib.Tactic.Simps.Basic
import StepScript.Proofs.Tree

/-!
# Regions of blocks

Where the blocks of a tree stand in a program. The regions come in the order of their openers, and
two of them are apart or one lies in a part of the other (`pairwise_regions`); the partners that the
forward scans find are those of the region (`regions_sound`), every marker belongs to a region
(`exists_region_of_isMarker`), and a jump stands in the region of a loop (`exists_loop_of_isJump`).

A position is covered by a region while its block is active there. The part of a protected block
after its middle handles faults of the first part and is not covered.
-/

set_option autoImplicit false

namespace StepScript

/-! ## Regions -/

/-- A block as it stands in a program: its family, and the positions of its markers. -/
structure Region where
  block : Block
  start : Nat
  middle : Option Nat
  stop : Nat
deriving DecidableEq

namespace Region

/-- The region of a block without a middle marker around a number of statements. -/
@[simps] def undivided (b : Block) (position first : Nat) : Region :=
  ⟨b, position, none, position + 1 + first⟩

/-- The region of a block with a middle marker between two numbers of statements. -/
@[simps] def divided (b : Block) (position first second : Nat) : Region :=
  ⟨b, position, some (position + 1 + first), position + 1 + first + 1 + second⟩

/-- The marker that ends the first part: the middle, else the closer. -/
def last (r : Region) : Nat :=
  r.middle.getD r.stop

/-- The position lies after the opener and not after the first part. -/
def covers (r : Region) (position : Nat) : Bool :=
  r.start < position && position ≤ r.last

@[simp] theorem covers_iff {r : Region} {position : Nat} :
    r.covers position = true ↔ r.start < position ∧ position ≤ r.last := by
  simp [covers]

@[simp] theorem last_undivided (b : Block) (position first : Nat) :
    (undivided b position first).last = position + 1 + first :=
  rfl

@[simp] theorem last_divided (b : Block) (position first second : Nat) :
    (divided b position first second).last = position + 1 + first :=
  rfl

/-- The region lies in one of the parts of another one. -/
structure Within (inner outer : Region) : Prop where
  start_lt : outer.start < inner.start
  stop_lt : inner.stop < outer.stop
  part : inner.stop < outer.last ∨ outer.last < inner.start

/-- A region that is opened after another one lies behind it or in one of its parts. -/
def Precedes (r r' : Region) : Prop :=
  r.stop < r'.start ∨ r'.Within r

section

variable {r : Region} {b : Block} {position first second : Nat}

theorem within_undivided (hlow : position + 1 ≤ r.start) (hhigh : r.stop < position + 1 + first) :
    r.Within (undivided b position first) where
  start_lt := hlow
  stop_lt := hhigh
  part := Or.inl hhigh

theorem within_divided (hlow : position + 1 ≤ r.start) (hhigh : r.stop < position + 1 + first) :
    r.Within (divided b position first second) where
  start_lt := hlow
  stop_lt := by
    simp only [divided_stop]
    omega
  part := Or.inl hhigh

theorem within_divided_second (hlow : position + 1 + first + 1 ≤ r.start)
    (hhigh : r.stop < position + 1 + first + 1 + second) :
    r.Within (divided b position first second) where
  start_lt := by
    simp only [divided_start]
    omega
  stop_lt := hhigh
  part := Or.inr hlow

end

/-- The markers of a region stand in a program, and the scans for partners find them. -/
structure Sound (body : List Statement) (r : Region) : Prop where
  start_lt : r.start < r.last
  last_le : r.last ≤ r.stop
  opens : ∃ s, body[r.start]? = some s ∧ s.opens? = some r.block
  span : Block.spanOf body r.start = .ok ⟨r.middle, r.stop⟩
  divides : ∀ m, r.middle = some m → Block.closerOf body m = .ok r.stop ∧
    ∃ s, body[m]? = some s ∧ s.divides? = some r.block
  closes : ∃ s, body[r.stop]? = some s ∧ s.closes? = some r.block

section

variable {body : List Statement} {b : Block} {position : Nat} {o d c : Statement}
  {first second : List Statement}

theorem sound_undivided (ho : o.opens? = some b) (hc : c.closes? = some b)
    (hfirst : b.Passes first) (hat : StandsFrom body position (o :: (first ++ [c]))) :
    Sound body (undivided b position first.length) where
  start_lt := by simp only [last_undivided, undivided_start]; omega
  last_le := Nat.le_refl _
  opens := ⟨o, (standsFrom_cons.1 hat).1, ho⟩
  span := Block.spanOf_block ho hc hfirst hat
  divides := by
    intro m hm
    cases hm
  closes := by
    obtain ⟨-, -, hc'⟩ : _ ∧ _ ∧ StandsFrom body _ [c] := by
      simpa only [standsFrom_cons, standsFrom_append] using hat
    exact ⟨c, (standsFrom_cons.1 hc').1, hc⟩

theorem sound_divided (ho : o.opens? = some b) (hd : d.divides? = some b)
    (hc : c.closes? = some b) (hfirst : b.Passes first) (hsecond : b.Passes second)
    (hat : StandsFrom body position (o :: (first ++ d :: (second ++ [c])))) :
    Sound body (divided b position first.length second.length) := by
  obtain ⟨hopener, hrest⟩ := standsFrom_cons.1 hat
  obtain ⟨-, hmiddle⟩ := standsFrom_append.1 hrest
  obtain ⟨hdivider, hrest⟩ := standsFrom_cons.1 hmiddle
  obtain ⟨-, hlast⟩ := standsFrom_append.1 hrest
  refine ⟨?_, ?_, ⟨o, hopener, ho⟩, Block.spanOf_split ho hd hc hfirst hsecond hat, ?_,
    ⟨c, (standsFrom_cons.1 hlast).1, hc⟩⟩
  · simp only [last_divided, divided_start]
    omega
  · simp only [last_divided, divided_stop]
    omega
  · intro m hm
    cases hm
    exact ⟨Block.closerOf_split hd hc hsecond hmiddle, d, hdivider, hd⟩

end

end Region

namespace Tree

/-! ## Sizes -/

@[simp] theorem size_skip : skip.size = 0 := rfl

@[simp] theorem size_plain (s : Statement) (hplain : s.isMarker = false) :
    (plain s hplain).size = 1 := rfl

@[simp] theorem size_seq (first second : Tree) :
    (seq first second).size = first.size + second.size := by
  simp [size, statements]

@[simp] theorem size_ifThen (cond : String) (yes : Tree) :
    (ifThen cond yes).size = yes.size + 2 := by
  simp [size, statements]

@[simp] theorem size_ifElse (cond : String) (yes no : Tree) :
    (ifElse cond yes no).size = yes.size + no.size + 3 := by
  simp [size, statements]
  omega

@[simp] theorem size_loop (l : Loop) (body : Tree) : (loop l body).size = body.size + 2 := by
  simp [size, statements]

@[simp] theorem size_tryOnly (body : Tree) : (tryOnly body).size = body.size + 2 := by
  simp [size, statements]

@[simp] theorem size_tryCatch (body : Tree) (var : String) (handler : Tree) :
    (tryCatch body var handler).size = body.size + handler.size + 3 := by
  simp [size, statements]
  omega

/-! ## Regions of a tree -/

/-- The regions of the blocks of a tree that stands at a position, in the order of their openers. -/
def regions (position : Nat) : Tree → List Region
  | .skip => []
  | .plain _ _ => []
  | .seq first second => first.regions position ++ second.regions (position + first.size)
  | .ifThen _ yes => .undivided .ifThen position yes.size :: yes.regions (position + 1)
  | .ifElse _ yes no =>
    .divided .ifThen position yes.size no.size
      :: (yes.regions (position + 1) ++ no.regions (position + 1 + yes.size + 1))
  | .loop l body => .undivided l.block position body.size :: body.regions (position + 1)
  | .tryOnly body => .undivided .tryBlock position body.size :: body.regions (position + 1)
  | .tryCatch body _ handler =>
    .divided .tryBlock position body.size handler.size
      :: (body.regions (position + 1) ++ handler.regions (position + 1 + body.size + 1))

/-- The regions of a tree lie where the tree stands. -/
theorem regions_bounds {t : Tree} {position : Nat} {r : Region} (hr : r ∈ t.regions position) :
    position ≤ r.start ∧ r.stop < position + t.size := by
  induction t generalizing position with
  | skip | plain => cases hr
  | seq first second ihfirst ihsecond =>
    rw [size_seq]
    rcases List.mem_append.1 hr with hr | hr
    · have := ihfirst hr
      omega
    · have := ihsecond hr
      omega
  | ifThen _ first ih | loop _ first ih | tryOnly first ih =>
    rcases List.mem_cons.1 hr with rfl | hr
    · simp only [Region.undivided_start, Region.undivided_stop, size_ifThen, size_loop,
        size_tryOnly]
      omega
    · have := ih hr
      simp only [size_ifThen, size_loop, size_tryOnly]
      omega
  | ifElse _ first second ihfirst ihsecond | tryCatch first _ second ihfirst ihsecond =>
    simp only [size_ifElse, size_tryCatch]
    rcases List.mem_cons.1 hr with rfl | hr
    · simp only [Region.divided_start, Region.divided_stop]
      omega
    · rcases List.mem_append.1 hr with hr | hr
      · have := ihfirst hr
        omega
      · have := ihsecond hr
        omega

/-- **Regions are nested**: two of them are apart, or one lies in a part of the other. -/
theorem pairwise_regions (t : Tree) (position : Nat) :
    (t.regions position).Pairwise Region.Precedes := by
  induction t generalizing position with
  | skip | plain => exact .nil
  | seq first second ihfirst ihsecond =>
    refine List.pairwise_append.2 ⟨ihfirst _, ihsecond _, fun r hr r' hr' => Or.inl ?_⟩
    have hbefore := (regions_bounds hr).2
    have hafter := (regions_bounds hr').1
    omega
  | ifThen _ first ih | loop _ first ih | tryOnly first ih =>
    refine List.pairwise_cons.2 ⟨fun r hr => Or.inr ?_, ih _⟩
    obtain ⟨hlow, hhigh⟩ := regions_bounds hr
    exact Region.within_undivided hlow hhigh
  | ifElse _ first second ihfirst ihsecond | tryCatch first _ second ihfirst ihsecond =>
    refine List.pairwise_cons.2 ⟨fun r hr => Or.inr ?_, List.pairwise_append.2
      ⟨ihfirst _, ihsecond _, fun r hr r' hr' => Or.inl ?_⟩⟩
    · rcases List.mem_append.1 hr with hr | hr
      · obtain ⟨hlow, hhigh⟩ := regions_bounds hr
        exact Region.within_divided hlow hhigh
      · obtain ⟨hlow, hhigh⟩ := regions_bounds hr
        exact Region.within_divided_second hlow hhigh
    · have hbefore := (regions_bounds hr).2
      have hafter := (regions_bounds hr').1
      omega

/-! ## Markers -/

section

variable {t : Tree} {body : List Statement} {position : Nat}

/-- **The markers of a region are partners**, and the scans find them. -/
theorem regions_sound (hat : StandsFrom body position t.statements) :
    ∀ r ∈ t.regions position, r.Sound body := by
  induction t generalizing position with
  | skip | plain => exact fun r hr => by cases hr
  | seq first second ihfirst ihsecond =>
    obtain ⟨hfirst, hsecond⟩ := standsFrom_append.1 hat
    exact List.forall_mem_append.2 ⟨ihfirst hfirst, ihsecond hsecond⟩
  | ifThen cond first ih =>
    obtain ⟨hfirst, -⟩ := standsFrom_append.1 (standsFrom_cons.1 hat).2
    exact List.forall_mem_cons.2
      ⟨Region.sound_undivided rfl rfl (passes _ first) hat, ih hfirst⟩
  | loop l first ih =>
    obtain ⟨hfirst, -⟩ := standsFrom_append.1 (standsFrom_cons.1 hat).2
    exact List.forall_mem_cons.2
      ⟨Region.sound_undivided l.opens?_opener l.closes?_closer (passes _ first) hat, ih hfirst⟩
  | tryOnly first ih =>
    obtain ⟨hfirst, -⟩ := standsFrom_append.1 (standsFrom_cons.1 hat).2
    exact List.forall_mem_cons.2
      ⟨Region.sound_undivided rfl rfl (passes _ first) hat, ih hfirst⟩
  | ifElse cond first second ihfirst ihsecond =>
    obtain ⟨hfirst, hmiddle⟩ := standsFrom_append.1 (standsFrom_cons.1 hat).2
    obtain ⟨hsecond, -⟩ := standsFrom_append.1 (standsFrom_cons.1 hmiddle).2
    exact List.forall_mem_cons.2
      ⟨Region.sound_divided rfl rfl rfl (passes _ first) (passes _ second) hat,
        List.forall_mem_append.2 ⟨ihfirst hfirst, ihsecond hsecond⟩⟩
  | tryCatch first var second ihfirst ihsecond =>
    obtain ⟨hfirst, hmiddle⟩ := standsFrom_append.1 (standsFrom_cons.1 hat).2
    obtain ⟨hsecond, -⟩ := standsFrom_append.1 (standsFrom_cons.1 hmiddle).2
    exact List.forall_mem_cons.2
      ⟨Region.sound_divided rfl rfl rfl (passes _ first) (passes _ second) hat,
        List.forall_mem_append.2 ⟨ihfirst hfirst, ihsecond hsecond⟩⟩

/-- Every marker belongs to a region. -/
theorem exists_region_of_isMarker {s : Statement} {i : Nat}
    (hat : StandsFrom body position t.statements) (hs : body[i]? = some s)
    (hmarker : s.isMarker = true) (hlow : position ≤ i) (hhigh : i < position + t.size) :
    ∃ r ∈ t.regions position, i = r.start ∨ r.middle = some i ∨ i = r.stop := by
  induction t generalizing position with
  | skip => simp at hhigh; omega
  | plain s' hplain =>
    obtain rfl : i = position := by simp at hhigh; omega
    rw [(standsFrom_cons.1 hat).1, Option.some.injEq] at hs
    simp [← hs, hplain] at hmarker
  | seq first second ihfirst ihsecond =>
    obtain ⟨hfirst, hsecond⟩ := standsFrom_append.1 hat
    rw [size_seq] at hhigh
    by_cases hi : i < position + first.size
    · obtain ⟨r, hr, hplace⟩ := ihfirst hfirst hlow hi
      exact ⟨r, List.mem_append_left _ hr, hplace⟩
    · obtain ⟨r, hr, hplace⟩ := ihsecond hsecond (Nat.le_of_not_lt hi) (by rw [← size]; omega)
      exact ⟨r, List.mem_append_right _ hr, hplace⟩
  | ifThen _ first ih | loop _ first ih | tryOnly first ih =>
    obtain ⟨hfirst, -⟩ := standsFrom_append.1 (standsFrom_cons.1 hat).2
    simp only [size_ifThen, size_loop, size_tryOnly] at hhigh
    by_cases hinside : position < i ∧ i < position + 1 + first.size
    · obtain ⟨r, hr, hplace⟩ := ih hfirst hinside.1 hinside.2
      exact ⟨r, List.mem_cons_of_mem _ hr, hplace⟩
    · refine ⟨_, List.mem_cons_self, ?_⟩
      simp only [Region.undivided_start, Region.undivided_stop]
      omega
  | ifElse _ first second ihfirst ihsecond | tryCatch first _ second ihfirst ihsecond =>
    obtain ⟨hfirst, hmiddle⟩ := standsFrom_append.1 (standsFrom_cons.1 hat).2
    obtain ⟨hsecond, -⟩ := standsFrom_append.1 (standsFrom_cons.1 hmiddle).2
    simp only [size_ifElse, size_tryCatch] at hhigh
    by_cases hinside : position < i ∧ i < position + 1 + first.size
    · obtain ⟨r, hr, hplace⟩ := ihfirst hfirst hinside.1 hinside.2
      exact ⟨r, List.mem_cons_of_mem _ (List.mem_append_left _ hr), hplace⟩
    by_cases hbehind :
        position + 1 + first.size < i ∧ i < position + 1 + first.size + 1 + second.size
    · obtain ⟨r, hr, hplace⟩ := ihsecond hsecond hbehind.1 hbehind.2
      exact ⟨r, List.mem_cons_of_mem _ (List.mem_append_right _ hr), hplace⟩
    · refine ⟨_, List.mem_cons_self, ?_⟩
      simp only [Region.divided_start, Region.divided_middle, Region.divided_stop,
        Option.some.injEq]
      omega

/-- A jump stands in a loop of the tree, or in one around it. -/
theorem exists_loop_of_isJump {s : Statement} {i : Nat} {inLoop : Bool}
    (hat : StandsFrom body position t.statements) (hjumps : t.jumpsInside inLoop = true)
    (hs : body[i]? = some s) (hjump : s.isJump = true) (hlow : position ≤ i)
    (hhigh : i < position + t.size) :
    inLoop = true ∨ ∃ r ∈ t.regions position, r.block.isLoop = true ∧ r.covers i = true := by
  have hmarker : s.isMarker = false := by
    cases s with
    | breakLoop | continueLoop => rfl
    | _ => cases hjump
  have hne {place : Nat} {m : Statement} (hm : body[place]? = some m) (hmarks : m.isMarker = true) :
      i ≠ place := by
    rintro rfl
    rw [hm, Option.some.injEq] at hs
    rw [hs, hmarker] at hmarks
    cases hmarks
  induction t generalizing position inLoop with
  | skip => simp at hhigh; omega
  | plain s' hplain =>
    obtain rfl : i = position := by simp at hhigh; omega
    rw [(standsFrom_cons.1 hat).1, Option.some.injEq] at hs
    refine Or.inl ?_
    simpa [jumpsInside, hs, hjump] using hjumps
  | seq first second ihfirst ihsecond =>
    obtain ⟨hfirst, hsecond⟩ := standsFrom_append.1 hat
    obtain ⟨hjumps₁, hjumps₂⟩ := Bool.and_eq_true_iff.1 hjumps
    rw [size_seq] at hhigh
    by_cases hi : i < position + first.size
    · refine (ihfirst hfirst hjumps₁ hlow hi).imp_right ?_
      rintro ⟨r, hr, hloop⟩
      exact ⟨r, List.mem_append_left _ hr, hloop⟩
    · refine (ihsecond hsecond hjumps₂ (Nat.le_of_not_lt hi) (by rw [← size]; omega)).imp_right ?_
      rintro ⟨r, hr, hloop⟩
      exact ⟨r, List.mem_append_right _ hr, hloop⟩
  | ifThen _ first ih | tryOnly first ih =>
    obtain ⟨hopener, hrest⟩ := standsFrom_cons.1 hat
    obtain ⟨hfirst, hlast⟩ := standsFrom_append.1 hrest
    have hstart := hne hopener rfl
    have hstop : i ≠ position + 1 + first.size := hne (standsFrom_cons.1 hlast).1 rfl
    simp only [size_ifThen, size_tryOnly] at hhigh
    refine (ih hfirst hjumps (by omega) (by omega)).imp_right ?_
    rintro ⟨r, hr, hloop⟩
    exact ⟨r, List.mem_cons_of_mem _ hr, hloop⟩
  | loop l first ih =>
    obtain ⟨hopener, hrest⟩ := standsFrom_cons.1 hat
    obtain ⟨hfirst, hlast⟩ := standsFrom_append.1 hrest
    have hstart := hne hopener (by cases l <;> rfl)
    have hstop : i ≠ position + 1 + first.size :=
      hne (standsFrom_cons.1 hlast).1 (by cases l <;> rfl)
    rw [size_loop] at hhigh
    refine Or.inr ⟨_, List.mem_cons_self, l.isLoop_block, Region.covers_iff.2 ?_⟩
    simp only [Region.undivided_start, Region.last_undivided]
    omega
  | ifElse _ first second ihfirst ihsecond | tryCatch first _ second ihfirst ihsecond =>
    obtain ⟨hopener, hrest⟩ := standsFrom_cons.1 hat
    obtain ⟨hfirst, hmiddle⟩ := standsFrom_append.1 hrest
    obtain ⟨hdivider, hrest⟩ := standsFrom_cons.1 hmiddle
    obtain ⟨hsecond, hlast⟩ := standsFrom_append.1 hrest
    obtain ⟨hjumps₁, hjumps₂⟩ := Bool.and_eq_true_iff.1 hjumps
    have hstart := hne hopener rfl
    have hmiddle : i ≠ position + 1 + first.size := hne hdivider rfl
    have hstop : i ≠ position + 1 + first.size + 1 + second.size :=
      hne (standsFrom_cons.1 hlast).1 rfl
    simp only [size_ifElse, size_tryCatch] at hhigh
    by_cases hi : i < position + 1 + first.size
    · refine (ihfirst hfirst hjumps₁ (by omega) hi).imp_right ?_
      rintro ⟨r, hr, hloop⟩
      exact ⟨r, List.mem_cons_of_mem _ (List.mem_append_left _ hr), hloop⟩
    · refine (ihsecond hsecond hjumps₂ ?_ ?_).imp_right ?_
      · rw [← size]
        omega
      · rw [← size]
        omega
      · rintro ⟨r, hr, hloop⟩
        exact ⟨r, List.mem_cons_of_mem _ (List.mem_append_right _ hr), hloop⟩

end

end Tree

/-! ## Regions of a program -/

/-- The regions lie in a program as the blocks of a tree do. -/
structure Laid (body : List Statement) (rs : List Region) : Prop where
  nested : rs.Pairwise Region.Precedes
  sound : ∀ r ∈ rs, r.Sound body
  marked : ∀ i s, body[i]? = some s → s.isMarker = true →
    ∃ r ∈ rs, i = r.start ∨ r.middle = some i ∨ i = r.stop
  jumps : ∀ i s, body[i]? = some s → s.isJump = true →
    ∃ r ∈ rs, r.block.isLoop = true ∧ r.covers i = true

/-- The regions of a tree lie in the program that it spells. -/
theorem Tree.laid {t : Tree} {body : List Statement} (ht : t.statements = body)
    (hjumps : t.jumpsInside false = true) : Laid body (t.regions 0) := by
  have hat : StandsFrom body 0 t.statements := ht ▸ standsFrom_self t.statements
  have hsize {i : Nat} {s : Statement} (hs : body[i]? = some s) : i < 0 + t.size := by
    rw [Nat.zero_add, size, ht]
    exact (List.getElem?_eq_some_iff.1 hs).1
  refine ⟨t.pairwise_regions 0, regions_sound hat, ?_, ?_⟩
  · exact fun i s hs hmarker => exists_region_of_isMarker hat hs hmarker (Nat.zero_le i) (hsize hs)
  · intro i s hs hjump
    rcases exists_loop_of_isJump hat hjumps hs hjump (Nat.zero_le i) (hsize hs) with hin | hloop
    · cases hin
    · exact hloop

namespace Region.Sound

variable {body : List Statement} {r : Region} {s : Statement} {i : Nat} {b : Block}

/-- A statement that does not open the family of a region does not stand at its opener. -/
theorem ne_start (h : r.Sound body) (hs : body[i]? = some s) (hopens : s.opens? ≠ some r.block) :
    i ≠ r.start := by
  rintro rfl
  obtain ⟨o, ho, hopens'⟩ := h.opens
  rw [hs] at ho
  cases ho
  exact hopens hopens'

theorem ne_stop (h : r.Sound body) (hs : body[i]? = some s) (hcloses : s.closes? ≠ some r.block) :
    i ≠ r.stop := by
  rintro rfl
  obtain ⟨c, hc, hcloses'⟩ := h.closes
  rw [hs] at hc
  cases hc
  exact hcloses hcloses'

theorem ne_middle (h : r.Sound body) (hs : body[i]? = some s)
    (hdivides : s.divides? ≠ some r.block) : r.middle ≠ some i := by
  intro hm
  obtain ⟨-, d, hd, hdivides'⟩ := h.divides i hm
  rw [hs] at hd
  cases hd
  exact hdivides hdivides'

theorem ne_last (h : r.Sound body) (hs : body[i]? = some s)
    (hdivides : s.divides? ≠ some r.block) (hcloses : s.closes? ≠ some r.block) : i ≠ r.last := by
  unfold Region.last
  cases hm : r.middle with
  | none => exact h.ne_stop hs hcloses
  | some m =>
    rintro rfl
    exact h.ne_middle hs hdivides hm

/-- Only blocks of families with a middle marker are divided. -/
theorem middle_of_isLoop (h : r.Sound body) (hloop : r.block.isLoop = true) : r.middle = none := by
  cases hm : r.middle with
  | none => rfl
  | some m =>
    obtain ⟨-, d, -, hdivides⟩ := h.divides m hm
    cases d with
    | orElse | catchFault =>
      rw [← Option.some.inj hdivides] at hloop
      cases hloop
    | _ => cases hdivides

/-- Of the blocks that become active, only a protected one is divided. -/
theorem block_of_middle (h : r.Sound body) (hmiddle : r.middle ≠ none)
    (hblock : r.block ≠ .ifThen) : r.block = .tryBlock := by
  cases hb : r.block with
  | ifThen => exact (hblock hb).elim
  | tryBlock => rfl
  | forRange | forEach | whileLoop =>
    exact (hmiddle (h.middle_of_isLoop (by rw [hb]; rfl))).elim

end Region.Sound

namespace Laid

variable {body : List Statement} {rs : List Region} {r q : Region} {s : Statement} {i : Nat}
  {b : Block}

/-- Two regions are one, or one is opened after the other. -/
theorem related (h : Laid body rs) (hr : r ∈ rs) (hq : q ∈ rs) :
    r = q ∨ r.Precedes q ∨ q.Precedes r := by
  have hnested := h.nested
  exact List.Pairwise.forall_of_forall_of_flip (R := fun r q => r = q ∨ r.Precedes q ∨ q.Precedes r)
    (fun _ _ => Or.inl rfl) (hnested.imp fun hpre => Or.inr (Or.inl hpre))
    (hnested.imp fun hpre => Or.inr (Or.inr hpre)) hr hq

/-- An opener is that of a region of its family. -/
theorem opener (h : Laid body rs) (hs : body[i]? = some s) (hopens : s.opens? = some b) :
    ∃ r ∈ rs, r.start = i ∧ r.block = b := by
  obtain ⟨hdivides, hcloses⟩ := Statement.of_opens? hopens
  obtain ⟨r, hr, hplace⟩ := h.marked i s hs (by simp [Statement.isMarker, hopens])
  have hsound := h.sound r hr
  rcases hplace with rfl | hmiddle | hstop
  · obtain ⟨o, ho, hopens'⟩ := hsound.opens
    rw [hs, Option.some.injEq] at ho
    rw [← ho, hopens, Option.some.injEq] at hopens'
    exact ⟨r, hr, rfl, hopens'.symm⟩
  · exact (hsound.ne_middle hs (by simp [hcloses]) hmiddle).elim
  · exact (hsound.ne_stop hs (by simp [hdivides]) hstop).elim

/-- A middle marker is that of a region of its family. -/
theorem divider (h : Laid body rs) (hs : body[i]? = some s) (hdivides : s.divides? = some b) :
    ∃ r ∈ rs, r.middle = some i ∧ r.block = b := by
  obtain ⟨hopens, hcloses⟩ := Statement.of_divides? hdivides
  obtain ⟨r, hr, hplace⟩ := h.marked i s hs (by simp [Statement.isMarker, hdivides])
  have hsound := h.sound r hr
  rcases hplace with hstart | hmiddle | hstop
  · exact (hsound.ne_start hs (by simp [hopens]) hstart).elim
  · obtain ⟨-, d, hd, hdivides'⟩ := hsound.divides i hmiddle
    rw [hs, Option.some.injEq] at hd
    rw [← hd, hdivides, Option.some.injEq] at hdivides'
    exact ⟨r, hr, hmiddle, hdivides'.symm⟩
  · exact (hsound.ne_stop hs (by simp [hcloses]) hstop).elim

/-- A closer is that of a region of its family. -/
theorem closer (h : Laid body rs) (hs : body[i]? = some s) (hcloses : s.closes? = some b) :
    ∃ r ∈ rs, r.stop = i ∧ r.block = b := by
  obtain ⟨hopens, hdivides⟩ := Statement.of_closes? hcloses
  obtain ⟨r, hr, hplace⟩ := h.marked i s hs (by simp [Statement.isMarker, hcloses])
  have hsound := h.sound r hr
  rcases hplace with hstart | hmiddle | rfl
  · exact (hsound.ne_start hs (by simp [hopens]) hstart).elim
  · exact (hsound.ne_middle hs (by simp [hdivides]) hmiddle).elim
  · obtain ⟨c, hc, hcloses'⟩ := hsound.closes
    rw [hs, Option.some.injEq] at hc
    rw [← hc, hcloses, Option.some.injEq] at hcloses'
    exact ⟨r, hr, rfl, hcloses'.symm⟩

end Laid

end StepScript
