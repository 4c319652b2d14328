import StepScript.Proofs.Rounding
import StepScript.Proofs.ValueOrder

/-!
# Comparing and sorting

Operators compare by `compare?` and `looseEq`, which round every integer to a number first; sorting
compares by `totalCompare`, which does not. What the operators see is the order that sorting would
give the rounded operands (`seenRounded`). So the three agree on a pair exactly when rounding leaves
its placement alone, and they do wherever no integer exceeds 2^53 (`agree_iff`).

Beyond that they part: 2^53 and 2^53 + 1 are equal to the operators and different when sorted
(`not_agree_wide`). In a list such a pair is passed over, and a later item decides.
-/

set_option autoImplicit false

namespace StepScript

namespace Value

/-! ## Values with an order -/

/-- Built from truth values, integers with the property, numbers other than NaN, texts, and lists
    of these. -/
inductive BuiltOf (p : Int → Prop) : Value → Prop where
  | bool (b : Bool) : BuiltOf p (.bool b)
  | int {n : Int64} (h : p n.toInt) : BuiltOf p (.int n)
  | float {x : Binary64} (h : x.isNaN = false) : BuiltOf p (.float x)
  | text (s : String) : BuiltOf p (.text s)
  | list {items : List Value} (h : ∀ v ∈ items, BuiltOf p v) : BuiltOf p (.list items)

/-- A value that compares with some others. -/
def Comparable (v : Value) : Prop :=
  v.BuiltOf fun _ => True

/-- A comparable value whose integers are at most 2^53, so that each of them is a number. -/
def Narrow (v : Value) : Prop :=
  v.BuiltOf fun n => n.natAbs ≤ Nat.pow 2 53

/-- The operators and sorting agree on the pair. -/
def Agree (a b : Value) : Prop :=
  compare? a b = some (totalCompare a b) ∧ (looseEq a b = true ↔ totalCompare a b = .eq)

namespace BuiltOf

variable {p : Int → Prop} {v : Value}

theorem comparable (h : v.BuiltOf p) : v.Comparable := by
  induction h with
  | bool b => exact .bool b
  | int _ => exact .int trivial
  | float h => exact .float h
  | text s => exact .text s
  | list _ ih => exact .list ih

theorem rank_le (h : v.BuiltOf p) : v.rank ≤ 2 := by
  cases h <;> simp [rank]

theorem of_mem_parts (h : v.BuiltOf p) {x : Value} (hx : x ∈ v.parts) : x.BuiltOf p := by
  cases h with
  | list h => exact h x hx
  | _ => cases hx

/-- A number among these has a view as a number that is not NaN. -/
theorem exists_float (h : v.BuiltOf p) (hrank : v.rank = 0) :
    ∃ x, v.float? = some x ∧ x.isNaN = false := by
  cases h with
  | bool b => exact ⟨_, rfl, Binary64.isNaN_ofInt _⟩
  | int _ => exact ⟨_, rfl, Binary64.isNaN_ofInt _⟩
  | float h => exact ⟨_, rfl, h⟩
  | text _ | list _ => cases hrank

end BuiltOf

/-! ## Rounded values -/

mutual

/-- The value with every integer rounded to the nearest number. -/
def rounded : Value → Value
  | .list items => .list (roundedAll items)
  | v =>
    match v.float? with
    | some x => .float x
    | none => v
termination_by structural v => v

/-- Every item rounded. -/
def roundedAll : List Value → List Value
  | [] => []
  | v :: vs => rounded v :: roundedAll vs
termination_by structural vs => vs

end

theorem rounded_of_float? {v : Value} {x : Binary64} (h : v.float? = some x) :
    v.rounded = .float x := by
  cases v with
  | bool _ | int _ | float _ =>
    cases h
    rfl
  | _ => cases h

theorem roundedAll_eq_map (items : List Value) : roundedAll items = items.map rounded := by
  induction items with
  | nil => rfl
  | cons v vs ih => rw [roundedAll, ih, List.map_cons]

theorem parts_rounded (v : Value) : v.rounded.parts = v.parts.map rounded := by
  cases v with
  | list items => exact roundedAll_eq_map items
  | _ => rfl

theorem rank_rounded (v : Value) : v.rounded.rank = v.rank := by
  cases v <;> rfl

/-! ## The order that operators see -/

/-- The order of an orderable pair. -/
def Placement.order? (p : Placement) : Option Ordering :=
  if p.orderable then some p.order else none

theorem Placement.order?_eq_some_iff {p : Placement} {o : Ordering} :
    p.order? = some o ↔ p = ⟨o, true⟩ := by
  cases p with
  | mk order orderable => cases orderable <;> simp [order?]

/-- The operators see a pair as sorting would see it rounded. -/
structure SeenRounded (a b : Value) : Prop where
  compare : compare? a b = (placement a.rounded b.rounded).order?
  equal : looseEq a b = (compare? a b == some .eq)

theorem compare?_of_rank_ne {a b : Value} (h : a.rank ≠ 2 ∨ b.rank ≠ 2) :
    compare? a b = plainCompare? a b := by
  unfold compare?
  split
  · simp [rank] at h
  · rfl

theorem looseEq_of_rank_ne {a b : Value} (ha : a.rank ≠ 3) (h : a.rank ≠ 2 ∨ b.rank ≠ 2) :
    looseEq a b = plainLooseEq a b := by
  unfold looseEq
  split
  · simp [rank] at h
  · exact absurd rfl ha
  · exact absurd rfl ha
  · rfl

theorem rank_of_float? {v : Value} {x : Binary64} (h : v.float? = some x) : v.rank = 0 := by
  cases v with
  | bool _ | int _ | float _ => rfl
  | _ => cases h

theorem rank_eq_of_plainStrictEq {a b : Value} (h : plainStrictEq a b = true) :
    a.rank = b.rank := by
  unfold plainStrictEq at h
  split at h
  all_goals first | rfl | cases h

theorem seenRounded_of_floats {a b : Value} {x y : Binary64} (hx : a.float? = some x)
    (hy : b.float? = some y) (hx' : x.isNaN = false) (hy' : y.isNaN = false) :
    SeenRounded a b := by
  have ha := rank_of_float? hx
  have hcompare : compare? a b = some (compare x.key y.key) := by
    rw [compare?_of_rank_ne (by omega)]
    unfold plainCompare?
    split
    · cases hx
    · simp [hx, hy, Binary64.compare?, hx', hy']
  have hplacement : placement (.float x) (.float y)
      = ⟨if x.equals y then .eq else x.totalCompare y, true⟩ := rfl
  constructor
  · rw [hcompare, rounded_of_float? hx, rounded_of_float? hy, hplacement,
      Binary64.compare_key hx' hy']
    rfl
  · rw [looseEq_of_rank_ne (by omega) (by omega), plainLooseEq, hx, hy, hcompare]
    simp [Binary64.equals, Binary64.compare?, hx', hy']

theorem seenRounded_texts (s t : String) : SeenRounded (.text s) (.text t) where
  compare := rfl
  equal := by
    have hcompare : compare? (.text s) (.text t) = some (Text.orderOf s t) := rfl
    have hequal : looseEq (.text s) (.text t) = (s == t) := rfl
    rw [hcompare, hequal, Bool.eq_iff_iff]
    simp only [beq_iff_eq, Option.some.injEq]
    constructor
    · rintro rfl
      exact Std.ReflCmp.compare_self
    · intro h
      exact String.toList_injective (Text.eq_of_order h)

/-- Values of different ranks do not compare and are not equal. -/
theorem seenRounded_of_rank_ne {a b : Value} (ha : a.rank ≠ 3) (h : a.rank ≠ b.rank) :
    SeenRounded a b := by
  have hne : a.rank ≠ 2 ∨ b.rank ≠ 2 := by omega
  have hfloats (x y : Binary64) (hx : a.float? = some x) : b.float? ≠ some y := by
    intro hy
    exact h ((rank_of_float? hx).trans (rank_of_float? hy).symm)
  have hcompare : compare? a b = none := by
    rw [compare?_of_rank_ne hne]
    unfold plainCompare?
    split
    · exact absurd rfl h
    · split
      · next x y hx hy => exact absurd hy (hfloats x y hx)
      · rfl
  constructor
  · have hshells : orderableShells a.rounded b.rounded = false := by
      simp [orderableShells, rank_rounded, h]
    rw [hcompare, placement_eq, hshells]
    rfl
  · rw [hcompare, looseEq_of_rank_ne ha hne, plainLooseEq]
    split
    · next x y hx hy => exact absurd hy (hfloats x y hx)
    · rw [Bool.eq_false_iff.2 fun heq => h (rank_eq_of_plainStrictEq heq)]
      rfl

theorem compareList?_eq {xs ys : List Value} (h : ∀ x ∈ xs, ∀ y ∈ ys, SeenRounded x y) :
    compareList? xs ys = (placementList (xs.map rounded) (ys.map rounded)).order? := by
  induction xs generalizing ys with
  | nil => cases ys <;> rfl
  | cons x xs ih =>
    cases ys with
    | nil => rfl
    | cons y ys =>
      have hhead := (h x List.mem_cons_self y List.mem_cons_self).compare
      have htail := ih fun x hx y hy =>
        h x (List.mem_cons_of_mem _ hx) y (List.mem_cons_of_mem _ hy)
      simp only [compareList?, List.map_cons, placementList, hhead, htail]
      cases placement x.rounded y.rounded with
      | mk order orderable => cases order <;> cases orderable <;> rfl

theorem looseEqList_eq {xs ys : List Value} (h : ∀ x ∈ xs, ∀ y ∈ ys, SeenRounded x y) :
    looseEqList xs ys = (compareList? xs ys == some .eq) := by
  induction xs generalizing ys with
  | nil => cases ys <;> rfl
  | cons x xs ih =>
    cases ys with
    | nil => rfl
    | cons y ys =>
      have hhead := (h x List.mem_cons_self y List.mem_cons_self).equal
      have htail := ih fun x hx y hy =>
        h x (List.mem_cons_of_mem _ hx) y (List.mem_cons_of_mem _ hy)
      simp only [looseEqList, compareList?, hhead, htail]
      cases compare? x y with
      | none => rfl
      | some o => cases o <;> simp

/-- **The operators see the order that sorting would give the rounded operands.** -/
theorem seenRounded {a b : Value} (ha : a.Comparable) (hb : b.Comparable) : SeenRounded a b := by
  induction a using parts_induction generalizing b with
  | step a ih =>
    have hle := ha.rank_le
    by_cases hrank : a.rank = b.rank
    · by_cases hzero : a.rank = 0
      · obtain ⟨x, hx, hx'⟩ := ha.exists_float hzero
        obtain ⟨y, hy, hy'⟩ := hb.exists_float (hrank ▸ hzero)
        exact seenRounded_of_floats hx hy hx' hy'
      · by_cases hone : a.rank = 1
        · obtain ⟨s, rfl⟩ := exists_text hone
          obtain ⟨t, rfl⟩ := exists_text (hrank ▸ hone)
          exact seenRounded_texts s t
        · have htwo : a.rank = 2 := by omega
          obtain ⟨xs, rfl⟩ := exists_list htwo
          obtain ⟨ys, rfl⟩ := exists_list (hrank ▸ htwo)
          have hitems : ∀ x ∈ xs, ∀ y ∈ ys, SeenRounded x y := by
            intro x hx y hy
            exact ih x hx (ha.of_mem_parts hx) (hb.of_mem_parts hy)
          constructor
          · rw [compare?, rounded, rounded, placement, roundedAll_eq_map, roundedAll_eq_map]
            exact compareList?_eq hitems
          · rw [compare?, looseEq]
            exact looseEqList_eq hitems
    · exact seenRounded_of_rank_ne (by omega) hrank

/-! ## Integers that are numbers -/

theorem shell_of_int? {v : Value} {n : Int64} (hn : v.int? = some n)
    (h : n.toInt.natAbs ≤ Nat.pow 2 53) :
    v.rounded.tier = v.tier ∧ v.rounded.standing = v.standing := by
  obtain ⟨hfinite, hunits⟩ := Binary64.units_ofInt h
  have hfloat := float?_of_int? hn
  rw [rounded_of_float? hfloat]
  rcases number_cases (rank_of_float? hfloat) with ⟨m, hm, htier, hstanding⟩ | ⟨x, rfl⟩
  · obtain rfl : m = n := Option.some.inj (hm.symm.trans hn)
    rw [htier, hstanding, ← hunits, ← Binary64.standing_of_isFinite hfinite]
    exact ⟨Binary64.tier_of_isFinite hfinite, rfl⟩
  · cases hn

/-- Rounding a narrow value changes nothing that sorting looks at before the items. -/
theorem Narrow.shell {v : Value} (h : v.Narrow) :
    v.rounded.tier = v.tier ∧ v.rounded.standing = v.standing ∧ v.rounded.label = v.label := by
  cases h with
  | bool b =>
    obtain ⟨htier, hstanding⟩ := shell_of_int? (v := .bool b) rfl (by cases b <;> decide)
    exact ⟨htier, hstanding, rfl⟩
  | @int n h =>
    obtain ⟨htier, hstanding⟩ := shell_of_int? (v := .int n) rfl h
    exact ⟨htier, hstanding, rfl⟩
  | float _ | text _ | list _ => exact ⟨rfl, rfl, rfl⟩

theorem compareShells_rounded {a b : Value} (ha : a.Narrow) (hb : b.Narrow) :
    compareShells a.rounded b.rounded = compareShells a b := by
  obtain ⟨htier, hstanding, hlabel⟩ := ha.shell
  obtain ⟨htier', hstanding', hlabel'⟩ := hb.shell
  simp only [compareShells, compareLex, compareOn, rank_rounded, htier, hstanding, hlabel, htier',
    hstanding', hlabel']

theorem placementList_rounded {xs ys : List Value}
    (h : ∀ x ∈ xs, ∀ y ∈ ys, placement x.rounded y.rounded = placement x y) :
    placementList (xs.map rounded) (ys.map rounded) = placementList xs ys := by
  induction xs generalizing ys with
  | nil => cases ys <;> rfl
  | cons x xs ih =>
    cases ys with
    | nil => rfl
    | cons y ys =>
      have hhead := h x List.mem_cons_self y List.mem_cons_self
      have htail := ih fun x hx y hy =>
        h x (List.mem_cons_of_mem _ hx) y (List.mem_cons_of_mem _ hy)
      simp only [List.map_cons, placementList, hhead, htail]

/-- **Rounding leaves the placement of narrow values alone.** -/
theorem placement_rounded {a b : Value} (ha : a.Narrow) (hb : b.Narrow) :
    placement a.rounded b.rounded = placement a b := by
  induction a using parts_induction generalizing b with
  | step a ih =>
    have hitems : placementList a.rounded.parts b.rounded.parts
        = placementList a.parts b.parts := by
      rw [parts_rounded, parts_rounded]
      refine placementList_rounded ?_
      intro x hx y hy
      exact ih x hx (ha.of_mem_parts hx) (hb.of_mem_parts hy)
    rw [placement_eq, placement_eq, compareShells_rounded ha hb, compareItems, orderableItems,
      hitems, orderableShells, rank_rounded, rank_rounded]
    rfl

/-! ## Where the comparisons agree -/

/-- **The operators and sorting agree on an orderable pair exactly when rounding leaves its
    placement alone**, and so whenever its integers are at most 2^53. -/
theorem agree_iff {a b : Value} (ha : a.Comparable) (hb : b.Comparable)
    (h : orderable a b = true) :
    (Agree a b ↔ placement a.rounded b.rounded = placement a b) ∧
      (a.Narrow → b.Narrow → Agree a b) := by
  have hseen := seenRounded ha hb
  have hplacement : placement a b = ⟨totalCompare a b, true⟩ := by
    rw [← h]
    rfl
  have hiff : Agree a b ↔ placement a.rounded b.rounded = placement a b := by
    rw [hplacement, ← Placement.order?_eq_some_iff, ← hseen.compare]
    constructor
    · intro hagree
      exact hagree.1
    · intro hcompare
      refine ⟨hcompare, ?_⟩
      rw [hseen.equal, hcompare]
      simp
  refine ⟨hiff, ?_⟩
  intro ha' hb'
  exact hiff.2 (placement_rounded ha' hb')

/-- A truth value and an integer that are equal, and then the two largest narrow integers. -/
theorem agree_iff_narrow :
    Agree (.list [.bool true, .int 9007199254740992]) (.list [.int 1, .int 9007199254740991]) := by
  have ha : Narrow (.list [.bool true, .int 9007199254740992]) :=
    .list (List.forall_mem_cons.2 ⟨.bool true, List.forall_mem_singleton.2 (.int (by decide))⟩)
  have hb : Narrow (.list [.int 1, .int 9007199254740991]) :=
    .list (List.forall_mem_cons.2
      ⟨.int (by decide), List.forall_mem_singleton.2 (.int (by decide))⟩)
  exact (agree_iff ha.comparable hb.comparable (by decide +kernel)).2 ha hb

/-- 2^53 and 2^53 + 1 can be ordered, and the first one is less; to the operators they are equal. -/
theorem not_agree_wide :
    Comparable (.int 9007199254740992) ∧ Comparable (.int 9007199254740993) ∧
      orderable (.int 9007199254740992) (.int 9007199254740993) = true ∧
      totalCompare (.int 9007199254740992) (.int 9007199254740993) = .lt ∧
      compare? (.int 9007199254740992) (.int 9007199254740993) = some .eq ∧
      looseEq (.int 9007199254740992) (.int 9007199254740993) = true :=
  ⟨.int trivial, .int trivial, by decide +kernel⟩

/-- One wrong equality changes which items decide, here to a text and an integer. -/
example :
    let a := Value.list [.int 9007199254740992, .text "a"]
    let b := Value.list [.int 9007199254740993, .int 1]
    placement a b = ⟨.lt, true⟩ ∧ compare? a b = none := by
  decide +kernel

end Value

end StepScript
