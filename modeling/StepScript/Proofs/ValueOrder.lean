import Mathlib.Data.List.Forall2
import StepScript.Proofs.NumberOrder

/-!
# The order behind sorting

Two values compare for sorting by what they are apart from their items (rank, then tier and
standing of numbers, then a label) and, among lists, by their items one after the other
(`placement_eq`). The first part is a lexicographic order of integers and texts, and the second
one follows by induction on the items, so that `totalCompare` is a total preorder of all values.

Whether a pair is orderable goes along two values that bound a third: if `a` comes before `b` and
`b` before `c`, and both pairs are orderable, then so are `a` and `c` (`orderable_trans`). It does
not go along arbitrary values: `[0]` is orderable with `[1, 2]` and with `[1, "a"]`, which are not
orderable with each other.
-/

set_option autoImplicit false

namespace StepScript

/-! ## Texts -/

namespace Text

theorem order_eq (s t : List Char) : order s t = List.compareLex (compareOn Char.toNat) s t := by
  induction s generalizing t with
  | nil => cases t <;> rfl
  | cons a as ih =>
    cases t with
    | nil => rfl
    | cons b bs =>
      rw [List.compareLex_cons_cons, ← ih]
      simp only [order, compareOn]
      cases compare a.toNat b.toNat <;> rfl

/-- Only a text itself stands where it stands. -/
theorem eq_of_order {s t : List Char} (h : order s t = .eq) : s = t := by
  induction s generalizing t with
  | nil =>
    cases t with
    | nil => rfl
    | cons b bs => cases h
  | cons a as ih =>
    cases t with
    | nil => cases h
    | cons b bs =>
      rw [order_eq, List.compareLex_cons_cons, Ordering.then_eq_eq, ← order_eq] at h
      rw [Char.toNat_inj.1 (Nat.compare_eq_eq.1 h.1), ih h.2]

instance : Std.TransCmp orderOf where
  eq_swap {a b} := by
    simp only [orderOf, order_eq]
    exact Std.OrientedCmp.eq_swap
  isLE_trans {a b c} hab hbc := by
    simp only [orderOf, order_eq] at hab hbc ⊢
    exact Std.TransCmp.isLE_trans hab hbc

end Text

namespace Value

/-! ## What decides before the items -/

/-- The items of a list; no other value has items that count for the order. -/
def parts : Value → List Value
  | .list items => items
  | _ => []

/-- The text that decides among values of one rank that are not numbers. -/
def label : Value → String
  | .bool _ | .int _ | .float _ => ""
  | .text s => s
  | v => v.kind.name

/-- Comparison by everything but the items. -/
def compareShells : Value → Value → Ordering :=
  compareLex (compareOn rank) <| compareLex (compareOn tier) <| compareLex (compareOn standing)
    fun a b => Text.orderOf a.label b.label

instance : Std.TransCmp fun a b : Value => Text.orderOf a.label b.label where
  eq_swap := Std.OrientedCmp.eq_swap
  isLE_trans := Std.TransCmp.isLE_trans

instance : Std.TransCmp compareShells :=
  inferInstanceAs (Std.TransCmp (compareLex _ _))

/-- The pair can be ordered, as far as the values themselves are concerned. -/
def orderableShells (a b : Value) : Bool :=
  a.rank == b.rank && a.rank != 3

theorem sizeOf_lt_of_mem_parts {a x : Value} (h : x ∈ a.parts) : sizeOf x < sizeOf a := by
  cases a with
  | list items =>
    have hlt : sizeOf x < sizeOf items := List.sizeOf_lt_of_mem h
    simp only [list.sizeOf_spec]
    omega
  | _ => cases h

/-- Induction over the items of lists, of lists among them, and so on. -/
theorem parts_induction {motive : Value → Prop}
    (step : ∀ a, (∀ x ∈ a.parts, motive x) → motive a) (a : Value) : motive a := by
  refine step a fun x hx => ?_
  have := sizeOf_lt_of_mem_parts hx
  exact parts_induction step x
termination_by sizeOf a

theorem exists_list {v : Value} (h : v.rank = 2) : ∃ items, v = .list items := by
  cases v with
  | list items => exact ⟨items, rfl⟩
  | _ => cases h

theorem exists_text {v : Value} (h : v.rank = 1) : ∃ s, v = .text s := by
  cases v with
  | text s => exact ⟨s, rfl⟩
  | _ => cases h

theorem rank_le (v : Value) : v.rank ≤ 3 := by
  cases v <;> simp [rank]

theorem parts_of_rank_ne {v : Value} (h : v.rank ≠ 2) : v.parts = [] := by
  cases v with
  | list items => exact absurd rfl h
  | _ => rfl

theorem label_of_number {v : Value} (h : v.rank = 0) : v.label = "" := by
  cases v with
  | bool _ | int _ | float _ => rfl
  | _ => cases h

theorem standing_of_rank_ne {v : Value} (h : v.rank ≠ 0) : v.tier = 0 ∧ v.standing = 0 := by
  cases v with
  | bool _ | int _ | float _ => exact absurd rfl h
  | _ => exact ⟨rfl, rfl⟩

theorem label_of_other {v : Value} (h : v.rank = 3) : v.label = v.kind.name := by
  cases v with
  | bool _ | int _ | float _ | text _ => cases h
  | _ => rfl

theorem compareShells_of_rank_eq {a b : Value} (h : a.rank = b.rank) :
    compareShells a b = ((compare a.tier b.tier).then (compare a.standing b.standing)).then
      (Text.orderOf a.label b.label) := by
  simp only [compareShells, compareLex, compareOn, Nat.compare_eq_eq.2 h, Ordering.then_assoc]
  rfl

theorem compareShells_of_rank_ne {a b : Value} (h : a.rank ≠ b.rank) :
    compareShells a b = compare a.rank b.rank := by
  simp only [compareShells, compareLex, compareOn]
  rcases Nat.lt_or_gt_of_ne h with hlt | hgt
  · rw [Nat.compare_eq_lt.2 hlt]
    rfl
  · rw [Nat.compare_eq_gt.2 hgt]
    rfl

/-- Values of one rank that are not numbers are told apart by their labels. -/
theorem compareShells_of_label {a b : Value} (h : a.rank = b.rank) (hne : a.rank ≠ 0) :
    compareShells a b = Text.orderOf a.label b.label := by
  obtain ⟨htier, hstanding⟩ := standing_of_rank_ne hne
  obtain ⟨htier', hstanding'⟩ := standing_of_rank_ne (h ▸ hne)
  rw [compareShells_of_rank_eq h, htier, htier', hstanding, hstanding']
  rfl

theorem compareNumbers_eq_shells {a b : Value} (ha : a.rank = 0) (hb : b.rank = 0) :
    compareNumbers a b = compareShells a b := by
  rw [compareNumbers_eq ha hb, compareShells_of_rank_eq (ha.trans hb.symm), label_of_number ha,
    label_of_number hb, show Text.orderOf "" "" = .eq from rfl, Ordering.then_eq]

theorem compareShells_of_lists {a b : Value} (ha : a.rank = 2) (hb : b.rank = 2) :
    compareShells a b = .eq := by
  rw [compareShells_of_label (ha.trans hb.symm) (by omega)]
  obtain ⟨xs, rfl⟩ := exists_list ha
  obtain ⟨ys, rfl⟩ := exists_list hb
  exact Std.ReflCmp.compare_self

theorem plainPlacement_eq {a b : Value} (h : a.rank ≠ 2 ∨ b.rank ≠ 2) :
    plainPlacement a b = ⟨compareShells a b, orderableShells a b⟩ := by
  unfold plainPlacement orderableShells
  by_cases hrank : a.rank = b.rank
  · rw [if_neg (by simp [hrank])]
    have hle := a.rank_le
    split
    · next s t =>
      rw [compareShells_of_label hrank (by simp [rank])]
      rfl
    · next htext =>
      -- the texts are done, and of two lists there is nothing to show
      by_cases ha : a.rank = 0
      · have hb : b.rank = 0 := by omega
        simp [ha, hb, compareNumbers_eq_shells]
      · have ha' : a.rank = 3 := by
          have hone : a.rank ≠ 1 := by
            intro hone
            obtain ⟨s, rfl⟩ := exists_text hone
            obtain ⟨t, rfl⟩ := exists_text (hrank ▸ hone)
            exact htext s t rfl rfl
          omega
        rw [compareShells_of_label hrank ha, label_of_other ha', label_of_other (hrank ▸ ha')]
        simp [ha']
  · rw [if_pos (by simp [hrank]), compareShells_of_rank_ne hrank]
    simp [hrank]

/-! ## Items one after the other -/

/-- Order of the items of two lists. -/
def compareItems (xs ys : List Value) : Ordering :=
  (placementList xs ys).order

/-- The items of two lists can be ordered, as far as they are compared. -/
def orderableItems (xs ys : List Value) : Bool :=
  (placementList xs ys).orderable

/-- **Values compare by everything but their items, then by their items.** -/
theorem placement_eq (a b : Value) :
    placement a b = ⟨(compareShells a b).then (compareItems a.parts b.parts),
      orderableShells a b && orderableItems a.parts b.parts⟩ := by
  by_cases h : a.rank = 2 ∧ b.rank = 2
  · rw [compareShells_of_lists h.1 h.2]
    obtain ⟨xs, rfl⟩ := exists_list h.1
    obtain ⟨ys, rfl⟩ := exists_list h.2
    simp [placement, compareItems, orderableItems, orderableShells, rank, parts]
  · have hplain : placement a b = plainPlacement a b := by
      unfold placement
      split
      · exact absurd ⟨rfl, rfl⟩ h
      · rfl
    rw [hplain, plainPlacement_eq (by omega)]
    by_cases hrank : a.rank = b.rank
    · rw [parts_of_rank_ne (v := a) (by omega), parts_of_rank_ne (v := b) (by omega)]
      simp [compareItems, orderableItems, placementList]
    · -- the ranks decide, whatever the items of the one that is a list
      have hne : compareShells a b ≠ .eq := by
        rw [compareShells_of_rank_ne hrank, Ne, Nat.compare_eq_eq]
        exact hrank
      have hshells : orderableShells a b = false := by simp [orderableShells, hrank]
      rw [hshells, Bool.false_and]
      cases hc : compareShells a b with
      | eq => exact absurd hc hne
      | lt | gt => rfl

theorem totalCompare_eq (a b : Value) :
    totalCompare a b = (compareShells a b).then (compareItems a.parts b.parts) := by
  rw [totalCompare, placement_eq]

theorem orderable_eq (a b : Value) :
    orderable a b = (orderableShells a b && orderableItems a.parts b.parts) := by
  rw [orderable, placement_eq]

theorem compareItems_cons (x y : Value) (xs ys : List Value) :
    compareItems (x :: xs) (y :: ys) = (totalCompare x y).then (compareItems xs ys) := by
  simp only [compareItems, totalCompare, placementList]
  cases h : placement x y with
  | mk order orderable => cases order <;> rfl

theorem orderableItems_cons (x y : Value) (xs ys : List Value) :
    orderableItems (x :: xs) (y :: ys)
      = (orderable x y && (totalCompare x y != .eq || orderableItems xs ys)) := by
  simp only [orderableItems, totalCompare, orderable, placementList]
  cases h : placement x y with
  | mk order orderable => cases order <;> simp

/-! ## A total preorder -/

theorem compareItems_swap {xs : List Value}
    (h : ∀ x ∈ xs, ∀ y, totalCompare x y = (totalCompare y x).swap) (ys : List Value) :
    compareItems xs ys = (compareItems ys xs).swap := by
  induction xs generalizing ys with
  | nil => cases ys <;> rfl
  | cons x xs ih =>
    cases ys with
    | nil => rfl
    | cons y ys =>
      rw [compareItems_cons, compareItems_cons, Ordering.swap_then, ← h x List.mem_cons_self,
        ih fun x hx => h x (List.mem_cons_of_mem _ hx)]

theorem totalCompare_swap (a b : Value) : totalCompare a b = (totalCompare b a).swap := by
  induction a using parts_induction generalizing b with
  | step a ih =>
    rw [totalCompare_eq, totalCompare_eq, Ordering.swap_then, ← compareItems_swap ih,
      ← Std.OrientedCmp.eq_swap]

/-- How three comparisons fit together in a total preorder: of values in ascending order, the outer
    ones compare as the first pair that is not equal. -/
def Fit (ab bc ac : Ordering) : Prop :=
  ab.isLE → bc.isLE → ac = ab.then bc

theorem fit_of_transCmp {α : Type} (cmp : α → α → Ordering) [Std.TransCmp cmp] (a b c : α) :
    Fit (cmp a b) (cmp b c) (cmp a c) := by
  intro hab hbc
  cases h : cmp a b with
  | lt => exact Std.TransCmp.lt_of_lt_of_isLE h hbc
  | eq => exact Std.TransCmp.congr_left h
  | gt =>
    rw [h] at hab
    cases hab

/-- Deciding by one order and then by another one keeps comparisons fitting. -/
theorem Fit.then {ab bc ac ab' bc' ac' : Ordering} (h : Fit ab bc ac) (h' : Fit ab' bc' ac') :
    Fit (ab.then ab') (bc.then bc') (ac.then ac') := by
  intro hab hbc
  rw [Ordering.isLE_then_iff_and] at hab hbc
  rw [h hab.1 hbc.1]
  cases ab with
  | lt => rfl
  | gt => cases hab.1
  | eq =>
    cases bc with
    | lt =>
      -- `a` is not above `b` by the second order, and below `c` by the first
      cases ab' with
      | lt | eq => rfl
      | gt => simp at hab
    | gt => cases hbc.1
    | eq => exact h' (by simpa using hab) (by simpa using hbc)

theorem fit_compareItems {xs : List Value}
    (h : ∀ x ∈ xs, ∀ y z, Fit (totalCompare x y) (totalCompare y z) (totalCompare x z))
    (ys zs : List Value) :
    Fit (compareItems xs ys) (compareItems ys zs) (compareItems xs zs) := by
  induction xs generalizing ys zs with
  | nil =>
    intro _ hle
    cases ys with
    | nil => rfl
    | cons y ys =>
      cases zs with
      | nil => cases hle
      | cons z zs => rfl
  | cons x xs ih =>
    cases ys with
    | nil =>
      intro hle
      cases hle
    | cons y ys =>
      cases zs with
      | nil =>
        intro _ hle
        cases hle
      | cons z zs =>
        rw [compareItems_cons, compareItems_cons, compareItems_cons]
        exact (h x List.mem_cons_self y z).then
          (ih (fun x hx => h x (List.mem_cons_of_mem _ hx)) ys zs)

theorem fit_totalCompare (a b c : Value) :
    Fit (totalCompare a b) (totalCompare b c) (totalCompare a c) := by
  induction a using parts_induction generalizing b c with
  | step a ih =>
    rw [totalCompare_eq, totalCompare_eq, totalCompare_eq]
    exact (fit_of_transCmp compareShells a b c).then (fit_compareItems ih _ _)

/-- **Sorting compares by a total preorder**, NaNs and values without an order included. -/
instance : Std.TransCmp totalCompare where
  eq_swap := totalCompare_swap _ _
  isLE_trans {a b c} hab hbc := by
    rw [fit_totalCompare a b c hab hbc]
    cases h : totalCompare a b with
    | eq => exact hbc
    | lt => rfl
    | gt =>
      rw [h] at hab
      cases hab

/-- The exact value of a finite number in units of 2^-1074, whether it is an integer or given by its
    bits. -/
def units? : Value → Option Int
  | .float x => if x.isFinite then some x.units else none
  | v => v.int?.map fun n => n.toInt * Binary64.unitsPerOne

theorem standing_of_units? {v : Value} {u : Int} (h : v.units? = some u) :
    v.rank = 0 ∧ v.tier = 0 ∧ v.standing = u := by
  cases v with
  | float x =>
    by_cases hfinite : x.isFinite
    · rw [units?, if_pos hfinite, Option.some.injEq] at h
      refine ⟨rfl, Binary64.tier_of_isFinite hfinite, ?_⟩
      rw [← h]
      exact Binary64.standing_of_isFinite hfinite
    · rw [units?, if_neg hfinite] at h
      cases h
  | bool _ | int _ =>
    cases h
    exact ⟨rfl, rfl, rfl⟩
  | _ => cases h

/-- Finite numbers compare by their exact values. -/
theorem totalCompare_of_units? {a b : Value} {u w : Int} (ha : a.units? = some u)
    (hb : b.units? = some w) : totalCompare a b = compare u w := by
  obtain ⟨hrank, htier, hstanding⟩ := standing_of_units? ha
  obtain ⟨hrank', htier', hstanding'⟩ := standing_of_units? hb
  have hshells := compareNumbers_eq_shells hrank hrank'
  rw [compareNumbers_eq hrank hrank', htier, htier', hstanding, hstanding'] at hshells
  rw [totalCompare_eq, ← hshells, parts_of_rank_ne (by omega), parts_of_rank_ne (by omega)]
  show (compare u w).then .eq = compare u w
  exact Ordering.then_eq

/-- **The comparison behind sorting is a total preorder of all values**, whatever kinds meet and
    NaNs included, and among finite numbers it is the order of their exact values. -/
theorem totalCompare_isTotalPreorder (a b c : Value) :
    totalCompare a a = .eq ∧ totalCompare b a = (totalCompare a b).swap ∧
      (totalCompare a b ≠ .gt → totalCompare b c ≠ .gt → totalCompare a c ≠ .gt) ∧
      ∀ u w, a.units? = some u → b.units? = some w → totalCompare a b = compare u w := by
  refine ⟨Std.ReflCmp.compare_self, totalCompare_swap b a, ?_, ?_⟩
  · intro hab hbc
    rw [Ne, Ordering.ne_gt_iff_isLE] at hab hbc ⊢
    exact Std.TransCmp.isLE_trans hab hbc
  · intro u w ha hb
    exact totalCompare_of_units? ha hb

/-- The number 2^53, the integer after it, which no number equals, and a NaN. -/
theorem totalCompare_isTotalPreorder_nan :
    totalCompare (.float (.ofInt 9007199254740992)) (.int 9007199254740993) ≠ .gt ∧
      totalCompare (.int 9007199254740993) (.float (.nan false)) ≠ .gt ∧
      totalCompare (.float (.ofInt 9007199254740992)) (.float (.nan false)) ≠ .gt := by
  have hab : totalCompare (.float (.ofInt 9007199254740992)) (.int 9007199254740993) ≠ .gt := by
    decide +kernel
  have hbc : totalCompare (.int 9007199254740993) (.float (.nan false)) ≠ .gt := by
    decide +kernel
  exact ⟨hab, hbc, (totalCompare_isTotalPreorder _ _ _).2.2.1 hab hbc⟩

/-! ## Pairs that can be ordered -/

theorem orderableItems_comm {xs : List Value} (h : ∀ x ∈ xs, ∀ y, orderable x y = orderable y x)
    (ys : List Value) : orderableItems xs ys = orderableItems ys xs := by
  induction xs generalizing ys with
  | nil => cases ys <;> rfl
  | cons x xs ih =>
    cases ys with
    | nil => rfl
    | cons y ys =>
      rw [orderableItems_cons, orderableItems_cons, h x List.mem_cons_self,
        ih fun x hx => h x (List.mem_cons_of_mem _ hx), totalCompare_swap x y]
      cases totalCompare y x <;> rfl

theorem orderable_comm (a b : Value) : orderable a b = orderable b a := by
  induction a using parts_induction generalizing b with
  | step a ih =>
    have hshells : orderableShells a b = orderableShells b a := by
      unfold orderableShells
      by_cases hrank : a.rank = b.rank
      · rw [hrank]
      · rw [beq_eq_false_iff_ne.2 hrank, beq_eq_false_iff_ne.2 (Ne.symm hrank)]
        rfl
    rw [orderable_eq, orderable_eq, orderableItems_comm ih, hshells]

theorem orderableItems_trans {xs : List Value}
    (h : ∀ x ∈ xs, ∀ y z, (totalCompare x y).isLE → (totalCompare y z).isLE → orderable x y →
      orderable y z → orderable x z)
    {ys zs : List Value} (hxy : (compareItems xs ys).isLE) (hyz : (compareItems ys zs).isLE)
    (hxy' : orderableItems xs ys) (hyz' : orderableItems ys zs) : orderableItems xs zs := by
  induction xs generalizing ys zs with
  | nil => cases zs <;> rfl
  | cons x xs ih =>
    cases ys with
    | nil => cases hxy
    | cons y ys =>
      cases zs with
      | nil => rfl
      | cons z zs =>
        rw [compareItems_cons, Ordering.isLE_then_iff_and] at hxy hyz
        rw [orderableItems_cons, Bool.and_eq_true, Bool.or_eq_true] at hxy' hyz' ⊢
        refine ⟨h x List.mem_cons_self y z hxy.1 hyz.1 hxy'.1 hyz'.1, ?_⟩
        by_cases hxz : totalCompare x z = .eq
        · -- the outer items are equal only if both pairs are
          rw [fit_totalCompare x y z hxy.1 hyz.1, Ordering.then_eq_eq] at hxz
          simp only [hxz.1, hxz.2, bne_self_eq_false, Bool.false_eq_true, false_or, reduceCtorEq]
            at hxy hyz hxy' hyz'
          exact Or.inr (ih (fun x hx => h x (List.mem_cons_of_mem _ hx)) hxy.2 hyz.2 hxy'.2 hyz'.2)
        · exact Or.inl (bne_iff_ne.2 hxz)

/-- **Orderable pairs chain in ascending order.** -/
theorem orderable_trans {a b c : Value} (hab : (totalCompare a b).isLE)
    (hbc : (totalCompare b c).isLE) (hab' : orderable a b) (hbc' : orderable b c) :
    orderable a c := by
  induction a using parts_induction generalizing b c with
  | step a ih =>
    rw [orderable_eq, Bool.and_eq_true] at hab' hbc' ⊢
    rw [totalCompare_eq] at hab hbc
    have hshells : orderableShells a c := by
      simp only [orderableShells, Bool.and_eq_true, beq_iff_eq, bne_iff_ne] at hab' hbc' ⊢
      omega
    refine ⟨hshells, ?_⟩
    simp only [orderableShells, Bool.and_eq_true, beq_iff_eq] at hab' hbc'
    by_cases hlist : a.rank = 2
    · rw [compareShells_of_lists hlist (by omega)] at hab
      rw [compareShells_of_lists (by omega) (by omega)] at hbc
      exact orderableItems_trans ih hab hbc hab'.2 hbc'.2
    · rw [parts_of_rank_ne hlist, parts_of_rank_ne (v := c) (by omega)]
      rfl

/-- Without the order in between, orderable pairs do not chain. -/
example :
    let a := Value.list [.int 1, .int 2]
    let b := Value.list [.int 0]
    let c := Value.list [.int 1, .text "a"]
    orderable a b = true ∧ orderable b c = true ∧ orderable a c = false := by
  decide +kernel

/-- Two values clash when sorting has no rule for them: their ranks differ, or both are neither
    numbers nor texts nor lists, or they are lists and two items at the same position clash, every
    position before it holding equal items. Items after the first different pair do not count. -/
inductive Clash : Value → Value → Prop where
  | ranks {a b : Value} (h : a.rank ≠ b.rank) : Clash a b
  | others {a b : Value} (ha : a.rank = 3) (hb : b.rank = 3) : Clash a b
  | items {before before' after after' : List Value} {x y : Value}
      (heq : List.Forall₂ (fun u v => totalCompare u v = .eq) before before') (h : Clash x y) :
      Clash (.list (before ++ x :: after)) (.list (before' ++ y :: after'))

theorem orderableItems_of_forall₂ {before before' : List Value}
    (heq : List.Forall₂ (fun u v => totalCompare u v = .eq) before before') {x y : Value}
    (h : orderable x y = false) (after after' : List Value) :
    orderableItems (before ++ x :: after) (before' ++ y :: after') = false := by
  induction heq with
  | nil =>
    rw [List.nil_append, List.nil_append, orderableItems_cons, h]
    rfl
  | cons hd _ ih =>
    rw [List.cons_append, List.cons_append, orderableItems_cons, hd, ih]
    simp

theorem exists_of_orderableItems_eq_false {xs ys : List Value}
    (h : orderableItems xs ys = false) :
    ∃ before before' x y after after',
      List.Forall₂ (fun u v => totalCompare u v = .eq) before before' ∧ orderable x y = false ∧
        xs = before ++ x :: after ∧ ys = before' ++ y :: after' := by
  induction xs generalizing ys with
  | nil => cases ys <;> cases h
  | cons x xs ih =>
    cases ys with
    | nil => cases h
    | cons y ys =>
      by_cases hxy : orderable x y = false
      · exact ⟨[], [], x, y, xs, ys, .nil, hxy, rfl, rfl⟩
      · -- the first pair is fine, so it is equal and the clash lies behind it
        simp only [Bool.not_eq_false] at hxy
        simp only [orderableItems_cons, hxy, Bool.true_and, Bool.or_eq_false_iff,
          bne_eq_false_iff_eq] at h
        obtain ⟨before, before', u, v, after, after', heq, huv, rfl, rfl⟩ := ih h.2
        exact ⟨x :: before, y :: before', u, v, after, after', .cons h.1 heq, huv, rfl, rfl⟩

theorem orderable_of_clash {a b : Value} (h : Clash a b) : orderable a b = false := by
  induction h with
  | ranks h => simp [orderable_eq, orderableShells, h]
  | others ha hb => simp [orderable_eq, orderableShells, ha, hb]
  | items heq _ ih =>
    rw [orderable_eq]
    simp only [parts, orderableItems_of_forall₂ heq ih, Bool.and_false]

/-- **A pair is orderable unless it clashes.** -/
theorem orderable_eq_false_iff (a b : Value) : orderable a b = false ↔ Clash a b := by
  constructor
  · induction a using parts_induction generalizing b with
    | step a ih =>
      intro h
      by_cases hrank : a.rank = b.rank
      · by_cases hother : a.rank = 3
        · exact .others hother (hrank ▸ hother)
        · have hshells : orderableShells a b = true := by
            simp [orderableShells, hrank, hrank ▸ hother]
          rw [orderable_eq, hshells, Bool.true_and] at h
          obtain ⟨before, before', x, y, after, after', heq, hxy, ha, hb⟩ :=
            exists_of_orderableItems_eq_false h
          have hlist : a.rank = 2 := by
            by_contra hne
            rw [parts_of_rank_ne hne] at ha
            simp at ha
          obtain ⟨xs, rfl⟩ := exists_list hlist
          obtain ⟨ys, rfl⟩ := exists_list (hrank ▸ hlist)
          obtain rfl : xs = before ++ x :: after := ha
          obtain rfl : ys = before' ++ y :: after' := hb
          exact .items heq (ih x (by simp [parts]) y hxy)
      · exact .ranks hrank
  · exact orderable_of_clash

end Value

end StepScript
