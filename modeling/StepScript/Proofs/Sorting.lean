import StepScript.Proofs.ComparisonSort
import StepScript.Proofs.ValueOrder

/-!
# Sorting values

Sorting fails exactly when two items at different positions clash, although it learns only of the
pairs that it happens to compare. Otherwise the items come out in ascending order, equal ones as
they stood. This does not depend on how the sort goes about it: `sort_exact` says it of every
stable sort by comparisons, and of `sort`, which is sorting by insertion
(`sort_eq_insertion_sort`).
-/

set_option autoImplicit false

namespace StepScript

namespace Value

/-! ## The specification -/

/-- Two items at different positions cannot be ordered. -/
def HasClash (items : List Value) : Prop :=
  ∃ i j : Fin items.length, i ≠ j ∧ orderable (items.get i) (items.get j) = false

/-- The items in ascending order, those that compare equal in the order in which they stood. -/
structure IsSorted (items sorted : List Value) : Prop where
  perm : sorted.Perm items
  ascending : sorted.Pairwise fun a b => totalCompare a b ≠ .gt
  stable (v : Value) : (sorted.filter fun w => totalCompare v w == .eq)
    = items.filter fun w => totalCompare v w == .eq

/-- A fault exactly when two items clash, and the items in stable ascending order otherwise. -/
structure SortsExactly (sort : List Value → Except Fault (List Value)) : Prop where
  fails_iff (items : List Value) :
    (∃ a b : Kind, sort items = .error (.type (.unordered .lt a b))) ↔ HasClash items
  sorts (items : List Value) (h : ¬ HasClash items) :
    ∃ sorted, sort items = .ok sorted ∧ IsSorted items sorted

end Value

namespace StableSort

open Value

/-! ## Any stable sort -/

/-- Order of the items at two positions. -/
def compareAt (items : List Value) (i j : Fin items.length) : Ordering :=
  totalCompare (items.get i) (items.get j)

/-- The items at two positions can be ordered. -/
def orderableAt (items : List Value) (i j : Fin items.length) : Bool :=
  orderable (items.get i) (items.get j)

instance (items : List Value) : Std.TransCmp (compareAt items) where
  eq_swap := totalCompare_swap _ _
  isLE_trans hij hjk := by
    unfold compareAt at hij hjk ⊢
    exact Std.TransCmp.isLE_trans hij hjk

theorem chains_orderableAt (items : List Value) :
    Chains (compareAt items) (orderableAt items) where
  comm _ _ := orderable_comm _ _
  trans hij hjk h h' := orderable_trans hij hjk h h'

/-- Values sorted by a stable sort; the first pair met that cannot be ordered is a fault, once the
    sort is done. -/
def sort (S : StableSort) (items : List Value) : Except Fault (List Value) :=
  let p := S.procedure items.length
  match (p.asked (compareAt items)).find? fun q => !orderableAt items q.1 q.2 with
  | some (i, j) => .error (.type (.unordered .lt (items.get i).kind (items.get j).kind))
  | none => .ok ((p.order (compareAt items)).map items.get)

/-- Of items that compare equal with one value, the stable order keeps the order. -/
theorem filter_of_isStableOrder {items : List Value} {order : List (Fin items.length)}
    (h : IsStableOrder (compareAt items) order) (v : Value) :
    (order.filter fun i => totalCompare v (items.get i) == .eq)
      = (List.finRange items.length).filter fun i => totalCompare v (items.get i) == .eq := by
  have hkept : (order.filter fun i => totalCompare v (items.get i) == .eq).Pairwise (· < ·) := by
    refine (h.ascending.filter _).imp_of_mem ?_
    intro i j hi hj hij
    have hvi : totalCompare v (items.get i) = .eq := by simpa using (List.mem_filter.1 hi).2
    have hvj : totalCompare v (items.get j) = .eq := by simpa using (List.mem_filter.1 hj).2
    have heq : compareAt items i j = .eq := by
      rw [compareAt, ← Std.TransCmp.congr_left hvi]
      exact hvj
    rcases hij with hlt | ⟨-, hlt⟩
    · rw [heq] at hlt
      cases hlt
    · exact hlt
  -- two ascending lists of the same positions
  refine List.Perm.eq_of_pairwise ?_ hkept ((List.pairwise_lt_finRange _).filter _)
    (h.perm.filter _)
  intro i j _ _ hij hji
  exact absurd hij (lt_asymm hji)

theorem isSorted_of_isStableOrder {items : List Value} {order : List (Fin items.length)}
    (h : IsStableOrder (compareAt items) order) : IsSorted items (order.map items.get) where
  perm := by
    have hperm := h.perm.map items.get
    rwa [List.map_get_finRange] at hperm
  ascending := by
    rw [List.pairwise_map]
    refine h.ascending.imp fun hij hgt => ?_
    have hle := hij.isLE
    rw [compareAt, hgt] at hle
    cases hle
  stable v := by
    have hfilter := congrArg (List.map items.get) (filter_of_isStableOrder h v)
    rw [List.filter_map]
    conv_rhs => rw [← List.map_get_finRange items, List.filter_map]
    exact hfilter

/-- A pair that cannot be ordered was met exactly when there is one. -/
theorem exists_asked_iff (S : StableSort) (items : List Value) :
    (∃ q ∈ (S.procedure items.length).asked (compareAt items), orderableAt items q.1 q.2 = false)
      ↔ HasClash items := by
  constructor
  · rintro ⟨q, hq, hclash⟩
    exact ⟨q.1, q.2, S.distinct _ q hq, hclash⟩
  · rintro ⟨i, j, hne, hclash⟩
    change orderableAt items i j = false at hclash
    by_contra hnone
    have hasked : ∀ q ∈ (S.procedure items.length).asked (compareAt items),
        orderableAt items q.1 q.2 := by
      intro q hq
      by_contra hq'
      exact hnone ⟨q, hq, Bool.not_eq_true _ ▸ hq'⟩
    rw [S.all_of_asked (chains_orderableAt items) hasked hne] at hclash
    cases hclash

theorem sort_of_hasClash (S : StableSort) {items : List Value} (h : HasClash items) :
    ∃ a b : Kind, S.sort items = .error (.type (.unordered .lt a b)) := by
  obtain ⟨q, hq, hclash⟩ := (S.exists_asked_iff items).2 h
  unfold sort
  cases hfind : ((S.procedure items.length).asked (compareAt items)).find?
      fun q => !orderableAt items q.1 q.2 with
  | some q =>
    simp only [hfind]
    exact ⟨_, _, rfl⟩
  | none =>
    have hordered := List.find?_eq_none.1 hfind q hq
    simp [hclash] at hordered

theorem sort_of_not_hasClash (S : StableSort) {items : List Value} (h : ¬ HasClash items) :
    S.sort items
      = .ok (((S.procedure items.length).order (compareAt items)).map items.get) := by
  rw [← S.exists_asked_iff items] at h
  have hfind : ((S.procedure items.length).asked (compareAt items)).find?
      (fun q => !orderableAt items q.1 q.2) = none := by
    rw [List.find?_eq_none]
    intro q hq hclash
    exact h ⟨q, hq, by simpa using hclash⟩
  unfold sort
  simp only [hfind]

/-- **Every stable sort sorts exactly.** -/
theorem sortsExactly (S : StableSort) : SortsExactly S.sort where
  fails_iff items := by
    constructor
    · rintro ⟨a, b, hfault⟩
      by_contra h
      rw [S.sort_of_not_hasClash h] at hfault
      cases hfault
    · exact S.sort_of_hasClash
  sorts items h := ⟨_, S.sort_of_not_hasClash h, isSorted_of_isStableOrder (S.stable _)⟩

/-! ## Sorting by insertion -/

open Procedure

variable {items : List Value}

/-- The values at two positions. -/
def valuesAt (items : List Value) (q : Fin items.length × Fin items.length) : Value × Value :=
  (items.get q.1, items.get q.2)

theorem place_get (x : Fin items.length) (placed : List (Fin items.length)) :
    place (items.get x) (placed.map items.get)
      = ((inserted (compareAt items) x placed).map items.get,
        ((comparedWith (compareAt items) x placed).map fun y => (x, y)).map (valuesAt items)) := by
  induction placed with
  | nil => rfl
  | cons y ys ih =>
    have hcmp : totalCompare (items.get x) (items.get y) = compareAt items x y := rfl
    rw [List.map_cons, place, ih, inserted_cons, comparedWith, hcmp]
    by_cases h : compareAt items x y = .lt
    · rw [if_pos (beq_iff_eq.2 h), if_pos h, if_pos h]
      rfl
    · rw [if_neg (mt beq_iff_eq.1 h), if_neg h, if_neg h]
      rfl

/-- Adding items one after the other carries out the procedure on their positions. -/
theorem foldl_add (xs placed : List (Fin items.length)) (failure : Option (Value × Value)) :
    (xs.map items.get).foldl Sorting.add ⟨placed.map items.get, failure⟩
      = ⟨(((insertAll xs placed).order (compareAt items)).map items.get).reverse,
        failure.or ((((insertAll xs placed).asked (compareAt items)).map (valuesAt items)).find?
          fun (a, b) => !orderable a b)⟩ := by
  induction xs generalizing placed failure with
  | nil => simp [insertAll, order, asked]
  | cons x xs ih =>
    rw [List.map_cons, List.foldl_cons, Sorting.add, place_get, ih, insertAll, order_insertAt,
      asked_insertAt, List.map_append, List.find?_append, Option.or_assoc]

end StableSort

namespace Value

theorem sort_eq_insertion_sort (items : List Value) :
    sort items = StableSort.insertion.sort items := by
  have hfold := StableSort.foldl_add (List.finRange items.length) [] none
  rw [List.map_get_finRange, List.map_nil, Option.none_or, List.find?_map] at hfold
  have hpair : (fun (a, b) => !orderable a b) ∘ StableSort.valuesAt items
      = fun q => !StableSort.orderableAt items q.1 q.2 := rfl
  rw [hpair] at hfold
  simp only [sort, StableSort.sort, StableSort.insertion, hfold, List.reverse_reverse]
  cases ((Procedure.insertAll (List.finRange items.length) []).asked
      (StableSort.compareAt items)).find? fun q => !StableSort.orderableAt items q.1 q.2 with
  | none => rfl
  | some q => rfl

/-- **Sorting is a stable sort with exact detection of clashes**, by insertion and by every other
    stable sort. -/
theorem sort_exact :
    SortsExactly sort ∧ (∀ S : StableSort, SortsExactly S.sort) ∧
      ∀ a b, orderable a b = false ↔ Clash a b := by
  have hsort : sort = StableSort.insertion.sort := funext sort_eq_insertion_sort
  refine ⟨?_, StableSort.sortsExactly, orderable_eq_false_iff⟩
  rw [hsort]
  exact StableSort.insertion.sortsExactly

/-- Equal items keep their order, and a clash that no two neighbours of the input show is found. -/
example :
    sort [.int 2, .int 1, .bool true] = .ok [.int 1, .bool true, .int 2] ∧
      sort [.list [.int 1, .int 2], .list [.int 0], .list [.int 1, .text "a"]]
        = .error (.type (.unordered .lt .list .list)) := by
  constructor <;> rfl

end Value

end StepScript
