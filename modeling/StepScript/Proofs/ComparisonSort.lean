import Mathlib.Data.Fintype.Card
import Mathlib.Data.List.Chain
import Mathlib.Data.List.FinRange
import Mathlib.Data.List.Pairwise
import Mathlib.Data.List.Sort

/-!
# Sorting by comparisons

A procedure that sorts learns about its items by comparing them and in no other way. It is a tree:
it asks how two items compare, goes on by the answer, and ends with the order it puts the items in.
A stable sort is a procedure for every number of items that puts them in the stable order, whatever
total preorder answers.

What a stable sort did not ask it can only know from what it did ask. `StableSort.all_of_asked`
makes this precise for a property of pairs that chains in ascending order: a property that holds of
every pair asked holds of every pair. Were it to fail, it would fail of two items that come one
behind the other in the end (a `Gap`), and exchanging these two, together with the items that the
property ties to them, gives another preorder with the same answers (`moved`), in which they come
the other way round.

`insertion` is the stable sort that `Value.sort` carries out.
-/

set_option autoImplicit false

namespace StepScript

/-- A way to sort `n` items by asking how pairs of them compare. -/
inductive Procedure (n : Nat) where
  | done (order : List (Fin n))
  | ask (i j : Fin n) (next : Ordering → Procedure n)

namespace Procedure

variable {n : Nat}

/-- The order in which the items are put. -/
def order (cmp : Fin n → Fin n → Ordering) : Procedure n → List (Fin n)
  | done order => order
  | ask i j next => (next (cmp i j)).order cmp

/-- The pairs compared, the first one first. -/
def asked (cmp : Fin n → Fin n → Ordering) : Procedure n → List (Fin n × Fin n)
  | done _ => []
  | ask i j next => (i, j) :: (next (cmp i j)).asked cmp

/-- Only the answers to what is asked count. -/
theorem order_congr {cmp cmp' : Fin n → Fin n → Ordering} (p : Procedure n)
    (h : ∀ q ∈ p.asked cmp, cmp' q.1 q.2 = cmp q.1 q.2) : p.order cmp' = p.order cmp := by
  induction p with
  | done order => rfl
  | ask i j next ih =>
    have hij : cmp' i j = cmp i j := h (i, j) List.mem_cons_self
    simp only [order, hij]
    exact ih (cmp i j) fun q hq => h q (List.mem_cons_of_mem _ hq)

end Procedure

/-! ## Stable sorts -/

section

variable {n : Nat} (cmp : Fin n → Fin n → Ordering)

/-- `i` comes before `j` in the stable order: it is less, or it is equal and stood before it. -/
def Precedes (i j : Fin n) : Prop :=
  cmp i j = .lt ∨ cmp i j = .eq ∧ i < j

variable {cmp}

theorem precedes_of_isLE {i j : Fin n} (h : (cmp i j).isLE) (hlt : i < j) : Precedes cmp i j := by
  cases hij : cmp i j with
  | lt => exact Or.inl hij
  | eq => exact Or.inr ⟨hij, hlt⟩
  | gt =>
    rw [hij] at h
    cases h

theorem Precedes.isLE {i j : Fin n} (h : Precedes cmp i j) : (cmp i j).isLE := by
  rcases h with h | ⟨h, -⟩
  · rw [h]
    rfl
  · rw [h]
    rfl

theorem Precedes.ne [Std.TransCmp cmp] {i j : Fin n} (h : Precedes cmp i j) : j ≠ i := by
  rintro rfl
  have heq : cmp j j = .eq := Std.ReflCmp.compare_self
  rcases h with h | ⟨-, h⟩
  · rw [heq] at h
    cases h
  · exact absurd h (lt_irrefl j)

variable (cmp) in
/-- The stable order of all items. -/
structure IsStableOrder (order : List (Fin n)) : Prop where
  perm : order.Perm (List.finRange n)
  ascending : order.Pairwise (Precedes cmp)

end

/-- A stable sort: no item is compared with itself, and the order is the stable one whenever the
    answers come from a total preorder. -/
structure StableSort where
  procedure : (n : Nat) → Procedure n
  distinct {n : Nat} (cmp : Fin n → Fin n → Ordering) [Std.TransCmp cmp] :
    ∀ q ∈ (procedure n).asked cmp, q.1 ≠ q.2
  stable {n : Nat} (cmp : Fin n → Fin n → Ordering) [Std.TransCmp cmp] :
    IsStableOrder cmp ((procedure n).order cmp)

namespace StableSort

/-! ## Another preorder with the same answers -/

section

variable {n : Nat} (cmp : Fin n → Fin n → Ordering)

/-- How many items are less. -/
def below (i : Fin n) : Nat :=
  (Finset.univ.filter fun j => cmp j i = .lt).card

variable [Std.TransCmp cmp]

theorem below_lt {i j : Fin n} (h : cmp i j = .lt) : below cmp i < below cmp j := by
  apply Finset.card_lt_card
  rw [Finset.ssubset_iff_of_subset]
  · -- `i` itself is the one more
    refine ⟨i, by simpa using h, ?_⟩
    rw [Finset.mem_filter]
    rintro ⟨-, hlt⟩
    have heq : cmp i i = .eq := Std.ReflCmp.compare_self
    rw [heq] at hlt
    cases hlt
  · intro k hk
    rw [Finset.mem_filter] at hk ⊢
    exact ⟨hk.1, Std.TransCmp.lt_trans hk.2 h⟩

theorem below_eq {i j : Fin n} (h : cmp i j = .eq) : below cmp i = below cmp j := by
  unfold below
  congr 1
  apply Finset.filter_congr
  intro k _
  rw [Std.TransCmp.congr_right h]

/-- Comparing is counting. -/
theorem compare_below (i j : Fin n) : compare (below cmp i) (below cmp j) = cmp i j := by
  cases h : cmp i j with
  | lt => exact Nat.compare_eq_lt.2 (below_lt cmp h)
  | eq => exact Nat.compare_eq_eq.2 (below_eq cmp h)
  | gt => exact Nat.compare_eq_gt.2 (below_lt cmp (Std.OrientedCmp.gt_iff_lt.1 h))

theorem isLE_iff (i j : Fin n) : (cmp i j).isLE ↔ below cmp i ≤ below cmp j := by
  rw [← compare_below cmp i j, Nat.isLE_compare]

end

/-- A property of pairs that chains in ascending order. -/
structure Chains {n : Nat} (cmp : Fin n → Fin n → Ordering) (ok : Fin n → Fin n → Bool) :
    Prop where
  comm (i j : Fin n) : ok i j = ok j i
  trans {i j k : Fin n} (hij : (cmp i j).isLE) (hjk : (cmp j k).isLE) (h : ok i j) (h' : ok j k) :
    ok i k

section

variable {n : Nat} {cmp : Fin n → Fin n → Ordering} [Std.TransCmp cmp]
  {ok : Fin n → Fin n → Bool}

theorem Chains.of_below (hok : Chains cmp ok) {i j k : Fin n} (hij : below cmp i ≤ below cmp j)
    (hjk : below cmp j ≤ below cmp k) (h : ok i j) (h' : ok j k) : ok i k :=
  hok.trans ((isLE_iff cmp i j).2 hij) ((isLE_iff cmp j k).2 hjk) h h'

variable (cmp ok) in
/-- `x` is `p`, or equal to it by a pair with the property. -/
def Tied (p x : Fin n) : Prop :=
  x = p ∨ below cmp x = below cmp p ∧ ok x p

instance (p x : Fin n) : Decidable (Tied cmp ok p x) :=
  inferInstanceAs (Decidable (_ ∨ _))

variable (cmp ok) in
/-- The place of an item once `q`, with what is tied to it, has been moved before `p`, with what is
    tied to that. -/
def moved (p q x : Fin n) : Nat :=
  if Tied cmp ok p x then 3 * below cmp p + 2
  else if Tied cmp ok q x then 3 * below cmp p + 1
  else 3 * below cmp x

omit [Std.TransCmp cmp] in
theorem Tied.below_eq {p x : Fin n} (h : Tied cmp ok p x) : below cmp x = below cmp p := by
  rcases h with rfl | ⟨h, -⟩
  · rfl
  · exact h

theorem Tied.step (hok : Chains cmp ok) {p x y : Fin n} (h : Tied cmp ok p x) (hxy : ok x y)
    (heq : below cmp x = below cmp y) : Tied cmp ok p y := by
  have hyx : ok y x := hok.comm x y ▸ hxy
  refine Or.inr ⟨heq ▸ h.below_eq, ?_⟩
  rcases h with rfl | ⟨hx, hxp⟩
  · exact hyx
  · exact hok.of_below heq.ge hx.le hyx hxp

variable (cmp ok) in
/-- Two items without the property, the second one next to the first one or equal to it. -/
structure Gap (p q : Fin n) : Prop where
  notOk : ok p q = false
  le : below cmp p ≤ below cmp q
  next (z : Fin n) : below cmp z ≤ below cmp p ∨ below cmp q ≤ below cmp z

namespace Gap

variable {p q : Fin n}

/-- Nothing with the property bridges the gap, not between the items tied to its ends either. -/
theorem not_tied (hgap : Gap cmp ok p q) (hok : Chains cmp ok) {x y : Fin n} (hxy : ok x y)
    (hx : Tied cmp ok p x) : ¬ Tied cmp ok q y := by
  intro hy
  have hle := hgap.le
  have hxle : below cmp x ≤ below cmp y := by
    rw [hx.below_eq, hy.below_eq]
    exact hle
  have hpy : ok p y := by
    rcases hx with rfl | ⟨hpx, hxp⟩
    · exact hxy
    · exact hok.of_below hpx.ge hxle (hok.comm x p ▸ hxp) hxy
  have hpq : ok p q := by
    rcases hy with rfl | ⟨hyq, hyq'⟩
    · exact hpy
    · exact hok.of_below (hyq ▸ hle) hyq.le hpy hyq'
  rw [hgap.notOk] at hpq
  cases hpq

theorem moved_lt_moved (hgap : Gap cmp ok p q) (hok : Chains cmp ok) {x y : Fin n} (hxy : ok x y)
    (hlt : below cmp x < below cmp y) : moved cmp ok p q x < moved cmp ok p q y := by
  have hle := hgap.le
  have hnext := hgap.next x
  unfold moved
  by_cases hpx : Tied cmp ok p x
  · -- `y` is above `p`, and not tied to `q`
    have hpy : ¬ Tied cmp ok p y := by
      intro hpy
      rw [hpx.below_eq, hpy.below_eq] at hlt
      omega
    have hbelow := hpx.below_eq
    rw [if_pos hpx, if_neg hpy, if_neg (hgap.not_tied hok hxy hpx)]
    omega
  · rw [if_neg hpx]
    by_cases hqx : Tied cmp ok q x
    · -- `y` is above `q`, and tied to neither
      have hpy : ¬ Tied cmp ok p y := by
        intro hpy
        exact hgap.not_tied hok (hok.comm x y ▸ hxy) hpy hqx
      have hqy : ¬ Tied cmp ok q y := by
        intro hqy
        rw [hqx.below_eq, hqy.below_eq] at hlt
        omega
      have hbelow := hqx.below_eq
      rw [if_pos hqx, if_neg hpy, if_neg hqy]
      omega
    · -- `x` stays where it is, at most at `p` if `y` is tied to `q`
      rw [if_neg hqx]
      split
      · next hpy =>
        have hbelow := hpy.below_eq
        omega
      · split
        · next hqy =>
          have hbelow := hqy.below_eq
          omega
        · omega

theorem moved_eq_moved (hok : Chains cmp ok) {x y : Fin n} (hxy : ok x y)
    (heq : below cmp x = below cmp y) : moved cmp ok p q x = moved cmp ok p q y := by
  have htied (r : Fin n) : Tied cmp ok r x ↔ Tied cmp ok r y :=
    ⟨fun h => h.step hok hxy heq, fun h => h.step hok (hok.comm x y ▸ hxy) heq.symm⟩
  unfold moved
  simp only [htied p, htied q, heq]

/-- The preorder after moving gives the same answer on every pair with the property. -/
theorem compare_moved (hgap : Gap cmp ok p q) (hok : Chains cmp ok) {x y : Fin n}
    (hxy : ok x y) : compareOn (moved cmp ok p q) x y = cmp x y := by
  rw [← compare_below cmp x y, compareOn]
  rcases Nat.lt_trichotomy (below cmp x) (below cmp y) with hlt | heq | hgt
  · rw [Nat.compare_eq_lt.2 hlt, Nat.compare_eq_lt.2 (hgap.moved_lt_moved hok hxy hlt)]
  · rw [Nat.compare_eq_eq.2 heq, Nat.compare_eq_eq.2 (moved_eq_moved hok hxy heq)]
  · have hyx : ok y x := hok.comm x y ▸ hxy
    rw [Nat.compare_eq_gt.2 hgt, Nat.compare_eq_gt.2 (hgap.moved_lt_moved hok hyx hgt)]

omit [Std.TransCmp cmp] in
/-- The gap itself is turned round. -/
theorem compare_moved_self (hgap : Gap cmp ok p q) (hok : Chains cmp ok) (hne : q ≠ p) :
    compareOn (moved cmp ok p q) p q = .gt := by
  have hself (r : Fin n) : Tied cmp ok r r := Or.inl rfl
  have htied : ¬ Tied cmp ok p q := by
    rintro (heq | ⟨-, hqp⟩)
    · exact hne heq
    · rw [hok.comm, hgap.notOk] at hqp
      cases hqp
  have hmoved : moved cmp ok p q q < moved cmp ok p q p := by
    unfold moved
    rw [if_neg htied, if_pos (hself q), if_pos (hself p)]
    omega
  exact Nat.compare_eq_gt.2 hmoved

/-- Neighbours in the stable order without the property are a gap. -/
theorem of_adjacent {before after : List (Fin n)}
    (h : IsStableOrder cmp (before ++ p :: q :: after)) (hpq : ok p q = false) :
    Gap cmp ok p q := by
  have hbelow {i j : Fin n} (hij : Precedes cmp i j) : below cmp i ≤ below cmp j :=
    (isLE_iff cmp i j).1 hij.isLE
  obtain ⟨-, hrest, hbefore⟩ := List.pairwise_append.1 h.ascending
  obtain ⟨hp, hrest⟩ := List.pairwise_cons.1 hrest
  obtain ⟨hq, -⟩ := List.pairwise_cons.1 hrest
  refine ⟨hpq, hbelow (hp q List.mem_cons_self), ?_⟩
  intro z
  have hz : z ∈ before ++ p :: q :: after := h.perm.mem_iff.2 (List.mem_finRange z)
  simp only [List.mem_append, List.mem_cons] at hz
  rcases hz with hz | rfl | rfl | hz
  · exact Or.inl (hbelow (hbefore z hz p List.mem_cons_self))
  · exact Or.inl le_rfl
  · exact Or.inr le_rfl
  · exact Or.inr (hbelow (hq z hz))

end Gap

end

/-! ## What is not asked is known from what is -/

theorem precedes_of_adjacent {n : Nat} {cmp : Fin n → Fin n → Ordering} {p q : Fin n}
    {before after : List (Fin n)} (h : IsStableOrder cmp (before ++ p :: q :: after)) :
    Precedes cmp p q :=
  (List.isChain_append_cons_cons.1 h.ascending.isChain).2.1

variable {n : Nat} {cmp : Fin n → Fin n → Ordering} [Std.TransCmp cmp]
  {ok : Fin n → Fin n → Bool}

/-- Items that come one behind the other have the property, if all asked pairs have it. -/
theorem ok_of_adjacent (S : StableSort) (hok : Chains cmp ok)
    (hasked : ∀ q ∈ (S.procedure n).asked cmp, ok q.1 q.2) {p q : Fin n}
    {before after : List (Fin n)}
    (horder : (S.procedure n).order cmp = before ++ p :: q :: after) : ok p q := by
  by_contra hpq
  have hstable := S.stable cmp
  rw [horder] at hstable
  have hgap : Gap cmp ok p q := Gap.of_adjacent hstable (Bool.not_eq_true _ ▸ hpq)
  -- the same order comes out when the two are exchanged
  have hsame : (S.procedure n).order (compareOn (moved cmp ok p q))
      = before ++ p :: q :: after := by
    rw [← horder]
    refine Procedure.order_congr _ ?_
    intro r hr
    exact hgap.compare_moved hok (hasked r hr)
  have hstable' := S.stable (compareOn (moved cmp ok p q))
  rw [hsame] at hstable'
  have hle := (precedes_of_adjacent hstable').isLE
  rw [hgap.compare_moved_self hok (precedes_of_adjacent hstable).ne] at hle
  cases hle

/-- **A property that chains and holds of every pair asked holds of every pair.** -/
theorem all_of_asked (S : StableSort) (hok : Chains cmp ok)
    (hasked : ∀ q ∈ (S.procedure n).asked cmp, ok q.1 q.2) {i j : Fin n} (hne : i ≠ j) :
    ok i j := by
  have hstable := S.stable cmp
  -- along the order each item is less or equal, with the property
  let Leads (i j : Fin n) : Prop := (cmp i j).isLE ∧ ok i j
  have : Trans Leads Leads Leads :=
    ⟨fun h h' => ⟨Std.TransCmp.isLE_trans h.1 h'.1, hok.trans h.1 h'.1 h.2 h'.2⟩⟩
  have hchain : ((S.procedure n).order cmp).IsChain Leads := by
    rw [List.isChain_iff_forall_rel_of_append_cons_cons]
    intro p q before after horder
    exact ⟨(precedes_of_adjacent (horder ▸ hstable)).isLE, S.ok_of_adjacent hok hasked horder⟩
  have hall : ((S.procedure n).order cmp).Pairwise fun i j => ok i j :=
    hchain.pairwise.imp And.right
  have : Std.Symm fun i j => ok i j = true := ⟨fun i j h => hok.comm i j ▸ h⟩
  have hmem (k : Fin n) : k ∈ (S.procedure n).order cmp :=
    hstable.perm.mem_iff.2 (List.mem_finRange k)
  exact hall.forall (hmem i) (hmem j) hne

end StableSort

/-! ## Insertion -/

namespace Procedure

variable {n : Nat}

/-- Put an item among the placed ones, which stand greatest first, and go on. -/
def insertAt (x : Fin n) : (placed : List (Fin n)) → (List (Fin n) → Procedure n) → Procedure n
  | [], next => next [x]
  | y :: ys, next => ask x y fun o =>
    if o = .lt then insertAt x ys fun rest => next (y :: rest) else next (x :: y :: ys)

/-- Put the items among the placed ones, one after the other. -/
def insertAll : (items placed : List (Fin n)) → Procedure n
  | [], placed => done placed.reverse
  | x :: xs, placed => insertAt x placed (insertAll xs)

variable (cmp : Fin n → Fin n → Ordering)

/-- The placed items, and one more. -/
def inserted (x : Fin n) (placed : List (Fin n)) : List (Fin n) :=
  placed.orderedInsert (fun i j => cmp i j ≠ .lt) x

/-- The placed items that the next one is compared with. -/
def comparedWith (x : Fin n) : (placed : List (Fin n)) → List (Fin n)
  | [] => []
  | y :: ys => y :: if cmp x y = .lt then comparedWith x ys else []

theorem inserted_cons (x y : Fin n) (ys : List (Fin n)) :
    inserted cmp x (y :: ys)
      = if cmp x y = .lt then y :: inserted cmp x ys else x :: y :: ys := by
  rw [inserted, List.orderedInsert_cons, ite_not]
  rfl

theorem order_insertAt (x : Fin n) (placed : List (Fin n)) (next : List (Fin n) → Procedure n) :
    (insertAt x placed next).order cmp = (next (inserted cmp x placed)).order cmp := by
  induction placed generalizing next with
  | nil => rfl
  | cons y ys ih =>
    rw [insertAt, order, inserted_cons]
    split
    · exact ih _
    · rfl

theorem asked_insertAt (x : Fin n) (placed : List (Fin n)) (next : List (Fin n) → Procedure n) :
    (insertAt x placed next).asked cmp
      = (comparedWith cmp x placed).map (fun y => (x, y))
        ++ (next (inserted cmp x placed)).asked cmp := by
  induction placed generalizing next with
  | nil => rfl
  | cons y ys ih =>
    rw [insertAt, asked, inserted_cons, comparedWith, List.map_cons, List.cons_append]
    split
    · rw [ih]
    · rfl

theorem mem_of_mem_comparedWith {x y : Fin n} {placed : List (Fin n)}
    (h : y ∈ comparedWith cmp x placed) : y ∈ placed := by
  induction placed with
  | nil => cases h
  | cons z zs ih =>
    rw [comparedWith, List.mem_cons] at h
    rcases h with rfl | h
    · exact List.mem_cons_self
    · split at h
      · exact List.mem_cons_of_mem _ (ih h)
      · cases h

theorem mem_inserted {x y : Fin n} {placed : List (Fin n)} :
    y ∈ inserted cmp x placed ↔ y = x ∨ y ∈ placed :=
  List.mem_orderedInsert _

theorem perm_insertAll (xs placed : List (Fin n)) :
    ((insertAll xs placed).order cmp).Perm (xs ++ placed) := by
  induction xs generalizing placed with
  | nil => exact List.reverse_perm placed
  | cons x xs ih =>
    rw [insertAll, order_insertAt]
    calc (insertAll xs (inserted cmp x placed)).order cmp
        |>.Perm (xs ++ inserted cmp x placed) := ih _
      _ |>.Perm (xs ++ x :: placed) := (List.perm_orderedInsert _ x placed).append_left xs
      _ |>.Perm (x :: xs ++ placed) := List.perm_middle

/-- Part of the items is placed, in the stable order from the greatest on; the others all stood
    behind these. -/
structure Placing (placed xs : List (Fin n)) : Prop where
  descending : placed.Pairwise fun i j => Precedes cmp j i
  behind : ∀ y ∈ placed, ∀ x ∈ xs, y < x
  ahead : xs.Pairwise (· < ·)

theorem placing_finRange : Placing cmp [] (List.finRange n) where
  descending := .nil
  behind := by simp
  ahead := List.pairwise_lt_finRange n

variable [Std.TransCmp cmp]

theorem descending_inserted {x : Fin n} {placed : List (Fin n)}
    (hplaced : placed.Pairwise fun i j => Precedes cmp j i) (hx : ∀ y ∈ placed, y < x) :
    (inserted cmp x placed).Pairwise fun i j => Precedes cmp j i := by
  induction placed with
  | nil => exact List.pairwise_singleton _ x
  | cons y ys ih =>
    obtain ⟨hy, hys⟩ := List.pairwise_cons.1 hplaced
    rw [inserted_cons]
    split
    · next hlt =>
      refine List.pairwise_cons.2 ⟨?_, ih hys fun z hz => hx z (List.mem_cons_of_mem _ hz)⟩
      intro z hz
      rcases (mem_inserted cmp).1 hz with rfl | hz
      · exact Or.inl hlt
      · exact hy z hz
    · next hge =>
      have hyx : (cmp y x).isLE := by
        have hswap : cmp y x = (cmp x y).swap := Std.OrientedCmp.eq_swap
        rw [hswap]
        cases h : cmp x y with
        | lt => exact absurd h hge
        | eq | gt => rfl
      refine List.pairwise_cons.2 ⟨?_, hplaced⟩
      intro z hz
      refine precedes_of_isLE ?_ (hx z hz)
      rcases List.mem_cons.1 hz with rfl | hz
      · exact hyx
      · exact Std.TransCmp.isLE_trans (hy z hz).isLE hyx

theorem Placing.step {x : Fin n} {placed xs : List (Fin n)} (h : Placing cmp placed (x :: xs)) :
    Placing cmp (inserted cmp x placed) xs where
  descending := descending_inserted cmp h.descending fun y hy => h.behind y hy x List.mem_cons_self
  behind := by
    intro y hy z hz
    rcases (mem_inserted cmp).1 hy with rfl | hy
    · exact (List.pairwise_cons.1 h.ahead).1 z hz
    · exact h.behind y hy z (List.mem_cons_of_mem _ hz)
  ahead := h.ahead.of_cons

theorem ascending_insertAll {placed xs : List (Fin n)} (h : Placing cmp placed xs) :
    ((insertAll xs placed).order cmp).Pairwise (Precedes cmp) := by
  induction xs generalizing placed with
  | nil => exact List.pairwise_reverse.2 h.descending
  | cons x xs ih =>
    rw [insertAll, order_insertAt]
    exact ih h.step

theorem asked_insertAll_ne {placed xs : List (Fin n)} (h : Placing cmp placed xs) :
    ∀ q ∈ (insertAll xs placed).asked cmp, q.1 ≠ q.2 := by
  induction xs generalizing placed with
  | nil =>
    intro q hq
    cases hq
  | cons x xs ih =>
    intro q hq
    rw [insertAll, asked_insertAt, List.mem_append, List.mem_map] at hq
    rcases hq with ⟨y, hy, rfl⟩ | hq
    · exact (h.behind y (mem_of_mem_comparedWith cmp hy) x List.mem_cons_self).ne'
    · exact ih h.step q hq

end Procedure

/-- Sorting by insertion, from the last placed item backwards. -/
def StableSort.insertion : StableSort where
  procedure n := Procedure.insertAll (List.finRange n) []
  distinct cmp := Procedure.asked_insertAll_ne cmp (Procedure.placing_finRange cmp)
  stable cmp := {
    perm := by simpa using Procedure.perm_insertAll cmp (List.finRange _) []
    ascending := Procedure.ascending_insertAll cmp (Procedure.placing_finRange cmp) }

end StepScript
