import StepScript.Eval
import StepScript.Proofs.Integers

/-!
# Indexing and slicing

An index names the item at that position from the start, or from the end when it is negative. A
slice begins and ends at places between items, each the nearest one there is (`placeOf`), so it
never reaches outside of the sequence, and cutting a sequence at a place and joining the parts gives
it back. Texts are indexed and cut by their characters: what is done to a text is what is done to
the list of its characters (`ActsAsCharacters`).

The sum of a negative index and a length is computed in 64 bits without a check. It needs none, a
length having no more than 63 (`toInt_wordIndex`).
-/

set_option autoImplicit false

namespace StepScript

/-! ## Positions and places -/

section

variable {length : Nat} {index : Int}

/-- An index counted from the start. -/
def fromStart (length : Nat) (index : Int) : Int :=
  if index < 0 then index + length else index

/-- The place between items that is nearest to an index. -/
def placeOf (length : Nat) (index : Int) : Nat :=
  (max 0 (min (fromStart length index) length)).toNat

theorem position?_eq_some_iff {k : Nat} :
    position? length index = some k ↔ k < length ∧ (k : Int) = fromStart length index := by
  unfold position? fromStart
  simp only [Bool.and_eq_true, decide_eq_true_eq, Option.ite_none_right_eq_some, Option.some.injEq]
  omega

theorem bound_eq_placeOf (length : Nat) (index : Int) :
    bound length index = placeOf length index := by
  unfold bound placeOf fromStart
  split <;> omega

theorem placeOf_le (length : Nat) (index : Int) : placeOf length index ≤ length := by
  unfold placeOf
  omega

end

/-! ## Words -/

/-- An index counted from the start, in arithmetic that wraps around at 64 bits. -/
def wordIndex (length : Nat) (index : Int64) : Int64 :=
  if index < 0 then index + Int64.ofNat length else index

/-- The place between items that is nearest to an index, in the same arithmetic. -/
def wordPlace (length : Nat) (index : Int64) : Int64 :=
  if index < 0 then max (index + Int64.ofNat length) 0 else min index (Int64.ofNat length)

section

variable {length : Nat}

theorem toInt_max (m n : Int64) : (max m n).toInt = max m.toInt n.toInt := by
  simp only [max, Int64.le_iff_toInt_le]
  split <;> omega

theorem toInt_min (m n : Int64) : (min m n).toInt = min m.toInt n.toInt := by
  simp only [min, Int64.le_iff_toInt_le]
  split <;> omega

/-- Counting from the end never wraps around. -/
theorem toInt_wordIndex (hlength : length < 2 ^ 63) (index : Int64) :
    (wordIndex length index).toInt = fromStart length index.toInt := by
  have hbounds := Value.toInt_bounds index
  have hnat := Int64.toInt_ofNat_of_lt hlength
  unfold wordIndex fromStart
  simp only [Int64.lt_iff_toInt_lt, Int64.toInt_zero]
  split
  · rw [Int64.toInt_add, hnat]
    exact Int.bmod_eq_of_le (by omega) (by omega)
  · rfl

theorem toInt_wordPlace (hlength : length < 2 ^ 63) (index : Int64) :
    (wordPlace length index).toInt = placeOf length index.toInt := by
  have hindex := toInt_wordIndex hlength index
  have hnat := Int64.toInt_ofNat_of_lt hlength
  unfold wordIndex at hindex
  unfold wordPlace placeOf
  split
  · next hneg =>
    rw [if_pos hneg] at hindex
    rw [toInt_max, hindex, Int64.toInt_zero]
    unfold fromStart
    simp only [Int64.lt_iff_toInt_lt, Int64.toInt_zero] at hneg
    omega
  · next hneg =>
    rw [if_neg hneg] at hindex
    rw [toInt_min, hnat]
    unfold fromStart
    simp only [Int64.lt_iff_toInt_lt, Int64.toInt_zero] at hneg
    omega

end

namespace Value

/-! ## Slices of lists -/

section

variable {α β : Type}

/-- A slice lies between the places that its bounds name. -/
theorem sliceRange_eq (length : Nat) (low high : Option Int) :
    sliceRange length low high
      = (low.elim 0 (placeOf length),
          max (high.elim length (placeOf length)) (low.elim 0 (placeOf length))) := by
  unfold sliceRange
  cases low <;> cases high <;> simp [bound_eq_placeOf]

/-- A slice lies inside of the sequence. -/
theorem sliceRange_le (length : Nat) (low high : Option Int) :
    (sliceRange length low high).1 ≤ (sliceRange length low high).2 ∧
      (sliceRange length low high).2 ≤ length := by
  have hplace := placeOf_le length
  rw [sliceRange_eq]
  refine ⟨le_max_right _ _, max_le ?_ ?_⟩
  · cases high with
    | none => exact le_refl _
    | some i => exact hplace i
  · cases low with
    | none => exact Nat.zero_le _
    | some i => exact hplace i

theorem getElem?_slice (items : List α) (low high : Option Int) (k : Nat) :
    (slice items low high)[k]?
      = if low.elim 0 (placeOf items.length) + k < high.elim items.length (placeOf items.length)
        then items[low.elim 0 (placeOf items.length) + k]? else none := by
  unfold slice
  rw [sliceRange_eq]
  dsimp only
  rw [List.getElem?_drop, List.getElem?_take]
  congr 1
  exact propext (by omega)

/-- The parts before and behind a place make up the sequence. -/
theorem slice_append_slice (items : List α) (k : Int) :
    slice items none (some k) ++ slice items (some k) none = items := by
  have hplace := placeOf_le items.length k
  unfold slice
  rw [sliceRange_eq, sliceRange_eq]
  simp [hplace]

theorem slice_map (f : α → β) (items : List α) (low high : Option Int) :
    slice (items.map f) low high = (slice items low high).map f := by
  unfold slice
  simp

theorem itemAt_eq_ok_iff {items : List α} {index : Int} {fault : ValueFault} {a : α} :
    itemAt items index fault = .ok a ↔
      ∃ k : Nat, (k : Int) = fromStart items.length index ∧ items[k]? = some a := by
  unfold itemAt
  cases hposition : position? items.length index with
  | none =>
    refine iff_of_false (by simp) ?_
    rintro ⟨k, hk, ha⟩
    have hlt := (List.getElem?_eq_some_iff.1 ha).1
    rw [position?_eq_some_iff.2 ⟨hlt, hk⟩] at hposition
    cases hposition
  | some i =>
    obtain ⟨hlt, hi⟩ := position?_eq_some_iff.1 hposition
    simp only [List.getElem?_eq_getElem hlt, Except.ok.injEq]
    constructor
    · rintro rfl
      exact ⟨i, hi, List.getElem?_eq_getElem hlt⟩
    · rintro ⟨k, hk, ha⟩
      obtain rfl : k = i := by omega
      rwa [List.getElem?_eq_getElem hlt, Option.some.injEq] at ha

end

/-! ## Lists and texts -/

/-- How a value is indexed and cut that has these items. -/
structure SequenceLaws (c : Value) (items : List Value) : Prop where
  items_eq : c.items = .ok items
  /-- An index names one item, or none. -/
  item : ∀ (index : Int64) (v : Value), c.item (.int index) = .ok v ↔
    ∃ k : Nat, (k : Int) = fromStart items.length index.toInt ∧ items[k]? = some v
  /-- A slice is of the same kind and holds the items between the places that its bounds name. -/
  slice : ∀ low high : Option Int, ∃ part xs, c.sliced low high = .ok part ∧
    part.kind = c.kind ∧ part.items = .ok xs ∧ ∀ k, xs[k]? =
      if low.elim 0 (placeOf items.length) + k < high.elim items.length (placeOf items.length)
      then items[low.elim 0 (placeOf items.length) + k]? else none
  /-- The parts before and behind a place make up the value. -/
  rejoin : ∀ index : Int, ∃ front back, c.sliced none (some index) = .ok front ∧
    c.sliced (some index) none = .ok back ∧ binary .add front back = .ok c

/-- The fault of indexing a text where indexing a list of characters has a fault. -/
def textFault : Fault → Fault
  | .value .listIndex => .value .textIndex
  | .type (.indexKind .list kind) => .type (.indexKind .text kind)
  | fault => fault

/-- A text is measured, indexed and cut as the list of its characters is. -/
structure ActsAsCharacters (s : String) : Prop where
  length : Builtin.len.call [.text s] = Builtin.len.call [.list (characters s)]
  item : ∀ index, item (.text s) index = (item (.list (characters s)) index).mapError textFault
  slice : ∀ low high, ∃ part, sliced (.text s) low high = .ok (.text part) ∧
    sliced (.list (characters s)) low high = .ok (.list (characters part))

theorem sequenceLaws_list (items : List Value) : SequenceLaws (.list items) items := by
  constructor
  · rfl
  · intro index v
    have hitem : item (.list items) (.int index) = itemAt items index.toInt .listIndex := rfl
    rw [hitem, itemAt_eq_ok_iff]
  · intro low high
    exact ⟨_, _, rfl, rfl, rfl, getElem?_slice items low high⟩
  · intro index
    refine ⟨_, _, rfl, rfl, ?_⟩
    show Except.ok (Value.list (slice items none (some index) ++ slice items (some index) none)) = _
    rw [slice_append_slice]

theorem characters_ofList (cs : List Char) :
    characters (String.ofList cs) = cs.map fun c => .text (String.singleton c) := by
  rw [characters, String.toList_ofList]

/-- A text is indexed as the list of its characters is. -/
theorem item_text (s : String) (index : Value) :
    item (.text s) index = (item (.list (characters s)) index).mapError textFault := by
  cases hint : index.int? with
  | none =>
    simp only [item, indexInt, hint]
    rfl
  | some n =>
    simp only [item, indexInt, hint]
    show (itemAt s.toList n.toInt .textIndex).map (fun c => Value.text (String.singleton c))
      = (itemAt (characters s) n.toInt .listIndex).mapError textFault
    unfold itemAt characters
    rw [List.length_map]
    cases position? s.toList.length n.toInt with
    | none => rfl
    | some i =>
      dsimp only
      rw [List.getElem?_map]
      cases s.toList[i]? <;> rfl

theorem actsAsCharacters (s : String) : ActsAsCharacters s := by
  constructor
  · show Except.ok (Value.ofNat s.length) = .ok (.ofNat (characters s).length)
    rw [characters, List.length_map, String.length_toList]
  · exact item_text s
  · intro low high
    refine ⟨String.ofList (slice s.toList low high), rfl, ?_⟩
    show Except.ok (Value.list (slice (characters s) low high)) = _
    rw [characters_ofList, characters, slice_map]

theorem sequenceLaws_text (s : String) : SequenceLaws (.text s) (characters s) := by
  have hlist := sequenceLaws_list (characters s)
  constructor
  · rfl
  · intro index v
    rw [← hlist.item, item_text]
    cases item (.list (characters s)) (.int index) <;> simp [Except.mapError]
  · intro low high
    obtain ⟨part, hpart, hlistPart⟩ := (actsAsCharacters s).slice low high
    obtain ⟨_, xs, hsame, -, hxs, hget⟩ := hlist.slice low high
    obtain rfl := Except.ok.inj (hlistPart.symm.trans hsame)
    obtain rfl := Except.ok.inj hxs
    exact ⟨_, _, hpart, rfl, rfl, hget⟩
  · intro index
    refine ⟨_, _, rfl, rfl, ?_⟩
    show Except.ok (Value.text (String.ofList (slice s.toList none (some index))
      ++ String.ofList (slice s.toList (some index) none))) = _
    rw [← String.ofList_append, slice_append_slice, String.ofList_toList]

/-- **Lists and texts are indexed and cut inside of their bounds**, the places of a slice being
    those of its bounds, counted from the end where they are negative and moved to the nearest end
    where they lie outside; unchecked arithmetic of 64 bits finds the same positions and places. The
    parts before and behind any index make up the whole, and a text goes the way of the list of its
    characters, faults included. -/
theorem sequences_indexed :
    (∀ items, SequenceLaws (.list items) items) ∧
      (∀ s, SequenceLaws (.text s) (characters s) ∧ ActsAsCharacters s) ∧
      (∀ length low high, (sliceRange length low high).1 ≤ (sliceRange length low high).2 ∧
        (sliceRange length low high).2 ≤ length ∧
        (sliceRange length low high).1 = low.elim 0 (placeOf length) ∧
        (sliceRange length low high).2
          = max (high.elim length (placeOf length)) (low.elim 0 (placeOf length))) ∧
      ∀ length < 2 ^ 63, ∀ index : Int64,
        (bound length index.toInt : Int) = (wordPlace length index).toInt ∧
          ∀ k : Nat, position? length index.toInt = some k ↔
            k < length ∧ (k : Int) = (wordIndex length index).toInt := by
  refine ⟨sequenceLaws_list, ?_, ?_, ?_⟩
  · intro s
    exact ⟨sequenceLaws_text s, actsAsCharacters s⟩
  · intro length low high
    obtain ⟨hordered, hinside⟩ := sliceRange_le length low high
    refine ⟨hordered, hinside, ?_⟩
    rw [sliceRange_eq]
    exact ⟨rfl, rfl⟩
  · intro length hlength index
    rw [bound_eq_placeOf, toInt_wordPlace hlength, toInt_wordIndex hlength]
    exact ⟨rfl, fun k => position?_eq_some_iff⟩

/-- The least index of all, counted from the end in 64 bits, is not in a sequence of three, and its
    place is the start. -/
theorem sequences_indexed_leastIndex :
    3 < 2 ^ 63 ∧ (wordPlace 3 Int64.minValue).toInt = 0 ∧
      ∃ front back, sliced (.text "añb") none (some (-1)) = .ok front ∧
        sliced (.text "añb") (some (-1)) none = .ok back ∧
        binary .add front back = .ok (.text "añb") := by
  obtain ⟨-, htexts, -, hwords⟩ := sequences_indexed
  have hlength : 3 < 2 ^ 63 := by decide
  obtain ⟨hplace, -⟩ := hwords 3 hlength Int64.minValue
  refine ⟨hlength, ?_, (htexts "añb").1.rejoin (-1)⟩
  rw [← hplace]
  decide

end Value

end StepScript
