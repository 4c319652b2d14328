import StepScript.Dict

/-!
# What is inside a value

A value holds other values directly (`children`): the items of a list, the keys and values of a
dictionary, the fields of an object. `Within w v` says that `w` occurs in `v` at some depth, `v`
itself included, and a property of everything inside a value is a property of the value itself and
of everything inside its children (`forall_within_iff`).

Two such properties decide how values compare. In a sound value every dictionary has distinct keys,
which is what the operations on dictionaries keep; in a regular one there is no NaN besides.
-/

set_option autoImplicit false

namespace StepScript

/-- No key is equal to a later one. -/
def Dict.HasDistinctKeys (d : Dict) : Prop :=
  d.Pairwise fun e f => e.1.looseEq f.1 = false

instance (d : Dict) : Decidable d.HasDistinctKeys :=
  inferInstanceAs (Decidable (d.Pairwise fun e f => e.1.looseEq f.1 = false))

namespace Value

/-! ## Children -/

/-- The values that a value holds directly. -/
def children : Value → List Value
  | .list items => items
  | .dict entries => Dict.keys entries ++ Dict.values entries
  | .object _ fields => fields.map Prod.snd
  | _ => []

theorem key_mem_children {d : Dict} {e : Value × Value} (h : e ∈ d) : e.1 ∈ (dict d).children :=
  List.mem_append_left _ (List.mem_map_of_mem h)

theorem value_mem_children {d : Dict} {e : Value × Value} (h : e ∈ d) : e.2 ∈ (dict d).children :=
  List.mem_append_right _ (List.mem_map_of_mem h)

/-- The children of a dictionary are those of its entries. -/
theorem forall_children_dict {p : Value → Prop} {d : Dict} :
    (∀ c ∈ (dict d).children, p c) ↔ ∀ e ∈ d, p e.1 ∧ p e.2 := by
  constructor
  · intro h e he
    exact ⟨h _ (key_mem_children he), h _ (value_mem_children he)⟩
  · intro h c hc
    rcases List.mem_append.1 hc with hc | hc
    · obtain ⟨e, he, rfl⟩ := List.mem_map.1 hc
      exact (h e he).1
    · obtain ⟨e, he, rfl⟩ := List.mem_map.1 hc
      exact (h e he).2

theorem forall_children_object {p : Value → Prop} {c : String} {fields : List (String × Value)} :
    (∀ v ∈ (object c fields).children, p v) ↔ ∀ f ∈ fields, p f.2 :=
  List.forall_mem_map

theorem sizeOf_lt_of_mem_children {v w : Value} (h : w ∈ v.children) : sizeOf w < sizeOf v := by
  cases v with
  | list items =>
    have hlt : sizeOf w < sizeOf items := List.sizeOf_lt_of_mem h
    simp only [list.sizeOf_spec]
    omega
  | dict entries =>
    revert w
    rw [forall_children_dict]
    intro e he
    have hlt : sizeOf e < sizeOf entries := List.sizeOf_lt_of_mem he
    cases e
    simp only [dict.sizeOf_spec, Prod.mk.sizeOf_spec] at hlt ⊢
    omega
  | object c fields =>
    revert w
    rw [forall_children_object]
    intro f hf
    have hlt : sizeOf f < sizeOf fields := List.sizeOf_lt_of_mem hf
    cases f
    simp only [object.sizeOf_spec, Prod.mk.sizeOf_spec] at hlt ⊢
    omega
  | _ => cases h

/-- Induction over the children of values, their children, and so on. -/
theorem children_induction {motive : Value → Prop}
    (step : ∀ v, (∀ w ∈ v.children, motive w) → motive v) (v : Value) : motive v := by
  refine step v fun w hw => ?_
  have := sizeOf_lt_of_mem_children hw
  exact children_induction step w
termination_by sizeOf v

/-! ## At any depth -/

/-- The first value occurs in the second one, at some depth. -/
inductive Within : Value → Value → Prop where
  | self (v : Value) : Within v v
  | child {w c v : Value} (hw : Within w c) (hc : c ∈ v.children) : Within w v

theorem within_iff {w v : Value} : Within w v ↔ w = v ∨ ∃ c ∈ v.children, Within w c := by
  constructor
  · intro h
    cases h with
    | self => exact Or.inl rfl
    | child hw hc => exact Or.inr ⟨_, hc, hw⟩
  · rintro (rfl | ⟨c, hc, hw⟩)
    · exact .self w
    · exact .child hw hc

theorem not_within_iff {w v : Value} :
    ¬ Within w v ↔ w ≠ v ∧ ∀ c ∈ v.children, ¬ Within w c := by
  rw [within_iff]
  simp

/-- What holds of all values of one form inside a value holds of the value itself, if it has the
    form, and inside its children. -/
theorem forall_within_iff {α : Type} {form : α → Value} {p : α → Prop} {v : Value} :
    (∀ x, Within (form x) v → p x)
      ↔ (∀ x, form x = v → p x) ∧ ∀ c ∈ v.children, ∀ x, Within (form x) c → p x := by
  constructor
  · intro h
    exact ⟨fun x hx => h x (within_iff.2 (Or.inl hx)), fun c hc x hx => h x (.child hx hc)⟩
  · rintro ⟨hself, hchildren⟩ x hx
    rcases within_iff.1 hx with hx | ⟨c, hc, hx⟩
    · exact hself x hx
    · exact hchildren c hc x hx

/-- Every dictionary inside the value, at any depth, has distinct keys. -/
def IsSound (v : Value) : Prop :=
  ∀ d, Within (.dict d) v → Dict.HasDistinctKeys d

/-- No number inside the value, at any depth, is NaN. -/
def IsNaNFree (v : Value) : Prop :=
  ∀ x, Within (.float x) v → x.isNaN = false

/-- A sound value without NaN. -/
structure IsRegular (v : Value) : Prop where
  sound : v.IsSound
  nanFree : v.IsNaNFree

theorem isSound_iff {v : Value} :
    v.IsSound ↔ (∀ d, .dict d = v → Dict.HasDistinctKeys d) ∧ ∀ c ∈ v.children, c.IsSound :=
  forall_within_iff

theorem isNaNFree_iff {v : Value} :
    v.IsNaNFree ↔ (∀ x, .float x = v → x.isNaN = false) ∧ ∀ c ∈ v.children, c.IsNaNFree :=
  forall_within_iff

theorem isRegular_iff {v : Value} :
    v.IsRegular ↔ (∀ d, .dict d = v → Dict.HasDistinctKeys d) ∧
      (∀ x, .float x = v → x.isNaN = false) ∧ ∀ c ∈ v.children, c.IsRegular := by
  constructor
  · intro h
    obtain ⟨hdict, hsound⟩ := isSound_iff.1 h.sound
    obtain ⟨hfloat, hnan⟩ := isNaNFree_iff.1 h.nanFree
    exact ⟨hdict, hfloat, fun c hc => ⟨hsound c hc, hnan c hc⟩⟩
  · rintro ⟨hdict, hfloat, hchildren⟩
    exact ⟨isSound_iff.2 ⟨hdict, fun c hc => (hchildren c hc).sound⟩,
      isNaNFree_iff.2 ⟨hfloat, fun c hc => (hchildren c hc).nanFree⟩⟩

theorem isRegular_list {items : List Value} :
    (list items).IsRegular ↔ ∀ x ∈ items, x.IsRegular := by
  rw [isRegular_iff]
  simp [children]

theorem isRegular_object {c : String} {fields : List (String × Value)} :
    (object c fields).IsRegular ↔ ∀ f ∈ fields, f.2.IsRegular := by
  rw [isRegular_iff, forall_children_object]
  simp

theorem isRegular_dict {d : Dict} :
    (dict d).IsRegular ↔ d.HasDistinctKeys ∧ ∀ e ∈ d, e.1.IsRegular ∧ e.2.IsRegular := by
  rw [isRegular_iff, forall_children_dict]
  simp

theorem isSound_dict {d : Dict} :
    (dict d).IsSound ↔ d.HasDistinctKeys ∧ ∀ e ∈ d, e.1.IsSound ∧ e.2.IsSound := by
  rw [isSound_iff, forall_children_dict]
  simp

/-! ## Deciding -/

mutual

/-- The test holds of the value and of everything inside it. -/
def everywhere (test : Value → Bool) : Value → Bool
  | .list items => test (.list items) && everywhereItems test items
  | .dict entries => test (.dict entries) && everywhereEntries test entries
  | .object c fields => test (.object c fields) && everywhereFields test fields
  | v => test v

def everywhereItems (test : Value → Bool) : List Value → Bool
  | [] => true
  | v :: items => everywhere test v && everywhereItems test items

def everywhereEntries (test : Value → Bool) : List (Value × Value) → Bool
  | [] => true
  | e :: entries => everywhereEntry test e && everywhereEntries test entries

def everywhereEntry (test : Value → Bool) : Value × Value → Bool
  | (k, v) => everywhere test k && everywhere test v

def everywhereFields (test : Value → Bool) : List (String × Value) → Bool
  | [] => true
  | f :: fields => everywhereField test f && everywhereFields test fields

def everywhereField (test : Value → Bool) : String × Value → Bool
  | (_, v) => everywhere test v

end

theorem everywhere_eq (test : Value → Bool) (v : Value) :
    everywhere test v = (test v && v.children.all (everywhere test)) := by
  cases v with
  | list items =>
    rw [everywhere, children]
    congr 1
    induction items with
    | nil => rfl
    | cons v items ih => rw [everywhereItems, List.all_cons, ih]
  | dict entries =>
    have hentries : everywhereEntries test entries
        = entries.all fun e => everywhere test e.1 && everywhere test e.2 := by
      induction entries with
      | nil => rfl
      | cons e entries ih => rw [everywhereEntries, List.all_cons, ih, everywhereEntry]
    rw [everywhere, hentries, Bool.eq_iff_iff]
    simp [forall_children_dict]
  | object c fields =>
    rw [everywhere, children, List.all_map]
    congr 1
    induction fields with
    | nil => rfl
    | cons f fields ih => rw [everywhereFields, List.all_cons, ih, everywhereField]; rfl
  | _ => simp [everywhere, children]

theorem everywhere_iff {test : Value → Bool} {v : Value} :
    everywhere test v = true ↔ ∀ w, Within w v → test w = true := by
  induction v using children_induction with
  | step v ih =>
    rw [everywhere_eq, Bool.and_eq_true, List.all_eq_true]
    have hwithin := @forall_within_iff Value id (fun w => test w = true) v
    simp only [id, forall_eq] at hwithin
    rw [hwithin]
    exact and_congr_right fun _ => forall₂_congr ih

/-- What is said of all values of one form inside a value is decided by testing everything in it. -/
theorem everywhere_iff_form {α : Type} {form : α → Value} {p : α → Prop} {test : Value → Bool}
    (hform : ∀ x, test (form x) = true ↔ p x) (hothers : ∀ w, (∀ x, form x ≠ w) → test w = true)
    {v : Value} : everywhere test v = true ↔ ∀ x, Within (form x) v → p x := by
  rw [everywhere_iff]
  constructor
  · intro h x hx
    exact (hform x).1 (h _ hx)
  · intro h w hw
    by_cases hx : ∃ x, form x = w
    · obtain ⟨x, rfl⟩ := hx
      exact (hform x).2 (h x hw)
    · exact hothers w (not_exists.1 hx)

instance (v : Value) : Decidable v.IsSound :=
  decidable_of_iff (v.everywhere fun | .dict d => decide (Dict.HasDistinctKeys d) | _ => true) <| by
    refine everywhere_iff_form (by simp) ?_
    intro w hw
    split
    · exact absurd rfl (hw _)
    · rfl

instance (v : Value) : Decidable v.IsNaNFree :=
  decidable_of_iff (v.everywhere fun | .float x => !x.isNaN | _ => true) <| by
    refine everywhere_iff_form (by simp) ?_
    intro w hw
    split
    · exact absurd rfl (hw _)
    · rfl

instance (v : Value) : Decidable v.IsRegular :=
  decidable_of_iff (v.IsSound ∧ v.IsNaNFree) ⟨fun h => ⟨h.1, h.2⟩, fun h => ⟨h.sound, h.nanFree⟩⟩

end Value

end StepScript
