import StepScript.Place
import StepScript.Proofs.Dictionary
import StepScript.Proofs.ValueOrder

/-!
# Parts of values, read and stored

A step leads from a list to an item, from a dictionary to the value of an entry, or from an object
to a field. Reading takes the step by `Value.item` and `Env.attributeOf` (`Env.partAt`), storing by
`Place.child` and `Place.storeIn`, each with rules of its own for what a key means. `HasPart` and
`Stored` say what the steps of storing do, and everything else is about these two.

A value stored along a path is read along it (`StoredAlong.partAlong_eq`), a second value stored
there leaves nothing of the first (`StoredAlong.overwrite`), and a path that takes another turn
reads what it has read before (`StoredAlong.partAlong_of_diverge`). A dictionary asks for keys that
equal themselves, or that are there already: a new entry under NaN is never found again.
-/

set_option autoImplicit false

namespace StepScript

variable {σ : Type}

/-- Two steps of a calculation that gives a result give one each. -/
theorem exists_ok_of_bind {α β : Type} {r : Except Fault α} {f : α → Except Fault β} {b : β}
    (h : (r >>= f) = .ok b) : ∃ a, r = .ok a ∧ f a = .ok b := by
  cases r with
  | ok a => exact ⟨a, rfl, h⟩
  | error fault => cases h

/-! ## Items, entries and fields -/

namespace Value

/-- The position in a list that a key means. -/
def itemPosition? (items : List Value) (key : Value) : Option Nat :=
  key.int?.bind fun n => position? items.length n.toInt

theorem itemPosition?_lt {items : List Value} {key : Value} {i : Nat}
    (h : itemPosition? items key = some i) : i < items.length := by
  obtain ⟨n, -, hposition⟩ := Option.bind_eq_some_iff.1 h
  exact position?_lt hposition

theorem itemPosition?_set (items : List Value) (i : Nat) (v key : Value) :
    itemPosition? (items.set i v) key = itemPosition? items key := by
  simp [itemPosition?]

theorem IsSound.keys {d : Dict} (h : (dict d).IsSound) : ∀ e ∈ d, e.1.IsSound :=
  fun e he => ((isSound_dict.1 h).2 e he).1

theorem item_list (items : List Value) (key : Value) :
    item (.list items) key
      = match itemPosition? items key with
        | some i =>
          match items[i]? with
          | some v => .ok v
          | none => .error (.value .listIndex)
        | none =>
          match key.int? with
          | some _ => .error (.value .listIndex)
          | none => .error (.type (.indexKind .list key.kind)) := by
  unfold item indexInt itemPosition?
  cases key.int? with
  | none => rfl
  | some n =>
    show itemAt items n.toInt .listIndex = _
    unfold itemAt
    dsimp only [Option.bind_some]
    cases position? items.length n.toInt with
    | none => rfl
    | some i =>
      dsimp only
      cases items[i]? <;> rfl

/-- A position names itself. -/
theorem itemAt_natCast {α : Type} {items : List α} {i : Nat} (hi : i < items.length)
    (fault : ValueFault) : itemAt items (i : Int) fault = .ok items[i] := by
  have hposition : position? items.length (i : Int) = some i := by
    have hnonneg : ¬ (i : Int) < 0 := by omega
    simp only [position?, if_neg hnonneg]
    simp [hi]
  simp [itemAt, hposition, hi]

end Value

namespace Dict

/-- What was inserted is found, unless it is new under a key that does not equal itself. -/
theorem get?_insert_self {k : Value} {d : Dict}
    (h : k.looseEq k = true ∨ ∃ c, get? d k = some c) (v : Value) :
    get? (insert k v d) k = some v := by
  induction d with
  | nil =>
    rcases h with hk | ⟨c, ⟨⟩⟩
    simp [insert, put, get?, hk]
  | cons e d ih =>
    rw [insert_cons]
    cases hek : e.1.looseEq k with
    | true => simp [get?_cons, hek]
    | false =>
      simp only [get?_cons, hek, Bool.false_eq_true, if_false] at h ⊢
      exact ih h

theorem insert_insert {k : Value} (hk : k.looseEq k = true) (v w : Value) (d : Dict) :
    insert k w (insert k v d) = insert k w d := by
  induction d with
  | nil => simp [insert, put, hk]
  | cons e d ih =>
    rw [insert_cons, insert_cons]
    cases hek : e.1.looseEq k with
    | true => simp [insert_cons, hek]
    | false => simpa [insert_cons, hek] using ih

end Dict

namespace Text

theorem orderOf_eq_iff {s t : String} : orderOf s t = .eq ↔ s = t := by
  constructor
  · intro h
    exact String.toList_inj.1 (eq_of_order h)
  · rintro rfl
    exact Std.ReflCmp.compare_self

end Text

namespace Place

theorem find?_setField (name other : String) (v : Value) (fields : List (String × Value)) :
    Table.find? other (setField name v fields)
      = if name = other then some v else Table.find? other fields := by
  induction fields with
  | nil => simp [setField, Table.find?]
  | cons f fields ih =>
    rw [setField]
    cases horder : Text.orderOf name f.1 with
    | lt => rfl
    | eq =>
      have hname : f.1 = name := (Text.orderOf_eq_iff.1 horder).symm
      simp only [Table.find?, hname]
      split <;> rfl
    | gt =>
      have hne : f.1 ≠ name := fun heq => by
        rw [Text.orderOf_eq_iff.2 heq.symm] at horder
        cases horder
      simp only [Table.find?, ih]
      by_cases hother : f.1 = other
      · simp [hother, Ne.symm (hother ▸ hne)]
      · simp [hother]

theorem setField_setField (name : String) (v w : Value) (fields : List (String × Value)) :
    setField name w (setField name v fields) = setField name w fields := by
  have hself : Text.orderOf name name = .eq := Text.orderOf_eq_iff.2 rfl
  induction fields with
  | nil => simp [setField, hself]
  | cons f fields ih =>
    cases horder : Text.orderOf name f.1 <;> simp [setField, horder, hself, ih]

end Place

/-! ## One step -/

namespace Accessor

/-- The key of the step, if it has one, is sound. -/
def IsSound : Accessor → Prop
  | .index key => key.IsSound
  | .field _ => True

/-- The key of the step, if it has one, is sound and without NaN. -/
def IsRegular : Accessor → Prop
  | .index key => key.IsRegular
  | .field _ => True

instance : (a : Accessor) → Decidable a.IsSound
  | .index key => inferInstanceAs (Decidable key.IsSound)
  | .field _ => .isTrue trivial

theorem IsRegular.isSound {a : Accessor} (h : a.IsRegular) : a.IsSound := by
  cases a with
  | index key => exact h.sound
  | field name => trivial

end Accessor

/-- The step can be taken by storing, and leads from a value to a part. -/
inductive HasPart : Value → Accessor → Value → Prop where
  | item {items : List Value} {key c : Value} {i : Nat}
      (hi : Value.itemPosition? items key = some i) (hc : items[i]? = some c) :
      HasPart (.list items) (.index key) c
  | entry {d : Dict} {key c : Value} (hc : d.get? key = some c) : HasPart (.dict d) (.index key) c
  | field {className name : String} {fields : List (String × Value)} {c : Value}
      (hc : Table.find? name fields = some c) :
      HasPart (.object className fields) (.field name) c

/-- The value with the part that a step leads to replaced. -/
inductive Stored (new : Value) : Value → Accessor → Value → Prop where
  | item {items : List Value} {key : Value} {i : Nat}
      (hi : Value.itemPosition? items key = some i) :
      Stored new (.list items) (.index key) (.list (items.set i new))
  | entry {d : Dict} {key : Value} :
      Stored new (.dict d) (.index key) (.dict (d.insert key new))
  | field {className name : String} {fields : List (String × Value)} :
      Stored new (.object className fields) (.field name)
        (.object className (Place.setField name new fields))

/-- Two steps from a value that lead to different parts. -/
inductive Apart : Value → Accessor → Accessor → Prop where
  | item {items : List Value} {key other : Value}
      (h : Value.itemPosition? items key ≠ Value.itemPosition? items other) :
      Apart (.list items) (.index key) (.index other)
  | entry {d : Dict} {key other : Value} (h : key.looseEq other = false) :
      Apart (.dict d) (.index key) (.index other)
  | field {className name other : String} {fields : List (String × Value)} (h : name ≠ other) :
      Apart (.object className fields) (.field name) (.field other)

/-- Two steps from a value that lead to the same part. -/
inductive Together : Value → Accessor → Accessor → Prop where
  | item {items : List Value} {key other : Value}
      (h : Value.itemPosition? items key = Value.itemPosition? items other) :
      Together (.list items) (.index key) (.index other)
  | entry {d : Dict} {key other : Value} (h : key.looseEq other = true) :
      Together (.dict d) (.index key) (.index other)
  | field {className name : String} {fields : List (String × Value)} :
      Together (.object className fields) (.field name) (.field name)

namespace Place

theorem listPosition_eq_ok_iff {items : List Value} {key : Value} {fault : ValueFault} {i : Nat} :
    listPosition items key fault = .ok i ↔ Value.itemPosition? items key = some i := by
  unfold listPosition Value.itemPosition?
  cases key.int? with
  | none => simp
  | some n =>
    dsimp only [Option.bind_some]
    cases position? items.length n.toInt <;> simp

theorem child_eq_ok_iff {v c : Value} {a : Accessor} : child v a = .ok c ↔ HasPart v a c := by
  constructor
  · intro h
    unfold child at h
    split at h
    · next items key =>
      obtain ⟨i, hi, h⟩ := exists_ok_of_bind h
      have hposition := listPosition_eq_ok_iff.1 hi
      have hlt := Value.itemPosition?_lt hposition
      rw [Value.itemAt_natCast hlt, Except.ok.injEq] at h
      exact .item hposition (h ▸ List.getElem?_eq_getElem hlt)
    · split at h
      · next hget =>
        cases h
        exact .entry hget
      · cases h
    · unfold Env.objectField at h
      split at h
      · next hfind =>
        cases h
        exact .field hfind
      · cases h
    · cases h
    · cases h
  · intro h
    cases h with
    | @item items key c i hi hc =>
      have hlt := Value.itemPosition?_lt hi
      rw [List.getElem?_eq_getElem hlt, Option.some.injEq] at hc
      rw [child, listPosition_eq_ok_iff.2 hi, ← hc]
      exact Value.itemAt_natCast hlt _
    | entry hc => simp only [child, hc]
    | field hc => simp only [child, Env.objectField, hc]

theorem storeIn_eq_ok_iff {v new v' : Value} {a : Accessor} :
    storeIn v a new = .ok v' ↔ Stored new v a v' := by
  constructor
  · intro h
    unfold storeIn at h
    split at h
    · next items key =>
      obtain ⟨i, hi, h⟩ := exists_ok_of_bind h
      cases h
      exact .item (listPosition_eq_ok_iff.1 hi)
    · cases h
      exact .entry
    · cases h
      exact .field
    · cases h
    · cases h
  · intro h
    cases h with
    | item hi =>
      rw [storeIn, listPosition_eq_ok_iff.2 hi]
      rfl
    | entry => rfl
    | field => rfl

end Place

/-! ## Reading -/

namespace Env

/-- The part of a value that a step reads. -/
def partAt (env : Env σ) (v : Value) : Accessor → Except Fault Value
  | .index key => v.item key
  | .field name => env.attributeOf v name

/-- The part of a value that is read along a path. -/
def partAlong (env : Env σ) (v : Value) (path : List Accessor) : Except Fault Value :=
  path.foldlM env.partAt v

theorem partAlong_cons (env : Env σ) (v : Value) (a : Accessor) (path : List Accessor) :
    env.partAlong v (a :: path) = env.partAt v a >>= fun c => env.partAlong c path :=
  List.foldlM_cons

theorem partAlong_of_partAt {env : Env σ} {v c : Value} {a : Accessor} (h : env.partAt v a = .ok c)
    (path : List Accessor) : env.partAlong v (a :: path) = env.partAlong c path := by
  rw [partAlong_cons, h]
  rfl

end Env

/-- Where storing finds a part, reading finds the same. -/
theorem HasPart.partAt_eq {v c : Value} {a : Accessor} (h : HasPart v a c) (env : Env σ) :
    env.partAt v a = .ok c := by
  cases h with
  | item hi hc => simp only [Env.partAt, Value.item_list, hi, hc]
  | entry hc => simp only [Env.partAt, Value.item, hc]
  | field hc => simp only [Env.partAt, Env.attributeOf, Env.objectField, hc]

namespace Stored

variable {new v v' : Value} {a b : Accessor}

/-- Where something can be stored, reading finds no other parts than storing. -/
theorem hasPart_of_partAt (h : Stored new v a v') {env : Env σ} {c : Value}
    (hc : env.partAt v a = .ok c) : HasPart v a c := by
  cases h with
  | item hi =>
    have hlt := Value.itemPosition?_lt hi
    simp only [Env.partAt, Value.item_list, hi, List.getElem?_eq_getElem hlt, Except.ok.injEq] at hc
    exact .item hi (hc ▸ List.getElem?_eq_getElem hlt)
  | entry =>
    simp only [Env.partAt, Value.item] at hc
    split at hc
    · next hget =>
      cases hc
      exact .entry hget
    · cases hc
  | field =>
    simp only [Env.partAt, Env.attributeOf, Env.objectField] at hc
    split at hc
    · next hfind =>
      cases hc
      exact .field hfind
    · cases hc

/-- What was stored is found again, unless it is new under a key that does not equal itself. -/
theorem hasPart (h : Stored new v a v') (ha : a.IsRegular ∨ ∃ c, HasPart v a c) :
    HasPart v' a new := by
  cases h with
  | item hi =>
    refine .item ((Value.itemPosition?_set _ _ _ _).trans hi) ?_
    exact List.getElem?_set_self (Value.itemPosition?_lt hi)
  | entry =>
    refine .entry (Dict.get?_insert_self (ha.imp (Value.equal_self (s := .loose)) ?_) new)
    rintro ⟨c, hc⟩
    cases hc with
    | entry hc => exact ⟨c, hc⟩
  | field => exact .field (by rw [Place.find?_setField, if_pos rfl])

/-- Whatever can be stored once can be replaced, and then nothing of it is left. -/
theorem overwrite (h : Stored new v a v') (ha : a.IsRegular) (w : Value) :
    ∃ v'', Stored w v a v'' ∧ Stored w v' a v'' := by
  cases h with
  | @item items key i hi =>
    have hagain : Stored w (.list (items.set i new)) (.index key) _ :=
      .item ((Value.itemPosition?_set items i new key).trans hi)
    rw [List.set_set] at hagain
    exact ⟨_, .item hi, hagain⟩
  | @entry d key =>
    have hagain : Stored w (.dict (d.insert key new)) (.index key) _ := .entry
    rw [Dict.insert_insert (Value.equal_self (s := .loose) ha)] at hagain
    exact ⟨_, .entry, hagain⟩
  | @field className name fields =>
    have hagain : Stored w (.object className (Place.setField name new fields)) (.field name) _ :=
      .field
    rw [Place.setField_setField] at hagain
    exact ⟨_, .field, hagain⟩

/-- Other parts are what they were. -/
theorem partAt_of_apart (h : Stored new v a v') (hv : v.IsSound) (ha : a.IsSound) (hb : b.IsSound)
    (hapart : Apart v a b) (env : Env σ) : env.partAt v' b = env.partAt v b := by
  cases h with
  | @item items key i hi =>
    cases hapart with
    | @item _ _ other hne =>
      rw [hi] at hne
      simp only [Env.partAt, Value.item_list, Value.itemPosition?_set]
      cases hj : Value.itemPosition? items other with
      | none => rfl
      | some j =>
        have hij : i ≠ j := fun hij => hne (by rw [hj, hij])
        dsimp only
        rw [List.getElem?_set_ne hij]
  | entry =>
    cases hapart with
    | entry hne =>
      simp only [Env.partAt, Value.item, Dict.get?_insert ha hb new hv.keys, hne,
        Bool.false_eq_true,
        if_false]
  | field =>
    cases hapart with
    | field hne =>
      simp only [Env.partAt, Env.attributeOf, Env.objectField, Place.find?_setField, if_neg hne]

/-- Another step to the same part finds what was stored. -/
theorem hasPart_of_together (h : Stored new v a v') (hv : v.IsSound) (ha : a.IsSound)
    (hb : b.IsSound) (htogether : Together v a b) : HasPart v' b new := by
  cases h with
  | item hi =>
    cases htogether with
    | item heq =>
      refine .item ((Value.itemPosition?_set _ _ _ _).trans (heq.symm.trans hi)) ?_
      exact List.getElem?_set_self (Value.itemPosition?_lt hi)
  | entry =>
    cases htogether with
    | entry heq =>
      exact .entry (by rw [Dict.get?_insert ha hb new hv.keys, heq, if_pos rfl])
  | field =>
    cases htogether
    exact .field (by rw [Place.find?_setField, if_pos rfl])

end Stored

namespace HasPart

variable {v c : Value} {a b : Accessor}

/-- Another step to the same part finds it. -/
theorem of_together (h : HasPart v a c) (hv : v.IsSound) (ha : a.IsSound) (hb : b.IsSound)
    (htogether : Together v a b) : HasPart v b c := by
  cases h with
  | item hi hc =>
    cases htogether with
    | item heq => exact .item (heq.symm.trans hi) hc
  | @entry d key _ hc =>
    cases htogether with
    | @entry _ _ other heq =>
      refine .entry (Eq.trans ?_ hc)
      rw [Dict.get?, Dict.get?]
      congr 1
      refine List.find?_congr fun e he => ?_
      rw [Value.looseEq_comm (hv.keys e he) hb, Value.looseEq_comm (hv.keys e he) ha]
      exact (Value.looseEq_congr ha hb (hv.keys e he) heq).symm
  | field hc =>
    cases htogether
    exact .field hc

theorem mem_children (h : HasPart v a c) : c ∈ v.children := by
  cases h with
  | item hi hc => exact List.mem_of_getElem? hc
  | entry hc =>
    obtain ⟨e, he, rfl⟩ := Option.map_eq_some_iff.1 hc
    exact Value.value_mem_children (List.mem_of_find?_eq_some he)
  | field hc => exact List.mem_map_of_mem (f := Prod.snd) (Table.mem_of_find? hc)

theorem isSound (h : HasPart v a c) (hv : v.IsSound) : c.IsSound :=
  (Value.isSound_iff.1 hv).2 c h.mem_children

theorem unique {c' : Value} (h : HasPart v a c) (h' : HasPart v a c') : c = c' :=
  Except.ok.inj ((Place.child_eq_ok_iff.2 h).symm.trans (Place.child_eq_ok_iff.2 h'))

end HasPart

/-! ## Paths -/

/-- The value with the part at the end of a path replaced. -/
inductive StoredAlong (new : Value) : Value → List Accessor → Value → Prop where
  | here {v : Value} : StoredAlong new v [] new
  | last {v v' : Value} {a : Accessor} (h : Stored new v a v') : StoredAlong new v [a] v'
  | inside {v c c' v' : Value} {a b : Accessor} {path : List Accessor} (hpart : HasPart v a c)
      (hinside : StoredAlong new c (b :: path) c') (h : Stored c' v a v') :
      StoredAlong new v (a :: b :: path) v'

/-- Paths that part from a value on: after steps to the same parts, to different ones. -/
inductive Diverge : Value → List Accessor → List Accessor → Prop where
  | apart {v : Value} {a b : Accessor} (path other : List Accessor) (h : Apart v a b) :
      Diverge v (a :: path) (b :: other)
  | inside {v c : Value} {a b : Accessor} {path other : List Accessor} (htogether : Together v a b)
      (hpart : HasPart v a c) (h : Diverge c path other) : Diverge v (a :: path) (b :: other)

theorem Place.storeAlong_eq_ok_iff {v new v' : Value} {path : List Accessor} :
    storeAlong v path new = .ok v' ↔ StoredAlong new v path v' := by
  constructor
  · intro h
    induction path generalizing v v' with
    | nil =>
      cases h
      exact .here
    | cons a path ih =>
      cases path with
      | nil => exact .last (storeIn_eq_ok_iff.1 h)
      | cons b path =>
        obtain ⟨c, hc, h⟩ := exists_ok_of_bind h
        obtain ⟨c', hc', h⟩ := exists_ok_of_bind h
        exact .inside (child_eq_ok_iff.1 hc) (ih hc') (storeIn_eq_ok_iff.1 h)
  · intro h
    induction h with
    | here => rfl
    | last h => exact storeIn_eq_ok_iff.2 h
    | @inside v c c' v' a b path hpart _ h ih =>
      show (child v a >>= fun c => storeAlong c (b :: path) new >>= storeIn v a) = .ok v'
      rw [child_eq_ok_iff.2 hpart]
      simp only [bind, Except.bind, ih]
      exact storeIn_eq_ok_iff.2 h

namespace StoredAlong

variable {new v v' : Value} {path : List Accessor}

/-- **What was stored along a path is read along it**, if its keys equal themselves or something was
    read along it before. -/
theorem partAlong_eq (h : StoredAlong new v path v') {env : Env σ}
    (hkeys : (∀ a ∈ path, a.IsRegular) ∨ ∃ old, env.partAlong v path = .ok old) (env' : Env σ) :
    env'.partAlong v' path = .ok new := by
  induction h with
  | here => rfl
  | @last v v' a h =>
    have hpart : HasPart v' a new := by
      refine h.hasPart ?_
      rcases hkeys with hkeys | ⟨old, hold⟩
      · exact Or.inl (hkeys a (List.mem_singleton_self a))
      · rw [Env.partAlong_cons] at hold
        obtain ⟨c, hc, -⟩ := exists_ok_of_bind hold
        exact Or.inr ⟨c, h.hasPart_of_partAt hc⟩
    rw [Env.partAlong_of_partAt (hpart.partAt_eq env')]
    rfl
  | @inside v c c' v' a b path hpart _ h ih =>
    have hstored : HasPart v' a c' := h.hasPart (Or.inr ⟨c, hpart⟩)
    rw [Env.partAlong_of_partAt (hstored.partAt_eq env')]
    rw [Env.partAlong_of_partAt (hpart.partAt_eq env)] at hkeys
    exact ih (hkeys.imp_left fun h a ha => h a (List.mem_cons_of_mem _ ha))

/-- **Of two values stored along a path only the second one is left.** -/
theorem overwrite (h : StoredAlong new v path v') (hkeys : ∀ a ∈ path, a.IsRegular) (w : Value) :
    ∃ v'', StoredAlong w v path v'' ∧ StoredAlong w v' path v'' := by
  induction h with
  | here => exact ⟨w, .here, .here⟩
  | @last v v' a h =>
    obtain ⟨v'', hfirst, hagain⟩ := h.overwrite (hkeys a (List.mem_singleton_self a)) w
    exact ⟨v'', .last hfirst, .last hagain⟩
  | @inside v c c' v' a b path hpart _ h ih =>
    have ha : a.IsRegular := hkeys a List.mem_cons_self
    obtain ⟨c'', hfirst, hagain⟩ := ih fun a ha => hkeys a (List.mem_cons_of_mem _ ha)
    obtain ⟨v'', hfirst', hagain'⟩ := h.overwrite ha c''
    exact ⟨v'', .inside hpart hfirst hfirst', .inside (h.hasPart (Or.inl ha)) hagain hagain'⟩

/-- **What lies on another path is what it was.** -/
theorem partAlong_of_diverge {other : List Accessor} (h : StoredAlong new v path v')
    (hv : v.IsSound) (hpath : ∀ a ∈ path, a.IsSound) (hother : ∀ a ∈ other, a.IsSound)
    (hdiverge : Diverge v path other) (env : Env σ) :
    env.partAlong v' other = env.partAlong v other := by
  induction hdiverge generalizing v' with
  | @apart v a b path other hapart =>
    have ha := hpath a List.mem_cons_self
    have hb := hother b List.mem_cons_self
    rw [Env.partAlong_cons, Env.partAlong_cons]
    cases h with
    | last h => rw [h.partAt_of_apart hv ha hb hapart env]
    | inside _ _ h => rw [h.partAt_of_apart hv ha hb hapart env]
  | @inside v c a b path other htogether hpart hdiverge ih =>
    have ha := hpath a List.mem_cons_self
    have hb := hother b List.mem_cons_self
    cases h with
    | last => cases hdiverge
    | @inside _ c₀ c' _ _ _ path hpart' hinside h =>
      obtain rfl : c₀ = c := hpart'.unique hpart
      have hbefore := (hpart.of_together hv ha hb htogether).partAt_eq env
      have hafter := (h.hasPart_of_together hv ha hb htogether).partAt_eq env
      rw [Env.partAlong_of_partAt hbefore, Env.partAlong_of_partAt hafter]
      exact ih hinside (hpart.isSound hv) (fun a ha => hpath a (List.mem_cons_of_mem _ ha))
        fun a ha => hother a (List.mem_cons_of_mem _ ha)

end StoredAlong

end StepScript
