import StepScript.Proofs.Equality

/-!
# Dictionaries as mappings

A dictionary starts empty and is edited: a key inserted, removed, its value changed, or all of it
collected from a list of entries. No key is ever equal to a later one (`hasDistinctKeys_run`), since
a key goes last only if no key in front of it is equal to it.

Distinct keys and the coherence of loose equality make a dictionary a mapping of values up to loose
equality that remembers the order of insertion: `MapLaws` says what each operation finds and leaves,
entry by entry.
-/

set_option autoImplicit false

namespace StepScript

namespace Dict

open Value

/-! ## What an operation leaves -/

theorem get?_cons {e : Value × Value} {d : Dict} {k : Value} :
    get? (e :: d) k = if e.1.looseEq k then some e.2 else get? d k := by
  rw [get?, List.find?_cons]
  cases e.1.looseEq k <;> rfl

theorem contains_eq_false {d : Dict} {k : Value} :
    d.contains k = false ↔ ∀ e ∈ d, e.1.looseEq k = false := by
  simp [contains]

theorem put_fst (k v : Value) (d : Dict) : (put k v d).1 = get? d k := by
  induction d with
  | nil => rfl
  | cons e d ih =>
    rw [put, get?_cons, ← ih]
    split <;> rfl

theorem take_fst (k : Value) (d : Dict) : (take k d).1 = get? d k := by
  induction d with
  | nil => rfl
  | cons e d ih =>
    rw [take, get?_cons, ← ih]
    split <;> rfl

theorem insert_cons {k v : Value} {e : Value × Value} {d : Dict} :
    insert k v (e :: d) = if e.1.looseEq k then (e.1, v) :: d else e :: insert k v d := by
  rw [insert, put]
  split <;> rfl

theorem erase_cons {k : Value} {e : Value × Value} {d : Dict} :
    erase k (e :: d) = if e.1.looseEq k then d else e :: erase k d := by
  rw [erase, take]
  split <;> rfl

/-- The keys stay as they are if an equal one is there, and else the new one goes last. -/
theorem keys_insert (k v : Value) (d : Dict) :
    keys (insert k v d) = if d.contains k then keys d else keys d ++ [k] := by
  induction d with
  | nil => rfl
  | cons e d ih =>
    rw [insert_cons]
    cases h : e.1.looseEq k with
    | true => simp [contains, keys, h]
    | false =>
      have hcontains : contains (e :: d) k = contains d k := by simp [contains, h]
      rw [hcontains]
      show e.1 :: keys (insert k v d) = _
      rw [ih]
      split <;> rfl

theorem keys_modify (k : Value) (f : Value → Value) (d : Dict) : keys (modify k f d) = keys d := by
  induction d with
  | nil => rfl
  | cons e d ih =>
    rw [modify]
    split
    · rfl
    · exact congrArg (e.1 :: ·) ih

theorem erase_sublist (k : Value) (d : Dict) : (erase k d).Sublist d := by
  induction d with
  | nil => exact List.Sublist.slnil
  | cons e d ih =>
    rw [erase_cons]
    split
    · exact List.sublist_cons_self e d
    · exact ih.cons_cons e

/-- A key that is not there goes last. -/
theorem insert_of_not_contains {k v : Value} {d : Dict} (h : d.contains k = false) :
    insert k v d = d ++ [(k, v)] := by
  rw [contains_eq_false] at h
  induction d with
  | nil => rfl
  | cons e d ih =>
    rw [List.forall_mem_cons] at h
    rw [insert_cons, h.1, ih h.2]
    rfl

/-! ## Distinct keys -/

theorem hasDistinctKeys_iff {d : Dict} :
    d.HasDistinctKeys ↔ (keys d).Pairwise fun a b => a.looseEq b = false := by
  rw [keys, List.pairwise_map, HasDistinctKeys]

theorem hasDistinctKeys_insert {d : Dict} (h : d.HasDistinctKeys) (k v : Value) :
    (insert k v d).HasDistinctKeys := by
  rw [hasDistinctKeys_iff] at h ⊢
  rw [keys_insert]
  split
  · exact h
  · next hnew =>
    rw [Bool.not_eq_true, contains_eq_false] at hnew
    refine List.pairwise_append.2 ⟨h, List.pairwise_singleton _ _, ?_⟩
    intro a ha b hb
    obtain ⟨e, he, rfl⟩ := List.mem_map.1 ha
    rw [List.mem_singleton.1 hb]
    exact hnew e he

theorem hasDistinctKeys_insertAll {d : Dict} (h : d.HasDistinctKeys) (entries : Dict) :
    (insertAll d entries).HasDistinctKeys := by
  induction entries generalizing d with
  | nil => exact h
  | cons e entries ih => exact ih (hasDistinctKeys_insert h e.1 e.2)

/-- Behind an entry whose key equals a given one no other key does. -/
theorem HasDistinctKeys.forall_behind {e : Value × Value} {d : Dict} {k : Value}
    (h : HasDistinctKeys (e :: d)) (hkeys : ∀ f ∈ e :: d, f.1.IsSound) (hk : k.IsSound)
    (hek : e.1.looseEq k = true) : ∀ f ∈ d, f.1.looseEq k = false := by
  intro f hf
  have he := hkeys e List.mem_cons_self
  have hf' := hkeys f (List.mem_cons_of_mem e hf)
  have hef : e.1.looseEq f.1 = false := (List.pairwise_cons.1 h).1 f hf
  exact looseEq_eq_false he hk hf' hek hef

/-! ## Mappings -/

/-- A dictionary is a mapping of values up to loose equality, in the order of insertion. -/
structure MapLaws (d : Dict) : Prop where
  /-- A key that is inserted has the new value, and the others have what they had. -/
  get?_insert {k k' : Value} (hk : k.IsSound) (hk' : k'.IsSound) (v : Value) :
    get? (insert k v d) k' = if k.looseEq k' then some v else get? d k'
  /-- A key that is removed has no value, and the others have what they had. -/
  get?_erase {k k' : Value} (hk : k.IsSound) (hk' : k'.IsSound) :
    get? (erase k d) k' = if k.looseEq k' then none else get? d k'
  /-- Inserting gives the value that was there. -/
  put_fst (k v : Value) : (put k v d).1 = get? d k
  /-- Removing gives the value that was there. -/
  take_fst (k : Value) : (take k d).1 = get? d k
  /-- A key that is there keeps its place and what it is; another one goes last. -/
  insert_eq {k : Value} (hk : k.IsSound) (v : Value) :
    insert k v d =
      if d.contains k then d.map fun e => if e.1.looseEq k then (e.1, v) else e
      else d ++ [(k, v)]
  /-- The other entries stay, in their order. -/
  erase_eq {k : Value} (hk : k.IsSound) : erase k d = d.filter fun e => !e.1.looseEq k

theorem get?_insert {k k' : Value} (hk : k.IsSound) (hk' : k'.IsSound) (v : Value) {d : Dict}
    (hkeys : ∀ e ∈ d, e.1.IsSound) :
    get? (insert k v d) k' = if k.looseEq k' then some v else get? d k' := by
  induction d with
  | nil => exact get?_cons
  | cons e d ih =>
    rw [List.forall_mem_cons] at hkeys
    rw [insert_cons]
    cases hek : e.1.looseEq k with
    | true =>
      -- the entry and the key are found by the same keys
      have hsame : e.1.looseEq k' = k.looseEq k' := looseEq_congr hkeys.1 hk hk' hek
      simp only [if_true, get?_cons, hsame]
      split <;> rfl
    | false =>
      simp only [Bool.false_eq_true, if_false, get?_cons, ih hkeys.2]
      cases hek' : e.1.looseEq k' with
      | false => rfl
      | true =>
        have hkk' : k.looseEq k' = false := looseEq_eq_false hkeys.1 hk' hk hek' hek
        simp [hkk']

theorem get?_eq_none {d : Dict} {k : Value} (h : ∀ e ∈ d, e.1.looseEq k = false) :
    get? d k = none := by
  induction d with
  | nil => rfl
  | cons e d ih =>
    rw [List.forall_mem_cons] at h
    rw [get?_cons, h.1, ih h.2]
    rfl

theorem get?_erase {k k' : Value} (hk : k.IsSound) (hk' : k'.IsSound) {d : Dict}
    (h : d.HasDistinctKeys) (hkeys : ∀ e ∈ d, e.1.IsSound) :
    get? (erase k d) k' = if k.looseEq k' then none else get? d k' := by
  induction d with
  | nil => simp [erase, take, get?]
  | cons e d ih =>
    have hkeys' := List.forall_mem_cons.1 hkeys
    rw [erase_cons]
    cases hek : e.1.looseEq k with
    | true =>
      have hsame : e.1.looseEq k' = k.looseEq k' := looseEq_congr hkeys'.1 hk hk' hek
      simp only [if_true, get?_cons, hsame]
      cases hkk' : k.looseEq k' with
      | false => rfl
      | true => exact get?_eq_none (h.forall_behind hkeys hk' (hsame.trans hkk'))
    | false =>
      simp only [Bool.false_eq_true, if_false, get?_cons, ih (List.pairwise_cons.1 h).2 hkeys'.2]
      cases hek' : e.1.looseEq k' with
      | false => rfl
      | true =>
        have hkk' : k.looseEq k' = false := looseEq_eq_false hkeys'.1 hk' hk hek' hek
        simp [hkk']

theorem insert_of_contains {k v : Value} (hk : k.IsSound) {d : Dict} (h : d.HasDistinctKeys)
    (hkeys : ∀ e ∈ d, e.1.IsSound) (hcontains : d.contains k = true) :
    insert k v d = d.map fun e => if e.1.looseEq k then (e.1, v) else e := by
  induction d with
  | nil => cases hcontains
  | cons e d ih =>
    have hkeys' := List.forall_mem_cons.1 hkeys
    rw [insert_cons, List.map_cons]
    cases hek : e.1.looseEq k with
    | true =>
      have hrest : d.map (fun f => if f.1.looseEq k then (f.1, v) else f) = d := by
        refine (List.map_congr_left ?_).trans (List.map_id d)
        intro f hf
        simp [h.forall_behind hkeys hk hek f hf]
      simp [hrest]
    | false =>
      have hcontains' : contains d k = true := by simpa [contains, hek] using hcontains
      simp [ih (List.pairwise_cons.1 h).2 hkeys'.2 hcontains']

theorem erase_eq_filter {k : Value} (hk : k.IsSound) {d : Dict} (h : d.HasDistinctKeys)
    (hkeys : ∀ e ∈ d, e.1.IsSound) : erase k d = d.filter fun e => !e.1.looseEq k := by
  induction d with
  | nil => rfl
  | cons e d ih =>
    have hkeys' := List.forall_mem_cons.1 hkeys
    rw [erase_cons, List.filter_cons]
    cases hek : e.1.looseEq k with
    | true =>
      have hrest : d.filter (fun f => !f.1.looseEq k) = d := by
        rw [List.filter_eq_self]
        intro f hf
        simp [h.forall_behind hkeys hk hek f hf]
      simp [hrest]
    | false => simp [ih (List.pairwise_cons.1 h).2 hkeys'.2]

/-- **Distinct keys make a mapping**, if what is inside of them is sound. -/
theorem HasDistinctKeys.mapLaws {d : Dict} (h : d.HasDistinctKeys) (hkeys : ∀ e ∈ d, e.1.IsSound) :
    MapLaws d where
  get?_insert hk hk' v := get?_insert hk hk' v hkeys
  get?_erase hk hk' := get?_erase hk hk' h hkeys
  put_fst k v := put_fst k v d
  take_fst k := take_fst k d
  insert_eq {k} hk v := by
    split
    · next hcontains => exact insert_of_contains hk h hkeys hcontains
    · next hnew => exact insert_of_not_contains (Bool.not_eq_true _ ▸ hnew)
  erase_eq hk := erase_eq_filter hk h hkeys

/-! ## Edits -/

/-- One edit of a dictionary. -/
inductive Edit where
  | insert (key value : Value)
  | remove (key : Value)
  /-- The value of a key, in its place. -/
  | change (key : Value) (f : Value → Value)
  /-- The entries of a list and no others. -/
  | collect (entries : List (Value × Value))

def Edit.apply : Edit → Dict → Dict
  | .insert k v, d => Dict.insert k v d
  | .remove k, d => erase k d
  | .change k f, d => modify k f d
  | .collect entries, _ => ofList entries

/-- Nothing unsound comes into the dictionary. -/
def Edit.IsSound : Edit → Prop
  | .insert k v => k.IsSound ∧ v.IsSound
  | .remove _ => True
  | .change _ f => ∀ v, v.IsSound → (f v).IsSound
  | .collect entries => ∀ e ∈ entries, e.1.IsSound ∧ e.2.IsSound

/-- The empty dictionary after the edits. -/
def run (edits : List Edit) : Dict :=
  edits.foldl (fun d edit => edit.apply d) []

/-- What holds of the empty dictionary and is kept by every edit holds after all of them. -/
theorem run_induction {p : Dict → Prop} {edits : List Edit} (hnil : p [])
    (hstep : ∀ edit ∈ edits, ∀ d, p d → p (edit.apply d)) : p (run edits) :=
  List.foldlRecOn edits _ hnil fun d hd edit hedit => hstep edit hedit d hd

theorem hasDistinctKeys_apply (edit : Edit) {d : Dict} (h : d.HasDistinctKeys) :
    (edit.apply d).HasDistinctKeys := by
  cases edit with
  | insert k v => exact hasDistinctKeys_insert h k v
  | remove k => exact h.sublist (erase_sublist k d)
  | change k f =>
    rw [hasDistinctKeys_iff] at h ⊢
    rw [Edit.apply, keys_modify]
    exact h
  | collect entries => exact hasDistinctKeys_insertAll .nil entries

theorem hasDistinctKeys_run (edits : List Edit) : (run edits).HasDistinctKeys :=
  run_induction .nil fun edit _ _ h => hasDistinctKeys_apply edit h

theorem forall_mem_insert {p : Value × Value → Prop} {k v : Value} {d : Dict} (hnew : p (k, v))
    (hd : ∀ e ∈ d, p e ∧ p (e.1, v)) : ∀ e ∈ insert k v d, p e := by
  induction d with
  | nil => simpa [insert, put] using hnew
  | cons e d ih =>
    rw [List.forall_mem_cons] at hd
    rw [insert_cons]
    split
    · exact List.forall_mem_cons.2 ⟨hd.1.2, fun f hf => (hd.2 f hf).1⟩
    · exact List.forall_mem_cons.2 ⟨hd.1.1, ih hd.2⟩

theorem forall_mem_modify {p : Value × Value → Prop} {k : Value} {f : Value → Value} {d : Dict}
    (hd : ∀ e ∈ d, p e ∧ p (e.1, f e.2)) : ∀ e ∈ modify k f d, p e := by
  induction d with
  | nil => exact fun _ he => nomatch he
  | cons e d ih =>
    rw [List.forall_mem_cons] at hd
    rw [modify]
    split
    · exact List.forall_mem_cons.2 ⟨hd.1.2, fun f hf => (hd.2 f hf).1⟩
    · exact List.forall_mem_cons.2 ⟨hd.1.1, ih hd.2⟩

theorem isSound_insert {k v : Value} {d : Dict} (hk : k.IsSound) (hv : v.IsSound)
    (hd : (dict d).IsSound) : (dict (insert k v d)).IsSound := by
  obtain ⟨hdistinct, hentries⟩ := isSound_dict.1 hd
  refine isSound_dict.2 ⟨hasDistinctKeys_insert hdistinct k v, ?_⟩
  exact forall_mem_insert ⟨hk, hv⟩ fun e he => ⟨hentries e he, (hentries e he).1, hv⟩

theorem isSound_insertAll {entries d : Dict} (hentries : ∀ e ∈ entries, e.1.IsSound ∧ e.2.IsSound)
    (hd : (dict d).IsSound) : (dict (insertAll d entries)).IsSound := by
  induction entries generalizing d with
  | nil => exact hd
  | cons e entries ih =>
    rw [List.forall_mem_cons] at hentries
    exact ih hentries.2 (isSound_insert hentries.1.1 hentries.1.2 hd)

/-- One edit keeps a dictionary sound. -/
theorem isSound_apply {edit : Edit} (hedit : edit.IsSound) {d : Dict} (hd : (dict d).IsSound) :
    (dict (edit.apply d)).IsSound := by
  obtain ⟨hdistinct, hentries⟩ := isSound_dict.1 hd
  cases edit with
  | insert k v => exact isSound_insert hedit.1 hedit.2 hd
  | remove k =>
    refine isSound_dict.2 ⟨hasDistinctKeys_apply (.remove k) hdistinct, ?_⟩
    exact fun e he => hentries e ((erase_sublist k d).subset he)
  | change k f =>
    refine isSound_dict.2 ⟨hasDistinctKeys_apply (.change k f) hdistinct, ?_⟩
    refine forall_mem_modify fun e he => ?_
    obtain ⟨hkey, hvalue⟩ := hentries e he
    exact ⟨⟨hkey, hvalue⟩, hkey, hedit e.2 hvalue⟩
  | collect entries => exact isSound_insertAll hedit (isSound_dict.2 ⟨.nil, by simp⟩)

theorem isSound_run {edits : List Edit} (hedits : ∀ edit ∈ edits, edit.IsSound) :
    (dict (run edits)).IsSound :=
  run_induction (p := fun d => (dict d).IsSound) (isSound_dict.2 ⟨.nil, by simp⟩)
    fun edit hedit _ => isSound_apply (hedits edit hedit)

/-- **A dictionary is a mapping in the order of insertion.** Whatever was done to it, no key equals
    a later one; and if nothing unsound came in, then nothing unsound is in it, and what is
    inserted, found and removed obeys the laws of a mapping. -/
theorem run_isMapping (edits : List Edit) :
    (run edits).HasDistinctKeys ∧
      ((∀ edit ∈ edits, edit.IsSound) → (dict (run edits)).IsSound ∧ MapLaws (run edits)) := by
  refine ⟨hasDistinctKeys_run edits, fun hedits => ?_⟩
  have hsound := isSound_run hedits
  exact ⟨hsound, (hasDistinctKeys_run edits).mapLaws fun e he => ((isSound_dict.1 hsound).2 e he).1⟩

/-- A key that is a truth value is found as the integer that it equals, behind a key that is a
    dictionary. -/
theorem run_isMapping_mixed :
    let edits : List Edit :=
      [.collect [(.dict [(.text "x", .int 0)], .nothing), (.int 1, .text "a")],
        .insert (.text "k") (.list []), .change (.int 1) fun _ => .text "b", .remove (.text "k")]
    (∀ edit ∈ edits, edit.IsSound) ∧
      get? (insert (.bool true) (.int 7) (run edits)) (.int 1) = some (.int 7) ∧
      get? (erase (.bool true) (run edits)) (.int 1) = none ∧
      keys (insert (.bool true) (.int 7) (run edits)) = keys (run edits) := by
  intro edits
  have hedits : ∀ edit ∈ edits, edit.IsSound := by
    have hb : (Value.text "b").IsSound := by decide
    simp only [edits, List.forall_mem_cons]
    refine ⟨?_, ⟨by decide, by decide⟩, fun _ _ => hb, trivial, by simp⟩
    show ∀ e ∈ [(Value.dict [(.text "x", .int 0)], Value.nothing), (.int 1, .text "a")], _
    decide
  obtain ⟨-, hlaws⟩ := (run_isMapping edits).2 hedits
  have hone : (Value.bool true).looseEq (.int 1) = true := by decide +kernel
  refine ⟨hedits, ?_, ?_, ?_⟩
  · rw [hlaws.get?_insert (by decide) (by decide), if_pos hone]
  · rw [hlaws.get?_erase (by decide) (by decide), if_pos hone]
  · rw [keys_insert, if_pos (by decide +kernel)]

end Dict

end StepScript
