import Mathlib.Logic.Relation
import StepScript.Proofs.Equality

/-!
# Equality and the order of entries

`Rearranges` puts the entries of one dictionary inside a value in another order: of the value
itself, or of an item, a key, a value or a field in it, at any depth. A step of it keeps a value
regular and strictly equal to what it was (`Rearranges.keeps`), and so do any number of them.

With that, both equalities are what they should be on regular values: equivalences, the strict one
inside the loose one, and blind to the order of entries.
-/

set_option autoImplicit false

namespace StepScript

namespace Value

/-! ## Distinct keys -/

/-- Distinct keys are distinct in any order. -/
theorem hasDistinctKeys_of_perm {d d' : Dict} (hperm : d.Perm d') (hd : d.HasDistinctKeys)
    (hkeys : ∀ e ∈ d, e.1.IsSound) : d'.HasDistinctKeys := by
  -- to differ is symmetric among sound keys only, and this is said of any two
  let Differ (e f : Value × Value) : Prop := e.1.IsSound → f.1.IsSound → e.1.looseEq f.1 = false
  have hsymm : ∀ {e f}, Differ e f → Differ f e := by
    intro e f h hf he
    refine Bool.eq_false_iff.2 fun hfe => ?_
    have hef : equal .loose e.1 f.1 = true := coherentOn_isSound.symm hf he hfe
    rw [equal, h he hf] at hef
    cases hef
  have hdiffer : d.Pairwise Differ := hd.imp fun h _ _ => h
  have hdiffer' : d'.Pairwise Differ := hdiffer.perm hperm hsymm
  refine hdiffer'.imp_of_mem ?_
  intro e f he hf h
  exact h (hkeys e (hperm.mem_iff.2 he)) (hkeys f (hperm.mem_iff.2 hf))

theorem exists_of_mem_forall₂ {α β : Type} {R : α → β → Prop} {xs : List α} {ys : List β}
    (h : List.Forall₂ R xs ys) {y : β} (hy : y ∈ ys) : ∃ x ∈ xs, R x y := by
  induction h with
  | nil => cases hy
  | @cons x z xs ys hxz _ ih =>
    rcases List.mem_cons.1 hy with rfl | hy
    · exact ⟨x, by simp, hxz⟩
    · obtain ⟨x', hx', hxy⟩ := ih hy
      exact ⟨x', by simp [hx'], hxy⟩

/-- Entries with equal keys in the same places have distinct keys together. -/
theorem hasDistinctKeys_of_forall₂ {es fs : Dict} (hes : es.HasDistinctKeys)
    (hpes : ∀ e ∈ es, e.1.IsSound) (hpfs : ∀ f ∈ fs, f.1.IsSound)
    (h : List.Forall₂ (fun e f => equal .loose e.1 f.1 = true) es fs) : fs.HasDistinctKeys := by
  induction h with
  | nil => exact .nil
  | @cons e f es fs hef h ih =>
    obtain ⟨he, hes⟩ := List.pairwise_cons.1 hes
    rw [List.forall_mem_cons] at hpes hpfs
    refine List.pairwise_cons.2 ⟨?_, ih hes hpes.2 hpfs.2⟩
    intro f' hf'
    obtain ⟨e', he', hef'⟩ := exists_of_mem_forall₂ h hf'
    refine Bool.eq_false_iff.2 fun hff' => ?_
    have hf'e' := coherentOn_isSound.symm (hpes.2 e' he') (hpfs.2 f' hf') hef'
    have hfe' : equal .loose f.1 e'.1 = true :=
      coherentOn_isSound.trans hpfs.1 (hpfs.2 f' hf') (hpes.2 e' he') hff' hf'e'
    have hee' : equal .loose e.1 e'.1 = true :=
      coherentOn_isSound.trans hpes.1 hpfs.1 (hpes.2 e' he') hef hfe'
    rw [equal, he e' he'] at hee'
    cases hee'

/-! ## One rearrangement -/

/-- The entries of one dictionary inside the value, at any depth, are put in another order. -/
inductive Rearranges : Value → Value → Prop where
  | entries {d d' : Dict} (h : d.Perm d') : Rearranges (.dict d) (.dict d')
  | item {before after : List Value} {v v' : Value} (h : Rearranges v v') :
      Rearranges (.list (before ++ v :: after)) (.list (before ++ v' :: after))
  | key {before after : Dict} {k k' v : Value} (h : Rearranges k k') :
      Rearranges (.dict (before ++ (k, v) :: after)) (.dict (before ++ (k', v) :: after))
  | value {before after : Dict} {k v v' : Value} (h : Rearranges v v') :
      Rearranges (.dict (before ++ (k, v) :: after)) (.dict (before ++ (k, v') :: after))
  | field {c name : String} {before after : List (String × Value)} {v v' : Value}
      (h : Rearranges v v') :
      Rearranges (.object c (before ++ (name, v) :: after))
        (.object c (before ++ (name, v') :: after))

/-- The second value is regular and strictly equal to the first one. -/
structure Keeps (a b : Value) : Prop where
  regular : b.IsRegular
  equal : equal .strict a b = true

theorem Keeps.refl {a : Value} (ha : a.IsRegular) : Keeps a a :=
  ⟨ha, equal_self ha⟩

/-- One item of a list replaced, and the others left. -/
theorem forall₂_replace {α : Type} {R : α → α → Prop} {before after : List α} {x y : α}
    (hsame : ∀ z ∈ before ++ x :: after, R z z) (h : R x y) :
    List.Forall₂ R (before ++ x :: after) (before ++ y :: after) := by
  rw [List.forall_mem_append, List.forall_mem_cons] at hsame
  exact List.rel_append (List.forall₂_same.2 hsame.1) (.cons h (List.forall₂_same.2 hsame.2.2))

theorem Keeps.list {xs ys : List Value} (h : List.Forall₂ Keeps xs ys) :
    Keeps (.list xs) (.list ys) := by
  refine ⟨isRegular_list.2 ?_, equal_list.2 (h.imp fun _ _ => Keeps.equal)⟩
  intro y hy
  obtain ⟨x, -, hxy⟩ := exists_of_mem_forall₂ h hy
  exact hxy.regular

theorem Keeps.object {c : String} {es fs : List (String × Value)}
    (h : List.Forall₂ (fun e f => e.1 = f.1 ∧ Keeps e.2 f.2) es fs) :
    Keeps (.object c es) (.object c fs) := by
  refine ⟨isRegular_object.2 ?_, equal_object.2 ⟨rfl, h.imp fun _ _ h => ⟨h.1, h.2.equal⟩⟩⟩
  intro f hf
  obtain ⟨e, -, hef⟩ := exists_of_mem_forall₂ h hf
  exact hef.2.regular

/-- Every entry has a partner with the same key and the same value. -/
theorem Keeps.of_partners {es fs : Dict} (hes : (Value.dict es).IsRegular)
    (hfs : (Value.dict fs).IsRegular) (hlength : es.length = fs.length)
    (h : ∀ e ∈ es, ∃ f ∈ fs,
      Value.equal .strict e.1 f.1 = true ∧ Value.equal .strict e.2 f.2 = true) :
    Keeps (.dict es) (.dict fs) := by
  obtain ⟨hdistinct, hentries⟩ := isRegular_dict.1 hfs
  refine ⟨hfs, equal_dict.2 ⟨hlength, ?_⟩⟩
  intro e he
  obtain ⟨f, hf, hkey, hvalue⟩ := h e he
  have hekey := ((isRegular_dict.1 hes).2 e he).1
  exact ⟨f, coherentOn_isSound.found?_eq hdistinct (fun f hf => (hentries f hf).1.sound)
    hekey.sound hf (looseEq_of_strictEq hkey), hvalue⟩

theorem Keeps.perm {d d' : Dict} (hd : (Value.dict d).IsRegular) (hperm : d.Perm d') :
    Keeps (.dict d) (.dict d') := by
  obtain ⟨hdistinct, hentries⟩ := isRegular_dict.1 hd
  have hd' : (Value.dict d').IsRegular :=
    isRegular_dict.2 ⟨hasDistinctKeys_of_perm hperm hdistinct fun e he => (hentries e he).1.sound,
      fun e he => hentries e (hperm.mem_iff.2 he)⟩
  refine .of_partners hd hd' hperm.length_eq ?_
  intro e he
  obtain ⟨hkey, hvalue⟩ := hentries e he
  exact ⟨e, hperm.mem_iff.1 he, equal_self hkey, equal_self hvalue⟩

theorem Keeps.dict {es fs : Dict} (hes : (Value.dict es).IsRegular)
    (h : List.Forall₂ (fun e f => Keeps e.1 f.1 ∧ Keeps e.2 f.2) es fs) :
    Keeps (.dict es) (.dict fs) := by
  obtain ⟨hdistinct, hentries⟩ := isRegular_dict.1 hes
  have hentries' : ∀ f ∈ fs, f.1.IsRegular ∧ f.2.IsRegular := by
    intro f hf
    obtain ⟨e, -, hkey, hvalue⟩ := exists_of_mem_forall₂ h hf
    exact ⟨hkey.regular, hvalue.regular⟩
  -- a lookup sees keys loosely, and what is kept strictly is kept loosely
  have hkeys : List.Forall₂ (fun e f => Value.equal .loose e.1 f.1 = true) es fs :=
    h.imp fun _ _ h => looseEq_of_strictEq h.1.equal
  have hdistinct' : fs.HasDistinctKeys :=
    hasDistinctKeys_of_forall₂ hdistinct (fun e he => (hentries e he).1.sound)
      (fun f hf => (hentries' f hf).1.sound) hkeys
  refine .of_partners hes (isRegular_dict.2 ⟨hdistinct', hentries'⟩) h.length_eq ?_
  intro e he
  obtain ⟨f, hf, hkey, hvalue⟩ := exists_of_mem_forall₂ h.flip he
  exact ⟨f, hf, hkey.equal, hvalue.equal⟩

theorem Keeps.entry {before after : Dict} {e f : Value × Value}
    (hd : (Value.dict (before ++ e :: after)).IsRegular) (hkey : Keeps e.1 f.1)
    (hvalue : Keeps e.2 f.2) :
    Keeps (.dict (before ++ e :: after)) (.dict (before ++ f :: after)) := by
  refine .dict hd (forall₂_replace ?_ ⟨hkey, hvalue⟩)
  intro g hg
  obtain ⟨hgkey, hgvalue⟩ := (isRegular_dict.1 hd).2 g hg
  exact ⟨.refl hgkey, .refl hgvalue⟩

/-- **One rearrangement keeps a value regular and what it equals.** -/
theorem Rearranges.keeps {a a' : Value} (h : Rearranges a a') (ha : a.IsRegular) : Keeps a a' := by
  induction h with
  | entries hperm => exact .perm ha hperm
  | item h ih =>
    rw [isRegular_list] at ha
    exact .list (forall₂_replace (fun x hx => .refl (ha x hx)) (ih (ha _ (by simp))))
  | key h ih =>
    obtain ⟨hkey, hvalue⟩ := (isRegular_dict.1 ha).2 _ (List.mem_append_right _ List.mem_cons_self)
    exact .entry ha (ih hkey) (.refl hvalue)
  | value h ih =>
    obtain ⟨hkey, hvalue⟩ := (isRegular_dict.1 ha).2 _ (List.mem_append_right _ List.mem_cons_self)
    exact .entry ha (.refl hkey) (ih hvalue)
  | field h ih =>
    rw [isRegular_object] at ha
    have hv := ha _ (List.mem_append_right _ List.mem_cons_self)
    exact .object (forall₂_replace (fun f hf => ⟨rfl, .refl (ha f hf)⟩) ⟨rfl, ih hv⟩)

/-! ## Any number of rearrangements -/

/-- The second value is the first one with the entries of dictionaries inside it, at any depth, in
    another order. -/
def Rearranged : Value → Value → Prop :=
  Relation.ReflTransGen Rearranges

theorem Rearranged.keeps {a a' : Value} (h : Rearranged a a') (ha : a.IsRegular) : Keeps a a' := by
  induction h with
  | refl => exact .refl ha
  | tail _ hstep ih =>
    have hnext := hstep.keeps ih.regular
    exact ⟨hnext.regular, coherentOn_isSound.trans ha.sound ih.regular.sound hnext.regular.sound
      ih.equal hnext.equal⟩

theorem equal_of_strict {s : Sense} {a b : Value} (h : equal .strict a b = true) :
    equal s a b = true := by
  cases s with
  | loose => exact looseEq_of_strictEq h
  | strict => exact h

/-- What is kept may take the place of the value on either side. -/
theorem equal_of_keeps {s : Sense} {a a' b b' : Value} (ha : a.IsRegular) (hb : b.IsRegular)
    (haa' : Keeps a a') (hbb' : Keeps b b') : equal s a' b' = equal s a b := by
  have hleft : equal s a a' = true := equal_of_strict haa'.equal
  have hright : equal s b b' = true := equal_of_strict hbb'.equal
  have hleft' := coherentOn_isSound.symm ha.sound haa'.regular.sound hleft
  have hright' := coherentOn_isSound.symm hb.sound hbb'.regular.sound hright
  rw [Bool.eq_iff_iff]
  constructor
  · intro h
    have hab' := coherentOn_isSound.trans ha.sound haa'.regular.sound hbb'.regular.sound hleft h
    exact coherentOn_isSound.trans ha.sound hbb'.regular.sound hb.sound hab' hright'
  · intro h
    have ha'b := coherentOn_isSound.trans haa'.regular.sound ha.sound hb.sound hleft' h
    exact coherentOn_isSound.trans haa'.regular.sound hb.sound hbb'.regular.sound ha'b hright

/-- The values without NaN whose dictionaries, at any depth, have distinct keys. -/
abbrev Regular := { v : Value // v.IsRegular }

theorem equal_equivalence (s : Sense) :
    Equivalence fun a b : Regular => equal s a.1 b.1 = true where
  refl a := equal_self a.2
  symm {a b} h := coherentOn_isSound.symm a.2.sound b.2.sound h
  trans {a b c} h h' := coherentOn_isSound.trans a.2.sound b.2.sound c.2.sound h h'

/-- **Equality is sound.** On regular values both equalities are equivalences, what is strictly
    equal is loosely equal, and the order of the entries of a dictionary inside either side does
    not matter. -/
theorem equality_sound :
    (Equivalence fun a b : Regular => a.1.looseEq b.1 = true) ∧
      (Equivalence fun a b : Regular => a.1.strictEq b.1 = true) ∧
      (∀ a b : Regular, a.1.strictEq b.1 = true → a.1.looseEq b.1 = true) ∧
      ∀ (a b : Regular) (a' b' : Value), Rearranged a.1 a' → Rearranged b.1 b' →
        a'.IsRegular ∧ b'.IsRegular ∧ a'.looseEq b' = a.1.looseEq b.1 ∧
          a'.strictEq b' = a.1.strictEq b.1 := by
  refine ⟨equal_equivalence .loose, equal_equivalence .strict, fun _ _ => looseEq_of_strictEq, ?_⟩
  intro a b a' b' haa' hbb'
  have ha' := haa'.keeps a.2
  have hb' := hbb'.keeps b.2
  exact ⟨ha'.regular, hb'.regular, equal_of_keeps (s := .loose) a.2 b.2 ha' hb',
    equal_of_keeps (s := .strict) a.2 b.2 ha' hb'⟩

/-- A dictionary with a dictionary as a key, and the entries of both in another order. -/
theorem equality_sound_nested :
    let key : Dict := [(.text "x", .int 2), (.text "y", .nothing)]
    let a : Value := .dict [(.dict key, .int 1), (.int 0, .nothing)]
    let a' : Value := .dict [(.int 0, .nothing), (.dict key.reverse, .int 1)]
    let b : Value := .dict [(.bool false, .nothing), (.dict key, .bool true)]
    (a.IsRegular ∧ b.IsRegular ∧ Rearranged a a') ∧
      a'.looseEq b = a.looseEq b ∧ a'.strictEq b = a.strictEq b ∧
      a.looseEq b = true ∧ a.strictEq b = false := by
  intro key a a' b
  have ha : a.IsRegular := by decide
  have hb : b.IsRegular := by decide
  have hkey : Rearranges (.dict key) (.dict key.reverse) := .entries (List.reverse_perm key).symm
  have hinner : Rearranges a (.dict [(.dict key.reverse, .int 1), (.int 0, .nothing)]) :=
    @Rearranges.key [] _ _ _ _ hkey
  have haa' : Rearranged a a' := .tail (.single hinner) (.entries (.swap _ _ []))
  obtain ⟨-, -, hloose, hstrict⟩ := equality_sound.2.2.2 ⟨a, ha⟩ ⟨b, hb⟩ a' b haa' .refl
  exact ⟨⟨ha, hb, haa'⟩, hloose, hstrict, by decide +kernel, by decide +kernel⟩

end Value

end StepScript
