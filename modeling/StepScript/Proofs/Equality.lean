import Mathlib.Data.List.Find
import Mathlib.Data.List.Forall2
import Mathlib.Data.List.Perm.Subperm
import StepScript.Proofs.Inside
import StepScript.Proofs.Rounding

/-!
# The two equalities

A dictionary equals another one of the same length if each of its keys is found in the other one,
with an equal value; what is in the other one and not in the first is not asked for. That this is
symmetric comes from counting: no two keys of a sound dictionary are found at the same place, so
that every place is taken. It needs keys to be compared coherently, and keys may hold dictionaries
themselves: both equalities are shown coherent on values of growing size, each time from what is
inside them (`CoherentOn.step`, `coherentOn_isSound`).

NaN is no obstacle to this: it equals nothing, and so does what holds it. Only reflexivity needs
values to be regular.
-/

set_option autoImplicit false

namespace StepScript

namespace Binary64

theorem equals_self {x : Binary64} (h : x.isNaN = false) : x.equals x = true :=
  equals_iff.2 ⟨h, h, rfl⟩

theorem equals_symm {x y : Binary64} (h : x.equals y = true) : y.equals x = true := by
  obtain ⟨hx, hy, hkey⟩ := equals_iff.1 h
  exact equals_iff.2 ⟨hy, hx, hkey.symm⟩

theorem equals_trans {x y z : Binary64} (h : x.equals y = true) (h' : y.equals z = true) :
    x.equals z = true := by
  obtain ⟨hx, _, hkey⟩ := equals_iff.1 h
  obtain ⟨_, hz, hkey'⟩ := equals_iff.1 h'
  exact equals_iff.2 ⟨hx, hz, hkey.trans hkey'⟩

end Binary64

namespace Value

/-! ## Both equalities at once -/

/-- The two ways in which values are equal. -/
inductive Sense where
  | loose
  | strict

/-- Equality in one of the two senses. -/
def equal : Sense → Value → Value → Bool
  | .loose => looseEq
  | .strict => strictEq

/-- Equality of values without parts in one of the two senses. -/
def plainEqual : Sense → Value → Value → Bool
  | .loose => plainLooseEq
  | .strict => plainStrictEq

/-- The number that the value is compared as. -/
def number? : Sense → Value → Option Binary64
  | .loose, v => v.float?
  | .strict, .float x => some x
  | .strict, _ => none

/-- The value holds no others. -/
def isPlain : Value → Bool
  | .list _ | .dict _ | .object _ _ => false
  | _ => true

theorem plainStrictEq_iff {a b : Value} :
    plainStrictEq a b = true ↔
      (∃ x y, a.number? .strict = some x ∧ b.number? .strict = some y ∧ x.equals y = true) ∨
        a = b ∧ a.number? .strict = none ∧ a.isPlain = true := by
  cases a <;> cases b <;> simp [plainStrictEq, number?, isPlain]

/-- What is compared as a number strictly is compared as the same one loosely. -/
theorem float?_of_number? {v : Value} {x : Binary64} (h : v.number? .strict = some x) :
    v.float? = some x := by
  cases v with
  | float y => exact h
  | _ => cases h

/-- Values without parts are equal as numbers, or the same. -/
theorem plainEqual_iff {s : Sense} {a b : Value} :
    plainEqual s a b = true ↔
      (∃ x y, a.number? s = some x ∧ b.number? s = some y ∧ x.equals y = true) ∨
        a = b ∧ a.number? s = none ∧ a.isPlain = true := by
  cases s with
  | strict => exact plainStrictEq_iff
  | loose =>
    show plainLooseEq a b = true ↔ _
    simp only [number?]
    unfold plainLooseEq
    split
    · next x y hx hy => simp [hx, hy]
    · next hnumbers =>
      rw [plainStrictEq_iff]
      constructor
      · rintro (⟨x, y, hx, hy, -⟩ | ⟨rfl, hnone, hplain⟩)
        · exact absurd (float?_of_number? hy) (hnumbers x y (float?_of_number? hx))
        · cases hx : a.float? with
          | none => exact Or.inr ⟨rfl, rfl, hplain⟩
          | some x => exact absurd hx (hnumbers x x hx)
      · rintro (⟨x, y, hx, hy, -⟩ | ⟨rfl, hnone, hplain⟩)
        · exact absurd hy (hnumbers x y hx)
        · refine Or.inr ⟨rfl, ?_, hplain⟩
          cases hx : a.number? .strict with
          | none => rfl
          | some x =>
            rw [float?_of_number? hx] at hnone
            cases hnone

theorem isPlain_of_number? {s : Sense} {v : Value} {x : Binary64} (h : v.number? s = some x) :
    v.isPlain = true := by
  cases s <;> cases v <;> simp_all [number?, float?, isPlain]

theorem isPlain_of_plainEqual {s : Sense} {a b : Value} (h : plainEqual s a b = true) :
    a.isPlain = true ∧ b.isPlain = true := by
  rcases plainEqual_iff.1 h with ⟨x, y, hx, hy, -⟩ | ⟨rfl, -, hplain⟩
  · exact ⟨isPlain_of_number? hx, isPlain_of_number? hy⟩
  · exact ⟨hplain, hplain⟩

theorem plainEqual_symm {s : Sense} {a b : Value} (h : plainEqual s a b = true) :
    plainEqual s b a = true := by
  rw [plainEqual_iff] at h ⊢
  rcases h with ⟨x, y, hx, hy, heq⟩ | ⟨rfl, hnone, hplain⟩
  · exact Or.inl ⟨y, x, hy, hx, Binary64.equals_symm heq⟩
  · exact Or.inr ⟨rfl, hnone, hplain⟩

theorem plainEqual_trans {s : Sense} {a b c : Value} (h : plainEqual s a b = true)
    (h' : plainEqual s b c = true) : plainEqual s a c = true := by
  rw [plainEqual_iff] at h h' ⊢
  rcases h with ⟨x, y, hx, hy, heq⟩ | ⟨rfl, -, -⟩
  · rcases h' with ⟨y', z, hy', hz, heq'⟩ | ⟨rfl, hnone, -⟩
    · obtain rfl : y = y' := Option.some.inj (hy.symm.trans hy')
      exact Or.inl ⟨x, z, hx, hz, Binary64.equals_trans heq heq'⟩
    · rw [hnone] at hy
      cases hy
  · exact h'

/-- Values without parts equal themselves, NaN apart. -/
theorem plainEqual_self {s : Sense} {a : Value} (hplain : a.isPlain = true)
    (hnan : ∀ x, a = .float x → x.isNaN = false) : plainEqual s a a = true := by
  rw [plainEqual_iff]
  cases hx : a.number? s with
  | none => exact Or.inr ⟨rfl, rfl, hplain⟩
  | some x =>
    refine Or.inl ⟨x, x, rfl, rfl, Binary64.equals_self ?_⟩
    cases a with
    | float y =>
      obtain rfl : y = x := by cases s <;> exact Option.some.inj hx
      exact hnan y rfl
    | bool _ | int _ =>
      cases s with
      | strict => cases hx
      | loose => exact Option.some.inj hx ▸ Binary64.isNaN_ofInt _
    | _ => cases s <;> cases hx

/-! ## One step of comparing -/

/-- The entry under a key, as comparing finds it. -/
def found? (d : Dict) (k : Value) : Option (Value × Value) :=
  d.find? fun f => looseEq k f.1

/-- How two values match, given how the values inside them do. -/
inductive Matches (s : Sense) : Value → Value → Prop where
  | list {xs ys : List Value} (h : List.Forall₂ (fun x y => equal s x y = true) xs ys) :
      Matches s (.list xs) (.list ys)
  | dict {es fs : Dict} (hlength : es.length = fs.length)
      (h : ∀ e ∈ es, ∃ f, found? fs e.1 = some f ∧ equal s e.2 f.2 = true) :
      Matches s (.dict es) (.dict fs)
  | object {c : String} {es fs : List (String × Value)}
      (h : List.Forall₂ (fun e f => e.1 = f.1 ∧ equal .strict e.2 f.2 = true) es fs) :
      Matches s (.object c es) (.object c fs)
  | plain {a b : Value} (h : plainEqual s a b = true) : Matches s a b

theorem equal_list {s : Sense} {xs ys : List Value} :
    equal s (.list xs) (.list ys) = true
      ↔ List.Forall₂ (fun x y => equal s x y = true) xs ys := by
  induction xs generalizing ys with
  | nil => cases s <;> cases ys <;> simp [equal, looseEq, looseEqList, strictEq, strictEqList]
  | cons x xs ih =>
    cases ys with
    | nil => cases s <;> simp [equal, looseEq, looseEqList, strictEq, strictEqList]
    | cons y ys =>
      rw [List.forall₂_cons, ← ih]
      cases s <;> simp [equal, looseEq, looseEqList, strictEq, strictEqList]

/-- Every entry has a partner, in one of the two senses. -/
def equalEntries : Sense → Dict → Dict → Bool
  | .loose => looseEqEntries
  | .strict => strictEqEntries

theorem equalEntries_iff {s : Sense} {es fs : Dict} :
    equalEntries s es fs = true
      ↔ ∀ e ∈ es, ∃ f, found? fs e.1 = some f ∧ equal s e.2 f.2 = true := by
  induction es with
  | nil => cases s <;> simp [equalEntries, looseEqEntries, strictEqEntries]
  | cons e es ih =>
    obtain ⟨k, v⟩ := e
    rw [List.forall_mem_cons, ← ih, found?]
    cases s with
    | loose =>
      rw [equalEntries, looseEqEntries, Bool.and_eq_true, looseEqEntry]
      cases fs.find? fun f => looseEq k f.1 <;> simp [equal]
    | strict =>
      rw [equalEntries, strictEqEntries, Bool.and_eq_true, strictEqEntry]
      cases fs.find? fun f => looseEq k f.1 <;> simp [equal]

theorem equal_dict {s : Sense} {es fs : Dict} :
    equal s (.dict es) (.dict fs) = true ↔
      es.length = fs.length ∧
        ∀ e ∈ es, ∃ f, found? fs e.1 = some f ∧ equal s e.2 f.2 = true := by
  rw [← equalEntries_iff]
  cases s with
  | loose => rw [equal, looseEq, Bool.and_eq_true, beq_iff_eq, equalEntries]
  | strict => rw [equal, strictEq, Bool.and_eq_true, beq_iff_eq, equalEntries]

theorem strictEqFields_iff {es fs : List (String × Value)} :
    strictEqFields es fs = true
      ↔ List.Forall₂ (fun e f => e.1 = f.1 ∧ equal .strict e.2 f.2 = true) es fs := by
  induction es generalizing fs with
  | nil => cases fs <;> simp [strictEqFields]
  | cons e es ih =>
    cases fs with
    | nil => simp [strictEqFields]
    | cons f fs =>
      rw [strictEqFields, Bool.and_eq_true, ih, List.forall₂_cons]
      refine and_congr_left fun _ => ?_
      obtain ⟨k, v⟩ := e
      simp [strictEqField, equal]

theorem equal_object {s : Sense} {c d : String} {es fs : List (String × Value)} :
    equal s (.object c es) (.object d fs) = true ↔
      c = d ∧ List.Forall₂ (fun e f => e.1 = f.1 ∧ equal .strict e.2 f.2 = true) es fs := by
  rw [← strictEqFields_iff]
  cases s with
  | loose => rw [equal, looseEq, Bool.and_eq_true, beq_iff_eq]
  | strict => rw [equal, strictEq, Bool.and_eq_true, beq_iff_eq]

/-- **Values are equal if they match**, by the form that both of them have. -/
theorem equal_iff_matches {s : Sense} {a b : Value} : equal s a b = true ↔ Matches s a b := by
  constructor
  · intro h
    have hplain : equal s a b = plainEqual s a b → Matches s a b := fun heq => .plain (heq ▸ h)
    cases a with
    | list xs =>
      cases b with
      | list ys => exact .list (equal_list.1 h)
      | _ => exact hplain (by cases s <;> rfl)
    | dict es =>
      cases b with
      | dict fs =>
        obtain ⟨hlength, hentries⟩ := equal_dict.1 h
        exact .dict hlength hentries
      | _ => exact hplain (by cases s <;> rfl)
    | object c es =>
      cases b with
      | object d fs =>
        obtain ⟨rfl, hfields⟩ := equal_object.1 h
        exact .object hfields
      | _ => exact hplain (by cases s <;> rfl)
    | _ => exact hplain (by cases s <;> rfl)
  · intro h
    cases h with
    | list h => exact equal_list.2 h
    | dict hlength h => exact equal_dict.2 ⟨hlength, h⟩
    | object h => exact equal_object.2 ⟨rfl, h⟩
    | plain h =>
      have hplain := (isPlain_of_plainEqual h).1
      cases a with
      | list _ | dict _ | object _ _ => cases hplain
      | _ => cases s <;> exact h

/-! ## Lists side by side -/

/-- What two lists have to do with a third one, item by item, gives what they have to do with each
    other. -/
theorem forall₂_join {α β γ : Type} {R : α → β → Prop} {S : α → γ → Prop} {T : β → γ → Prop}
    {xs : List α} {ys : List β} {zs : List γ} (h : List.Forall₂ R xs ys) (h' : List.Forall₂ S xs zs)
    (hjoin : ∀ x ∈ xs, ∀ y ∈ ys, ∀ z ∈ zs, R x y → S x z → T y z) : List.Forall₂ T ys zs := by
  induction h generalizing zs with
  | nil =>
    cases h'
    exact .nil
  | @cons x y xs ys hxy _ ih =>
    cases h' with
    | @cons _ z _ zs hxz h' =>
      refine .cons (hjoin x (by simp) y (by simp) z (by simp) hxy hxz) (ih h' ?_)
      intro x' hx' y' hy' z' hz'
      exact hjoin x' (by simp [hx']) y' (by simp [hy']) z' (by simp [hz'])

/-! ## Coherence -/

/-- Both equalities are symmetric and transitive among the values with a property. -/
structure CoherentOn (p : Value → Prop) : Prop where
  symm {s : Sense} {a b : Value} (ha : p a) (hb : p b) (h : equal s a b = true) :
    equal s b a = true
  trans {s : Sense} {a b c : Value} (ha : p a) (hb : p b) (hc : p c) (h : equal s a b = true)
    (h' : equal s b c = true) : equal s a c = true

theorem mem_of_found? {d : Dict} {k : Value} {e : Value × Value} (h : found? d k = some e) :
    e ∈ d ∧ equal .loose k e.1 = true := by
  have hkey := List.find?_some h
  exact ⟨List.mem_of_find?_eq_some h, hkey⟩

section Step

variable {p : Value → Prop} (hp : CoherentOn p)
include hp

/-- An entry with an equal key is the one that is found. -/
theorem CoherentOn.found?_eq {d : Dict} (hd : d.HasDistinctKeys) (hkeys : ∀ e ∈ d, p e.1)
    {k : Value} (hk : p k) {e : Value × Value} (he : e ∈ d) (heq : equal .loose k e.1 = true) :
    found? d k = some e := by
  induction d with
  | nil => cases he
  | cons f d ih =>
    obtain ⟨hf, hd⟩ := List.pairwise_cons.1 hd
    rw [List.forall_mem_cons] at hkeys
    rcases List.mem_cons.1 he with rfl | he
    · exact List.find?_cons_of_pos heq
    · -- an equal key in front would equal the one of the entry
      have hne : ¬ looseEq k f.1 = true := by
        intro hkf
        have hfk : equal .loose f.1 k = true := hp.symm hk hkeys.1 hkf
        have hfe : equal .loose f.1 e.1 = true := hp.trans hkeys.1 hk (hkeys.2 e he) hfk heq
        have hfe' : equal .loose f.1 e.1 = false := hf e he
        rw [hfe] at hfe'
        cases hfe'
      have hskip : found? (f :: d) k = found? d k := List.find?_cons_of_neg hne
      rw [hskip]
      exact ih hd hkeys.2 he

/-- The keys of a dictionary with distinct keys are found at places of their own, so that every
    place is taken if there are no more of them. -/
theorem CoherentOn.exists_of_mem {es fs : Dict} (hes : es.HasDistinctKeys)
    (hpes : ∀ e ∈ es, p e.1) (hpfs : ∀ f ∈ fs, p f.1) (hlength : es.length = fs.length)
    (hfound : ∀ e ∈ es, ∃ f, found? fs e.1 = some f) {f : Value × Value} (hf : f ∈ fs) :
    ∃ e ∈ es, found? fs e.1 = some f := by
  -- two keys found at the same place would be equal to each other
  have hnodup : (es.map fun e => found? fs e.1).Nodup := by
    refine List.pairwise_map.2 (hes.imp_of_mem ?_)
    intro e e' he he' hne hsame
    obtain ⟨g, hg⟩ := hfound e he
    obtain ⟨hmem, heg⟩ := mem_of_found? hg
    have he'g := (mem_of_found? (hsame ▸ hg)).2
    have hge' := hp.symm (hpes e' he') (hpfs g hmem) he'g
    have hee' : equal .loose e.1 e'.1 = true :=
      hp.trans (hpes e he) (hpfs g hmem) (hpes e' he') heg hge'
    rw [equal, hne] at hee'
    cases hee'
  have hsubset : (es.map fun e => found? fs e.1) ⊆ fs.map some := by
    intro x hx
    obtain ⟨e, he, rfl⟩ := List.mem_map.1 hx
    obtain ⟨g, hg⟩ := hfound e he
    rw [hg]
    exact List.mem_map_of_mem (mem_of_found? hg).1
  have hperm : (es.map fun e => found? fs e.1).Perm (fs.map some) :=
    (List.subperm_of_subset hnodup hsubset).perm_of_length_le (by simp [hlength])
  exact List.mem_map.1 (hperm.mem_iff.2 (List.mem_map_of_mem hf))

theorem CoherentOn.dict_symm {s : Sense} {es fs : Dict} (hes : es.HasDistinctKeys)
    (hpes : ∀ e ∈ es, p e.1 ∧ p e.2) (hpfs : ∀ f ∈ fs, p f.1 ∧ p f.2)
    (h : equal s (.dict es) (.dict fs) = true) : equal s (.dict fs) (.dict es) = true := by
  obtain ⟨hlength, hentries⟩ := equal_dict.1 h
  refine equal_dict.2 ⟨hlength.symm, ?_⟩
  intro f hf
  have hfound : ∀ e ∈ es, ∃ f, found? fs e.1 = some f := by
    intro e he
    obtain ⟨f, hf, -⟩ := hentries e he
    exact ⟨f, hf⟩
  obtain ⟨e, he, hef⟩ := hp.exists_of_mem hes (fun e he => (hpes e he).1)
    (fun f hf => (hpfs f hf).1) hlength hfound hf
  obtain ⟨g, hg, hvalue⟩ := hentries e he
  obtain rfl : f = g := Option.some.inj (hef.symm.trans hg)
  have hkey := hp.symm (hpes e he).1 (hpfs f hf).1 (mem_of_found? hef).2
  exact ⟨e, hp.found?_eq hes (fun e he => (hpes e he).1) (hpfs f hf).1 he hkey,
    hp.symm (hpes e he).2 (hpfs f hf).2 hvalue⟩

theorem CoherentOn.dict_trans {s : Sense} {es fs gs : Dict} (hgs : gs.HasDistinctKeys)
    (hpes : ∀ e ∈ es, p e.1 ∧ p e.2) (hpfs : ∀ f ∈ fs, p f.1 ∧ p f.2)
    (hpgs : ∀ g ∈ gs, p g.1 ∧ p g.2) (h : equal s (.dict es) (.dict fs) = true)
    (h' : equal s (.dict fs) (.dict gs) = true) : equal s (.dict es) (.dict gs) = true := by
  obtain ⟨hlength, hentries⟩ := equal_dict.1 h
  obtain ⟨hlength', hentries'⟩ := equal_dict.1 h'
  refine equal_dict.2 ⟨hlength.trans hlength', ?_⟩
  intro e he
  obtain ⟨f, hf, hvalue⟩ := hentries e he
  obtain ⟨hfmem, hkey⟩ := mem_of_found? hf
  obtain ⟨g, hg, hvalue'⟩ := hentries' f hfmem
  obtain ⟨hgmem, hkey'⟩ := mem_of_found? hg
  obtain ⟨hek, hev⟩ := hpes e he
  obtain ⟨hfk, hfv⟩ := hpfs f hfmem
  obtain ⟨hgk, hgv⟩ := hpgs g hgmem
  have hkeys : equal .loose e.1 g.1 = true := hp.trans hek hfk hgk hkey hkey'
  exact ⟨g, hp.found?_eq hgs (fun g hg => (hpgs g hg).1) hek hgmem hkeys,
    hp.trans hev hfv hgv hvalue hvalue'⟩

/-- Coherence goes from the values inside to the sound values that hold them. -/
theorem CoherentOn.step : CoherentOn fun v => v.IsSound ∧ ∀ c ∈ v.children, p c where
  symm := by
    rintro s a b ⟨ha, hpa⟩ ⟨hb, hpb⟩ h
    cases equal_iff_matches.1 h with
    | @list xs ys hitems =>
      have hsame : List.Forall₂ Eq xs xs := List.forall₂_same.2 fun _ _ => rfl
      refine equal_list.2 (forall₂_join hitems hsame ?_)
      rintro x hx y hy z - hxy rfl
      exact hp.symm (hpa x hx) (hpb y hy) hxy
    | @dict es fs =>
      rw [forall_children_dict] at hpa hpb
      exact hp.dict_symm (isSound_dict.1 ha).1 hpa hpb h
    | @object c es fs hfields =>
      have hsame : List.Forall₂ Eq es es := List.forall₂_same.2 fun _ _ => rfl
      rw [forall_children_object] at hpa hpb
      refine equal_object.2 ⟨rfl, forall₂_join hfields hsame ?_⟩
      rintro e he f hf g - ⟨hname, hvalue⟩ rfl
      exact ⟨hname.symm, hp.symm (hpa e he) (hpb f hf) hvalue⟩
    | plain hplain => exact equal_iff_matches.2 (.plain (plainEqual_symm hplain))
  trans := by
    rintro s a b c ⟨ha, hpa⟩ ⟨hb, hpb⟩ ⟨hc, hpc⟩ h h'
    -- the value in the middle has one form, so both pairs match in the same way
    cases equal_iff_matches.1 h with
    | @list xs ys hitems =>
      cases equal_iff_matches.1 h' with
      | @list _ zs hitems' =>
        refine equal_list.2 (forall₂_join hitems.flip hitems' ?_)
        intro y hy x hx z hz hxy hyz
        exact hp.trans (hpa x hx) (hpb y hy) (hpc z hz) hxy hyz
      | plain hplain => cases (isPlain_of_plainEqual hplain).1
    | @dict es fs =>
      cases equal_iff_matches.1 h' with
      | @dict _ gs =>
        rw [forall_children_dict] at hpa hpb hpc
        exact hp.dict_trans (isSound_dict.1 hc).1 hpa hpb hpc h h'
      | plain hplain => cases (isPlain_of_plainEqual hplain).1
    | @object _ es fs hfields =>
      cases equal_iff_matches.1 h' with
      | @object _ _ gs hfields' =>
        rw [forall_children_object] at hpa hpb hpc
        refine equal_object.2 ⟨rfl, forall₂_join hfields.flip hfields' ?_⟩
        rintro f hf e he g hg ⟨hname, hvalue⟩ ⟨hname', hvalue'⟩
        exact ⟨hname.trans hname', hp.trans (hpa e he) (hpb f hf) (hpc g hg) hvalue hvalue'⟩
      | plain hplain => cases (isPlain_of_plainEqual hplain).1
    | plain hplain =>
      cases equal_iff_matches.1 h' with
      | plain hplain' => exact equal_iff_matches.2 (.plain (plainEqual_trans hplain hplain'))
      | _ => cases (isPlain_of_plainEqual hplain).2

end Step

/-- **Both equalities are symmetric and transitive on sound values**, NaN or not. -/
theorem coherentOn_isSound : CoherentOn IsSound := by
  -- by induction on a bound of the sizes: what is inside a value is smaller
  have hbounded : ∀ n, CoherentOn fun v => v.IsSound ∧ sizeOf v < n := by
    intro n
    induction n with
    | zero =>
      constructor
      · rintro s a b ⟨-, hsize⟩
        cases hsize
      · rintro s a b c ⟨-, hsize⟩
        cases hsize
    | succ n ih =>
      have hinside : ∀ v : Value, v.IsSound ∧ sizeOf v < n + 1 →
          v.IsSound ∧ ∀ c ∈ v.children, c.IsSound ∧ sizeOf c < n := by
        rintro v ⟨hv, hsize⟩
        refine ⟨hv, fun c hc => ⟨(isSound_iff.1 hv).2 c hc, ?_⟩⟩
        have := sizeOf_lt_of_mem_children hc
        omega
      exact ⟨fun ha hb => ih.step.symm (hinside _ ha) (hinside _ hb),
        fun ha hb hc => ih.step.trans (hinside _ ha) (hinside _ hb) (hinside _ hc)⟩
  constructor
  · intro s a b ha hb
    refine (hbounded (sizeOf a + sizeOf b + 1)).symm ⟨ha, ?_⟩ ⟨hb, ?_⟩
    all_goals omega
  · intro s a b c ha hb hc
    refine (hbounded (sizeOf a + sizeOf b + sizeOf c + 1)).trans ⟨ha, ?_⟩ ⟨hb, ?_⟩ ⟨hc, ?_⟩
    all_goals omega

theorem looseEq_comm {a b : Value} (ha : a.IsSound) (hb : b.IsSound) :
    a.looseEq b = b.looseEq a :=
  Bool.eq_iff_iff.2 ⟨coherentOn_isSound.symm (s := .loose) ha hb,
    coherentOn_isSound.symm (s := .loose) hb ha⟩

/-- What is equal equals the same. -/
theorem looseEq_congr {a b c : Value} (ha : a.IsSound) (hb : b.IsSound) (hc : c.IsSound)
    (h : a.looseEq b = true) : a.looseEq c = b.looseEq c := by
  have h' : b.looseEq a = true := looseEq_comm ha hb ▸ h
  exact Bool.eq_iff_iff.2 ⟨coherentOn_isSound.trans (s := .loose) hb ha hc h',
    coherentOn_isSound.trans (s := .loose) ha hb hc h⟩

/-- Of two values that are equal, a third one equals both or neither. -/
theorem looseEq_eq_false {a b c : Value} (ha : a.IsSound) (hb : b.IsSound) (hc : c.IsSound)
    (h : a.looseEq b = true) (h' : a.looseEq c = false) : c.looseEq b = false := by
  rw [looseEq_comm hc hb, ← looseEq_congr ha hb hc h]
  exact h'

/-! ## Reflexivity, and the one equality in the other -/

/-- What is strictly equal is loosely equal. -/
theorem looseEq_of_strictEq {a b : Value} (h : a.strictEq b = true) : a.looseEq b = true := by
  induction a using children_induction generalizing b with
  | step a ih =>
    show equal .loose a b = true
    have hmatches : Matches .strict a b := equal_iff_matches.1 h
    refine equal_iff_matches.2 ?_
    cases hmatches with
    | @list xs ys hitems =>
      have hsame : List.Forall₂ Eq xs xs := List.forall₂_same.2 fun _ _ => rfl
      refine .list (forall₂_join hsame hitems ?_)
      rintro x hx _ - y - rfl hxy
      exact ih x hx hxy
    | @dict es fs hlength hentries =>
      refine .dict hlength ?_
      intro e he
      obtain ⟨f, hf, hvalue⟩ := hentries e he
      exact ⟨f, hf, ih e.2 (value_mem_children he) hvalue⟩
    | object hfields => exact .object hfields
    | plain hplain =>
      refine .plain ?_
      rcases plainEqual_iff.1 hplain with ⟨x, y, hx, hy, heq⟩ | ⟨rfl, hnone, hplain⟩
      · exact plainEqual_iff.2
          (Or.inl ⟨x, y, float?_of_number? hx, float?_of_number? hy, heq⟩)
      · exact plainEqual_self hplain fun x hx => by rw [hx] at hnone; cases hnone

theorem equal_self {s : Sense} {a : Value} (ha : a.IsRegular) : equal s a a = true := by
  induction a using children_induction generalizing s with
  | step a ih =>
    obtain ⟨hdistinct, hfloat, hchildren⟩ := isRegular_iff.1 ha
    cases a with
    | list xs => exact equal_list.2 (List.forall₂_same.2 fun x hx => ih x hx (hchildren x hx))
    | dict es =>
      rw [forall_children_dict] at ih hchildren
      refine equal_dict.2 ⟨rfl, ?_⟩
      intro e he
      obtain ⟨hkey, hvalue⟩ := hchildren e he
      have hfound : found? es e.1 = some e :=
        coherentOn_isSound.found?_eq (hdistinct es rfl) (fun f hf => (hchildren f hf).1.sound)
          hkey.sound he ((ih e he).1 hkey)
      exact ⟨e, hfound, (ih e he).2 hvalue⟩
    | object c es =>
      rw [forall_children_object] at ih hchildren
      exact equal_object.2 ⟨rfl, List.forall₂_same.2 fun e he => ⟨rfl, ih e he (hchildren e he)⟩⟩
    | _ =>
      refine equal_iff_matches.2 (.plain (plainEqual_self rfl ?_))
      intro x hx
      exact hfloat x hx.symm

end Value

end StepScript
