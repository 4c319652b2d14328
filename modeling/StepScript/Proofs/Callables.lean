import StepScript.Proofs.Parts
import StepScript.Proofs.Sorting

/-!
# Functions inside values

A value can hold functions, each by its name, at any depth. `CallsOnly known v` says that the names
of all functions inside `v` are known.

Operations on values make numbers, truth values and texts of their own, but never a function: what
is inside their results comes from their arguments. Every operator, built-in function, method and
store gets one lemma that says so, and a value is not looked into again after this module.
-/

set_option autoImplicit false

namespace StepScript

variable {ε α β S : Type} {known : String → Prop}

/-! ## Results -/

/-- The result has the property, unless it is a fault. -/
def Yields (Q : α → Prop) (r : Except ε α) : Prop :=
  ∀ a, r = .ok a → Q a

section

variable {Q : α → Prop}

@[simp] theorem yields_ok {a : α} : Yields Q (.ok a : Except ε α) ↔ Q a := by
  simp [Yields]

@[simp] theorem yields_pure {a : α} : Yields Q (pure a : Except ε α) ↔ Q a :=
  yields_ok

@[simp] theorem yields_error (fault : ε) : Yields Q (.error fault : Except ε α) := by
  intro a h
  cases h

@[simp] theorem yields_map {f : β → α} {r : Except ε β} :
    Yields Q (r.map f) ↔ Yields (fun b => Q (f b)) r := by
  cases r <;> simp [Except.map]

@[simp] theorem yields_hosted {r : Except HostFault α} : Yields Q (hosted r) ↔ Yields Q r := by
  cases r <;> simp [hosted]

theorem Yields.bind {P : β → Prop} {r : Except ε β} {f : β → Except ε α} (hr : Yields P r)
    (hf : ∀ b, P b → Yields Q (f b)) : Yields Q (r >>= f) := by
  cases r with
  | ok b => exact hf b (hr b rfl)
  | error fault => exact yields_error fault

/-- A result about which nothing has to be known. -/
theorem Yields.trivial (r : Except ε α) : Yields (fun _ => True) r :=
  fun _ _ => True.intro

end

/-! ## Computations -/

/-- From a state with the property `P` on, the computation ends in one with it, also when it ends in
    a fault, and what it gives has the property `Q`. -/
def Ensures (P : S → Prop) (Q : α → Prop) (e : ExceptT Fault (StateM S) α) : Prop :=
  ∀ s, P s → P (e.run.run s).2 ∧ Yields Q (e.run.run s).1

section

variable {P : S → Prop} {Q : α → Prop}

theorem ensures_pure {x : α} (h : Q x) :
    Ensures P Q (pure x : ExceptT Fault (StateM S) α) :=
  fun _ hs => ⟨hs, yields_ok.2 h⟩

/-- A result that is there from the start. -/
theorem ensures_result {r : Except Fault α} (h : Yields Q r) :
    Ensures P Q (ExceptT.mk (pure r) : ExceptT Fault (StateM S) α) :=
  fun _ hs => ⟨hs, h⟩

theorem ensures_get : Ensures P P (get : ExceptT Fault (StateM S) S) :=
  fun _ hs => ⟨hs, yields_ok.2 hs⟩

theorem ensures_set {s : S} (h : P s) :
    Ensures P (fun _ => True) (set s : ExceptT Fault (StateM S) PUnit) :=
  fun _ _ => ⟨h, Yields.trivial _⟩

theorem ensures_modify {f : S → S} (h : ∀ s, P s → P (f s)) :
    Ensures P (fun _ => True) (modify f : ExceptT Fault (StateM S) PUnit) :=
  fun s hs => ⟨h s hs, Yields.trivial _⟩

theorem ensures_modifyGet {f : S → α × S} (h : ∀ s, P s → Q (f s).1 ∧ P (f s).2) :
    Ensures P Q (modifyGet f : ExceptT Fault (StateM S) α) :=
  fun s hs => ⟨(h s hs).2, yields_ok.2 (h s hs).1⟩

theorem Ensures.bind {R : β → Prop} {e : ExceptT Fault (StateM S) β}
    {f : β → ExceptT Fault (StateM S) α} (he : Ensures P R e) (hf : ∀ b, R b → Ensures P Q (f b)) :
    Ensures P Q (e >>= f) := by
  intro s hs
  obtain ⟨hkept, hgiven⟩ := he s hs
  simp only [ExceptT.run_bind, StateT.run_bind]
  rcases hrun : e.run.run s with ⟨r, mid⟩
  rw [hrun] at hkept hgiven
  cases r with
  | ok b => exact hf b (hgiven b rfl) mid hkept
  | error fault => exact ⟨hkept, yields_error fault⟩

theorem Ensures.imp {R : α → Prop} {e : ExceptT Fault (StateM S) α} (he : Ensures P R e)
    (h : ∀ a, R a → Q a) : Ensures P Q e := by
  intro s hs
  obtain ⟨hkept, hgiven⟩ := he s hs
  exact ⟨hkept, fun a ha => h a (hgiven a ha)⟩

end

namespace Value

/-! ## Functions inside values -/

/-- The names of all functions inside the value, at any depth, are known. -/
def CallsOnly (known : String → Prop) (v : Value) : Prop :=
  ∀ n, Within (.callable n) v → known n

section

variable {v c : Value}

theorem callsOnly_iff :
    v.CallsOnly known ↔ (∀ n, .callable n = v → known n) ∧ ∀ c ∈ v.children, c.CallsOnly known :=
  forall_within_iff

instance [DecidablePred known] (v : Value) : Decidable (v.CallsOnly known) :=
  decidable_of_iff (v.everywhere fun | .callable n => decide (known n) | _ => true) <| by
    refine everywhere_iff_form (by simp) ?_
    intro w hw
    split
    · exact absurd rfl (hw _)
    · rfl

theorem CallsOnly.of_mem_children (h : v.CallsOnly known) (hc : c ∈ v.children) :
    c.CallsOnly known :=
  (callsOnly_iff.1 h).2 c hc

theorem CallsOnly.imp {known' : String → Prop} (h : v.CallsOnly known)
    (himp : ∀ n, known n → known' n) : v.CallsOnly known' :=
  fun n hn => himp n (h n hn)

/-- Values that hold no others, and are no functions. -/
@[simp] theorem callsOnly_atom :
    nothing.CallsOnly known ∧ (∀ b, (bool b).CallsOnly known) ∧ (∀ n, (int n).CallsOnly known) ∧
      (∀ x, (float x).CallsOnly known) ∧ (∀ s, (text s).CallsOnly known) ∧
      (∀ m, (moduleRef m).CallsOnly known) ∧ ∀ m, (modelRef m).CallsOnly known := by
  have hatom {v : Value} (hchildren : v.children = []) (hname : ∀ n, .callable n ≠ v) :
      v.CallsOnly known := by
    rw [callsOnly_iff, hchildren]
    exact ⟨fun n hn => absurd hn (hname n), by simp⟩
  refine ⟨hatom rfl nofun, ?_, ?_, ?_, ?_, ?_, ?_⟩
  all_goals exact fun _ => hatom rfl nofun

@[simp] theorem callsOnly_callable {n : String} : (callable n).CallsOnly known ↔ known n := by
  rw [callsOnly_iff]
  simp [children]

@[simp] theorem callsOnly_list {items : List Value} :
    (list items).CallsOnly known ↔ ∀ v ∈ items, v.CallsOnly known := by
  rw [callsOnly_iff]
  simp [children]

@[simp] theorem callsOnly_dict {d : Dict} :
    (dict d).CallsOnly known ↔ ∀ e ∈ d, e.1.CallsOnly known ∧ e.2.CallsOnly known := by
  rw [callsOnly_iff, forall_children_dict]
  simp

@[simp] theorem callsOnly_object {className : String} {fields : List (String × Value)} :
    (object className fields).CallsOnly known ↔ ∀ f ∈ fields, f.2.CallsOnly known := by
  rw [callsOnly_iff, forall_children_object]
  simp

end

/-! ## Operators -/

@[simp] theorem callsOnly_ofNat (n : Nat) : (ofNat n).CallsOnly known := by
  simp [ofNat]

@[simp] theorem yields_ofInt (n : Int) : Yields (CallsOnly known) (ofInt n) := by
  unfold ofInt
  split <;> simp

@[simp] theorem yields_unary (op : UnaryOp) (v : Value) :
    Yields (CallsOnly known) (unary op v) := by
  unfold unary
  repeat' split
  all_goals simp

@[simp] theorem yields_intPower (a b : Int) : Yields (CallsOnly known) (intPower a b) := by
  unfold intPower
  repeat' split
  all_goals simp

@[simp] theorem yields_arithmetic (op : BinaryOp) (a b : Value) :
    Yields (CallsOnly known) (arithmetic op a b) := by
  unfold arithmetic
  split
  · unfold intArithmetic
    split <;> (repeat' split) <;> simp
  · split
    · unfold floatArithmetic
      split <;> (repeat' split) <;> simp
    · simp

theorem yields_repeatList {items : List Value} (h : ∀ v ∈ items, v.CallsOnly known) (n : Int) :
    Yields (CallsOnly known) (repeatList items n) := by
  rw [repeatList, yields_map]
  intro k _
  rw [callsOnly_list]
  intro v hv
  obtain ⟨part, hpart, hv⟩ := List.mem_flatten.1 hv
  exact h v (List.eq_of_mem_replicate hpart ▸ hv)

section

variable {a b : Value} (ha : a.CallsOnly known) (hb : b.CallsOnly known)

include ha hb

theorem yields_multiply : Yields (CallsOnly known) (multiply a b) := by
  unfold multiply
  split
  · rw [repeatText, yields_map]
    simp [Yields]
  · rw [repeatText, yields_map]
    simp [Yields]
  · exact yields_repeatList (callsOnly_list.1 ha) _
  · exact yields_repeatList (callsOnly_list.1 hb) _
  · simp

/-- The logical operators give one of their operands, a sum of lists holds their items, and the
    other results are new. -/
theorem yields_binary (op : BinaryOp) : Yields (CallsOnly known) (binary op a b) := by
  cases op with
  | and | or =>
    simp only [binary, yields_ok]
    split <;> assumption
  | add =>
    simp only [binary]
    split
    · simp
    · simp only [callsOnly_list] at ha hb
      simp only [yields_ok, callsOnly_list]
      exact List.forall_mem_append.2 ⟨ha, hb⟩
    · simp
  | mul => exact yields_multiply ha hb
  | isIn | notIn => simpa [binary] using (Yields.trivial _)
  | lt | le | gt | ge =>
    simp only [binary, ordered]
    split <;> simp
  | _ => simp [binary]

end

/-! ## Items -/

theorem yields_items {v : Value} (h : v.CallsOnly known) :
    Yields (fun items => ∀ i ∈ items, i.CallsOnly known) v.items := by
  cases v with
  | list items => simpa [Value.items] using h
  | dict d =>
    rw [callsOnly_dict] at h
    simp only [items, yields_ok, List.forall_mem_map]
    exact fun e he => (h e he).1
  | text s => simp [items, characters]
  | _ => simp [items]

theorem yields_itemAt {items : List Value} (h : ∀ v ∈ items, v.CallsOnly known) (index : Int)
    (fault : ValueFault) : Yields (CallsOnly known) (itemAt items index fault) := by
  unfold itemAt
  split
  · split
    · next hv => simpa using h _ (List.mem_of_getElem? hv)
    · simp
  · simp

theorem callsOnly_of_get? {d : Dict} {key v : Value} (h : (dict d).CallsOnly known)
    (hv : d.get? key = some v) : v.CallsOnly known := by
  obtain ⟨e, he, rfl⟩ := Option.map_eq_some_iff.1 hv
  exact h.of_mem_children (value_mem_children (List.mem_of_find?_eq_some he))

theorem callsOnly_insert {k v : Value} {d : Dict} (hk : k.CallsOnly known)
    (hv : v.CallsOnly known) (h : (dict d).CallsOnly known) :
    (dict (d.insert k v)).CallsOnly known := by
  rw [callsOnly_dict] at h ⊢
  exact Dict.forall_mem_insert ⟨hk, hv⟩ fun e he => ⟨h e he, (h e he).1, hv⟩

theorem callsOnly_insertAll {d entries : Dict} (h : (dict d).CallsOnly known)
    (hentries : (dict entries).CallsOnly known) :
    (dict (d.insertAll entries)).CallsOnly known := by
  rw [callsOnly_dict] at hentries
  induction entries generalizing d with
  | nil => exact h
  | cons e entries ih =>
    rw [List.forall_mem_cons] at hentries
    exact ih (callsOnly_insert hentries.1.1 hentries.1.2 h) hentries.2

theorem yields_item {container : Value} (h : container.CallsOnly known) (index : Value) :
    Yields (CallsOnly known) (item container index) := by
  unfold item
  split
  · split
    · next hv => simpa using callsOnly_of_get? h hv
    · simp
  · exact (Yields.trivial _).bind fun n _ => yields_itemAt (callsOnly_list.1 h) n _
  · exact (Yields.trivial _).bind fun n _ => (Yields.trivial _).bind fun c _ => by simp
  · simp

theorem yields_sliced {container : Value} (h : container.CallsOnly known) (low high : Option Int) :
    Yields (CallsOnly known) (sliced container low high) := by
  unfold sliced
  split
  · simp only [callsOnly_list] at h
    simp only [slice, yields_ok, callsOnly_list]
    exact fun v hv => h v (List.mem_of_mem_take (List.mem_of_mem_drop hv))
  · simp
  · simp

/-- A sort gives the items that it was given. -/
theorem yields_sort {items : List Value} (h : ∀ v ∈ items, v.CallsOnly known) :
    Yields (fun sorted => ∀ v ∈ sorted, v.CallsOnly known) (sort items) := by
  intro sorted hsort
  rw [sort_eq_insertion_sort] at hsort
  by_cases hclash : HasClash items
  · obtain ⟨a, b, hfault⟩ := StableSort.insertion.sort_of_hasClash hclash
    rw [hfault] at hsort
    cases hsort
  · obtain ⟨sorted', hok, hsorted⟩ := StableSort.insertion.sortsExactly.sorts items hclash
    obtain rfl : sorted' = sorted := Except.ok.inj (hok.symm.trans hsort)
    exact fun v hv => h v (hsorted.perm.mem_iff.1 hv)

end Value

/-! ## Built-in functions -/

namespace Builtin

open Value

theorem yields_extremeFrom {wanted : Ordering} {best : Value} {items : List Value}
    (hbest : best.CallsOnly known) (h : ∀ v ∈ items, v.CallsOnly known) :
    Yields (CallsOnly known) (extremeFrom wanted best items) := by
  induction items generalizing best with
  | nil => simpa [extremeFrom] using hbest
  | cons v vs ih =>
    rw [List.forall_mem_cons] at h
    unfold extremeFrom
    split
    · refine ih ?_ h.2
      split
      · exact h.1
      · exact hbest
    · simp

@[simp] theorem yields_addNumbers (a b : Value) : Yields (CallsOnly known) (addNumbers a b) := by
  unfold addNumbers
  repeat' split
  all_goals simp

/-- Of no items the sum is its start, whatever that is. -/
theorem yields_foldlM_addNumbers (items : List Value) {start : Value}
    (h : start.CallsOnly known) :
    Yields (CallsOnly known) (items.foldlM addNumbers start) := by
  induction items generalizing start with
  | nil => simpa using h
  | cons v vs ih =>
    rw [List.foldlM_cons]
    exact (yields_addNumbers start v).bind fun sum hsum => ih hsum

@[simp] theorem yields_roundValue (v : Value) (places : Option Int64) :
    Yields (CallsOnly known) (roundValue v places) := by
  unfold roundValue roundToInt
  repeat' split
  all_goals simp

theorem yields_toInt (v : Value) : Yields (CallsOnly known) (toInt v) := by
  unfold toInt
  repeat' split
  all_goals simp

theorem yields_toFloat (v : Value) : Yields (CallsOnly known) (toFloat v) := by
  unfold toFloat
  repeat' split
  all_goals simp

theorem callsOnly_rangeFrom (stop step n : Int64) {found : Array Value}
    (h : ∀ v ∈ found, v.CallsOnly known) :
    ∀ v ∈ rangeFrom stop step n found, v.CallsOnly known := by
  have hpush (n : Int64) {found : Array Value} (h : ∀ v ∈ found, v.CallsOnly known) :
      ∀ v ∈ found.push (.int n), v.CallsOnly known := by
    intro v hv
    rcases Array.mem_push.1 hv with hv | rfl
    · exact h v hv
    · simp
  fun_induction rangeFrom stop step n found with
  | case1 n found hbefore next hnext ih => exact ih (hpush n h)
  | case2 n found hbefore hnext => exact hpush n h
  | case3 n found hpast => exact h

theorem yields_rangeOf (bounds : List Int64) : Yields (CallsOnly known) (rangeOf bounds) := by
  have hitems (start stop step : Int64) :
      (Value.list (rangeItems start stop step)).CallsOnly known := by
    rw [callsOnly_list]
    have hempty : ∀ v ∈ (#[] : Array Value), v.CallsOnly known := by simp
    intro v hv
    exact callsOnly_rangeFrom stop step start hempty v (Array.mem_toList_iff.1 hv)
  unfold rangeOf
  split
  · exact yields_ok.2 (hitems _ _ _)
  · exact yields_ok.2 (hitems _ _ _)
  · split
    · simp
    · exact yields_ok.2 (hitems _ _ _)
  · simp

section

variable {args : List Value} (h : ∀ v ∈ args, v.CallsOnly known)

include h

theorem yields_only (b : Builtin) : Yields (CallsOnly known) (b.only args) := by
  unfold only
  split
  · simpa using h
  · simp

theorem yields_extreme (b : Builtin) (wanted : Ordering) :
    Yields (CallsOnly known) (extreme b wanted args) := by
  simp only [extreme]
  split
  · simp
  · simp
  · next v vs hok =>
    have hall : ∀ i ∈ v :: vs, i.CallsOnly known := by
      split at hok
      · exact yields_items (h _ (by simp)) _ hok
      · cases hok
        exact h
    rw [List.forall_mem_cons] at hall
    exact yields_extremeFrom hall.1 hall.2

theorem yields_total : Yields (CallsOnly known) (total args) := by
  unfold total
  split
  · exact (Yields.trivial _).bind fun items _ => yields_foldlM_addNumbers items (by simp)
  · next start =>
    have hstart : start.CallsOnly known := h start (by simp)
    exact (Yields.trivial _).bind fun items _ => yields_foldlM_addNumbers items hstart
  · simp

/-- **No built-in function makes a function.** -/
theorem yields_call (b : Builtin) : Yields (CallsOnly known) (b.call args) := by
  cases b with
  | len =>
    refine (Yields.trivial _).bind fun v _ => ?_
    unfold length
    split <;> simp
  | int =>
    cases args with
    | nil => simp [call]
    | cons v vs => exact yields_toInt v
  | float =>
    cases args with
    | nil => simp [call]
    | cons v vs => exact yields_toFloat v
  | abs =>
    refine (Yields.trivial _).bind fun v _ => ?_
    unfold absolute
    split <;> simp
  | min => exact yields_extreme h .min .lt
  | max => exact yields_extreme h .max .gt
  | sum => exact yields_total h
  | round =>
    simp only [call]
    split <;> simp
  | range => exact (Yields.trivial _).bind fun bounds _ => yields_rangeOf bounds
  | sorted =>
    refine (yields_only h .sorted).bind fun v hv => (yields_items hv).bind fun items hitems => ?_
    exact (yields_sort hitems).bind fun sorted hsorted => by simpa using hsorted
  | list =>
    simp only [call]
    split
    · simp
    · simpa using yields_items (h _ (by simp))
  | _ => simp [call]

end

end Builtin

/-! ## Methods -/

namespace Method

open Value

section

variable {args : List Value} (h : ∀ v ∈ args, v.CallsOnly known)

include h

theorem yields_arg (method : String) (i : Nat) :
    Yields (CallsOnly known) (arg method args i) := by
  unfold arg
  split
  · next hv => simpa using h _ (List.mem_of_getElem? hv)
  · simp

theorem callsOnly_getD (i : Nat) : (args[i]?.getD .nothing).CallsOnly known := by
  cases hv : args[i]? with
  | none => simp
  | some v => exact h v (List.mem_of_getElem? hv)

end

/-- Items of a list that call known functions only. -/
abbrev ItemsCallOnly (known : String → Prop) (items : List Value) : Prop :=
  ∀ v ∈ items, v.CallsOnly known

theorem ensures_removeItem (item : Value) :
    Ensures (ItemsCallOnly known) (fun _ => True) (removeItem item) := by
  refine ensures_get.bind fun items _ => ?_
  split
  · exact ensures_modify fun items h v hv => h v (List.mem_of_mem_eraseIdx hv)
  · exact ensures_result (yields_error _)

theorem ensures_popItem (index : Int) :
    Ensures (ItemsCallOnly known) (CallsOnly known) (popItem index) := by
  refine ensures_get.bind fun items h => ?_
  split
  · refine (ensures_set fun v hv => h v (List.mem_of_mem_eraseIdx hv)).bind fun _ _ => ?_
    exact ensures_pure (callsOnly_getD h _)
  · exact ensures_result (yields_error _)

/-- A key that is taken out is an entry less, and its value was there. -/
theorem ensures_popKey (key : Value) {default : Option Value}
    (hdefault : ∀ v ∈ default, v.CallsOnly known) :
    Ensures (fun d => (dict d).CallsOnly known) (CallsOnly known) (popKey key default) := by
  have htake : Ensures (fun d => (dict d).CallsOnly known)
      (fun taken => ∀ v ∈ taken, v.CallsOnly known) (modifyGet (Dict.take key)) := by
    refine ensures_modifyGet fun d h => ⟨fun v hv => ?_, ?_⟩
    · rw [Dict.take_fst] at hv
      exact callsOnly_of_get? h hv
    · rw [callsOnly_dict] at h ⊢
      exact fun e he => h e ((Dict.erase_sublist key d).subset he)
  refine htake.bind fun taken htaken => ?_
  split
  · exact ensures_pure (htaken _ rfl)
  · exact ensures_pure (hdefault _ rfl)
  · exact ensures_result (yields_error _)

section

variable {args : List Value} (hargs : ∀ v ∈ args, v.CallsOnly known)

include hargs

theorem ensures_mutateList (method : String) :
    Ensures (ItemsCallOnly known) (CallsOnly known) (mutateList method args) := by
  have hmodify {f : List Value → List Value}
      (hf : ∀ items, ItemsCallOnly known items → ItemsCallOnly known (f items)) :
      Ensures (ItemsCallOnly known) (CallsOnly known) (do modify f; return .nothing) :=
    (ensures_modify hf).bind fun _ _ => ensures_pure (by simp)
  unfold mutateList
  split
  · refine (ensures_result (yields_arg hargs _ 0)).bind fun v hv => hmodify fun items h => ?_
    exact List.forall_mem_append.2 ⟨h, by simpa using hv⟩
  · have hmore := (yields_arg hargs "extend" 0).bind fun v hv => yields_items hv
    refine (ensures_result hmore).bind fun new hnew => hmodify fun items h => ?_
    exact List.forall_mem_append.2 ⟨h, hnew⟩
  · refine (ensures_result (Yields.trivial _)).bind fun position _ => ?_
    split
    · refine (ensures_result (yields_arg hargs _ 1)).bind fun v hv => hmodify fun items h w hw => ?_
      rcases List.eq_or_mem_of_mem_insertIdx hw with rfl | hw
      · exact hv
      · exact h w hw
    · exact ensures_result (yields_error _)
  · split
    · exact ensures_popItem _
    · split
      · exact ensures_popItem _
      · exact ensures_result (yields_error _)
  · refine (ensures_result (Yields.trivial _)).bind fun v _ => ?_
    exact (ensures_removeItem v).bind fun _ _ => ensures_pure (by simp)
  · refine (ensures_set ?_).bind fun _ _ => ensures_pure (by simp)
    exact fun v hv => absurd hv List.not_mem_nil
  · exact ensures_get.bind fun items _ => ensures_result (yields_error _)

theorem ensures_mutateDict (method : String) :
    Ensures (fun d => (dict d).CallsOnly known) (CallsOnly known) (mutateDict method args) := by
  unfold mutateDict
  split
  · refine (ensures_result (Yields.trivial _)).bind fun key _ => ensures_popKey key ?_
    exact fun v hv => hargs v (List.mem_of_getElem? hv)
  · refine (ensures_result (yields_arg hargs _ 0)).bind fun other hother => ?_
    split
    · refine (ensures_modify ?_).bind fun _ _ => ensures_pure (by simp)
      exact fun d h => callsOnly_insertAll h hother
    · exact ensures_result (yields_error _)
  · refine (ensures_set ?_).bind fun _ _ => ensures_pure (by simp)
    exact callsOnly_dict.2 fun e he => absurd he List.not_mem_nil
  · exact ensures_get.bind fun d _ => ensures_result (yields_error _)

/-- **A changing method makes no function**: neither its result nor what it leaves. -/
theorem ensures_mutate (method : String) :
    Ensures (CallsOnly known) (CallsOnly known) (mutate method args) := by
  intro receiver h
  cases receiver with
  | list items =>
    obtain ⟨hkept, hgiven⟩ := ensures_mutateList hargs method items (callsOnly_list.1 h)
    exact ⟨callsOnly_list.2 hkept, hgiven⟩
  | dict d => exact ensures_mutateDict hargs method d h
  | _ => exact ⟨h, yields_error _⟩

theorem yields_callDict (method : String) {d : Dict} (h : (dict d).CallsOnly known) :
    Yields (CallsOnly known) (callDict d method args) := by
  have hentries := callsOnly_dict.1 h
  unfold callDict
  split
  · exact yields_ok.2 h
  · simpa [Dict.keys] using fun k v hkv => (hentries (k, v) hkv).1
  · simpa [Dict.values] using fun k v hkv => (hentries (v, k) hkv).2
  · rw [yields_ok, callsOnly_list, List.forall_mem_map]
    intro e he
    simpa using hentries e he
  · refine (Yields.trivial _).bind fun key _ => yields_pure.2 ?_
    cases hv : d.get? key with
    | some v => exact callsOnly_of_get? h hv
    | none => exact callsOnly_getD hargs 1
  · simp

end

theorem yields_callText (s method : String) (args : List Value) :
    Yields (CallsOnly known) (callText s method args) := by
  unfold callText
  split
  · simp
  · simp
  · simp
  · simp only [splitText]
    repeat' split
    all_goals simp
  · refine (Yields.trivial _).bind fun v _ => (Yields.trivial _).bind fun w _ => ?_
    split <;> simp
  · refine (Yields.trivial _).bind fun v _ => ?_
    split <;> simp
  · refine (Yields.trivial _).bind fun v _ => ?_
    split <;> simp
  · refine (Yields.trivial _).bind fun v _ => (Yields.trivial _).bind fun items _ => ?_
    exact (Yields.trivial _).bind fun parts _ => by simp
  · simp

theorem yields_callList (method : String) (args : List Value) {items : List Value}
    (h : ∀ v ∈ items, v.CallsOnly known) :
    Yields (CallsOnly known) (callList items method args) := by
  unfold callList
  split
  · exact (Yields.trivial _).bind fun item _ => by simp
  · refine (Yields.trivial _).bind fun item _ => ?_
    split <;> simp
  · simpa using h
  · simp

/-- **A method makes no function.** -/
theorem yields_call (method : String) {args : List Value} (hargs : ∀ v ∈ args, v.CallsOnly known)
    {receiver : Value} (h : receiver.CallsOnly known) :
    Yields (CallsOnly known) (call receiver method args) := by
  cases receiver with
  | text s => exact yields_callText s method args
  | list items => exact yields_callList method args (callsOnly_list.1 h)
  | dict d => exact yields_callDict hargs method h
  | _ => simp [call]

end Method

/-! ## Parts and stores -/

open Value

section

variable {new v v' : Value} {a : Accessor}

theorem Place.mem_setField {name : String} {fields : List (String × Value)}
    {f : String × Value} (h : f ∈ setField name v fields) : f = (name, v) ∨ f ∈ fields := by
  induction fields with
  | nil => exact Or.inl (List.mem_singleton.1 h)
  | cons g fields ih =>
    unfold setField at h
    split at h
    · exact List.mem_cons.1 h
    · exact (List.mem_cons.1 h).imp_right (List.mem_cons_of_mem g)
    · rcases List.mem_cons.1 h with rfl | h
      · exact Or.inr List.mem_cons_self
      · exact (ih h).imp_right (List.mem_cons_of_mem g)

/-- The key of a new entry is a key of the step that leads to it. -/
theorem Stored.callsOnly (h : Stored new v a v') (hv : v.CallsOnly known)
    (hnew : new.CallsOnly known) (hkey : ∀ key, a = .index key → key.CallsOnly known) :
    v'.CallsOnly known := by
  cases h with
  | item hi =>
    rw [callsOnly_list] at hv ⊢
    intro w hw
    rcases List.mem_or_eq_of_mem_set hw with hw | rfl
    · exact hv w hw
    · exact hnew
  | entry => exact callsOnly_insert (hkey _ rfl) hnew hv
  | field =>
    rw [callsOnly_object] at hv ⊢
    intro f hf
    rcases Place.mem_setField hf with rfl | hf
    · exact hnew
    · exact hv f hf

theorem StoredAlong.callsOnly {path : List Accessor} (h : StoredAlong new v path v')
    (hv : v.CallsOnly known) (hnew : new.CallsOnly known)
    (hkeys : ∀ key, .index key ∈ path → key.CallsOnly known) : v'.CallsOnly known := by
  induction h with
  | here => exact hnew
  | last h => exact h.callsOnly hv hnew fun key hkey => hkeys key (by simp [hkey])
  | inside hpart _ h ih =>
    have hinside := ih (hv.of_mem_children hpart.mem_children)
      fun key hkey => hkeys key (List.mem_cons_of_mem _ hkey)
    exact h.callsOnly hv hinside fun key hkey => hkeys key (by simp [hkey])

end

end StepScript
