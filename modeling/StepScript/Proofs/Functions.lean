import StepScript.Proofs.Denotation
import StepScript.Proofs.Moves

/-!
# Functions and evaluation

Evaluation makes functions in two places: where a name is read that is no variable, and where a
member of a module is read. In both of them the name denotes something. Everything else moves values
around, so if the functions of the host make no others, then the value of an expression and the
variables that it leaves hold only functions that are denoted (`Expr.IsReadable.ensures`).

That is an invariant of two things at once, of the environment at the end and of the value in
between, and `Ensures` carries both through a computation. The environment includes what the host
remembers: its functions make no others only as long as that has the property `P`, which they keep.
-/

set_option autoImplicit false

namespace StepScript

open Value (CallsOnly Within)

variable {σ α : Type} {P : σ → Prop}

/-! ## Environments that know their functions -/

theorem ensures_evalLift {R : Env σ → Prop} {Q : α → Prop} {r : Except Fault α} (h : Yields Q r) :
    Ensures R Q (Eval.lift r) :=
  ensures_result h

namespace Env

/-- The environment has the functions, classes and modules of another one, whatever function a
    variable holds, there is one of that name, and what the host remembers has the property. -/
structure Knows (P : σ → Prop) (tables env : Env σ) : Prop where
  handouts : tables.SameHandouts env
  host : P env.host
  vars : ∀ x v, env.get? x = some v → v.CallsOnly tables.Denotes

namespace Knows

variable {tables env : Env σ} {args : List Value}

theorem set (h : tables.Knows P env) (x : String) {v : Value} (hv : v.CallsOnly tables.Denotes) :
    tables.Knows P (env.set x v) where
  handouts := h.handouts.trans (env.sameHandouts_set x v)
  host := h.host
  vars y u hu := by
    rw [get?_set] at hu
    split at hu
    · cases hu
      exact hv
    · exact h.vars y u hu

theorem unset (h : tables.Knows P env) (x : String) : tables.Knows P (env.unset x) where
  handouts := h.handouts.trans (env.sameHandouts_restore x none)
  host := h.host
  vars y u hu := by
    rw [get?_unset] at hu
    split at hu
    · cases hu
    · exact h.vars y u hu

theorem restore (h : tables.Knows P env) (x : String) {before : Env σ}
    (hbefore : tables.Knows P before) : tables.Knows P (env.restore x (before.get? x)) := by
  cases hv : before.get? x with
  | none => exact h.unset x
  | some v => exact h.set x (hbefore.vars x v hv)

theorem yields_lookup (h : tables.Knows P env) (x : String) :
    Yields (CallsOnly tables.Denotes) (env.lookup x) :=
  fun v hv => h.vars x v (get?_of_lookup hv)

/-- A name becomes a function where it denotes one. -/
theorem yields_nameValue (h : tables.Knows P env) (name : String) :
    Yields (CallsOnly tables.Denotes) (env.nameValue name) := by
  unfold nameValue
  split
  · next v hv => exact yields_ok.2 (h.vars name v hv)
  · split
    · next hknown =>
      rw [Bool.or_eq_true, Table.contains, h.handouts.objects] at hknown
      have hdenotes : tables.Denotes name :=
        denotes_iff.2 (hknown.imp_right Or.inr)
      simpa using hdenotes
    · exact yields_error _

end Knows

theorem denotes_dotted {env : Env σ} {owner member : String} {m : Module σ}
    (hmember : Line.IsName member.toList) (hm : env.modules.get? owner = some m)
    (hf : m.functions.contains member = true) : env.Denotes (dotted owner member) := by
  refine denotes_iff.2 (Or.inr (Or.inl ?_))
  rw [moduleFunction?, undotted?_dotted hmember]
  dsimp only
  rw [hm]
  exact hf

section

variable {tables env : Env σ} {args : List Value}
  (htables : MakeNoFunctions P tables.objects tables.modules) (h : tables.Knows P env)

include htables h

/-- A member of a module becomes a function where it denotes one. -/
theorem Knows.yields_moduleMember (owner : String) {member : String}
    (hmember : Line.IsName member.toList) :
    Yields (CallsOnly tables.Denotes) (env.moduleMember owner member) := by
  simp only [moduleMember]
  split
  · next v hown =>
    obtain ⟨m, hm, hown⟩ := Option.bind_eq_some_iff.1 hown
    rw [h.handouts.modules] at hm
    split at hown
    · next hf =>
      cases hown
      simpa using denotes_dotted hmember hm hf
    · rw [yields_ok]
      exact fun n hn => absurd hn (htables.of_constant owner m hm member v hown n)
  · split
    · simp
    · exact yields_error _

theorem Knows.yields_attributeOf {v : Value} (hv : v.CallsOnly tables.Denotes) {name : String}
    (hname : Line.IsName name.toList) :
    Yields (CallsOnly tables.Denotes) (env.attributeOf v name) := by
  unfold attributeOf
  split
  · exact h.yields_moduleMember htables _ hname
  · unfold objectField
    split
    · next hfind =>
      exact yields_ok.2 (Value.callsOnly_object.1 hv _ (Table.mem_of_find? hfind))
    · exact yields_error _
  · exact yields_error _

/-- A call leaves the host with the property. -/
theorem Knows.ensures_callNamed (name : String) (hargs : ∀ a ∈ args, a.CallsOnly tables.Denotes) :
    P (env.callNamed name args).2 ∧
      Yields (CallsOnly tables.Denotes) (env.callNamed name args).1 := by
  refine MakeNoFunctions.callNamed ?_ name hargs h.host
  rwa [h.handouts.objects, h.handouts.modules]

theorem Knows.ensures_callValue (target : Value)
    (hargs : ∀ a ∈ args, a.CallsOnly tables.Denotes) :
    P (env.callValue target args).2 ∧
      Yields (CallsOnly tables.Denotes) (env.callValue target args).1 := by
  unfold callValue
  split
  · exact h.ensures_callNamed htables _ hargs
  · exact ⟨h.host, yields_error _⟩

end

end Env

/-! ## Evaluation -/

section

variable {tables : Env σ} {args : List Value}

theorem ensures_changeVariable {Q : α → Prop} (name : String) {change : Change Value α}
    (hchange : Ensures (CallsOnly tables.Denotes) Q change) :
    Ensures (tables.Knows P) Q (changeVariable name change) := by
  intro env henv
  rw [run_changeVariable]
  have hlookup := henv.yields_lookup name
  cases hv : env.lookup name with
  | error fault => exact ⟨henv, yields_error fault⟩
  | ok v =>
    obtain ⟨hkept, hgiven⟩ := hchange v (hlookup v hv)
    exact ⟨henv.set name hkept, hgiven⟩

variable (htables : MakeNoFunctions P tables.objects tables.modules)

include htables

theorem ensures_evalCall (target : Value) (hargs : ∀ a ∈ args, a.CallsOnly tables.Denotes) :
    Ensures (tables.Knows P) (CallsOnly tables.Denotes) (Eval.call (·.callValue target args)) := by
  intro env henv
  obtain ⟨hhost, hgiven⟩ := henv.ensures_callValue htables target hargs
  exact ⟨⟨henv.handouts.trans ⟨rfl, rfl⟩, hhost, henv.vars⟩, hgiven⟩

theorem ensures_callMethod (receiver : Expr) {object : Value}
    (hobject : object.CallsOnly tables.Denotes) {method : String}
    (hmethod : Line.IsName method.toList) (hargs : ∀ a ∈ args, a.CallsOnly tables.Denotes) :
    Ensures (tables.Knows P) (CallsOnly tables.Denotes)
      (callMethod receiver object method args) := by
  unfold callMethod
  -- modules and objects have no methods of their own: their field is read and then called
  have hattribute {object : Value} (hobject : object.CallsOnly tables.Denotes) :
      Ensures (tables.Knows P) (CallsOnly tables.Denotes) (do
        let target ← Eval.lift ((← get).attributeOf object method)
        Eval.call (·.callValue target args)) := by
    refine ensures_get.bind fun env henv => ?_
    exact (ensures_evalLift (henv.yields_attributeOf htables hobject hmethod)).bind
      fun target _ => ensures_evalCall htables target hargs
  split
  · exact hattribute hobject
  · exact hattribute hobject
  · split
    · split
      · exact ensures_changeVariable _ (Method.ensures_mutate hargs method)
      · exact ensures_evalLift (Method.ensures_mutate hargs method object hobject).2
    · exact ensures_evalLift (Method.yields_call method hargs hobject)

end

namespace Expr

section

variable {tables : Env σ}

theorem ensures_evalAll {es : List Expr}
    (h : ∀ e ∈ es, Ensures (tables.Knows P) (CallsOnly tables.Denotes) e.eval) :
    Ensures (tables.Knows P) (fun vs => ∀ v ∈ vs, v.CallsOnly tables.Denotes) (evalAll es) := by
  induction es with
  | nil => exact ensures_pure (by simp)
  | cons e es ih =>
    rw [List.forall_mem_cons] at h
    unfold evalAll
    refine h.1.bind fun v hv => (ih h.2).bind fun vs hvs => ensures_pure ?_
    exact List.forall_mem_cons.2 ⟨hv, hvs⟩

theorem ensures_evalEntries {es : List (Expr × Expr)}
    (hkeys : ∀ e ∈ es, Ensures (tables.Knows P) (CallsOnly tables.Denotes) e.1.eval)
    (hvalues : ∀ e ∈ es, Ensures (tables.Knows P) (CallsOnly tables.Denotes) e.2.eval) {d : Dict}
    (hd : (Value.dict d).CallsOnly tables.Denotes) :
    Ensures (tables.Knows P) (fun d => (Value.dict d).CallsOnly tables.Denotes)
      (evalEntries es d) := by
  induction es generalizing d with
  | nil => exact ensures_pure hd
  | cons e es ih =>
    obtain ⟨k, v⟩ := e
    rw [List.forall_mem_cons] at hkeys hvalues
    unfold evalEntries evalEntry
    have hentry : Ensures (tables.Knows P)
        (fun e : Value × Value => e.1.CallsOnly tables.Denotes ∧ e.2.CallsOnly tables.Denotes)
        (do
          let key ← eval k
          let value ← eval v
          return (key, value)) :=
      hkeys.1.bind fun key hkey => hvalues.1.bind fun value hvalue => ensures_pure ⟨hkey, hvalue⟩
    refine hentry.bind fun e he => ih hkeys.2 hvalues.2 ?_
    exact Value.callsOnly_insert he.1 he.2 hd

theorem ensures_evalBound {bound : Option Expr}
    (h : ∀ e ∈ bound, Ensures (tables.Knows P) (CallsOnly tables.Denotes) e.eval) :
    Ensures (tables.Knows P) (fun _ => True) (evalBound bound) := by
  cases bound with
  | none => exact ensures_pure trivial
  | some e => exact (h e rfl).bind fun v _ => ensures_evalLift (Yields.trivial _)

theorem ensures_eval_binary (op : BinaryOp) {left right : Expr}
    (hleft : Ensures (tables.Knows P) (CallsOnly tables.Denotes) left.eval)
    (hright : Ensures (tables.Knows P) (CallsOnly tables.Denotes) right.eval) :
    Ensures (tables.Knows P) (CallsOnly tables.Denotes) (eval (.binary op left right)) := by
  cases op with
  | and | or =>
    unfold eval
    refine hleft.bind fun v hv => ?_
    split <;> first | exact hright | exact ensures_pure hv
  | _ =>
    unfold eval
    refine hleft.bind fun v hv => hright.bind fun w hw => ?_
    exact ensures_evalLift (Value.yields_binary hv hw _)

variable (htables : MakeNoFunctions P tables.objects tables.modules)

include htables

/-- A method is called on the owner of the field; anything else that is called is evaluated. -/
theorem ensures_eval_call {callee : Expr} {args : List Expr} (hcallee : callee.IsReadable)
    (heval : Ensures (tables.Knows P) (CallsOnly tables.Denotes) callee.eval)
    (howner : ∀ owner method, callee = .field owner method →
      Ensures (tables.Knows P) (CallsOnly tables.Denotes) owner.eval)
    (hargs : ∀ e ∈ args, Ensures (tables.Knows P) (CallsOnly tables.Denotes) e.eval) :
    Ensures (tables.Knows P) (CallsOnly tables.Denotes) (eval (.call callee args)) := by
  cases hcallee with
  | @field owner method _ hmethod =>
    unfold eval
    refine (howner owner method rfl).bind fun object hobject => ?_
    refine (ensures_evalAll hargs).bind fun vs hvs => ?_
    exact ensures_callMethod htables owner hobject hmethod hvs
  | _ =>
    rw [eval]
    · refine heval.bind fun target _ => (ensures_evalAll hargs).bind fun vs hvs => ?_
      exact ensures_evalCall htables target hvs
    · simp

/-- **The value of an expression holds no other functions than those that are denoted**, and so do
    the variables afterwards. The owner of a field is evaluated on its own when a method is called,
    so the induction speaks of it as well. -/
theorem IsReadable.ensures {e : Expr} (h : e.IsReadable) :
    Ensures (tables.Knows P) (CallsOnly tables.Denotes) e.eval ∧
      ∀ owner member, e = .field owner member →
        Ensures (tables.Knows P) (CallsOnly tables.Denotes) owner.eval := by
  induction h with
  | @literal v hv =>
    refine ⟨ensures_pure ?_, nofun⟩
    cases hv <;> simp
  | @name n hn hreserved =>
    refine ⟨?_, nofun⟩
    unfold eval
    exact ensures_get.bind fun env henv => ensures_evalLift (henv.yields_nameValue n)
  | list hitems ih =>
    refine ⟨?_, nofun⟩
    unfold eval
    refine (ensures_evalAll fun e he => (ih e he).1).bind fun vs hvs => ensures_pure ?_
    exact Value.callsOnly_list.2 hvs
  | dict hkeys hvalues ihkeys ihvalues =>
    refine ⟨?_, nofun⟩
    unfold eval
    refine (ensures_evalEntries (fun e he => (ihkeys e he).1) (fun e he => (ihvalues e he).1)
      (by simp)).bind fun d hd => ensures_pure hd
  | unary op he ih =>
    refine ⟨?_, nofun⟩
    unfold eval
    exact ih.1.bind fun v _ => ensures_evalLift (Value.yields_unary op v)
  | binary op hleft hright ihleft ihright =>
    exact ⟨ensures_eval_binary op ihleft.1 ihright.1, nofun⟩
  | call hcallee hargs ihcallee ihargs =>
    refine ⟨?_, nofun⟩
    exact ensures_eval_call htables hcallee ihcallee.1 ihcallee.2 fun e he => (ihargs e he).1
  | index he hi ihe ihi =>
    refine ⟨?_, nofun⟩
    unfold eval
    refine ihe.1.bind fun container hcontainer => ihi.1.bind fun index _ => ?_
    exact ensures_evalLift (Value.yields_item hcontainer index)
  | slice he hlow hhigh ihe ihlow ihhigh =>
    refine ⟨?_, nofun⟩
    unfold eval
    refine ihe.1.bind fun container hcontainer => ?_
    refine (ensures_evalBound fun e he => (ihlow e he).1).bind fun low _ => ?_
    refine (ensures_evalBound fun e he => (ihhigh e he).1).bind fun high _ => ?_
    exact ensures_evalLift (Value.yields_sliced hcontainer low high)
  | field howner hn ih =>
    constructor
    · unfold eval
      refine ih.1.bind fun object hobject => ensures_get.bind fun env henv => ?_
      exact ensures_evalLift (henv.yields_attributeOf htables hobject hn)
    · rintro _ _ ⟨⟩
      exact ih.1

/-! ## Places -/

/-- The functions inside the indices of a place are denoted. -/
theorem IsReadable.ensures_place {e : Expr} (h : e.IsReadable) :
    Ensures (tables.Knows P) (fun p => ∀ key, .index key ∈ p.path → key.CallsOnly tables.Denotes)
      e.place := by
  fun_induction place e with
  | case1 n => exact ensures_pure (by simp)
  | case2 c i ih =>
    cases h with
    | index hc hi =>
      refine (hi.ensures htables).1.bind fun key hkey => (ih hc).bind fun p hp => ensures_pure ?_
      simpa [or_imp, forall_and] using ⟨hp, hkey⟩
  | case3 c member ih =>
    cases h with
    | field hc hn =>
      refine (ih hc).bind fun p hp => ensures_pure ?_
      simpa using hp
  | case4 => exact ensures_evalLift (yields_error _)

theorem IsReadable.ensures_assign {e : Expr} (h : e.IsReadable) {v : Value}
    (hv : v.CallsOnly tables.Denotes) :
    Ensures (tables.Knows P) (fun _ => True) (e.assign v) := by
  refine (h.ensures_place htables).bind fun p hp => ensures_get.bind fun env henv => ?_
  have hstore : Yields (tables.Knows P) (p.store v env) := by
    intro after hafter
    cases Place.store_eq_ok_iff.1 hafter with
    | whole => exact henv.set _ hv
    | part hroot hstored =>
      exact henv.set _ (hstored.callsOnly (henv.vars _ _ hroot) hv hp)
  exact (ensures_evalLift hstore).bind fun after hafter => ensures_set hafter

end

end Expr

section

variable {tables : Env σ}

/-- Names that are put back are put back to values that were known. -/
theorem Eval.ensures_restoring {Q : α → Prop} {e : Eval σ α} (names : List String)
    (he : Ensures (tables.Knows P) Q e) : Ensures (tables.Knows P) Q (restoring names e) := by
  intro env henv
  obtain ⟨hkept, hgiven⟩ := he env henv
  have hfold : ∀ after : Env σ, tables.Knows P after → tables.Knows P
      (names.foldl (fun after name => after.restore name (env.get? name)) after) := by
    induction names with
    | nil => exact fun _ h => h
    | cons name names ih => exact fun after h => ih _ (h.restore name henv)
  exact ⟨hfold _ hkept, hgiven⟩

variable (htables : MakeNoFunctions P tables.objects tables.modules)

include htables

theorem ensures_evalText (text : String) :
    Ensures (tables.Knows P) (CallsOnly tables.Denotes) (evalText text) := by
  have hparse : Yields Expr.IsReadable (Expr.parse text) := fun _ => Expr.isReadable_of_parse
  exact (ensures_evalLift hparse).bind fun e he => (he.ensures htables).1

namespace Eval

theorem ensures_withItem {e : Expr} (h : e.IsReadable) {item : Value}
    (hitem : item.CallsOnly tables.Denotes) :
    Ensures (tables.Knows P) (CallsOnly tables.Denotes) (withItem e item) :=
  (ensures_modify fun _ henv => henv.set "x" hitem).bind fun _ _ => (h.ensures htables).1

section

variable {e : Expr} (h : e.IsReadable) {items : List Value}
  (hitems : ∀ v ∈ items, v.CallsOnly tables.Denotes)

include h hitems

theorem ensures_filterItems :
    Ensures (tables.Knows P) (fun vs => ∀ v ∈ vs, v.CallsOnly tables.Denotes)
      (filterItems e items) := by
  induction items with
  | nil => exact ensures_pure (by simp)
  | cons item items ih =>
    rw [List.forall_mem_cons] at hitems
    refine (ensures_withItem htables h hitems.1).bind fun keep _ => ?_
    refine (ih hitems.2).bind fun kept hkept => ensures_pure ?_
    split
    · exact List.forall_mem_cons.2 ⟨hitems.1, hkept⟩
    · exact hkept

theorem ensures_mapItems :
    Ensures (tables.Knows P) (fun vs => ∀ v ∈ vs, v.CallsOnly tables.Denotes)
      (mapItems e items) := by
  induction items with
  | nil => exact ensures_pure (by simp)
  | cons item items ih =>
    rw [List.forall_mem_cons] at hitems
    refine (ensures_withItem htables h hitems.1).bind fun v hv => ?_
    refine (ih hitems.2).bind fun vs hvs => ensures_pure ?_
    exact List.forall_mem_cons.2 ⟨hv, hvs⟩

theorem ensures_reduceItems {acc : Value} (hacc : acc.CallsOnly tables.Denotes) :
    Ensures (tables.Knows P) (CallsOnly tables.Denotes) (reduceItems e acc items) := by
  induction items generalizing acc with
  | nil => exact ensures_pure hacc
  | cons item items ih =>
    rw [List.forall_mem_cons] at hitems
    refine (ensures_modify fun _ henv => henv.set "acc" hacc).bind fun _ _ => ?_
    exact (ensures_withItem htables h hitems.1).bind fun acc hacc => ih hitems.2 hacc

end

end Eval

end

end StepScript
