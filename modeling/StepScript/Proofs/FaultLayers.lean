import StepScript.Machine.Action

/-!
# Where faults come from

Faults come in layers: operations on values raise some, names and the host add to them, then texts
that have to be read, and last the control of a program. `FaultsUpTo` bounds the layer of the fault
that a result may be, `RaisesUpTo` that of a computation, and each function of the evaluator gets
one lemma: no operator, built-in function or method misses a name, no evaluation reads a text, and
no plain statement raises a fault of block structure, whatever the host answers.
-/

set_option autoImplicit false

namespace StepScript

variable {σ α β : Type} {top : Nat}

/-! ## Layers -/

/-- Where a fault comes from: an operation on values is 0, a name or the host 1, a text that is no
    expression 2, the control of a program 3. -/
@[simp] def Fault.layer : Fault → Nat
  | .type _ | .value _ | .divisionByZero => 0
  | .undefined _ | .host _ => 1
  | .expression _ _ => 2
  | .structural _ | .arity _ _ => 3

/-! ## Results -/

/-- The result is no fault of a layer above `top`. -/
def FaultsUpTo (top : Nat) (r : Except Fault α) : Prop :=
  ∀ fault, r = .error fault → fault.layer ≤ top

@[simp] theorem faultsUpTo_ok (a : α) : FaultsUpTo top (.ok a : Except Fault α) := by
  intro fault h
  cases h

@[simp] theorem faultsUpTo_pure (a : α) : FaultsUpTo top (pure a : Except Fault α) :=
  faultsUpTo_ok a

@[simp] theorem faultsUpTo_error {fault : Fault} :
    FaultsUpTo top (.error fault : Except Fault α) ↔ fault.layer ≤ top := by
  simp [FaultsUpTo]

@[simp] theorem faultsUpTo_bind {r : Except Fault α} {f : α → Except Fault β}
    (hr : FaultsUpTo top r) (hf : ∀ a, FaultsUpTo top (f a)) : FaultsUpTo top (r >>= f) := by
  cases r with
  | ok a => exact hf a
  | error fault => simpa [bind, Except.bind] using hr

@[simp] theorem faultsUpTo_map {r : Except Fault α} {f : α → β} (hr : FaultsUpTo top r) :
    FaultsUpTo top (r.map f) := by
  cases r with
  | ok a => simp [Except.map]
  | error fault => simpa [Except.map] using hr

@[simp] theorem faultsUpTo_functorMap {r : Except Fault α} {f : α → β}
    (hr : FaultsUpTo top r) : FaultsUpTo top (f <$> r) :=
  faultsUpTo_map hr

@[simp] theorem faultsUpTo_hosted (r : Except HostFault α) : FaultsUpTo (top + 1) (hosted r) := by
  cases r <;> simp [hosted]

/-! ## Computations -/

/-- The computation ends in no fault of a layer above `top`, whatever state it starts from. -/
def RaisesUpTo (top : Nat) (e : ExceptT Fault (StateM σ) α) : Prop :=
  ∀ s, FaultsUpTo top (e.run.run s).1

@[simp] theorem raisesUpTo_pure (a : α) : RaisesUpTo top (pure a : ExceptT Fault (StateM σ) α) :=
  fun _ => faultsUpTo_ok a

@[simp] theorem raisesUpTo_get : RaisesUpTo top (get : ExceptT Fault (StateM σ) σ) :=
  fun s => faultsUpTo_ok s

@[simp] theorem raisesUpTo_set (s : σ) :
    RaisesUpTo top (set s : ExceptT Fault (StateM σ) PUnit) :=
  fun _ => faultsUpTo_ok _

@[simp] theorem raisesUpTo_modify (f : σ → σ) :
    RaisesUpTo top (modify f : ExceptT Fault (StateM σ) PUnit) :=
  fun _ => faultsUpTo_ok _

theorem raisesUpTo_bind {e : ExceptT Fault (StateM σ) α} {f : α → ExceptT Fault (StateM σ) β}
    (he : RaisesUpTo top e) (hf : ∀ a, RaisesUpTo top (f a)) : RaisesUpTo top (e >>= f) := by
  intro s
  have hs := he s
  simp only [ExceptT.run_bind, StateT.run_bind]
  rcases hrun : e.run.run s with ⟨r, s'⟩
  rw [hrun] at hs
  cases r with
  | ok a => exact hf a s'
  | error fault => exact faultsUpTo_error.2 (faultsUpTo_error.1 hs)

/-- A computation that others follow raises what the whole raises, and no more. -/
theorem raisesUpTo_of_bind {e : ExceptT Fault (StateM σ) α}
    {f : α → ExceptT Fault (StateM σ) β} (h : RaisesUpTo top (e >>= f)) :
    RaisesUpTo top e := by
  intro s
  have hs := h s
  simp only [ExceptT.run_bind, StateT.run_bind] at hs
  rcases hrun : e.run.run s with ⟨r, s'⟩
  rw [hrun] at hs
  cases r with
  | ok a => exact faultsUpTo_ok a
  | error fault => exact faultsUpTo_error.2 (faultsUpTo_error.1 hs)

theorem raisesUpTo_result {r : Except Fault α} (hr : FaultsUpTo top r) :
    RaisesUpTo top (ExceptT.mk (pure r) : ExceptT Fault (StateM σ) α) :=
  fun _ => hr

/-! ## Operators -/

namespace Value

@[simp] theorem faultsUpTo_ofInt (n : Int) : FaultsUpTo top (ofInt n) := by
  unfold ofInt
  split <;> simp

@[simp] theorem faultsUpTo_items (v : Value) : FaultsUpTo top v.items := by
  cases v <;> simp [items]

@[simp] theorem faultsUpTo_unary (op : UnaryOp) (v : Value) : FaultsUpTo top (unary op v) := by
  unfold unary
  split
  · simp
  · simp
  · simp
  · split
    · split <;> simp
    · simp

@[simp] theorem faultsUpTo_intPower (a b : Int) : FaultsUpTo top (intPower a b) := by
  unfold intPower
  repeat' split
  all_goals simp

@[simp] theorem faultsUpTo_arithmetic (op : BinaryOp) (a b : Value) :
    FaultsUpTo top (arithmetic op a b) := by
  unfold arithmetic
  split
  · unfold intArithmetic
    split <;> (repeat' split) <;> simp
  · split
    · unfold floatArithmetic
      split <;> (repeat' split) <;> simp
    · simp

@[simp] theorem faultsUpTo_repetitions (length : Nat) (n : Int) :
    FaultsUpTo top (repetitions length n) := by
  unfold repetitions
  repeat' split
  all_goals simp

@[simp] theorem faultsUpTo_multiply (a b : Value) : FaultsUpTo top (multiply a b) := by
  unfold multiply
  split <;> simp [repeatText, repeatList]

@[simp] theorem faultsUpTo_contains (container item : Value) :
    FaultsUpTo top (contains container item) := by
  unfold contains
  split <;> simp

@[simp] theorem faultsUpTo_ordered (op : BinaryOp) (a b : Value) :
    FaultsUpTo top (ordered op a b) := by
  unfold ordered
  split <;> simp

@[simp] theorem faultsUpTo_binary (op : BinaryOp) (a b : Value) :
    FaultsUpTo top (binary op a b) := by
  unfold binary
  split <;> (try split) <;> simp

@[simp] theorem faultsUpTo_sort (items : List Value) : FaultsUpTo top (sort items) := by
  simp only [sort]
  split <;> simp

@[simp] theorem faultsUpTo_itemAt (items : List α) (index : Int) (fault : ValueFault) :
    FaultsUpTo top (itemAt items index fault) := by
  unfold itemAt
  repeat' split
  all_goals simp

@[simp] theorem faultsUpTo_indexInt (container index : Value) :
    FaultsUpTo top (indexInt container index) := by
  unfold indexInt
  split <;> simp

@[simp] theorem faultsUpTo_item (container index : Value) :
    FaultsUpTo top (item container index) := by
  unfold item
  split
  · split <;> simp [Method.noKey]
  · simp
  · simp
  · simp

@[simp] theorem faultsUpTo_sliced (container : Value) (low high : Option Int) :
    FaultsUpTo top (sliced container low high) := by
  unfold sliced
  split <;> simp

@[simp] theorem faultsUpTo_sliceBound (v : Value) : FaultsUpTo top (sliceBound v) := by
  unfold sliceBound
  split <;> simp

end Value

/-! ## Built-in functions -/

namespace Builtin

@[simp] theorem faultsUpTo_only (b : Builtin) (args : List Value) :
    FaultsUpTo top (b.only args) := by
  unfold only
  split <;> simp

@[simp] theorem faultsUpTo_length (v : Value) : FaultsUpTo top (length v) := by
  unfold length
  split <;> simp

@[simp] theorem faultsUpTo_toInt (v : Value) : FaultsUpTo top (toInt v) := by
  unfold toInt
  repeat' split
  all_goals simp

@[simp] theorem faultsUpTo_toFloat (v : Value) : FaultsUpTo top (toFloat v) := by
  unfold toFloat
  repeat' split
  all_goals simp

@[simp] theorem faultsUpTo_absolute (v : Value) : FaultsUpTo top (absolute v) := by
  unfold absolute
  split <;> simp

@[simp] theorem faultsUpTo_extremeFrom (wanted : Ordering) (best : Value) (items : List Value) :
    FaultsUpTo top (extremeFrom wanted best items) := by
  induction items generalizing best with
  | nil => simp [extremeFrom]
  | cons v vs ih =>
    unfold extremeFrom
    split
    · exact ih _
    · simp

@[simp] theorem faultsUpTo_extreme (b : Builtin) (wanted : Ordering) (args : List Value) :
    FaultsUpTo top (extreme b wanted args) := by
  simp only [extreme]
  split
  · next fault h =>
    split at h
    · next v =>
      have hitems : FaultsUpTo top v.items := Value.faultsUpTo_items v
      rw [h] at hitems
      simpa using hitems
    · cases h
  · simp
  · simp

@[simp] theorem faultsUpTo_addNumbers (a b : Value) : FaultsUpTo top (addNumbers a b) := by
  unfold addNumbers
  repeat' split
  all_goals simp

theorem faultsUpTo_foldlM_addNumbers (items : List Value) (start : Value) :
    FaultsUpTo top (items.foldlM addNumbers start) := by
  induction items generalizing start with
  | nil => simp
  | cons v vs ih =>
    rw [List.foldlM_cons]
    exact faultsUpTo_bind (faultsUpTo_addNumbers start v) ih

@[simp] theorem faultsUpTo_total (args : List Value) : FaultsUpTo top (total args) := by
  unfold total
  split
  · refine faultsUpTo_bind (Value.faultsUpTo_items _) fun items => ?_
    exact faultsUpTo_foldlM_addNumbers items _
  · refine faultsUpTo_bind (Value.faultsUpTo_items _) fun items => ?_
    exact faultsUpTo_foldlM_addNumbers items _
  · simp

@[simp] theorem faultsUpTo_roundValue (v : Value) (places : Option Int64) :
    FaultsUpTo top (roundValue v places) := by
  unfold roundValue
  split
  · simp
  · simp
  · unfold roundToInt
    repeat' split
    all_goals simp
  · simp

@[simp] theorem faultsUpTo_integers (args : List Value) : FaultsUpTo top (integers args) := by
  induction args with
  | nil => simp [integers]
  | cons v vs ih =>
    unfold integers
    split
    · exact faultsUpTo_map ih
    · simp

@[simp] theorem faultsUpTo_rangeOf (bounds : List Int64) : FaultsUpTo top (rangeOf bounds) := by
  unfold rangeOf
  repeat' split
  all_goals simp

@[simp] theorem faultsUpTo_call (b : Builtin) (args : List Value) :
    FaultsUpTo top (b.call args) := by
  cases b with
  | int => cases args <;> simp [call]
  | float => cases args <;> simp [call]
  | round =>
    simp only [call]
    split <;> simp
  | list =>
    simp only [call]
    split <;> simp
  | sorted => exact faultsUpTo_bind (faultsUpTo_only _ _) fun v => by simp
  | _ => simp [call]

end Builtin

/-! ## Methods -/

namespace Method

@[simp] theorem faultsUpTo_arg (method : String) (args : List Value) (i : Nat) :
    FaultsUpTo top (arg method args i) := by
  unfold arg
  split <;> simp

theorem raisesUpTo_removeItem (item : Value) : RaisesUpTo top (removeItem item) := by
  refine raisesUpTo_bind raisesUpTo_get fun items => ?_
  split
  · exact raisesUpTo_modify _
  · exact raisesUpTo_result (by simp)

theorem raisesUpTo_popItem (index : Int) : RaisesUpTo top (popItem index) := by
  refine raisesUpTo_bind raisesUpTo_get fun items => ?_
  split
  · exact raisesUpTo_bind (raisesUpTo_set _) fun _ => raisesUpTo_pure _
  · exact raisesUpTo_result (by simp)

theorem raisesUpTo_mutateList (method : String) (args : List Value) :
    RaisesUpTo top (mutateList method args) := by
  have hmodify (f : List Value → List Value) :
      RaisesUpTo top (do modify f; return .nothing : Change (List Value) Value) :=
    raisesUpTo_bind (raisesUpTo_modify f) fun _ => raisesUpTo_pure _
  unfold mutateList
  split
  · exact raisesUpTo_bind (raisesUpTo_result (by simp)) fun item => hmodify _
  · exact raisesUpTo_bind (raisesUpTo_result (by simp)) fun more => hmodify _
  · refine raisesUpTo_bind (raisesUpTo_result (by simp)) fun position => ?_
    split
    · exact raisesUpTo_bind (raisesUpTo_result (by simp)) fun item => hmodify _
    · exact raisesUpTo_result (by simp)
  · split
    · exact raisesUpTo_popItem _
    · split
      · exact raisesUpTo_popItem _
      · exact raisesUpTo_result (by simp)
  · refine raisesUpTo_bind (raisesUpTo_result (by simp)) fun item => ?_
    exact raisesUpTo_bind (raisesUpTo_removeItem item) fun _ => raisesUpTo_pure _
  · exact raisesUpTo_bind (raisesUpTo_set _) fun _ => raisesUpTo_pure _
  · exact raisesUpTo_bind raisesUpTo_get fun items => raisesUpTo_result (by simp [unknown])

theorem raisesUpTo_popKey (key : Value) (default : Option Value) :
    RaisesUpTo top (popKey key default) := by
  refine raisesUpTo_bind (fun _ => faultsUpTo_ok _) fun taken => ?_
  split
  · exact raisesUpTo_pure _
  · exact raisesUpTo_pure _
  · exact raisesUpTo_result (by simp [noKey])

theorem raisesUpTo_mutateDict (method : String) (args : List Value) :
    RaisesUpTo top (mutateDict method args) := by
  unfold mutateDict
  split
  · exact raisesUpTo_bind (raisesUpTo_result (by simp)) fun key => raisesUpTo_popKey key _
  · refine raisesUpTo_bind (raisesUpTo_result (by simp)) fun other => ?_
    split
    · exact raisesUpTo_bind (raisesUpTo_modify _) fun _ => raisesUpTo_pure _
    · exact raisesUpTo_result (by simp)
  · exact raisesUpTo_bind (raisesUpTo_set _) fun _ => raisesUpTo_pure _
  · exact raisesUpTo_bind raisesUpTo_get fun d => raisesUpTo_result (by simp [unknown])

theorem raisesUpTo_mutate (method : String) (args : List Value) :
    RaisesUpTo top (mutate method args) := by
  intro receiver
  cases receiver with
  | list items => exact raisesUpTo_mutateList method args items
  | dict d => exact raisesUpTo_mutateDict method args d
  | _ => exact faultsUpTo_error.2 (by simp [unknown])

@[simp] theorem faultsUpTo_texts (items : List Value) : FaultsUpTo top (texts items) := by
  induction items with
  | nil => simp [texts]
  | cons v vs ih =>
    unfold texts
    split <;> simp_all

@[simp] theorem faultsUpTo_callText (s method : String) (args : List Value) :
    FaultsUpTo top (callText s method args) := by
  unfold callText
  split
  · simp
  · simp
  · simp
  · simp only [splitText]
    repeat' split
    all_goals simp
  · refine faultsUpTo_bind (faultsUpTo_arg _ _ _) fun v => ?_
    refine faultsUpTo_bind (faultsUpTo_arg _ _ _) fun w => ?_
    split <;> simp
  · refine faultsUpTo_bind (faultsUpTo_arg _ _ _) fun v => ?_
    split <;> simp
  · refine faultsUpTo_bind (faultsUpTo_arg _ _ _) fun v => ?_
    split <;> simp
  · exact faultsUpTo_bind (faultsUpTo_arg _ _ _) fun v => by simp
  · simp [unknown]

@[simp] theorem faultsUpTo_call (receiver : Value) (method : String) (args : List Value) :
    FaultsUpTo top (call receiver method args) := by
  unfold call
  split
  · simp
  · unfold callList
    split
    · simp
    · refine faultsUpTo_bind (faultsUpTo_arg _ _ _) fun v => ?_
      split <;> simp
    · simp
    · simp [unknown]
  · unfold callDict
    split <;> simp [unknown]
  · simp [unknown]

end Method

/-! ## Environments and places -/

namespace Env

@[simp] theorem faultsUpTo_lookup (env : Env σ) (name : String) :
    FaultsUpTo (top + 1) (env.lookup name) := by
  unfold lookup
  split <;> simp

@[simp] theorem faultsUpTo_nameValue (env : Env σ) (name : String) :
    FaultsUpTo (top + 1) (env.nameValue name) := by
  unfold nameValue
  repeat' split
  all_goals simp

@[simp] theorem faultsUpTo_objectField (className : String) (fields : List (String × Value))
    (name : String) : FaultsUpTo top (objectField className fields name) := by
  unfold objectField
  split <;> simp

@[simp] theorem faultsUpTo_attributeOf (env : Env σ) (owner : Value) (name : String) :
    FaultsUpTo top (env.attributeOf owner name) := by
  unfold attributeOf
  split
  · simp only [moduleMember]
    repeat' split
    all_goals simp
  · simp
  · simp [Method.unknown]

@[simp] theorem faultsUpTo_callNamed (env : Env σ) (name : String) (args : List Value) :
    FaultsUpTo (top + 1) (env.callNamed name args).1 := by
  unfold callNamed
  repeat' split
  all_goals simp [callNative]

@[simp] theorem faultsUpTo_callValue (env : Env σ) (target : Value) (args : List Value) :
    FaultsUpTo (top + 1) (env.callValue target args).1 := by
  unfold callValue
  split <;> simp

end Env

namespace Place

@[simp] theorem faultsUpTo_listPosition (items : List Value) (key : Value) (missing : ValueFault) :
    FaultsUpTo top (listPosition items key missing) := by
  unfold listPosition
  repeat' split
  all_goals simp

@[simp] theorem faultsUpTo_child (v : Value) (a : Accessor) : FaultsUpTo top (child v a) := by
  unfold child
  repeat' split
  all_goals simp [Method.noKey, Method.unknown]

@[simp] theorem faultsUpTo_storeIn (v : Value) (a : Accessor) (new : Value) :
    FaultsUpTo top (storeIn v a new) := by
  unfold storeIn
  split <;> simp [Method.unknown]

@[simp] theorem faultsUpTo_storeAlong (v : Value) (path : List Accessor) (new : Value) :
    FaultsUpTo top (storeAlong v path new) := by
  induction path generalizing v with
  | nil => simp [storeAlong]
  | cons a path ih =>
    cases path with
    | nil => simp [storeAlong]
    | cons b path => exact faultsUpTo_bind (by simp) fun part => faultsUpTo_bind (ih part) (by simp)

@[simp] theorem faultsUpTo_store (p : Place) (new : Value) (env : Env σ) :
    FaultsUpTo (top + 1) (p.store new env) := by
  unfold store
  split
  · simp
  · exact faultsUpTo_bind (by simp) fun v => by simp

end Place

@[simp] theorem faultsUpTo_parse (text : String) : FaultsUpTo (top + 2) (Expr.parse text) := by
  unfold Expr.parse
  repeat' split
  all_goals simp

/-! ## Evaluation -/

theorem raisesUpTo_call (target : Value) (args : List Value) :
    RaisesUpTo (top + 1) (Eval.call (·.callValue target args) : Eval σ Value) :=
  fun env => env.faultsUpTo_callValue target args

theorem raisesUpTo_changeVariable (name : String) {change : Change Value α}
    (hchange : RaisesUpTo (top + 1) change) :
    RaisesUpTo (top + 1) (changeVariable name change : Eval σ α) := by
  intro env
  rw [run_changeVariable]
  cases hlookup : env.lookup name with
  | ok v => exact hchange v
  | error fault =>
    have hfault : FaultsUpTo (top + 1) (env.lookup name) := env.faultsUpTo_lookup name
    rw [hlookup] at hfault
    exact faultsUpTo_error.2 (faultsUpTo_error.1 hfault)

theorem raisesUpTo_callMethod (receiver : Expr) (object : Value) (method : String)
    (args : List Value) :
    RaisesUpTo (top + 1) (callMethod receiver object method args : Eval σ Value) := by
  have hmember (owner : Value) : RaisesUpTo (top + 1) (do
      let target ← Eval.lift ((← get).attributeOf owner method)
      Eval.call (·.callValue target args) : Eval σ Value) :=
    raisesUpTo_bind raisesUpTo_get fun env =>
      raisesUpTo_bind (raisesUpTo_result (by simp)) fun target => raisesUpTo_call target args
  unfold callMethod
  split
  · exact hmember _
  · exact hmember _
  · split
    · split
      · exact raisesUpTo_changeVariable _ (Method.raisesUpTo_mutate method args)
      · exact raisesUpTo_result (Method.raisesUpTo_mutate method args _)
    · exact raisesUpTo_result (by simp)

namespace Expr

/-- A method is called on the owner of the field, which the field has evaluated as well. -/
theorem raisesUpTo_eval_call {callee : Expr} {args : List Expr}
    (hcallee : RaisesUpTo (top + 1) (callee.eval : Eval σ Value))
    (hargs : RaisesUpTo (top + 1) (evalAll args : Eval σ (List Value))) :
    RaisesUpTo (top + 1) (eval (.call callee args) : Eval σ Value) := by
  cases callee with
  | field owner method =>
    unfold eval at hcallee ⊢
    refine raisesUpTo_bind (raisesUpTo_of_bind hcallee) fun object => ?_
    exact raisesUpTo_bind hargs fun _ => raisesUpTo_callMethod _ _ _ _
  | _ =>
    rw [eval]
    · refine raisesUpTo_bind hcallee fun target => raisesUpTo_bind hargs fun vs => ?_
      exact raisesUpTo_call _ _
    · simp

mutual

/-- No expression reads a text or meets a fault of block structure. -/
theorem raisesUpTo_eval : (e : Expr) → RaisesUpTo (top + 1) (e.eval : Eval σ Value)
  | .literal v => by
    unfold eval
    exact raisesUpTo_pure v
  | .name n => by
    unfold eval
    exact raisesUpTo_bind raisesUpTo_get fun env => raisesUpTo_result (by simp)
  | .list items => by
    unfold eval
    exact raisesUpTo_bind (raisesUpTo_evalAll items) fun _ => raisesUpTo_pure _
  | .dict entries => by
    unfold eval
    exact raisesUpTo_bind (raisesUpTo_evalEntries entries []) fun _ => raisesUpTo_pure _
  | .unary op e => by
    unfold eval
    exact raisesUpTo_bind (raisesUpTo_eval e) fun _ => raisesUpTo_result (by simp)
  | .binary op l r => by
    cases op with
    | and | or =>
      unfold eval
      refine raisesUpTo_bind (raisesUpTo_eval l) fun left => ?_
      split
      · first | exact raisesUpTo_eval r | exact raisesUpTo_pure _
      · first | exact raisesUpTo_eval r | exact raisesUpTo_pure _
    | _ =>
      unfold eval
      refine raisesUpTo_bind (raisesUpTo_eval l) fun left => ?_
      exact raisesUpTo_bind (raisesUpTo_eval r) fun right => raisesUpTo_result (by simp)
  | .call callee args => raisesUpTo_eval_call (raisesUpTo_eval callee) (raisesUpTo_evalAll args)
  | .index c i => by
    unfold eval
    refine raisesUpTo_bind (raisesUpTo_eval c) fun _ => ?_
    exact raisesUpTo_bind (raisesUpTo_eval i) fun _ => raisesUpTo_result (by simp)
  | .slice c low high => by
    unfold eval
    refine raisesUpTo_bind (raisesUpTo_eval c) fun _ => ?_
    refine raisesUpTo_bind (raisesUpTo_evalBound low) fun _ => ?_
    exact raisesUpTo_bind (raisesUpTo_evalBound high) fun _ => raisesUpTo_result (by simp)
  | .field owner member => by
    unfold eval
    refine raisesUpTo_bind (raisesUpTo_eval owner) fun _ => ?_
    exact raisesUpTo_bind raisesUpTo_get fun env => raisesUpTo_result (by simp)
termination_by structural e => e

theorem raisesUpTo_evalAll : (es : List Expr) →
    RaisesUpTo (top + 1) (evalAll es : Eval σ (List Value))
  | [] => by
    unfold evalAll
    exact raisesUpTo_pure _
  | e :: es => by
    unfold evalAll
    refine raisesUpTo_bind (raisesUpTo_eval e) fun _ => ?_
    exact raisesUpTo_bind (raisesUpTo_evalAll es) fun _ => raisesUpTo_pure _
termination_by structural es => es

theorem raisesUpTo_evalEntries : (es : List (Expr × Expr)) → (d : Dict) →
    RaisesUpTo (top + 1) (evalEntries es d : Eval σ Dict)
  | [], d => by
    unfold evalEntries
    exact raisesUpTo_pure _
  | e :: es, d => by
    unfold evalEntries
    exact raisesUpTo_bind (raisesUpTo_evalEntry e) fun _ => raisesUpTo_evalEntries es _
termination_by structural es => es

theorem raisesUpTo_evalEntry : (e : Expr × Expr) →
    RaisesUpTo (top + 1) (evalEntry e : Eval σ (Value × Value))
  | (k, v) => by
    unfold evalEntry
    refine raisesUpTo_bind (raisesUpTo_eval k) fun _ => ?_
    exact raisesUpTo_bind (raisesUpTo_eval v) fun _ => raisesUpTo_pure _
termination_by structural e => e

theorem raisesUpTo_evalBound : (bound : Option Expr) →
    RaisesUpTo (top + 1) (evalBound bound : Eval σ (Option Int))
  | none => by
    unfold evalBound
    exact raisesUpTo_pure _
  | some e => by
    unfold evalBound
    exact raisesUpTo_bind (raisesUpTo_eval e) fun _ => raisesUpTo_result (by simp)
termination_by structural e => e

end

theorem raisesUpTo_place (e : Expr) : RaisesUpTo (top + 1) (e.place : Eval σ Place) := by
  fun_induction place e with
  | case1 n => exact raisesUpTo_pure _
  | case2 c i ih =>
    refine raisesUpTo_bind (raisesUpTo_eval i) fun key => ?_
    exact raisesUpTo_bind ih fun p => raisesUpTo_pure _
  | case3 c member ih => exact raisesUpTo_bind ih fun p => raisesUpTo_pure _
  | case4 => exact raisesUpTo_result (by simp)

theorem raisesUpTo_assign (e : Expr) (v : Value) :
    RaisesUpTo (top + 1) (e.assign v : Eval σ Unit) := by
  refine raisesUpTo_bind (raisesUpTo_place e) fun p => raisesUpTo_bind raisesUpTo_get fun env => ?_
  exact raisesUpTo_bind (raisesUpTo_result (by simp)) fun env => raisesUpTo_set _

end Expr

theorem raisesUpTo_evalText (text : String) :
    RaisesUpTo (top + 2) (evalText text : Eval σ Value) :=
  raisesUpTo_bind (raisesUpTo_result (faultsUpTo_parse text)) Expr.raisesUpTo_eval

/-! ## Statements -/

namespace Eval

theorem raisesUpTo_restoring (names : List String) {e : Eval σ α} (he : RaisesUpTo top e) :
    RaisesUpTo top (restoring names e) :=
  fun env => he env

theorem raisesUpTo_withItem (e : Expr) (item : Value) :
    RaisesUpTo (top + 1) (withItem e item : Eval σ Value) :=
  raisesUpTo_bind (raisesUpTo_modify _) fun _ => e.raisesUpTo_eval

theorem raisesUpTo_filterItems (predicate : Expr) (items : List Value) :
    RaisesUpTo (top + 1) (filterItems predicate items : Eval σ (List Value)) := by
  induction items with
  | nil => exact raisesUpTo_pure _
  | cons item items ih =>
    refine raisesUpTo_bind (raisesUpTo_withItem _ _) fun keep => ?_
    exact raisesUpTo_bind ih fun kept => raisesUpTo_pure _

theorem raisesUpTo_mapItems (transform : Expr) (items : List Value) :
    RaisesUpTo (top + 1) (mapItems transform items : Eval σ (List Value)) := by
  induction items with
  | nil => exact raisesUpTo_pure _
  | cons item items ih =>
    refine raisesUpTo_bind (raisesUpTo_withItem _ _) fun v => ?_
    exact raisesUpTo_bind ih fun vs => raisesUpTo_pure _

theorem raisesUpTo_reduceItems (combine : Expr) (acc : Value) (items : List Value) :
    RaisesUpTo (top + 1) (reduceItems combine acc items : Eval σ Value) := by
  induction items generalizing acc with
  | nil => exact raisesUpTo_pure _
  | cons item items ih =>
    refine raisesUpTo_bind (raisesUpTo_modify _) fun _ => ?_
    exact raisesUpTo_bind (raisesUpTo_withItem _ _) fun acc => ih acc

end Eval

namespace Act

theorem raisesUpTo_lift {r : Except Fault α} (hr : FaultsUpTo top r) :
    RaisesUpTo top (lift r : Act σ α) :=
  fun _ => hr

theorem raisesUpTo_eval {e : Eval σ α} (he : RaisesUpTo top e) :
    RaisesUpTo top (eval e : Act σ α) :=
  fun w => he w.env

theorem raisesUpTo_evalText (text : String) : RaisesUpTo (top + 2) (evalText text : Act σ Value) :=
  raisesUpTo_eval (StepScript.raisesUpTo_evalText text)

theorem raisesUpTo_ask (request : σ → Except HostFault α × σ) :
    RaisesUpTo (top + 1) (ask request) :=
  fun w => by simp

theorem raisesUpTo_lookup (name : String) : RaisesUpTo (top + 1) (lookup name : Act σ Value) :=
  fun w => by simp

theorem raisesUpTo_assign (name : String) (v : Value) :
    RaisesUpTo top (assign name v : Act σ Unit) :=
  fun w => by simp

theorem raisesUpTo_emit (line : String) : RaisesUpTo top (emit line : Act σ Unit) :=
  fun w => by simp

theorem raisesUpTo_itemsOf (name : String) :
    RaisesUpTo (top + 1) (itemsOf name : Act σ (List Value)) :=
  raisesUpTo_bind (raisesUpTo_lookup name) fun v => raisesUpTo_lift (by simp)

theorem raisesUpTo_parse (text : String) : RaisesUpTo (top + 2) (parse text : Act σ Expr) :=
  raisesUpTo_lift (faultsUpTo_parse text)

theorem raisesUpTo_filter (source predicate target : String) :
    RaisesUpTo (top + 2) (filter source predicate target : Act σ Unit) := by
  refine raisesUpTo_bind (raisesUpTo_itemsOf _) fun items => ?_
  refine raisesUpTo_bind (raisesUpTo_parse _) fun e => ?_
  refine raisesUpTo_bind ?_ fun _ => raisesUpTo_assign _ _
  exact raisesUpTo_eval (Eval.raisesUpTo_restoring _ (Eval.raisesUpTo_filterItems e items))

theorem raisesUpTo_map (source transform target : String) :
    RaisesUpTo (top + 2) (map source transform target : Act σ Unit) := by
  refine raisesUpTo_bind (raisesUpTo_itemsOf _) fun items => ?_
  refine raisesUpTo_bind (raisesUpTo_parse _) fun e => ?_
  refine raisesUpTo_bind ?_ fun _ => raisesUpTo_assign _ _
  exact raisesUpTo_eval (Eval.raisesUpTo_restoring _ (Eval.raisesUpTo_mapItems e items))

theorem raisesUpTo_reduce (source combine target : String) :
    RaisesUpTo (top + 2) (reduce source combine target : Act σ Unit) := by
  refine raisesUpTo_bind (raisesUpTo_itemsOf _) fun items => ?_
  split
  · exact raisesUpTo_lift (by simp)
  · refine raisesUpTo_bind (raisesUpTo_parse _) fun e => ?_
    refine raisesUpTo_bind ?_ fun _ => raisesUpTo_assign _ _
    exact raisesUpTo_eval (Eval.raisesUpTo_restoring _ (Eval.raisesUpTo_reduceItems e _ _))

theorem raisesUpTo_changeList (name method : String) {change : Change (List Value) Unit}
    (hchange : RaisesUpTo (top + 1) change) :
    RaisesUpTo (top + 1) (changeList name method change : Act σ Unit) := by
  refine raisesUpTo_eval (raisesUpTo_changeVariable name fun v => ?_)
  cases v with
  | list items => exact hchange items
  | _ => exact faultsUpTo_error.2 (by simp [Method.unknown])

theorem raisesUpTo_resolve (h : Host σ) (name : String) : RaisesUpTo top (resolve h name) := by
  refine raisesUpTo_bind raisesUpTo_get fun w => ?_
  split
  · exact raisesUpTo_pure _
  · refine raisesUpTo_bind (fun w => faultsUpTo_ok _) fun object => ?_
    split
    · exact raisesUpTo_bind (raisesUpTo_modify _) fun _ => raisesUpTo_pure _
    · exact raisesUpTo_pure _

theorem raisesUpTo_arguments (args : List String) :
    RaisesUpTo (top + 2) (arguments args : Act σ (List Value)) := by
  induction args with
  | nil => exact raisesUpTo_pure _
  | cons arg args ih =>
    refine raisesUpTo_bind (raisesUpTo_evalText arg) fun v => ?_
    exact raisesUpTo_bind ih fun vs => raisesUpTo_pure _

theorem raisesUpTo_callInto (h : Host σ) (name : String) (args : List String)
    (target : Option String) : RaisesUpTo (top + 2) (callInto h name args target) := by
  have hcall : RaisesUpTo (top + 2) (call? h name args) := by
    refine raisesUpTo_bind (raisesUpTo_resolve h name) fun callee => ?_
    split
    · exact raisesUpTo_pure _
    · refine raisesUpTo_bind (raisesUpTo_arguments args) fun vs => ?_
      refine raisesUpTo_bind (raisesUpTo_eval fun env => ?_) fun v => raisesUpTo_pure _
      exact env.faultsUpTo_callNamed _ vs
  refine raisesUpTo_bind hcall fun result => ?_
  split
  · exact raisesUpTo_assign _ _
  · exact raisesUpTo_pure _

theorem raisesUpTo_predict (h : Host σ) (input target : String) :
    RaisesUpTo (top + 2) (predict h input target) := by
  refine raisesUpTo_bind (raisesUpTo_evalText input) fun v => ?_
  refine raisesUpTo_bind raisesUpTo_get fun w => ?_
  split
  · exact raisesUpTo_lift (by simp)
  · exact raisesUpTo_bind (raisesUpTo_ask _) fun v => raisesUpTo_assign _ _

theorem raisesUpTo_train (h : Host σ) (name data : String) :
    RaisesUpTo (top + 2) (train h name data) := by
  refine raisesUpTo_bind (raisesUpTo_lookup name) fun v => ?_
  split
  · exact raisesUpTo_bind (raisesUpTo_evalText data) fun v => raisesUpTo_ask _
  · exact raisesUpTo_lift (by simp)

theorem raisesUpTo_printed (operands : String) :
    RaisesUpTo (top + 2) (printed operands : Act σ String) := by
  refine raisesUpTo_bind (raisesUpTo_evalText _) fun v => ?_
  split <;> exact raisesUpTo_pure _

theorem raisesUpTo_store (place : Expr) (op : Option BinaryOp) (expr : String) :
    RaisesUpTo (top + 2) (store place op expr : Act σ Unit) := by
  have hassign (v : Value) : RaisesUpTo (top + 2) (eval (place.assign v) : Act σ Unit) :=
    raisesUpTo_eval (place.raisesUpTo_assign v)
  refine raisesUpTo_bind (raisesUpTo_evalText expr) fun v => ?_
  cases op with
  | none => exact raisesUpTo_bind (raisesUpTo_pure v) hassign
  | some op =>
    refine raisesUpTo_bind (raisesUpTo_eval place.raisesUpTo_eval) fun old => ?_
    exact raisesUpTo_bind (raisesUpTo_lift (by simp)) hassign

theorem raisesUpTo_runExpression (text : String) :
    RaisesUpTo (top + 2) (runExpression text : Act σ Unit) := by
  refine raisesUpTo_bind (raisesUpTo_parse text) fun e => raisesUpTo_bind raisesUpTo_get fun w => ?_
  split
  · exact raisesUpTo_bind (raisesUpTo_eval (Expr.raisesUpTo_evalAll _)) fun vs => raisesUpTo_emit _
  · exact raisesUpTo_bind (raisesUpTo_eval e.raisesUpTo_eval) fun v => raisesUpTo_pure _

/-- **No plain statement raises a fault of block structure**, whatever the host answers. -/
theorem raisesUpTo_perform (h : Host σ) (s : Statement) : RaisesUpTo (top + 2) (perform h s) := by
  cases s with
  | assign target expr =>
    refine raisesUpTo_bind (raisesUpTo_evalText expr) fun v => ?_
    exact raisesUpTo_bind (raisesUpTo_parse target) fun e => raisesUpTo_eval (e.raisesUpTo_assign v)
  | importModule name =>
    refine raisesUpTo_bind (raisesUpTo_ask _) fun m => ?_
    exact raisesUpTo_bind (raisesUpTo_modify _) fun _ => raisesUpTo_assign _ _
  | apiKey text =>
    exact raisesUpTo_bind (fun _ => faultsUpTo_ok _) fun _ => raisesUpTo_assign _ _
  | print operands =>
    exact raisesUpTo_bind (raisesUpTo_printed operands) fun line => raisesUpTo_emit line
  | listCreate name expr | dictCreate name expr =>
    exact raisesUpTo_bind (raisesUpTo_evalText expr) fun v => raisesUpTo_assign name v
  | getValue expr name =>
    exact raisesUpTo_bind (raisesUpTo_evalText expr) fun v => raisesUpTo_assign name v
  | listAppend name expr =>
    refine raisesUpTo_bind (raisesUpTo_evalText expr) fun v => ?_
    exact raisesUpTo_changeList name _ (raisesUpTo_modify _)
  | listRemove name expr =>
    refine raisesUpTo_bind (raisesUpTo_evalText expr) fun v => raisesUpTo_changeList name _ ?_
    refine raisesUpTo_bind raisesUpTo_get fun items => ?_
    split
    · exact raisesUpTo_modify _
    · exact raisesUpTo_result (by simp)
  | sort source target =>
    refine raisesUpTo_bind (raisesUpTo_itemsOf source) fun items => ?_
    exact raisesUpTo_bind (raisesUpTo_lift (by simp)) fun sorted => raisesUpTo_assign _ _
  | filter source predicate target => exact raisesUpTo_filter source predicate target
  | map source transform target => exact raisesUpTo_map source transform target
  | reduce source combine target => exact raisesUpTo_reduce source combine target
  | call function args result => exact raisesUpTo_callInto h function args result
  | create var className args => exact raisesUpTo_callInto h className args (some var)
  | loadModel model var =>
    refine raisesUpTo_bind (raisesUpTo_ask _) fun handle => ?_
    exact raisesUpTo_bind (raisesUpTo_assign _ _) fun _ => raisesUpTo_modify _
  | predict input output => exact raisesUpTo_predict h input output
  | train model data => exact raisesUpTo_train h model data
  | raw text =>
    show RaisesUpTo (top + 2) (Act.raw text)
    unfold Act.raw
    split
    · exact raisesUpTo_store _ _ _
    · exact raisesUpTo_runExpression text
  | _ => exact raisesUpTo_pure _

end Act

end StepScript
