import StepScript.Proofs.Effects

/-!
# What evaluation reads

Evaluating an expression reads the variables that are named in it (`Expr.names`), besides what the
host has handed out. So two environments that agree on those give the same value or the same fault,
and agree on them afterwards, changing methods having done the same in both
(`Expr.evaluate_agrees`). The hosts may differ as long as no function that can be called looks at
them.

As with effects, every function of the evaluator gets one lemma, and `ReadsOnly` is closed under
doing one thing after another.
-/

set_option autoImplicit false

namespace StepScript

variable {σ α β : Type}

/-! ## Names -/

namespace Expr

mutual

/-- The variables that an expression names. -/
def names : Expr → List String
  | .literal _ => []
  | .name n => [n]
  | .list items => namesAll items
  | .dict entries => namesEntries entries
  | .unary _ e => names e
  | .binary _ l r => names l ++ names r
  | .call callee args => names callee ++ namesAll args
  | .index c i => names c ++ names i
  | .slice c low high => names c ++ (namesBound low ++ namesBound high)
  | .field owner _ => names owner
termination_by structural e => e

/-- The variables that a list of expressions names. -/
def namesAll : List Expr → List String
  | [] => []
  | e :: es => names e ++ namesAll es
termination_by structural es => es

/-- The variables that the entries of a dictionary name. -/
def namesEntries : List (Expr × Expr) → List String
  | [] => []
  | e :: es => namesEntry e ++ namesEntries es
termination_by structural es => es

/-- The variables that a key and its value name. -/
def namesEntry : Expr × Expr → List String
  | (k, v) => names k ++ names v
termination_by structural e => e

/-- The variables that a slice bound names. -/
def namesBound : Option Expr → List String
  | none => []
  | some e => names e
termination_by structural e => e

end

end Expr

/-! ## Environments that agree -/

/-- What the host has handed out is the same in both environments, and so are some variables. -/
structure Env.AgreeOn (names : List String) (env env' : Env σ) : Prop where
  objects : ∀ x, env.objects.get? x = env'.objects.get? x
  modules : ∀ x, env.modules.get? x = env'.modules.get? x
  bindings : ∀ x ∈ names, env.get? x = env'.get? x
  /-- Functions that look at the host find the same one. -/
  host : env.PureFunctions ∨ env.host = env'.host

namespace Env.AgreeOn

variable {names : List String} {env env' : Env σ}

theorem nameValue_eq (h : env.AgreeOn names env') {x : String} (hx : x ∈ names) :
    env.nameValue x = env'.nameValue x := by
  rw [nameValue, nameValue, h.bindings x hx, Table.contains, Table.contains, h.objects]

theorem lookup_eq (h : env.AgreeOn names env') {x : String} (hx : x ∈ names) :
    env.lookup x = env'.lookup x := by
  rw [lookup, lookup, h.bindings x hx]

theorem moduleMember_eq (h : env.AgreeOn names env') (owner member : String) :
    env.moduleMember owner member = env'.moduleMember owner member := by
  have hcontains (x : String) : env.modules.contains x = env'.modules.contains x := by
    rw [Table.contains, Table.contains, h.modules]
  simp only [moduleMember, h.modules, hcontains]

theorem attributeOf_eq (h : env.AgreeOn names env') (owner : Value) (member : String) :
    env.attributeOf owner member = env'.attributeOf owner member := by
  unfold attributeOf
  split
  · exact h.moduleMember_eq _ _
  · rfl
  · rfl

theorem moduleFunction?_eq (h : env.AgreeOn names env') (name : String) :
    env.moduleFunction? name = env'.moduleFunction? name := by
  simp only [moduleFunction?, h.modules]

/-- Pure functions give the same on every host. -/
theorem callNamed_fst_eq (h : env.AgreeOn names env') (hpure : env.PureFunctions) (name : String)
    (args : List Value) : (env.callNamed name args).1 = (env'.callNamed name args).1 := by
  unfold callNamed
  rw [← h.objects, ← h.moduleFunction?_eq]
  cases hobject : env.objects.get? name with
  | some object =>
    obtain ⟨f, hf⟩ := hpure.objects hobject
    simp only [hf]
    rfl
  | none =>
    cases hfunction : env.moduleFunction? name with
    | some run =>
      obtain ⟨f, rfl⟩ := hpure.functions hfunction
      rfl
    | none => cases Builtin.ofName? name <;> rfl

theorem callValue_fst_eq (h : env.AgreeOn names env') (target : Value) (args : List Value) :
    (env.callValue target args).1 = (env'.callValue target args).1 := by
  unfold callValue
  split
  · next name =>
    rcases h.host with hpure | hhost
    · exact h.callNamed_fst_eq hpure name args
    · simp only [callNamed, callNative, h.objects, h.moduleFunction?_eq, hhost]
  · rfl

/-- Functions that may look at the host leave it alike. -/
theorem callValue_snd_eq (h : env.AgreeOn names env') (hhost : env.host = env'.host)
    (target : Value) (args : List Value) :
    (env.callValue target args).2 = (env'.callValue target args).2 := by
  simp only [callValue, callNamed, callNative, h.objects, h.moduleFunction?_eq, hhost]

/-- A call leaves the agreement as it is. -/
theorem called (h : env.AgreeOn names env') (target : Value) (args : List Value) :
    { env with host := (env.callValue target args).2 }.AgreeOn names
      { env' with host := (env'.callValue target args).2 } := by
  refine ⟨h.objects, h.modules, h.bindings, ?_⟩
  rcases h.host with hpure | hhost
  · exact .inl ⟨hpure.objects, hpure.functions⟩
  · exact .inr (h.callValue_snd_eq hhost target args)

/-- A variable that is set in both is the same in both. -/
theorem set (h : env.AgreeOn names env') (x : String) (v : Value) :
    (env.set x v).AgreeOn names (env'.set x v) := by
  refine ⟨h.objects, h.modules, fun y hy => ?_, h.host.imp_left fun hpure => hpure.set x v⟩
  rw [get?_set, get?_set, h.bindings y hy]

/-- A variable that is not asked for may be set to anything. -/
theorem set_right {x : String} (hx : x ∉ names) (env : Env σ) (v : Value) :
    env.AgreeOn names (env.set x v) := by
  refine ⟨fun _ => rfl, fun _ => rfl, fun y hy => ?_, .inr rfl⟩
  rw [get?_set, if_neg (by rintro rfl; exact hx hy)]

end Env.AgreeOn

/-! ## Evaluations and what they read -/

/-- From environments that agree the evaluation comes to the same result, and they agree
    afterwards. -/
def Eval.ReadsOnly (names : List String) (e : Eval σ α) : Prop :=
  ∀ env env' : Env σ, env.AgreeOn names env' →
    (e.run.run env).1 = (e.run.run env').1 ∧ (e.run.run env).2.AgreeOn names (e.run.run env').2

namespace Eval

variable {names : List String}

theorem readsOnly_pure (x : α) : ReadsOnly names (pure x : Eval σ α) :=
  fun _ _ h => ⟨rfl, h⟩

theorem readsOnly_lift (r : Except Fault α) : ReadsOnly names (Eval.lift r : Eval σ α) :=
  fun _ _ h => ⟨rfl, h⟩

theorem readsOnly_call (target : Value) (args : List Value) :
    ReadsOnly names (Eval.call (·.callValue target args) : Eval σ Value) :=
  fun _ _ h => ⟨h.callValue_fst_eq target args, h.called target args⟩

theorem ReadsOnly.bind {e : Eval σ α} {f : α → Eval σ β} (he : ReadsOnly names e)
    (hf : ∀ x, ReadsOnly names (f x)) : ReadsOnly names (e >>= f) := by
  intro env env' h
  obtain ⟨hresult, hafter⟩ := he env env' h
  rw [run_bind, run_bind]
  rcases hrun : e.run.run env with ⟨r, mid⟩
  rcases hrun' : e.run.run env' with ⟨r', mid'⟩
  rw [hrun, hrun'] at hresult hafter
  dsimp only at hresult hafter
  subst hresult
  cases r with
  | ok x => exact hf x mid mid' hafter
  | error fault => exact ⟨rfl, hafter⟩

/-- What is asked of the environment is the same where environments agree. -/
theorem readsOnly_get {f : Env σ → Eval σ α}
    (hsame : ∀ {env env' : Env σ}, env.AgreeOn names env' → f env = f env')
    (hf : ∀ env, ReadsOnly names (f env)) : ReadsOnly names (get >>= f) := by
  intro env env' h
  have hrun (e : Env σ) : (get >>= f : Eval σ α).run.run e = (f e).run.run e := rfl
  rw [hrun, hrun, ← hsame h]
  exact hf env env env' h

end Eval

open Eval

/-- A change to a variable that both environments agree on is the same change in both. -/
theorem readsOnly_changeVariable {names : List String} {x : String} (hx : x ∈ names)
    (change : Change Value α) : ReadsOnly names (changeVariable x change : Eval σ α) := by
  intro env env' h
  rw [run_changeVariable, run_changeVariable, h.lookup_eq hx]
  cases env'.lookup x with
  | error fault => exact ⟨rfl, h⟩
  | ok receiver => exact ⟨rfl, h.set x _⟩

/-- A method call reads what its receiver names, if that is a variable. -/
theorem readsOnly_callMethod {names : List String} {receiver : Expr}
    (hsub : receiver.names ⊆ names) (object : Value) (method : String) (args : List Value) :
    ReadsOnly names (callMethod receiver object method args : Eval σ Value) := by
  have hmember : ReadsOnly names (do
      let target ← Eval.lift ((← get).attributeOf object method)
      Eval.call (·.callValue target args) : Eval σ Value) := by
    refine readsOnly_get (fun h => ?_) fun env => ?_
    · rw [h.attributeOf_eq]
    · exact (readsOnly_lift _).bind fun target => readsOnly_call target args
  unfold callMethod
  split
  · exact hmember
  · exact hmember
  · split
    · split
      · exact readsOnly_changeVariable (hsub (List.mem_singleton_self _)) _
      · exact readsOnly_lift _
    · exact readsOnly_lift _

/-! ## Expressions -/

namespace Expr

variable {names : List String}

mutual

/-- **An expression reads no variable but those it names.** -/
theorem readsOnly_eval : (e : Expr) → e.names ⊆ names →
    ReadsOnly names (e.eval : Eval σ Value)
  | .literal v, _ => by
    unfold eval
    exact readsOnly_pure v
  | .name n, h => by
    unfold eval
    refine readsOnly_get (fun hagree => ?_) fun env => readsOnly_lift _
    rw [hagree.nameValue_eq (h (List.mem_singleton_self n))]
  | .list items, h => by
    unfold eval
    exact (readsOnly_evalAll items h).bind fun _ => readsOnly_pure _
  | .dict entries, h => by
    unfold eval
    exact (readsOnly_evalEntries entries h []).bind fun _ => readsOnly_pure _
  | .unary op e, h => by
    unfold eval
    exact (readsOnly_eval e h).bind fun _ => readsOnly_lift _
  | .binary op l r, h => by
    obtain ⟨hl, hr⟩ := List.append_subset.1 h
    cases op with
    | and | or =>
      unfold eval
      refine (readsOnly_eval l hl).bind fun left => ?_
      split
      · first | exact readsOnly_eval r hr | exact readsOnly_pure _
      · first | exact readsOnly_eval r hr | exact readsOnly_pure _
    | _ =>
      unfold eval
      refine (readsOnly_eval l hl).bind fun left => ?_
      exact (readsOnly_eval r hr).bind fun right => readsOnly_lift _
  | .call callee args, h => by
    obtain ⟨hcallee, hargs⟩ := List.append_subset.1 h
    have htarget := readsOnly_eval callee hcallee
    have hvalues := readsOnly_evalAll args hargs
    cases callee with
    | field owner method =>
      have howner : owner.names ⊆ names := hcallee
      unfold eval
      refine (readsOnly_eval owner howner).bind fun object => hvalues.bind fun vs => ?_
      exact readsOnly_callMethod howner object method vs
    | _ =>
      rw [eval]
      · exact htarget.bind fun target => hvalues.bind fun vs => readsOnly_call target vs
      · simp
  | .index c i, h => by
    obtain ⟨hc, hi⟩ := List.append_subset.1 h
    unfold eval
    refine (readsOnly_eval c hc).bind fun _ => ?_
    exact (readsOnly_eval i hi).bind fun _ => readsOnly_lift _
  | .slice c low high, h => by
    obtain ⟨hc, h⟩ := List.append_subset.1 h
    obtain ⟨hlow, hhigh⟩ := List.append_subset.1 h
    unfold eval
    refine (readsOnly_eval c hc).bind fun _ => ?_
    refine (readsOnly_evalBound low hlow).bind fun _ => ?_
    exact (readsOnly_evalBound high hhigh).bind fun _ => readsOnly_lift _
  | .field owner member, h => by
    unfold eval
    refine (readsOnly_eval owner h).bind fun _ => ?_
    refine readsOnly_get (fun hagree => ?_) fun env => readsOnly_lift _
    rw [hagree.attributeOf_eq]
termination_by structural e => e

theorem readsOnly_evalAll : (es : List Expr) → namesAll es ⊆ names →
    ReadsOnly names (evalAll es : Eval σ (List Value))
  | [], _ => by
    unfold evalAll
    exact readsOnly_pure _
  | e :: es, h => by
    obtain ⟨he, hes⟩ := List.append_subset.1 h
    unfold evalAll
    refine (readsOnly_eval e he).bind fun _ => ?_
    exact (readsOnly_evalAll es hes).bind fun _ => readsOnly_pure _
termination_by structural es => es

theorem readsOnly_evalEntries : (es : List (Expr × Expr)) → namesEntries es ⊆ names → (d : Dict) →
    ReadsOnly names (evalEntries es d : Eval σ Dict)
  | [], _, d => by
    unfold evalEntries
    exact readsOnly_pure _
  | e :: es, h, d => by
    obtain ⟨he, hes⟩ := List.append_subset.1 h
    unfold evalEntries
    exact (readsOnly_evalEntry e he).bind fun _ => readsOnly_evalEntries es hes _
termination_by structural es => es

theorem readsOnly_evalEntry : (e : Expr × Expr) → namesEntry e ⊆ names →
    ReadsOnly names (evalEntry e : Eval σ (Value × Value))
  | (k, v), h => by
    obtain ⟨hk, hv⟩ := List.append_subset.1 h
    unfold evalEntry
    refine (readsOnly_eval k hk).bind fun _ => ?_
    exact (readsOnly_eval v hv).bind fun _ => readsOnly_pure _
termination_by structural e => e

theorem readsOnly_evalBound : (bound : Option Expr) → namesBound bound ⊆ names →
    ReadsOnly names (evalBound bound : Eval σ (Option Int))
  | none, _ => by
    unfold evalBound
    exact readsOnly_pure _
  | some e, h => by
    unfold evalBound
    exact (readsOnly_eval e h).bind fun _ => readsOnly_lift _
termination_by structural e => e

end

/-- **Evaluation depends on what the expression names.** In environments with the same functions and
    modules that agree on the variables named in an expression it has the same value or the same
    fault, and the environments agree on these variables afterwards, whatever else is bound in one
    of them. What the hosts remember may differ when the functions are pure. -/
theorem evaluate_agrees (e : Expr) {env env' : Env σ} (hagree : env.AgreeOn e.names env') :
    (e.evaluate env).1 = (e.evaluate env').1 ∧
      (e.evaluate env).2.AgreeOn e.names (e.evaluate env').2 :=
  readsOnly_eval e (List.Subset.refl _) env env' hagree

/-- In `xs.append(len(xs))` the function is the built-in one as long as no variable has its name,
    and the list grows by the same item whether or not there are other variables, and whatever the
    host remembers. -/
theorem evaluate_agrees_appendLength :
    let append : Expr :=
      .call (.field (.name "xs") "append") [.call (.name "len") [.name "xs"]]
    let env : Env Nat := { vars := ⟨[("xs", .list [.int 7]), ("append", .int 1)]⟩, host := 0 }
    let env' : Env Nat := { vars := ⟨[("n", .int 3), ("xs", .list [.int 7])]⟩, host := 1 }
    env.AgreeOn append.names env' ∧
      (append.evaluate env).1 = (append.evaluate env').1 ∧
      (append.evaluate env').2.get? "xs" = some (.list [.int 7, .int 1]) ∧
      (append.evaluate env).2.get? "xs" = some (.list [.int 7, .int 1]) := by
  intro append env env'
  have hagree : env.AgreeOn append.names env' := by
    refine ⟨fun _ => rfl, fun _ => rfl, fun x hx => ?_, .inl (Env.pureFunctions_of_empty rfl rfl)⟩
    have hnames : append.names = ["xs", "len", "xs"] := rfl
    rw [hnames] at hx
    simp only [List.mem_cons, List.not_mem_nil, or_false] at hx
    obtain rfl | rfl | rfl := hx <;> rfl
  obtain ⟨hsame, hafter⟩ := evaluate_agrees append hagree
  have hxs : (append.evaluate env').2.get? "xs" = some (.list [.int 7, .int 1]) := rfl
  exact ⟨hagree, hsame, hxs, (hafter.bindings "xs" (List.mem_cons_self)).trans hxs⟩

end Expr

end StepScript
