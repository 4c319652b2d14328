import StepScript.Proofs.Functions

/-!
# Functions and statements

What a program calls comes from three tables, and statements add to them: a call asks the host for a
function or class and remembers it, an import brings in a module. `World.Follows` says how a world
is related to the functions and modules that a statement evaluated its operands with: nothing came
to denote something else, and whatever function a variable holds was denoted then.

Every statement leads to such a world (`Act.follows_perform`), if nothing that the library offers
makes functions of its own (`Library.MakesNoFunctions`). What its functions remember may have to be
of some form for that, which they keep. A statement that brings nothing in is a computation with
fixed tables, and `Ensures` goes through it as through an evaluation; a call is one as soon as its
function is resolved.
-/

set_option autoImplicit false

namespace StepScript

open Value (CallsOnly Within)

variable {σ μ π α : Type}

/-! ## Entries that were set -/

/-- What a table holds after some entries were set is one of them, or was there before. -/
theorem Table.get?_foldl_set {entries : List (String × α)} {t : Table α} {name : String} {a : α}
    (h : (entries.foldl (fun t e => t.set e.1 e.2) t).get? name = some a) :
    t.get? name = some a ∨ (name, a) ∈ entries := by
  induction entries generalizing t with
  | nil => exact Or.inl h
  | cons e entries ih =>
    rcases ih h with h | h
    · rw [get?_set] at h
      split at h
      · next hname =>
        cases h
        exact Or.inr (List.mem_cons.2 (Or.inl (Prod.ext hname.symm rfl)))
      · exact Or.inl h
    · exact Or.inr (List.mem_cons_of_mem e h)

theorem Table.mem_of_get?_ofList {entries : List (String × α)} {name : String} {a : α}
    (h : (ofList entries).get? name = some a) : (name, a) ∈ entries :=
  (get?_foldl_set h).resolve_left (by simp)

/-! ## Libraries -/

namespace Library

/-- A state that requests lead a loaded model to. -/
inductive Loaded.Reaches (m : Loaded π) : π → Prop where
  | now : Reaches m m.state
  | predict {s : π} (hs : Reaches m s) (input : Value) : Reaches m (m.pipeline.predict input s).2
  | train {s : π} (hs : Reaches m s) (data : Value) : Reaches m (m.pipeline.train data s).2

/-- The functions inside of the predictions of a loaded model come from their inputs. -/
def Loaded.MakesNoFunctions (m : Loaded π) : Prop :=
  ∀ s, m.Reaches s → ∀ input v, (m.pipeline.predict input s).1 = .ok v →
    ∀ n, Within (.callable n) v → Within (.callable n) input

/-- Nothing that the library offers makes functions: its functions and classes, as long as its
    memory has the property `P`, its modules and their constants, its models. -/
structure MakesNoFunctions (P : μ → Prop) (l : Library μ π) : Prop
    extends MakeNoFunctions P l.objects l.modules where
  of_pipeline : ∀ task p, l.pipelines.get? task = some p → Loaded.MakesNoFunctions ⟨p, p.start⟩

/-- The memory has the property, and no loaded model makes functions. -/
structure State.MakesNoFunctions (P : μ → Prop) (s : State μ π) : Prop where
  memory : P s.memory
  loaded : ∀ m ∈ s.loaded, m.MakesNoFunctions

/-- What an environment has of the host comes from the library. -/
structure Supplies (l : Library μ π) (env : Env (State μ π)) : Prop where
  objects : ∀ name object, env.objects.get? name = some object →
    (l.objects.get? name).map (fun object => object.map onMemory) = some object
  modules : ∀ name m, env.modules.get? name = some m →
    (l.modules.get? name).map (fun m => m.map onMemory) = some m

theorem Loaded.Reaches.of_reaches {m : Loaded π} {s s' : π} (hs : m.Reaches s)
    (h : ({ m with state := s } : Loaded π).Reaches s') : m.Reaches s' := by
  induction h with
  | now => exact hs
  | predict _ input ih => exact ih.predict input
  | train _ data ih => exact ih.train data

theorem Loaded.MakesNoFunctions.of_reaches {m : Loaded π} (h : m.MakesNoFunctions) {s : π}
    (hs : m.Reaches s) : ({ m with state := s } : Loaded π).MakesNoFunctions :=
  fun s' hs' => h s' (hs.of_reaches hs')

section

variable {P : μ → Prop} {l : Library μ π}

/-- A function of the library works on its memory alone. -/
theorem makesNoFunctions_onMemory {run : Native μ} (h : Native.MakesNoFunctions P run) :
    Native.MakesNoFunctions (State.MakesNoFunctions (π := π) P) (onMemory run) := by
  intro args s hs
  obtain ⟨hkept, hgiven⟩ := h args s.memory hs.memory
  exact ⟨⟨hkept, hs.loaded⟩, hgiven⟩

theorem Supplies.makeNoFunctions {env : Env (State μ π)} (h : l.Supplies env)
    (hl : l.MakesNoFunctions P) :
    MakeNoFunctions (State.MakesNoFunctions P) env.objects env.modules where
  of_object name object hobject := by
    obtain ⟨own, hown, rfl⟩ := Option.map_eq_some_iff.1 (h.objects name object hobject)
    rw [HostObject.run_map]
    exact makesNoFunctions_onMemory (hl.of_object name own hown)
  of_function name m hm f run hrun := by
    obtain ⟨own, hown, rfl⟩ := Option.map_eq_some_iff.1 (h.modules name m hm)
    rw [Module.map, Table.get?_map] at hrun
    obtain ⟨inner, hinner, rfl⟩ := Option.map_eq_some_iff.1 hrun
    exact makesNoFunctions_onMemory (hl.of_function name own hown f inner hinner)
  of_constant name m hm := by
    obtain ⟨own, hown, rfl⟩ := Option.map_eq_some_iff.1 (h.modules name m hm)
    exact hl.of_constant name own hown

theorem Supplies.register {env : Env (State μ π)} (h : l.Supplies env) {name : String}
    {object : HostObject (State μ π)}
    (hobject : (l.objects.get? name).map (fun object => object.map onMemory) = some object) :
    l.Supplies (env.register name object) where
  objects other new hget := by
    rw [Env.register, Table.get?_set] at hget
    split at hget
    · next heq =>
      cases hget
      rwa [← heq]
    · exact h.objects other new hget
  modules := h.modules

theorem Supplies.addModule {env : Env (State μ π)} (h : l.Supplies env) {m : Module (State μ π)}
    (hm : (l.modules.get? m.name).map (fun m => m.map onMemory) = some m) :
    l.Supplies (env.addModule m) where
  objects := h.objects
  modules other new hget := by
    rw [Env.addModule, Table.get?_set] at hget
    split at hget
    · next heq =>
      cases hget
      rwa [← heq]
    · exact h.modules other new hget

theorem MakesNoFunctions.withFunction (hl : l.MakesNoFunctions P) {name : String}
    {run : Native μ} (hrun : Native.MakesNoFunctions P run) :
    (l.withFunction name run).MakesNoFunctions P where
  of_object other object hobject := by
    rw [Library.withFunction, Table.get?_set] at hobject
    split at hobject
    · cases hobject
      exact hrun
    · exact hl.of_object other object hobject
  of_function := hl.of_function
  of_constant := hl.of_constant
  of_pipeline := hl.of_pipeline

end

end Library

/-! ## The standard modules -/

namespace Host

variable {P : σ → Prop}

theorem makesNoFunctions_unary (name : String) (f : Binary64 → Binary64) :
    Native.MakesNoFunctions P (.pure (unary name f)) := by
  refine Native.makesNoFunctions_of_yields fun args => ?_
  refine (Yields.trivial _).bind fun x _ => ?_
  dsimp only
  split <;> simp

theorem makesNoFunctions_rounding (name : String) (f : Binary64 → Int) :
    Native.MakesNoFunctions P (.pure (rounding name f)) := by
  refine Native.makesNoFunctions_of_yields fun args => ?_
  unfold rounding
  split
  · simp
  · refine (Yields.trivial _).bind fun x _ => ?_
    split <;> simp

theorem makesNoFunctions_power : Native.MakesNoFunctions P (.pure power) := by
  refine Native.makesNoFunctions_of_yields fun args => ?_
  exact (Yields.trivial _).bind fun x _ => (Yields.trivial _).bind fun y _ => by simp

theorem makesNoFunctions_logarithm : Native.MakesNoFunctions P (.pure logarithm) := by
  refine Native.makesNoFunctions_of_yields fun args => ?_
  refine (Yields.trivial _).bind fun x _ => ?_
  split
  · simp
  · simp
  · split
    · exact (Yields.trivial _).bind fun y _ => by simp
    · simp

theorem makesNoFunctions_mean : Native.MakesNoFunctions P (.pure mean) := by
  refine Native.makesNoFunctions_of_yields fun args => ?_
  exact (Yields.trivial _).bind fun data _ => by simp

theorem makesNoFunctions_median : Native.MakesNoFunctions P (.pure median) := by
  refine Native.makesNoFunctions_of_yields fun args => ?_
  refine (Yields.trivial _).bind fun data _ => ?_
  dsimp only
  split <;> simp

section

variable {f : String} {run : Native σ}

theorem makesNoFunctions_of_mathModule (h : mathModule.functions.get? f = some run) :
    Native.MakesNoFunctions P run := by
  have hmem := Table.mem_of_get?_ofList h
  simp only [List.mem_cons, Prod.mk.injEq, List.not_mem_nil, or_false] at hmem
  rcases hmem with ⟨-, rfl⟩ | ⟨-, rfl⟩ | ⟨-, rfl⟩ | ⟨-, rfl⟩ | ⟨-, rfl⟩ | ⟨-, rfl⟩ | ⟨-, rfl⟩ |
    ⟨-, rfl⟩ | ⟨-, rfl⟩
  · exact makesNoFunctions_unary "sqrt" _
  · exact makesNoFunctions_unary "exp" _
  · exact makesNoFunctions_unary "sin" _
  · exact makesNoFunctions_unary "cos" _
  · exact makesNoFunctions_unary "fabs" _
  · exact makesNoFunctions_rounding "floor" _
  · exact makesNoFunctions_rounding "ceil" _
  · exact makesNoFunctions_power
  · exact makesNoFunctions_logarithm

theorem makesNoFunctions_of_statisticsModule (h : statisticsModule.functions.get? f = some run) :
    Native.MakesNoFunctions P run := by
  have hmem := Table.mem_of_get?_ofList h
  simp only [List.mem_cons, Prod.mk.injEq, List.not_mem_nil, or_false] at hmem
  rcases hmem with ⟨-, rfl⟩ | ⟨-, rfl⟩
  · exact makesNoFunctions_mean
  · exact makesNoFunctions_median

end

end Host

/-- The functions of the standard modules give numbers. -/
theorem Library.makesNoFunctions_standard (P : Unit → Prop) (wording : Wording) :
    (Library.standard wording).MakesNoFunctions P := by
  have hmodule {name : String} {m : Module Unit}
      (hm : (Library.standard wording).modules.get? name = some m) :
      m = Host.mathModule ∨ m = Host.statisticsModule := by
    have hmem := Table.mem_of_get?_ofList hm
    simp only [List.mem_cons, Prod.mk.injEq, List.not_mem_nil, or_false] at hmem
    exact hmem.imp And.right And.right
  refine ⟨⟨nofun, fun name m hm f run hf => ?_, fun name m hm c v hv => ?_⟩, nofun⟩
  · rcases hmodule hm with rfl | rfl
    · exact Host.makesNoFunctions_of_mathModule hf
    · exact Host.makesNoFunctions_of_statisticsModule hf
  · rcases hmodule hm with rfl | rfl
    · have hmem := Table.mem_of_get?_ofList hv
      simp only [List.mem_cons, Prod.mk.injEq, List.not_mem_nil, or_false] at hmem
      rcases hmem with ⟨-, rfl⟩ | ⟨-, rfl⟩ <;> decide
    · cases hv

open Library (Loaded State)

/-! ## Statements -/

/-- Whatever function a variable holds is denoted, and the host remembers something with the
    property. -/
abbrev World.KnownTo (P : σ → Prop) (tables : Env σ) (w : World σ) : Prop :=
  tables.Knows P w.env

namespace Act

section

variable {P : σ → Prop} {tables : Env σ} {Q : α → Prop}

theorem ensures_lift {r : Except Fault α} (h : Yields Q r) :
    Ensures (World.KnownTo P tables) Q (lift r) :=
  ensures_result h

theorem ensures_eval {e : Eval σ α} (he : Ensures (tables.Knows P) Q e) :
    Ensures (World.KnownTo P tables) Q (eval e) :=
  fun w hw => he w.env hw

theorem ensures_lookup (name : String) :
    Ensures (World.KnownTo P tables) (CallsOnly tables.Denotes) (lookup name) :=
  fun _ hw => ⟨hw, hw.yields_lookup name⟩

theorem ensures_itemsOf (name : String) :
    Ensures (World.KnownTo P tables) (fun vs => ∀ v ∈ vs, v.CallsOnly tables.Denotes)
      (itemsOf name) :=
  (ensures_lookup name).bind fun _ hv => ensures_lift (Value.yields_items hv)

theorem ensures_parse (text : String) :
    Ensures (World.KnownTo P tables) Expr.IsReadable (parse text) :=
  ensures_lift fun _ => Expr.isReadable_of_parse

theorem ensures_assign (name : String) {v : Value} (hv : v.CallsOnly tables.Denotes) :
    Ensures (World.KnownTo P tables) (fun _ => True) (assign name v) :=
  fun _ hw => ⟨hw.set name hv, Yields.trivial _⟩

theorem ensures_emit (line : String) :
    Ensures (World.KnownTo P tables) (fun _ => True) (emit line) :=
  fun _ hw => ⟨hw, Yields.trivial _⟩

/-- A request that keeps the property of what the host remembers. -/
theorem ensures_consult {request : σ → α × σ} (h : ∀ s, P s → Q (request s).1 ∧ P (request s).2) :
    Ensures (World.KnownTo P tables) Q (consult request) := by
  intro w hw
  obtain ⟨hgiven, hhost⟩ := h w.env.host hw.host
  exact ⟨⟨hw.handouts.trans ⟨rfl, rfl⟩, hhost, hw.vars⟩, yields_ok.2 hgiven⟩

theorem ensures_ask {request : σ → Except HostFault α × σ}
    (h : ∀ s, P s → Yields Q (request s).1 ∧ P (request s).2) :
    Ensures (World.KnownTo P tables) Q (ask request) :=
  (ensures_consult h).bind fun _ hr => ensures_lift (yields_hosted.2 hr)

theorem ensures_changeList (name method : String) {change : Change (List Value) Unit}
    (hchange : Ensures (Method.ItemsCallOnly tables.Denotes) (fun _ => True) change) :
    Ensures (World.KnownTo P tables) (fun _ => True) (changeList name method change) := by
  refine ensures_eval (ensures_changeVariable name fun v hv => ?_)
  cases v with
  | list items =>
    obtain ⟨hkept, hgiven⟩ := hchange items (Value.callsOnly_list.1 hv)
    exact ⟨Value.callsOnly_list.2 hkept, hgiven⟩
  | _ => exact ⟨hv, yields_error _⟩

/-- The items of a variable evaluated one by one, and the result bound. -/
theorem ensures_collect {names : List String} {e : Eval σ α} (target : String) {f : α → Value}
    (he : Ensures (tables.Knows P) Q e) (hf : ∀ a, Q a → (f a).CallsOnly tables.Denotes) :
    Ensures (World.KnownTo P tables) (fun _ => True)
      (eval (Eval.restoring names e) >>= fun v => assign target (f v)) :=
  (ensures_eval (Eval.ensures_restoring names he)).bind fun a ha => ensures_assign target (hf a ha)

end

section

variable {P : σ → Prop} {tables : Env σ}
  (htables : MakeNoFunctions P tables.objects tables.modules)

include htables

theorem ensures_evalText (text : String) :
    Ensures (World.KnownTo P tables) (CallsOnly tables.Denotes) (evalText text) :=
  ensures_eval (StepScript.ensures_evalText htables text)

theorem ensures_arguments (args : List String) :
    Ensures (World.KnownTo P tables) (fun vs => ∀ v ∈ vs, v.CallsOnly tables.Denotes)
      (arguments args) := by
  induction args with
  | nil => exact ensures_pure (by simp)
  | cons arg args ih =>
    refine (ensures_evalText htables arg).bind fun v hv => ih.bind fun vs hvs => ensures_pure ?_
    exact List.forall_mem_cons.2 ⟨hv, hvs⟩

theorem ensures_store {place : Expr} (hplace : place.IsReadable) (op : Option BinaryOp)
    (expr : String) :
    Ensures (World.KnownTo P tables) (fun _ => True) (store place op expr) := by
  have hassign {v : Value} (hv : v.CallsOnly tables.Denotes) :
      Ensures (World.KnownTo P tables) (fun _ => True) (eval (place.assign v)) :=
    ensures_eval (hplace.ensures_assign htables hv)
  refine (ensures_evalText htables expr).bind fun v hv => ?_
  cases op with
  | none => exact (ensures_pure hv).bind fun _ hv => hassign hv
  | some op =>
    refine (ensures_eval (hplace.ensures htables).1).bind fun old hold => ?_
    exact (ensures_lift (Value.yields_binary hold hv op)).bind fun _ hv => hassign hv

theorem ensures_runExpression (text : String) :
    Ensures (World.KnownTo P tables) (fun _ => True) (runExpression text) := by
  refine (ensures_parse text).bind fun e he => ensures_get.bind fun w _ => ?_
  split
  · next args hprint =>
    have hargs : ∀ e ∈ args, e.IsReadable := by
      obtain rfl := eq_call_of_printArguments? hprint
      cases he with
      | call _ hargs => exact hargs
    refine (ensures_eval (Expr.ensures_evalAll fun e he => ?_)).bind fun vs _ => ensures_emit _
    exact ((hargs e he).ensures htables).1
  · exact (ensures_eval (he.ensures htables).1).bind fun _ _ => ensures_pure trivial

theorem ensures_raw (text : String) :
    Ensures (World.KnownTo P tables) (fun _ => True) (raw text) := by
  unfold raw
  split
  · next place a hassignment =>
    have hplace : place.IsReadable :=
      Expr.isReadable_of_parse (parse_of_assignment? hassignment)
    exact ensures_store htables hplace a.op a.expr
  · exact ensures_runExpression htables text

end

/-! ## Models -/

section

variable {P : μ → Prop} {l : Library μ π} {tables : Env (State μ π)} {Q : α → Prop}

/-- A request to one of the loaded models: the model is in a state that requests lead to. -/
theorem ensures_withModel {f : Loaded π → Except HostFault α × π}
    (hf : ∀ m, m.MakesNoFunctions → m.Reaches (f m).2 ∧ Yields Q (f m).1) (model : ModelHandle) :
    Ensures (World.KnownTo (State.MakesNoFunctions P) tables) Q
      (ask fun s => Library.withModel model s f) := by
  refine ensures_ask fun s hs => ?_
  unfold Library.withModel
  split
  · exact ⟨yields_error _, hs⟩
  · next m hm =>
    have hmodel := hs.loaded m (List.mem_of_getElem? hm)
    obtain ⟨hreached, hgiven⟩ := hf m hmodel
    refine ⟨hgiven, hs.memory, fun m' hm' => ?_⟩
    rcases List.mem_or_eq_of_mem_set hm' with hm' | rfl
    · exact hs.loaded m' hm'
    · exact hmodel.of_reaches hreached

theorem ensures_loadModel (hl : l.MakesNoFunctions P) (task var : String) :
    Ensures (World.KnownTo (State.MakesNoFunctions P) tables) (fun _ => True)
      (loadModel l.host task var) := by
  have hload : Ensures (World.KnownTo (State.MakesNoFunctions P) tables) (fun _ => True)
      (ask (l.host.loadModel task)) := by
    refine ensures_ask fun s hs => ⟨Yields.trivial _, ?_⟩
    simp only [Library.host]
    split
    · next p hp =>
      refine ⟨hs.memory, List.forall_mem_append.2 ⟨hs.loaded, ?_⟩⟩
      simpa using hl.of_pipeline task p hp
    · exact hs
  refine hload.bind fun model _ => (ensures_assign var (by simp)).bind fun _ _ => ?_
  exact ensures_modify fun w hw => hw

variable (htables : MakeNoFunctions (State.MakesNoFunctions P) tables.objects tables.modules)

include htables

theorem ensures_predict (input target : String) :
    Ensures (World.KnownTo (State.MakesNoFunctions P) tables) (fun _ => True)
      (predict l.host input target) := by
  refine (ensures_evalText htables input).bind fun v hv => ensures_get.bind fun w _ => ?_
  split
  · exact ensures_lift (yields_error _)
  · next model _ =>
    have hask : Ensures (World.KnownTo (State.MakesNoFunctions P) tables)
        (CallsOnly tables.Denotes) (ask (l.host.predict model v)) := by
      refine ensures_withModel (fun m hm => ⟨.predict .now v, ?_⟩) model
      exact fun r hr n hn => hv n (hm m.state .now v r hr n hn)
    exact hask.bind fun r hr => ensures_assign target hr

theorem ensures_train (name data : String) :
    Ensures (World.KnownTo (State.MakesNoFunctions P) tables) (fun _ => True)
      (train l.host name data) := by
  refine (ensures_lookup name).bind fun v _ => ?_
  split
  · refine (ensures_evalText htables data).bind fun v _ => ?_
    exact ensures_withModel (fun m _ => ⟨.train .now v, Yields.trivial _⟩) _
  · exact ensures_lift (yields_error _)

/-- **What a statement leaves in variables is denoted**, if it brings nothing in. -/
theorem ensures_perform (hl : l.MakesNoFunctions P) {s : Statement} (hs : s.bringsIn = false) :
    Ensures (World.KnownTo (State.MakesNoFunctions P) tables) (fun _ => True)
      (perform l.host s) := by
  cases s with
  | call _ _ _ | create _ _ _ | importModule _ => cases hs
  | assign target expr =>
    refine (ensures_evalText htables expr).bind fun v hv => ?_
    exact (ensures_parse target).bind fun e he => ensures_eval (he.ensures_assign htables hv)
  | apiKey text =>
    refine Ensures.bind (R := fun _ => True) (ensures_consult fun s hs => ?_) fun _ _ => ?_
    · exact ⟨trivial, hs.memory, hs.loaded⟩
    · exact ensures_assign "api_key" (by simp)
  | print operands =>
    have hline : Ensures (World.KnownTo (State.MakesNoFunctions P) tables) (fun _ => True)
        (printed operands) := by
      refine (ensures_evalText htables _).bind fun v _ => ?_
      split <;> exact ensures_pure trivial
    exact hline.bind fun line _ => ensures_emit line
  | listCreate name expr | dictCreate name expr | getValue expr name =>
    exact (ensures_evalText htables expr).bind fun v hv => ensures_assign name hv
  | listAppend name expr =>
    refine (ensures_evalText htables expr).bind fun v hv => ensures_changeList name _ ?_
    exact ensures_modify fun items hitems => List.forall_mem_append.2 ⟨hitems, by simpa using hv⟩
  | listRemove name expr =>
    refine (ensures_evalText htables expr).bind fun v _ => ensures_changeList name _ ?_
    refine ensures_get.bind fun items _ => ?_
    split
    · exact ensures_modify fun items h v hv => h v (List.mem_of_mem_eraseIdx hv)
    · exact ensures_result (yields_error _)
  | sort source target =>
    refine (ensures_itemsOf source).bind fun items hitems => ?_
    refine (ensures_lift (Value.yields_sort hitems)).bind fun sorted hsorted => ?_
    exact ensures_assign target (Value.callsOnly_list.2 hsorted)
  | filter source predicate target =>
    refine (ensures_itemsOf source).bind fun items hitems => ?_
    refine (ensures_parse predicate).bind fun e he => ?_
    exact ensures_collect target (Eval.ensures_filterItems htables he hitems)
      fun vs hvs => Value.callsOnly_list.2 hvs
  | map source transform target =>
    refine (ensures_itemsOf source).bind fun items hitems => ?_
    refine (ensures_parse transform).bind fun e he => ?_
    exact ensures_collect target (Eval.ensures_mapItems htables he hitems)
      fun vs hvs => Value.callsOnly_list.2 hvs
  | reduce source combine target =>
    refine (ensures_itemsOf source).bind fun items hitems => ?_
    split
    · exact ensures_lift (yields_error _)
    · rw [List.forall_mem_cons] at hitems
      refine (ensures_parse combine).bind fun e he => ?_
      exact ensures_collect target
        (Eval.ensures_reduceItems htables he hitems.2 hitems.1) fun _ hv => hv
  | loadModel model var => exact ensures_loadModel hl model var
  | predict input output => exact ensures_predict htables input output
  | train model data => exact ensures_train htables model data
  | raw text => exact ensures_raw htables text
  | _ => exact ensures_pure trivial

end

end Act

/-! ## What is brought in -/

/-- The environment that the operands of a statement are evaluated in: a call first asks the host
    for the function that it names, and remembers it. -/
def World.operandEnv (h : Host σ) (w : World σ) : Statement → Env σ
  | .call name _ _ | .create _ name _ => ((Act.resolve h name).run.run w).2.env
  | _ => w.env

theorem World.operandEnv_of_bringsIn {h : Host σ} {w : World σ} {s : Statement}
    (hs : s.bringsIn = false) : w.operandEnv h s = w.env := by
  cases s with
  | call _ _ _ | create _ _ _ => cases hs
  | _ => rfl

/-- Whatever function a variable holds is denoted by what the library has supplied so far. -/
structure World.Grounded (P : μ → Prop) (l : Library μ π) (w : World (State μ π)) : Prop where
  supplies : l.Supplies w.env
  known : w.KnownTo (State.MakesNoFunctions P) w.env

/-- A statement whose operands were evaluated with these functions and modules has led to the
    world. -/
structure World.Follows (P : μ → Prop) (l : Library μ π) (tables : Env (State μ π))
    (w : World (State μ π)) : Prop where
  supplies : l.Supplies w.env
  grows : tables.Grows w.env
  vars : ∀ x v, w.env.get? x = some v → v.CallsOnly tables.Denotes
  host : w.host.MakesNoFunctions P

namespace World

variable {P : μ → Prop} {l : Library μ π} {tables : Env (State μ π)} {w : World (State μ π)}

theorem Follows.grounded (h : w.Follows P l tables) : w.Grounded P l where
  supplies := h.supplies
  known :=
    { handouts := Std.Refl.refl w.env
      host := h.host
      vars := fun x v hv => (h.vars x v hv).imp fun _ => h.grows.denotes }

theorem KnownTo.follows (h : w.KnownTo (State.MakesNoFunctions P) tables)
    (htables : l.Supplies tables) : w.Follows P l tables where
  supplies :=
    { objects := by rw [h.handouts.objects]; exact htables.objects
      modules := by rw [h.handouts.modules]; exact htables.modules }
  grows := h.handouts.grows
  vars := h.vars
  host := h.host

end World

theorem Env.denoted?_of_callee? {env : Env σ} {name : String} (h : env.callee? name = none) :
    env.denoted? name = none := by
  unfold callee? at h
  split at h
  · cases h
  · split at h
    · cases h
    · next hunknown =>
      rw [denoted?_eq_none_iff]
      simp only [Table.contains, Bool.or_eq_true, Option.isSome_iff_ne_none, not_or, not_not]
        at hunknown
      exact ⟨hunknown.1.1, hunknown.2, hunknown.1.2⟩

namespace Act

variable {P : μ → Prop} {l : Library μ π} {w : World (State μ π)}

/-- The host hands something out under a name that denotes nothing yet. -/
theorem exists_run_resolve (l : Library μ π) (name : String) (w : World (State μ π)) :
    ∃ callee env, (resolve l.host name).run.run w = (.ok callee, { w with env }) ∧
      (env = w.env ∨ ∃ object, w.env.denoted? name = none ∧
        (l.objects.get? name).map (fun object => object.map Library.onMemory) = some object ∧
        env = w.env.register name object) := by
  rw [resolve, run_bind, run_get]
  dsimp only
  cases hcallee : w.env.callee? name with
  | some callee => exact ⟨some callee, w.env, rfl, Or.inl rfl⟩
  | none =>
    dsimp only
    rw [run_bind, run_consult]
    cases hobject : (l.host.resolve name w.env.host).1 with
    | none => exact ⟨none, w.env, rfl, Or.inl rfl⟩
    | some object =>
      have hname := Env.denoted?_of_callee? hcallee
      exact ⟨some name, w.env.register name object, rfl, Or.inr ⟨object, hname, hobject, rfl⟩⟩

/-- What a call knows when its arguments are evaluated. -/
theorem grounded_resolve (hw : w.Grounded P l) (name : String) :
    w.env.Grows ((resolve l.host name).run.run w).2.env ∧
      ((resolve l.host name).run.run w).2.Grounded P l := by
  obtain ⟨callee, env, hrun, henv⟩ := exists_run_resolve l name w
  rw [hrun]
  rcases henv with rfl | ⟨object, hname, hobject, rfl⟩
  · exact ⟨.refl w.env, hw⟩
  · have hgrows := Env.grows_register hname object
    -- the variables are the same, and what they hold was denoted before
    refine ⟨hgrows, hw.supplies.register hobject, ?_⟩
    exact ⟨Std.Refl.refl _, hw.known.host,
      fun x v hv => (hw.known.vars x v hv).imp fun _ => hgrows.denotes⟩

/-- A call evaluates its arguments when its function is resolved. -/
theorem follows_callInto (hl : l.MakesNoFunctions P) (hw : w.Grounded P l) (name : String)
    (args : List String) (target : Option String) :
    ((callInto l.host name args target).run.run w).2.Follows P l
      ((resolve l.host name).run.run w).2.env := by
  obtain ⟨-, hresolved⟩ := grounded_resolve hw name
  obtain ⟨callee, env, hrun, -⟩ := exists_run_resolve l name w
  have htables := hresolved.supplies.makeNoFunctions hl
  rw [hrun] at hresolved htables ⊢
  rw [callInto, call?, bind_assoc, run_bind, hrun]
  dsimp only
  -- from here on nothing is handed out, and the call is a computation with fixed tables
  refine World.KnownTo.follows (Ensures.bind (Q := fun _ => True)
    (R := fun v => ∀ u, v = some u → u.CallsOnly env.Denotes) ?_ ?_ _ hresolved.known).1
    hresolved.supplies
  · split
    · exact ensures_pure (by simp)
    · next callee =>
      refine (ensures_arguments htables args).bind fun vs hvs => ?_
      refine (ensures_eval (ensures_evalCall htables (.callable callee) hvs)).bind fun v hv => ?_
      exact ensures_pure (by simpa using hv)
  · intro v hv
    split
    · exact ensures_assign _ (hv _ rfl)
    · exact ensures_pure trivial

/-- A module comes in under its own name, where there is none or the same one. -/
theorem follows_importModule (hnames : l.WellNamed) (hw : w.Grounded P l) (path : String) :
    ((importModule l.host path).run.run w).2.Follows P l w.env := by
  have hsame : w.Follows P l w.env := hw.known.follows hw.supplies
  rw [importModule, run_bind, run_ask]
  simp only [Library.host]
  cases hm : l.modules.get? path with
  | none => exact ⟨hsame.supplies, hsame.grows, hsame.vars, hsame.host⟩
  | some own =>
    obtain ⟨m, hm', hname⟩ : ∃ m : Module (State μ π),
        m = own.map Library.onMemory ∧ m.name = path :=
      ⟨_, rfl, hnames path own hm⟩
    have hlisted : (l.modules.get? m.name).map (fun m => m.map Library.onMemory) = some m := by
      rw [hname, hm, hm']
      rfl
    have hgrows : w.env.Grows (w.env.addModule m) := by
      refine Env.grows_addModule fun old hold => ?_
      exact Option.some.inj ((hw.supplies.modules m.name old hold).symm.trans hlisted)
    dsimp only
    rw [← hm']
    show World.Follows P l w.env
      { w with env := (w.env.addModule m).set (rootOf path) (.moduleRef (rootOf path)) }
    have hsupplies := hw.supplies.addModule hlisted
    refine ⟨⟨hsupplies.objects, hsupplies.modules⟩, hgrows, fun x v hv => ?_, hsame.host⟩
    rw [Env.get?_set] at hv
    split at hv
    · cases hv
      simp
    · exact hsame.vars x v hv

/-- **What a statement leaves in variables was denoted when its operands were evaluated**, and still
    denotes the same. -/
theorem follows_perform (hl : l.MakesNoFunctions P) (hnames : l.WellNamed) (hw : w.Grounded P l)
    (s : Statement) :
    w.env.Grows (w.operandEnv l.host s) ∧
      ((perform l.host s).run.run w).2.Follows P l (w.operandEnv l.host s) := by
  cases hs : s.bringsIn with
  | false =>
    rw [World.operandEnv_of_bringsIn hs]
    have hkept := ensures_perform (hw.supplies.makeNoFunctions hl) hl hs w hw.known
    exact ⟨.refl w.env, World.KnownTo.follows hkept.1 hw.supplies⟩
  | true =>
    cases s with
    | call name args result =>
      exact ⟨(grounded_resolve hw name).1, follows_callInto hl hw name args result⟩
    | create var className args =>
      exact ⟨(grounded_resolve hw className).1, follows_callInto hl hw className args (some var)⟩
    | importModule path => exact ⟨.refl w.env, follows_importModule hnames hw path⟩
    | _ => cases hs

end Act

end StepScript
