import StepScript.Host.Demo
import StepScript.Proofs.Brackets
import StepScript.Proofs.Handouts
import StepScript.Proofs.Splicing

/-!
# Functions of imported modules

A function of an imported module is reached in two ways. `CALL` looks up the whole dotted name, cut
at its last point. An expression goes through the path name by name: the first name is a variable
that the import has bound, every further one a member of the module before it, and a module below
another one is a member when it was imported itself.

For a path of one or two names the two ways lead to the same call (`Act.run_assign_callText`), so
the statements have the same effect. Further down they differ: after an import of `a.b.c` there is
no module `a.b`, so the expression finds no member `b` of `a` (`Act.run_assign_callText_deep`).
-/

set_option autoImplicit false

namespace StepScript

variable {σ μ π : Type}

/-! ## Libraries -/

namespace Library

/-- Every module is listed under its own name. -/
def WellNamed (l : Library μ π) : Prop :=
  ∀ name m, l.modules.get? name = some m → m.name = name

/-- The standard modules are. -/
theorem wellNamed_default (wording : Wording) : WellNamed ({ wording } : Library μ π) := by
  intro name m h
  have hmodules : ({ wording } : Library μ π).modules
      = ((Table.empty.set "math" Host.mathModule).set "statistics" Host.statisticsModule) := rfl
  rw [hmodules, Table.get?_set, Table.get?_set, Table.get?_empty] at h
  split at h
  · next hname =>
    cases h
    exact hname
  · split at h
    · next hname =>
      cases h
      exact hname
    · cases h

theorem WellNamed.withModule {l : Library μ π} (hl : l.WellNamed) (m : Module μ) :
    (l.withModule m).WellNamed := by
  intro name m' h
  rw [Library.withModule, Table.get?_set] at h
  split at h
  · next hname =>
    cases h
    exact hname
  · exact hl name m' h

theorem WellNamed.withFunction {l : Library μ π} (hl : l.WellNamed) (name : String)
    (run : Native μ) :
    (l.withFunction name run).WellNamed :=
  hl

theorem WellNamed.withClass {l : Library μ π} (hl : l.WellNamed) (name : String) (run : Native μ) :
    (l.withClass name run).WellNamed :=
  hl

theorem WellNamed.withPipeline {l : Library μ π} (hl : l.WellNamed) (task : String)
    (p : Pipeline π) : (l.withPipeline task p).WellNamed :=
  hl

end Library

theorem Demo.wellNamed_library : Demo.library.WellNamed := by
  have hstandard : ({ wording := .plain } : Library Unit (List Value)).WellNamed :=
    Library.wellNamed_default .plain
  exact (hstandard.withModule caseModule).withModule kitModule

/-! ## Dotted names -/

theorem Text.cutFirst?_append {mark : Char} {before : List Char} (h : mark ∉ before)
    (rest : List Char) : cutFirst? mark (before ++ mark :: rest) = some (before, rest) := by
  induction before with
  | nil => simp [cutFirst?]
  | cons c before ih =>
    have hc : c ≠ mark := fun heq => h (heq ▸ List.mem_cons_self)
    rw [List.cons_append, cutFirst?, ih fun hmem => h (List.mem_cons_of_mem c hmem)]
    simp [hc]

theorem Text.cutFirst?_of_not_mem {mark : Char} {text : List Char} (h : mark ∉ text) :
    cutFirst? mark text = none := by
  induction text with
  | nil => rfl
  | cons c text ih =>
    have hc : c ≠ mark := fun heq => h (heq ▸ List.mem_cons_self)
    rw [cutFirst?, ih fun hmem => h (List.mem_cons_of_mem c hmem)]
    simp [hc]

theorem Line.IsName.not_mem_point {cs : List Char} (h : IsName cs) : '.' ∉ cs := by
  intro hmem
  have hc := h.isNameChar _ hmem
  revert hc
  decide

/-- A dotted name is cut in front of its last member. -/
theorem Env.undotted?_dotted {f : String} (hf : Line.IsName f.toList) (path : String) :
    undotted? (dotted path f) = some (path, f) := by
  have hpoint : '.' ∉ f.toList.reverse := by simpa using hf.not_mem_point
  have hreverse : (dotted path f).toList.reverse
      = f.toList.reverse ++ '.' :: path.toList.reverse := by
    simp [dotted]
  rw [undotted?, Text.cutLast?, hreverse, Text.cutFirst?_append hpoint]
  simp

/-- The first name of a path. -/
theorem Act.rootOf_path {root : String} (hroot : Line.IsName root.toList) (names : List String) :
    rootOf (".".intercalate (root :: names)) = root := by
  rw [rootOf, Line.toList_intercalate_cons]
  cases names with
  | nil => simp [Text.cutFirst?_of_not_mem hroot.not_mem_point]
  | cons name names =>
    have hpoint : ((name :: names).flatMap fun n => ".".toList ++ n.toList)
        = '.' :: (name.toList ++ names.flatMap fun n => ".".toList ++ n.toList) := by
      simp
    rw [hpoint, Text.cutFirst?_append hroot.not_mem_point]
    exact String.ofList_toList

/-- A member of a path is a longer path. -/
theorem Env.dotted_path (root : String) (names : List String) (f : String) :
    dotted (".".intercalate (root :: names)) f = ".".intercalate (root :: (names ++ [f])) := by
  rw [← String.toList_inj, Line.toList_intercalate_cons, dotted, String.toList_append,
    String.toList_append, Line.toList_intercalate_cons]
  simp

/-! ## After an import -/

/-- The world some time after the first import, that of a path: no module came in since, and the
    first name of the path is bound as the import has bound it. -/
def Library.AfterImport (l : Library μ π) (path : String) (w : World (State μ π)) : Prop :=
  ∃ w₀ w₁ : World (State μ π), w₀.env.modules = .empty ∧
    (Act.importModule l.host path).run.run w₀ = (.ok (), w₁) ∧
    w.env.modules = w₁.env.modules ∧
    w.env.get? (Act.rootOf path) = w₁.env.get? (Act.rootOf path)

/-- What a successful import brings in. -/
theorem Act.exists_module_of_run {h : Host σ} {path : String} {w w' : World σ}
    (hrun : (importModule h path).run.run w = (.ok (), w')) :
    ∃ m host, h.importModule path w.host = (.ok m, host) ∧
      w'.env = ({ w.env with host }.addModule m).set (rootOf path) (.moduleRef (rootOf path)) := by
  rw [importModule, run_bind, run_ask] at hrun
  rcases hm : h.importModule path w.host with ⟨r, host⟩
  rw [hm] at hrun
  cases r with
  | error fault => cases hrun
  | ok m =>
    cases hrun
    exact ⟨m, host, rfl, rfl⟩

/-- The module is the only one, and the first name of its path is a variable. -/
structure Env.HoldsOnly (env : Env σ) (path root : String) (m : Module σ) : Prop where
  modules : env.modules = Table.empty.set path m
  root : env.get? root = some (.moduleRef root)

namespace Library

variable {l : Library μ π} {path : String} {w : World (State μ π)}

theorem AfterImport.exists_module (hl : l.WellNamed) (h : l.AfterImport path w) :
    ∃ m, l.modules.get? path = some m ∧
      w.env.HoldsOnly path (Act.rootOf path) (m.map onMemory) := by
  obtain ⟨w₀, w₁, hnone, hrun, hmodules, hroot⟩ := h
  obtain ⟨m', s, hm, hw₁⟩ := Act.exists_module_of_run hrun
  obtain ⟨m, hlisted, rfl⟩ : ∃ m, l.modules.get? path = some m ∧ m.map onMemory = m' := by
    simp only [host] at hm
    split at hm
    · next m hget =>
      cases hm
      exact ⟨m, hget, rfl⟩
    · cases hm
  refine ⟨m, hlisted, ?_, ?_⟩
  · rw [hmodules, hw₁, ← hl path m hlisted, ← hnone]
    rfl
  · rw [hroot, hw₁]
    exact Env.get?_set_self _ _ _

/-- Any statement but another import leaves it so, unless it binds the first name of the path. -/
theorem AfterImport.perform (h : l.AfterImport path w) {s : Statement}
    (himport : ∀ name, s ≠ .importModule name) (hs : Act.rootOf path ∉ s.binds) :
    l.AfterImport path ((Act.perform l.host s).run.run w).2 := by
  obtain ⟨w₀, w₁, hnone, hrun, hmodules, hroot⟩ := h
  have hbound : w₁.env.get? (Act.rootOf path) = some (.moduleRef (Act.rootOf path)) := by
    obtain ⟨m, s, -, hw₁⟩ := Act.exists_module_of_run hrun
    rw [hw₁]
    exact Env.get?_set_self _ _ _
  refine ⟨w₀, w₁, hnone, hrun, (Act.keepsModules_perform l.host himport w).trans hmodules, ?_⟩
  rw [hbound] at hroot ⊢
  exact Act.keepsScalar_perform l.host hs w _ rfl hroot

end Library

/-! ## Members of the only module -/

namespace Env

variable {env : Env σ} {path owner f : String} {m : Module σ}

/-- A function of the module is its member. -/
theorem moduleMember_function (h : env.modules = Table.empty.set path m) {run : Native σ}
    (hf : m.functions.get? f = some run) :
    env.moduleMember path f = .ok (.callable (dotted path f)) := by
  have hcontains : m.functions.contains f = true := by rw [Table.contains, hf, Option.isSome_some]
  simp [moduleMember, h, hcontains]

/-- Another name has the module as its only member, if it is the path above it. -/
theorem moduleMember_of_ne (h : env.modules = Table.empty.set path m) (hne : path ≠ owner) :
    env.moduleMember owner f
      = if path = dotted owner f then .ok (.moduleRef path)
        else .error (.type (.noMember owner f)) := by
  rw [moduleMember, h, Table.get?_set_of_ne _ _ hne, Table.contains, Table.get?_set]
  by_cases hpath : path = dotted owner f <;> simp [hpath]

theorem moduleFunction?_dotted (h : env.modules = Table.empty.set path m) {run : Native σ}
    (hf : m.functions.get? f = some run) (hname : Line.IsName f.toList) :
    env.moduleFunction? (dotted path f) = some run := by
  rw [moduleFunction?, undotted?_dotted hname]
  simp [h, hf]

end Env

/-! ## Paths of expressions -/

namespace Expr

variable {env : Env σ} {root : String} {names : List String} {m : Module σ}

theorem path_ne_root {root n : String} (hroot : Line.IsName root.toList) (names : List String) :
    ".".intercalate (root :: n :: names) ≠ root := by
  intro h
  rw [← String.toList_inj, Line.toList_intercalate_cons] at h
  refine hroot.not_mem_point ?_
  rw [← h]
  simp

theorem run_eval_root {path : String} (h : env.HoldsOnly path root m) :
    (Expr.name root).eval.run.run env = (.ok (.moduleRef root), env) := by
  show (env.nameValue root, env) = _
  rw [Env.nameValue, h.root]

/-- **A path of one or two names leads to the imported module.** -/
theorem run_eval_along (hroot : Line.IsName root.toList)
    (h : env.HoldsOnly (".".intercalate (root :: names)) root m) (hshort : names.length ≤ 1) :
    (along (.name root) names).eval.run.run env
      = (.ok (.moduleRef (".".intercalate (root :: names))), env) := by
  rcases names with _ | ⟨n, _ | ⟨n', names⟩⟩
  · simpa [along] using run_eval_root h
  · have hpath : ".".intercalate [root, n] = Env.dotted root n := by
      simpa using (Env.dotted_path root [] n).symm
    have hmember := Env.moduleMember_of_ne (f := n) h.modules (path_ne_root hroot [])
    rw [if_pos hpath] at hmember
    show ((Expr.field (.name root) n).eval).run.run env = _
    rw [Expr.eval, Eval.run_bind, run_eval_root h]
    show (env.moduleMember root n, env) = _
    rw [hmember]
  · simp at hshort

/-- A fault on the way goes through to the end of the path. -/
theorem run_eval_along_error {e : Expr} {fault : Fault} {after : Env σ}
    (h : e.eval.run.run env = (.error fault, after)) (names : List String) :
    (along e names).eval.run.run env = (.error fault, after) := by
  induction names generalizing e with
  | nil => exact h
  | cons n names ih =>
    refine ih ?_
    rw [Expr.eval, Eval.run_bind, h]

/-- A longer path leads nowhere: no module stands for its first two names. -/
theorem run_eval_deep (hroot : Line.IsName root.toList) {n n' : String}
    (h : env.HoldsOnly (".".intercalate (root :: n :: n' :: names)) root m) :
    (along (.name root) (n :: n' :: names)).eval.run.run env
      = (.error (.type (.noMember root n)), env) := by
  have hpath : ".".intercalate (root :: n :: n' :: names) ≠ Env.dotted root n := by
    intro heq
    have hlength := congrArg (fun s : String => s.toList.length) heq
    simp [Env.dotted] at hlength
  have hmember := Env.moduleMember_of_ne (f := n) h.modules (path_ne_root hroot (n' :: names))
  rw [if_neg hpath] at hmember
  show (along (.field (.name root) n) (n' :: names)).eval.run.run env = _
  refine run_eval_along_error ?_ (n' :: names)
  rw [Expr.eval, Eval.run_bind, run_eval_root h]
  show (env.moduleMember root n, env) = _
  rw [hmember]

/-- The text of a call of a member is read as the call of a field of the path. -/
theorem parse_memberCall {f : String} {args : List String} {es : List Expr}
    (hnames : ∀ n ∈ root :: names, Line.IsName n.toList) (hroot : root ∉ reserved)
    (hf : Line.IsName f.toList) (hargs : List.Forall₂ (fun a e => Expr.parse a = .ok e) args es) :
    Expr.parse (callText (Env.dotted (".".intercalate (root :: names)) f) args)
      = .ok (.call (.field (along (.name root) names) f) es) := by
  have hall : ∀ n ∈ root :: (names ++ [f]), Line.IsName n.toList := by
    simp only [List.forall_mem_cons, List.forall_mem_append] at hnames ⊢
    exact ⟨hnames.1, hnames.2, hf, by simp⟩
  have htext := parse_callText hall hroot hargs
  have hpath : along (.name root) (names ++ [f]) = .field (along (.name root) names) f := by
    simp [along]
  rwa [← Env.dotted_path, hpath] at htext

end Expr

/-! ## Calls -/

/-- A function called by its name with the values of arguments, and the result bound. -/
def Act.callBound (name target : String) (vs : List Value) : Act σ Unit := do
  let v ← eval (Eval.call (·.callNamed name vs))
  assign target v

/-- A function of the host called with the values of arguments, and the result bound. -/
def Act.callNative (run : Native σ) (target : String) (vs : List Value) : Act σ Unit := do
  let v ← eval (Eval.call (·.callNative run vs))
  assign target v

theorem evalText_of_parse {text : String} {e : Expr} (h : Expr.parse text = .ok e) :
    evalText text = (e.eval : Eval σ Value) := by
  rw [evalText, h]
  rfl

namespace Act

variable {args : List String} {es : List Expr} {w : World σ}

theorem eval_bind {α β : Type} (a : Eval σ α) (f : α → Eval σ β) :
    (eval (a >>= f) : Act σ β) = eval a >>= fun x => eval (f x) := by
  funext w
  show (eval (a >>= f) : Act σ β).run.run w = (eval a >>= fun x => eval (f x)).run.run w
  rw [run_eval, run_bind, run_eval, Eval.run_bind]
  rcases a.run.run w.env with ⟨r, env⟩
  cases r <;> rfl

/-- Texts that are all read as expressions. -/
theorem exists_exprs (h : ∀ a ∈ args, ∃ e, Expr.parse a = .ok e) :
    ∃ es, List.Forall₂ (fun a e => Expr.parse a = .ok e) args es := by
  induction args with
  | nil => exact ⟨[], .nil⟩
  | cons a args ih =>
    obtain ⟨e, he⟩ := h a List.mem_cons_self
    obtain ⟨es, hes⟩ := ih fun b hb => h b (List.mem_cons_of_mem a hb)
    exact ⟨e :: es, .cons he hes⟩

/-- The values of argument texts are those of their expressions. -/
theorem arguments_eq_evalAll (h : List.Forall₂ (fun a e => Expr.parse a = .ok e) args es) :
    (arguments args : Act σ (List Value)) = eval (Expr.evalAll es) := by
  induction h with
  | nil => rfl
  | cons ha hargs ih =>
    rw [arguments, evalText, evalText_of_parse ha, ih, Expr.evalAll, eval_bind]
    refine bind_congr fun v => ?_
    rw [eval_bind]
    rfl

/-- A call whose function is known: the arguments are evaluated, then it is called. -/
theorem run_callInto {h : Host σ} {name callee : String}
    (hcallee : w.env.callee? name = some callee) (args : List String) (target : String) :
    (callInto h name args (some target)).run.run w
      = (arguments args >>= callBound callee target).run.run w := by
  have hresolve : (resolve h name).run.run w = (.ok (some callee), w) := by
    rw [resolve, run_bind, run_get]
    dsimp only
    rw [hcallee]
    rfl
  rw [callInto, run_bind, call?, run_bind, hresolve]
  dsimp only
  rw [run_bind, run_bind]
  rcases (arguments args : Act σ (List Value)).run.run w with ⟨r, w'⟩
  cases r with
  | error fault => rfl
  | ok vs =>
    dsimp only
    rw [callBound, run_bind, run_bind, run_eval, Eval.run_call]
    cases (w'.env.callNamed callee vs).1 <;> rfl

end Act

/-- A call through a path that leads to a module is the call of the whole dotted name. -/
theorem Expr.run_eval_call_path {env : Env σ} {path f : String} {m : Module σ} {run : Native σ}
    {owner : Expr} (hmodules : env.modules = Table.empty.set path m)
    (hf : m.functions.get? f = some run)
    (howner : owner.eval.run.run env = (.ok (.moduleRef path), env)) (args : List Expr) :
    (Expr.call (.field owner f) args).eval.run.run env
      = match (evalAll args).run.run env with
        | (.ok vs, after) => (Eval.call (·.callNamed (Env.dotted path f) vs)).run.run after
        | (.error fault, after) => (.error fault, after) := by
  have hkeeps := changes_evalAll args env
  rw [Expr.eval, Eval.run_bind, howner]
  dsimp only
  rw [Eval.run_bind]
  rcases hrun : (evalAll args).run.run env with ⟨r, after⟩
  rw [hrun] at hkeeps
  cases r with
  | error fault => rfl
  | ok vs =>
    have hmember := Env.moduleMember_function (hkeeps.modules.trans hmodules) hf
    show (Eval.lift (after.moduleMember path f) >>= fun target =>
      Eval.call (·.callValue target vs)).run.run after = _
    rw [Eval.run_bind, Eval.run_lift, hmember]
    rfl

namespace Act

/-- **A call through a path of one or two names has the effect of a call statement.** -/
theorem run_assign_callText {h : Host σ} {w : World σ} {root f target : String}
    {names args : List String} {m : Module σ} {run : Native σ}
    (hnames : ∀ n ∈ root :: names, Line.IsName n.toList) (hshort : names.length ≤ 1)
    (hroot : root ∉ Expr.reserved)
    (hw : w.env.HoldsOnly (".".intercalate (root :: names)) root m)
    (hf : m.functions.get? f = some run) (hname : Line.IsName f.toList)
    (htarget : Line.IsName target.toList) (hreserved : target ∉ Expr.reserved)
    (hargs : ∀ a ∈ args, ∃ e, Expr.parse a = .ok e) :
    (perform h (.assign target
        (Expr.callText (Env.dotted (".".intercalate (root :: names)) f) args))).run.run w
      = (arguments args >>= callBound (Env.dotted (".".intercalate (root :: names)) f)
          target).run.run w := by
  obtain ⟨es, hes⟩ := exists_exprs hargs
  have htext := Expr.parse_memberCall hnames hroot hname hes
  have hplace : Expr.parse target = .ok (.name target) :=
    Expr.parse_render (.name htarget hreserved)
  have howner := Expr.run_eval_along (hnames root List.mem_cons_self) hw hshort
  have hcall := Expr.run_eval_call_path hw.modules hf howner es
  rw [perform, evalText, evalText_of_parse htext, parse, hplace, arguments_eq_evalAll hes,
    run_bind, run_bind, run_eval, run_eval, hcall]
  rcases (Expr.evalAll es).run.run w.env with ⟨r, env⟩
  cases r with
  | error fault => rfl
  | ok vs =>
    dsimp only
    rw [callBound, run_bind, run_eval]
    dsimp only [Eval.run_call]
    cases (env.callNamed (Env.dotted (".".intercalate (root :: names)) f) vs).1 <;> rfl

/-- Through a longer path nothing is called: the second name is no member of the first, and no
    argument is evaluated. -/
theorem run_assign_callText_deep {h : Host σ} {w : World σ} {root n n' f target : String}
    {names args : List String} {m : Module σ}
    (hnames : ∀ name ∈ root :: n :: n' :: names, Line.IsName name.toList)
    (hroot : root ∉ Expr.reserved)
    (hw : w.env.HoldsOnly (".".intercalate (root :: n :: n' :: names)) root m)
    (hname : Line.IsName f.toList) (hargs : ∀ a ∈ args, ∃ e, Expr.parse a = .ok e) :
    (perform h (.assign target (Expr.callText
        (Env.dotted (".".intercalate (root :: n :: n' :: names)) f) args))).run.run w
      = (.error (.type (.noMember root n)), w) := by
  obtain ⟨es, hes⟩ := exists_exprs hargs
  have htext := Expr.parse_memberCall hnames hroot hname hes
  have howner := Expr.run_eval_deep (hnames root List.mem_cons_self) hw
  rw [perform, evalText, evalText_of_parse htext, run_bind, run_eval, Expr.eval, Eval.run_bind,
    howner]

section

variable {w : World σ} {path f : String} {m : Module σ} {run : Native σ}

/-- The whole dotted name stands for the function, unless a variable of that name does for
    another. -/
theorem callee?_dotted (hmodules : w.env.modules = Table.empty.set path m)
    (hf : m.functions.get? f = some run) (hname : Line.IsName f.toList)
    (hfree : ∀ callee, w.env.get? (Env.dotted path f) ≠ some (.callable callee)) :
    w.env.callee? (Env.dotted path f) = some (Env.dotted path f) := by
  unfold Env.callee?
  split
  · next callee hget => exact absurd hget (hfree callee)
  · simp [Env.moduleFunction?_dotted hmodules hf hname]

/-- Unless the host has handed out something under the whole dotted name, the function of the module
    is called. -/
theorem run_arguments_callBound (hmodules : w.env.modules = Table.empty.set path m)
    (hf : m.functions.get? f = some run) (hname : Line.IsName f.toList)
    (hobject : w.env.objects.get? (Env.dotted path f) = none) (args : List String)
    (target : String) :
    (arguments args >>= callBound (Env.dotted path f) target).run.run w
      = (arguments args >>= callNative run target).run.run w := by
  have hkeeps := keepsHandouts_arguments args w
  rw [run_bind, run_bind]
  rcases hrun : (arguments args).run.run w with ⟨r, w'⟩
  rw [hrun] at hkeeps
  cases r with
  | error fault => rfl
  | ok vs =>
    have hfunction := Env.moduleFunction?_dotted (hkeeps.modules.trans hmodules) hf hname
    have hcall : w'.env.callNamed (Env.dotted path f) vs = w'.env.callNative run vs := by
      rw [Env.callNamed, hkeeps.objects, hobject]
      dsimp only
      rw [hfunction]
    dsimp only
    rw [callBound, callNative, run_bind, run_bind, run_eval, run_eval, Eval.run_call, Eval.run_call,
      hcall]

end

end Act

namespace Library

open Act (perform arguments callNative)
open Env (dotted)

/-- **A function of an imported module is reached both ways, if the path is short.** Once a path
    alone has been imported, `CALL p.f(args) → r` evaluates the arguments, calls `f` of the module
    with their values and binds the result, or ends in the first fault on the way, however long the
    path is. For a path of one or two names that expressions can spell, `Set r ← p.f(args)` has the
    same effect. For a longer one it never has: it stops at the second name, which is no member of
    the first, and calls nothing. All this lasts until another module is imported or the first name
    of the path is bound again. -/
theorem imported_calls_agree {l : Library μ π} {path root f target : String}
    {names args : List String} {m : Module μ} {run : Native μ} {w : World (State μ π)}
    (hl : l.WellNamed) (hpath : path = ".".intercalate (root :: names))
    (hnames : ∀ n ∈ root :: names, Line.IsName n.toList) (hm : l.modules.get? path = some m)
    (hf : m.functions.get? f = some run) (hname : Line.IsName f.toList)
    (hw : l.AfterImport path w)
    (hfree : ∀ callee, w.env.get? (dotted path f) ≠ some (.callable callee)) :
    (w.env.objects.get? (dotted path f) = none →
      (perform l.host (.call (dotted path f) args (some target))).run.run w
        = (arguments args >>= callNative (onMemory run) target).run.run w) ∧
    (names.length ≤ 1 → root ∉ Expr.reserved → Line.IsName target.toList →
      target ∉ Expr.reserved → (∀ a ∈ args, ∃ e, Expr.parse a = .ok e) →
      (perform l.host (.assign target (Expr.callText (dotted path f) args))).run.run w
        = (perform l.host (.call (dotted path f) args (some target))).run.run w) ∧
    (∀ n n' deeper, names = n :: n' :: deeper → root ∉ Expr.reserved →
      (∀ a ∈ args, ∃ e, Expr.parse a = .ok e) →
      (perform l.host (.assign target (Expr.callText (dotted path f) args))).run.run w
        = (.error (.type (.noMember root n)), w)) ∧
    ∀ s : Statement, (∀ name, s ≠ .importModule name) → root ∉ s.binds →
      l.AfterImport path ((perform l.host s).run.run w).2 := by
  obtain ⟨m', hm', hholds⟩ := hw.exists_module hl
  obtain rfl : m = m' := Option.some.inj (hm.symm.trans hm')
  have hf : (m.map (onMemory (π := π))).functions.get? f = some (onMemory run) := by
    simp [Module.map, Table.get?_map, hf]
  have hcall := Act.run_callInto (h := l.host)
    (Act.callee?_dotted hholds.modules hf hname hfree) args target
  have hroot : Act.rootOf path = root := by
    rw [hpath, Act.rootOf_path (hnames root List.mem_cons_self)]
  rw [hroot] at hholds
  refine ⟨?_, ?_, ?_, fun s himport hs => hw.perform himport (hroot ▸ hs)⟩
  · intro hobject
    exact hcall.trans (Act.run_arguments_callBound hholds.modules hf hname hobject args target)
  · intro hshort hreserved htarget hplace hargs
    refine Eq.trans ?_ hcall.symm
    subst hpath
    exact Act.run_assign_callText hnames hshort hreserved hholds hf hname htarget hplace hargs
  · rintro n n' deeper rfl hreserved hargs
    subst hpath
    exact Act.run_assign_callText_deep hnames hreserved hholds hname hargs

/-- A world with a list of two items in which a module of a library was imported. -/
def imported (l : Library Unit (List Value)) (path : String) : World (State Unit (List Value)) :=
  let start : World (State Unit (List Value)) :=
    { env := { vars := .ofList [("xs", .list [.int 1, .int 2])], host := { memory := () } } }
  ((Act.importModule l.host path).run.run start).2

theorem afterImport_imported :
    Demo.library.AfterImport "text.case" (imported Demo.library "text.case") ∧
      Demo.library.AfterImport "kit" (imported Demo.library "kit") :=
  ⟨⟨_, _, rfl, rfl, rfl, rfl⟩, ⟨_, _, rfl, rfl, rfl, rfl⟩⟩

theorem imported_calls_agree_shout :
    let w := imported Demo.library "text.case"
    let args := ["xs.pop()", "'a' + 'b'"]
    let call := (perform Demo.library.host (.call "text.case.shout" args (some "r"))).run.run w
    (∃ run, Demo.caseModule.functions.get? "shout" = some run ∧
        call = (arguments args >>= callNative (onMemory run) "r").run.run w) ∧
      (perform Demo.library.host
        (.assign "r" "text.case.shout(xs.pop(), 'a' + 'b')")).run.run w = call ∧
      (call.2.env.get? "r").map Value.display = some "2, AB" ∧
      Demo.library.AfterImport "text.case" call.2 := by
  have hpath : "text.case" = ".".intercalate ("text" :: ["case"]) := by decide
  have hnames : ∀ n ∈ "text" :: ["case"], Line.IsName n.toList := by decide
  have hmodule : Demo.library.modules.get? "text.case" = some Demo.caseModule := rfl
  have hname : Line.IsName "shout".toList := by decide
  have hobject :
      (imported Demo.library "text.case").env.objects.get? (dotted "text.case" "shout") = none :=
    rfl
  have hfree (callee : String) :
      (imported Demo.library "text.case").env.get? (dotted "text.case" "shout")
        ≠ some (.callable callee) :=
    nofun
  have hargs : ∀ a ∈ ["xs.pop()", "'a' + 'b'"], ∃ e, Expr.parse a = .ok e := by decide +kernel
  have htarget : Line.IsName "r".toList := by decide
  obtain ⟨hcall, hset, -, hlasts⟩ := imported_calls_agree Demo.wellNamed_library hpath hnames
    hmodule rfl hname afterImport_imported.1 hfree
  exact ⟨⟨_, rfl, hcall hobject⟩,
    hset (by decide) (by decide) htarget (by decide) hargs, by decide +kernel,
    hlasts _ nofun (by decide)⟩

/-- A library with a module that is two levels below names that are no modules. -/
def deepLibrary : Library Unit (List Value) :=
  Demo.library.withModule { Demo.kitModule with name := "a.b.c" }

/-- Where the two ways part. A path of three names is gone along by `CALL` and not by an expression,
    which finds no second name. Besides: an argument that is no expression is noticed when its turn
    comes, or before all others; a reserved word is bound, or no place; a variable with the whole
    dotted name is called instead, or not looked at; and a function that the host has handed out
    under that name is called in place of the one of the module. -/
theorem imported_calls_differ :
    let w := imported Demo.library "kit"
    let run := fun (w : World (State Unit (List Value))) (s : Statement) =>
      (perform Demo.library.host s).run.run w
    let shown := fun (r : Except Fault Unit × World (State Unit (List Value))) (name : String) =>
      (r.2.env.get? name).map Value.display
    (let w := imported deepLibrary "a.b.c"
     let call := (perform deepLibrary.host (.call "a.b.c.pair" ["1"] (some "r"))).run.run w
     let set := (perform deepLibrary.host (.assign "r" "a.b.c.pair(1)")).run.run w
     deepLibrary.AfterImport "a.b.c" w ∧
       call.1 = .ok () ∧ shown call "r" = some "[1]" ∧
       set.1 = .error (.type (.noMember "a" "b")) ∧ shown set "r" = none) ∧
      Demo.library.AfterImport "kit" w ∧
      (let call := run w (.call "kit.pair" ["xs.pop()", "99999999999999999999"] (some "r"))
       let set := run w (.assign "r" "kit.pair(xs.pop(), 99999999999999999999)")
       call.1 = .error (.expression "99999999999999999999" .integerRange) ∧
         set.1 = .error (.expression "kit.pair(xs.pop(), 99999999999999999999)" .integerRange) ∧
         shown call "xs" = some "[1]" ∧ shown set "xs" = some "[1, 2]") ∧
      (let call := run w (.call "kit.pair" ["1", "2"] (some "not"))
       let set := run w (.assign "not" "kit.pair(1, 2)")
       call.1 = .ok () ∧ set.1 = .error (.expression "not" .malformed)) ∧
      (let named := { w with env := w.env.set "kit.pair" (.callable "len") }
       let call := run named (.call "kit.pair" ["xs"] (some "r"))
       let set := run named (.assign "r" "kit.pair(xs)")
       shown call "r" = some "2" ∧ shown set "r" = some "[[1, 2]]") ∧
      (let l := Demo.library.withFunction "kit.pair" (.pure Demo.ping)
       let known := ((perform l.host (.call "kit.pair" [] none)).run.run
         { env := { host := { memory := () } } }).2
       let w := ((perform l.host (.importModule "kit")).run.run known).2
       l.AfterImport "kit" w ∧
         shown ((perform l.host (.call "kit.pair" ["1"] (some "r"))).run.run w) "r"
           = some "pong") := by
  refine ⟨⟨⟨_, _, rfl, rfl, rfl, rfl⟩, ?_⟩, afterImport_imported.2, ?_, ?_, ?_,
    ⟨_, _, rfl, rfl, rfl, rfl⟩, ?_⟩
  all_goals decide +kernel

end Library

end StepScript
