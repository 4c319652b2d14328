import StepScript.Proofs.Callables
import StepScript.Proofs.Imports
import StepScript.Proofs.Readable

/-!
# What the name of a function denotes

A function in a value is a name, and what is called is found when the name is called: a function or
class that the host has handed out, else a function of an imported module, else a built-in function
(`Env.denoted?`, `Env.callNamed_eq`). A name that denotes something is never undefined.

What the host hands out only grows while a program runs, and no name that denotes something comes to
denote something else: a new function or class is handed out under a name that denotes nothing, and
a module that is imported again is the same one (`Env.Grows`).

The functions of the host may be asked to make no functions of their own (`MakeNoFunctions`), as
long as what the host remembers has some property that they keep. What a call of anything denoted
gives then holds no other functions than its arguments do.
-/

set_option autoImplicit false

namespace StepScript

open Value (CallsOnly Within)

variable {σ : Type}

/-! ## Denotations -/

/-- What is called by a name. -/
inductive Callee (σ : Type) where
  | handout (object : HostObject σ)
  | member (run : Native σ)
  | builtin (b : Builtin)

/-- A function of the host called in a state of the host. -/
def Native.hostedCall (run : Native σ) (args : List Value) (s : σ) : Except Fault Value × σ :=
  (hosted (run args s).1, (run args s).2)

/-- What is denoted, called in a state of the host. -/
def Callee.call : Callee σ → List Value → σ → Except Fault Value × σ
  | .handout object, args, s => object.run.hostedCall args s
  | .member run, args, s => run.hostedCall args s
  | .builtin b, args, s => (b.call args, s)

theorem Callee.call_ne_undefined (d : Callee σ) (args : List Value) (s : σ)
    (name : String) : (d.call args s).1 ≠ .error (.undefined name) := by
  have hhosted (r : Except HostFault Value) : hosted r ≠ .error (.undefined name) := by
    cases r <;> simp [hosted]
  cases d with
  | handout object => exact hhosted _
  | member run => exact hhosted _
  | builtin b =>
    intro h
    have hlayer : Fault.layer (.undefined name) ≤ 0 := b.faultsUpTo_call args _ h
    simp at hlayer

namespace Env

/-- What a name denotes: something that the host has handed out, else a function of an imported
    module, else a built-in function. -/
def denoted? (env : Env σ) (name : String) : Option (Callee σ) :=
  ((env.objects.get? name).map .handout).or
    (((env.moduleFunction? name).map .member).or ((Builtin.ofName? name).map .builtin))

/-- The name denotes something. -/
def Denotes (env : Env σ) (name : String) : Prop :=
  ∃ d, env.denoted? name = some d

section

variable {env mid after : Env σ} {name : String}

/-- **Calling a name is calling what it denotes.** -/
theorem callNamed_eq (env : Env σ) (name : String) (args : List Value) :
    env.callNamed name args = match env.denoted? name with
      | some d => d.call args env.host
      | none => (.error (.undefined name), env.host) := by
  unfold callNamed denoted?
  cases env.objects.get? name with
  | some object => rfl
  | none =>
    cases env.moduleFunction? name with
    | some run => rfl
    | none => cases Builtin.ofName? name <;> rfl

theorem denoted?_eq_none_iff :
    env.denoted? name = none ↔ env.objects.get? name = none ∧ env.moduleFunction? name = none ∧
      Builtin.ofName? name = none := by
  simp [denoted?]

theorem denotes_iff : env.Denotes name ↔ (env.objects.get? name).isSome = true ∨
    (env.moduleFunction? name).isSome = true ∨ (Builtin.ofName? name).isSome = true := by
  rw [Denotes, ← Option.isSome_iff_exists]
  simp [denoted?]

theorem SameHandouts.denoted?_eq (h : env.SameHandouts after) (name : String) :
    after.denoted? name = env.denoted? name := by
  rw [denoted?, denoted?, moduleFunction?, moduleFunction?, h.objects, h.modules]

/-! ## Growth -/

/-- What a name denotes it denotes afterwards. -/
def Grows (env after : Env σ) : Prop :=
  ∀ name d, env.denoted? name = some d → after.denoted? name = some d

theorem Grows.refl (env : Env σ) : env.Grows env :=
  fun _ _ h => h

theorem Grows.trans (h₁ : env.Grows mid) (h₂ : mid.Grows after) : env.Grows after :=
  fun name d h => h₂ name d (h₁ name d h)

theorem Grows.denotes (h : env.Grows after) (hname : env.Denotes name) : after.Denotes name :=
  hname.imp fun _ hd => h name _ hd

theorem SameHandouts.grows (h : env.SameHandouts after) : env.Grows after :=
  fun name _ hd => (h.denoted?_eq name).trans hd

/-- Something new is handed out under a name that denotes nothing. -/
theorem grows_register (h : env.denoted? name = none) (object : HostObject σ) :
    env.Grows (env.register name object) := by
  intro other d hd
  have hne : name ≠ other := by
    rintro rfl
    rw [h] at hd
    cases hd
  have hobjects : (env.register name object).objects.get? other = env.objects.get? other :=
    Table.get?_set_of_ne _ _ hne
  have hmodules : (env.register name object).moduleFunction? other
      = env.moduleFunction? other := rfl
  rw [denoted?, hobjects, hmodules]
  exact hd

/-- No built-in function has a dotted name. -/
theorem ofName?_of_undotted? {owner member : String} (h : undotted? name = some (owner, member)) :
    Builtin.ofName? name = none := by
  cases hname : Builtin.ofName? name with
  | none => rfl
  | some b =>
    have hb : b.name = name := by simpa using List.find?_some hname
    rw [← hb] at h
    cases b <;> cases h

/-- A module comes in where there is none of its name, or the same one again. -/
theorem grows_addModule {m : Module σ} (h : ∀ m', env.modules.get? m.name = some m' → m' = m) :
    env.Grows (env.addModule m) := by
  intro name d hd
  cases hundotted : undotted? name with
  | none =>
    have hnone (env : Env σ) : env.moduleFunction? name = none := by
      rw [moduleFunction?, hundotted]
    rw [denoted?, hnone] at hd ⊢
    exact hd
  | some path =>
    obtain ⟨owner, member⟩ := path
    have hfunction (env : Env σ) : env.moduleFunction? name
        = (env.modules.get? owner).bind fun m => m.functions.get? member := by
      rw [moduleFunction?, hundotted]
    by_cases howner : m.name = owner
    · subst howner
      rw [denoted?, ofName?_of_undotted? hundotted, hfunction] at hd ⊢
      have hget : (env.addModule m).modules.get? m.name = some m := Table.get?_set_self _ _ _
      rw [hget]
      cases hm : env.modules.get? m.name with
      | none =>
        -- Only something handed out can have had the name before.
        rw [hm] at hd
        have hobject : (env.objects.get? name).map Callee.handout = some d := by simpa using hd
        rw [addModule, hobject]
        rfl
      | some m' =>
        obtain rfl := h m' hm
        rwa [hm] at hd
    · have hget : (env.addModule m).modules.get? owner = env.modules.get? owner :=
        Table.get?_set_of_ne _ _ howner
      rw [denoted?, hfunction] at hd ⊢
      rwa [hget]

end

end Env

/-! ## Functions of the host -/

/-- No function is inside of the value. -/
def Value.IsFunctionFree (v : Value) : Prop :=
  ∀ n, ¬ Within (.callable n) v

instance (v : Value) : Decidable v.IsFunctionFree :=
  inferInstanceAs (Decidable (v.CallsOnly fun _ => False))

/-- From a state of the host with the property `P` on, a call ends in one with it, and the functions
    inside of its result come from the arguments. -/
def Native.MakesNoFunctions (P : σ → Prop) (run : Native σ) : Prop :=
  ∀ args s, P s → P (run args s).2 ∧
    ∀ v, (run args s).1 = .ok v → ∀ n, Within (.callable n) v → ∃ a ∈ args, Within (.callable n) a

/-- Things that the host hands out make no functions, and no constants hold any. -/
structure MakeNoFunctions (P : σ → Prop) (objects : Table (HostObject σ))
    (modules : Table (Module σ)) : Prop where
  of_object : ∀ name object, objects.get? name = some object →
    Native.MakesNoFunctions P object.run
  of_function : ∀ name m, modules.get? name = some m → ∀ f run, m.functions.get? f = some run →
    Native.MakesNoFunctions P run
  of_constant : ∀ name m, modules.get? name = some m → ∀ c v, m.constants.get? c = some v →
    v.IsFunctionFree

section

variable {P : σ → Prop} {known : String → Prop} {env : Env σ} {args : List Value} {s : σ}

/-- Of a function that remembers nothing it is enough that there are none in the results. -/
theorem Native.makesNoFunctions_of_yields {f : List Value → Except HostFault Value}
    (h : ∀ args, Yields (CallsOnly fun _ => False) (f args)) :
    Native.MakesNoFunctions P (.pure f) :=
  fun args _ hs => ⟨hs, fun v hv n hn => absurd hn (h args v hv n)⟩

theorem Native.MakesNoFunctions.hostedCall {run : Native σ} (h : Native.MakesNoFunctions P run)
    (hargs : ∀ a ∈ args, a.CallsOnly known) (hs : P s) :
    P (run.hostedCall args s).2 ∧ Yields (CallsOnly known) (run.hostedCall args s).1 := by
  obtain ⟨hkept, hgiven⟩ := h args s hs
  refine ⟨hkept, yields_hosted.2 fun v hv n hn => ?_⟩
  obtain ⟨a, ha, hn⟩ := hgiven v hv n hn
  exact hargs a ha n hn

theorem MakeNoFunctions.call {name : String} {d : Callee σ}
    (h : MakeNoFunctions P env.objects env.modules) (hd : env.denoted? name = some d)
    (hargs : ∀ a ∈ args, a.CallsOnly known) (hs : P s) :
    P (d.call args s).2 ∧ Yields (CallsOnly known) (d.call args s).1 := by
  cases d with
  | handout object =>
    have hobject : env.objects.get? name = some object := by
      simpa [Env.denoted?, Option.or_eq_some_iff] using hd
    exact (h.of_object name object hobject).hostedCall hargs hs
  | member run =>
    obtain ⟨-, hrun⟩ : env.objects.get? name = none ∧ env.moduleFunction? name = some run := by
      simpa [Env.denoted?, Option.or_eq_some_iff] using hd
    unfold Env.moduleFunction? at hrun
    split at hrun
    · next owner member _ =>
      obtain ⟨m, hm, hf⟩ := Option.bind_eq_some_iff.1 hrun
      exact (h.of_function owner m hm member run hf).hostedCall hargs hs
    · cases hrun
  | builtin b => exact ⟨hs, Builtin.yields_call hargs b⟩

theorem MakeNoFunctions.callNamed (h : MakeNoFunctions P env.objects env.modules)
    (name : String) (hargs : ∀ a ∈ args, a.CallsOnly known) (hhost : P env.host) :
    P (env.callNamed name args).2 ∧ Yields (CallsOnly known) (env.callNamed name args).1 := by
  rw [Env.callNamed_eq]
  cases hd : env.denoted? name with
  | none => exact ⟨hhost, yields_error _⟩
  | some d => exact h.call hd hargs hhost

end

end StepScript
