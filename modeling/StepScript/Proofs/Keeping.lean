import Mathlib.Order.Defs.Unbundled
import StepScript.Fault

/-!
# What computations keep

A computation over a state ends in a value or a fault and leaves a state, whatever the state is: an
environment, a world, a machine, or the list or dictionary that a method works on. `Keeps` relates
the states before and after, however the computation ends; `Atomic` does so after a fault only, and
`Total` says that there is none. The rules follow the shape of the statements of the language: first
come evaluations, each of which may end in a fault, then changes, which cannot.
-/

set_option autoImplicit false

namespace StepScript

variable {α β S : Type} {R R' : S → S → Prop}

/-! ## Computations that keep a relation -/

/-- However the computation ends, the state it leaves is related to the one it started from. -/
def Keeps (R : S → S → Prop) (a : ExceptT Fault (StateM S) α) : Prop :=
  ∀ s, R s (a.run.run s).2

theorem keeps_pure [Std.Refl R] (x : α) : Keeps R (pure x : ExceptT Fault (StateM S) α) :=
  fun s => Std.Refl.refl s

/-- A result that is there from the start, whatever it is. -/
theorem keeps_result [Std.Refl R] (r : Except Fault α) :
    Keeps R (ExceptT.mk (pure r) : ExceptT Fault (StateM S) α) :=
  fun s => Std.Refl.refl s

theorem keeps_get [Std.Refl R] : Keeps R (get : ExceptT Fault (StateM S) S) :=
  fun s => Std.Refl.refl s

theorem Keeps.imp {a : ExceptT Fault (StateM S) α} (ha : Keeps R a)
    (hR : ∀ {s s'}, R s s' → R' s s') : Keeps R' a :=
  fun s => hR (ha s)

theorem Keeps.of_run {a : ExceptT Fault (StateM S) α} (ha : Keeps R a) {s s' : S}
    {r : Except Fault α} (hrun : a.run.run s = (r, s')) : R s s' := by
  have hs := ha s
  rwa [hrun] at hs

theorem Keeps.bind [Trans R R R] {a : ExceptT Fault (StateM S) α}
    {f : α → ExceptT Fault (StateM S) β} (ha : Keeps R a) (hf : ∀ x, Keeps R (f x)) :
    Keeps R (a >>= f) := by
  intro s
  have hfirst := ha s
  simp only [ExceptT.run_bind, StateT.run_bind]
  rcases hrun : a.run.run s with ⟨r, mid⟩
  rw [hrun] at hfirst
  cases r with
  | ok x => exact Trans.trans hfirst (hf x mid)
  | error fault => exact hfirst

/-- What a computation keeps, its beginning keeps when the rest does not touch the state. -/
theorem Keeps.of_bind {a : ExceptT Fault (StateM S) α} {f : α → ExceptT Fault (StateM S) β}
    (h : Keeps R (a >>= f)) (hf : ∀ x s, ((f x).run.run s).2 = s) : Keeps R a := by
  intro s
  have hwhole := h s
  simp only [ExceptT.run_bind, StateT.run_bind] at hwhole
  rcases hrun : a.run.run s with ⟨r, mid⟩
  rw [hrun] at hwhole
  cases r with
  | ok x =>
    have hrest := hf x mid
    exact hrest ▸ hwhole
  | error fault => exact hwhole

/-! ## Computations that keep it when they fail -/

/-- A fault of the computation leaves a state that is related to the one it started from. -/
def Atomic (R : S → S → Prop) (a : ExceptT Fault (StateM S) α) : Prop :=
  ∀ s fault s', a.run.run s = (.error fault, s') → R s s'

/-- The computation never ends in a fault. -/
def Total (a : ExceptT Fault (StateM S) α) : Prop :=
  ∀ s fault s', a.run.run s ≠ (.error fault, s')

theorem Keeps.atomic {a : ExceptT Fault (StateM S) α} (ha : Keeps R a) : Atomic R a :=
  fun _ _ _ hrun => ha.of_run hrun

theorem Atomic.imp {a : ExceptT Fault (StateM S) α} (ha : Atomic R a)
    (hR : ∀ {s s'}, R s s' → R' s s') : Atomic R' a :=
  fun s fault s' hrun => hR (ha s fault s' hrun)

theorem Total.atomic {a : ExceptT Fault (StateM S) α} (ha : Total a) : Atomic R a :=
  fun s fault s' hrun => absurd hrun (ha s fault s')

/-- What comes before the last part that may end in a fault must keep the state. -/
theorem Atomic.bind [Trans R R R] {a : ExceptT Fault (StateM S) α}
    {f : α → ExceptT Fault (StateM S) β} (ha : Keeps R a) (hf : ∀ x, Atomic R (f x)) :
    Atomic R (a >>= f) := by
  intro s fault s' hrun
  have hfirst := ha s
  simp only [ExceptT.run_bind, StateT.run_bind] at hrun
  rcases hmid : a.run.run s with ⟨r, mid⟩
  rw [hmid] at hrun hfirst
  cases r with
  | ok x => exact Trans.trans hfirst (hf x mid fault s' hrun)
  | error cause =>
    cases hrun
    exact hfirst

/-- What comes after the last part that may end in a fault may do anything. -/
theorem Atomic.andThen {a : ExceptT Fault (StateM S) α} {f : α → ExceptT Fault (StateM S) β}
    (ha : Atomic R a) (hf : ∀ x, Total (f x)) : Atomic R (a >>= f) := by
  intro s fault s' hrun
  simp only [ExceptT.run_bind, StateT.run_bind] at hrun
  rcases hmid : a.run.run s with ⟨r, mid⟩
  rw [hmid] at hrun
  cases r with
  | ok x => exact absurd hrun (hf x mid fault s')
  | error cause =>
    cases hrun
    exact ha s _ _ hmid

theorem total_pure (x : α) : Total (pure x : ExceptT Fault (StateM S) α) := by
  intro s fault s' hrun
  cases congrArg Prod.fst hrun

theorem total_set (s : S) : Total (set s : ExceptT Fault (StateM S) PUnit) := by
  intro _ fault s' hrun
  cases congrArg Prod.fst hrun

theorem total_modify (f : S → S) : Total (modify f : ExceptT Fault (StateM S) PUnit) := by
  intro s fault s' hrun
  cases congrArg Prod.fst hrun

theorem Total.bind {a : ExceptT Fault (StateM S) α} {f : α → ExceptT Fault (StateM S) β}
    (ha : Total a) (hf : ∀ x, Total (f x)) : Total (a >>= f) := by
  intro s fault s' hrun
  simp only [ExceptT.run_bind, StateT.run_bind] at hrun
  rcases hmid : a.run.run s with ⟨r, mid⟩
  rw [hmid] at hrun
  cases r with
  | ok x => exact hf x mid fault s' hrun
  | error cause => exact ha s cause mid hmid

end StepScript
