import StepScript.Host.Basic
import StepScript.Host.Mathematics

/-!
# Libraries

A host made from tables: modules, functions and classes, and pipelines for tasks. The functions may
share a memory. A pipeline is a state machine; every model loaded for a task is an instance of its
own, with its own state, and its handle is its place among the loaded ones.
-/

set_option autoImplicit false

namespace StepScript

variable {μ π : Type}

/-- A kind of model: its first state and what it does with input and data. -/
structure Pipeline (π : Type) where
  start : π
  predict : Value → π → Except HostFault Value × π
  train : Value → π → Except HostFault Unit × π := fun _ s =>
    (.error (.pipeline "pipeline" "training is not supported"), s)

/-- What a library offers: functions over a memory, and pipelines over states of their own. -/
structure Library (μ π : Type) where
  wording : Wording
  modules : Table (Module μ) :=
    .ofList [("math", Host.mathModule), ("statistics", Host.statisticsModule)]
  objects : Table (HostObject μ) := {}
  pipelines : Table (Pipeline π) := {}

namespace Library

/-! ## Building -/

/-- The library with one more module. -/
def withModule (l : Library μ π) (m : Module μ) : Library μ π :=
  { l with modules := l.modules.set m.name m }

/-- The library with one more function. -/
def withFunction (l : Library μ π) (name : String) (run : Native μ) : Library μ π :=
  { l with objects := l.objects.set name (.function run) }

/-- The library with one more class. -/
def withClass (l : Library μ π) (name : String) (run : Native μ) : Library μ π :=
  { l with objects := l.objects.set name (.maker run) }

/-- The library with one more kind of model. -/
def withPipeline (l : Library μ π) (task : String) (p : Pipeline π) : Library μ π :=
  { l with pipelines := l.pipelines.set task p }

/-! ## The host -/

/-- A loaded model: how it behaves and what state it is in. -/
structure Loaded (π : Type) where
  pipeline : Pipeline π
  state : π

/-- What a library remembers: the loaded models, the stated key, and what its functions remember. -/
structure State (μ π : Type) where
  loaded : List (Loaded π) := []
  apiKey : Option String := none
  memory : μ

/-- A function of the library as one of the host: it works on the memory alone. -/
def onMemory (run : Native μ) : Native (State μ π) := fun args s =>
  let (result, memory) := run args s.memory
  (result, { s with memory })

/-- A request to one loaded model, which is the only one that changes. -/
def withModel {α : Type} (model : ModelHandle) (s : State μ π)
    (f : Loaded π → Except HostFault α × π) : Except HostFault α × State μ π :=
  match s.loaded[model.id]? with
  | none => (.error (.unknownModel model.task), s)
  | some m =>
    let (result, state) := f m
    (result, { s with loaded := s.loaded.set model.id { m with state } })

/-- The host that answers from a library. -/
def host (l : Library μ π) : Host (State μ π) where
  wording := l.wording
  importModule name s :=
    match l.modules.get? name with
    | some m => (.ok (m.map onMemory), s)
    | none => (.error (.moduleNotFound name), s)
  resolve name s := ((l.objects.get? name).map fun object => object.map onMemory, s)
  loadModel task s :=
    match l.pipelines.get? task with
    | some p =>
      (.ok ⟨s.loaded.length, task⟩, { s with loaded := s.loaded ++ [⟨p, p.start⟩] })
    | none => (.error (.unknownModel task), s)
  predict model input s := withModel model s fun m => m.pipeline.predict input m.state
  train model data s := withModel model s fun m => m.pipeline.train data m.state
  setApiKey key s := { s with apiKey := some key }

/-- The library with the standard modules and nothing else. -/
def standard (wording : Wording) : Library Unit Unit :=
  { wording }

end Library

end StepScript
