import StepScript.Host.Demo

/-!
# Isolation of loaded models

Every model that a library loads is an instance of its own. A request for one model reaches the
state of this model and of no other, and loading puts a model behind those that are there. So a
handle stays valid, and the model that it stands for goes through what is asked of this handle and
nothing else, as its pipeline would do alone (`journal_of_loaded`). What is asked of other models
makes no difference to it, nor to the handles that are given out (`journal_of_trims`).

Requests come in any order and for any number of models, and they may fail: what is asked of a
handle that stands for nothing is refused, and it changes nothing.
-/

set_option autoImplicit false

namespace StepScript

variable {σ μ π α β : Type}

/-! ## Requests -/

namespace Host

/-- What is asked of a model. -/
inductive Use where
  | predict (input : Value)
  | train (data : Value)

/-- What is asked of a host that has to do with models. -/
inductive Request where
  | load (task : String)
  | use (model : ModelHandle) (u : Use)

/-- What a host answers. -/
inductive Answer where
  | loaded (r : Except HostFault ModelHandle)
  | predicted (r : Except HostFault Value)
  | trained (r : Except HostFault Unit)

/-- The answer when a handle stands for nothing. -/
def Use.refused (model : ModelHandle) : Use → Answer
  | .predict _ => .predicted (.error (.unknownModel model.task))
  | .train _ => .trained (.error (.unknownModel model.task))

/-- The answer of a host to a request, and what it leaves. -/
def answer (h : Host σ) : Request → σ → Answer × σ
  | .load task, s => (h.loadModel task s).map .loaded id
  | .use model (.predict input), s => (h.predict model input s).map .predicted id
  | .use model (.train data), s => (h.train model data s).map .trained id

namespace Request

/-- What a request asks of the model with a number. -/
def useOf? (id : Nat) : Request → Option Use
  | .load _ => none
  | .use model u => if model.id = id then some u else none

/-- The request loads a model, or it asks something of the model with a number. -/
def concerns (id : Nat) : Request → Bool
  | .load _ => true
  | .use model _ => model.id = id

theorem useOf?_eq_some_iff {id : Nat} {r : Request} {u : Use} :
    r.useOf? id = some u ↔ ∃ model : ModelHandle, model.id = id ∧ r = .use model u := by
  rcases r with task | ⟨model, v⟩
  · simp [useOf?]
  · simp only [useOf?, Option.ite_none_right_eq_some, Option.some.injEq, use.injEq]
    constructor
    · rintro ⟨hid, rfl⟩
      exact ⟨model, hid, rfl, rfl⟩
    · rintro ⟨_, hid, rfl, rfl⟩
      exact ⟨hid, rfl⟩

end Request

/-- A list of requests with some of those left out that ask something of other models. -/
inductive Trims (id : Nat) : (requests trimmed : List Request) → Prop where
  | nil : Trims id [] []
  | keep (r : Request) {requests trimmed : List Request} (h : Trims id requests trimmed) :
      Trims id (r :: requests) (r :: trimmed)
  | drop (model : ModelHandle) (u : Use) (hother : model.id ≠ id)
      {requests trimmed : List Request} (h : Trims id requests trimmed) :
      Trims id (.use model u :: requests) trimmed

/-! ## Journals -/

/-- What is left after requests that are answered one after another. -/
def after (answer : α → σ → β × σ) : List α → σ → σ
  | [], s => s
  | r :: rs, s => after answer rs (answer r s).2

/-- Requests with their answers, one after another. -/
def journal (answer : α → σ → β × σ) : List α → σ → List (α × β)
  | [], _ => []
  | r :: rs, s => (r, (answer r s).1) :: journal answer rs (answer r s).2

theorem after_append (answer : α → σ → β × σ) (first second : List α) (s : σ) :
    after answer (first ++ second) s = after answer second (after answer first s) := by
  induction first generalizing s with
  | nil => rfl
  | cons r first ih => exact ih _

/-- The entry of a journal says what was asked of the model with a number, and the answer. -/
def entryOf? (id : Nat) (e : Request × Answer) : Option (Use × Answer) :=
  (e.1.useOf? id).map fun u => (u, e.2)

/-- The handle that an entry of a journal gives out. -/
def handleOf? : Request × Answer → Option ModelHandle
  | (_, .loaded (.ok model)) => some model
  | _ => none

end Host

/-! ## Pipelines alone -/

/-- The answer of a pipeline in a state, and the state after it. -/
def Pipeline.answer (p : Pipeline π) : Host.Use → π → Host.Answer × π
  | .predict input, s => (p.predict input s).map .predicted id
  | .train data, s => (p.train data s).map .trained id

namespace Library

open Host

/-- A loaded model after requests to it and to no other. -/
def Loaded.run (m : Loaded π) (uses : List Use) : Loaded π :=
  { m with state := after m.pipeline.answer uses m.state }

variable {l : Library μ π} {s : State μ π} {m : Loaded π} {id : Nat} {requests : List Request}

/-! ## One request -/

/-- A model that is loaded comes last, and its handle is its place. -/
theorem answer_load_some {p : Pipeline π} {task : String} (h : l.pipelines.get? task = some p) :
    l.host.answer (.load task) s
      = (.loaded (.ok ⟨s.loaded.length, task⟩),
          { s with loaded := s.loaded ++ [⟨p, p.start⟩] }) := by
  simp [Host.answer, host, h]

theorem answer_load_none {task : String} (h : l.pipelines.get? task = none) :
    l.host.answer (.load task) s = (.loaded (.error (.unknownModel task)), s) := by
  simp [Host.answer, host, h]

/-- A handle that is given out stands for a new instance of the pipeline of the task. -/
theorem loaded_of_answer_load {task : String} {model : ModelHandle}
    (h : (l.host.answer (.load task) s).1 = .loaded (.ok model)) :
    ∃ p : Pipeline π, l.pipelines.get? task = some p ∧ model.task = task ∧
      (l.host.answer (.load task) s).2.loaded[model.id]? = some ⟨p, p.start⟩ := by
  rcases hp : l.pipelines.get? task with _ | p
  · simp [answer_load_none hp] at h
  · rw [answer_load_some hp] at h ⊢
    obtain rfl : ⟨s.loaded.length, task⟩ = model := by simpa using h
    exact ⟨p, rfl, rfl, List.getElem?_concat_length⟩

/-- What is asked of a loaded model is answered by its pipeline and leaves its state changed. -/
theorem answer_use_some {model : ModelHandle} (h : s.loaded[model.id]? = some m) (u : Use) :
    l.host.answer (.use model u) s
      = ((m.pipeline.answer u m.state).1,
          { s with loaded := s.loaded.set model.id (m.run [u]) }) := by
  cases u <;> simp [Host.answer, Pipeline.answer, Loaded.run, after, host, withModel, h]

/-- What is asked of a handle that stands for nothing is refused and changes nothing. -/
theorem answer_use_none {model : ModelHandle} (h : s.loaded[model.id]? = none) (u : Use) :
    l.host.answer (.use model u) s = (u.refused model, s) := by
  cases u <;> simp [Host.answer, Use.refused, host, withModel, h]

theorem length_loaded_answer_use (model : ModelHandle) (u : Use) :
    (l.host.answer (.use model u) s).2.loaded.length = s.loaded.length := by
  rcases hm : s.loaded[model.id]? with _ | m
  · rw [answer_use_none hm]
  · rw [answer_use_some hm]
    exact List.length_set

theorem handleOf?_answer_use (model : ModelHandle) (u : Use) :
    handleOf? (.use model u, (l.host.answer (.use model u) s).1) = none := by
  cases u <;> rfl

/-- What is asked of one model does not reach another one. -/
theorem loaded_answer_use_of_ne {model : ModelHandle} (hother : model.id ≠ id) (u : Use) :
    (l.host.answer (.use model u) s).2.loaded[id]? = s.loaded[id]? := by
  rcases hm : s.loaded[model.id]? with _ | m
  · rw [answer_use_none hm]
  · rw [answer_use_some hm]
    exact List.getElem?_set_ne hother

/-- A loaded model answers what is asked of it, and is in its next state then. -/
theorem answer_of_useOf?_eq_some {r : Request} {u : Use} (hu : r.useOf? id = some u)
    (hm : s.loaded[id]? = some m) :
    (l.host.answer r s).1 = (m.pipeline.answer u m.state).1 ∧
      (l.host.answer r s).2.loaded[id]? = some (m.run [u]) := by
  obtain ⟨model, rfl, rfl⟩ := Request.useOf?_eq_some_iff.mp hu
  have hlt : model.id < s.loaded.length := (List.getElem?_eq_some_iff.mp hm).1
  rw [answer_use_some hm]
  exact ⟨rfl, List.getElem?_set_self hlt⟩

/-- A loaded model stays as it is when nothing is asked of it. -/
theorem loaded_answer_of_useOf?_eq_none {r : Request} (hu : r.useOf? id = none)
    (hm : s.loaded[id]? = some m) : (l.host.answer r s).2.loaded[id]? = some m := by
  rcases r with task | ⟨model, u⟩
  · rcases hp : l.pipelines.get? task with _ | p
    · rw [answer_load_none hp]
      exact hm
    · rw [answer_load_some hp]
      exact List.getElem?_append_left (List.getElem?_eq_some_iff.mp hm).1 ▸ hm
  · have hother : model.id ≠ id := fun h => by simp [Request.useOf?, h] at hu
    rw [loaded_answer_use_of_ne hother]
    exact hm

/-! ## One model through a run -/

/-- **A loaded model goes its own way.** Whatever is asked of a library, the journal has for the
    model with a number what its pipeline alone answers to what is asked of this model, and the
    model is left in the state that its pipeline alone would be in. -/
theorem journal_of_loaded (requests : List Request) (hm : s.loaded[id]? = some m) :
    (journal l.host.answer requests s).filterMap (entryOf? id)
        = journal m.pipeline.answer (requests.filterMap (Request.useOf? id)) m.state ∧
      (after l.host.answer requests s).loaded[id]?
        = some (m.run (requests.filterMap (Request.useOf? id))) := by
  induction requests generalizing s m with
  | nil => exact ⟨rfl, hm⟩
  | cons r requests ih =>
    rcases hu : r.useOf? id with _ | u
    · have hnext := ih (loaded_answer_of_useOf?_eq_none (l := l) hu hm)
      simpa [journal, after, entryOf?, hu] using hnext
    · obtain ⟨hanswer, hloaded⟩ := answer_of_useOf?_eq_some (l := l) hu hm
      have hnext := ih hloaded
      simpa [journal, after, entryOf?, Loaded.run, hu, hanswer] using hnext

/-- The handles that are given out are numbered one after another. -/
theorem handles_journal (requests : List Request) (s : State μ π) :
    ((journal l.host.answer requests s).filterMap handleOf?).map ModelHandle.id
      = List.range' s.loaded.length
          ((journal l.host.answer requests s).filterMap handleOf?).length := by
  induction requests generalizing s with
  | nil => rfl
  | cons r requests ih =>
    have hnext := ih (l.host.answer r s).2
    rcases r with task | ⟨model, u⟩
    · rcases hp : l.pipelines.get? task with _ | p
      · rw [answer_load_none hp] at hnext
        simpa [journal, List.filterMap_cons, handleOf?, answer_load_none hp] using hnext
      · rw [answer_load_some hp] at hnext
        simpa [journal, List.filterMap_cons, handleOf?, answer_load_some hp, List.range'_succ]
          using hnext
    · rw [length_loaded_answer_use] at hnext
      simpa [journal, List.filterMap_cons, handleOf?_answer_use] using hnext

/-! ## Two runs -/

/-- Two states have equally many models, and the same model with a number. -/
structure AgreeAt (id : Nat) (s t : State μ π) : Prop where
  length : s.loaded.length = t.loaded.length
  loaded : s.loaded[id]? = t.loaded[id]?

/-- What is asked of another model makes no difference that shows at a number. -/
theorem AgreeAt.answer_other {t : State μ π} (h : AgreeAt id s t) {model : ModelHandle}
    (hother : model.id ≠ id) (u : Use) : AgreeAt id (l.host.answer (.use model u) s).2 t where
  length := by rw [length_loaded_answer_use, h.length]
  loaded := by rw [loaded_answer_use_of_ne hother, h.loaded]

theorem AgreeAt.symm {t : State μ π} (h : AgreeAt id s t) : AgreeAt id t s :=
  ⟨h.length.symm, h.loaded.symm⟩

/-- The same request keeps the agreement of two states, and where it has to do with the number it
    has one answer in both. -/
theorem AgreeAt.answer {t : State μ π} (h : AgreeAt id s t) (r : Request) :
    AgreeAt id (l.host.answer r s).2 (l.host.answer r t).2 ∧
      (r.concerns id → (l.host.answer r s).1 = (l.host.answer r t).1) := by
  rcases r with task | ⟨model, u⟩
  · rcases hp : l.pipelines.get? task with _ | p
    · rw [answer_load_none hp, answer_load_none hp]
      exact ⟨h, fun _ => rfl⟩
    · rw [answer_load_some hp, answer_load_some hp, h.length]
      refine ⟨⟨?_, ?_⟩, fun _ => rfl⟩
      · simp [h.length]
      · simp [List.getElem?_append, h.length, h.loaded]
  · by_cases hid : model.id = id
    · subst hid
      rcases hm : s.loaded[model.id]? with _ | m
      · rw [answer_use_none hm, answer_use_none (h.loaded ▸ hm)]
        exact ⟨h, fun _ => rfl⟩
      · rw [answer_use_some hm, answer_use_some (h.loaded ▸ hm)]
        refine ⟨⟨?_, ?_⟩, fun _ => rfl⟩
        · simp [h.length]
        · simp [List.getElem?_set, h.length]
    · -- Each state may change, at a model that the number does not stand for.
      refine ⟨((h.answer_other hid u).symm.answer_other hid u).symm, fun hc => ?_⟩
      exact absurd (of_decide_eq_true hc) hid

/-- **Requests to other models make no difference.** Without some of them, all that has to do with
    a number is answered as before: every load, and every request to the model with the number. -/
theorem journal_of_trims {trimmed : List Request} (htrims : Trims id requests trimmed)
    {t : State μ π} (h : AgreeAt id s t) :
    (journal l.host.answer trimmed t).filter (fun e => e.1.concerns id)
      = (journal l.host.answer requests s).filter (fun e => e.1.concerns id) := by
  -- The states of the two runs part at each request left out, but they go on agreeing.
  induction htrims generalizing s t with
  | nil => rfl
  | keep r _ ih =>
    obtain ⟨hnext, hanswer⟩ := h.answer (l := l) r
    by_cases hc : r.concerns id
    · simp [journal, hc, hanswer hc, ih hnext]
    · simp [journal, hc, ih hnext]
  | drop model u hother _ ih =>
    have hc : (Request.use model u).concerns id = false := decide_eq_false hother
    simpa [journal, hc] using ih (h.answer_other hother u)

/-! ## Isolation -/

/-- A counter is asked for its count. -/
def askCounter (id : Nat) : Request :=
  .use ⟨id, "counter"⟩ (.predict .nothing)

/-- **Loaded models are isolated.** Let a library be asked for anything in any order, and let it
    give out a handle on the way. From there on the handle stands for an instance of its own of the
    pipeline of the task: it is in the state that the pipeline alone would be in after what was
    asked of this handle, and the answers to that are those of the pipeline alone. No two handles
    that are given out have the same number, also when they are for one task. And without some of
    the requests to other handles, wherever they stand, what is asked of this one is answered as
    before, and the library gives out the same handles. -/
theorem models_isolated (l : Library μ π) (s : State μ π) (before later : List Request)
    (task : String) (model : ModelHandle)
    (hload : (l.host.answer (.load task) (after l.host.answer before s)).1 = .loaded (.ok model)) :
    (∃ p : Pipeline π, l.pipelines.get? task = some p ∧ model.task = task ∧
      (after l.host.answer (before ++ .load task :: later) s).loaded[model.id]?
        = some ⟨p, after p.answer (later.filterMap (Request.useOf? model.id)) p.start⟩ ∧
      (journal l.host.answer later
          (after l.host.answer (before ++ [.load task]) s)).filterMap (entryOf? model.id)
        = journal p.answer (later.filterMap (Request.useOf? model.id)) p.start) ∧
    (((journal l.host.answer (before ++ .load task :: later) s).filterMap handleOf?).map
      ModelHandle.id).Nodup ∧
    ∀ trimmed, Trims model.id (before ++ .load task :: later) trimmed →
      (journal l.host.answer trimmed s).filter (fun e => e.1.concerns model.id)
        = (journal l.host.answer (before ++ .load task :: later) s).filter
            (fun e => e.1.concerns model.id) := by
  refine ⟨?_, ?_, fun trimmed htrims => journal_of_trims htrims ⟨rfl, rfl⟩⟩
  · obtain ⟨p, hp, htask, hloaded⟩ := loaded_of_answer_load hload
    obtain ⟨hjournal, hafter⟩ := journal_of_loaded (l := l) later hloaded
    refine ⟨p, hp, htask, ?_, ?_⟩
    · rw [after_append]
      exact hafter
    · rw [after_append]
      exact hjournal
  · rw [handles_journal]
    exact List.nodup_range'

/-- Two counters, asked in turn, with a request to a handle that stands for nothing and a load that
    fails on the way: the second counter counts what it was asked, and it does so without what was
    asked of the others, too. -/
theorem models_isolated_twoCounters :
    (Demo.library.host.answer (.load "counter")
        (after Demo.library.host.answer [.load "counter", askCounter 7] { memory := () })).1
      = .loaded (.ok ⟨1, "counter"⟩) ∧
    (journal Demo.library.host.answer [askCounter 1, askCounter 0, .load "none", askCounter 1]
        (after Demo.library.host.answer [.load "counter", askCounter 7, .load "counter"]
          { memory := () })).filterMap (entryOf? 1)
      = [(.predict .nothing, .predicted (.ok (.int 1))),
          (.predict .nothing, .predicted (.ok (.int 2)))] ∧
    (journal Demo.library.host.answer
        [.load "counter", .load "counter", askCounter 1, .load "none", askCounter 1]
          { memory := () }).filter (fun e => e.1.concerns 1)
      = (journal Demo.library.host.answer
          [.load "counter", askCounter 7, .load "counter", askCounter 1, askCounter 0,
            .load "none", askCounter 1] { memory := () }).filter (fun e => e.1.concerns 1) := by
  have hload : (Demo.library.host.answer (.load "counter")
      (after Demo.library.host.answer [.load "counter", askCounter 7] { memory := () })).1
        = .loaded (.ok ⟨1, "counter"⟩) := rfl
  obtain ⟨⟨p, hp, _, _, hjournal⟩, _, htrims⟩ := models_isolated Demo.library { memory := () }
    [.load "counter", askCounter 7] [askCounter 1, askCounter 0, .load "none", askCounter 1]
    "counter" ⟨1, "counter"⟩ hload
  obtain rfl : Demo.counter = p := Option.some.inj hp
  refine ⟨hload, hjournal, htrims _ ?_⟩
  -- The requests to 7 and to 0 are left out.
  exact .keep _ (.drop _ _ (by decide) (.keep _ (.keep _ (.drop _ _ (by decide)
    (.keep _ (.keep _ .nil))))))

end Library

end StepScript
