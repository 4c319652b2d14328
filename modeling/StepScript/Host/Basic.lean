import StepScript.Env

/-!
# Hosts

What a running program needs from its surroundings: modules, functions and classes it did not
define, models, and the words of the parser that reads its expressions. A host is a record of
requests over a state of its own, so a program runs the same way whatever stands behind them.
-/

set_option autoImplicit false

namespace StepScript

/-- Answers to the requests of a program, over the host's own state. -/
structure Host (σ : Type) where
  /-- What the general parser says about a text that is no expression. -/
  wording : Wording
  /-- Loads a module by its dotted name. -/
  importModule : String → σ → Except HostFault (Module σ) × σ
  /-- Finds a function or class that the program calls and has not met before. -/
  resolve : String → σ → Option (HostObject σ) × σ
  /-- Builds a model for a task. -/
  loadModel : String → σ → Except HostFault ModelHandle × σ
  /-- Asks a model for a prediction. -/
  predict : ModelHandle → Value → σ → Except HostFault Value × σ
  /-- Trains a model. -/
  train : ModelHandle → Value → σ → Except HostFault Unit × σ
  /-- Takes the key that the program states. -/
  setApiKey : String → σ → σ

end StepScript
