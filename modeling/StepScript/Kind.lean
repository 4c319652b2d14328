/-!
# Kinds of values

What sort of thing a value is, with the name that messages give it.
-/

set_option autoImplicit false

namespace StepScript

/-- The sorts of values a program works with. -/
inductive Kind where
  | nothing
  | bool
  | int
  | float
  | text
  | list
  | dict
  | callable
  | object
  | moduleRef
  | modelRef
deriving DecidableEq, Repr

/-- The name of a kind in messages. -/
def Kind.name : Kind → String
  | .nothing => "NoneType"
  | .bool => "bool"
  | .int => "int"
  | .float => "float"
  | .text => "str"
  | .list => "list"
  | .dict => "dict"
  | .callable => "function"
  | .object => "object"
  | .moduleRef => "module"
  | .modelRef => "model"

end StepScript
