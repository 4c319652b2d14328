import StepScript.Kind
import StepScript.Operator
import StepScript.Text.Digits

/-!
# Faults

Everything that can go wrong while a program runs, as causes. What a program or a user sees of a
fault is its `message`; `Fault` sorts the causes into the families that are reported by name.

One wording is not the program's own. Expressions are read by a general parser, and what it has to
say about a text that does not follow the grammar is taken over as it stands. It depends on the
text, and it is a parameter (`Wording`): nothing is assumed about it.
-/

set_option autoImplicit false

namespace StepScript

open Text (natText)

/-- A text in single quotes, as messages name things. -/
def quotedName (name : String) : String :=
  "'" ++ name ++ "'"

/-! ## Wrong kinds of values -/

/-- A value of the wrong kind, or the wrong number of values. -/
inductive TypeFault where
  /-- Iteration over something that has no items. -/
  | notIterable (kind : Kind)
  /-- A call of something that is no function. -/
  | notCallable (kind : Kind)
  /-- An attribute or method that the owner does not have. -/
  | noAttribute (owner member : String)
  /-- A member that the module does not have. -/
  | noMember (name member : String)
  /-- A method called with too few arguments. -/
  | missingArgument (method : String) (position : Nat)
  /-- A list position that is no integer, in a method that needs one. -/
  | positionArgument (method : String)
  /-- An update from something that is no dictionary. -/
  | updateArgument
  /-- A replacement of something that is no text. -/
  | replaceArguments
  /-- A test for a beginning or end that is no text. -/
  | affixArgument (method : String)
  /-- A joined item that is no text. -/
  | joinItem (kind : Kind)
  /-- An index into something without items. -/
  | notSubscriptable (kind : Kind)
  /-- An index of the wrong kind, read. -/
  | indexKind (container index : Kind)
  /-- An index of the wrong kind, written. -/
  | listIndexKind
  /-- A slice bound that is neither an integer nor absent. -/
  | sliceBound
  /-- An assignment to something that is no place. -/
  | notPlace
  /-- An item assignment to something without items. -/
  | noItemAssignment (kind : Kind)
  /-- An operand that the sign does not take. -/
  | signOperand (op : UnaryOp) (kind : Kind)
  /-- Operands that the operator does not take. -/
  | operands (op : BinaryOp) (left right : Kind)
  /-- Operands that have no order. -/
  | unordered (op : BinaryOp) (left right : Kind)
  /-- A search in a text for something that is no text. -/
  | textMember (kind : Kind)
  /-- A search in something that holds nothing. -/
  | notContainer (kind : Kind)
  /-- A function of one argument called with another number of them. -/
  | oneArgument (function : String) (given : Nat)
  /-- A function of one or two arguments called with another number of them. -/
  | oneOrTwoArguments (function : String) (given : Nat)
  /-- A range of no or too many arguments. -/
  | rangeArguments (given : Nat)
  /-- The length of something that has none. -/
  | noLength (kind : Kind)
  /-- A conversion to a number from something that is neither text nor number. -/
  | conversion (function : String) (kind : Kind)
  /-- The absolute value of something that is no number. -/
  | absOperand (kind : Kind)
  /-- Rounding something that is no number. -/
  | roundOperand (kind : Kind)
  /-- Something used as an integer that is none. -/
  | notInteger (kind : Kind)
  /-- A reduction of no items. -/
  | emptyReduction
  /-- Training of something that is no model. -/
  | notModel (name : String) (kind : Kind)
deriving DecidableEq, Repr

/-- The wording of a `TypeFault`. -/
def TypeFault.message : TypeFault → String
  | .notIterable kind => quotedName kind.name ++ " object is not iterable"
  | .notCallable kind => quotedName kind.name ++ " object is not callable"
  | .noAttribute owner member =>
    quotedName owner ++ " object has no attribute " ++ quotedName member
  | .noMember name member =>
    "module " ++ quotedName name ++ " has no attribute " ++ quotedName member
  | .missingArgument method position =>
    method ++ "() missing required argument " ++ natText position
  | .positionArgument method => method ++ "() index must be an integer"
  | .updateArgument => "update() argument must be a dict"
  | .replaceArguments => "replace() arguments must be str"
  | .affixArgument method => method ++ "() argument must be str"
  | .joinItem kind => "sequence item: expected str instance, " ++ kind.name ++ " found"
  | .notSubscriptable kind => quotedName kind.name ++ " object is not subscriptable"
  | .indexKind container index =>
    container.name ++ " indices must be integers, not " ++ index.name
  | .listIndexKind => "list indices must be integers"
  | .sliceBound => "slice indices must be integers or None"
  | .notPlace => "cannot assign to expression"
  | .noItemAssignment kind => quotedName kind.name ++ " object does not support item assignment"
  | .signOperand op kind =>
    "bad operand type for unary " ++ op.symbol ++ ": " ++ quotedName kind.name
  | .operands op left right =>
    "unsupported operand type(s) for " ++ op.symbol ++ ": " ++ quotedName left.name ++ " and "
      ++ quotedName right.name
  | .unordered op left right =>
    quotedName op.symbol ++ " not supported between instances of " ++ quotedName left.name
      ++ " and " ++ quotedName right.name
  | .textMember kind => "'in <string>' requires string as left operand, not " ++ kind.name
  | .notContainer kind => "argument of type " ++ quotedName kind.name ++ " is not iterable"
  | .oneArgument function given =>
    function ++ "() takes exactly one argument (" ++ natText given ++ " given)"
  | .oneOrTwoArguments function given =>
    function ++ "() takes 1 or 2 arguments (" ++ natText given ++ " given)"
  | .rangeArguments given => "range expected 1 to 3 arguments, got " ++ natText given
  | .noLength kind => "object of type " ++ quotedName kind.name ++ " has no len()"
  | .conversion function kind =>
    function ++ "() argument must be a string or a number, not " ++ quotedName kind.name
  | .absOperand kind => "bad operand type for abs(): " ++ quotedName kind.name
  | .roundOperand kind => "type " ++ kind.name ++ " doesn't define __round__ method"
  | .notInteger kind => quotedName kind.name ++ " object cannot be interpreted as an integer"
  | .emptyReduction => "reduce() of empty iterable with no initial value"
  | .notModel name kind => quotedName name ++ " is a " ++ kind.name ++ ", not a model"

/-! ## Wrong values -/

/-- A value of the right kind that does not do. -/
inductive ValueFault where
  /-- An integer result outside the 64-bit range. -/
  | overflow
  /-- A repetition beyond the longest sequence allowed. -/
  | repetition
  /-- A key that the dictionary does not hold. -/
  | noKey (key : String)
  /-- A list position that is not there, read. -/
  | listIndex
  /-- A list position that is not there, written. -/
  | listAssignment
  /-- A character position that is not there. -/
  | textIndex
  /-- A list position that is not there, removed. -/
  | popIndex
  /-- A removed item that the list does not hold. -/
  | notRemovable
  /-- An item that was looked for and is not in the list. -/
  | notInList (item : String)
  /-- A text split at nothing. -/
  | emptySeparator
  /-- A number that is not finite made an integer. -/
  | notFinite (number : String)
  /-- A text that is no integer. -/
  | badInteger (text : String)
  /-- A text that is no number. -/
  | badNumber (text : String)
  /-- The least or greatest of nothing. -/
  | emptySequence (function : String)
  /-- A range that never moves. -/
  | zeroStep
  /-- An expression that is no literal, where one is needed. -/
  | notLiteral (text : String)
deriving DecidableEq, Repr

/-- The wording of a `ValueFault`. -/
def ValueFault.message : ValueFault → String
  | .overflow => "integer overflow"
  | .repetition => "repeated sequence is too long"
  | .noKey key => "key " ++ key ++ " not found"
  | .listIndex => "list index out of range"
  | .listAssignment => "list assignment index out of range"
  | .textIndex => "string index out of range"
  | .popIndex => "pop index out of range"
  | .notRemovable => "list.remove(x): x not in list"
  | .notInList item => item ++ " is not in list"
  | .emptySeparator => "empty separator"
  | .notFinite number => "cannot convert float " ++ number ++ " to integer"
  | .badInteger text => "invalid literal for int() with base 10: " ++ text
  | .badNumber text => "could not convert string to float: " ++ text
  | .emptySequence function => function ++ "() arg is an empty sequence"
  | .zeroStep => "range() arg 3 must not be zero"
  | .notLiteral text => "malformed literal: " ++ text

/-! ## Text that is no expression -/

/-- Why a text is no expression. -/
inductive ParseFault where
  /-- The text does not follow the grammar. -/
  | malformed
  /-- The text follows the grammar, but an integer in it exceeds the 64-bit range. -/
  | integerRange
deriving DecidableEq, Repr

/-- What the parser says about a text that does not follow the grammar, for every text. -/
abbrev Wording :=
  String → String

/-- The same words about every text. -/
def Wording.plain : Wording := fun _ =>
  "expected an expression"

/-- The wording of a `ParseFault` about a text. -/
def ParseFault.message (wording : Wording) (text : String) : ParseFault → String
  | .malformed => wording text
  | .integerRange => "integer literal out of range"

/-! ## Blocks without partners -/

/-- A block marker without its partner. Positions count statements from zero, messages from one
    wherever they name the keyword. -/
inductive StructureFault where
  /-- A statement asked for its block that opens none. -/
  | notOpener (position : Nat)
  /-- A statement asked for its closer that is no middle marker. -/
  | notMiddle (position : Nat)
  /-- An opener or middle marker without a closer. -/
  | unclosed (keyword : String) (position : Nat) (closer : String)
  /-- A closer reached without its loop being active. -/
  | inactiveLoop (closer : String) (position : Nat)
  /-- A closer reached while another block is active that ends there. -/
  | otherBlock (closer : String) (position : Nat)
  /-- A jump out of a loop where there is none. -/
  | outsideLoop (keyword : String)
deriving DecidableEq, Repr

/-- The wording of a `StructureFault`. -/
def StructureFault.message : StructureFault → String
  | .notOpener position => "statement " ++ natText position ++ " does not open a block"
  | .notMiddle position => "statement " ++ natText position ++ " is not ELSE or CATCH"
  | .unclosed keyword position closer =>
    keyword ++ " at statement " ++ natText (position + 1) ++ " has no matching " ++ closer
  | .inactiveLoop closer position =>
    closer ++ " at statement " ++ natText (position + 1) ++ " has no active loop"
  | .otherBlock closer position =>
    closer ++ " at statement " ++ natText (position + 1) ++ " closes a different block"
  | .outsideLoop keyword => keyword ++ " outside of a loop"

/-! ## Faults of the host -/

/-- A request that the host could not meet. -/
inductive HostFault where
  /-- No module of that name. -/
  | moduleNotFound (name : String)
  /-- No model of that task. -/
  | unknownModel (task : String)
  /-- A prediction before any model was loaded. -/
  | noModel
  /-- A model that failed. -/
  | pipeline (task message : String)
  /-- A native function that failed. -/
  | call (name message : String)
deriving DecidableEq, Repr

/-- The wording of a `HostFault`. -/
def HostFault.message : HostFault → String
  | .moduleNotFound name => "No module named " ++ quotedName name
  | .unknownModel task => "unknown model " ++ quotedName task
  | .noModel => "no model loaded"
  | .pipeline task message => task ++ " pipeline failed: " ++ message
  | .call name message => name ++ "() failed: " ++ message

/-! ## All faults -/

/-- What went wrong while a program ran. -/
inductive Fault where
  /-- A name that stands for nothing. -/
  | undefined (name : String)
  | type (cause : TypeFault)
  | value (cause : ValueFault)
  | divisionByZero
  /-- A text that is no expression. -/
  | expression (text : String) (cause : ParseFault)
  | structural (cause : StructureFault)
  /-- A program started with the wrong number of inputs. -/
  | arity (expected given : Nat)
  | host (cause : HostFault)
deriving DecidableEq, Repr

/-- The wording of a fault, given that of the parser. -/
def Fault.message (wording : Wording) : Fault → String
  | .undefined name => "name " ++ quotedName name ++ " is not defined"
  | .type cause => cause.message
  | .value cause => cause.message
  | .divisionByZero => "division by zero"
  | .expression text cause =>
    "invalid expression " ++ quotedName text ++ ": " ++ cause.message wording text
  | .structural cause => "malformed block structure: " ++ cause.message
  | .arity expected given =>
    "expected " ++ natText expected ++ " input value(s), got " ++ natText given
  | .host cause => cause.message

end StepScript
