import UnitScript.Kind
import UnitScript.Number
import UnitScript.Units

/-!
# Faults of a run

A run that cannot go on ends in a `Fault`: a `Cause`, the place it arose at and the functions that
were being run, innermost first. Causes carry what their texts speak of, and fall into twenty
kinds, each with a headline. A place and a list of functions that are already known are kept.
-/

namespace UnitScript

/-- The kinds of causes, one for each `FaultKind.headline`. -/
inductive FaultKind where
  | undefinedVariable | undefinedFunction
  | notCallable | tooFewArguments | tooManyArguments | argumentMismatch | returnMismatch
  | declarationMismatch | reassignmentMismatch
  | unitMismatch | divisionByZero | overflow
  | invalidOperation | invalidUnaryOperation | invalidCondition | invalidMagnitude | missingValue
  | straySignal
  | noCallToLeave | recursionLimit
deriving DecidableEq, Repr

/-- What all faults of a kind say; `Cause.detail` adds what this one says. -/
def FaultKind.headline : FaultKind → String
  | undefinedVariable => "variable not defined"
  | undefinedFunction => "function not defined"
  | notCallable => "not a function"
  | tooFewArguments => "too few arguments in function call"
  | tooManyArguments => "too many arguments in function call"
  | argumentMismatch => "argument type mismatch"
  | returnMismatch => "return type mismatch"
  | declarationMismatch => "declared type mismatch"
  | reassignmentMismatch => "cannot change the type of a variable"
  | unitMismatch => "units do not match"
  | divisionByZero => "division by zero"
  | overflow => "integer overflow"
  | invalidOperation => "invalid operation"
  | invalidUnaryOperation => "invalid unary operation"
  | invalidCondition => "condition must be bool or numeric"
  | invalidMagnitude => "magnitude must be int or double"
  | missingValue => "expression produced no value"
  | straySignal => "control flow statement outside of its construct"
  | noCallToLeave => "call stack underflow"
  | recursionLimit => "maximum call depth exceeded"

/-- The name under which the program itself is run. -/
def mainName : String := "<main>"

/-- Why a run cannot go on, with all that the text of the fault names (`Cause.detail`). -/
inductive Cause where
  /-- A variable that is read is not defined. -/
  | undefinedVariable (name : String)
  /-- A variable that is assigned without a type is not defined. -/
  | undeclaredVariable (name : String)
  | undefinedFunction (name : String)
  | notCallable (name : String) (found : Kind)
  | tooFewArguments (callee : String) (arity found : Nat)
  | tooManyArguments (callee : String) (arity found : Nat)
  | argumentMismatch (param callee : String) (declared : TypeName) (found : Kind)
  | returnMismatch (callee : String) (declared : TypeName) (found : Option Kind)
  | declarationMismatch (name : String) (declared : TypeName) (found : Kind)
  | reassignmentMismatch (name : String) (present found : Kind)
  | unitMismatch (op : BinaryOp) (left right : Units)
  | divisionByZero (dividend divisor : Number)
  /-- The result of an operation is out of range. -/
  | overflow (op : BinaryOp) (left right : Int64)
  | negationOverflow (operand : Int64)
  | exponentOverflow (dimension : String)
  /-- A string that is repeated would grow too long. -/
  | repetitionOverflow (count : Int64)
  | invalidOperation (op : BinaryOp) (left right : Kind)
  /-- What follows a magnitude is no unit. -/
  | invalidUnit (found : Kind)
  | invalidUnaryOperation (op : UnaryOp) (operand : Kind)
  | invalidCondition (found : Kind)
  | invalidMagnitude (found : Kind)
  | missingValue
  | straySignal (signal : Kind)
  | noCallToLeave
  | recursionLimit (callee : String) (limit : Nat)

namespace Cause

/-- The kind of a cause (`FaultKind`): several causes may have one headline. -/
def kind : Cause → FaultKind
  | undefinedVariable .. | undeclaredVariable .. => .undefinedVariable
  | undefinedFunction .. => .undefinedFunction
  | notCallable .. => .notCallable
  | tooFewArguments .. => .tooFewArguments
  | tooManyArguments .. => .tooManyArguments
  | argumentMismatch .. => .argumentMismatch
  | returnMismatch .. => .returnMismatch
  | declarationMismatch .. => .declarationMismatch
  | reassignmentMismatch .. => .reassignmentMismatch
  | unitMismatch .. => .unitMismatch
  | divisionByZero .. => .divisionByZero
  | overflow .. | negationOverflow .. | exponentOverflow .. | repetitionOverflow .. => .overflow
  | invalidOperation .. | invalidUnit .. => .invalidOperation
  | invalidUnaryOperation .. => .invalidUnaryOperation
  | invalidCondition .. => .invalidCondition
  | invalidMagnitude .. => .invalidMagnitude
  | missingValue => .missingValue
  | straySignal .. => .straySignal
  | noCallToLeave => .noCallToLeave
  | recursionLimit .. => .recursionLimit

/-- What a call with a wrong number of arguments says. -/
def arityText (callee : String) (arity found : Nat) : String :=
  s!"`{callee}` takes {arity} arguments, found {found}"

/-- What this very fault says, behind the headline of its kind (`FaultKind.headline`). -/
def detail : Cause → String
  | undefinedVariable name => s!"`{name}` not defined"
  | undeclaredVariable name => s!"`{name}` not defined, a first assignment needs a type"
  | undefinedFunction name => s!"`{name}` not defined"
  | notCallable name found => s!"`{name}` is {found.text}"
  | tooFewArguments callee arity found => arityText callee arity found
  | tooManyArguments callee arity found => arityText callee arity found
  | argumentMismatch param callee declared found =>
    s!"parameter `{param}` of `{callee}` is {declared.text}, found {found.text}"
  | returnMismatch callee declared (some found) =>
    s!"`{callee}` returns {declared.text}, found {found.text}"
  | returnMismatch callee declared none =>
    s!"`{callee}` returns {declared.text}, found no value"
  | declarationMismatch name declared found =>
    s!"`{name}` is declared {declared.text}, found {found.text}"
  | reassignmentMismatch name present found =>
    s!"`{name}` is {present.text}, found {found.text}"
  | unitMismatch op left right =>
    s!"cannot apply `{op.text}` to {left.text} and {right.text}"
  | divisionByZero dividend divisor => s!"{dividend.text} / {divisor.text}"
  | overflow op left right => s!"{Integer.text left} {op.text} {Integer.text right}"
  | negationOverflow operand => s!"-{Integer.text operand}"
  | exponentOverflow dimension => s!"exponent of dimension `{dimension}` out of range"
  | repetitionOverflow count => s!"cannot repeat a string {Integer.text count} times"
  | invalidOperation op left right =>
    s!"`{op.text}` is not defined for {left.text} and {right.text}"
  | invalidUnit found => s!"`&` needs a unit, found {found.text}"
  | invalidUnaryOperation op operand => s!"`{op.text}` is not defined for {operand.text}"
  | invalidCondition found => s!"found {found.text}"
  | invalidMagnitude found => s!"found {found.text}"
  | missingValue => "expected a value"
  | straySignal signal => s!"`{signal.text}` outside of a loop"
  | noCallToLeave => s!"cannot leave {mainName}"
  | recursionLimit callee limit => s!"calling `{callee}` would nest more than {limit} calls"

end Cause

/-- A function that is being run, and where it was called. The program itself is one
(`Activation.main`). -/
structure Activation where
  name : String
  site : Position
deriving DecidableEq, Repr

namespace Activation

/-- The activation of the program itself. -/
def main : Activation := ⟨mainName, .origin⟩

/-- An activation as tracebacks show it. -/
def text (activation : Activation) : String :=
  if activation.name = mainName then s!"  in {activation.name}"
  else s!"  in {activation.name} called at {activation.site.text}"

end Activation

/-- The end of a run that cannot go on: why, at which place, and in which calls, as far as these are
known yet (`Fault.at?`, `Fault.within`). -/
structure Fault where
  cause : Cause
  position : Option Position
  traceback : List Activation

namespace Fault

/-- A fault of which only the cause is known: neither a place nor a traceback has been given to it
yet (`Fault.at?`, `Fault.within`). -/
def ofCause (cause : Cause) : Fault := ⟨cause, none, []⟩

/-- Adds the place a fault arose at, if it is not known: the first place that is added stays
(`Eval.located`). -/
def at? (fault : Fault) (position : Option Position) : Fault :=
  { fault with position := fault.position.or position }

/-- Adds the functions that are being run, innermost first, if they are not known: the first
traceback that is added stays (`Eval.traced`). -/
def within (fault : Fault) (traceback : List Activation) : Fault :=
  { fault with traceback := if fault.traceback.isEmpty then traceback else fault.traceback }

/-- The text of a fault: its headline and detail, with its place and its traceback
(`Activation.text`) where there are such. -/
def message (fault : Fault) : String :=
  let place := match fault.position with
    | some position => s!" at {position.text}"
    | none => ""
  let head := s!"Runtime error{place}: {fault.cause.kind.headline}, {fault.cause.detail}"
  if fault.traceback.isEmpty then head
  else "\n".intercalate
    (head :: "Traceback (innermost call first):" :: fault.traceback.map Activation.text)

end Fault

end UnitScript
