import UnitScript.Quantity
import UnitScript.Tree

/-!
# Values

What expressions evaluate to. Besides data there are functions, which carry the bindings that were
captured where they were defined, and signals, which statements hand on to the loop or call that
they are meant for. A `Located` value knows the stretch of text that produced it.
-/

namespace UnitScript

/-- A function as it is defined. `Context.declareFunction` makes a `Closure` of it. -/
structure Declaration where
  ident : Ident
  params : List Param
  returns : TypeName
  body : Block

/-- A function that the language provides. It takes arguments of any type and prints each on a line
of its own (`Callable.call`). -/
structure Native where
  name : String
  params : List String
deriving DecidableEq, Repr

mutual

/-- A value. The last three are signals (`Value.isSignal`): they are what jumps come to, and say
where a run goes on. -/
inductive Value where
  | number (value : Number)
  | bool (value : Bool)
  | string (value : String)
  | unit (value : Units)
  | quantity (value : Quantity)
  | function (value : Closure)
  | native (value : Native)
  | returning (payload : Option Located)
  | breaking
  | continuing

/-- A value with the stretch of text that produced it, if there is one. Faults with the value are
placed there (`Located.position`). -/
structure Located where
  value : Value
  span : Option Span

/-- A function with the bindings that its calls start from (`Context.capture`). -/
structure Closure where
  declaration : Declaration
  captured : List (String × Located)

end

/-- Where a value was produced: the start of its span, if it has one. -/
def Located.position (v : Located) : Option Position :=
  v.span.map Span.start

namespace Closure

/-- A function as it is written, without its body. -/
def text (f : Closure) : String :=
  let params := f.declaration.params.map fun p => s!"{p.ident.name}: {p.type.text}"
  let list := ", ".intercalate params
  s!"function {f.declaration.ident.name}({list}) -> {f.declaration.returns.text}"

end Closure

/-- A native function as it is written. -/
def Native.text (f : Native) : String :=
  let list := ", ".intercalate f.params
  s!"native function {f.name}({list})"

namespace Value

/-- The kind of a value. -/
def kind : Value → Kind
  | number (.int _) => .int
  | number (.double _) => .double
  | bool _ => .bool
  | string _ => .string
  | unit _ => .unit
  | quantity _ => .quantity
  | function _ => .function
  | native _ => .native
  | returning _ => .returning
  | breaking => .breaking
  | continuing => .continuing

/-- Whether a value says where a run goes on: the signals of `return`, `break` and `continue`. -/
def isSignal (v : Value) : Bool := v.kind.isSignal

/-- Whether a value may be bound to what is declared with a type (`Kind.fits`). -/
def fits (v : Value) (type : TypeName) : Bool := v.kind.fits type

/-- A value as it is printed, by `print` and at the end of a program. -/
def text : Value → String
  | number n => n.text
  | bool b => if b then "true" else "false"
  | string s => s
  | unit u => u.text
  | quantity q => q.text
  | function f => f.text
  | native f => f.text
  | returning (some ⟨payload, _⟩) => payload.text
  | returning none => "return"
  | breaking => "break"
  | continuing => "continue"

/-- The truth value of a condition, if the value is one. Numbers are true unless they are zero. -/
def truth? : Value → Option Bool
  | bool b => some b
  | number n => some !n.isZero
  | _ => none

end Value

end UnitScript
