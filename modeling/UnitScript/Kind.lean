import UnitScript.Operator

/-!
# Kinds of values

Every value is of one of eleven kinds. Three of them are signals: they travel like values but say
where a run goes on.
-/

namespace UnitScript

/-- The kinds of values (`Value`), which faults name and types are checked against (`Kind.fits`). -/
inductive Kind where
  | int | double | bool | string | unit | quantity
  | function | native
  | returning | breaking | continuing
deriving DecidableEq, Repr, Inhabited

namespace Kind

/-- A kind as messages name it. Functions of either kind have the same name. -/
def text : Kind → String
  | int => "int"
  | double => "double"
  | bool => "bool"
  | string => "string"
  | unit => "unit"
  | quantity => "phys"
  | function | native => "function"
  | returning => "return"
  | breaking => "break"
  | continuing => "continue"

/-- Whether values of a kind say where a run goes on: they are handed on by statements, and never
bound. -/
def isSignal : Kind → Bool
  | returning | breaking | continuing => true
  | _ => false

/-- Whether values of a kind may be bound to what is declared with a type. -/
def fits : Kind → TypeName → Bool
  | int, .int | double, .double | bool, .bool | string, .string => true
  | unit, .unit | quantity, .phys => true
  | _, _ => false

end Kind

end UnitScript
