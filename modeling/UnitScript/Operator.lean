import UnitScript.Token

/-!
# Operators and type names

The words of the language that combine expressions or declare types, each with the text messages
show and the kind of token it is read from. The binary operators fall into four tiers; an operator
of a later tier binds its operands more tightly (`BinaryOp.tier`), and within a tier operators
associate to the left.
-/

namespace UnitScript

/-- The operators with one operand (`UnaryOp.text`). -/
inductive UnaryOp where
  | identity | negate | not
deriving DecidableEq, Repr, Inhabited

/-- An operator as it is written. -/
def UnaryOp.text : UnaryOp → String
  | identity => "+"
  | negate => "-"
  | not => "not"

/-- The operator a token of this kind stands for in front of an operand. -/
def UnaryOp.ofToken? : TokenKind → Option UnaryOp
  | .plus => some identity
  | .minus => some negate
  | .notWord => some not
  | _ => none

/-- The operators with two operands. How tightly they bind is their `Tier`. -/
inductive BinaryOp where
  | divide | multiply | add | subtract
  | greater | greaterEqual | less | lessEqual | notEqual | equal
  | and | or
deriving DecidableEq, Repr, Inhabited

namespace BinaryOp

/-- An operator as it is written, and as messages show it (`Cause.detail`). -/
def text : BinaryOp → String
  | divide => "/"
  | multiply => "*"
  | add => "+"
  | subtract => "-"
  | greater => ">"
  | greaterEqual => ">="
  | less => "<"
  | lessEqual => "<="
  | notEqual => "!="
  | equal => "=="
  | and => "and"
  | or => "or"

/-- The operator a token of this kind stands for between two operands. -/
def ofToken? : TokenKind → Option BinaryOp
  | .slash => some divide
  | .star => some multiply
  | .plus => some add
  | .minus => some subtract
  | .greater => some greater
  | .greaterEqual => some greaterEqual
  | .less => some less
  | .lessEqual => some lessEqual
  | .bangEqual => some notEqual
  | .equalEqual => some equal
  | .andWord => some and
  | .orWord => some or
  | _ => none

end BinaryOp

/-- The tiers of binary operators, from the loosest to the tightest; operators of one tier
(`BinaryOp.tier`) are joined from the left. -/
inductive Tier where
  | logic | comparison | sum | product
deriving DecidableEq, Repr, Inhabited

/-- The tier an operator belongs to: operators of one `Tier` bind equally tightly. -/
def BinaryOp.tier : BinaryOp → Tier
  | and | or => .logic
  | greater | greaterEqual | less | lessEqual | notEqual | equal => .comparison
  | add | subtract => .sum
  | divide | multiply => .product

/-- The operator of a tier that a token of this kind stands for, if `BinaryOp.ofToken?` gives one of
this tier. -/
def Tier.operator? (tier : Tier) (kind : TokenKind) : Option BinaryOp :=
  (BinaryOp.ofToken? kind).filter (·.tier = tier)

/-- The names of types in declarations. Only functions can be declared `void`. -/
inductive TypeName where
  | int | double | bool | string | phys | unit | void
deriving DecidableEq, Repr, Inhabited

namespace TypeName

/-- A type name as it is written. -/
def text : TypeName → String
  | int => "int"
  | double => "double"
  | bool => "bool"
  | string => "string"
  | phys => "phys"
  | unit => "unit"
  | void => "void"

/-- The type name a token of this kind stands for. -/
def ofToken? : TokenKind → Option TypeName
  | .intWord => some int
  | .doubleWord => some double
  | .boolWord => some bool
  | .stringWord => some string
  | .physWord => some phys
  | .unitWord => some unit
  | .voidWord => some void
  | _ => none

/-- The type names of tokens are those of variables and `void`. -/
theorem isType_iff_ofToken? (kind : TokenKind) :
    kind.isType = true ↔ ∃ type, ofToken? kind = some type ∧ type ≠ void := by
  cases kind <;> simp [TokenKind.isType, ofToken?]

end TypeName

end UnitScript
