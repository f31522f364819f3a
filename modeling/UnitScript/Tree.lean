import UnitScript.Operator
import UnitScript.Span

/-!
# Program trees

A program is a `Block` of statements. A `Node` is a statement or an expression: a `Form` together
with the stretch of the text it was read from. The alternatives of an `if` are a list of cases that
ends in an `else` block or in nothing.
-/

namespace UnitScript

/-- A name where it is written: dimensions, variables, parameters and functions have one each. -/
structure Ident where
  name : String
  span : Span
deriving DecidableEq, Repr, Inhabited

/-- A parameter and the type its arguments must have (`Value.fits`). -/
structure Param where
  ident : Ident
  type : TypeName
deriving DecidableEq, Repr, Inhabited

mutual

/-- A statement or an expression where it is written: its span and its `Form`. -/
structure Node where
  span : Span
  form : Form

/-- The forms of statements and expressions. Which of them may stand where is a matter of the parser
(`Parser.program`), not of the tree. -/
inductive Form where
  | int (value : Int64)
  | double (value : Float)
  | string (value : String)
  | bool (value : Bool)
  | unit (numerator denominator : List Ident)
  | phys (magnitude unit : Node)
  | unary (op : UnaryOp) (operand : Node)
  | binary (op : BinaryOp) (left right : Node)
  | variable (ident : Ident)
  | assign (type : Option TypeName) (ident : Ident) (value : Node)
  | ifElse (alternatives : Alternatives)
  | whileLoop (condition : Node) (body : Block)
  | function (ident : Ident) (params : List Param) (returns : TypeName) (body : Block)
  | call (ident : Ident) (args : List Node)
  | returnNothing
  | returnValue (value : Node)
  | breakLoop
  | continueLoop
  | block (block : Block)

/-- Statements between braces, or a whole program. -/
structure Block where
  span : Span
  items : List Node

/-- What an `if` chooses from: cases one after the other, and an `else` at the end or nothing. -/
inductive Alternatives where
  | none
  | otherwise (block : Block)
  | case (condition : Node) (body : Block) (others : Alternatives)

end

end UnitScript
