import UnitScript.Double
import UnitScript.Integer
import UnitScript.Parser.Basic
import UnitScript.Tree

/-!
# Reading expressions

An expression is an assignment, or operands joined by binary operators of four tiers, of which
`not` stands between logic and comparison. Brackets, the right side of an assignment, the
arguments of a call and the operands of `not` and of signs lie one level deeper than what holds
them; `Deeper` is the parsers for these places, and `deeper n` those that read `n` further levels
and refuse to go below.
-/

namespace UnitScript

/-- The text between the two delimiters of a literal. A delimiter is one byte long; where the ends
of a text are no such delimiters, nothing lies between them. -/
def Token.enclosed (token : Token) : String :=
  match token.lexeme.toList with
  | [] => ""
  | first :: rest =>
    if first.utf8Size = 1 ∧ rest.getLast?.any (·.utf8Size = 1) then String.ofList rest.dropLast
    else ""

namespace Parser

/-- The parsers for what lies one level deeper: an expression in brackets or an argument, what `not`
negates, and what a sign stands in front of. -/
structure Deeper where
  expression : Parser Node
  comparison : Parser Node
  sign : Parser Node

/-- A name, with the text and the place of its token (`Token.lexeme`). -/
def ident : Parser Ident := do
  let token ← take .identifier
  return ⟨token.lexeme, token.span⟩

/-- A type that variables can be declared with (`TypeName`), which `void` is not. -/
def type : Parser TypeName :=
  accept .type fun token => if token.kind.isType then TypeName.ofToken? token.kind else none

/-- A type that functions can be declared with (`TypeName.ofToken?`), so that `void` is one here. -/
def returnType : Parser TypeName :=
  accept .returnType fun token => TypeName.ofToken? token.kind

/-- The number in front, a literal of either kind. Its digits are read by `Integer.ofText?` or by
`Double.ofText?`. -/
def number (kind : TokenKind) : Parser Node :=
  if kind = .intLiteral then
    accept .integer fun token =>
      (Integer.ofText? token.lexeme.toList).map fun value => ⟨token.span, .int value⟩
  else
    accept .double fun token =>
      (Double.ofText? token.lexeme.toList).map fun value => ⟨token.span, .double value⟩

/-- The expression that one token is, if it is a text or a truth value. -/
def literal? (token : Token) : Option Node :=
  match token.kind with
  | .stringLiteral | .charLiteral => some ⟨token.span, .string token.enclosed⟩
  | .trueWord => some ⟨token.span, .bool true⟩
  | .falseWord => some ⟨token.span, .bool false⟩
  | _ => none

/-- Names joined by multiplication signs, as `separated` reads them. -/
def factors : Parser (List Ident) := separated .star ident

/-- What stands above the fraction bar of a unit, where a lone one stands for nothing. -/
def numerator : Parser (List Ident) := do
  let token ← peek
  if token.kind = .identifier then factors
  else
    accept .numerator fun token =>
      if token.kind = .intLiteral ∧ token.lexeme = "1" then some [] else none

/-- A unit between two bars: a `numerator`, and `factors` below the fraction bar if there is one. -/
def unit : Parser Node := do
  let first ← take .pipe
  let above ← numerator
  let below ← if ← takeIf .slash then factors else pure []
  let last ← take .pipe
  return ⟨first.span.through last.span, .unit above below⟩

/-- A unit behind the magnitude it belongs to, which makes a node of `Form.phys` of both. -/
def quantity (magnitude : Node) : Parser Node := do
  let _ ← take .ampersand
  let unit ← unit
  return ⟨magnitude.span.through unit.span, .phys magnitude unit⟩

/-- An expression in brackets, which count as a part of it: its span is that of the brackets
(`Span.through`). -/
def group (deeper : Deeper) : Parser Node := do
  let first ← take .leftParen
  let inner ← deeper.expression
  let last ← take .rightParen
  return ⟨first.span.through last.span, inner.form⟩

/-- A call of a function by its name, with arguments that `separated` reads. -/
def call (deeper : Deeper) : Parser Node := do
  let callee ← ident
  let _ ← take .leftParen
  let args ← if ← atKind .rightParen then pure [] else separated .comma deeper.expression
  let last ← take .rightParen
  return ⟨callee.span.through last.span, .call callee args⟩

/-- An expression that operators do not take apart: a literal, a name, a call, a unit, a quantity,
or a `group`. -/
def atom (deeper : Deeper) : Parser Node := do
  let token ← peek
  match token.kind with
  | .identifier =>
    match ← peekSecond? with
    | some .leftParen => call deeper
    | second =>
      let name ← ident
      let read : Node := ⟨name.span, .variable name⟩
      if second = some .ampersand then quantity read else return read
  | .leftParen => group deeper
  | .intLiteral | .doubleLiteral =>
    let magnitude ← number token.kind
    if ← atKind .ampersand then quantity magnitude else return magnitude
  | .pipe => unit
  | _ => accept .expression literal?

/-- Applies an operator that stands in front of its operand. The node begins where the operator
stands (`Span.through`). -/
def unary (op : UnaryOp) (opSpan : Span) (operand : Node) : Node :=
  ⟨opSpan.through operand.span, .unary op operand⟩

/-- Applies an operator that stands between its operands. The node extends from one of them to the
other (`Span.through`). -/
def binary (left : Node) (op : BinaryOp) (right : Node) : Node :=
  ⟨left.span.through right.span, .binary op left right⟩

/-- Operands of a tier, joined from the left by its operators (`Tier.operator?`). No level is
counted here, however many operands follow. -/
def chain (tier : Tier) (operand : Parser Node) : Parser Node := do
  let first ← operand
  let others ← following tier.operator? operand
  return others.foldl (fun left (op, right) => binary left op right) first

/-- An atom behind any number of signs, each of which opens a level (`Deeper`). -/
def signed (deeper : Deeper) : Parser Node := do
  match ← acceptIf? fun kind => (UnaryOp.ofToken? kind).filter (· ≠ .not) with
  | some (op, opSpan) => return unary op opSpan (← deeper.sign)
  | none => atom deeper

/-- Comparisons of sums of products, or the negation of one (`unary`). They are a `chain` like sums
and products, joined from the left. -/
def comparison (deeper : Deeper) : Parser Node := do
  match ← acceptIf? fun kind => (UnaryOp.ofToken? kind).filter (· = .not) with
  | some (op, opSpan) => return unary op opSpan (← deeper.comparison)
  | none => chain .comparison (chain .sum (chain .product (signed deeper)))

/-- An assignment, which declares the variable if it begins with a type (`Form.assign`). -/
def assignment (deeper : Deeper) : Parser Node := do
  let start := (← peek).span
  let type ← if (← peek).kind.isType then some <$> type else pure none
  let name ← ident
  let _ ← take .equal
  let value ← deeper.expression
  return ⟨start.through value.span, .assign type name value⟩

/-- An expression. It is an `assignment` if it begins with a type or with a name before an equals
sign. -/
def expressionBody (deeper : Deeper) : Parser Node := do
  let token ← peek
  let second ← peekSecond?
  if token.kind.isType ∨ (token.kind = .identifier ∧ second = some .equal) then assignment deeper
  else chain .logic (comparison deeper)

/-- The parsers for what lies deeper, where so many levels are left: at the last one everything is
refused (`Expectation.nesting`). -/
def deeper : Nat → Deeper
  | 0 => ⟨refuse .nesting, refuse .nesting, refuse .nesting⟩
  | levels + 1 =>
    let below := deeper levels
    ⟨nested (expressionBody below), nested (comparison below), nested (signed below)⟩

/-- An expression that is not inside another one: no level of `nestingLimit` has been used up. -/
def expression : Parser Node := (deeper nestingLimit).expression

end Parser

end UnitScript
