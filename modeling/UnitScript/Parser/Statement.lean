import UnitScript.Parser.Expression

/-!
# Reading statements and programs

Statements other than those that end in a block are closed by a semicolon, which is no part of
them. A block lies one level deeper than the statement it is a part of, and so do the expressions
and blocks inside it. `program` reads the tokens of a whole text.
-/

namespace UnitScript

namespace Alternatives

/-- Cases in order (`Alternatives.case`), with what follows them. -/
def ofCases (cases : List (Node × Block)) (last : Alternatives) : Alternatives :=
  cases.foldr (fun (condition, body) others => .case condition body others) last

end Alternatives

namespace Parser

/-- A condition in brackets, which are no part of it: its span is its own. -/
def condition (deeper : Deeper) : Parser Node := do
  let _ ← take .leftParen
  let inner ← deeper.expression
  let _ ← take .rightParen
  return inner

/-- A condition and the block that depends on it: what `if`, `elseif` and `while` have in common. -/
def case (deeper : Deeper) (block : Parser Block) : Parser (Node × Block) := do
  let condition ← condition deeper
  let body ← block
  return (condition, body)

/-- Alternatives, each but the last under a condition. -/
def ifElse (deeper : Deeper) (block : Parser Block) : Parser Node := do
  let start ← take .ifWord
  let first ← case deeper block
  let others ← following (fun kind => if kind = .elseifWord then some () else none)
    (case deeper block)
  let cases := first :: others.map Prod.snd
  if ← takeIf .elseWord then
    let last ← block
    return ⟨start.span.through last.span, .ifElse (.ofCases cases (.otherwise last))⟩
  else
    let last := (others.map fun (_, _, body) => body.span).getLastD first.2.span
    return ⟨start.span.through last, .ifElse (.ofCases cases .none)⟩

/-- A block that is repeated under a condition, behind its word (`case`). -/
def whileLoop (deeper : Deeper) (block : Parser Block) : Parser Node := do
  let start ← take .whileWord
  let condition ← condition deeper
  let body ← block
  return ⟨start.span.through body.span, .whileLoop condition body⟩

/-- A parameter with its type, which is one of those that variables can have. -/
def param : Parser Param := do
  let name ← ident
  let _ ← take .colon
  let type ← type
  return ⟨name, type⟩

/-- A definition of a function: parameters that `separated` reads, a `returnType` and a block. -/
def function (block : Parser Block) : Parser Node := do
  let start ← take .functionWord
  let name ← ident
  let _ ← take .leftParen
  let params ← if ← atKind .identifier then separated .comma param else pure []
  let _ ← take .rightParen
  let _ ← take .arrow
  let returns ← returnType
  let body ← block
  return ⟨start.span.through body.span, .function name params returns body⟩

/-- The end of a call, with the value it gives back if there is one. -/
def returned (deeper : Deeper) : Parser Node := do
  let start ← take .returnWord
  if ← atKind .semicolon then return ⟨start.span, .returnNothing⟩
  let value ← deeper.expression
  return ⟨start.span.through value.span, .returnValue value⟩

/-- Something before the semicolon that closes it. The semicolon is in no `Span`. -/
def closed (inner : Parser Node) : Parser Node := do
  let node ← inner
  let _ ← take .semicolon
  return node

/-- A statement, where expressions are read by given parsers for deeper levels (`Deeper`) and blocks
by another one. -/
def statementWith (deeper : Deeper) (block : Parser Block) : Parser Node := do
  let token ← peek
  match token.kind with
  | .ifWord => ifElse deeper block
  | .whileWord => whileLoop deeper block
  | .functionWord => function block
  | .leftBrace =>
    let inner ← block
    return ⟨inner.span, .block inner⟩
  | .returnWord => closed (returned deeper)
  | .breakWord => closed do return ⟨(← take .breakWord).span, .breakLoop⟩
  | .continueWord => closed do return ⟨(← take .continueWord).span, .continueLoop⟩
  | _ => closed deeper.expression

/-- A block, where so many levels are left. It is read up to its closing brace (`untilKind`); at the
end of the text that brace is missing. -/
def block : Nat → Parser Block
  | 0 => refuse .nesting
  | levels + 1 => nested do
    let first ← take .leftBrace
    let items ← untilKind (fun kind => kind = .rightBrace ∨ kind = .endOfText)
      (statementWith (deeper levels) (block levels))
    let last ← take .rightBrace
    return ⟨first.span.through last.span, items⟩

/-- A statement that is not inside another one: no level of `nestingLimit` has been used up. -/
def statement : Parser Node := statementWith (deeper nestingLimit) (block nestingLimit)

/-- The statements of a text up to its end, as `untilKind` reads them. Tokens behind the one for the
end are not looked at. -/
def program : Parser Block := do
  let start := (← peek).span
  let items ← untilKind (· = .endOfText) statement
  let last ← take .endOfText
  return ⟨start.through last.span, items⟩

end Parser

/-- The program that a list of tokens is (`program`), or the error at the first token that cannot be
read on. -/
def Block.ofTokens (tokens : List Token) : Except SyntaxError Block :=
  Parser.program.parse tokens

end UnitScript
