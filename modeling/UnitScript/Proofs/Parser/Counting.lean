import UnitScript.Parser.Statement

/-!
# Parsing with a counter

The parsers are told how many levels are left, and nothing can go wrong with them: their loops are
bounded by the number of tokens, and a token that leads to an operand stands for an operator. A
`Reader` is told nothing. It goes over a stream of tokens and counts the levels up and down that it
is in; it goes on for as long as the tokens lead on; and it panics where a token that it has taken
for an operator is none, or where it would leave a level that it is not in. The fuel bounds the
rounds of every loop and the levels that are inside one another, and a reader that runs out of it
says so.

The readers for the parts of the language are the parsers for these, one by one. What a parser does
without a loop and on one level is taken over as it is (`Reader.step`).
-/

namespace UnitScript

/-- Where a reader stands: the tokens that are left, the level that it is in, and the deepest level
that it has been in. The last one is there for what is proved, and nothing reads it. -/
structure Reading where
  tokens : List Token
  depth : Nat
  deepest : Nat

/-- How a reader ends: with a result, with a refusal (`SyntaxError`), in a panic where something has
to be there and is not, or without fuel. -/
inductive Finish (α : Type) where
  | done (result : α)
  | refused (expected : Expectation)
  | panicked
  | outOfFuel

/-- Goes over a stream of tokens, and counts levels. `Parser` has levels that are left in its place,
and neither panics nor fuel. -/
def Reader (α : Type) := Reading → Finish α × Reading

namespace Reader

variable {α β : Type}

/-- A result without reading anything: the `Reading` is as before. -/
protected def pure (a : α) : Reader α := fun s => (.done a, s)

/-- One reader after another, which is skipped where the first has no result (`Finish.done`). -/
protected def bind (p : Reader α) (f : α → Reader β) : Reader β := fun s =>
  match p s with
  | (.done a, s) => f a s
  | (.refused expected, s) => (.refused expected, s)
  | (.panicked, s) => (.panicked, s)
  | (.outOfFuel, s) => (.outOfFuel, s)

instance : Monad Reader where
  pure := Reader.pure
  bind := Reader.bind

/-- The end of the fuel, which is neither a result nor a refusal (`Finish`). -/
def outOfFuel : Reader α := fun s => (.outOfFuel, s)

/-- What has to be there. A reader panics where it is not (`Finish.panicked`), so it is to be proved
that it always is. -/
def expect : Option α → Reader α
  | some a => return a
  | none => fun s => (.panicked, s)

/-- What a `Parser` does without a loop and on one level, as a reader. -/
def step (p : Parser α) : Reader α := fun s =>
  match p s.tokens with
  | .ok (a, rest) => (.done a, { s with tokens := rest })
  | .error refusal => (.refused refusal.expected, { s with tokens := refusal.rest })

/-- Takes the first token if it is of one of some kinds, and gives its kind and its span. -/
def takeKind? (accepts : TokenKind → Bool) : Reader (Option (TokenKind × Span)) :=
  step (Parser.acceptIf? fun kind => if accepts kind then some kind else none)

/-- Reads something that lies one level deeper, or refuses it at the limit (`Parser.nestingLimit`).
The level is left again whatever was read. -/
def nested (p : Reader α) : Reader α := fun s =>
  if nestingLimit ≤ s.depth then step (Parser.refuse .nesting) s
  else
    match p { s with depth := s.depth + 1, deepest := max s.deepest (s.depth + 1) } with
    | (finish, ⟨tokens, depth + 1, deepest⟩) => (finish, ⟨tokens, depth, deepest⟩)
    | (_, s) => (.panicked, s)

/-- Reads as many items as follow, each behind a token of one of some kinds, which has to stand for
something (`expect`). -/
def following (accepts : TokenKind → Bool) (leader : TokenKind → Option β) (item : Reader α) :
    Nat → Reader (List (β × α))
  | 0 => outOfFuel
  | rounds + 1 => do
    match ← takeKind? accepts with
    | none => return []
    | some (kind, _) =>
      let lead ← expect (leader kind)
      let first ← item
      let others ← following accepts leader item rounds
      return (lead, first) :: others

/-- Reads items that are separated by tokens of a kind, in a loop (`following`) of so many rounds at
most. -/
def separated (separator : TokenKind) (item : Reader α) (rounds : Nat) : Reader (List α) := do
  let first ← item
  let others ← following (· = separator) (fun _ => some ()) item rounds
  return first :: others.map Prod.snd

/-- Reads items until a token of a closing kind is next. Where no fuel is left for another round, it
runs out (`outOfFuel`). -/
def untilKind (closes : TokenKind → Bool) (item : Reader α) : Nat → Reader (List α)
  | 0 => outOfFuel
  | rounds + 1 => do
    if closes (← step Parser.peek).kind then return []
    let first ← item
    let others ← untilKind closes item rounds
    return first :: others

/-! ## Expressions -/

/-- The readers for what lies one level deeper, as `Parser.Deeper` has the parsers for it. -/
structure Deeper where
  expression : Reader Node
  comparison : Reader Node
  sign : Reader Node

/-- Names joined by multiplication signs, as `separated` reads them. -/
def factors (rounds : Nat) : Reader (List Ident) := separated .star (step Parser.ident) rounds

/-- What stands above the fraction bar of a unit. -/
def numerator (rounds : Nat) : Reader (List Ident) := do
  let token ← step Parser.peek
  if token.kind = .identifier then factors rounds
  else
    step <| Parser.accept .numerator fun token =>
      if token.kind = .intLiteral ∧ token.lexeme = "1" then some [] else none

/-- A unit between two bars: a `numerator`, and `factors` below the fraction bar if there is one. -/
def unit (rounds : Nat) : Reader Node := do
  let first ← step (Parser.take .pipe)
  let above ← numerator rounds
  let below ← if ← step (Parser.takeIf .slash) then factors rounds else pure []
  let last ← step (Parser.take .pipe)
  return ⟨first.span.through last.span, .unit above below⟩

/-- A unit behind the magnitude it belongs to. -/
def quantity (rounds : Nat) (magnitude : Node) : Reader Node := do
  let _ ← step (Parser.take .ampersand)
  let unit ← unit rounds
  return ⟨magnitude.span.through unit.span, .phys magnitude unit⟩

/-- An expression in brackets. -/
def group (below : Deeper) : Reader Node := do
  let first ← step (Parser.take .leftParen)
  let inner ← below.expression
  let last ← step (Parser.take .rightParen)
  return ⟨first.span.through last.span, inner.form⟩

/-- A call of a function by its name, with arguments that `separated` reads. -/
def call (rounds : Nat) (below : Deeper) : Reader Node := do
  let callee ← step Parser.ident
  let _ ← step (Parser.take .leftParen)
  let args ← if ← step (Parser.atKind .rightParen) then pure []
    else separated .comma below.expression rounds
  let last ← step (Parser.take .rightParen)
  return ⟨callee.span.through last.span, .call callee args⟩

/-- An expression that operators do not take apart. -/
def atom (rounds : Nat) (below : Deeper) : Reader Node := do
  let token ← step Parser.peek
  match token.kind with
  | .identifier =>
    match ← step Parser.peekSecond? with
    | some .leftParen => call rounds below
    | second =>
      let name ← step Parser.ident
      let read : Node := ⟨name.span, .variable name⟩
      if second = some .ampersand then quantity rounds read else return read
  | .leftParen => group below
  | .intLiteral | .doubleLiteral =>
    let magnitude ← step (Parser.number token.kind)
    if ← step (Parser.atKind .ampersand) then quantity rounds magnitude else return magnitude
  | .pipe => unit rounds
  | _ => step (Parser.accept .expression Parser.literal?)

/-- The kinds of tokens that lead to another operand of a tier. -/
def leads : Tier → TokenKind → Bool
  | .logic => ([.andWord, .orWord].contains ·)
  | .comparison =>
    ([.equalEqual, .bangEqual, .greater, .greaterEqual, .less, .lessEqual].contains ·)
  | .sum => ([.plus, .minus].contains ·)
  | .product => ([.star, .slash].contains ·)

/-- Operands of a tier, joined from the left. A token that leads to one has to stand for an operator
(`expect`). -/
def chain (tier : Tier) (operand : Reader Node) (rounds : Nat) : Reader Node := do
  let first ← operand
  let others ← following (leads tier) BinaryOp.ofToken? operand rounds
  return others.foldl (fun left (op, right) => Parser.binary left op right) first

/-- An atom behind any number of signs. What is taken for a sign has to stand for an operator
(`expect`). -/
def signed (rounds : Nat) (below : Deeper) : Reader Node := do
  match ← takeKind? fun kind => kind = .plus ∨ kind = .minus with
  | some (kind, span) =>
    let operand ← below.sign
    let op ← expect (UnaryOp.ofToken? kind)
    return Parser.unary op span operand
  | none => atom rounds below

/-- A comparison of sums of products, or the negation of one (`Deeper.comparison`). -/
def comparison (rounds : Nat) (below : Deeper) : Reader Node := do
  match ← takeKind? (· = .notWord) with
  | some (_, span) => return Parser.unary .not span (← below.comparison)
  | none =>
    let product := chain .product (signed rounds below) rounds
    let sum := chain .sum product rounds
    chain .comparison sum rounds

/-- An assignment, which declares the variable if it begins with a type. -/
def assignment (below : Deeper) : Reader Node := do
  let start := (← step Parser.peek).span
  let type ← if (← step Parser.peek).kind.isType then step (some <$> Parser.type) else pure none
  let name ← step Parser.ident
  let _ ← step (Parser.take .equal)
  let value ← below.expression
  return ⟨start.through value.span, .assign type name value⟩

/-- An expression. It is an assignment if it begins with a type or with a name before an equals
sign. -/
def expressionBody (rounds : Nat) (below : Deeper) : Reader Node := do
  let token ← step Parser.peek
  let second ← step Parser.peekSecond?
  if token.kind.isType ∨ (token.kind = .identifier ∧ second = some .equal) then assignment below
  else chain .logic (comparison rounds below) rounds

/-- The readers for what lies deeper. -/
def deeper : Nat → Deeper
  | 0 => ⟨outOfFuel, outOfFuel, outOfFuel⟩
  | fuel + 1 =>
    let below := deeper fuel
    ⟨nested (expressionBody fuel below), nested (comparison fuel below), nested (signed fuel below)⟩

/-- An expression, as `deeper` reads it with so much fuel. -/
def expression (fuel : Nat) : Reader Node := (deeper fuel).expression

/-! ## Statements -/

/-- A condition in brackets. -/
def condition (below : Deeper) : Reader Node := do
  let _ ← step (Parser.take .leftParen)
  let inner ← below.expression
  let _ ← step (Parser.take .rightParen)
  return inner

/-- A `condition` and the block that depends on it. -/
def case (below : Deeper) (block : Reader Block) : Reader (Node × Block) := do
  let condition ← condition below
  let body ← block
  return (condition, body)

/-- Alternatives, each but the last under a condition. -/
def ifElse (rounds : Nat) (below : Deeper) (block : Reader Block) : Reader Node := do
  let start ← step (Parser.take .ifWord)
  let first ← case below block
  let others ← following (· = .elseifWord) (fun _ => some ()) (case below block) rounds
  let cases := first :: others.map Prod.snd
  if ← step (Parser.takeIf .elseWord) then
    let last ← block
    return ⟨start.span.through last.span, .ifElse (.ofCases cases (.otherwise last))⟩
  else
    let last := (others.map fun (_, _, body) => body.span).getLastD first.2.span
    return ⟨start.span.through last, .ifElse (.ofCases cases .none)⟩

/-- A block that is repeated under a condition, behind its word (`case`). -/
def whileLoop (below : Deeper) (block : Reader Block) : Reader Node := do
  let start ← step (Parser.take .whileWord)
  let condition ← condition below
  let body ← block
  return ⟨start.span.through body.span, .whileLoop condition body⟩

/-- A definition of a function. -/
def function (rounds : Nat) (block : Reader Block) : Reader Node := do
  let start ← step (Parser.take .functionWord)
  let name ← step Parser.ident
  let _ ← step (Parser.take .leftParen)
  let params ← if ← step (Parser.atKind .identifier) then
    separated .comma (step Parser.param) rounds else pure []
  let _ ← step (Parser.take .rightParen)
  let _ ← step (Parser.take .arrow)
  let returns ← step Parser.returnType
  let body ← block
  return ⟨start.span.through body.span, .function name params returns body⟩

/-- The end of a call, with the value it gives back if there is one. -/
def returned (below : Deeper) : Reader Node := do
  let start ← step (Parser.take .returnWord)
  if ← step (Parser.atKind .semicolon) then return ⟨start.span, .returnNothing⟩
  let value ← below.expression
  return ⟨start.span.through value.span, .returnValue value⟩

/-- Something before the semicolon that closes it. -/
def closed (inner : Reader Node) : Reader Node := do
  let node ← inner
  let _ ← step (Parser.take .semicolon)
  return node

/-- A statement, where blocks are read by a given reader. -/
def statementWith (rounds : Nat) (below : Deeper) (block : Reader Block) : Reader Node := do
  let token ← step Parser.peek
  match token.kind with
  | .ifWord => ifElse rounds below block
  | .whileWord => whileLoop below block
  | .functionWord => function rounds block
  | .leftBrace =>
    let inner ← block
    return ⟨inner.span, .block inner⟩
  | .returnWord => closed (returned below)
  | .breakWord => closed do return ⟨(← step (Parser.take .breakWord)).span, .breakLoop⟩
  | .continueWord => closed do return ⟨(← step (Parser.take .continueWord)).span, .continueLoop⟩
  | _ => closed below.expression

/-- A block. It is read up to its closing brace; at the end of the text that brace is missing. -/
def block : Nat → Reader Block
  | 0 => outOfFuel
  | fuel + 1 => nested do
    let first ← step (Parser.take .leftBrace)
    let items ← untilKind (fun kind => kind = .rightBrace ∨ kind = .endOfText)
      (statementWith fuel (deeper fuel) (block fuel)) fuel
    let last ← step (Parser.take .rightBrace)
    return ⟨first.span.through last.span, items⟩

/-- A statement, read with the blocks (`block`) that the fuel allows. -/
def statement (fuel : Nat) : Reader Node := statementWith fuel (deeper fuel) (block fuel)

/-- The statements of a text up to its end, read with a counter of levels instead of levels that are
left (`Parser.program`). -/
def program (fuel : Nat) : Reader Block := do
  let start := (← step Parser.peek).span
  let items ← untilKind (· = .endOfText) (statement fuel) fuel
  let last ← step (Parser.take .endOfText)
  return ⟨start.through last.span, items⟩

end Reader

end UnitScript
