import UnitScript.Parser.Statement

/-!
# The grammar of programs

`Derives n p tokens` says that the tokens are an instance of the phrase `p`, where `n` further
levels of nesting may be opened inside it. A phrase names a part of the language together with the
tree it stands for, spans included, so a derivation fixes what a reader of the tokens has to
return. The rules speak of whole stretches of tokens: they look at nothing that follows a phrase,
and they know of no order in which alternatives are tried. `Block.DerivedFrom` is the grammar of a
whole text, whose end is marked by a token; what stands behind that token does not count.

An expression, a block, and the operand of a sign or of `not` open a level of nesting each.
-/

namespace UnitScript

/-- The name that a token is read as: its text (`Token.lexeme`), at its place. -/
def Token.ident (token : Token) : Ident := ⟨token.lexeme, token.span⟩

/-- Where the last block of alternatives stands that follow one at a given place, up to which an
`if` reaches. -/
def Alternatives.lastSpan (before : Span) : Alternatives → Span
  | .none => before
  | .otherwise block => block.span
  | .case _ body others => others.lastSpan body.span

/-- A list whose elements are separated by tokens of a kind (`TokenKind`); there is one element at
least. -/
inductive Separated {α : Type} (separator : TokenKind) (element : α → List Token → Prop) :
    List α → List Token → Prop
  /-- The last element stands alone. -/
  | last : element a ts → Separated separator element [a] ts
  /-- An element is followed by a separator and further elements. -/
  | more : element a ts → sep.kind = separator → Separated separator element as us →
      Separated separator element (a :: as) (ts ++ sep :: us)

/-- A name is one token. -/
inductive DerivesIdent : Ident → List Token → Prop
  | name : name.kind = .identifier → DerivesIdent name.ident [name]

/-- A parameter is a name, a colon and a type of variables (`TokenKind.isType`). -/
inductive DerivesParam : Param → List Token → Prop
  | param : name.kind = .identifier → colon.kind = .colon → word.kind.isType = true →
      TypeName.ofToken? word.kind = some type →
      DerivesParam ⟨name.ident, type⟩ [name, colon, word]

/-- Parameters are separated by commas (`Separated`); there may be none. -/
inductive DerivesParams : List Param → List Token → Prop
  | none : DerivesParams [] []
  | some : Separated .comma DerivesParam params ts → DerivesParams params ts

/-- What stands above the bar of a unit: names joined by stars, or a lone `1` for no names. -/
inductive DerivesNumerator : List Ident → List Token → Prop
  | names : Separated .star DerivesIdent names ts → DerivesNumerator names ts
  | one : number.kind = .intLiteral → number.lexeme = "1" → DerivesNumerator [] [number]

/-- What stands below the bar of a unit, with the bar: names joined by stars, or nothing. -/
inductive DerivesDenominator : List Ident → List Token → Prop
  | names : bar.kind = .slash → Separated .star DerivesIdent names ts →
      DerivesDenominator names (bar :: ts)
  | none : DerivesDenominator [] []

/-- A unit stands between two pipes: what is above the bar (`DerivesNumerator`) and what is below it
(`DerivesDenominator`). -/
inductive DerivesUnit : Node → List Token → Prop
  | unit : first.kind = .pipe → DerivesNumerator above ts → DerivesDenominator below us →
      last.kind = .pipe →
      DerivesUnit ⟨first.span.through last.span, .unit above below⟩
        (first :: (ts ++ us) ++ [last])

/-- A number is one token, whose text reads as an integer in range (`Integer.ofText?`) or as a
finite double (`Double.ofText?`). -/
inductive DerivesNumber : Node → Token → Prop
  | int : token.kind = .intLiteral → Integer.ofText? token.lexeme.toList = some value →
      DerivesNumber ⟨token.span, .int value⟩ token
  | double : token.kind = .doubleLiteral → Double.ofText? token.lexeme.toList = some value →
      DerivesNumber ⟨token.span, .double value⟩ token

/-- The magnitude of a quantity is a name or a number (`DerivesNumber`), and is one token. -/
inductive DerivesMagnitude : Node → Token → Prop
  | name : name.kind = .identifier → DerivesMagnitude ⟨name.span, .variable name.ident⟩ name
  | number : DerivesNumber e token → DerivesMagnitude e token

/-- The parts of the language that may contain themselves, with their trees: what `Derives` speaks
of. -/
inductive Phrase where
  /-- What operators do not take apart. -/
  | atom (e : Node)
  /-- An atom behind signs. -/
  | signed (e : Node)
  /-- Operands joined by the operators of a tier. -/
  | chain (tier : Tier) (e : Node)
  /-- A comparison, or the negation of one. -/
  | comparison (e : Node)
  | expression (e : Node)
  /-- The arguments of a call. -/
  | arguments (es : List Node)
  /-- A condition in brackets and the block that depends on it. -/
  | case (condition : Node) (body : Block)
  /-- What an `if` has behind its first case. -/
  | others (alternatives : Alternatives)
  | block (b : Block)
  /-- What stands in front of a semicolon. -/
  | simple (e : Node)
  /-- A statement, with the semicolon that closes it. -/
  | item (e : Node)
  | items (es : List Node)

/-- What the operators of a tier join: the `Phrase` of the tier that binds more tightly, or what
stands around it. -/
def Tier.operand : Tier → Node → Phrase
  | .logic => .comparison
  | .comparison => .chain .sum
  | .sum => .chain .product
  | .product => .signed

/-- The tokens are an instance of a phrase in which `n` further levels may be opened. This is the
grammar of the language, rule by rule; it does not mention the parser, but for the trees that
operators make (`Parser.unary`, `Parser.binary`). -/
inductive Derives : Nat → Phrase → List Token → Prop
  /-- A name. -/
  | name : name.kind = .identifier →
      Derives n (.atom ⟨name.span, .variable name.ident⟩) [name]
  /-- A number. -/
  | number : DerivesNumber e token → Derives n (.atom e) [token]
  /-- A magnitude, an ampersand and a unit. -/
  | quantity : DerivesMagnitude magnitude token → ampersand.kind = .ampersand →
      DerivesUnit unit ts →
      Derives n (.atom ⟨magnitude.span.through unit.span, .phys magnitude unit⟩)
        (token :: ampersand :: ts)
  /-- A unit. -/
  | unit : DerivesUnit e ts → Derives n (.atom e) ts
  /-- A text between quotes of either kind, which are no part of it. -/
  | text : token.kind = .stringLiteral ∨ token.kind = .charLiteral →
      Derives n (.atom ⟨token.span, .string token.enclosed⟩) [token]
  /-- A truth value. -/
  | trueWord : token.kind = .trueWord → Derives n (.atom ⟨token.span, .bool true⟩) [token]
  /-- A truth value. -/
  | falseWord : token.kind = .falseWord → Derives n (.atom ⟨token.span, .bool false⟩) [token]
  /-- An expression in brackets, which count as a part of it. -/
  | group : first.kind = .leftParen → Derives n (.expression e) ts → last.kind = .rightParen →
      Derives n (.atom ⟨first.span.through last.span, e.form⟩) (first :: ts ++ [last])
  /-- A call of a function by its name. -/
  | call : name.kind = .identifier → first.kind = .leftParen → Derives n (.arguments args) ts →
      last.kind = .rightParen →
      Derives n (.atom ⟨name.span.through last.span, .call name.ident args⟩)
        (name :: first :: ts ++ [last])
  /-- A call without arguments. -/
  | noArguments : Derives n (.arguments []) []
  /-- The last argument stands alone. -/
  | lastArgument : Derives n (.expression e) ts → Derives n (.arguments [e]) ts
  /-- An argument is followed by a comma and further arguments. -/
  | moreArguments : Derives n (.expression e) ts → comma.kind = .comma →
      Derives n (.arguments (e' :: es)) us →
      Derives n (.arguments (e :: e' :: es)) (ts ++ comma :: us)
  /-- An atom without a sign. -/
  | unsigned : Derives n (.atom e) ts → Derives n (.signed e) ts
  /-- A sign in front of its operand. -/
  | sign : UnaryOp.ofToken? token.kind = some op → op ≠ .not → Derives n (.signed e) ts →
      Derives (n + 1) (.signed (Parser.unary op token.span e)) (token :: ts)
  /-- A single operand. -/
  | single : Derives n (tier.operand e) ts → Derives n (.chain tier e) ts
  /-- An operator between the operands before it, which it takes together, and one more. -/
  | joined : Derives n (.chain tier left) ts → BinaryOp.ofToken? token.kind = some op →
      op.tier = tier → Derives n (tier.operand right) us →
      Derives n (.chain tier (Parser.binary left op right)) (ts ++ token :: us)
  /-- A comparison that is not negated. -/
  | compared : Derives n (.chain .comparison e) ts → Derives n (.comparison e) ts
  /-- `not` in front of a comparison. -/
  | negated : token.kind = .notWord → Derives n (.comparison e) ts →
      Derives (n + 1) (.comparison (Parser.unary .not token.span e)) (token :: ts)
  /-- An expression that assigns nothing at its top. -/
  | logical : Derives n (.chain .logic e) ts → Derives (n + 1) (.expression e) ts
  /-- The assignment of an expression to a name. -/
  | assign : name.kind = .identifier → equal.kind = .equal → Derives n (.expression e) ts →
      Derives (n + 1)
        (.expression ⟨name.span.through e.span, .assign none name.ident e⟩)
        (name :: equal :: ts)
  /-- The declaration of a variable with its type. -/
  | declare : word.kind.isType = true → TypeName.ofToken? word.kind = some type →
      name.kind = .identifier → equal.kind = .equal → Derives n (.expression e) ts →
      Derives (n + 1)
        (.expression ⟨word.span.through e.span, .assign (some type) name.ident e⟩)
        (word :: name :: equal :: ts)
  /-- A condition in brackets and a block. -/
  | case : first.kind = .leftParen → Derives n (.expression condition) ts →
      last.kind = .rightParen → Derives n (.block body) us →
      Derives n (.case condition body) (first :: ts ++ last :: us)
  /-- Nothing behind the cases of an `if`. -/
  | noOthers : Derives n (.others .none) []
  /-- An `else` block behind the cases of an `if`. -/
  | otherwise : word.kind = .elseWord → Derives n (.block b) ts →
      Derives n (.others (.otherwise b)) (word :: ts)
  /-- A further case of an `if`. -/
  | elseIf : word.kind = .elseifWord → Derives n (.case condition body) ts →
      Derives n (.others alternatives) us →
      Derives n (.others (.case condition body alternatives)) (word :: ts ++ us)
  /-- Statements between braces. -/
  | block : first.kind = .leftBrace → Derives n (.items es) ts → last.kind = .rightBrace →
      Derives (n + 1) (.block ⟨first.span.through last.span, es⟩) (first :: ts ++ [last])
  /-- A value that ends a call. -/
  | returnValue : word.kind = .returnWord → Derives n (.expression e) ts →
      Derives n (.simple ⟨word.span.through e.span, .returnValue e⟩) (word :: ts)
  /-- The end of a call. -/
  | returnNothing : word.kind = .returnWord →
      Derives n (.simple ⟨word.span, .returnNothing⟩) [word]
  /-- The end of a loop. -/
  | breakLoop : word.kind = .breakWord → Derives n (.simple ⟨word.span, .breakLoop⟩) [word]
  /-- The end of a round of a loop. -/
  | continueLoop : word.kind = .continueWord →
      Derives n (.simple ⟨word.span, .continueLoop⟩) [word]
  /-- An expression for its effects or as the value of a block. -/
  | evaluated : Derives n (.expression e) ts → Derives n (.simple e) ts
  /-- A statement that a semicolon closes. -/
  | closed : Derives n (.simple e) ts → semicolon.kind = .semicolon →
      Derives n (.item e) (ts ++ [semicolon])
  /-- Alternatives, each but the last under a condition. -/
  | ifElse : word.kind = .ifWord → Derives n (.case condition body) ts →
      Derives n (.others alternatives) us →
      Derives n
        (.item ⟨word.span.through (alternatives.lastSpan body.span),
          .ifElse (.case condition body alternatives)⟩)
        (word :: ts ++ us)
  /-- A block that is repeated under a condition. -/
  | whileLoop : word.kind = .whileWord → Derives n (.case condition body) ts →
      Derives n (.item ⟨word.span.through body.span, .whileLoop condition body⟩) (word :: ts)
  /-- A definition of a function. -/
  | function : word.kind = .functionWord → name.kind = .identifier → first.kind = .leftParen →
      DerivesParams params ts → last.kind = .rightParen → arrow.kind = .arrow →
      TypeName.ofToken? result.kind = some returns → Derives n (.block body) us →
      Derives n
        (.item ⟨word.span.through body.span, .function name.ident params returns body⟩)
        (word :: name :: first :: ts ++ last :: arrow :: result :: us)
  /-- A block as a statement. -/
  | nested : Derives n (.block b) ts → Derives n (.item ⟨b.span, .block b⟩) ts
  /-- No statements. -/
  | noItems : Derives n (.items []) []
  /-- A statement in front of others. -/
  | moreItems : Derives n (.item e) ts → Derives n (.items es) us →
      Derives n (.items (e :: es)) (ts ++ us)

/-- The tokens of a whole text are statements (`Derives`) up to the token for its end; what follows
that is of no account. -/
inductive Block.DerivedFrom : Block → List Token → Prop
  | program : Derives nestingLimit (.items es) ts → last.kind = .endOfText →
      (ts ++ [last]).head? = some first →
      Block.DerivedFrom ⟨first.span.through last.span, es⟩ (ts ++ last :: rest)

end UnitScript
