import UnitScript.Proofs.Control.Regular
import UnitScript.Proofs.Places.Alike

/-!
# Writing programs

A tree is written by putting brackets around every operand that is itself made by an operator or an
assignment; whether more brackets stand around expressions is a matter of `Style`, and so is how
doubles are spelled. `Node.tokens` and the functions beside it are the tokens of a tree that is
written so, all of them at the first place of a text, and `Node.levels` and those beside it count
the levels of nesting that reading them opens. `Writable` says of which trees this makes sense:
statements stand where statements may stand, quantities have a magnitude and a unit that are
literals or names, integers are not negative, and doubles are finite and spelled so that they are
read back.
-/

namespace UnitScript

/-! ## Words -/

/-- The token an operator is written with. -/
def UnaryOp.kind : UnaryOp → TokenKind
  | identity => .plus
  | negate => .minus
  | not => .notWord

/-- The token an operator is written with. -/
def BinaryOp.kind : BinaryOp → TokenKind
  | divide => .slash
  | multiply => .star
  | add => .plus
  | subtract => .minus
  | greater => .greater
  | greaterEqual => .greaterEqual
  | less => .less
  | lessEqual => .lessEqual
  | notEqual => .bangEqual
  | equal => .equalEqual
  | and => .andWord
  | or => .orWord

/-- The token a type is written with. -/
def TypeName.kind : TypeName → TokenKind
  | int => .intWord
  | double => .doubleWord
  | bool => .boolWord
  | string => .stringWord
  | phys => .physWord
  | unit => .unitWord
  | void => .voidWord

namespace Token

/-- A token that keeps no text. -/
def bare (kind : TokenKind) : Token := ⟨kind, none, .origin⟩

/-- A token that keeps a text. -/
def holding (kind : TokenKind) (text : String) : Token := ⟨kind, some text, .origin⟩

/-- Tokens in brackets, as they stand around an operand. -/
def bracketed (tokens : List Token) : List Token :=
  bare .leftParen :: tokens ++ [bare .rightParen]

/-- Groups of tokens with one of a kind between any two. -/
def separated (separator : TokenKind) (groups : List (List Token)) : List Token :=
  [bare separator].intercalate groups

end Token

/-- The token of a name. -/
def Ident.token (ident : Ident) : Token := .holding .identifier ident.name

/-- The tokens of a parameter. -/
def Param.tokens (param : Param) : List Token :=
  [param.ident.token, .bare .colon, .bare param.type.kind]

/-- The tokens of names joined by stars. -/
def Ident.starred (names : List Ident) : List Token :=
  Token.separated .star (names.map fun name => [name.token])

/-- The tokens of a unit, with pipes, stars and the bar. A lone one stands for no names above the
bar. -/
def unitTokens (above below : List Ident) : List Token :=
  .bare .pipe ::
    ((if above = [] then [.holding .intLiteral "1"] else Ident.starred above) ++
      if below = [] then [] else .bare .slash :: Ident.starred below) ++ [.bare .pipe]

/-! ## Trees -/

namespace Form

/-- Whether an operator or an assignment is at the top of an expression, so that it needs brackets
as an operand (`Style.operand`). -/
def isCompound : Form → Bool
  | unary _ _ | binary _ _ _ | assign _ _ _ => true
  | _ => false

/-- Whether the form is one of statements that are no expressions. -/
def isStatement : Form → Bool
  | ifElse _ | whileLoop _ _ | function _ _ _ _ | returnNothing | returnValue _ | breakLoop
  | continueLoop | block _ => true
  | _ => false

/-- Whether a statement ends in a block, so that no semicolon closes it. -/
def endsInBlock : Form → Bool
  | ifElse _ | whileLoop _ _ | function _ _ _ _ | block _ => true
  | _ => false

/-- Whether an expression may stand in front of the unit of a quantity. -/
def isMagnitude : Form → Bool
  | int _ | double _ | .variable _ => true
  | _ => false

end Form

/-- How trees are written where that is a matter of choice: the spelling of doubles, and brackets
that are not needed. What has no choice is in `Node.written` and the others. -/
structure Style where
  /-- The text of a double. -/
  spell : Float → String
  /-- Whether brackets stand around an expression even where it needs none. -/
  brackets : Node → Bool

namespace Style

variable (style : Style)

/-- Whether brackets stand around an operand: where it needs them (`Form.isCompound`), or where the
style has some. -/
def bracketsOperand (e : Node) : Bool := e.form.isCompound || style.brackets e

/-- An operand, with brackets if they are needed or wanted (`Style.bracketsOperand`). -/
def operand (e : Node) (tokens : List Token) : List Token :=
  if style.bracketsOperand e then Token.bracketed tokens else tokens

/-- An expression where none is needed to hold it together, with brackets if they are wanted
(`Style.brackets`). -/
def expression (e : Node) (tokens : List Token) : List Token :=
  if style.brackets e then Token.bracketed tokens else tokens

/-- A statement, with the semicolon that closes it. -/
def statement (e : Node) (tokens : List Token) : List Token :=
  (if e.form.isStatement then tokens else style.expression e tokens) ++
    if e.form.endsInBlock then [] else [.bare .semicolon]

/-- The levels that are opened where an operand stands. Brackets hold an expression, which opens a
level (`Parser.nested`). -/
def operandLevels (e : Node) (inside : Nat) : Nat :=
  if style.bracketsOperand e then inside + 1 else inside

/-- The levels that are opened where an expression stands. It opens one itself, and so does the
expression in brackets around it. -/
def expressionLevels (e : Node) (inside : Nat) : Nat :=
  if style.brackets e then inside + 2 else inside + 1

/-- The levels that are opened where a statement stands. -/
def statementLevels (e : Node) (inside : Nat) : Nat :=
  if e.form.isStatement then inside else style.expressionLevels e inside

end Style

variable (style : Style)

mutual

/-- The tokens of an expression without brackets around it, or of a statement without the
semicolon that closes it. -/
@[simp] def Node.tokens : Node → List Token
  | ⟨_, .int n⟩ => [.holding .intLiteral (Integer.text n)]
  | ⟨_, .double x⟩ => [.holding .doubleLiteral (style.spell x)]
  | ⟨_, .string s⟩ => [.holding .stringLiteral ("\"" ++ s ++ "\"")]
  | ⟨_, .bool b⟩ => [.bare (if b then .trueWord else .falseWord)]
  | ⟨_, .unit above below⟩ => unitTokens above below
  | ⟨_, .phys magnitude unit⟩ => magnitude.tokens ++ .bare .ampersand :: unit.tokens
  | ⟨_, .unary op e⟩ => .bare op.kind :: style.operand e e.tokens
  | ⟨_, .binary op left right⟩ =>
    style.operand left left.tokens ++ .bare op.kind :: style.operand right right.tokens
  | ⟨_, .variable ident⟩ => [ident.token]
  | ⟨_, .assign type ident e⟩ =>
    (type.map fun type => Token.bare type.kind).toList ++
      ident.token :: .bare .equal :: style.expression e e.tokens
  | ⟨_, .ifElse alternatives⟩ => alternatives.tokens .ifWord
  | ⟨_, .whileLoop condition body⟩ =>
    .bare .whileWord ::
      (Token.bracketed (style.expression condition condition.tokens) ++ body.tokens)
  | ⟨_, .function ident params returns body⟩ =>
    .bare .functionWord :: ident.token ::
      (Token.bracketed (Token.separated .comma (params.map Param.tokens)) ++
        .bare .arrow :: .bare returns.kind :: body.tokens)
  | ⟨_, .call ident args⟩ =>
    ident.token :: Token.bracketed (Token.separated .comma (Node.argumentTokens args))
  | ⟨_, .returnNothing⟩ => [.bare .returnWord]
  | ⟨_, .returnValue e⟩ => .bare .returnWord :: style.expression e e.tokens
  | ⟨_, .breakLoop⟩ => [.bare .breakWord]
  | ⟨_, .continueLoop⟩ => [.bare .continueWord]
  | ⟨_, .block block⟩ => block.tokens

/-- The tokens of each argument of a call. -/
@[simp] def Node.argumentTokens : List Node → List (List Token)
  | [] => []
  | e :: es => style.expression e e.tokens :: Node.argumentTokens es

/-- The tokens of statements one after the other. -/
@[simp] def Node.itemTokens : List Node → List Token
  | [] => []
  | e :: es => style.statement e e.tokens ++ Node.itemTokens es

/-- The tokens of statements between braces. -/
@[simp] def Block.tokens : Block → List Token
  | ⟨_, items⟩ => .bare .leftBrace :: Node.itemTokens items ++ [.bare .rightBrace]

/-- The tokens of alternatives, the first one behind a given word. -/
@[simp] def Alternatives.tokens (word : TokenKind) : Alternatives → List Token
  | .none => []
  | .otherwise block => .bare .elseWord :: block.tokens
  | .case condition body others =>
    .bare word :: (Token.bracketed (style.expression condition condition.tokens) ++ body.tokens) ++
      others.tokens .elseifWord

end

mutual

/-- The levels that the tokens of an expression open apart from the one that it opens itself, or
those that the tokens of a statement open. -/
@[simp] def Node.levels : Node → Nat
  | ⟨_, .unary _ e⟩ => style.operandLevels e e.levels + 1
  | ⟨_, .binary _ left right⟩ =>
    max (style.operandLevels left left.levels) (style.operandLevels right right.levels)
  | ⟨_, .assign _ _ e⟩ => style.expressionLevels e e.levels
  | ⟨_, .ifElse alternatives⟩ => alternatives.levels
  | ⟨_, .whileLoop condition body⟩ =>
    max (style.expressionLevels condition condition.levels) body.levels
  | ⟨_, .function _ _ _ body⟩ => body.levels
  | ⟨_, .call _ args⟩ => Node.argumentLevels args
  | ⟨_, .returnValue e⟩ => style.expressionLevels e e.levels
  | ⟨_, .block block⟩ => block.levels
  | _ => 0

/-- The levels that the arguments of a call open. -/
@[simp] def Node.argumentLevels : List Node → Nat
  | [] => 0
  | e :: es => max (style.expressionLevels e e.levels) (Node.argumentLevels es)

/-- The levels that statements open. -/
@[simp] def Node.itemLevels : List Node → Nat
  | [] => 0
  | e :: es => max (style.statementLevels e e.levels) (Node.itemLevels es)

/-- The levels that a block opens, of which one is its own. -/
@[simp] def Block.levels : Block → Nat
  | ⟨_, items⟩ => Node.itemLevels items + 1

/-- The levels that alternatives open. -/
@[simp] def Alternatives.levels : Alternatives → Nat
  | .none => 0
  | .otherwise block => block.levels
  | .case condition body others =>
    max (max (style.expressionLevels condition condition.levels) body.levels) others.levels

end

/-- The tokens of a whole program in a style, with the one for the end of the text (`Token.atEnd`).
`Block.ofTokens_written` reads them back. -/
def Block.written (program : Block) : List Token :=
  Node.itemTokens style program.items ++ [.bare .endOfText]

/-- Trees that can be written: those that have a text at all. Integers are not negative, doubles
have a spelling that reads as them (`Double.ofText?`), and no variable is of the type that stands
for none. -/
inductive Writable : Part → Prop
  | int : 0 ≤ n.toInt → Writable (.expression ⟨span, .int n⟩)
  | double : x.isFinite = true → Double.ofText? (style.spell x).toList = some x →
      Writable (.expression ⟨span, .double x⟩)
  | string : Writable (.expression ⟨span, .string s⟩)
  | bool : Writable (.expression ⟨span, .bool b⟩)
  | unit : Writable (.expression ⟨span, .unit above below⟩)
  /-- A name, an integer or a double is the magnitude of a unit that is written out. -/
  | phys : magnitude.form.isMagnitude = true → Writable (.expression magnitude) →
      Writable (.expression ⟨span, .phys magnitude ⟨unitSpan, .unit above below⟩⟩)
  | unary : Writable (.expression e) → Writable (.expression ⟨span, .unary op e⟩)
  | binary : Writable (.expression left) → Writable (.expression right) →
      Writable (.expression ⟨span, .binary op left right⟩)
  | name : Writable (.expression ⟨span, .variable ident⟩)
  | assign : type ≠ some .void → Writable (.expression e) →
      Writable (.expression ⟨span, .assign type ident e⟩)
  | call : Writable (.arguments args) → Writable (.expression ⟨span, .call ident args⟩)
  | noArguments : Writable (.arguments [])
  | moreArguments : Writable (.expression e) → Writable (.arguments es) →
      Writable (.arguments (e :: es))
  | evaluated : Writable (.expression e) → Writable (.statement e)
  /-- An `if` has at least one case. -/
  | ifElse : Writable (.expression condition) → Writable (.block body) →
      Writable (.alternatives others) →
      Writable (.statement ⟨span, .ifElse (.case condition body others)⟩)
  | whileLoop : Writable (.expression condition) → Writable (.block body) →
      Writable (.statement ⟨span, .whileLoop condition body⟩)
  | function : (∀ param ∈ params, param.type ≠ .void) → Writable (.block body) →
      Writable (.statement ⟨span, .function ident params returns body⟩)
  | returnNothing : Writable (.statement ⟨span, .returnNothing⟩)
  | returnValue : Writable (.expression e) → Writable (.statement ⟨span, .returnValue e⟩)
  | breakLoop : Writable (.statement ⟨span, .breakLoop⟩)
  | continueLoop : Writable (.statement ⟨span, .continueLoop⟩)
  | nested : Writable (.block b) → Writable (.statement ⟨span, .block b⟩)
  | noItems : Writable (.items [])
  | moreItems : Writable (.statement e) → Writable (.items es) → Writable (.items (e :: es))
  | block : Writable (.items es) → Writable (.block ⟨span, es⟩)
  | none : Writable (.alternatives .none)
  | otherwise : Writable (.block b) → Writable (.alternatives (.otherwise b))
  | case : Writable (.expression condition) → Writable (.block body) →
      Writable (.alternatives others) → Writable (.alternatives (.case condition body others))

end UnitScript
