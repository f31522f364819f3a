import UnitScript.Span

/-!
# Tokens

A program text is read as a list of tokens, closed by one token for the end of the text. A token
of a kind that bears a value keeps the text it was read from. Two tokens are alike if their kinds
are the same and, where the kind bears a value, their texts too; where they stand does not count.
-/

namespace UnitScript

/-- The kinds of tokens. `blank` stands for what the lexer leaves out. -/
inductive TokenKind where
  | leftParen | rightParen | leftBrace | rightBrace | comma | dot | colon | semicolon
  | arrow | pipe | ampersand
  | minus | plus | slash | star
  | bangEqual | equalEqual | greater | greaterEqual | less | lessEqual
  | intWord | doubleWord | charWord | boolWord | stringWord | physWord | unitWord | voidWord
  | andWord | breakWord | continueWord | elseWord | elseifWord | falseWord | functionWord
  | ifWord | notWord | orWord | returnWord | trueWord | whileWord
  | identifier | intLiteral | doubleLiteral | charLiteral | stringLiteral
  | equal | blank | endOfText
deriving DecidableEq, Repr, Inhabited

namespace TokenKind

/-- A kind as messages name it. For all but literals, identifiers, blanks and the end of the text
this is how its tokens are written (`Rule.all_eq` ties it to the rules). -/
def text : TokenKind → String
  | leftParen => "("
  | rightParen => ")"
  | leftBrace => "\x7b"
  | rightBrace => "\x7d"
  | comma => ","
  | dot => "."
  | colon => ":"
  | semicolon => ";"
  | arrow => "->"
  | pipe => "|"
  | ampersand => "&"
  | minus => "-"
  | plus => "+"
  | slash => "/"
  | star => "*"
  | bangEqual => "!="
  | equalEqual => "=="
  | greater => ">"
  | greaterEqual => ">="
  | less => "<"
  | lessEqual => "<="
  | intWord => "int"
  | doubleWord => "double"
  | charWord => "char"
  | boolWord => "bool"
  | stringWord => "string"
  | physWord => "phys"
  | unitWord => "unit"
  | voidWord => "void"
  | andWord => "and"
  | breakWord => "break"
  | continueWord => "continue"
  | elseWord => "else"
  | elseifWord => "elseif"
  | falseWord => "false"
  | functionWord => "function"
  | ifWord => "if"
  | notWord => "not"
  | orWord => "or"
  | returnWord => "return"
  | trueWord => "true"
  | whileWord => "while"
  | identifier => "identifier"
  | intLiteral => "int value"
  | doubleLiteral => "double value"
  | charLiteral => "char value"
  | stringLiteral => "string value"
  | equal => "="
  | blank => "whitespace"
  | endOfText => "end of text"

/-- Whether tokens of this kind keep their text. The token for the end of the text has none to
keep. -/
def bearsValue : TokenKind → Bool
  | identifier | intLiteral | doubleLiteral | charLiteral | stringLiteral | endOfText => true
  | _ => false

/-- Whether the kind names a type that variables and parameters can be declared with. -/
def isType : TokenKind → Bool
  | intWord | doubleWord | boolWord | stringWord | physWord | unitWord => true
  | _ => false

end TokenKind

/-- A token, with the text it was read from where its kind bears a value
(`TokenKind.bearsValue`). -/
structure Token where
  kind : TokenKind
  value : Option String
  span : Span
deriving DecidableEq, Repr, Inhabited

namespace Token

/-- Whether two tokens are the same up to where they stand: the kinds are equal, and so are the
texts that are kept. -/
def alike (a b : Token) : Bool :=
  a.kind == b.kind && (!a.kind.bearsValue || a.value == b.value)

/-- A token as messages show it: its own text if it keeps one, else its kind. -/
def text (token : Token) : String :=
  match token.value with
  | some value => if token.kind = .endOfText then token.kind.text else value
  | none => token.kind.text

/-- The text a token keeps, or nothing. -/
def lexeme (token : Token) : String := token.value.getD ""

end Token

end UnitScript
