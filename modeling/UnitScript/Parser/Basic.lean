import UnitScript.Token

/-!
# Parsers over tokens

A `Parser` reads something off the front of a list of tokens, or refuses the tokens that are left
and says what it expected there. Every parser of the language is put together from the few below;
of these only `accept` and `acceptIf?` move past a token, one at a time, so what a parser leaves
is a suffix of what it was given.

Where no tokens are left the same error is reported whatever was expected.
-/

namespace UnitScript

/-- What is missing where tokens cannot be read on. The text of a `SyntaxError` shows it
(`Expectation.text`). -/
inductive Expectation where
  | token (kind : TokenKind)
  | expression
  | type
  | returnType
  | numerator
  | integer
  | double
  | nesting
deriving DecidableEq, Repr

/-- How deep expressions and blocks may be nested before `Expectation.nesting` is reported. -/
def nestingLimit : Nat := 256

/-- What is missing, as messages name it. -/
def Expectation.text : Expectation → String
  | token kind => kind.text
  | expression => "expression"
  | type => "one of int, double, bool, string, phys, unit"
  | returnType => "a type or void"
  | numerator => "identifier or 1"
  | integer => "integer literal within 64-bit range"
  | double => "finite double literal"
  | nesting => s!"expression nested at most {nestingLimit} levels deep"

/-- A place where tokens cannot be read on, with what is missing (`Expectation`) and what was
found. -/
structure SyntaxError where
  position : Position
  expected : Expectation
  found : String
deriving DecidableEq, Repr

/-- The text of a syntax error: where it is, what was expected (`Expectation.text`) and what was
found. -/
def SyntaxError.message (e : SyntaxError) : String :=
  s!"Syntax error at {e.position.text}: expected {e.expected.text}, found {e.found}"

/-- What a parser expected in front of the tokens that were left, and how many levels deep it was
there. What is reported of it is `Refusal.error`. -/
structure Refusal where
  expected : Expectation
  rest : List Token
  depth : Nat
deriving DecidableEq, Repr

/-- The error a refusal is reported as: it stands at the first token that was left, and names what
was missing (`Expectation`). -/
def Refusal.error : Refusal → SyntaxError
  | ⟨_, [], _⟩ => ⟨.origin, .token .endOfText, "end of stream"⟩
  | ⟨expected, token :: _, _⟩ => ⟨token.span.start, expected, token.text⟩

/-- Reads something off the front of a list of tokens and leaves the others, or refuses
(`Refusal`). -/
abbrev Parser := StateT (List Token) (Except Refusal)

namespace Parser

variable {α β : Type}

/-- Reads what a parser accepts, whatever follows it. A `Refusal` is turned into the error for the
token it stands at. -/
def parse (p : Parser α) (tokens : List Token) : Except SyntaxError α :=
  match p tokens with
  | .ok (result, _) => .ok result
  | .error refusal => .error refusal.error

/-- Refuses the tokens that are left, on the level where the parser is (`Refusal`). -/
def refuse (expected : Expectation) : Parser α := fun tokens => .error ⟨expected, tokens, 0⟩

/-- Reads something that lies one level deeper: a refusal from there counts that level
(`Refusal.depth`). -/
def nested (p : Parser α) : Parser α := fun tokens =>
  (p tokens).mapError fun refusal => { refusal with depth := refusal.depth + 1 }

/-- Takes the first token if it can be read as something. -/
def accept (expected : Expectation) (read : Token → Option α) : Parser α
  | [] => .error ⟨expected, [], 0⟩
  | token :: tokens =>
    match read token with
    | some result => .ok (result, tokens)
    | none => .error ⟨expected, token :: tokens, 0⟩

/-- Takes the first token if its kind can be read as something, and nothing otherwise. The result
comes with the place of the token. -/
def acceptIf? (read : TokenKind → Option α) : Parser (Option (α × Span))
  | [] => .ok (none, [])
  | token :: tokens =>
    match read token.kind with
    | some result => .ok (some (result, token.span), tokens)
    | none => .ok (none, token :: tokens)

/-- Looks at the first token. Where there is none, the end of the text is missed
(`Expectation.token`). -/
def peek : Parser Token
  | [] => .error ⟨.token .endOfText, [], 0⟩
  | token :: tokens => .ok (token, token :: tokens)

/-- Looks at the kind of the second token. -/
def peekSecond? : Parser (Option TokenKind) := fun tokens =>
  .ok (tokens[1]?.map Token.kind, tokens)

/-- Takes a token of a kind, which is what is expected (`Expectation.token`) where it is of another
one. -/
def take (kind : TokenKind) : Parser Token :=
  accept (.token kind) fun token => if token.kind = kind then some token else none

/-- Whether the first token is of a kind. There has to be one. -/
def atKind (kind : TokenKind) : Parser Bool := do
  return (← peek).kind = kind

/-- Takes the first token if it is of a kind (`acceptIf?`), and says whether it did. -/
def takeIf (kind : TokenKind) : Parser Bool := do
  let taken ← acceptIf? fun other => if other = kind then some () else none
  return taken.isSome

/-- Reads as many items as follow, each behind a token that leads to it, up to a bound, which is
there for the recursion (`following`). -/
def followingUpTo (lead : TokenKind → Option β) (item : Parser α) : Nat → Parser (List (β × α))
  | 0 => return []
  | bound + 1 => do
    match ← acceptIf? lead with
    | none => return []
    | some (leader, _) =>
      let first ← item
      let others ← followingUpTo lead item bound
      return (leader, first) :: others

/-- Reads as many items as follow, each behind a token that leads to it. There are no more items
than tokens, so the bound of `followingUpTo` is never what ends them. -/
def following (lead : TokenKind → Option β) (item : Parser α) : Parser (List (β × α)) :=
  fun tokens => followingUpTo lead item tokens.length tokens

/-- Reads items that are separated by tokens of a kind: a first one, and others in a loop
(`following`). -/
def separated (separator : TokenKind) (item : Parser α) : Parser (List α) := do
  let first ← item
  let others ← following (fun kind => if kind = separator then some () else none) item
  return first :: others.map Prod.snd

/-- Reads items until a token of a closing kind is next, up to a bound, which is there for the
recursion (`untilKind`). -/
def untilUpTo (closes : TokenKind → Bool) (item : Parser α) : Nat → Parser (List α)
  | 0 => refuse (.token .endOfText)
  | bound + 1 => do
    if closes (← peek).kind then return []
    let first ← item
    let others ← untilUpTo closes item bound
    return first :: others

/-- Reads items until a token of a closing kind is next. An item takes at least one token, and where
none are left nothing closes, so the bound of `untilUpTo` is never what ends the list. -/
def untilKind (closes : TokenKind → Bool) (item : Parser α) : Parser (List α) :=
  fun tokens => untilUpTo closes item tokens.length tokens

end Parser

end UnitScript
