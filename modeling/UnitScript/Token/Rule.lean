import UnitScript.Text.Alphanumeric
import UnitScript.Token

/-!
# Lexical rules

A rule says which texts make a token of a kind. Its `Pattern` takes a prefix of the characters
that are left, always as much as it can, and its `Boundary` names the characters that may not
follow. The rules stand in an order, and the first one that applies decides: reserved words come
before identifiers, and longer operators before their own prefixes.
-/

namespace UnitScript

/-- The forms of lexemes. How much of a line has one is told by `Pattern.length?`. -/
inductive Pattern where
  /-- Spaces, tabs, carriage returns and newlines. -/
  | blanks
  /-- Two slashes and the rest of the line. -/
  | comment
  /-- One fixed text. -/
  | fixed (text : List Char)
  /-- Digits, a point and digits. -/
  | decimal
  /-- A lone zero, or digits that do not begin with zero. -/
  | integer
  /-- One character between single quotes. -/
  | character
  /-- Any characters but double quotes between two of these. -/
  | quoted
  /-- A letter or underscore of ASCII, followed by letters, underscores and digits. -/
  | name

namespace Pattern

/-- Characters that separate tokens. -/
def isBlank (c : Char) : Bool := c == ' ' || c == '\t' || c == '\r' || c == '\n'

/-- Characters that begin a name. -/
def isNameStart (c : Char) : Bool := c.isAlpha || c == '_'

/-- Characters that continue a name. -/
def isNamePart (c : Char) : Bool := c.isAlphanum || c == '_'

/-- The number of characters at the front that satisfy a test. -/
def run (test : Char → Bool) (cs : List Char) : Nat := (cs.takeWhile test).length

/-- The length of the prefix a pattern takes, if it takes one. Patterns take as much as they can: a
`run` ends where its test fails. -/
def length? : Pattern → List Char → Option Nat
  | blanks, cs => if run isBlank cs = 0 then none else some (run isBlank cs)
  | comment, '/' :: '/' :: cs => some (2 + run (· != '\n') cs)
  | fixed text, cs => if text ≠ [] ∧ text.isPrefixOf cs then some text.length else none
  | decimal, cs =>
    match cs.drop (run Char.isDigit cs) with
    | '.' :: rest =>
      if run Char.isDigit cs = 0 ∨ run Char.isDigit rest = 0 then none
      else some (run Char.isDigit cs + 1 + run Char.isDigit rest)
    | _ => none
  | integer, c :: cs =>
    if c = '0' then some 1
    else if c.isDigit then some (1 + run Char.isDigit cs)
    else none
  | character, '\'' :: c :: '\'' :: _ => if c = '\n' then none else some 3
  | quoted, '"' :: cs =>
    if cs.contains '"' then some (run (· != '"') cs + 2) else none
  | name, c :: cs => if isNameStart c then some (1 + run isNamePart cs) else none
  | _, _ => none

/-- No pattern takes an empty prefix. -/
theorem length?_pos {pattern : Pattern} {cs : List Char} {n : Nat}
    (h : pattern.length? cs = some n) : 0 < n := by
  unfold length? at h
  split at h
  case h_1 => split at h <;> simp at h; omega
  case h_2 => simp at h; omega
  case h_3 =>
    split at h
    next ht => simp at h; rw [← h]; exact List.length_pos_iff.2 ht.1
    next => simp at h
  case h_4 =>
    split at h
    · split at h
      · simp at h
      · simp at h; omega
    · simp at h
  case h_5 =>
    split at h
    · simp at h; omega
    · split at h <;> simp at h; omega
  case h_6 => split at h <;> simp at h; omega
  case h_7 => split at h <;> simp at h; omega
  case h_8 => split at h <;> simp at h; omega
  case h_9 => simp at h

end Pattern

/-- What may not follow a lexeme (`Boundary.rejects`). -/
inductive Boundary where
  /-- Anything may follow. -/
  | free
  /-- No letter, digit or underscore may follow. -/
  | word
  /-- No letter, digit, underscore or point may follow. -/
  | number
deriving DecidableEq

namespace Boundary

/-- Whether a character may not follow (`Text.isAlphanumeric`). Letters and digits of any script are
rejected, though names have ASCII only. -/
def rejects : Boundary → Char → Bool
  | free, _ => false
  | word, c => Text.isAlphanumeric c || c == '_'
  | number, c => Text.isAlphanumeric c || c == '_' || c == '.'

end Boundary

/-- A lexical rule: what it finds (`Pattern`), the kind of its tokens, and what may not follow
(`Boundary`). -/
structure Rule where
  pattern : Pattern
  kind : TokenKind
  boundary : Boundary

namespace Rule

/-- The length of the lexeme a rule finds at the front of the characters that are left
(`Pattern.length?`), unless what follows it is rejected (`Boundary.rejects`). -/
def length? (rule : Rule) (cs : List Char) : Option Nat :=
  match rule.pattern.length? cs with
  | none => none
  | some n =>
    if (cs.drop n).head?.any rule.boundary.rejects then none else some n

/-- No rule finds an empty lexeme. -/
theorem length?_pos {rule : Rule} {cs : List Char} {n : Nat} (h : rule.length? cs = some n) :
    0 < n := by
  unfold length? at h
  split at h
  next => simp at h
  next m hm =>
    split at h
    next => simp at h
    next => exact Option.some.inj h ▸ Pattern.length?_pos hm

/-- A reserved word, with its text. No name may go on behind it (`Boundary.word`). -/
def ofWord (text : String) (kind : TokenKind) : Rule := ⟨.fixed text.toList, kind, .word⟩

/-- An operator or a punctuation mark, with its text. Anything may follow (`Boundary.free`). -/
def ofMark (text : String) (kind : TokenKind) : Rule := ⟨.fixed text.toList, kind, .free⟩

/-- The rules of the language, in the order in which they are tried. The texts of words and marks
stand here in their own right; that they are the ones of `TokenKind.text` is a property of the
table. -/
def all : List Rule :=
  [⟨.blanks, .blank, .free⟩, ⟨.comment, .blank, .free⟩,
   ofWord "double" .doubleWord, ofWord "int" .intWord, ofWord "char" .charWord,
   ofWord "bool" .boolWord, ofWord "string" .stringWord, ofWord "phys" .physWord,
   ofWord "unit" .unitWord, ofWord "void" .voidWord,
   ofWord "if" .ifWord, ofWord "elseif" .elseifWord, ofWord "else" .elseWord,
   ofWord "true" .trueWord, ofWord "false" .falseWord, ofWord "function" .functionWord,
   ofWord "return" .returnWord, ofWord "while" .whileWord, ofWord "break" .breakWord,
   ofWord "continue" .continueWord, ofWord "or" .orWord, ofWord "and" .andWord,
   ofWord "not" .notWord,
   ofMark "->" .arrow, ofMark "," .comma, ofMark "\x7b" .leftBrace, ofMark "\x7d" .rightBrace,
   ofMark "." .dot, ofMark "==" .equalEqual, ofMark "=" .equal, ofMark "(" .leftParen,
   ofMark ")" .rightParen, ofMark ";" .semicolon, ofMark ":" .colon, ofMark "+" .plus,
   ofMark "-" .minus, ofMark "*" .star, ofMark "/" .slash, ofMark "<=" .lessEqual,
   ofMark ">=" .greaterEqual, ofMark "<" .less, ofMark ">" .greater, ofMark "!=" .bangEqual,
   ofMark "|" .pipe, ofMark "&" .ampersand,
   ⟨.decimal, .doubleLiteral, .word⟩, ⟨.integer, .intLiteral, .number⟩,
   ⟨.character, .charLiteral, .free⟩, ⟨.quoted, .stringLiteral, .free⟩,
   ⟨.name, .identifier, .free⟩]

end Rule

end UnitScript
