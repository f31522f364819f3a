import UnitScript.Text.Lines
import UnitScript.Token.Rule

/-!
# Reading tokens

`Token.ofText` reads a text line by line. On a line the first rule that applies takes its lexeme
(`lexeme?`), blanks and comments are left out, and reading goes on behind the lexeme. Where no
rule applies the text is rejected at that character. A lexeme is never empty
(`lexeme?_length_pos`), so a line is always read to its end.
-/

namespace UnitScript

/-- A character at which no token begins, with the place where `Token.ofText` has come upon it. -/
structure LexError where
  character : Char
  position : Position
deriving DecidableEq, Repr

/-- The text of a lexical error. -/
def LexError.message (e : LexError) : String :=
  s!"Lex error at {e.position.text}: illegal character '{e.character}'"

/-- The kind and the length of a lexeme, as `Token.lexeme?` finds it. -/
structure Lexeme where
  kind : TokenKind
  length : Nat
deriving DecidableEq, Repr

namespace Token

/-- The lexeme at the front of the characters that are left: the one of the first rule that applies
(`Rule.length?`). -/
def lexeme? (cs : List Char) : Option Lexeme :=
  Rule.all.findSome? fun rule => (rule.length? cs).map (Lexeme.mk rule.kind)

/-- A lexeme is never empty. -/
theorem lexeme?_length_pos {cs : List Char} {lexeme : Lexeme} (h : lexeme? cs = some lexeme) :
    0 < lexeme.length := by
  obtain ⟨rule, -, hrule⟩ := List.exists_of_findSome?_eq_some h
  obtain ⟨n, hn, rfl⟩ := Option.map_eq_some_iff.1 hrule
  exact Rule.length?_pos hn

/-- The token a lexeme makes of the characters in front of it, which keeps them if its kind bears a
value (`TokenKind.bearsValue`). -/
def ofLexeme (lexeme : Lexeme) (position : Position) (cs : List Char) : Token where
  kind := lexeme.kind
  value :=
    if lexeme.kind.bearsValue then some (String.ofList (cs.take lexeme.length)) else none
  span := ⟨position, ⟨position.row, position.column + lexeme.length⟩⟩

/-- The tokens on the rest of a line that begins at a position, lexeme by lexeme (`lexeme?`). Where
there is none, the character is rejected. -/
def ofLine (position : Position) (cs : List Char) : Except LexError (List Token) :=
  match cs with
  | [] => .ok []
  | c :: rest =>
    match _h : lexeme? (c :: rest) with
    | none => .error ⟨c, position⟩
    | some lexeme => do
      let token := ofLexeme lexeme position (c :: rest)
      let tokens ← ofLine token.span.stop ((c :: rest).drop lexeme.length)
      return if lexeme.kind = .blank then tokens else token :: tokens
termination_by cs.length
decreasing_by
  have := lexeme?_length_pos _h
  simp only [List.length_drop, List.length_cons]
  omega

/-- The tokens of the lines from a row on (`ofLine`), closed by the token for the end of the text,
which stands on the row after the last line. -/
def ofLines (row : Nat) : List (List Char) → Except LexError (List Token)
  | [] => .ok [⟨.endOfText, none, .point ⟨row, 0⟩⟩]
  | line :: lines => do
    let tokens ← ofLine ⟨row, 0⟩ line
    let others ← ofLines (row + 1) lines
    return tokens ++ others

/-- The tokens of a text, line by line (`Text.lines`), or the first character at which none
begins. -/
def ofText (text : List Char) : Except LexError (List Token) :=
  ofLines 0 (Text.lines text)

end Token

end UnitScript
