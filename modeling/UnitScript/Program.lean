import UnitScript.Evaluation
import UnitScript.Parser.Statement
import UnitScript.Token.Lexer

/-!
# Running program texts

A text is read as tokens, the tokens as a program, and the program is run on a machine. What an
earlier program bound globally is there for a later one on the same machine.
-/

namespace UnitScript

/-- Why a text has no value: it is no program (`Block.ofText`), or its run cannot go on
(`Fault`). -/
inductive Failure where
  | lexical (e : LexError)
  | grammatical (e : SyntaxError)
  | runtime (e : Fault)

/-- The text of a failure, as the command line reports it. -/
def Failure.message : Failure → String
  | lexical e => e.message
  | grammatical e => e.message
  | runtime e => e.message

/-- The program that a text is: its tokens by `Token.ofText`, and the program of these by
`Block.ofTokens`. -/
def Block.ofText (text : List Char) : Except Failure Block :=
  match Token.ofText text with
  | .error e => .error (.lexical e)
  | .ok tokens => (Block.ofTokens tokens).mapError .grammatical

/-- How the run of a text ends: with a value or nothing, with a `Failure`, or because the fuel did
not last. -/
inductive Ending where
  | value (result : Option Located)
  | failure (failure : Failure)
  | outOfFuel

/-- Runs a text on a machine with so much fuel (`Block.run`). A text that is no program leaves the
machine as it is. -/
def runText (fuel : Nat) (text : List Char) (machine : Machine) : Ending × Machine :=
  match Block.ofText text with
  | .error failure => (.failure failure, machine)
  | .ok program =>
    match program.run fuel machine with
    | (.ok result, machine) => (.value result, machine)
    | (.fault e, machine) => (.failure (.runtime e), machine)
    | (.outOfFuel, machine) => (.outOfFuel, machine)

end UnitScript
