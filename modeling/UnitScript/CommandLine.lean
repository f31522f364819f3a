import UnitScript.Input
import UnitScript.Program

/-!
# The command line

`Options` say where the program is read from and how deep calls may be nested. `execute` runs the
program that was read and reports what is written to which stream, and the exit code (`Report`).
How options come from arguments is left to the outer layer (`UnitScript.Arguments`).
-/

namespace UnitScript.CommandLine

/-- What the command line decides of a run: where the program is read from (`Options.mode`), and the
limit on nested calls of the machine that runs it (`Machine.initial`). -/
structure Options where
  /-- The path of a file, or nothing for a program that is typed in. -/
  path : Option String
  maxDepth : Nat
deriving DecidableEq, Repr

/-- How a program is read under given options: `InputMode.file` where a path is given,
`InputMode.interactive` where the program is typed in. -/
def Options.mode (options : Options) : InputMode :=
  if options.path.isSome then .file else .interactive

/-- What a run leaves behind: the exit code and the texts of the two streams. The prompts that
`Input.readLine` writes come before everything else on the standard output. -/
structure Report where
  code : Nat
  prompts : String
  out : String
  err : String
deriving DecidableEq, Repr

/-- Lines as they are written to a stream, each of them closed by a newline (`Report.Tells` spells
out the characters). -/
def linesText (lines : List String) : String :=
  String.join (lines.map (· ++ "\n"))

/-- The report of a program that could not be read: exit code one and the text of the reading error
(`ReadError.message`), behind the prompts that were written up to then. -/
def Report.unread (prompts : String) (e : ReadError) : Report :=
  ⟨1, prompts, "", linesText ["Failed to read the program: " ++ e.message]⟩

/-- The report of a program that was run: what it printed and the text of its value (`Value.text`),
or the text of its failure (`Failure.message`). A run of which the fuel did not last has none. -/
def Report.ofEnding? (prompts : String) (ending : Ending) (printed : Array String) :
    Option Report :=
  match ending with
  | .value none => some ⟨0, prompts, linesText printed.toList, ""⟩
  | .value (some v) => some ⟨0, prompts, linesText (printed.toList ++ [v.value.text]), ""⟩
  | .failure failure => some ⟨1, prompts, linesText printed.toList, linesText [failure.message]⟩
  | .outOfFuel => none

/-- Reads a program with `Input.readProgram` from the bytes of its file or of the standard input,
runs it with `runText` on `Machine.initial`, and reports with `Report.ofEnding?`. -/
def execute (fuel : Nat) (options : Options) (source : Except ReadError (List UInt8)) :
    Option Report :=
  match source with
  | .error e => some (.unread "" e)
  | .ok bytes =>
    match (Input.ofBytes options.mode bytes).readProgram with
    | (.error e, input) => some (.unread input.promptText e)
    | (.ok text, input) =>
      let (ending, machine) := runText fuel text (.initial options.maxDepth)
      Report.ofEnding? input.promptText ending machine.printed

end UnitScript.CommandLine
