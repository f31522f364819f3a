import UnitScript.Arguments

/-!
# The program

The outer layer: reads the arguments (`Options.ofArgs?`), the file or the lines that are typed in,
and writes what the run reports (`execute`).
-/

namespace UnitScript.CommandLine

/-- More fuel than any run uses up. -/
def plenty : Nat := 0x10000000000000000

/-- The bytes of a line that is typed in, behind those already read. -/
partial def typedLine (bytes : List UInt8) : IO (List UInt8) := do
  let next ← (← IO.getStdin).read 1
  if next.isEmpty then return bytes
  let bytes := bytes ++ next.toList
  if next.toList = [10] then return bytes else typedLine bytes

/-- Prompts for lines until the program that is typed in ends, or one of them is no text. -/
partial def typedIn (typed : List UInt8) : IO (List UInt8) := do
  let out ← IO.getStdout
  out.putStr Input.prompt
  out.flush
  let line ← typedLine []
  let typed := typed ++ line
  match (Input.ofBytes .interactive line).readLine with
  | (.error _, _) => return typed
  | (.ok _, input) => if input.ended then return typed else typedIn typed

/-- The bytes of a program. -/
def sourceOf (options : Options) : IO (Except ReadError (List UInt8)) := do
  try
    match options.path with
    | some path => return .ok (← IO.FS.readBinFile path).toList
    | none => return .ok (← typedIn [])
  catch
    | .noFileOrDirectory .. => return .error .missing
    | .inappropriateType .. => return .error .directory
    | e => return .error (.failed (toString e))

end UnitScript.CommandLine

open UnitScript.CommandLine in
def main (args : List String) : IO UInt32 := do
  match Options.ofArgs? args with
  | none =>
    IO.eprintln "usage: unitscript [PATH | --file PATH | --interactive] [--max-depth N]"
    return usageErrorCode.toUInt32
  | some options =>
    match execute plenty options (← sourceOf options) with
    | none =>
      IO.eprintln "The program did not come to an end."
      return 1
    | some report =>
      IO.print report.out
      IO.eprint report.err
      return report.code.toUInt32
