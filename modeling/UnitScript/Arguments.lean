import UnitScript.CommandLine

/-!
# Arguments of the program

The outer layer, beside `UnitScript.Main`: how the arguments of the program come to the
`CommandLine.Options` of its run. They are read one by one, as readers of arguments commonly do. An
option with a value waits for the next argument unless its value is attached, and behind two dashes
everything is a path. The conventions are those of a library and not of the language; the theory is
about `CommandLine.execute` on given options and says nothing of them.
-/

namespace UnitScript.CommandLine

/-- The options that take a value. -/
inductive Key where
  | file
  | maxDepth
deriving DecidableEq, Repr

/-- What the arguments so far have said. -/
structure Arguments where
  file : Option String
  interactive : Bool
  maxDepth : Option Nat
  path : Option String
  /-- The option whose value is the next argument. -/
  pending : Option Key
  /-- Whether all further arguments are paths. -/
  pathsOnly : Bool
deriving DecidableEq, Repr

namespace Arguments

/-- Nothing has been said. -/
def empty : Arguments := ⟨none, false, none, none, none, false⟩

/-- A limit on the depth of calls: digits, possibly behind a plus sign, of a number of 64 bits. -/
def depth? (value : List Char) : Option Nat :=
  let digits := match value with
    | '+' :: digits => digits
    | digits => digits
  (Integer.digits? digits).filter (· < 0x10000000000000000)

/-- Gives an option its value, which no option takes twice. -/
def put (arguments : Arguments) (key : Key) (value : List Char) : Option Arguments :=
  match key with
  | .file =>
    if value = [] ∨ arguments.file.isSome then none
    else some { arguments with file := some (String.ofList value), pending := none }
  | .maxDepth =>
    if arguments.maxDepth.isSome then none
    else (depth? value).map fun depth =>
      { arguments with maxDepth := some depth, pending := none }

/-- Takes the path of the program, of which there is one at most. -/
def putPath (arguments : Arguments) (value : List Char) : Option Arguments :=
  if value = [] ∨ arguments.path.isSome then none
  else some { arguments with path := some (String.ofList value) }

/-- Takes the option to type the program in, which has no value. -/
def putInteractive (arguments : Arguments) : Option Arguments :=
  if arguments.interactive then none else some { arguments with interactive := true }

/-- Takes an option by its long name, with a value behind an equals sign if there is one. -/
def putLong (arguments : Arguments) (text : List Char) : Option Arguments :=
  let name := String.ofList (text.takeWhile (· ≠ '='))
  let key := if name = "file" then some Key.file
    else if name = "max-depth" then some Key.maxDepth
    else none
  match key, text.dropWhile (· ≠ '=') with
  | some key, [] => some { arguments with pending := some key }
  | some key, _ :: value => arguments.put key value
  | none, [] => if name = "interactive" then arguments.putInteractive else none
  | none, _ :: _ => none

/-- Takes an option by its short name, with a value attached to it if there is one. -/
def putShort (arguments : Arguments) : List Char → Option Arguments
  | ['i'] => arguments.putInteractive
  | ['f'] => some { arguments with pending := some .file }
  | 'f' :: '=' :: value => arguments.put .file value
  | 'f' :: value => arguments.put .file value
  | _ => none

/-- Takes one argument. A value that is waited for may not look like an option. -/
def take (arguments : Arguments) (argument : String) : Option Arguments :=
  let text := argument.toList
  if arguments.pathsOnly then arguments.putPath text
  else
    match arguments.pending, text with
    | some _, '-' :: _ :: _ => none
    | some key, text => arguments.put key text
    | none, ['-', '-'] => some { arguments with pathsOnly := true }
    | none, '-' :: '-' :: name => arguments.putLong name
    | none, '-' :: c :: text => arguments.putShort (c :: text)
    | none, text => arguments.putPath text

/-- The options that the arguments come to, unless a value is missing or they name more than one
program. -/
def options? (arguments : Arguments) : Option Options :=
  let sources := [arguments.file.isSome, arguments.interactive, arguments.path.isSome]
  if arguments.pending.isSome ∨ 1 < sources.count true then none
  else some
    { path := arguments.file.or arguments.path
      maxDepth := arguments.maxDepth.getD Context.defaultMaxDepth }

end Arguments

/-- The options that a list of arguments stands for, if it can be understood. -/
def Options.ofArgs? (args : List String) : Option Options :=
  (args.foldlM Arguments.take .empty).bind Arguments.options?

/-- The exit code for arguments that cannot be understood. -/
def usageErrorCode : Nat := 2

end UnitScript.CommandLine
