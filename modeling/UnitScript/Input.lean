import UnitScript.Text.Lines

/-!
# Reading a program line by line

A program is read from the bytes of a file, or typed in interactively: then every line is prompted
for, and a line that is the sentinel ends the program before the input does. Each line has to be
valid UTF-8 for itself, and one that is not is passed over; the next read goes on behind it.
Once the end has been seen, the input stays ended.
-/

namespace UnitScript

/-- Why a program could not be read, with the text of each reason in `ReadError.message`. -/
inductive ReadError where
  | missing
  | directory
  | notText
  | failed (reason : String)
deriving DecidableEq, Repr

/-- The text of a reading error. -/
def ReadError.message : ReadError → String
  | missing => "No such file or directory (os error 2)"
  | directory => "Is a directory (os error 21)"
  | notText => "stream did not contain valid UTF-8"
  | failed reason => reason

/-- Where a program is read from. It decides on prompts and on the sentinel (`Input.readLine`). -/
inductive InputMode where
  | file
  | interactive
deriving DecidableEq, Repr

/-- An input that is being read: the bytes that `readLine` has left, whether the end was seen, and
how many prompts were written. -/
structure Input where
  mode : InputMode
  rest : List UInt8
  ended : Bool
  prompts : Nat

namespace Input

/-- An input of which nothing has been read. -/
def ofBytes (mode : InputMode) (bytes : List UInt8) : Input := ⟨mode, bytes, false, 0⟩

/-- The line that ends a program in `InputMode.interactive`. In a file it is a line as any other. -/
def sentinel : List Char := "DONE".toList

/-- What is written before a line is typed in; `promptText` counts them in `Input.prompts`. -/
def prompt : String := "> "

/-- Everything that was written while reading. -/
def promptText (input : Input) : String :=
  String.join (List.replicate input.prompts prompt)

/-- Cuts bytes behind the first newline; the pieces together are the bytes again
(`cutLine_append`). -/
def cutLine : List UInt8 → List UInt8 × List UInt8
  | [] => ([], [])
  | byte :: bytes =>
    if byte = 10 then ([byte], bytes)
    else (byte :: (cutLine bytes).1, (cutLine bytes).2)

/-- The characters that bytes encode, if they are valid UTF-8. A line that is no text ends the
reading with `ReadError.notText`. -/
def decode? (bytes : List UInt8) : Option (List Char) :=
  (ByteArray.mk bytes.toArray).utf8Decode?.map Array.toList

/-- Reads a line without its line end (`Text.trimNewline`). At the end of the input, and where the
`sentinel` is typed in, the line is empty and the input ends. -/
def readLine (input : Input) : Except ReadError (List Char) × Input :=
  let (piece, rest) := cutLine input.rest
  let prompts := match input.mode with
    | .file => input.prompts
    | .interactive => input.prompts + 1
  match decode? piece with
  | none => (.error .notText, { input with rest, prompts })
  | some chars =>
    let line := Text.trimNewline chars
    if piece = [] ∨ (input.mode = .interactive ∧ line = sentinel) then
      (.ok [], { input with rest, prompts, ended := true })
    else (.ok line, { input with rest, prompts })

/-- Reads lines with `readLine` up to the end or to one that is no text, but at most so many. Every
line is closed by a newline. -/
def readLines : Nat → Input → Except ReadError (List Char) × Input
  | 0, input => (.ok [], input)
  | bound + 1, input =>
    match input.readLine with
    | (.error e, input) => (.error e, input)
    | (.ok line, input) =>
      if input.ended then (.ok [], input)
      else
        match readLines bound input with
        | (.error e, input) => (.error e, input)
        | (.ok others, input) => (.ok (line ++ '\n' :: others), input)

/-- Reads a whole program with `readLines`. A line takes at least one byte, so there are no more
lines than bytes. -/
def readProgram (input : Input) : Except ReadError (List Char) × Input :=
  readLines (input.rest.length + 1) input

/-- Cutting loses nothing. -/
theorem cutLine_append (bytes : List UInt8) : (cutLine bytes).1 ++ (cutLine bytes).2 = bytes := by
  induction bytes with
  | nil => rfl
  | cons byte bytes ih =>
    rw [cutLine]
    split
    next => rfl
    next => simp [ih]

end Input

end UnitScript
