/-!
# Lines of a text

A text is cut after every newline. `lines` hands out the pieces without their line ends, where a
line end is a newline or a carriage return before a newline; a carriage return that no newline
follows belongs to its line, and a newline at the end of the text opens no further line.
-/

namespace UnitScript.Text

/-- The text cut after every newline. Every piece but the last ends in its newline, and no piece
is empty. -/
def pieces (text : List Char) : List (List Char) :=
  text.foldr
    (fun c rest =>
      if c = '\n' then ['\n'] :: rest
      else match rest with
        | [] => [[c]]
        | piece :: others => (c :: piece) :: others)
    []

/-- A piece without its line end: a newline, and a carriage return in front of that. -/
def trimNewline (piece : List Char) : List Char :=
  if piece.getLast? = some '\n' then
    let line := piece.dropLast
    if line.getLast? = some '\r' then line.dropLast else line
  else piece

/-- The lines of a text, without their line ends (`trimNewline`). -/
def lines (text : List Char) : List (List Char) :=
  (pieces text).map trimNewline

/-- Cutting a text into pieces loses nothing. -/
theorem flatten_pieces (text : List Char) : (pieces text).flatten = text := by
  induction text with
  | nil => rfl
  | cons c text ih =>
    rw [pieces, List.foldr_cons, ← pieces]
    split
    next h => simp [h, ih]
    next =>
      split
      next hp => rw [hp] at ih; simp_all
      next piece others hp => rw [hp] at ih; simp_all

example : lines "a\r\nb\n\nc\r".toList = ["a".toList, "b".toList, [], "c\r".toList] := by decide

end UnitScript.Text
