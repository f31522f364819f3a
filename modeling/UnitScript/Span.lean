/-!
# Places in a program text

A `Position` is a zero-based row and column, where columns count characters. A `Span` runs from
the start of a first thing to the end of a last one. Messages show positions one-based.
-/

namespace UnitScript

/-- A zero-based place in a program text. Messages count from one (`Position.text`). -/
structure Position where
  row : Nat
  column : Nat
deriving DecidableEq, Repr, Inhabited

namespace Position

/-- The first place of every text. -/
def origin : Position := ⟨0, 0⟩

/-- A position as messages show it, counted from one. -/
def text (position : Position) : String :=
  s!"line {position.row + 1}, column {position.column + 1}"

/-- The place `rows` lines further down. -/
def down (rows : Nat) (position : Position) : Position :=
  ⟨position.row + rows, position.column⟩

end Position

/-- A stretch of a program text, from its first `Position` to the one after its last. -/
structure Span where
  start : Position
  stop : Position
deriving DecidableEq, Repr, Inhabited

namespace Span

/-- The span of things that no text was read for. -/
def origin : Span := ⟨.origin, .origin⟩

/-- From the start of one span to the end of a later one. -/
def through (first last : Span) : Span := ⟨first.start, last.stop⟩

/-- The empty span at a place. -/
def point (position : Position) : Span := ⟨position, position⟩

end Span

end UnitScript
