import UnitScript.Number.Arithmetic
import UnitScript.Units.Algebra

/-!
# Physical quantities

A quantity is a magnitude with a unit. Only quantities of the same unit are added and subtracted;
products and quotients combine the magnitudes first and then the units.
-/

namespace UnitScript

/-- A magnitude with a unit: a `Number` and its `Units`. -/
structure Quantity where
  magnitude : Number
  units : Units

namespace Quantity

/-- A quantity as it is written: `Number.text` and `Units.text` with a multiplication sign between
them. -/
def text (q : Quantity) : String :=
  s!"{q.magnitude.text}*{q.units.text}"

/-- Whether two quantities have equal magnitudes and the same unit. -/
def equals (a b : Quantity) : Bool :=
  a.magnitude.equals b.magnitude && a.units == b.units

/-- Combines the magnitudes of quantities of the same unit. The refusal of units that differ keeps
both of them, and `Cause.detail` puts its text together from them: every unit has one
(`Units.text`), so the text might as well be put together here and now. -/
def combineAlike (op : BinaryOp) (onNumbers : Number → Number → Except Cause Number)
    (a b : Quantity) : Except Cause Quantity :=
  if a.units = b.units then do
    return ⟨← onNumbers a.magnitude b.magnitude, a.units⟩
  else .error (.unitMismatch op a.units b.units)

/-- The sum of two quantities, of magnitudes by `Number.add`. -/
def add : Quantity → Quantity → Except Cause Quantity :=
  combineAlike .add Number.add

/-- The difference of two quantities, of magnitudes by `Number.subtract`. -/
def subtract : Quantity → Quantity → Except Cause Quantity :=
  combineAlike .subtract Number.subtract

/-- The product of two quantities: magnitudes first (`Number.multiply`), and then units. -/
def multiply (a b : Quantity) : Except Cause Quantity := do
  return ⟨← a.magnitude.multiply b.magnitude, ← a.units.multiply b.units⟩

/-- The quotient of two quantities: magnitudes first (`Number.divide`), and then units. -/
def divide (a b : Quantity) : Except Cause Quantity := do
  return ⟨← a.magnitude.divide b.magnitude, ← a.units.divide b.units⟩

/-- A quantity times a number, with the unit as it is (`Number.multiply`). -/
def scale (q : Quantity) (factor : Number) : Except Cause Quantity := do
  return ⟨← q.magnitude.multiply factor, q.units⟩

/-- A quantity over a number, with the unit as it is (`Number.divide`). -/
def shrink (q : Quantity) (divisor : Number) : Except Cause Quantity := do
  return ⟨← q.magnitude.divide divisor, q.units⟩

/-- A number over a quantity: magnitudes first, and then the inverse of the unit
(`Units.inverse`). -/
def divideInto (q : Quantity) (dividend : Number) : Except Cause Quantity := do
  return ⟨← dividend.divide q.magnitude, ← q.units.inverse⟩

/-- A quantity with its sign turned (`Number.negate`). -/
def negate (q : Quantity) : Except Cause Quantity := do
  return ⟨← q.magnitude.negate, q.units⟩

end Quantity

end UnitScript
