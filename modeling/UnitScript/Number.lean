import UnitScript.Double
import UnitScript.Integer

/-!
# Numbers

A number is an integer or a double. Two integers are compared as integers, and every other pair as
doubles, where a value that is no number is unequal to everything and in no order to anything.
-/

namespace UnitScript

/-- An integer (`Int64`) or a double (`Float`). -/
inductive Number where
  | int (value : Int64)
  | double (value : Float)

namespace Number

/-- A number as it is written. -/
def text : Number → String
  | int n => Integer.text n
  | double x => Double.text x

/-- The double that is nearest to a number, as integers have to be rounded. -/
def toFloat : Number → Float
  | int n => n.toFloat
  | double x => x

/-- Whether a number is zero, of either sign. -/
def isZero : Number → Bool
  | int n => n == 0
  | double x => x == 0

/-- How one number stands to another, if they are in an order. Two integers are compared exactly,
any other two as doubles (`Number.toFloat`). -/
def compare? : Number → Number → Option Ordering
  | int a, int b => some (compare a.toInt b.toInt)
  | a, b =>
    if a.toFloat < b.toFloat then some .lt
    else if b.toFloat < a.toFloat then some .gt
    else if a.toFloat == b.toFloat then some .eq
    else none

/-- Whether two numbers are equal: exactly if both are integers, and as doubles otherwise
(`toFloat`). -/
def equals : Number → Number → Bool
  | int a, int b => a == b
  | a, b => a.toFloat == b.toFloat

end Number

end UnitScript
