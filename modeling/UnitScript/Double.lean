import UnitScript.Decimal.Shortest

/-!
# Doubles as text

A double is written with the fewest digits that read back as the same double, positionally and
with a decimal point, so that it never reads like an integer. It is read from a decimal after an
optional sign.
-/

namespace UnitScript.Double

/-- The digits of a finite magnitude. -/
def magnitudeText (bits : UInt64) : String :=
  let x := Decimal.Binary.ofBits bits
  String.ofList (if x.mantissa = 0 then ['0', '.', '0'] else x.shortest.positional)

/-- The text of a double, with the fewest digits that read back (`Decimal.Binary.shortest`). A value
that is no number has no sign. -/
def text (x : Float) : String :=
  if x.isNaN then "NaN"
  else
    let sign := if x.toBits.toNat < 0x8000000000000000 then "" else "-"
    sign ++ (if x.isInf then "inf" else magnitudeText x.toBits)

/-- The double a decimal denotes, unless it is out of the range of finite doubles. -/
def ofDecimal? (negative : Bool) (d : Decimal) : Option Float :=
  let x := d.toFloat
  if x.isFinite then some (if negative then -x else x) else none

/-- Reads a decimal after an optional sign, if it is in the range of finite doubles. -/
def ofText? : List Char → Option Float
  | '-' :: text => (Decimal.ofText? text).bind (ofDecimal? true)
  | '+' :: text => (Decimal.ofText? text).bind (ofDecimal? false)
  | text => (Decimal.ofText? text).bind (ofDecimal? false)

example : text (Float.ofBits 0x3E60000000000000) = "0.000000029802322387695313" := by
  decide +kernel

example : text (Float.ofBits 0x44B52D02C7E14AF6) = "100000000000000000000000.0" := by
  decide +kernel

end UnitScript.Double
