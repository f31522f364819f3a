import UnitScript.Integer

/-!
# Decimals

A `Decimal` is an unsigned number `digits * 10 ^ exponent`. `Decimal.ofText?` reads one in
positional or scientific notation, `Decimal.positional` writes one without an exponent and
always with a decimal point.
-/

namespace UnitScript

/-- The number `digits * 10 ^ exponent`. -/
structure Decimal where
  digits : Nat
  exponent : Int
deriving DecidableEq, Repr

namespace Decimal

/-- The power of ten behind an exponent mark: decimal digits after an optional sign. -/
def power? : List Char → Option Int
  | '-' :: text => (Integer.digits? text).map fun n => -n
  | '+' :: text => (Integer.digits? text).map fun n => n
  | text => (Integer.digits? text).map fun n => n

/-- The power of ten in the rest of a number: nothing, or an exponent mark and a power. -/
def scale? : List Char → Option Int
  | [] => some 0
  | mark :: text => if mark = 'e' ∨ mark = 'E' then power? text else none

/-- Reads digits with at most one decimal point among or beside them, at least one digit, and
an optional exponent. -/
def ofText? (text : List Char) : Option Decimal :=
  let whole := text.takeWhile Char.isDigit
  let rest := text.dropWhile Char.isDigit
  let fraction := match rest with
    | '.' :: rest => rest.takeWhile Char.isDigit
    | _ => []
  let rest := match rest with
    | '.' :: rest => rest.dropWhile Char.isDigit
    | rest => rest
  match Integer.digits? (whole ++ fraction), scale? rest with
  | some digits, some power => some ⟨digits, power - fraction.length⟩
  | _, _ => none

/-- The double nearest to a decimal, the one with the even last bit where two are equally near.
A leading digit beyond `10 ^ 308` is beyond every double, one below `10 ^ (-324)` is nearest
to zero. -/
def toFloat (d : Decimal) : Float :=
  let magnitude := (Nat.toDigits 10 d.digits).length + d.exponent
  if d.digits = 0 ∨ magnitude ≤ -324 then Float.ofScientific 0 false 0
  else if 310 ≤ magnitude then Float.ofScientific 1 false 400
  else Float.ofScientific d.digits (d.exponent < 0) d.exponent.natAbs

/-- The decimal in positional notation, with at least one digit on either side of the point. -/
def positional (d : Decimal) : List Char :=
  let digits := Nat.toDigits 10 d.digits
  if 0 ≤ d.exponent then
    digits ++ List.replicate d.exponent.toNat '0' ++ ['.', '0']
  else
    let places := d.exponent.natAbs
    let padded := List.replicate (places + 1 - digits.length) '0' ++ digits
    padded.take (padded.length - places) ++ '.' :: padded.drop (padded.length - places)

end Decimal

end UnitScript
