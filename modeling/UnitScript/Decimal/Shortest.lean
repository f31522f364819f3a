import UnitScript.Decimal

/-!
# The shortest decimal of a double

The reals that round to a double form an interval around it. `Binary.shortest` finds a decimal
in that interval with the fewest digits, and among those the one nearest to the double. The
search goes over the grids of multiples of a power of ten, from the place of the leading digit
downwards: on each grid only the two neighbours of the double need a test, in exact arithmetic.
-/

namespace UnitScript.Decimal

/-- The positive double `mantissa * 2 ^ exponent`, as `ofBits` reads it off the bits. -/
structure Binary where
  mantissa : Nat
  exponent : Int
  /-- Whether the gap to the double below is half the gap to the one above, as it is just at a
  power of two. -/
  narrowBelow : Bool

namespace Binary

/-- The magnitude a finite bit pattern stands for. -/
def ofBits (bits : UInt64) : Binary :=
  let biased := bits.toNat / Nat.pow 2 52 % Nat.pow 2 11
  let fraction := bits.toNat % Nat.pow 2 52
  if biased = 0 then ⟨fraction, -1074, false⟩
  else ⟨Nat.pow 2 52 + fraction, (biased : Int) - 1075, fraction == 0 && biased > 1⟩

/-- Whether the double is below a power of ten. -/
def belowPower (x : Binary) (k : Int) : Bool :=
  x.mantissa * Nat.pow 2 x.exponent.toNat * Nat.pow 10 (-k).toNat <
    Nat.pow 10 k.toNat * Nat.pow 2 (-x.exponent).toNat

/-- The least power of ten above the double. The binary logarithm gives an estimate from below
that is off by at most one. -/
def magnitude (x : Binary) : Int :=
  let estimate := ((x.mantissa.log2 + x.exponent) * 30103) / 100000
  if x.belowPower estimate then estimate
  else if x.belowPower (estimate + 1) then estimate + 1
  else estimate + 2

/-- The nearest multiple of `10 ^ g` that rounds to the double, if there is one. In units of a
quarter of the gap above, the double is `4 * mantissa`, the interval reaches two units up and one
or two units down, and its ends belong to it exactly if the mantissa is even. Of two equally near
multiples the greater is taken. -/
def onGrid? (x : Binary) (g : Int) : Option Decimal :=
  let unit := Nat.pow 2 (x.exponent - 2).toNat * Nat.pow 10 (-g).toNat
  let step := Nat.pow 2 (2 - x.exponent).toNat * Nat.pow 10 g.toNat
  let value := 4 * x.mantissa * unit
  let low := (4 * x.mantissa - if x.narrowBelow then 1 else 2) * unit
  let high := (4 * x.mantissa + 2) * unit
  let readsBack (c : Nat) : Bool :=
    if x.mantissa % 2 = 0 then low ≤ c * step ∧ c * step ≤ high
    else low < c * step ∧ c * step < high
  let c := value / step
  match readsBack c, readsBack (c + 1) with
  | true, true => some ⟨if 2 * value < (2 * c + 1) * step then c else c + 1, g⟩
  | true, false => some ⟨c, g⟩
  | false, true => some ⟨c + 1, g⟩
  | false, false => none

/-- The double itself as a decimal. -/
def exact (x : Binary) : Decimal :=
  if 0 ≤ x.exponent then ⟨x.mantissa * Nat.pow 2 x.exponent.toNat, 0⟩
  else ⟨x.mantissa * Nat.pow 5 x.exponent.natAbs, x.exponent⟩

end Binary

/-- The same number with up to `n` zeros fewer at the end of its digits. -/
def dropZeros : Nat → Decimal → Decimal
  | 0, d => d
  | n + 1, d =>
    if d.digits % 10 = 0 then dropZeros n ⟨d.digits / 10, d.exponent + 1⟩ else d

/-- The decimal with the fewest digits that rounds to a positive double, the nearest if there are
several. Seventeen digits tell all doubles apart, so the exact value is never needed. -/
def Binary.shortest (x : Binary) : Decimal :=
  let found := (List.range 17).findSome? fun (i : Nat) => x.onGrid? (x.magnitude - 1 - i)
  dropZeros 18 (found.getD x.exact)

end UnitScript.Decimal
