import UnitScript.Fault

/-!
# Products and quotients of units

Units are multiplied by adding exponents and divided by subtracting them, dimension by dimension in
the order of the names. The first exponent that is out of range is refused.
-/

namespace UnitScript.Units

/-- Takes one factor into a unit, where an operation tells the new exponent from the present one
and from that of the factor. -/
def combineFactor (op : Int → Int → Int) (units : Units) (factor : String × Int64) :
    Except Cause Units :=
  match Integer.ofInt? (op (units.exponent factor.1).toInt factor.2.toInt) with
  | some exponent => .ok (units.put factor.1 exponent)
  | none => .error (.exponentOverflow factor.1)

/-- Takes all factors of another unit into a unit, in the order of their names: the first exponent
that is out of range is the one that is reported (`Cause.exponentOverflow`). -/
def combine (op : Int → Int → Int) (a b : Units) : Except Cause Units :=
  b.factors.foldlM (combineFactor op) a

/-- The product of two units. -/
def multiply : Units → Units → Except Cause Units := combine (· + ·)

/-- The quotient of two units. -/
def divide : Units → Units → Except Cause Units := combine (· - ·)

/-- A unit with all exponents turned around. -/
def inverse (units : Units) : Except Cause Units := one.divide units

/-- The unit that is a product of dimensions over another one, taken together one by one
(`multiply`, `divide`). -/
def ofFactors (numerator denominator : List String) : Except Cause Units := do
  let above ← numerator.foldlM (fun units name => units.multiply (dimension name)) one
  denominator.foldlM (fun units name => units.divide (dimension name)) above

end UnitScript.Units
