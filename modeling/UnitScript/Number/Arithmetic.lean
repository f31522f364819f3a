import UnitScript.Fault

/-!
# Arithmetic

Two integers give an integer, and every other pair is taken as doubles. Over integers a result is
exact, or refused where it is out of range; a quotient is rounded down. Over doubles only a zero
divisor is refused.
-/

namespace UnitScript.Number

/-- An exact integer result, refused where it is out of range (`Integer.ofInt?`). -/
def exact (cause : Cause) (n : Int) : Except Cause Number :=
  match Integer.ofInt? n with
  | some w => .ok (.int w)
  | none => .error cause

/-- Applies an operator to two integers, with an `exact` result, or to two doubles if one of the
numbers is a double. -/
def arithmetic (op : BinaryOp) (onInts : Int → Int → Int) (onDoubles : Float → Float → Float) :
    Number → Number → Except Cause Number
  | int a, int b => exact (.overflow op a b) (onInts a.toInt b.toInt)
  | a, b => .ok (.double (onDoubles a.toFloat b.toFloat))

/-- The sum of two numbers. -/
def add : Number → Number → Except Cause Number :=
  arithmetic .add (· + ·) (· + ·)

/-- The difference of two numbers. -/
def subtract : Number → Number → Except Cause Number :=
  arithmetic .subtract (· - ·) (· - ·)

/-- The product of two numbers. -/
def multiply : Number → Number → Except Cause Number :=
  arithmetic .multiply (· * ·) (· * ·)

/-- The quotient of two numbers, rounded down (`Int.fdiv`) if both are integers. -/
def divide (a b : Number) : Except Cause Number :=
  if b.isZero then .error (.divisionByZero a b)
  else arithmetic .divide Int.fdiv (· / ·) a b

/-- A number with its sign turned, which is refused for the least integer (`exact`). -/
def negate : Number → Except Cause Number
  | int n => exact (.negationOverflow n) (-n.toInt)
  | double x => .ok (.double (-x))

/-- An `exact` result is the word of the integer itself. -/
theorem exact_eq_ok_iff {cause : Cause} {n : Int} {result : Number} :
    exact cause n = .ok result ↔ ∃ w : Int64, result = .int w ∧ w.toInt = n := by
  unfold exact
  split
  next w h =>
    rw [Integer.ofInt?_eq_some_iff] at h
    constructor
    · intro he
      cases he
      exact ⟨w, rfl, h⟩
    · rintro ⟨v, rfl, hv⟩
      rw [Int64.toInt_inj.1 (h.trans hv.symm)]
  next h =>
    constructor
    · intro he
      cases he
    · rintro ⟨v, rfl, hv⟩
      rw [Integer.ofInt?_eq_some_iff.2 hv] at h
      cases h

end UnitScript.Number
