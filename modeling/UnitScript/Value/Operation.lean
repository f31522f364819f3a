import UnitScript.Value

/-!
# Operators on values

What the operators of the language mean. Each is defined for some pairs of kinds and refused for
all others; `and` and `or` are given both operands, of which the first has to be a truth value.
-/

namespace UnitScript.Value

/-- The longest string, in bytes, that may come from repeating one (`repeatString`). -/
def repetitionLimit : Nat := 0x10000000

/-- A string a number of times over, where a negative number counts as zero. What would be longer
than `repetitionLimit` is refused. -/
def repeatString (s : String) (count : Int64) : Except Cause Value :=
  let times := count.toInt.toNat
  if s.utf8ByteSize * times ≤ repetitionLimit then
    .ok (.string (if s.isEmpty then "" else Nat.repeat (· ++ s) times ""))
  else .error (.repetitionOverflow count)

/-- Refuses an operator for the kinds of its operands (`Cause.invalidOperation`). -/
def refuse (op : BinaryOp) (a b : Value) : Except Cause α :=
  .error (.invalidOperation op a.kind b.kind)

/-- The sum of two values; strings are joined, and a unit stays what it is. -/
def add : Value → Value → Except Cause Value
  | .string a, .string b => .ok (.string (a ++ b))
  | .unit a, .unit _ => .ok (.unit a)
  | .quantity a, .quantity b => .quantity <$> a.add b
  | .number a, .number b => .number <$> a.add b
  | a, b => refuse .add a b

/-- The difference of two values; a unit stays what it is. -/
def subtract : Value → Value → Except Cause Value
  | .unit a, .unit _ => .ok (.unit a)
  | .quantity a, .quantity b => .quantity <$> a.subtract b
  | .number a, .number b => .number <$> a.subtract b
  | a, b => refuse .subtract a b

/-- The product of two values; an integer repeats a string (`repeatString`). -/
def multiply : Value → Value → Except Cause Value
  | .string s, .number (.int n) => repeatString s n
  | .number (.int n), .string s => repeatString s n
  | .unit a, .unit b => .unit <$> a.multiply b
  | .quantity a, .quantity b => .quantity <$> a.multiply b
  | .quantity q, .number n => .quantity <$> q.scale n
  | .number n, .quantity q => .quantity <$> q.scale n
  | .number a, .number b => .number <$> a.multiply b
  | a, b => refuse .multiply a b

/-- The quotient of two values: of numbers (`Number.divide`), of units, of quantities, or of one of
these and a number. -/
def divide : Value → Value → Except Cause Value
  | .unit a, .unit b => .unit <$> a.divide b
  | .quantity a, .quantity b => .quantity <$> a.divide b
  | .quantity q, .number n => .quantity <$> q.shrink n
  | .number n, .quantity q => .quantity <$> q.divideInto n
  | .number a, .number b => .number <$> a.divide b
  | a, b => refuse .divide a b

/-- Whether two values are equal, if they can be compared for it. -/
def equal? : Value → Value → Option Bool
  | .bool a, .bool b => some (a == b)
  | .string a, .string b => some (a == b)
  | .unit a, .unit b => some (a == b)
  | .quantity a, .quantity b => some (a.equals b)
  | .number a, .number b => some (a.equals b)
  | _, _ => none

/-- The outcome of a test for equality: `equal?` where the values can be compared, and what is
tested of it. -/
def equality (op : BinaryOp) (test : Bool → Bool) (a b : Value) : Except Cause Value :=
  match equal? a b with
  | some equal => .ok (.bool (test equal))
  | none => refuse op a b

/-- The outcome of a test for the order of two numbers, where there may be none. -/
def order (op : BinaryOp) (test : Option Ordering → Bool) : Value → Value → Except Cause Value
  | .number a, .number b => .ok (.bool (test (a.compare? b)))
  | a, b => refuse op a b

/-- The outcome of joining a truth value on the left with whatever has one on the right
(`truth?`). -/
def logic (op : BinaryOp) (test : Bool → Bool → Bool) (a b : Value) : Except Cause Value :=
  match a, b.truth? with
  | .bool p, some q => .ok (.bool (test p q))
  | _, _ => refuse op a b

/-- Applies an operator to its two operands. What it is refused for is told by
`Value.binary_refusedFor`. -/
def binary : BinaryOp → Value → Value → Except Cause Value
  | .add => add
  | .subtract => subtract
  | .multiply => multiply
  | .divide => divide
  | .equal => equality .equal id
  | .notEqual => equality .notEqual not
  | .less => order .less (· = some .lt)
  | .lessEqual => order .lessEqual fun o => o = some .lt ∨ o = some .eq
  | .greater => order .greater (· = some .gt)
  | .greaterEqual => order .greaterEqual fun o => o = some .gt ∨ o = some .eq
  | .and => logic .and (· && ·)
  | .or => logic .or (· || ·)

/-- Applies an operator to its one operand. Signs are for numbers and quantities, and `not` is for
truth values. -/
def unary : UnaryOp → Value → Except Cause Value
  | .not, .bool b => .ok (.bool !b)
  | .negate, .quantity q => .quantity <$> q.negate
  | .negate, .number n => .number <$> n.negate
  | .identity, .quantity q => .ok (.quantity q)
  | .identity, .number n => .ok (.number n)
  | op, v => .error (.invalidUnaryOperation op v.kind)

end UnitScript.Value
