import UnitScript.Value.Operation

/-!
# What operators refuse

An operator that refuses its operands does so for one of five reasons: it is not defined for their
kinds, their units differ, the divisor is zero, or the result is out of range. `RefusedFor` says of
anything that may be refused which causes that can have; it is settled for the arithmetic of
numbers, units and quantities and from there for every operator on values (`Value.Grounds`,
`Value.binary_refusedFor`). `Refuses` is what is left of it where only the kind of the cause counts,
and that units are refused for being different only if they are.
-/

namespace UnitScript

/-- Whatever is refused is refused for one of some causes (`Cause`). -/
structure RefusedFor {α : Type} (causes : Cause → Prop) (result : Except Cause α) : Prop where
  of_error {cause : Cause} : result = .error cause → causes cause

namespace RefusedFor

variable {α β : Type} {causes others : Cause → Prop}

/-- A result is not refused for any cause (`Except.ok`). -/
theorem ok (a : α) : RefusedFor causes (.ok a) := ⟨nofun⟩

/-- A refusal for one of the causes is refused for them (`RefusedFor`). -/
theorem error {cause : Cause} (h : causes cause) :
    RefusedFor causes (.error cause : Except Cause α) := by
  refine ⟨fun hother => ?_⟩
  cases hother
  exact h

/-- What is refused for some causes only is refused for more causes as well. -/
theorem mono {x : Except Cause α} (hx : RefusedFor causes x)
    (hle : ∀ cause, causes cause → others cause) : RefusedFor others x :=
  ⟨fun h => hle _ (hx.of_error h)⟩

/-- One step after another is refused for the causes of both (`Except.bind`). -/
theorem bind {x : Except Cause α} {f : α → Except Cause β} (hx : RefusedFor causes x)
    (hf : ∀ a, RefusedFor causes (f a)) : RefusedFor causes (x >>= f) := by
  cases x with
  | error cause => exact error (hx.of_error rfl)
  | ok a => exact hf a

/-- A result that is wrapped is refused for the same causes (`Except.map`). -/
theorem map {x : Except Cause α} {f : α → β} (hx : RefusedFor causes x) :
    RefusedFor causes (f <$> x) := by
  cases x with
  | error cause => exact error (hx.of_error rfl)
  | ok a => exact ok (f a)

/-- Steps along a list (`List.foldlM`) are refused for the causes of each of them. -/
theorem foldlM {f : β → α → Except Cause β} (hf : ∀ b a, RefusedFor causes (f b a)) (as : List α)
    (b : β) : RefusedFor causes (as.foldlM f b) := by
  induction as generalizing b with
  | nil => exact ok b
  | cons a as ih =>
    rw [List.foldlM_cons]
    exact (hf b a).bind fun b => ih b

end RefusedFor

/-- The result would be out of range: `FaultKind.overflow` is the kind of four causes. -/
def Cause.OutOfRange (cause : Cause) : Prop := cause.kind = .overflow

/-- The divisor is zero, or the result would be out of range (`Cause.OutOfRange`). -/
def Cause.OfQuotient (cause : Cause) : Prop :=
  cause.OutOfRange ∨ cause.kind = .divisionByZero

/-! ## Numbers, units and quantities -/

namespace Number

/-- An integer is refused by `exact` for the cause it is given. -/
theorem exact_refusedFor {cause : Cause} (h : cause.OutOfRange) (n : Int) :
    RefusedFor Cause.OutOfRange (exact cause n) := by
  unfold exact
  split
  · exact .ok _
  · exact .error h

/-- The results of `Number.arithmetic` are refused for their range only. -/
theorem arithmetic_refusedFor (op : BinaryOp) (onInts : Int → Int → Int)
    (onDoubles : Float → Float → Float) (a b : Number) :
    RefusedFor Cause.OutOfRange (arithmetic op onInts onDoubles a b) := by
  unfold arithmetic
  split
  · refine exact_refusedFor ?_ _
    rfl
  · exact .ok _

/-- The results of `Number.divide` are refused for a zero divisor or for their range. -/
theorem divide_refusedFor (a b : Number) : RefusedFor Cause.OfQuotient (a.divide b) := by
  unfold divide
  split
  · exact .error (.inr rfl)
  · exact (arithmetic_refusedFor ..).mono fun _ => .inl

/-- The results of `Number.negate` are refused for their range only. -/
theorem negate_refusedFor (n : Number) : RefusedFor Cause.OutOfRange n.negate := by
  unfold negate
  split
  · refine exact_refusedFor ?_ _
    rfl
  · exact .ok _

end Number

namespace Units

/-- The results of `Units.combine` are refused for the range of an exponent only. -/
theorem combine_refusedFor (op : Int → Int → Int) (a b : Units) :
    RefusedFor Cause.OutOfRange (combine op a b) := by
  refine .foldlM (fun units factor => ?_) _ _
  unfold combineFactor
  split
  · exact .ok _
  · exact .error rfl

/-- The unit of many factors (`Units.ofFactors`) is refused for the range of an exponent only. -/
theorem ofFactors_refusedFor (numerator denominator : List String) :
    RefusedFor Cause.OutOfRange (ofFactors numerator denominator) :=
  (RefusedFor.foldlM (fun _ _ => combine_refusedFor ..) _ _).bind fun _ =>
    .foldlM (fun _ _ => combine_refusedFor ..) _ _

end Units

namespace Quantity

/-- Quantities are refused by `Quantity.combineAlike` for their range, or for their units if these
differ. -/
theorem combineAlike_refusedFor {op : BinaryOp}
    {onNumbers : Number → Number → Except Cause Number}
    (h : ∀ a b, RefusedFor Cause.OutOfRange (onNumbers a b)) (a b : Quantity) :
    RefusedFor (fun cause => cause.OutOfRange ∨
      a.units ≠ b.units ∧ cause = .unitMismatch op a.units b.units) (combineAlike op onNumbers a b)
    := by
  unfold combineAlike
  split
  · exact ((h _ _).bind fun _ => .ok _).mono fun _ => .inl
  · next hne => exact .error (.inr ⟨hne, rfl⟩)

/-- The product of quantities (`Quantity.multiply`) is refused for its range only. -/
theorem multiply_refusedFor (a b : Quantity) : RefusedFor Cause.OutOfRange (a.multiply b) :=
  (Number.arithmetic_refusedFor ..).bind fun _ => (Units.combine_refusedFor ..).bind fun _ => .ok _

/-- The quotient of quantities (`Quantity.divide`) is refused for a zero divisor or for its
range. -/
theorem divide_refusedFor (a b : Quantity) : RefusedFor Cause.OfQuotient (a.divide b) :=
  (Number.divide_refusedFor ..).bind fun _ =>
    ((Units.combine_refusedFor ..).bind fun _ => .ok _).mono fun _ => .inl

/-- The product with a number (`Quantity.scale`) is refused for its range only. -/
theorem scale_refusedFor (q : Quantity) (factor : Number) :
    RefusedFor Cause.OutOfRange (q.scale factor) :=
  (Number.arithmetic_refusedFor ..).bind fun _ => .ok _

/-- The quotient by a number (`Quantity.shrink`) is refused for a zero divisor or for its range. -/
theorem shrink_refusedFor (q : Quantity) (divisor : Number) :
    RefusedFor Cause.OfQuotient (q.shrink divisor) :=
  (Number.divide_refusedFor ..).bind fun _ => .ok _

/-- The quotient of a number by a quantity (`Quantity.divideInto`) is refused for a zero divisor or
for its range. -/
theorem divideInto_refusedFor (q : Quantity) (dividend : Number) :
    RefusedFor Cause.OfQuotient (q.divideInto dividend) :=
  (Number.divide_refusedFor ..).bind fun _ =>
    ((Units.combine_refusedFor ..).bind fun _ => .ok _).mono fun _ => .inl

/-- The quantity with its sign turned (`Quantity.negate`) is refused for its range only. -/
theorem negate_refusedFor (q : Quantity) : RefusedFor Cause.OutOfRange q.negate :=
  (Number.negate_refusedFor ..).bind fun _ => .ok _

end Quantity

/-! ## Operators on values -/

namespace Value

/-- The causes for which an operator may refuse two operands: their range, a zero divisor, their
units or their kinds. -/
inductive Grounds (op : BinaryOp) : Value → Value → Cause → Prop
  /-- The result is out of range. -/
  | range : cause.OutOfRange → Grounds op a b cause
  /-- The divisor is zero. -/
  | zero : op = .divide → cause.kind = .divisionByZero → Grounds op a b cause
  /-- Quantities are added or subtracted whose units differ. -/
  | units : op.tier = .sum → q.units ≠ r.units →
      Grounds op (.quantity q) (.quantity r) (.unitMismatch op q.units r.units)
  /-- The operator is not defined for values of these kinds. -/
  | kinds : Grounds op a b (.invalidOperation op a.kind b.kind)

/-- A string that would grow too long is refused by `repeatString`, and nothing else is. -/
theorem repeatString_refusedFor (s : String) (count : Int64) :
    RefusedFor Cause.OutOfRange (repeatString s count) := by
  simp only [repeatString]
  split
  · exact .ok _
  · exact .error rfl

/-- Sums and differences of quantities (`Quantity.combineAlike`) are refused on the `Grounds` for
refusing values. -/
theorem combineAlike_grounds {op : BinaryOp} (hop : op.tier = .sum)
    {onNumbers : Number → Number → Except Cause Number}
    (h : ∀ a b, RefusedFor Cause.OutOfRange (onNumbers a b)) (q r : Quantity) :
    RefusedFor (Grounds op (.quantity q) (.quantity r))
      (Quantity.combineAlike op onNumbers q r) := by
  refine (Quantity.combineAlike_refusedFor h q r).mono fun cause hcause => ?_
  rcases hcause with hrange | ⟨hne, rfl⟩
  · exact .range hrange
  · exact .units hop hne

/-- The causes for refusing a quotient (`Cause.OfQuotient`) are `Grounds` for refusing values. -/
theorem Grounds.ofQuotient {a b : Value} (cause : Cause) (h : cause.OfQuotient) :
    Grounds .divide a b cause := by
  rcases h with hrange | hzero
  · exact .range hrange
  · exact .zero rfl hzero

/-- Sums (`Value.add`) are refused on `Grounds` only. -/
theorem add_refusedFor (a b : Value) : RefusedFor (Grounds .add a b) (add a b) := by
  unfold add
  split
  · exact .ok _
  · exact .ok _
  · exact (combineAlike_grounds rfl (fun _ _ => Number.arithmetic_refusedFor ..) _ _).map
  · exact (Number.arithmetic_refusedFor ..).map.mono fun _ => .range
  · exact .error .kinds

/-- Differences (`Value.subtract`) are refused on `Grounds` only. -/
theorem subtract_refusedFor (a b : Value) : RefusedFor (Grounds .subtract a b) (subtract a b) := by
  unfold subtract
  split
  · exact .ok _
  · exact (combineAlike_grounds rfl (fun _ _ => Number.arithmetic_refusedFor ..) _ _).map
  · exact (Number.arithmetic_refusedFor ..).map.mono fun _ => .range
  · exact .error .kinds

/-- Products (`Value.multiply`) are refused on `Grounds` only. -/
theorem multiply_refusedFor (a b : Value) : RefusedFor (Grounds .multiply a b) (multiply a b) := by
  unfold multiply
  split
  · exact (repeatString_refusedFor ..).mono fun _ => .range
  · exact (repeatString_refusedFor ..).mono fun _ => .range
  · exact (Units.combine_refusedFor ..).map.mono fun _ => .range
  · exact (Quantity.multiply_refusedFor ..).map.mono fun _ => .range
  · exact (Quantity.scale_refusedFor ..).map.mono fun _ => .range
  · exact (Quantity.scale_refusedFor ..).map.mono fun _ => .range
  · exact (Number.arithmetic_refusedFor ..).map.mono fun _ => .range
  · exact .error .kinds

/-- Quotients (`Value.divide`) are refused on `Grounds` only. -/
theorem divide_refusedFor (a b : Value) : RefusedFor (Grounds .divide a b) (divide a b) := by
  unfold divide
  split
  · exact (Units.combine_refusedFor ..).map.mono fun _ => .range
  · exact (Quantity.divide_refusedFor ..).map.mono Grounds.ofQuotient
  · exact (Quantity.shrink_refusedFor ..).map.mono Grounds.ofQuotient
  · exact (Quantity.divideInto_refusedFor ..).map.mono Grounds.ofQuotient
  · exact (Number.divide_refusedFor ..).map.mono Grounds.ofQuotient
  · exact .error .kinds

/-- Tests for equality (`Value.equality`) are refused for the kinds of their operands only. -/
theorem equality_refusedFor (op : BinaryOp) (test : Bool → Bool) (a b : Value) :
    RefusedFor (Grounds op a b) (equality op test a b) := by
  unfold equality
  split
  · exact .ok _
  · exact .error .kinds

/-- Tests for order (`Value.order`) are refused for the kinds of their operands only. -/
theorem order_refusedFor (op : BinaryOp) (test : Option Ordering → Bool) (a b : Value) :
    RefusedFor (Grounds op a b) (order op test a b) := by
  unfold order
  split
  · exact .ok _
  · exact .error .kinds

/-- Truth values are refused by `Value.logic` for the kinds of the operands only. -/
theorem logic_refusedFor (op : BinaryOp) (test : Bool → Bool → Bool) (a b : Value) :
    RefusedFor (Grounds op a b) (logic op test a b) := by
  unfold logic
  split
  · exact .ok _
  · exact .error .kinds

/-- The grounds (`Grounds`) on which an operator refuses two operands (`Value.binary`). -/
theorem binary_refusedFor (op : BinaryOp) (a b : Value) :
    RefusedFor (Grounds op a b) (binary op a b) := by
  cases op with
  | add => exact add_refusedFor a b
  | subtract => exact subtract_refusedFor a b
  | multiply => exact multiply_refusedFor a b
  | divide => exact divide_refusedFor a b
  | equal | notEqual => exact equality_refusedFor _ _ a b
  | less | lessEqual | greater | greaterEqual =>
    simp only [binary]
    exact order_refusedFor _ _ a b
  | and | or => exact logic_refusedFor _ _ a b

/-- An operator with one operand (`Value.unary`) refuses it for its kind or for the range of the
result. -/
theorem unary_refusedFor (op : UnaryOp) (v : Value) :
    RefusedFor (fun cause => cause.OutOfRange ∨ cause = .invalidUnaryOperation op v.kind)
      (unary op v) := by
  unfold unary
  split
  · exact .ok _
  · exact (Quantity.negate_refusedFor ..).map.mono fun _ => .inl
  · exact (Number.negate_refusedFor ..).map.mono fun _ => .inl
  · exact .ok _
  · exact .ok _
  · exact .error (.inr rfl)

end Value

/-! ## Kinds of causes -/

/-- The kinds of faults that operators have with their operands, which are those that `Refuses`
allows. -/
def FaultKind.ofOperands : FaultKind → Bool
  | unitMismatch | divisionByZero | overflow => true
  | invalidOperation | invalidUnaryOperation => true
  | _ => false

/-- Whatever is refused is refused for its operands (`FaultKind.ofOperands`), and if for their units
then these differ. -/
structure Refuses {α : Type} (result : Except Cause α) : Prop where
  ofOperands {cause : Cause} : result = .error cause → cause.kind.ofOperands = true
  apart {op : BinaryOp} {u w : Units} : result = .error (.unitMismatch op u w) → u ≠ w

/-- The unit of many factors (`Units.ofFactors`) may be refused for its exponents. -/
theorem Units.ofFactors_refuses (numerator denominator : List String) :
    Refuses (ofFactors numerator denominator) := by
  refine ⟨fun h => ?_, fun h => ?_⟩
  · have hrange : _ = FaultKind.overflow := (ofFactors_refusedFor ..).of_error h
    rw [hrange]
    rfl
  · cases (ofFactors_refusedFor ..).of_error h

namespace Value

/-- An operator with two operands (`Value.binary`) refuses nothing but these
(`FaultKind.ofOperands`). -/
theorem binary_refuses (op : BinaryOp) (a b : Value) : Refuses (binary op a b) := by
  refine ⟨fun h => ?_, fun h => ?_⟩
  · cases (binary_refusedFor op a b).of_error h with
    | range hrange => rw [show _ = FaultKind.overflow from hrange]; rfl
    | zero _ hzero => rw [hzero]; rfl
    | units | kinds => rfl
  · cases (binary_refusedFor op a b).of_error h with
    | range hrange => cases hrange
    | zero _ hzero => cases hzero
    | units _ hne => exact hne

/-- An operator with one operand (`Value.unary`) refuses nothing but this in the same way. -/
theorem unary_refuses (op : UnaryOp) (v : Value) : Refuses (unary op v) := by
  refine ⟨fun h => ?_, fun h => ?_⟩
  · rcases (unary_refusedFor op v).of_error h with hrange | rfl
    · rw [show _ = FaultKind.overflow from hrange]
      rfl
    · rfl
  · rcases (unary_refusedFor op v).of_error h with hrange | heq
    · cases hrange
    · cases heq

end Value

end UnitScript
