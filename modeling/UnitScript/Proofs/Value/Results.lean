import UnitScript.Value.Operation

/-!
# Results of operators

What comes of an operator that does not refuse its operands is a number, a truth value, a string, a
unit or a quantity, and if it is one of the last two, its unit is that of an operand or made of the
units of both (`Value.Combined`). It is never a function or a signal, whatever the operands are.
-/

namespace UnitScript

/-! ## Quantities -/

namespace Quantity

variable {q r s : Quantity} {n : Number}

/-- What keeps a unit has that unit. -/
theorem units_of_kept {magnitude : Except Cause Number} {u : Units}
    (h : (do return ⟨← magnitude, u⟩ : Except Cause Quantity) = .ok s) : s.units = u := by
  cases magnitude with
  | error cause => cases h
  | ok n =>
    cases h
    rfl

/-- What is made of a magnitude and a unit has that unit. -/
theorem units_of_made {magnitude : Except Cause Number} {units : Except Cause Units}
    (h : (do return ⟨← magnitude, ← units⟩ : Except Cause Quantity) = .ok s) :
    units = .ok s.units := by
  cases magnitude with
  | error cause => cases h
  | ok n =>
    cases units with
    | error cause => cases h
    | ok u =>
      cases h
      rfl

/-- Quantities that are added or subtracted have the same unit, and so has the result. -/
theorem units_of_combineAlike {op : BinaryOp} {onNumbers : Number → Number → Except Cause Number}
    (h : combineAlike op onNumbers q r = .ok s) : q.units = r.units ∧ s.units = q.units := by
  unfold combineAlike at h
  split at h
  next heq => exact ⟨heq, units_of_kept h⟩
  next => cases h

theorem units_of_multiply (h : q.multiply r = .ok s) : q.units.multiply r.units = .ok s.units :=
  units_of_made h

theorem units_of_divide (h : q.divide r = .ok s) : q.units.divide r.units = .ok s.units :=
  units_of_made h

theorem units_of_scale (h : q.scale n = .ok s) : s.units = q.units := units_of_kept h

theorem units_of_shrink (h : q.shrink n = .ok s) : s.units = q.units := units_of_kept h

theorem units_of_divideInto (h : q.divideInto n = .ok s) : q.units.inverse = .ok s.units :=
  units_of_made h

theorem units_of_negate (h : q.negate = .ok s) : s.units = q.units := units_of_kept h

end Quantity

/-! ## Values -/

namespace Value

/-- What operators can make of two values. For units and quantities it says which unit the result
has, and by which operation on units (`Units.multiply`, `Units.divide`, `Units.inverse`). -/
inductive Combined : Value → Value → Value → Prop
  | number {n : Number} : Combined a b (.number n)
  | bool {p : Bool} : Combined a b (.bool p)
  | string {s : String} : Combined a b (.string s)
  /-- A unit stays what it is. -/
  | unit : Combined (.unit u) b (.unit u)
  | unitProduct : u.multiply w = .ok v → Combined (.unit u) (.unit w) (.unit v)
  | unitQuotient : u.divide w = .ok v → Combined (.unit u) (.unit w) (.unit v)
  /-- A quantity keeps its unit. -/
  | keptLeft : s.units = q.units → Combined (.quantity q) b (.quantity s)
  | keptRight : s.units = q.units → Combined a (.quantity q) (.quantity s)
  | product : q.units.multiply r.units = .ok s.units →
      Combined (.quantity q) (.quantity r) (.quantity s)
  | quotient : q.units.divide r.units = .ok s.units →
      Combined (.quantity q) (.quantity r) (.quantity s)
  | inverted : q.units.inverse = .ok s.units → Combined a (.quantity q) (.quantity s)

variable {a b c : Value}

/-- A result that is wrapped. -/
theorem combined_of_map {α : Type} {wrap : α → Value} {x : Except Cause α}
    (h : wrap <$> x = .ok c) (hwrap : ∀ r, x = .ok r → Combined a b (wrap r)) :
    Combined a b c := by
  cases x with
  | error cause => cases h
  | ok r =>
    cases h
    exact hwrap r rfl

/-- A string that is repeated. -/
theorem combined_of_repeatString {text : String} {count : Int64}
    (h : repeatString text count = .ok c) : Combined a b c := by
  dsimp only [repeatString] at h
  by_cases hlimit : text.utf8ByteSize * count.toInt.toNat ≤ repetitionLimit
  · rw [if_pos hlimit] at h
    cases h
    exact .string
  · rw [if_neg hlimit] at h
    cases h

theorem combined_of_add (h : a.add b = .ok c) : Combined a b c := by
  unfold add at h
  split at h
  · cases h
    exact .string
  · cases h
    exact .unit
  · exact combined_of_map h fun _ hs => .keptLeft (Quantity.units_of_combineAlike hs).2
  · exact combined_of_map h fun _ _ => .number
  · cases h

theorem combined_of_subtract (h : a.subtract b = .ok c) : Combined a b c := by
  unfold subtract at h
  split at h
  · cases h
    exact .unit
  · exact combined_of_map h fun _ hs => .keptLeft (Quantity.units_of_combineAlike hs).2
  · exact combined_of_map h fun _ _ => .number
  · cases h

theorem combined_of_multiply (h : a.multiply b = .ok c) : Combined a b c := by
  unfold multiply at h
  split at h
  · exact combined_of_repeatString h
  · exact combined_of_repeatString h
  · exact combined_of_map h fun _ hv => .unitProduct hv
  · exact combined_of_map h fun _ hs => .product (Quantity.units_of_multiply hs)
  · exact combined_of_map h fun _ hs => .keptLeft (Quantity.units_of_scale hs)
  · exact combined_of_map h fun _ hs => .keptRight (Quantity.units_of_scale hs)
  · exact combined_of_map h fun _ _ => .number
  · cases h

theorem combined_of_divide (h : a.divide b = .ok c) : Combined a b c := by
  unfold divide at h
  split at h
  · exact combined_of_map h fun _ hv => .unitQuotient hv
  · exact combined_of_map h fun _ hs => .quotient (Quantity.units_of_divide hs)
  · exact combined_of_map h fun _ hs => .keptLeft (Quantity.units_of_shrink hs)
  · exact combined_of_map h fun _ hs => .inverted (Quantity.units_of_divideInto hs)
  · exact combined_of_map h fun _ _ => .number
  · cases h

theorem combined_of_equality {op : BinaryOp} {test : Bool → Bool}
    (h : equality op test a b = .ok c) : Combined a b c := by
  unfold equality at h
  split at h
  · cases h
    exact .bool
  · cases h

theorem combined_of_order {op : BinaryOp} {test : Option Ordering → Bool}
    (h : order op test a b = .ok c) : Combined a b c := by
  unfold order at h
  split at h
  · cases h
    exact .bool
  · cases h

theorem combined_of_logic {op : BinaryOp} {test : Bool → Bool → Bool}
    (h : logic op test a b = .ok c) : Combined a b c := by
  unfold logic at h
  split at h
  · cases h
    exact .bool
  · cases h

/-- Whatever an operator (`Value.binary`) does not refuse it combines (`Combined`). -/
theorem combined_of_binary {op : BinaryOp} (h : a.binary op b = .ok c) : Combined a b c := by
  cases op with
  | add => exact combined_of_add h
  | subtract => exact combined_of_subtract h
  | multiply => exact combined_of_multiply h
  | divide => exact combined_of_divide h
  | equal | notEqual => exact combined_of_equality h
  | less | lessEqual | greater | greaterEqual =>
    rw [binary] at h
    exact combined_of_order h
  | and | or => exact combined_of_logic h

/-- An operator with one operand makes no more of it than one with two could. -/
theorem combined_of_unary {op : UnaryOp} (h : a.unary op = .ok c) : Combined a a c := by
  unfold unary at h
  split at h
  · cases h
    exact .bool
  · exact combined_of_map h fun _ hs => .keptLeft (Quantity.units_of_negate hs)
  · exact combined_of_map h fun _ _ => .number
  · cases h
    exact .keptLeft rfl
  · cases h
    exact .number
  · cases h

end Value

end UnitScript
