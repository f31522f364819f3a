import UnitScript.Proofs.Units.Algebra
import UnitScript.Proofs.Value.Refusals

/-!
# For which values operators are defined

The kinds of two values alone tell whether an operator is defined for them, and what kind of result
it has (`BinaryOp.result?`). Where it is, it can be refused for three reasons, and the first of them
that is given is the one that is reported: the divisor is zero, quantities of different units are
added or subtracted, or the result is out of range. Ranges are told of magnitudes and exponents
apart (`Value.Overflows`), whatever way a quotient or product takes through numbers, units and
quantities. `Value.binary_outcome` tells the outcome of every operator for every two values, and
`Value.binary_dispatched` reads it the other way round, from what is reported to the reason.
-/

namespace UnitScript

open Integer (InRange)

/-! ## Kinds -/

namespace Kind

/-- The kinds of numbers, `int` and `double`: the operands of plain arithmetic, and the factors that
scale a quantity. -/
def isNumber : Kind → Bool
  | int | double => true
  | _ => false

/-- The kind of number that arithmetic makes of two kinds of numbers: an `int` of two of them, and a
`double` otherwise. -/
def wider (k l : Kind) : Kind := if k = int ∧ l = int then int else double

/-- The kind of what arithmetic makes of two units, two quantities or two numbers (`wider`). Other
pairs are not alike. -/
def alike? (k l : Kind) : Option Kind :=
  if k = l ∧ (k = unit ∨ k = quantity) then some k
  else if k.isNumber ∧ l.isNumber then some (k.wider l)
  else none

/-- One kind is that of quantities and the other one of numbers (`Kind.isNumber`), so a product or
quotient scales the magnitude. -/
def Scales (k l : Kind) : Prop := k = quantity ∧ l.isNumber ∨ k.isNumber ∧ l = quantity

instance (k l : Kind) : Decidable (Scales k l) := inferInstanceAs (Decidable (_ ∨ _))

/-- Values of two kinds can be compared for equality (`Value.equal?`): numbers with numbers, and
otherwise values of the same kind out of a fixed list. -/
def Comparable (k l : Kind) : Prop :=
  k = l ∧ (k = bool ∨ k = string ∨ k = unit ∨ k = quantity) ∨ k.isNumber ∧ l.isNumber

instance (k l : Kind) : Decidable (Comparable k l) := inferInstanceAs (Decidable (_ ∨ _))

end Kind

namespace BinaryOp

/-- The `Kind` of what an operator makes of values of two kinds. For others it is not defined. This
is the dispatch table of the language, one line for each group of operators. -/
def result? : BinaryOp → Kind → Kind → Option Kind
  | add, k, l => if k = .string ∧ l = .string then some .string else k.alike? l
  | subtract, k, l => k.alike? l
  | multiply, k, l =>
    if k = .string ∧ l = .int ∨ k = .int ∧ l = .string then some .string
    else if k.Scales l then some .quantity
    else k.alike? l
  | divide, k, l => if k.Scales l then some .quantity else k.alike? l
  | equal, k, l | notEqual, k, l => if k.Comparable l then some .bool else none
  | less, k, l | lessEqual, k, l | greater, k, l | greaterEqual, k, l =>
    if k.isNumber ∧ l.isNumber then some .bool else none
  | and, k, l | or, k, l => if k = .bool ∧ (l = .bool ∨ l.isNumber) then some .bool else none

/-- The exact result of an operator on integers. A quotient is rounded down (`Int.fdiv`), and a test
makes no integer. -/
def onInts : BinaryOp → Int → Int → Int
  | add => (· + ·)
  | subtract => (· - ·)
  | multiply => (· * ·)
  | divide => Int.fdiv
  | _ => fun _ _ => 0

/-- What an operator makes of the exponents of a dimension: products add them, quotients subtract
them, and the others keep those of the left operand. -/
def onExponents : BinaryOp → Int → Int → Int
  | multiply => (· + ·)
  | divide => (· - ·)
  | _ => fun m _ => m

end BinaryOp

/-! ## Ranges -/

/-- The exact result of `BinaryOp.onInts` for two integers is out of range. With doubles there is no
such result. -/
def Number.Overflows (op : BinaryOp) (m n : Number) : Prop :=
  ∃ i j : Int64, m = .int i ∧ n = .int j ∧ ¬InRange (op.onInts i.toInt j.toInt)

namespace Value

/-- The magnitude of a number or of a quantity (`Number`), which is where arithmetic on integers may
leave the range. -/
def magnitude? : Value → Option Number
  | number n => some n
  | quantity q => some q.magnitude
  | _ => none

/-- The exponents of the unit of a value, in all dimensions (`Units.powers`). Values without a unit
have none. -/
def powers : Value → String → Int
  | unit u => u.powers
  | quantity q => q.units.powers
  | _ => 0

/-- A string and an integer, in either order: the operands of `Value.repeatString`. -/
inductive Repeats (s : String) (count : Int64) : Value → Value → Prop
  | left : Repeats s count (.string s) (.number (.int count))
  | right : Repeats s count (.number (.int count)) (.string s)

/-- What an operator makes of two values is out of range (`Integer.InRange`): a magnitude, an
exponent, or the length of a string. -/
inductive Overflows (op : BinaryOp) (a b : Value) : Prop
  /-- The exact result for the magnitudes is out of range (`Number.Overflows`). -/
  | magnitude {m n : Number} : a.magnitude? = some m → b.magnitude? = some n →
      m.Overflows op n → Overflows op a b
  /-- The exponent of some dimension leaves the range of a word (`BinaryOp.onExponents`). -/
  | exponent {name : String} : ¬InRange (op.onExponents (a.powers name) (b.powers name)) →
      Overflows op a b
  /-- A string would be repeated beyond `repetitionLimit`, counted in bytes. A count below zero
  repeats it not at all. -/
  | repetition {s : String} {count : Int64} : op = .multiply → Repeats s count a b →
      repetitionLimit < s.utf8ByteSize * count.toInt.toNat → Overflows op a b

/-- The operator divides, and the divisor has a magnitude which is zero (`Number.isZero`), of either
kind of number. -/
def DividesByZero (op : BinaryOp) (b : Value) : Prop :=
  op = .divide ∧ ∃ n, b.magnitude? = some n ∧ n.isZero = true

/-- Quantities of different units (`Quantity.units`) are added or subtracted. Comparisons of such
quantities are not refused for this. -/
def UnitsDiffer (op : BinaryOp) (a b : Value) : Prop :=
  op.tier = .sum ∧ ∃ q r, a = .quantity q ∧ b = .quantity r ∧ q.units ≠ r.units

/-- What an operator comes to for two values: a refusal with the reason for it, or a value of the
kind that `BinaryOp.result?` announces. The rules exclude each other, which gives all equivalences
of `Dispatched`. -/
inductive Outcome (op : BinaryOp) (a b : Value) : Except Cause Value → Prop
  /-- It is not defined for their kinds. -/
  | undefined : op.result? a.kind b.kind = none →
      Outcome op a b (.error (.invalidOperation op a.kind b.kind))
  | zero {cause : Cause} : (op.result? a.kind b.kind).isSome → DividesByZero op b →
      cause.kind = .divisionByZero → Outcome op a b (.error cause)
  | units {cause : Cause} : (op.result? a.kind b.kind).isSome → UnitsDiffer op a b →
      cause.kind = .unitMismatch → Outcome op a b (.error cause)
  | range {cause : Cause} : (op.result? a.kind b.kind).isSome → ¬DividesByZero op b →
      ¬UnitsDiffer op a b → Overflows op a b → cause.kind = .overflow →
      Outcome op a b (.error cause)
  /-- The result has the kind that was announced (`BinaryOp.result?`), and there is no reason to
  refuse the operands. -/
  | ok {v : Value} : op.result? a.kind b.kind = some v.kind → ¬DividesByZero op b →
      ¬UnitsDiffer op a b → ¬Overflows op a b → Outcome op a b (.ok v)

end Value

/-! ## Steps that are refused for their range -/

/-- A step is refused for its range (`Cause.OutOfRange`) exactly under a condition, and otherwise
has a result of some form. -/
structure Ranged {α : Type} (overflows : Prop) (form : α → Prop) (x : Except Cause α) : Prop where
  of_ok {a : α} : x = .ok a → form a ∧ ¬overflows
  of_error {cause : Cause} : x = .error cause → cause.kind = .overflow ∧ overflows

namespace Ranged

variable {α β : Type} {overflows other : Prop} {form : α → Prop} {x : Except Cause α}

theorem ok {a : α} (ha : form a) (h : ¬overflows) : Ranged overflows form (.ok a) := by
  refine ⟨fun heq => ?_, nofun⟩
  cases heq
  exact ⟨ha, h⟩

theorem error {cause : Cause} (hkind : cause.kind = .overflow) (h : overflows) :
    Ranged overflows form (.error cause) := by
  refine ⟨nofun, fun heq => ?_⟩
  cases heq
  exact ⟨hkind, h⟩

/-- A result that is wrapped. -/
theorem map {form' : β → Prop} {f : α → β} (hx : Ranged overflows form x)
    (hform : ∀ a, form a → form' (f a)) : Ranged overflows form' (f <$> x) := by
  cases x with
  | ok a => exact .ok (hform a (hx.of_ok rfl).1) (hx.of_ok rfl).2
  | error cause => exact .error (hx.of_error rfl).1 (hx.of_error rfl).2

/-- Two steps one after the other, each with a condition of its own. -/
theorem both {form' : β → Prop} {y : Except Cause β} (hx : Ranged overflows form x)
    (hy : Ranged other form' y) {γ : Type} {f : α → β → γ} :
    Ranged (overflows ∨ other) (fun _ => True)
      (do return f (← x) (← y) : Except Cause γ) := by
  cases x with
  | error cause => exact .error (hx.of_error rfl).1 (.inl (hx.of_error rfl).2)
  | ok a =>
    cases y with
    | error cause => exact .error (hy.of_error rfl).1 (.inr (hy.of_error rfl).2)
    | ok b => exact .ok trivial (not_or.2 ⟨(hx.of_ok rfl).2, (hy.of_ok rfl).2⟩)

/-- A step and what does not have to be computed. -/
theorem beside {γ : Type} {f : α → γ} (hx : Ranged overflows form x) :
    Ranged overflows (fun _ => True) (do return f (← x) : Except Cause γ) := by
  cases x with
  | error cause => exact .error (hx.of_error rfl).1 (hx.of_error rfl).2
  | ok a => exact .ok trivial (hx.of_ok rfl).2

end Ranged

/-- Arithmetic on numbers makes integers of integers (`Kind.wider`), and is refused exactly where
the exact result is out of range (`Number.Overflows`). -/
theorem Number.arithmetic_ranged (op : BinaryOp) (onDoubles : Float → Float → Float)
    (m n : Number) :
    Ranged (m.Overflows op n)
      (fun r => (Value.number r).kind = (Value.number m).kind.wider (Value.number n).kind)
      (arithmetic op op.onInts onDoubles m n) := by
  have hdouble {m n : Number} (h : ∀ i j, m = .int i → n = .int j → False) : ¬m.Overflows op n :=
    fun ⟨i, j, hi, hj, _⟩ => h i j hi hj
  cases m with
  | double x =>
    refine .ok ?_ (hdouble nofun)
    cases n <;> rfl
  | int i =>
    cases n with
    | double y => exact .ok rfl (hdouble nofun)
    | int j =>
      have hrange : Number.Overflows op (.int i) (.int j) ↔
          Integer.ofInt? (op.onInts i.toInt j.toInt) = none := by
        rw [Integer.ofInt?_eq_none_iff_not_inRange]
        refine ⟨?_, fun h => ⟨i, j, rfl, rfl, h⟩⟩
        rintro ⟨_, _, ⟨⟩, ⟨⟩, h⟩
        exact h
      simp only [arithmetic, exact]
      cases h : Integer.ofInt? (op.onInts i.toInt j.toInt) with
      | some w => exact .ok rfl fun hover => Option.some_ne_none w (h.symm.trans (hrange.1 hover))
      | none => exact .error rfl (hrange.2 h)

/-- Integers are multiplied in either order. -/
theorem Number.overflows_comm {m n : Number} :
    m.Overflows .multiply n ↔ n.Overflows .multiply m := by
  have h {m n : Number} : m.Overflows .multiply n → n.Overflows .multiply m := by
    rintro ⟨i, j, rfl, rfl, h⟩
    refine ⟨j, i, rfl, rfl, ?_⟩
    show ¬InRange (j.toInt * i.toInt)
    rw [Int.mul_comm]
    exact h
  exact ⟨h, h⟩

/-- Quotients of numbers are refused for a divisor of zero. -/
theorem Number.divide_of_isZero {m n : Number} (h : n.isZero = true) :
    m.divide n = .error (.divisionByZero m n) :=
  if_pos h

/-- Quotients by a divisor that is not zero are refused exactly for their range
(`Number.Overflows`): only the least integer over minus one is too large. -/
theorem Number.divide_ranged {m n : Number} (h : n.isZero = false) :
    Ranged (m.Overflows .divide n)
      (fun r => (Value.number r).kind = (Value.number m).kind.wider (Value.number n).kind)
      (m.divide n) := by
  rw [divide, if_neg (Bool.eq_false_iff.1 h)]
  exact arithmetic_ranged .divide (· / ·) m n

/-- Units are refused exactly if an exponent leaves the range (`Integer.InRange`), in whichever
dimension that is. -/
theorem Units.combine_ranged {op : Int → Int → Int} (hzero : ∀ n, op n 0 = n) (u w : Units) :
    Ranged (∃ name, ¬InRange (op (u.powers name) (w.powers name))) (fun _ => True)
      (combine op u w) := by
  cases h : combine op u w with
  | ok v =>
    refine .ok trivial ?_
    rw [← Classical.not_forall, not_not]
    exact (exists_combine_eq_ok_iff hzero).1 ⟨v, h⟩
  | error cause =>
    obtain ⟨name, rfl, hfirst⟩ := (combine_eq_error_iff hzero).1 h
    exact .error rfl ⟨name, hfirst.out⟩

namespace Value

/-- A string is refused exactly for its length in bytes, and is a string otherwise. -/
theorem repeatString_ranged (s : String) (count : Int64) :
    Ranged (repetitionLimit < s.utf8ByteSize * count.toInt.toNat) (fun v => v.kind = .string)
      (repeatString s count) := by
  dsimp only [repeatString]
  split
  · next h => exact .ok rfl (Nat.not_lt.2 h)
  · next h => exact .error rfl (Nat.lt_of_not_le h)

/-! ## Kinds and ranges of values -/

variable {op : BinaryOp} {v a b : Value}

@[grind =] theorem kind_eq_string : v.kind = .string ↔ ∃ s, v = .string s := by
  fun_cases kind v <;> simp

@[grind =] theorem kind_eq_bool : v.kind = .bool ↔ ∃ p, v = .bool p := by
  fun_cases kind v <;> simp

@[grind =] theorem kind_eq_unit : v.kind = .unit ↔ ∃ u, v = .unit u := by
  fun_cases kind v <;> simp

@[grind =] theorem kind_eq_quantity : v.kind = .quantity ↔ ∃ q, v = .quantity q := by
  fun_cases kind v <;> simp

@[grind =] theorem kind_eq_int : v.kind = .int ↔ ∃ i, v = .number (.int i) := by
  fun_cases kind v <;> simp

@[grind =] theorem isNumber_kind : v.kind.isNumber = true ↔ ∃ n, v = .number n := by
  fun_cases kind v <;> simp [Kind.isNumber]

/-- Arithmetic is defined for all numbers and makes the `Kind.wider` of their kinds. -/
theorem result?_numbers (hop : op.tier = .sum ∨ op.tier = .product) (m n : Number) :
    op.result? (number m).kind (number n).kind =
      some ((number m).kind.wider (number n).kind) := by
  cases op with
  | add | subtract | multiply | divide => cases m <;> cases n <;> rfl
  | _ => simp [BinaryOp.tier] at hop

/-- The exponents of a value are in range. -/
theorem inRange_powers (v : Value) (name : String) : InRange (v.powers name) := by
  unfold powers
  split
  · exact Units.inRange_powers _ name
  · exact Units.inRange_powers _ name
  · exact Integer.inRange_toInt 0

/-- Where there is no exponent on the right, the left one is kept. -/
theorem onExponents_zero (op : BinaryOp) (n : Int) : op.onExponents n 0 = n := by
  cases op <;> simp [BinaryOp.onExponents]

/-- Exponents are combined by products and quotients only. -/
theorem onExponents_of_ne_product (hop : op.tier ≠ .product) (i j : Int) :
    op.onExponents i j = i := by
  cases op with
  | multiply | divide => exact absurd rfl hop
  | _ => rfl

/-- A value without a magnitude is repeated. -/
theorem Repeats.magnitude? {s : String} {count : Int64} (h : Repeats s count a b) :
    a.magnitude? = none ∨ b.magnitude? = none := by
  cases h with
  | left => exact .inl rfl
  | right => exact .inr rfl

/-- For values with magnitudes, `Overflows` is about the magnitude or an exponent: neither of them
is repeated. -/
theorem overflows_iff {m n : Number} (ha : a.magnitude? = some m) (hb : b.magnitude? = some n) :
    m.Overflows op n ∨ (∃ name, ¬InRange (op.onExponents (a.powers name) (b.powers name))) ↔
      Overflows op a b := by
  constructor
  · rintro (h | ⟨name, h⟩)
    · exact .magnitude ha hb h
    · exact .exponent h
  · rintro (⟨hm, hn, h⟩ | h | ⟨-, hrepeats, -⟩)
    · cases ha.symm.trans hm
      cases hb.symm.trans hn
      exact .inl h
    · exact .inr ⟨_, h⟩
    · -- Strings have no magnitudes.
      rcases hrepeats.magnitude? with hnone | hnone
      · cases ha.symm.trans hnone
      · cases hb.symm.trans hnone

/-- Where exponents are kept in range, `Overflows` is about the magnitude alone. -/
theorem overflows_iff_of_kept {m n : Number} (ha : a.magnitude? = some m)
    (hb : b.magnitude? = some n)
    (hkept : ∀ name, InRange (op.onExponents (a.powers name) (b.powers name))) :
    m.Overflows op n ↔ Overflows op a b := by
  rw [← overflows_iff ha hb]
  exact (or_iff_left fun ⟨name, h⟩ => h (hkept name)).symm

/-- For two units, which have no magnitude, `Overflows` is about an exponent alone. -/
theorem overflows_units_iff {u w : Units} :
    (∃ name, ¬InRange (op.onExponents (u.powers name) (w.powers name))) ↔
      Overflows op (.unit u) (.unit w) := by
  constructor
  · rintro ⟨name, h⟩
    exact .exponent h
  · rintro (⟨⟨⟩⟩ | h | ⟨-, ⟨⟩⟩)
    exact ⟨_, h⟩

/-- For a string that is repeated (`Repeats`), `Overflows` is about its length alone. -/
theorem overflows_repetition_iff {s : String} {count : Int64} (h : Repeats s count a b) :
    repetitionLimit < s.utf8ByteSize * count.toInt.toNat ↔ Overflows .multiply a b := by
  constructor
  · exact .repetition rfl h
  · have hkept (name : String) :
        InRange (BinaryOp.onExponents .multiply (a.powers name) (b.powers name)) := by
      cases h <;> exact Integer.inRange_toInt 0
    rintro (⟨hm, hn, -⟩ | hout | ⟨-, hrepeats, hlimit⟩)
    · rcases h.magnitude? with hnone | hnone
      · cases hm.symm.trans hnone
      · cases hn.symm.trans hnone
    · exact absurd (hkept _) hout
    · cases h <;> cases hrepeats <;> exact hlimit

/-- Only products and quotients divide. -/
theorem not_dividesByZero (hop : op.tier ≠ .product) : ¬DividesByZero op b := by
  rintro ⟨rfl, -⟩
  exact hop rfl

/-- What is tested is not out of range. -/
theorem not_overflows (hop : op.tier = .comparison ∨ op.tier = .logic) : ¬Overflows op a b := by
  have hints (i j : Int) : op.onInts i j = 0 := by
    cases op with
    | add | subtract | multiply | divide => simp [BinaryOp.tier] at hop
    | _ => rfl
  have hproduct : op.tier ≠ .product := by
    rcases hop with h | h <;> simp [h]
  rintro (⟨-, -, i, j, -, -, h⟩ | h | ⟨rfl, -⟩)
  · exact h (hints _ _ ▸ Integer.inRange_toInt 0)
  · exact h (onExponents_of_ne_product hproduct _ _ ▸ inRange_powers a _)
  · exact hproduct rfl

/-- `equal?` compares two values exactly if their kinds are `Kind.Comparable`. -/
theorem isSome_equal?_iff : (equal? a b).isSome ↔ a.kind.Comparable b.kind := by
  fun_cases equal? a b <;> grind [Kind.Comparable]

/-- Truth values and numbers are taken for truth values. -/
theorem isSome_truth?_iff : v.truth?.isSome ↔ v.kind = .bool ∨ v.kind.isNumber := by
  fun_cases truth? v <;> grind

/-! ## Operators -/

namespace Outcome

/-- A step that is `Ranged` by what `Overflows` says is an `Outcome`, if no other reason to refuse
the operands is there. -/
theorem of_ranged {k : Kind} {overflows : Prop} {form : Value → Prop} {x : Except Cause Value}
    (hkind : op.result? a.kind b.kind = some k) (hzero : ¬DividesByZero op b)
    (hunits : ¬UnitsDiffer op a b) (hover : overflows ↔ Overflows op a b)
    (hx : Ranged overflows form x) (hform : ∀ v, form v → v.kind = k) : Outcome op a b x := by
  cases x with
  | ok v =>
    obtain ⟨hv, hok⟩ := hx.of_ok rfl
    exact .ok (hkind.trans (congrArg some (hform v hv).symm)) hzero hunits (mt hover.2 hok)
  | error cause =>
    obtain ⟨hcause, hout⟩ := hx.of_error rfl
    exact .range (Option.isSome_of_eq_some hkind) hzero hunits (hover.1 hout) hcause

/-- A test that is defined (`BinaryOp.result?`) comes to a truth value: tests neither divide nor
leave the range. -/
theorem test {p : Bool} (hop : op.tier = .comparison ∨ op.tier = .logic)
    (hkind : op.result? a.kind b.kind = some .bool) : Outcome op a b (.ok (.bool p)) := by
  refine .ok hkind (not_dividesByZero ?_) ?_ (not_overflows hop)
  · rcases hop with h | h <;> simp [h]
  · rintro ⟨hsum, -⟩
    simp [hsum] at hop

/-- Arithmetic on numbers, where the divisor is not zero. -/
theorem numbers (op : BinaryOp) {m n : Number} (hop : op.tier = .sum ∨ op.tier = .product)
    (hzero : ¬DividesByZero op (.number n)) (onDoubles : Float → Float → Float) :
    Outcome op (.number m) (.number n)
      (.number <$> Number.arithmetic op op.onInts onDoubles m n) := by
  refine of_ranged (result?_numbers hop m n) hzero (fun ⟨_, _, _, h, _⟩ => nomatch h)
    (overflows_iff_of_kept rfl rfl fun name => ?_)
    ((Number.arithmetic_ranged op onDoubles m n).map fun _ h => h) fun _ h => h
  rw [show powers (.number n) name = 0 from rfl, onExponents_zero]
  exact inRange_powers _ name

/-- The sum or the difference of quantities. -/
theorem quantities (op : BinaryOp) {q r : Quantity} (hop : op.tier = .sum)
    (onDoubles : Float → Float → Float) :
    Outcome op (.quantity q) (.quantity r)
      (.quantity <$> Quantity.combineAlike op (Number.arithmetic op op.onInts onDoubles) q r) := by
  have hkind : op.result? .quantity .quantity = some .quantity := by
    cases op with
    | add | subtract => rfl
    | _ => cases hop
  have hproduct : op.tier ≠ .product := hop ▸ nofun
  unfold Quantity.combineAlike
  split
  · next heq =>
    refine of_ranged hkind (not_dividesByZero hproduct) ?_
      (overflows_iff_of_kept rfl rfl fun name => ?_)
      ((Number.arithmetic_ranged op onDoubles q.magnitude r.magnitude).beside.map
        fun _ _ => rfl) fun _ h => h
    · rintro ⟨-, _, _, ⟨⟩, ⟨⟩, hne⟩
      exact hne heq
    · exact onExponents_of_ne_product hproduct _ _ ▸ inRange_powers _ name
  · next hne =>
    exact .units (Option.isSome_of_eq_some hkind) ⟨hop, q, r, rfl, rfl, hne⟩ rfl

/-- The product or the quotient of units. -/
theorem unitProducts (op : BinaryOp) {u w : Units} (hop : op.tier = .product) :
    Outcome op (.unit u) (.unit w) (.unit <$> Units.combine op.onExponents u w) := by
  have hkind : op.result? .unit .unit = some .unit := by
    cases op with
    | multiply | divide => rfl
    | _ => cases hop
  exact of_ranged hkind (fun ⟨_, _, h, _⟩ => nomatch h) (fun ⟨_, _, _, h, _⟩ => nomatch h)
    overflows_units_iff ((Units.combine_ranged (onExponents_zero op) u w).map fun _ _ => rfl)
    fun _ h => h

/-- A sum or a difference of values without magnitudes. -/
theorem kept {v : Value} (hop : op.tier = .sum) (ha : a.magnitude? = none)
    (hkind : op.result? a.kind b.kind = some v.kind) : Outcome op a b (.ok v) := by
  have hproduct : op.tier ≠ .product := hop ▸ nofun
  refine .ok hkind (not_dividesByZero hproduct) ?_ ?_
  · rintro ⟨-, _, _, rfl, -⟩
    cases ha
  · rintro (⟨hm, -⟩ | h | ⟨rfl, -⟩)
    · cases ha.symm.trans hm
    · exact h (onExponents_of_ne_product hproduct _ _ ▸ inRange_powers a _)
    · exact hproduct rfl

/-- A quotient of what has magnitudes, if it is refused for a divisor of zero. -/
theorem quotient (m n : Number) {k : Kind} {overflows : Prop} {form : Value → Prop}
    {x : Except Cause Value} (hb : b.magnitude? = some n)
    (hkind : BinaryOp.result? .divide a.kind b.kind = some k)
    (hzero : n.isZero = true → x = .error (.divisionByZero m n))
    (hover : overflows ↔ Overflows .divide a b)
    (hx : n.isZero = false → Ranged overflows form x) (hform : ∀ v, form v → v.kind = k) :
    Outcome .divide a b x := by
  cases hn : n.isZero with
  | true =>
    rw [hzero hn]
    exact .zero (Option.isSome_of_eq_some hkind) ⟨rfl, n, hb, hn⟩ rfl
  | false =>
    refine of_ranged hkind ?_ (fun h => nomatch h.1) hover (hx hn) hform
    rintro ⟨-, n', hn', hz⟩
    cases hb.symm.trans hn'
    exact Bool.false_ne_true (hn.symm.trans hz)

end Outcome

theorem outcome_add (a b : Value) : Outcome .add a b (add a b) := by
  unfold add
  split
  · exact .kept rfl rfl rfl
  · exact .kept rfl rfl rfl
  · exact .quantities .add rfl _
  · exact .numbers .add (.inl rfl) (fun h => nomatch h.1) _
  · refine .undefined ?_
    grind [BinaryOp.result?, Kind.alike?]

theorem outcome_subtract (a b : Value) : Outcome .subtract a b (subtract a b) := by
  unfold subtract
  split
  · exact .kept rfl rfl rfl
  · exact .quantities .subtract rfl _
  · exact .numbers .subtract (.inl rfl) (fun h => nomatch h.1) _
  · refine .undefined ?_
    grind [BinaryOp.result?, Kind.alike?]

theorem outcome_multiply (a b : Value) : Outcome .multiply a b (multiply a b) := by
  have hunits {a b : Value} : ¬UnitsDiffer .multiply a b := fun h => nomatch h.1
  have hzero {b : Value} : ¬DividesByZero .multiply b := fun h => nomatch h.1
  have hmagnitudes (m n : Number) := Number.arithmetic_ranged .multiply (· * ·) m n
  unfold multiply
  split
  · next s count =>
    exact .of_ranged rfl hzero hunits (overflows_repetition_iff .left)
      (repeatString_ranged s count) fun _ h => h
  · next count s =>
    exact .of_ranged rfl hzero hunits (overflows_repetition_iff .right)
      (repeatString_ranged s count) fun _ h => h
  · exact .unitProducts .multiply rfl
  · next q r =>
    exact .of_ranged rfl hzero hunits (overflows_iff rfl rfl)
      (((hmagnitudes q.magnitude r.magnitude).both
        (Units.combine_ranged Int.add_zero q.units r.units)).map fun _ _ => rfl) fun _ h => h
  · next q n =>
    refine .of_ranged (by cases n <;> rfl) hzero hunits
      (overflows_iff_of_kept rfl rfl fun name => ?_)
      ((hmagnitudes q.magnitude n).beside.map fun _ _ => rfl) fun _ h => h
    exact (onExponents_zero .multiply _).symm ▸ inRange_powers (.quantity q) name
  · next n q =>
    refine .of_ranged (by cases n <;> rfl) hzero hunits
      (Number.overflows_comm.trans (overflows_iff_of_kept rfl rfl fun name => ?_))
      ((hmagnitudes q.magnitude n).beside.map fun _ _ => rfl) fun _ h => h
    -- The exponents are those of the operand on the right.
    show InRange (0 + q.units.powers name)
    rw [Int.zero_add]
    exact inRange_powers (.quantity q) name
  · exact .numbers .multiply (.inr rfl) hzero _
  · refine .undefined ?_
    grind [BinaryOp.result?, Kind.alike?, Kind.Scales]

theorem outcome_divide (a b : Value) : Outcome .divide a b (divide a b) := by
  unfold divide
  split
  · exact .unitProducts .divide rfl
  · next q r =>
    refine .quotient q.magnitude r.magnitude rfl rfl (fun h => ?_) (overflows_iff rfl rfl)
      (fun h => ((Number.divide_ranged h).both
        (Units.combine_ranged Int.sub_zero q.units r.units)).map fun _ _ => rfl) fun _ h => h
    -- Magnitudes come first, so that no exponent is looked at if the divisor is zero.
    rw [Quantity.divide, Number.divide_of_isZero h]
    rfl
  · next q n =>
    refine .quotient q.magnitude n rfl (by cases n <;> rfl) (fun h => ?_)
      (overflows_iff_of_kept rfl rfl fun name => ?_)
      (fun h => (Number.divide_ranged h).beside.map fun _ _ => rfl) fun _ h => h
    · rw [Quantity.shrink, Number.divide_of_isZero h]
      rfl
    · exact (onExponents_zero .divide _).symm ▸ inRange_powers (.quantity q) name
  · next n q =>
    refine .quotient n q.magnitude rfl (by cases n <;> rfl) (fun h => ?_)
      (overflows_iff rfl rfl)
      (fun h => ((Number.divide_ranged h).both
        (Units.combine_ranged Int.sub_zero .one q.units)).map fun _ _ => rfl) fun _ h => h
    rw [Quantity.divideInto, Number.divide_of_isZero h]
    rfl
  · next m n =>
    refine .quotient m n rfl (result?_numbers (.inr rfl) m n) (fun h => ?_)
      (overflows_iff_of_kept rfl rfl fun name => Integer.inRange_toInt 0)
      (fun h => (Number.divide_ranged h).map fun _ h => h) fun _ h => h
    rw [Number.divide_of_isZero h]
    rfl
  · refine .undefined ?_
    grind [BinaryOp.result?, Kind.alike?, Kind.Scales]

/-- Tests for equality, with either sense of the test: an `Outcome` by `isSome_equal?_iff`. -/
theorem outcome_equality {op : BinaryOp} (hop : op = .equal ∨ op = .notEqual)
    (test : Bool → Bool) (a b : Value) : Outcome op a b (equality op test a b) := by
  have hresult : op.result? a.kind b.kind =
      if a.kind.Comparable b.kind then some .bool else none := by
    rcases hop with rfl | rfl <;> rfl
  unfold equality
  split
  · next p h =>
    refine .test (.inl (by rcases hop with rfl | rfl <;> rfl)) ?_
    rw [hresult, if_pos (isSome_equal?_iff.1 (Option.isSome_of_eq_some h))]
  · next h =>
    refine .undefined ?_
    rw [hresult, if_neg fun hk => Option.isSome_iff_ne_none.1 (isSome_equal?_iff.2 hk) h]

/-- Tests for the order of numbers, for all four operators at once. -/
theorem outcome_order {op : BinaryOp}
    (hop : op = .less ∨ op = .lessEqual ∨ op = .greater ∨ op = .greaterEqual)
    (test : Option Ordering → Bool) (a b : Value) : Outcome op a b (order op test a b) := by
  have hresult : op.result? a.kind b.kind =
      if a.kind.isNumber ∧ b.kind.isNumber then some .bool else none := by
    rcases hop with rfl | rfl | rfl | rfl <;> rfl
  unfold order
  split
  · next m n =>
    refine .test (.inl (by rcases hop with rfl | rfl | rfl | rfl <;> rfl)) ?_
    rw [hresult, if_pos ⟨isNumber_kind.2 ⟨m, rfl⟩, isNumber_kind.2 ⟨n, rfl⟩⟩]
  · next h =>
    refine .undefined ?_
    rw [hresult, if_neg]
    rintro ⟨ha, hb⟩
    obtain ⟨m, rfl⟩ := isNumber_kind.1 ha
    obtain ⟨n, rfl⟩ := isNumber_kind.1 hb
    exact h m n rfl rfl

/-- Joined truth values, for both operators at once. Numbers are taken for truth values here. -/
theorem outcome_logic {op : BinaryOp} (hop : op = .and ∨ op = .or)
    (test : Bool → Bool → Bool) (a b : Value) : Outcome op a b (logic op test a b) := by
  have hresult : op.result? a.kind b.kind =
      if a.kind = .bool ∧ (b.kind = .bool ∨ b.kind.isNumber) then some .bool else none := by
    rcases hop with rfl | rfl <;> rfl
  unfold logic
  split
  · next p q h =>
    refine .test (.inr (by rcases hop with rfl | rfl <;> rfl)) ?_
    rw [hresult, if_pos ⟨rfl, isSome_truth?_iff.1 (Option.isSome_of_eq_some h)⟩]
  · next h =>
    refine .undefined ?_
    rw [hresult, if_neg]
    rintro ⟨ha, hb⟩
    obtain ⟨p, rfl⟩ := kind_eq_bool.1 ha
    obtain ⟨q, hq⟩ := Option.isSome_iff_exists.1 (isSome_truth?_iff.2 hb)
    exact h p q rfl hq

/-- What every operator comes to for every two values is an `Outcome`: one case for each group of
operators. -/
theorem binary_outcome (op : BinaryOp) (a b : Value) : Outcome op a b (binary op a b) := by
  cases op with
  | add => exact outcome_add a b
  | subtract => exact outcome_subtract a b
  | multiply => exact outcome_multiply a b
  | divide => exact outcome_divide a b
  | equal => exact outcome_equality (.inl rfl) _ a b
  | notEqual => exact outcome_equality (.inr rfl) _ a b
  | less | lessEqual | greater | greaterEqual =>
    rw [binary]
    exact outcome_order (by decide) _ a b
  | and => exact outcome_logic (.inl rfl) _ a b
  | or => exact outcome_logic (.inr rfl) _ a b

/-! ## What is reported -/

/-- What an operator reports for two values tells why, and where it reports nothing it has a result
of the kind that was announced. `BinaryOp.result?` is the table of kinds; `DividesByZero`,
`UnitsDiffer` and `Overflows` are the reasons to refuse operands of kinds that are in the table, in
this order. -/
structure Dispatched (op : BinaryOp) (a b : Value) : Prop where
  /-- For kinds that `BinaryOp.result?` leaves out the operator is refused, naming itself and both
  kinds, and for no others. -/
  undefined : op.result? a.kind b.kind = none ↔
    binary op a b = .error (.invalidOperation op a.kind b.kind)
  /-- That is the only way it is an invalid operation: such a refusal always names these kinds. -/
  invalid {cause : Cause} : binary op a b = .error cause → cause.kind = .invalidOperation →
    cause = .invalidOperation op a.kind b.kind
  /-- There is a result exactly if the table has one for the two kinds (`BinaryOp.result?`) and none
  of the three other reasons to refuse the operands is there. -/
  ok : (∃ v, binary op a b = .ok v) ↔ (op.result? a.kind b.kind).isSome ∧
    ¬DividesByZero op b ∧ ¬UnitsDiffer op a b ∧ ¬Overflows op a b
  /-- The kinds of the operands tell that of the result, by `BinaryOp.result?`. -/
  kind {v : Value} : binary op a b = .ok v → op.result? a.kind b.kind = some v.kind
  /-- A division by zero is reported exactly where the table has a result and `DividesByZero` holds,
  before anything is said of the range. -/
  zero : (∃ cause, binary op a b = .error cause ∧ cause.kind = .divisionByZero) ↔
    (op.result? a.kind b.kind).isSome ∧ DividesByZero op b
  /-- Units that differ are reported exactly where the table has a result and `UnitsDiffer`
  holds. -/
  units : (∃ cause, binary op a b = .error cause ∧ cause.kind = .unitMismatch) ↔
    (op.result? a.kind b.kind).isSome ∧ UnitsDiffer op a b
  /-- Units that differ are reported with the operator, the left one first, and the detail of the
  fault shows the texts of both (`Units.text`). -/
  mismatch {cause : Cause} : binary op a b = .error cause → cause.kind = .unitMismatch →
    ∃ q r, a = .quantity q ∧ b = .quantity r ∧ cause = .unitMismatch op q.units r.units ∧
      cause.detail = "cannot apply `" ++ op.text ++ "` to " ++ q.units.text ++ " and " ++
        r.units.text
  /-- A result is refused for its range (`Overflows`) only where there is no other reason to refuse
  the operands. -/
  range : (∃ cause, binary op a b = .error cause ∧ cause.kind = .overflow) ↔
    (op.result? a.kind b.kind).isSome ∧ ¬DividesByZero op b ∧ ¬UnitsDiffer op a b ∧
      Overflows op a b
  /-- Nothing else is reported by `Value.binary`: these four kinds of causes are all there are. -/
  reasons {cause : Cause} : binary op a b = .error cause → cause.kind = .invalidOperation ∨
    cause.kind = .divisionByZero ∨ cause.kind = .unitMismatch ∨ cause.kind = .overflow
  /-- Texts are added by putting the right one behind the left one. -/
  joined {s t : String} : op = .add → a = .string s → b = .string t →
    binary op a b = .ok (.string (s ++ t))
  /-- Of two units that are added or subtracted the left one is kept, whatever the right one is. -/
  left {u w : Units} : op.tier = .sum → a = .unit u → b = .unit w → binary op a b = .ok (.unit u)

/-- No operator both divides and adds or subtracts. -/
theorem DividesByZero.not_unitsDiffer (h : DividesByZero op b) : ¬UnitsDiffer op a b := by
  rintro ⟨hsum, -⟩
  rw [h.1] at hsum
  cases hsum

namespace Outcome

variable {x : Except Cause Value}

/-- The kind of a result is the one that was announced. -/
theorem of_ok (h : Outcome op a b (.ok v)) : op.result? a.kind b.kind = some v.kind := by
  cases h with
  | ok hkind => exact hkind

/-- Invalid operations are named with the kinds of both operands. -/
theorem of_invalid {cause : Cause} (h : Outcome op a b (.error cause))
    (hkind : cause.kind = .invalidOperation) :
    cause = .invalidOperation op a.kind b.kind := by
  cases h <;> grind

/-- There are four reasons to refuse operands. -/
theorem reasons {cause : Cause} (h : Outcome op a b (.error cause)) :
    cause.kind = .invalidOperation ∨ cause.kind = .divisionByZero ∨
      cause.kind = .unitMismatch ∨ cause.kind = .overflow := by
  cases h <;> grind [Cause.kind]

theorem undefined_iff (h : Outcome op a b x) :
    op.result? a.kind b.kind = none ↔ x = .error (.invalidOperation op a.kind b.kind) := by
  cases h <;> grind [Cause.kind]

theorem ok_iff (h : Outcome op a b x) :
    (∃ v, x = .ok v) ↔ (op.result? a.kind b.kind).isSome ∧
      ¬DividesByZero op b ∧ ¬UnitsDiffer op a b ∧ ¬Overflows op a b := by
  cases h <;> grind

theorem zero_iff (h : Outcome op a b x) :
    (∃ cause, x = .error cause ∧ cause.kind = .divisionByZero) ↔
      (op.result? a.kind b.kind).isSome ∧ DividesByZero op b := by
  cases h <;> grind [Cause.kind, DividesByZero.not_unitsDiffer]

theorem units_iff (h : Outcome op a b x) :
    (∃ cause, x = .error cause ∧ cause.kind = .unitMismatch) ↔
      (op.result? a.kind b.kind).isSome ∧ UnitsDiffer op a b := by
  cases h <;> grind [Cause.kind, DividesByZero.not_unitsDiffer]

theorem range_iff (h : Outcome op a b x) :
    (∃ cause, x = .error cause ∧ cause.kind = .overflow) ↔
      (op.result? a.kind b.kind).isSome ∧ ¬DividesByZero op b ∧ ¬UnitsDiffer op a b ∧
        Overflows op a b := by
  cases h <;> grind [Cause.kind]

end Outcome

/-- A unit mismatch is one of the units of two quantities, and its `Cause.detail` shows these, by
`Value.Grounds`. -/
theorem eq_unitMismatch {cause : Cause} (h : binary op a b = .error cause)
    (hkind : cause.kind = .unitMismatch) :
    ∃ q r, a = .quantity q ∧ b = .quantity r ∧ cause = .unitMismatch op q.units r.units ∧
      cause.detail = "cannot apply `" ++ op.text ++ "` to " ++ q.units.text ++ " and " ++
        r.units.text := by
  cases (binary_refusedFor op a b).of_error h with
  | range hrange => cases hrange.symm.trans hkind
  | zero _ hzero => cases hzero.symm.trans hkind
  | kinds => cases hkind
  | units _ _ => exact ⟨_, _, rfl, rfl, rfl, rfl⟩

/-- Operators are dispatched by the kinds of their operands, and what they report tells why
(`Dispatched`). This holds of all operators and all values, functions and signals among them. -/
theorem binary_dispatched (op : BinaryOp) (a b : Value) : Dispatched op a b where
  undefined := (binary_outcome op a b).undefined_iff
  invalid h hkind := (h ▸ binary_outcome op a b).of_invalid hkind
  ok := (binary_outcome op a b).ok_iff
  kind h := (h ▸ binary_outcome op a b).of_ok
  zero := (binary_outcome op a b).zero_iff
  units := (binary_outcome op a b).units_iff
  mismatch := eq_unitMismatch
  range := (binary_outcome op a b).range_iff
  reasons h := (h ▸ binary_outcome op a b).reasons
  joined hop ha hb := by
    subst hop ha hb
    rfl
  left hop ha hb := by
    subst ha hb
    cases op with
    | add | subtract => rfl
    | _ => cases hop

end Value

end UnitScript
