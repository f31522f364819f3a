import Mathlib.Data.Rat.Floor
import UnitScript.Proofs.Units.Algebra
import UnitScript.Value.Operation

/-!
# Arithmetic of integers

A sum, difference, product or negative of words is the exact result, and is refused exactly if no
word holds that (`Value.Exact`). A quotient is the exact one rounded down (`Value.Quotient`), and
can be made in steps on words: the quotient that is rounded towards zero is one too large where
there is a remainder whose sign is not that of the divisor (`Integer.floorQuotient`). No step of
these is ever given words for which it is not defined, although only the first one checks
(`integerArithmetic`).
-/

namespace UnitScript

/-! ## Rounding down -/

/-- A quotient that is rounded down, and its remainder: the exact integers, before there is a
question of words (`Int64`) that hold them. -/
structure FloorDivision (a b q r : Int) : Prop where
  /-- The quotient and the remainder make up the dividend, -/
  whole : a = b * q + r
  /-- the remainder has the sign of the divisor, as that of `Int.fmod` has, -/
  sign : r = 0 ∨ (r < 0 ↔ b < 0)
  /-- and is smaller than the divisor. -/
  small : r.natAbs < b.natAbs

namespace FloorDivision

variable {a b q r : Int}

/-- A quotient is rounded down in one way only: `FloorDivision` fixes it to be `Int.fdiv`. -/
theorem fdiv_eq (h : FloorDivision a b q r) : a.fdiv b = q := by
  obtain ⟨hwhole, hsign, hsmall⟩ := h
  rcases Int.lt_or_gt_of_ne (show b ≠ 0 by omega) with hneg | hpos
  · exact ((Int.fdiv_fmod_unique' (r := r) hneg).2 ⟨by omega, by omega, by omega⟩).1
  · exact ((Int.fdiv_fmod_unique (r := r) hpos).2 ⟨by omega, by omega, by omega⟩).1

/-- What is rounded down in `FloorDivision` is the exact quotient of the rationals. -/
theorem floor_eq (h : FloorDivision a b q r) : ⌊(a : ℚ) / b⌋ = q := by
  rw [← h.fdiv_eq]
  obtain ⟨n, rfl | rfl⟩ := b.eq_nat_or_neg
  · rw [Int.fdiv_eq_ediv_of_nonneg _ (Int.natCast_nonneg n)]
    exact Rat.floor_intCast_div_natCast a n
  · rw [← Int.neg_fdiv_neg, Int.neg_neg, Int.fdiv_eq_ediv_of_nonneg _ (Int.natCast_nonneg n),
      ← Rat.floor_intCast_div_natCast, Int.cast_neg, Int.cast_neg, neg_div, div_neg]
    rfl

/-- A remainder of the quotient that is rounded towards zero (`Int.tmod`) is smaller than the
divisor, and has the sign of the dividend. -/
theorem tmod_bounds (a : Int) (hb : b ≠ 0) :
    (a.tmod b).natAbs < b.natAbs ∧ (0 ≤ a → 0 ≤ a.tmod b) ∧ (a ≤ 0 → a.tmod b ≤ 0) := by
  refine ⟨?_, Int.tmod_nonneg b, fun ha => ?_⟩
  · rw [Int.natAbs_tmod]
    exact Nat.mod_lt _ (Int.natAbs_pos.2 hb)
  · have hneg := Int.tmod_nonneg b (Int.neg_nonneg_of_nonpos ha)
    rw [Int.neg_tmod] at hneg
    omega

/-- Where nothing remains, or the signs agree, rounding towards zero (`Int.tdiv`) rounds down. -/
theorem of_tdiv (hb : b ≠ 0) (h : a.tmod b = 0 ∨ (a < 0 ↔ b < 0)) :
    FloorDivision a b (a.tdiv b) (a.tmod b) := by
  obtain ⟨hsmall, hnonneg, hnonpos⟩ := tmod_bounds a hb
  exact ⟨(Int.mul_tdiv_add_tmod a b).symm, by omega, hsmall⟩

/-- Where something remains and the signs differ, `FloorDivision` comes to one less than
`Int.tdiv`. -/
theorem of_tdiv_sub_one (hb : b ≠ 0) (hrest : a.tmod b ≠ 0) (h : ¬(a < 0 ↔ b < 0)) :
    FloorDivision a b (a.tdiv b - 1) (a.tmod b + b) := by
  obtain ⟨hsmall, hnonneg, hnonpos⟩ := tmod_bounds a hb
  refine ⟨?_, by omega, by omega⟩
  have hwhole := Int.mul_tdiv_add_tmod a b
  rw [Int.mul_sub, Int.mul_one]
  omega

end FloorDivision

/-! ## Steps on words -/

/-- How steps on words (`Int64`) can end without a word. -/
inductive Halt where
  /-- It is found out that there is no result. -/
  | refused
  /-- A step is given words for which it is not defined. -/
  | trapped

namespace Integer

/-- Words of which no quotient is taken: the divisor is zero, or the quotient is too large for a
word (`Integer.InRange`). -/
def Indivisible (a b : Int64) : Prop := b = 0 ∨ a = Int64.minValue ∧ b = -1

instance (a b : Int64) : Decidable (Indivisible a b) := inferInstanceAs (Decidable (_ ∨ _))

/-- The quotient rounded towards zero, if there is one. Words that are `Indivisible` are refused
here. -/
def quotient (a b : Int64) : Except Halt Int64 :=
  if Indivisible a b then .error .refused else .ok (a / b)

/-- What that quotient leaves. It is not checked whether there is one: for words that are
`Indivisible` this step is trapped. -/
def remainder (a b : Int64) : Except Halt Int64 :=
  if Indivisible a b then .error .trapped else .ok (a % b)

/-- One less. It is not checked whether that is in range: for the least word this step is
trapped. -/
def predecessor (q : Int64) : Except Halt Int64 :=
  if q = Int64.minValue then .error .trapped else .ok (q - 1)

/-- The quotient rounded down, if there is one, by steps on words: `quotient`, `remainder` and,
where the signs differ and something remains, `predecessor`. -/
def floorQuotient (a b : Int64) : Except Halt Int64 := do
  let q ← quotient a b
  if (← remainder a b) ≠ 0 ∧ ¬(a < 0 ↔ b < 0) then predecessor q else return q

variable {a b q : Int64}

theorem toInt_eq_zero_iff : a.toInt = 0 ↔ a = 0 := by rw [← Int64.toInt_zero, Int64.toInt_inj]

theorem lt_zero_iff : a < 0 ↔ a.toInt < 0 := by rw [Int64.lt_iff_toInt_lt, Int64.toInt_zero]

/-- Without a quotient there is nothing to round. -/
theorem floorQuotient_of_indivisible (h : Indivisible a b) :
    floorQuotient a b = .error .refused := by
  rw [floorQuotient, quotient, if_pos h]
  rfl

/-- With a quotient, the remainder is defined too, so only the last step of `floorQuotient` is left
to look at. -/
theorem floorQuotient_of_not_indivisible (h : ¬Indivisible a b) :
    floorQuotient a b =
      if a % b ≠ 0 ∧ ¬(a < 0 ↔ b < 0) then predecessor (a / b) else .ok (a / b) := by
  rw [floorQuotient, quotient, remainder, if_neg h, if_neg h]
  rfl

/-- A quotient of words is the quotient of the integers. -/
theorem toInt_div (h : ¬Indivisible a b) : (a / b).toInt = a.toInt.tdiv b.toInt := by
  rcases not_and_or.1 (not_or.1 h).2 with ha | hb
  · exact Int64.toInt_div_of_ne_left a b ha
  · exact Int64.toInt_div_of_ne_right a b hb

/-- One less is defined for every word but the least. -/
theorem predecessor_eq_ok (h : Int64.minValue.toInt < q.toInt) :
    ∃ w, predecessor q = .ok w ∧ w.toInt = q.toInt - 1 := by
  have hne : q ≠ Int64.minValue := by
    rintro rfl
    exact Int.lt_irrefl _ h
  refine ⟨q - 1, if_neg hne, ?_⟩
  have hle := q.toInt_lt
  rw [Int64.toInt_minValue] at h
  rw [Int64.toInt_sub, Int64.toInt_one]
  exact Int.bmod_eq_of_le (by omega) (by omega)

/-- With a quotient, no step of `floorQuotient` is given words for which it is not defined, and the
last one comes to the quotient rounded down (`FloorDivision`). -/
theorem floorQuotient_eq_ok (h : ¬Indivisible a b) :
    ∃ q r, floorQuotient a b = .ok q ∧ FloorDivision a.toInt b.toInt q.toInt r := by
  have hb : b.toInt ≠ 0 := fun hzero => h (.inl (toInt_eq_zero_iff.1 hzero))
  have hquotient := toInt_div h
  have hrest : a % b ≠ 0 ↔ a.toInt.tmod b.toInt ≠ 0 := by
    rw [Ne, ← toInt_eq_zero_iff, Int64.toInt_mod]
  rw [floorQuotient_of_not_indivisible h]
  simp only [hrest, lt_zero_iff]
  by_cases hdown : a.toInt.tmod b.toInt ≠ 0 ∧ ¬(a.toInt < 0 ↔ b.toInt < 0)
  · rw [if_pos hdown]
    have hfloor := FloorDivision.of_tdiv_sub_one hb hdown.1 hdown.2
    -- The quotient rounded down is no further from zero than the dividend, so one more is no
    -- least word.
    have hnear := Int.natAbs_fdiv_le_natAbs a.toInt b.toInt
    rw [hfloor.fdiv_eq] at hnear
    obtain ⟨w, hw, hvalue⟩ := predecessor_eq_ok (q := a / b) (by
      have hleast := a.le_toInt
      have hmost := a.toInt_lt
      rw [hquotient, Int64.toInt_minValue]
      omega)
    rw [hw]
    rw [← hquotient, ← hvalue] at hfloor
    exact ⟨w, _, rfl, hfloor⟩
  · rw [if_neg hdown]
    have hfloor := FloorDivision.of_tdiv (a := a.toInt) hb (by
      by_cases hzero : a.toInt.tmod b.toInt = 0
      · exact .inl hzero
      · exact .inr (not_not.1 fun hsigns => hdown ⟨hzero, hsigns⟩))
    rw [← hquotient] at hfloor
    exact ⟨a / b, _, rfl, hfloor⟩

example : floorQuotient (-7) 2 = .ok (-4) ∧ floorQuotient Int64.minValue (-1) = .error .refused :=
  ⟨rfl, rfl⟩

end Integer

/-! ## Outcomes -/

open Integer (InRange Indivisible floorQuotient)

namespace Value

/-- An exact result, which is refused exactly if no word holds it (`Integer.InRange`). -/
inductive Exact (n : Int) (cause : Cause) : Except Cause Value → Prop
  | held {w : Int64} : w.toInt = n → Exact n cause (.ok (.number (.int w)))
  | refused : ¬InRange n → Exact n cause (.error cause)

/-- The outcome of the division of two words (`Number.divide`): a refusal by zero, one for the
range, or the quotient rounded down. -/
inductive Quotient (a b : Int64) : Except Cause Value → Prop
  | zero : b = 0 → Quotient a b (.error (.divisionByZero (.int a) (.int b)))
  | overflow : a = Int64.minValue → b = -1 → Quotient a b (.error (.overflow .divide a b))
  /-- Every other quotient is rounded down, in the sense of the rationals and of `FloorDivision`. -/
  | floor {q : Int64} {r : Int} : ¬Indivisible a b → q.toInt = ⌊(a.toInt : ℚ) / b.toInt⌋ →
      FloorDivision a.toInt b.toInt q.toInt r → Quotient a b (.ok (.number (.int q)))

/-- The division of two words by the steps of `floorQuotient`, behind the test for a divisor of
zero. -/
def divideBySteps (a b : Int64) : Except Cause Value :=
  if b = 0 then .error (.divisionByZero (.int a) (.int b))
  else
    match floorQuotient a b with
    | .ok q => .ok (.number (.int q))
    | .error _ => .error (.overflow .divide a b)

end Value

/-- An exact number that is made a value. -/
theorem Number.exact_map (cause : Cause) (n : Int) :
    Value.Exact n cause (Value.number <$> Number.exact cause n) := by
  unfold exact
  split
  next w h => exact .held (Integer.ofInt?_eq_some_iff.1 h)
  next h => exact .refused (Integer.ofInt?_eq_none_iff_not_inRange.1 h)

namespace Value

variable {a b : Int64}

/-- `Value.divide` on two integers comes to what the steps on words (`divideBySteps`) come to. -/
theorem divide_eq_divideBySteps (a b : Int64) :
    divide (.number (.int a)) (.number (.int b)) = divideBySteps a b := by
  rw [divideBySteps]
  show number <$> Number.divide (.int a) (.int b) = _
  have hisZero : (Number.int b).isZero = true ↔ b = 0 := beq_iff_eq
  rw [Number.divide]
  by_cases hzero : b = 0
  · rw [if_pos hzero, if_pos (hisZero.2 hzero)]
    rfl
  rw [if_neg hzero, if_neg fun h => hzero (hisZero.1 h)]
  by_cases h : Indivisible a b
  · obtain ⟨rfl, rfl⟩ := h.resolve_left hzero
    rfl
  · obtain ⟨q, r, hsteps, hfloor⟩ := Integer.floorQuotient_eq_ok h
    rw [hsteps]
    show number <$> Number.exact _ (a.toInt.fdiv b.toInt) = _
    rw [hfloor.fdiv_eq, Number.exact_eq_ok_iff.2 ⟨q, rfl, rfl⟩]
    rfl

/-- The steps of `divideBySteps` come to the quotient rounded down wherever there is one, and to one
of two refusals otherwise (`Quotient`). -/
theorem quotient_divideBySteps (a b : Int64) : Quotient a b (divideBySteps a b) := by
  rw [divideBySteps]
  by_cases hzero : b = 0
  · rw [if_pos hzero]
    exact .zero hzero
  rw [if_neg hzero]
  by_cases h : Indivisible a b
  · rw [Integer.floorQuotient_of_indivisible h]
    obtain ⟨ha, hb⟩ := h.resolve_left hzero
    exact .overflow ha hb
  · obtain ⟨q, r, hsteps, hfloor⟩ := Integer.floorQuotient_eq_ok h
    rw [hsteps]
    exact .floor h hfloor.floor_eq.symm hfloor

end Value

/-- The steps of a division are defined for all words that they are given: `floorQuotient` is never
trapped. -/
theorem Integer.floorQuotient_ne_trapped (a b : Int64) : floorQuotient a b ≠ .error .trapped := by
  by_cases h : Indivisible a b
  · rw [floorQuotient_of_indivisible h]
    nofun
  · obtain ⟨q, r, hsteps, -⟩ := floorQuotient_eq_ok h
    rw [hsteps]
    nofun

/-- What arithmetic makes of two integers: sums, differences, products and negatives are exact or
refused (`Value.Exact`), and quotients are rounded down (`Value.Quotient`), by steps on words that
are defined throughout. -/
structure IntegerArithmetic (a b : Int64) : Prop where
  sum : Value.Exact (a.toInt + b.toInt) (.overflow .add a b)
    (Value.binary .add (.number (.int a)) (.number (.int b)))
  difference : Value.Exact (a.toInt - b.toInt) (.overflow .subtract a b)
    (Value.binary .subtract (.number (.int a)) (.number (.int b)))
  product : Value.Exact (a.toInt * b.toInt) (.overflow .multiply a b)
    (Value.binary .multiply (.number (.int a)) (.number (.int b)))
  negative : Value.Exact (-a.toInt) (.negationOverflow a)
    (Value.unary .negate (.number (.int a)))
  quotient : Value.Quotient a b (Value.binary .divide (.number (.int a)) (.number (.int b)))
  /-- The quotient is the one that steps on words come to (`Value.divideBySteps`), -/
  steps : Value.binary .divide (.number (.int a)) (.number (.int b)) = Value.divideBySteps a b
  /-- and none of these is given words for which it is not defined (`Halt.trapped`). -/
  untrapped : Integer.floorQuotient a b ≠ .error .trapped

/-- Arithmetic on integers is exact or refused (`IntegerArithmetic`), for any two words. -/
theorem integerArithmetic (a b : Int64) : IntegerArithmetic a b where
  sum := Number.exact_map ..
  difference := Number.exact_map ..
  product := Number.exact_map ..
  negative := Number.exact_map ..
  quotient := by
    rw [Value.binary, Value.divide_eq_divideBySteps]
    exact Value.quotient_divideBySteps a b
  steps := Value.divide_eq_divideBySteps a b
  untrapped := Integer.floorQuotient_ne_trapped a b

end UnitScript
