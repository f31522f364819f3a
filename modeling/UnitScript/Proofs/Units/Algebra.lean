import UnitScript.Proofs.Units.Exponents

/-!
# Laws of units

Where exponents are combined by an operation that leaves them alone if there is nothing to combine
them with, one law tells the whole outcome (`Units.combine_eq_ok_iff`,
`Units.combine_eq_error_iff`): the result has the combined exponents, and if not all of these are in
range the first dimension whose exponent is not is refused. So two operations that combine to the
same exponents have the same outcome, also where it is a refusal (`Units.combine_congr`), and
products, quotients and inverses obey the laws of an abelian group up to the range of exponents
(`Units.laws`).
-/

namespace UnitScript

namespace Integer

/-- An integer that a word can hold (`inRange_iff`). -/
def InRange (n : Int) : Prop := -0x8000000000000000 ≤ n ∧ n < 0x8000000000000000

instance (n : Int) : Decidable (InRange n) := inferInstanceAs (Decidable (_ ∧ _))

/-- No word holds an integer exactly if it is not in range. -/
theorem ofInt?_eq_none_iff_not_inRange {n : Int} : ofInt? n = none ↔ ¬InRange n := by
  rw [ofInt?_eq_none_iff, InRange]
  omega

/-- The integers in range are those of words: `InRange` holds of what `Int64.toInt` gives and of
nothing else. -/
theorem inRange_iff {n : Int} : InRange n ↔ ∃ w : Int64, w.toInt = n := by
  rw [← Decidable.not_not (p := InRange n), ← ofInt?_eq_none_iff_not_inRange,
    ← ne_eq, Option.ne_none_iff_exists']
  exact exists_congr fun w => ofInt?_eq_some_iff

theorem inRange_toInt (w : Int64) : InRange w.toInt := inRange_iff.2 ⟨w, rfl⟩

end Integer

open Integer (InRange inRange_iff inRange_toInt)

namespace Units

/-- The first dimension, in the order of names, whose exponent is out of range
(`Integer.InRange`). -/
structure FirstOut (exponents : String → Int) (name : String) : Prop where
  out : ¬InRange (exponents name)
  before : ∀ other < name, InRange (exponents other)

variable {op : Int → Int → Int} {a b c : Units} {cause : Cause}

/-- The exponents of a unit are in range. -/
theorem inRange_powers (a : Units) (name : String) : InRange (a.powers name) := inRange_toInt _

/-- There is one first dimension at most. -/
theorem FirstOut.unique {exponents : String → Int} {name other : String}
    (h : FirstOut exponents name) (h' : FirstOut exponents other) : name = other := by
  refine String.le_antisymm (fun hlt => ?_) (fun hlt => ?_)
  · exact h'.out (h.before _ hlt)
  · exact h.out (h'.before _ hlt)

/-- A factor is refused by `combineFactor` exactly if the new exponent is out of range, and its
dimension is named. -/
theorem combineFactor_eq_error {factor : String × Int64} :
    combineFactor op a factor = .error cause ↔
      cause = .exponentOverflow factor.1 ∧ ¬InRange (op (a.powers factor.1) factor.2.toInt) := by
  rw [← Integer.ofInt?_eq_none_iff_not_inRange, combineFactor]
  show _ ↔ _ ∧ Integer.ofInt? (op (a.exponent factor.1).toInt factor.2.toInt) = none
  cases Integer.ofInt? (op (a.exponent factor.1).toInt factor.2.toInt) with
  | some w => exact iff_of_false nofun fun hout => Option.some_ne_none w hout.2
  | none =>
    exact ⟨fun h => ⟨(Except.error.inj h).symm, rfl⟩, fun h => congrArg Except.error h.1.symm⟩

/-- Factors are refused for the first of their dimensions whose exponent is out of range
(`FirstOut`), since they are taken in in the order of names. -/
theorem foldlM_eq_error (hzero : ∀ n, op n 0 = n) {factors : List (String × Int64)}
    (hsorted : factors.Pairwise fun a b => a.1 < b.1) :
    factors.foldlM (combineFactor op) a = .error cause ↔
      ∃ name, cause = .exponentOverflow name ∧
        FirstOut (fun other => op (a.powers other) (exponentIn other factors).toInt) name := by
  induction factors generalizing a with
  | nil =>
    refine iff_of_false nofun ?_
    rintro ⟨name, -, hout, -⟩
    refine hout ?_
    rw [exponentIn, Int64.toInt_zero, hzero]
    exact inRange_powers a name
  | cons factor factors ih =>
    obtain ⟨hlt, hrest⟩ := List.pairwise_cons.1 hsorted
    rw [List.foldlM_cons]
    cases h : combineFactor op a factor with
    | ok b =>
      have hpowers := funext (powers_combineFactor hzero hlt h)
      rw [← hpowers]
      exact ih hrest
    | error refused =>
      obtain ⟨rfl, hout⟩ := combineFactor_eq_error.1 h
      have hfirst : FirstOut
          (fun other => op (a.powers other) (exponentIn other (factor :: factors)).toInt)
          factor.1 := by
        refine ⟨?_, fun other hother => ?_⟩
        · rwa [exponentIn, if_pos rfl]
        · -- In front of the first factor nothing is taken in.
          rw [exponentIn_of_lt, Int64.toInt_zero, hzero]
          · exact inRange_powers a other
          · refine List.forall_mem_cons.2 ⟨hother, fun entry hentry => ?_⟩
            exact String.lt_trans hother (hlt entry hentry)
      constructor
      · intro he
        cases he
        exact ⟨_, rfl, hfirst⟩
      · rintro ⟨name, rfl, hname⟩
        rw [hfirst.unique hname]
        rfl

/-! ## Outcomes -/

/-- Units are combined where all exponents stay in range, and then the result is the one unit that
has these (`Units.powers`). -/
theorem combine_eq_ok_iff (hzero : ∀ n, op n 0 = n) :
    combine op a b = .ok c ↔ ∀ name, c.powers name = op (a.powers name) (b.powers name) := by
  refine ⟨powers_combine hzero, fun h => ?_⟩
  cases hcombine : combine op a b with
  | ok d =>
    have hpowers : d.powers = c.powers :=
      funext fun name => (powers_combine hzero hcombine name).trans (h name).symm
    rw [powers_injective hpowers]
  | error cause =>
    obtain ⟨name, -, hout, -⟩ := (foldlM_eq_error hzero b.sorted).1 hcombine
    exact absurd (h name ▸ inRange_powers c name) hout

/-- Where an exponent is out of range, `combine` is refused for the first such dimension
(`FirstOut`). -/
theorem combine_eq_error_iff (hzero : ∀ n, op n 0 = n) :
    combine op a b = .error cause ↔ ∃ name, cause = .exponentOverflow name ∧
      FirstOut (fun other => op (a.powers other) (b.powers other)) name :=
  foldlM_eq_error hzero b.sorted

/-- Units can be combined exactly if all exponents stay in range (`Integer.InRange`). -/
theorem exists_combine_eq_ok_iff (hzero : ∀ n, op n 0 = n) :
    (∃ c, combine op a b = .ok c) ↔ ∀ name, InRange (op (a.powers name) (b.powers name)) := by
  constructor
  · rintro ⟨c, h⟩ name
    exact powers_combine hzero h name ▸ inRange_powers c name
  · intro h
    cases hcombine : combine op a b with
    | ok c => exact ⟨c, rfl⟩
    | error cause =>
      obtain ⟨name, -, hout, -⟩ := (combine_eq_error_iff hzero).1 hcombine
      exact absurd (h name) hout

/-- What comes to the same exponents has the same outcome: one result, or a refusal for one
dimension. -/
theorem combine_congr {op' : Int → Int → Int} {a' b' : Units} (hzero : ∀ n, op n 0 = n)
    (hzero' : ∀ n, op' n 0 = n)
    (h : ∀ name, op (a.powers name) (b.powers name) = op' (a'.powers name) (b'.powers name)) :
    combine op a b = combine op' a' b' := by
  cases hcombine : combine op' a' b' with
  | ok c =>
    refine (combine_eq_ok_iff hzero).2 fun name => ?_
    rw [h, powers_combine hzero' hcombine]
  | error cause =>
    rw [combine_eq_error_iff hzero, funext h]
    exact (combine_eq_error_iff hzero').1 hcombine

/-! ## The whole -/

/-- The laws of products, quotients and inverses. Exponents are integers here (`Units.powers`), and
a law that would leave the range of words says what is refused (`FirstOut`). -/
structure Laws (a b c : Units) : Prop where
  /-- A product adds exponents (`Units.powers`), -/
  product {p : Units} : a.multiply b = .ok p ↔
    ∀ name, p.powers name = a.powers name + b.powers name
  /-- exists exactly if all sums are in range (`Integer.InRange`), -/
  product_exists : (∃ p, a.multiply b = .ok p) ↔
    ∀ name, InRange (a.powers name + b.powers name)
  /-- and otherwise is refused for the first dimension (`FirstOut`) for which they are not. -/
  product_refused {cause : Cause} : a.multiply b = .error cause ↔
    ∃ name, cause = .exponentOverflow name ∧
      FirstOut (fun other => a.powers other + b.powers other) name
  /-- A quotient subtracts exponents (`Units.powers`), -/
  quotient {q : Units} : a.divide b = .ok q ↔
    ∀ name, q.powers name = a.powers name - b.powers name
  /-- exists exactly if all differences are in range (`Integer.InRange`), -/
  quotient_exists : (∃ q, a.divide b = .ok q) ↔
    ∀ name, InRange (a.powers name - b.powers name)
  /-- and otherwise is refused for the first dimension (`FirstOut`) for which they are not. -/
  quotient_refused {cause : Cause} : a.divide b = .error cause ↔
    ∃ name, cause = .exponentOverflow name ∧
      FirstOut (fun other => a.powers other - b.powers other) name
  /-- Products commute, and so do their refusals, which name the same dimension
  (`Units.multiply`). -/
  comm : a.multiply b = b.multiply a
  /-- Products can be grouped either way, where the inner ones exist; the outer ones then exist both
  or are refused for the same dimension. -/
  assoc {p q : Units} : a.multiply b = .ok p → b.multiply c = .ok q →
    p.multiply c = a.multiply q
  /-- A quotient takes back a product: `Units.divide` undoes `Units.multiply`, and always exists
  there. -/
  multiply_divide {p : Units} : a.multiply b = .ok p → p.divide b = .ok a
  /-- A product takes back a quotient in the same way. -/
  divide_multiply {q : Units} : a.divide b = .ok q → q.multiply b = .ok a
  /-- Nothing is left of a unit over itself (`Units.isDimensionless`), and this quotient always
  exists. -/
  divide_self : ∃ q, a.divide a = .ok q ∧ q.isDimensionless = true
  /-- An inverse (`Units.inverse`) is taken back by another one. -/
  inverse_inverse {i : Units} : b.inverse = .ok i → i.inverse = .ok b
  /-- A quotient is a product with the inverse, where there is one, and so are the refusals. -/
  divide_eq {i : Units} : b.inverse = .ok i → a.divide b = a.multiply i

/-- Units obey the `Laws` of an abelian group as far as their exponents are in range. -/
theorem laws (a b c : Units) : Laws a b c where
  product := combine_eq_ok_iff Int.add_zero
  product_exists := exists_combine_eq_ok_iff Int.add_zero
  product_refused := combine_eq_error_iff Int.add_zero
  quotient := combine_eq_ok_iff Int.sub_zero
  quotient_exists := exists_combine_eq_ok_iff Int.sub_zero
  quotient_refused := combine_eq_error_iff Int.sub_zero
  comm := combine_congr Int.add_zero Int.add_zero fun name => Int.add_comm _ _
  assoc hp hq := by
    refine combine_congr Int.add_zero Int.add_zero fun name => ?_
    rw [powers_multiply hp, powers_multiply hq, Pi.add_apply, Pi.add_apply, Int.add_assoc]
  multiply_divide hp := by
    refine (combine_eq_ok_iff Int.sub_zero).2 fun name => ?_
    rw [powers_multiply hp, Pi.add_apply, Int.add_sub_cancel]
  divide_multiply hq := by
    refine (combine_eq_ok_iff Int.add_zero).2 fun name => ?_
    rw [powers_divide hq, Pi.sub_apply, Int.sub_add_cancel]
  divide_self := by
    refine ⟨one, (combine_eq_ok_iff Int.sub_zero).2 fun name => ?_, rfl⟩
    rw [powers_one, Pi.zero_apply, Int.sub_self]
  inverse_inverse hi := by
    refine (combine_eq_ok_iff Int.sub_zero).2 fun name => ?_
    rw [powers_inverse hi, powers_one, Pi.neg_apply, Pi.zero_apply, Int.zero_sub, Int.neg_neg]
  divide_eq hi := by
    refine combine_congr Int.sub_zero Int.add_zero fun name => ?_
    rw [powers_inverse hi, Pi.neg_apply, Int.sub_eq_add_neg]

end Units

end UnitScript
