import Mathlib.Algebra.Group.Pi.Basic
import Mathlib.Tactic.Ring
import UnitScript.Proofs.Except
import UnitScript.Units.Algebra

/-!
# Exponents of combined units

What the operations on units do to exponents, read as integers (`Units.powers`): a product adds
them, a quotient subtracts them, an inverse turns their signs, and the unit of lists of factors
counts how often each dimension occurs in them. An operation that would leave the range of words
has no result, so these hold without any overflow.
-/

namespace UnitScript.Units

/-- The exponents of all dimensions (`Units.exponent`), as integers: what is said of units in the
theory is said of these. -/
def powers (units : Units) : String → Int :=
  fun name => (units.exponent name).toInt

/-- Units are told apart by their exponents (`powers`), since their factors are kept in one way only
(`ext_exponent`). -/
theorem powers_injective {a b : Units} (h : a.powers = b.powers) : a = b :=
  ext_exponent fun name => Int64.toInt_inj.1 (congrFun h name)

@[simp] theorem powers_one : one.powers = 0 := rfl

/-- Writing an exponent changes it and no other. -/
theorem powers_put (units : Units) (name other : String) (exponent : Int64) :
    (units.put name exponent).powers other =
      if other = name then exponent.toInt else units.powers other := by
  rw [powers, exponent_put]
  split
  · rfl
  · rfl

/-- A single dimension. -/
theorem powers_dimension (name other : String) :
    (dimension name).powers other = if other = name then 1 else 0 :=
  powers_put one name other 1

/-- A factor is taken in if the new exponent is in range, and then that is what is written. -/
theorem combineFactor_eq_ok {op : Int → Int → Int} {a c : Units} {factor : String × Int64} :
    combineFactor op a factor = .ok c ↔
      ∃ exponent : Int64, exponent.toInt = op (a.powers factor.1) factor.2.toInt ∧
        c = a.put factor.1 exponent := by
  unfold combineFactor
  split
  next exponent h =>
    rw [Integer.ofInt?_eq_some_iff] at h
    refine ⟨fun hc => ?_, ?_⟩
    · cases hc
      exact ⟨exponent, h, rfl⟩
    · rintro ⟨other, hother, rfl⟩
      rw [Int64.toInt_inj.1 (h.trans hother.symm)]
  next h =>
    refine ⟨nofun, ?_⟩
    rintro ⟨other, hother, -⟩
    cases h.symm.trans (Integer.ofInt?_eq_some_iff.2 hother)

/-- What the exponents come to with the factors that follow is not changed by taking one in. -/
theorem powers_combineFactor {op : Int → Int → Int} (hzero : ∀ n, op n 0 = n)
    {factor : String × Int64} {factors : List (String × Int64)}
    (hlt : ∀ other ∈ factors, factor.1 < other.1) {a b : Units}
    (h : combineFactor op a factor = .ok b) (name : String) :
    op (b.powers name) (exponentIn name factors).toInt =
      op (a.powers name) (exponentIn name (factor :: factors)).toInt := by
  obtain ⟨exponent, hexponent, rfl⟩ := combineFactor_eq_ok.1 h
  rw [powers_put, exponentIn]
  by_cases hname : factor.1 = name
  · subst hname
    rw [if_pos rfl, if_pos rfl, exponentIn_of_lt hlt, hexponent]
    exact hzero _
  · rw [if_neg (Ne.symm hname), if_neg hname]

/-- Factors of different dimensions are taken in by `combineFactor` independently of each other. -/
theorem powers_foldlM {op : Int → Int → Int} (hzero : ∀ n, op n 0 = n)
    {factors : List (String × Int64)} (hsorted : factors.Pairwise fun a b => a.1 < b.1)
    {a c : Units} (h : factors.foldlM (combineFactor op) a = .ok c) (name : String) :
    c.powers name = op (a.powers name) (exponentIn name factors).toInt := by
  induction factors generalizing a with
  | nil =>
    cases h
    exact (hzero _).symm
  | cons factor factors ih =>
    rw [List.foldlM_cons] at h
    obtain ⟨hlt, hrest⟩ := List.pairwise_cons.1 hsorted
    obtain ⟨b, hb, h⟩ := Except.bind_eq_ok.1 h
    rw [ih hrest h, powers_combineFactor hzero hlt hb]

/-- What `combine` does to exponents, for an operation that leaves them alone where there is nothing
to add. -/
theorem powers_combine {op : Int → Int → Int} (hzero : ∀ n, op n 0 = n) {a b c : Units}
    (h : combine op a b = .ok c) (name : String) :
    c.powers name = op (a.powers name) (b.powers name) :=
  powers_foldlM hzero b.sorted h name

/-- A product adds exponents. -/
theorem powers_multiply {a b c : Units} (h : a.multiply b = .ok c) :
    c.powers = a.powers + b.powers :=
  funext (powers_combine Int.add_zero h)

/-- A quotient subtracts exponents. -/
theorem powers_divide {a b c : Units} (h : a.divide b = .ok c) :
    c.powers = a.powers - b.powers :=
  funext (powers_combine Int.sub_zero h)

/-- An inverse turns the signs of exponents. -/
theorem powers_inverse {a c : Units} (h : a.inverse = .ok c) : c.powers = -a.powers := by
  rw [powers_divide h, powers_one, zero_sub]

/-- How often names occur in a list. -/
def tally (names : List String) : String → Int :=
  fun name => names.count name

/-- Factors that are taken in one after the other are counted. -/
theorem powers_foldl_dimension {op : Int → Int → Int} {sign : Int}
    (hop : ∀ m n, op m n = m + sign * n) {names : List String} {a c : Units}
    (h : names.foldlM (fun units name => combine op units (dimension name)) a = .ok c)
    (name : String) : c.powers name = a.powers name + sign * tally names name := by
  induction names generalizing a with
  | nil =>
    cases h
    simp [tally]
  | cons first names ih =>
    rw [List.foldlM_cons] at h
    obtain ⟨b, hb, h⟩ := Except.bind_eq_ok.1 h
    have hfirst := powers_combine (fun n => by rw [hop, Int.mul_zero, Int.add_zero]) hb name
    rw [ih h, hfirst, hop, powers_dimension, tally, tally, List.count_cons]
    by_cases hname : name = first
    · subst hname
      simp only [if_true, beq_self_eq_true, Nat.cast_add, Nat.cast_one]
      ring
    · rw [if_neg hname, if_neg (by simpa using Ne.symm hname), Int.mul_zero, Int.add_zero,
        Nat.add_zero]

/-- The unit of lists of factors has the dimensions above the bar as often as they occur there
(`tally`), less those below it. -/
theorem powers_ofFactors {numerator denominator : List String} {c : Units}
    (h : ofFactors numerator denominator = .ok c) :
    c.powers = tally numerator - tally denominator := by
  funext name
  unfold ofFactors at h
  obtain ⟨above, ha, h⟩ := Except.bind_eq_ok.1 h
  have hadd (m n : Int) : m + n = m + 1 * n := by rw [Int.one_mul]
  have hsub (m n : Int) : m - n = m + -1 * n := by rw [Int.neg_one_mul, Int.sub_eq_add_neg]
  have habove := powers_foldl_dimension hadd ha name
  have hbelow := powers_foldl_dimension hsub h name
  rw [hbelow, habove, powers_one]
  show 0 + 1 * tally numerator name + -1 * tally denominator name =
    tally numerator name - tally denominator name
  ring

end UnitScript.Units
