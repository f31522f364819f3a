import UnitScript.Integer

/-!
# Units of measurement

A unit is a product of powers of named dimensions. `Units` keeps the exponents that are not zero,
in the order of the names, so that two units are equal exactly if every dimension has the same
exponent in both (`ext_exponent`). `exponent` reads one exponent and `put` writes one; a written
zero takes the dimension out (`exponent_put`).
-/

namespace UnitScript

/-- A product of powers of dimensions: the factors in the order of their names, so that none occurs
twice, and none of them to the power of zero. Two units that mean the same are equal
(`Units.ext_exponent`). -/
structure Units where
  factors : List (String × Int64)
  sorted : factors.Pairwise fun a b => a.1 < b.1
  nonzero : ∀ factor ∈ factors, factor.2 ≠ 0
deriving DecidableEq

namespace Units

/-! ## Lists of factors -/

/-- The exponent of a dimension in a list of factors: zero if the dimension does not occur
(`exponentIn_eq_zero`). -/
def exponentIn (name : String) : List (String × Int64) → Int64
  | [] => 0
  | (other, exponent) :: factors =>
    if other = name then exponent else exponentIn name factors

/-- A factor in front of others, unless its exponent is zero. -/
def consNonzero (name : String) (exponent : Int64) (factors : List (String × Int64)) :
    List (String × Int64) :=
  if exponent = 0 then factors else (name, exponent) :: factors

/-- Writes the exponent of a dimension into a sorted list of factors; a zero takes it out
(`consNonzero`). -/
def putIn (name : String) (exponent : Int64) : List (String × Int64) → List (String × Int64)
  | [] => consNonzero name exponent []
  | (other, present) :: factors =>
    if name < other then consNonzero name exponent ((other, present) :: factors)
    else if name = other then consNonzero name exponent factors
    else (other, present) :: putIn name exponent factors

theorem mem_consNonzero {name : String} {exponent : Int64} {factors : List (String × Int64)}
    {factor : String × Int64} (h : factor ∈ consNonzero name exponent factors) :
    factor = (name, exponent) ∧ exponent ≠ 0 ∨ factor ∈ factors := by
  unfold consNonzero at h
  split at h
  next => exact .inr h
  next hne => exact (List.mem_cons.1 h).imp (⟨·, hne⟩) id

/-- What stands in a list after writing (`putIn`) was written or stood there before. -/
theorem mem_putIn {name : String} {exponent : Int64} {factors : List (String × Int64)}
    {factor : String × Int64} (h : factor ∈ putIn name exponent factors) :
    factor = (name, exponent) ∧ exponent ≠ 0 ∨ factor ∈ factors := by
  induction factors with
  | nil => exact mem_consNonzero h
  | cons first factors ih =>
    obtain ⟨other, present⟩ := first
    rw [putIn] at h
    split at h
    next => exact mem_consNonzero h
    next =>
      split at h
      next => exact (mem_consNonzero h).imp id (List.mem_cons_of_mem _)
      next =>
        rcases List.mem_cons.1 h with rfl | h
        · exact .inr (List.mem_cons_self ..)
        · exact (ih h).imp id (List.mem_cons_of_mem _)

theorem pairwise_consNonzero {name : String} {exponent : Int64}
    {factors : List (String × Int64)} (h : factors.Pairwise fun a b => a.1 < b.1)
    (hlt : ∀ factor ∈ factors, name < factor.1) :
    (consNonzero name exponent factors).Pairwise fun a b => a.1 < b.1 := by
  unfold consNonzero
  split
  next => exact h
  next => exact h.cons hlt

/-- Writing (`putIn`) keeps a list sorted by the names of the dimensions. -/
theorem pairwise_putIn {name : String} {exponent : Int64} {factors : List (String × Int64)}
    (h : factors.Pairwise fun a b => a.1 < b.1) :
    (putIn name exponent factors).Pairwise fun a b => a.1 < b.1 := by
  induction factors with
  | nil => exact pairwise_consNonzero h (by simp)
  | cons first factors ih =>
    obtain ⟨other, present⟩ := first
    have hother := (List.pairwise_cons.1 h).1
    rw [putIn]
    split
    next hlt =>
      exact pairwise_consNonzero h fun factor hmem => (List.mem_cons.1 hmem).elim
        (fun he => he ▸ hlt) (fun hm => String.lt_trans hlt (hother _ hm))
    next hlt =>
      split
      next heq => exact pairwise_consNonzero h.of_cons fun factor hm => heq ▸ hother _ hm
      next hne =>
        refine (ih h.of_cons).cons fun factor hmem => ?_
        rcases mem_putIn hmem with ⟨rfl, -⟩ | hm
        · exact Decidable.not_not.1 fun hn => hne (String.le_antisymm hn hlt)
        · exact hother _ hm

theorem exponentIn_eq_zero {name : String} {factors : List (String × Int64)}
    (h : ∀ factor ∈ factors, factor.1 ≠ name) : exponentIn name factors = 0 := by
  induction factors with
  | nil => rfl
  | cons first factors ih =>
    rw [exponentIn, if_neg (h _ (List.mem_cons_self ..))]
    exact ih fun factor hm => h _ (List.mem_cons_of_mem _ hm)

theorem exponentIn_consNonzero {name other : String} {exponent : Int64}
    {factors : List (String × Int64)} (h : ∀ factor ∈ factors, factor.1 ≠ name) :
    exponentIn other (consNonzero name exponent factors) =
      if other = name then exponent else exponentIn other factors := by
  unfold consNonzero
  split
  next hz =>
    split
    next heq => rw [heq, hz, exponentIn_eq_zero h]
    next => rfl
  next => simp only [exponentIn, eq_comm]

/-- Reading (`exponentIn`) after writing (`putIn`) gives what was written, and other dimensions read
as before. -/
theorem exponentIn_putIn {name other : String} {exponent : Int64}
    {factors : List (String × Int64)} (h : factors.Pairwise fun a b => a.1 < b.1) :
    exponentIn other (putIn name exponent factors) =
      if other = name then exponent else exponentIn other factors := by
  induction factors with
  | nil => exact exponentIn_consNonzero (by simp)
  | cons first factors ih =>
    obtain ⟨third, present⟩ := first
    have hthird := (List.pairwise_cons.1 h).1
    rw [putIn]
    split
    next hlt =>
      refine exponentIn_consNonzero fun factor hmem he => ?_
      rcases List.mem_cons.1 hmem with rfl | hm
      · exact String.lt_irrefl _ (he ▸ hlt)
      · exact String.lt_irrefl _ (he ▸ String.lt_trans hlt (hthird _ hm))
    next hlt =>
      split
      next heq =>
        subst heq
        rw [exponentIn_consNonzero fun factor hm he => String.lt_irrefl _ (he ▸ hthird _ hm)]
        split
        next => rfl
        next hne => rw [exponentIn, if_neg fun he => hne he.symm]
      next hne =>
        rw [exponentIn, exponentIn, ih h.of_cons]
        split
        next heq =>
          rw [if_neg fun he => hne (he.symm.trans heq.symm)]
        next => rfl

/-- The first dimension of a sorted list does not occur behind it, where `exponentIn` is zero. -/
theorem exponentIn_of_lt {name : String} {factors : List (String × Int64)}
    (h : ∀ factor ∈ factors, name < factor.1) : exponentIn name factors = 0 :=
  exponentIn_eq_zero fun _ hm he => String.lt_irrefl _ (he ▸ h _ hm)

/-- Sorted lists without zeros that read alike (`exponentIn`) are equal. -/
theorem eq_of_exponentIn {as bs : List (String × Int64)}
    (ha : as.Pairwise fun a b => a.1 < b.1) (hb : bs.Pairwise fun a b => a.1 < b.1)
    (na : ∀ factor ∈ as, factor.2 ≠ 0) (nb : ∀ factor ∈ bs, factor.2 ≠ 0)
    (h : ∀ name, exponentIn name as = exponentIn name bs) : as = bs := by
  induction as generalizing bs with
  | nil =>
    cases bs with
    | nil => rfl
    | cons b bs =>
      have := h b.1
      rw [exponentIn, exponentIn, if_pos rfl] at this
      exact absurd this.symm (nb b (List.mem_cons_self ..))
  | cons a as ih =>
    have hea := h a.1
    rw [exponentIn, if_pos rfl] at hea
    have hane := na a (List.mem_cons_self ..)
    cases bs with
    | nil => exact absurd hea hane
    | cons b bs =>
      obtain ⟨n, e⟩ := a
      obtain ⟨m, f⟩ := b
      have has := (List.pairwise_cons.1 ha).1
      have hbs := (List.pairwise_cons.1 hb).1
      have hnm : n = m := by
        refine String.le_antisymm (fun hlt => ?_) (fun hlt => ?_)
        · have := h m
          rw [exponentIn_of_lt fun factor hm => ?_, exponentIn, if_pos rfl] at this
          · exact nb (m, f) (List.mem_cons_self ..) this.symm
          · exact (List.mem_cons.1 hm).elim (fun he => he ▸ hlt)
              fun hm => String.lt_trans hlt (has _ hm)
        · rw [exponentIn_of_lt fun factor hm => ?_] at hea
          · exact hane hea
          · exact (List.mem_cons.1 hm).elim (fun he => he ▸ hlt)
              fun hm => String.lt_trans hlt (hbs _ hm)
      subst hnm
      rw [exponentIn, if_pos rfl] at hea
      obtain rfl : e = f := hea
      rw [ih ha.of_cons hb.of_cons (fun factor hm => na _ (List.mem_cons_of_mem _ hm))
        (fun factor hm => nb _ (List.mem_cons_of_mem _ hm)) fun name => ?_]
      by_cases hn : n = name
      · subst hn
        rw [exponentIn_of_lt has, exponentIn_of_lt hbs]
      · have := h name
        rwa [exponentIn, exponentIn, if_neg hn, if_neg hn] at this

/-! ## Units -/

/-- The unit of plain numbers: no dimension occurs in it (`isDimensionless`). -/
def one : Units := ⟨[], .nil, by simp⟩

/-- The exponent of a dimension, which is zero where it does not occur (`Units.ext_exponent`). -/
def exponent (units : Units) (name : String) : Int64 :=
  exponentIn name units.factors

/-- The unit with another exponent of a dimension (`putIn`). That the factors stay sorted and
nonzero is part of the result. -/
def put (units : Units) (name : String) (exponent : Int64) : Units where
  factors := putIn name exponent units.factors
  sorted := pairwise_putIn units.sorted
  nonzero factor h := (mem_putIn h).elim (fun ⟨he, hne⟩ => he ▸ hne) (units.nonzero factor)

/-- Whether no dimension occurs, as in `Units.one`. -/
def isDimensionless (units : Units) : Bool :=
  units.factors.isEmpty

/-- The unit that is one dimension, written (`put`) once into the empty one. -/
def dimension (name : String) : Units := one.put name 1

@[simp] theorem exponent_one (name : String) : one.exponent name = 0 := rfl

/-- Reading (`exponent`) after writing (`put`) gives what was written, and other dimensions read as
before. -/
@[simp] theorem exponent_put (units : Units) (name other : String) (exponent : Int64) :
    (units.put name exponent).exponent other =
      if other = name then exponent else units.exponent other :=
  exponentIn_putIn units.sorted

/-- Units are told apart by their exponents (`exponent`), whatever made them. -/
theorem ext_exponent {a b : Units} (h : ∀ name, a.exponent name = b.exponent name) : a = b := by
  obtain ⟨as, ha, na⟩ := a
  obtain ⟨bs, hb, nb⟩ := b
  obtain rfl : as = bs := eq_of_exponentIn ha hb na nb h
  rfl

/-- The power of a dimension as it is written in a unit (`text`), with its exponent even if that is
one. -/
def powerText (name : String) (exponent : Int) : String :=
  s!"{name}^{exponent}"

/-- A unit as it is written: the powers with positive exponents, and below a fraction bar the
others, with their signs turned. A one stands for an empty numerator. The sign of an exponent is
turned as that of a word, which wraps around: `Int64.minValue` is its own negative, and is written
with its minus sign below the bar. A build whose arithmetic is checked stops at this one negation,
of which it has no text; all other units are written alike. -/
def text (units : Units) : String :=
  let positive := units.factors.filter fun factor => 0 < factor.2.toInt
  let negative := units.factors.filter fun factor => factor.2.toInt < 0
  let above := String.join (positive.map fun factor => powerText factor.1 factor.2.toInt)
  let below := String.join (negative.map fun factor => powerText factor.1 (-factor.2).toInt)
  if negative.isEmpty then s!"({above})"
  else if positive.isEmpty then s!"(1/{below})"
  else s!"({above}/{below})"

example : ((one.put "s" (-2)).put "m" 1).text = "(m^1/s^2)" := by decide +kernel

example : (one.put "s" (-2)).text = "(1/s^2)" ∧ one.text = "()" := by decide +kernel

example : (one.put "m" Int64.minValue).text = "(1/m^-9223372036854775808)" := by decide +kernel

end Units

end UnitScript
