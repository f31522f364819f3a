import UnitScript.Proofs.Value.Dispatch

/-!
# Products and quotients of quantities

Products and quotients of numbers, units and quantities take several ways, which fit together
(`Value.productsCohere`). A number scales, divides and is divided by a quantity as the quantity
without a unit does that has it as its magnitude. Where no double is involved the operands of a
product may be exchanged, which changes at most the operands that a refusal names but not its kind
(`Value.multiply_concurs`). And of quantities with integers as magnitudes, a quotient takes back a
product that was in range (`Quantity.divide_of_multiply`).
-/

namespace UnitScript

/-! ## Outcomes of the same kind -/

/-- The same result, or refusals of the same kind (`Cause.kind`). The causes may name their operands
in another order. -/
inductive Concurs {α : Type} : Except Cause α → Except Cause α → Prop
  | ok {a : α} : Concurs (.ok a) (.ok a)
  | error {c d : Cause} : c.kind = d.kind → Concurs (.error c) (.error d)

namespace Concurs

variable {α β γ : Type} {x y : Except Cause α} {x' y' : Except Cause β}

theorem refl (x : Except Cause α) : Concurs x x := by
  cases x with
  | ok a => exact .ok
  | error cause => exact .error rfl

/-- What is made of the same results is the same. -/
theorem map (f : α → β) (h : Concurs x y) : Concurs (f <$> x) (f <$> y) := by
  cases h with
  | ok => exact .ok
  | error hkind => exact .error hkind

/-- The first of two steps that is refused decides, so steps that `Concurs` one by one do so
together. -/
theorem both {f : α → β → γ} (h : Concurs x y) (h' : Concurs x' y') :
    Concurs (do return f (← x) (← x') : Except Cause γ) (do return f (← y) (← y')) := by
  cases h with
  | error hkind => exact .error hkind
  | ok =>
    cases h' with
    | error hkind => exact .error hkind
    | ok => exact .ok

end Concurs

/-! ## Operands in either order -/

/-- An exact result may be refused for causes of the same kind. -/
theorem Number.exact_concurs {c d : Cause} (hkind : c.kind = d.kind) (n : Int) :
    Concurs (exact c n) (exact d n) := by
  unfold exact
  cases Integer.ofInt? n with
  | some w => exact .ok
  | none => exact .error hkind

/-- Integers are multiplied in either order: the products, or their refusals, `Concurs`. -/
theorem Number.multiply_concurs (i j : Int64) :
    Concurs ((int i).multiply (int j)) ((int j).multiply (int i)) := by
  have hkind : (Cause.overflow .multiply i j).kind = (Cause.overflow .multiply j i).kind := rfl
  show Concurs (exact _ (i.toInt * j.toInt)) (exact _ (j.toInt * i.toInt))
  rw [Int.mul_comm]
  exact exact_concurs hkind _

/-- Units are multiplied in either order. -/
theorem Units.multiply_comm (u w : Units) : u.multiply w = w.multiply u :=
  combine_congr Int.add_zero Int.add_zero fun _ => Int.add_comm _ _

/-- Quantities with integers as magnitudes are multiplied in either order (`Concurs`), units and
all. -/
theorem Quantity.multiply_concurs {q r : Quantity} {i j : Int64} (hq : q.magnitude = .int i)
    (hr : r.magnitude = .int j) : Concurs (q.multiply r) (r.multiply q) := by
  unfold multiply
  rw [hq, hr, Units.multiply_comm]
  exact (Number.multiply_concurs i j).both (.refl _)

/-- Whether a product is defined for two kinds (`BinaryOp.result?`), and what kind it has, does not
depend on their order. -/
theorem BinaryOp.result?_multiply_comm (k l : Kind) :
    result? .multiply k l = result? .multiply l k := by
  cases k <;> cases l <;> rfl

namespace Value

/-- Neither the value nor its magnitude (`Value.magnitude?`) is a double. -/
def IsExact (v : Value) : Prop := ∀ x, v.magnitude? ≠ some (.double x)

/-- An exact magnitude is an integer. -/
theorem IsExact.exists_int {v : Value} {n : Number} (h : v.IsExact) (hn : v.magnitude? = some n) :
    ∃ i, n = .int i := by
  cases n with
  | int i => exact ⟨i, rfl⟩
  | double x => exact absurd hn (h x)

/-- Values that are exact (`IsExact`) are multiplied in either order, whatever their kinds are:
results and kinds of refusals `Concurs`. -/
theorem multiply_concurs {a b : Value} (ha : a.IsExact) (hb : b.IsExact) :
    Concurs (a.multiply b) (b.multiply a) := by
  by_cases hresult : BinaryOp.result? .multiply a.kind b.kind = none
  · -- Neither order is defined.
    have hresult' := BinaryOp.result?_multiply_comm a.kind b.kind ▸ hresult
    have hleft := (binary_outcome .multiply a b).undefined_iff.1 hresult
    have hright := (binary_outcome .multiply b a).undefined_iff.1 hresult'
    rw [show a.multiply b = _ from hleft, show b.multiply a = _ from hright]
    exact .error rfl
  · unfold multiply
    split
    · exact .refl _
    · exact .refl _
    · next u w =>
      rw [Units.multiply_comm]
      exact .refl _
    · next q r =>
      obtain ⟨i, hi⟩ := ha.exists_int (n := q.magnitude) rfl
      obtain ⟨j, hj⟩ := hb.exists_int (n := r.magnitude) rfl
      exact (Quantity.multiply_concurs hi hj).map _
    · next q n =>
      obtain ⟨j, rfl⟩ := hb.exists_int rfl
      exact .refl _
    · next n q =>
      obtain ⟨i, rfl⟩ := ha.exists_int rfl
      exact .refl _
    · next m n =>
      obtain ⟨i, rfl⟩ := ha.exists_int rfl
      obtain ⟨j, rfl⟩ := hb.exists_int rfl
      exact (Number.multiply_concurs i j).map _
    · refine absurd ?_ hresult
      grind [BinaryOp.result?, Kind.alike?, Kind.Scales]

end Value

/-! ## Taking products back -/

/-- A quotient of integers (`Number.divide`) takes back a product that was in range. -/
theorem Number.divide_of_multiply {i j : Int64} {r : Number} (hj : j ≠ 0)
    (h : (int i).multiply (int j) = .ok r) : r.divide (int j) = .ok (int i) := by
  obtain ⟨w, rfl, hw⟩ := exact_eq_ok_iff.1 h
  have hnonzero : j.toInt ≠ 0 := fun hzero => hj (Int64.toInt_inj.1 hzero)
  have hisZero : ¬(int j).isZero = true := by simpa [isZero] using hj
  rw [divide, if_neg hisZero]
  show exact _ (w.toInt.fdiv j.toInt) = _
  rw [hw, Int.mul_fdiv_cancel _ hnonzero]
  exact exact_eq_ok_iff.2 ⟨i, rfl, rfl⟩

/-- A quotient of units (`Units.divide`) takes back a product: exponents that were added are
subtracted. -/
theorem Units.divide_of_multiply {u w v : Units} (h : u.multiply w = .ok v) :
    v.divide w = .ok u := by
  refine (combine_eq_ok_iff Int.sub_zero).2 fun name => ?_
  rw [powers_multiply h, Pi.add_apply, Int.add_sub_cancel]

/-- A quotient of quantities with integers as magnitudes takes back a product, in its magnitude
(`Number.divide_of_multiply`) and in its unit (`Units.divide_of_multiply`). -/
theorem Quantity.divide_of_multiply {q r s : Quantity} {i j : Int64} (hq : q.magnitude = .int i)
    (hr : r.magnitude = .int j) (hj : j ≠ 0) (h : q.multiply r = .ok s) :
    s.divide r = .ok q := by
  obtain ⟨m, hm, h⟩ := Except.bind_eq_ok.1 h
  obtain ⟨u, hu, h⟩ := Except.bind_eq_ok.1 h
  cases h
  obtain ⟨magnitude, units⟩ := q
  cases hq
  rw [hr] at hm
  rw [divide, hr, Number.divide_of_multiply hj hm, Units.divide_of_multiply hu]
  rfl

/-! ## The whole -/

/-- The quantity of the unit `Units.one` that a number is the magnitude of. -/
def Quantity.dimensionless (n : Number) : Quantity := ⟨n, .one⟩

namespace Value

/-- How products and quotients of quantities fit together with those of other values: a number
counts as the quantity `Quantity.dimensionless`, the order of factors does not matter (`Concurs`),
and quotients take back products. -/
structure ProductsCohere (q r : Quantity) (n : Number) (a b : Value) : Prop where
  /-- A quantity times a number is the product with `Quantity.dimensionless` of it, -/
  scaled : binary .multiply (.quantity q) (.number n) =
    binary .multiply (.quantity q) (.quantity (.dimensionless n))
  /-- and so is a number times a quantity, with the operands the other way round. -/
  scaledLeft : binary .multiply (.number n) (.quantity q) =
    binary .multiply (.quantity q) (.quantity (.dimensionless n))
  /-- A quantity over a number is the quotient by `Quantity.dimensionless` of it, -/
  shrunk : binary .divide (.quantity q) (.number n) =
    binary .divide (.quantity q) (.quantity (.dimensionless n))
  /-- and so is a number over a quantity, which turns the unit over (`Units.inverse`). -/
  inverted : binary .divide (.number n) (.quantity q) =
    binary .divide (.quantity (.dimensionless n)) (.quantity q)
  /-- Values without doubles (`IsExact`) are multiplied in either order, and refused for the same
  kind of cause in either order (`Concurs`). -/
  commutes : a.IsExact → b.IsExact → Concurs (binary .multiply a b) (binary .multiply b a)
  /-- Over integers a quotient takes back a product that is in range, magnitude and unit. -/
  cancels {i j : Int64} {p : Value} : q.magnitude = .int i → r.magnitude = .int j → j ≠ 0 →
    binary .multiply (.quantity q) (.quantity r) = .ok p →
    binary .divide p (.quantity r) = .ok (.quantity q)

/-- Products and quotients of quantities fit together (`ProductsCohere`), for any two quantities,
any number and any two values. -/
theorem productsCohere (q r : Quantity) (n : Number) (a b : Value) :
    ProductsCohere q r n a b where
  scaled := by cases n <;> rfl
  scaledLeft := by cases n <;> rfl
  shrunk := by cases n <;> rfl
  inverted := by cases n <;> rfl
  commutes := multiply_concurs
  cancels hq hr hj h := by
    obtain ⟨s, hs, rfl⟩ := Except.map_eq_ok.1 h
    exact congrArg (Except.map quantity) (Quantity.divide_of_multiply hq hr hj hs)

/-- So many metres, with an integer for the magnitude. -/
def metres (n : Int64) : Quantity := ⟨.int n, .dimension "m"⟩

/-- Two of the `metres` times five, two metres times three of them and back, and a text and how
often it is repeated. -/
theorem metres_productsCohere :
    binary .multiply (.quantity (metres 2)) (.number (.int 5)) =
        binary .multiply (.quantity (metres 2)) (.quantity (.dimensionless (.int 5))) ∧
      Concurs (binary .multiply (.string "ab") (.number (.int 2)))
        (binary .multiply (.number (.int 2)) (.string "ab")) ∧
      ∃ p, binary .multiply (.quantity (metres 2)) (.quantity (metres 3)) = .ok p ∧
        binary .divide p (.quantity (metres 3)) = .ok (.quantity (metres 2)) := by
  have h := productsCohere (metres 2) (metres 3) (.int 5) (.string "ab") (.number (.int 2))
  have hmultiply : ∃ p, binary .multiply (.quantity (metres 2)) (.quantity (metres 3)) = .ok p :=
    ⟨_, rfl⟩
  obtain ⟨p, hp⟩ := hmultiply
  exact ⟨h.scaled, h.commutes (by simp [IsExact, magnitude?]) (by simp [IsExact, magnitude?]),
    p, hp, h.cancels rfl rfl (by decide) hp⟩

end Value

end UnitScript
