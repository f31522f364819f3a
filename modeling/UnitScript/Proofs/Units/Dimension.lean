import UnitScript.Proofs.Machine
import UnitScript.Proofs.Units.Exponents
import UnitScript.Proofs.Value.Refusals
import UnitScript.Proofs.Value.Results

/-!
# Dimensions of expressions

An arithmetic expression over numbers and quantities has a dimension that can be told from its
operators and its units alone: that of a number, or an integer exponent for every name
(`Node.HasDimension`). Evaluation keeps to it (`Node.Arithmetic.dimension_sound`): whatever a
value the expression comes to, it is of that dimension, and where quantities are refused for their
units, the expression contains a sum or difference of two dimensions that differ. Exponents are
words in a run and integers here; the operations on units refuse what does not fit, so that no
exponent is ever rounded.
-/

namespace UnitScript

/-- The operators of arithmetic. -/
theorem BinaryOp.arithmetic {op : BinaryOp} (h : op.tier = .sum ∨ op.tier = .product) :
    op = .add ∨ op = .subtract ∨ op = .multiply ∨ op = .divide := by
  revert h
  cases op <;> decide

/-- What a value measures: nothing, or integer powers of dimensions, where nothing is out of range
as in `Units`. -/
inductive Dimension where
  | number
  | powers (exponents : String → Int)

/-- The `Dimension` of what an operator makes of two others. A pair that is left out has none. This
is the algebra of dimensions, without magnitudes and without the evaluator. -/
inductive Dimension.Combines : BinaryOp → Dimension → Dimension → Dimension → Prop
  | numbers : op.tier = .sum ∨ op.tier = .product → Combines op .number .number .number
  /-- Only equal dimensions are added and subtracted. -/
  | sum : op.tier = .sum → Combines op (.powers a) (.powers a) (.powers a)
  | product : Combines .multiply (.powers a) (.powers b) (.powers (a + b))
  | quotient : Combines .divide (.powers a) (.powers b) (.powers (a - b))
  | scaled : Combines .multiply (.powers a) .number (.powers a)
  | scaling : Combines .multiply .number (.powers a) (.powers a)
  | shrunk : Combines .divide (.powers a) .number (.powers a)
  | inverted : Combines .divide .number (.powers a) (.powers (-a))

/-- Two dimensions come to one at most by an operator (`Dimension.Combines`). -/
theorem Dimension.Combines.unique {op : BinaryOp} {a b c c' : Dimension} (h : Combines op a b c)
    (h' : Combines op a b c') : c = c' := by
  cases h <;> cases h' <;> first | rfl | contradiction

namespace Node

/-- A number that is written out, as an integer or as a double (`Number`). -/
inductive Numeral : Node → Prop
  | int : Numeral ⟨place, .int n⟩
  | double : Numeral ⟨place, .double x⟩

/-- An expression of numbers (`Numeral`) and quantities that are written out, joined by the
operators of arithmetic and signs, in any depth. -/
inductive Arithmetic : Node → Prop
  | number : Numeral e → Arithmetic e
  | quantity : Numeral magnitude →
      Arithmetic ⟨place, .phys magnitude ⟨site, .unit above below⟩⟩
  | signed : op ≠ .not → Arithmetic e → Arithmetic ⟨place, .unary op e⟩
  | joined : op.tier = .sum ∨ op.tier = .product → Arithmetic l → Arithmetic r →
      Arithmetic ⟨place, .binary op l r⟩

/-- The dimension of an expression, by `Dimension.Combines`. The magnitudes in it do not count, and
a sign changes nothing. -/
inductive HasDimension : Node → Dimension → Prop
  | number : Numeral e → HasDimension e .number
  /-- A name counts as often as it stands above the bar, less how often it stands below. -/
  | quantity : Numeral magnitude →
      HasDimension ⟨place, .phys magnitude ⟨site, .unit above below⟩⟩
        (.powers (Units.tally (above.map Ident.name) - Units.tally (below.map Ident.name)))
  | signed : op ≠ .not → HasDimension e d → HasDimension ⟨place, .unary op e⟩ d
  | joined : HasDimension l a → HasDimension r b → Dimension.Combines op a b c →
      HasDimension ⟨place, .binary op l r⟩ c

/-- A sum or a difference of two quantities of different dimensions (`HasDimension`) occurs in the
expression. -/
inductive Mismatched : Node → Prop
  | here : op.tier = .sum → HasDimension l (.powers a) → HasDimension r (.powers b) → a ≠ b →
      Mismatched ⟨place, .binary op l r⟩
  | operand : Mismatched e → Mismatched ⟨place, .unary op e⟩
  | left : Mismatched l → Mismatched ⟨place, .binary op l r⟩
  | right : Mismatched r → Mismatched ⟨place, .binary op l r⟩

/-- The same expression with other magnitudes: each `Numeral` may be another one, and units and
operators stay. -/
inductive Resized : Node → Node → Prop
  | number : Numeral e → Numeral e' → Resized e e'
  | quantity : Numeral magnitude → Numeral magnitude' →
      Resized ⟨place, .phys magnitude unit⟩ ⟨place', .phys magnitude' unit⟩
  | signed : Resized e e' → Resized ⟨place, .unary op e⟩ ⟨place', .unary op e'⟩
  | joined : Resized l l' → Resized r r' →
      Resized ⟨place, .binary op l r⟩ ⟨place', .binary op l' r'⟩

variable {e e' : Node}

/-- An expression has one dimension at most (`HasDimension`), by induction over it. -/
theorem HasDimension.unique {d d' : Dimension} (h : e.HasDimension d) (h' : e.HasDimension d') :
    d = d' := by
  induction h generalizing d' with
  | number hn =>
    cases hn with
    | int => cases h' with | number => rfl
    | double => cases h' with | number => rfl
  | quantity hm =>
    cases h' with
    | number hn => cases hn
    | quantity => rfl
  | signed _ _ ih =>
    cases h' with
    | number hn => cases hn
    | signed _ he => exact ih he
  | joined _ _ hc ihl ihr =>
    cases h' with
    | number hn => cases hn
    | joined hl hr hc' =>
      obtain rfl := ihl hl
      obtain rfl := ihr hr
      exact hc.unique hc'

/-- An expression in which a sum or difference is mismatched (`Mismatched`) has no dimension. -/
theorem Mismatched.not_hasDimension (h : e.Mismatched) (d : Dimension) : ¬ e.HasDimension d := by
  intro hd
  induction h generalizing d with
  | here hop hl hr hne =>
    cases hd with
    | number hn => cases hn
    | joined hl' hr' hc =>
      cases hl.unique hl'
      cases hr.unique hr'
      cases hc with
      | sum => exact hne rfl
      | product | quotient => cases hop
  | operand _ ih =>
    cases hd with
    | number hn => cases hn
    | signed _ he => exact ih _ he
  | left _ ih | right _ ih =>
    cases hd with
    | number hn => cases hn
    | joined hl hr _ => first | exact ih _ hl | exact ih _ hr

/-- Magnitudes do not count for the dimension: an expression has that of a `Resized` one. -/
theorem Resized.hasDimension (h : e.Resized e') {d : Dimension} (hd : e'.HasDimension d) :
    e.HasDimension d := by
  induction h generalizing d with
  | number hn hn' =>
    rw [hd.unique (.number hn')]
    exact .number hn
  | quantity hm hm' =>
    cases hd with
    | number hn => cases hn
    | quantity => exact .quantity hm
  | signed _ ih =>
    cases hd with
    | number hn => cases hn
    | signed hop he => exact .signed hop (ih he)
  | joined _ _ ihl ihr =>
    cases hd with
    | number hn => cases hn
    | joined hl hr hc => exact .joined (ihl hl) (ihr hr) hc

end Node

/-! ## Values -/

/-- The dimension of a number, which is none, or of a quantity, which is that of its unit
(`Units.powers`). -/
inductive Value.HasDimension : Value → Dimension → Prop
  | number : HasDimension (.number n) .number
  | quantity : HasDimension (.quantity q) (.powers q.units.powers)

namespace Value

variable {a b v : Value} {d : Dimension}

/-- A number that is a result. -/
theorem hasDimension_of_number (result : Except Cause Number)
    (h : Value.number <$> result = .ok v) : v.HasDimension .number := by
  cases result with
  | error cause => cases h
  | ok n =>
    cases h
    exact .number

/-- A quantity that is a result, if its unit is known. -/
theorem hasDimension_of_quantity (result : Except Cause Quantity)
    (h : Value.quantity <$> result = .ok v) {exponents : String → Int}
    (hunits : ∀ s, result = .ok s → s.units.powers = exponents) :
    v.HasDimension (.powers exponents) := by
  cases result with
  | error cause => cases h
  | ok s =>
    cases h
    rw [← hunits s rfl]
    exact .quantity

/-- A quantity that is a result and keeps a unit. -/
theorem hasDimension_of_kept (result : Except Cause Quantity)
    (h : Value.quantity <$> result = .ok v) {u : Units}
    (hunits : ∀ s, result = .ok s → s.units = u) : v.HasDimension (.powers u.powers) :=
  hasDimension_of_quantity result h fun s hs => congrArg Units.powers (hunits s hs)

/-- A sum or difference of quantities (`Quantity.combineAlike`) is of their dimension, which is the
same. -/
theorem hasDimension_of_combineAlike {op : BinaryOp} (hop : op.tier = .sum)
    (onNumbers : Number → Number → Except Cause Number) (q r : Quantity)
    (h : Value.quantity <$> Quantity.combineAlike op onNumbers q r = .ok v) :
    ∃ c, Dimension.Combines op (.powers q.units.powers) (.powers r.units.powers) c ∧
      v.HasDimension c := by
  cases hs : Quantity.combineAlike op onNumbers q r with
  | error cause =>
    rw [hs] at h
    cases h
  | ok s =>
    obtain ⟨hqr, -⟩ := Quantity.units_of_combineAlike hs
    refine ⟨.powers q.units.powers, hqr ▸ .sum hop, hasDimension_of_kept _ h fun t ht => ?_⟩
    exact (Quantity.units_of_combineAlike ht).2

/-- Whatever an operator of arithmetic makes of two values has the dimension that it makes of theirs
(`Dimension.Combines`). -/
theorem hasDimension_of_binary {op : BinaryOp} (hop : op.tier = .sum ∨ op.tier = .product)
    {d d' : Dimension} (ha : a.HasDimension d) (hb : b.HasDimension d')
    (h : a.binary op b = .ok v) : ∃ c, Dimension.Combines op d d' c ∧ v.HasDimension c := by
  cases ha with
  | @number m =>
    cases hb with
    | @number n =>
      refine ⟨.number, .numbers hop, ?_⟩
      rcases BinaryOp.arithmetic hop with rfl | rfl | rfl | rfl
      · exact hasDimension_of_number (m.add n) h
      · exact hasDimension_of_number (m.subtract n) h
      · exact hasDimension_of_number (m.multiply n) (by cases m <;> exact h)
      · exact hasDimension_of_number (m.divide n) h
    | @quantity q =>
      rcases BinaryOp.arithmetic hop with rfl | rfl | rfl | rfl
      · cases h
      · cases h
      · have hscale : Value.quantity <$> q.scale m = .ok v := by cases m <;> exact h
        exact ⟨_, .scaling, hasDimension_of_kept _ hscale fun s => Quantity.units_of_scale⟩
      · refine ⟨_, .inverted, hasDimension_of_quantity (q.divideInto m) h fun s hs => ?_⟩
        exact Units.powers_inverse (Quantity.units_of_divideInto hs)
  | @quantity q =>
    cases hb with
    | @number n =>
      rcases BinaryOp.arithmetic hop with rfl | rfl | rfl | rfl
      · cases h
      · cases h
      · exact ⟨_, .scaled, hasDimension_of_kept (q.scale n) h fun s => Quantity.units_of_scale⟩
      · exact ⟨_, .shrunk, hasDimension_of_kept (q.shrink n) h fun s => Quantity.units_of_shrink⟩
    | @quantity r =>
      rcases BinaryOp.arithmetic hop with rfl | rfl | rfl | rfl
      · exact hasDimension_of_combineAlike rfl Number.add q r h
      · exact hasDimension_of_combineAlike rfl Number.subtract q r h
      · refine ⟨_, .product, hasDimension_of_quantity (q.multiply r) h fun s hs => ?_⟩
        exact Units.powers_multiply (Quantity.units_of_multiply hs)
      · refine ⟨_, .quotient, hasDimension_of_quantity (q.divide r) h fun s hs => ?_⟩
        exact Units.powers_divide (Quantity.units_of_divide hs)

/-- A sign keeps the dimension. -/
theorem hasDimension_of_unary {op : UnaryOp} (ha : a.HasDimension d) (h : a.unary op = .ok v) :
    v.HasDimension d := by
  cases ha with
  | @number n =>
    cases op with
    | identity =>
      cases h
      exact .number
    | negate => exact hasDimension_of_number n.negate h
    | not => cases h
  | @quantity q =>
    cases op with
    | identity =>
      cases h
      exact .quantity
    | negate => exact hasDimension_of_kept q.negate h fun s => Quantity.units_of_negate
    | not => cases h

end Value

/-! ## Evaluation -/

namespace Node

/-- The evaluation of an expression ends with a value of its dimension, or with a fault, and one for
units only where the expression is `Mismatched`. Either way the machine is as it was. -/
inductive Measures (e : Node) (m : Machine) : Outcome (Option Located) × Machine → Prop
  | value {v : Located} {d : Dimension} : e.HasDimension d → v.value.HasDimension d →
      Measures e m (.ok (some v), m)
  | fault {fault : Fault} : (fault.cause.kind = .unitMismatch → e.Mismatched) →
      Measures e m (.fault fault, m)

variable {e l r : Node} {m : Machine} {rounds : Nat} {run : Caller} {place : Span}

/-- A number that is written out is its own value. -/
theorem Numeral.evaluate (h : e.Numeral) (rounds : Nat) (run : Caller) (m : Machine) :
    ∃ n span, e.evaluate rounds run m = (.ok (some ⟨.number n, some span⟩), m) := by
  cases h with
  | int =>
    rw [Node.evaluate]
    exact ⟨_, _, rfl⟩
  | double =>
    rw [Node.evaluate]
    exact ⟨_, _, rfl⟩

/-- The last step of an expression: its result is wrapped, or refused. -/
theorem Measures.attempt {result : Except Cause Value} (position : Cause → Option Position)
    (hvalue : ∀ v, result = .ok v → ∃ d, e.HasDimension d ∧ v.HasDimension d)
    (hfault : ∀ cause, result = .error cause → cause.kind = .unitMismatch → e.Mismatched) :
    e.Measures m (producing place (Eval.attempt result position) m) := by
  cases result with
  | ok v =>
    obtain ⟨d, hd, hv⟩ := hvalue v rfl
    exact .value hd hv
  | error cause => exact .fault (hfault cause rfl)

/-- A quantity that is written out has the dimension that its names make (`Units.tally`), if its
unit is in range. -/
theorem Measures.phys {magnitude : Node} (h : magnitude.Numeral) {site : Span}
    {above below : List Ident} (m : Machine) :
    Measures ⟨place, .phys magnitude ⟨site, .unit above below⟩⟩ m
      (evaluate rounds run ⟨place, .phys magnitude ⟨site, .unit above below⟩⟩ m) := by
  obtain ⟨n, span, hn⟩ := h.evaluate rounds run m
  have hmagnitude : magnitude.demand (magnitude.evaluate rounds run) m =
      (.ok ⟨.number n, some span⟩, m) := Eval.bind_of_ok hn
  rw [evaluate, evaluate, producing, bind_assoc, Eval.bind_of_ok hmagnitude]
  cases hu : Units.ofFactors (above.map Ident.name) (below.map Ident.name) with
  | error cause =>
    have hrange : cause.kind = .overflow := (Units.ofFactors_refusedFor ..).of_error hu
    refine .fault fun hkind => ?_
    cases hrange.symm.trans hkind
  | ok u => exact .value (.quantity h) (Units.powers_ofFactors hu ▸ .quantity)

/-- An operand that has a fault hands it on. -/
theorem Measures.signed {op : UnaryOp} (hop : op ≠ .not)
    (h : e.Measures m (e.evaluate rounds run m)) :
    Measures ⟨place, .unary op e⟩ m (evaluate rounds run ⟨place, .unary op e⟩ m) := by
  rw [evaluate]
  generalize e.evaluate rounds run = x at h ⊢
  cases hx : x m with
  | mk outcome m' =>
    rw [hx] at h
    cases h with
    | fault hfault =>
      rw [producing, bind_assoc, demand, bind_assoc, Eval.bind_of_fault hx]
      exact .fault fun hkind => .operand (hfault hkind)
    | @value v d hd hv =>
      have hdemand : e.demand x m = (.ok v, m) := Eval.bind_of_ok hx
      rw [producing, bind_assoc, Eval.bind_of_ok hdemand]
      refine Measures.attempt _ (fun w hw => ⟨d, .signed hop hd, ?_⟩) fun cause hcause hkind => ?_
      · exact Value.hasDimension_of_unary hv hw
      · rcases (Value.unary_refusedFor op v.value).of_error hcause with hrange | rfl
        · cases hkind.symm.trans hrange
        · cases hkind

/-- Where two values of known dimensions are refused for their units, these are mismatched. -/
theorem mismatched_of_grounds {op : BinaryOp} {a b : Value} {d d' : Dimension} {cause : Cause}
    (hl : l.HasDimension d) (hr : r.HasDimension d') (ha : a.HasDimension d)
    (hb : b.HasDimension d') (h : Value.Grounds op a b cause)
    (hkind : cause.kind = .unitMismatch) : Mismatched ⟨place, .binary op l r⟩ := by
  cases h with
  | range hrange => cases hkind.symm.trans hrange
  | zero _ hzero => cases hkind.symm.trans hzero
  | units hop hne =>
    cases ha
    cases hb
    exact .here hop hl hr fun heq => hne (Units.powers_injective heq)
  | kinds => cases hkind

/-- The first operand that has a fault hands it on, and two values are taken together by
`hasDimension_of_binary` or refused by `mismatched_of_grounds`. -/
theorem Measures.joined {op : BinaryOp} (hop : op.tier = .sum ∨ op.tier = .product)
    (hl : l.Measures m (l.evaluate rounds run m)) (hr : r.Measures m (r.evaluate rounds run m)) :
    Measures ⟨place, .binary op l r⟩ m (evaluate rounds run ⟨place, .binary op l r⟩ m) := by
  rw [evaluate]
  generalize l.evaluate rounds run = x at hl ⊢
  generalize r.evaluate rounds run = y at hr ⊢
  cases hx : x m with
  | mk outcome m' =>
    rw [hx] at hl
    cases hl with
    | fault hfault =>
      rw [producing, bind_assoc, demand, bind_assoc, Eval.bind_of_fault hx]
      exact .fault fun hkind => .left (hfault hkind)
    | @value v d hd hv =>
      have hleft : l.demand x m = (.ok v, m) := Eval.bind_of_ok hx
      rw [producing, bind_assoc, Eval.bind_of_ok hleft]
      cases hy : y m with
      | mk outcome m' =>
        rw [hy] at hr
        cases hr with
        | fault hfault =>
          rw [bind_assoc, demand, bind_assoc, Eval.bind_of_fault hy]
          exact .fault fun hkind => .right (hfault hkind)
        | @value w d' hd' hw =>
          have hright : r.demand y m = (.ok w, m) := Eval.bind_of_ok hy
          rw [bind_assoc, Eval.bind_of_ok hright]
          refine Measures.attempt _ (fun u hu => ?_) fun cause hcause hkind => ?_
          · obtain ⟨c, hc, hdimension⟩ := Value.hasDimension_of_binary hop hv hw hu
            exact ⟨c, .joined hd hd' hc, hdimension⟩
          · exact mismatched_of_grounds hd hd' hv hw
              ((Value.binary_refusedFor op v.value w.value).of_error hcause) hkind

/-- An arithmetic expression is measured by its evaluation (`Measures`), whatever its magnitudes
are, by induction over the expression. -/
theorem Arithmetic.measures (h : e.Arithmetic) (rounds : Nat) (run : Caller) (m : Machine) :
    e.Measures m (e.evaluate rounds run m) := by
  induction h with
  | number hn =>
    obtain ⟨n, span, he⟩ := hn.evaluate rounds run m
    rw [he]
    exact .value (.number hn) .number
  | quantity hm => exact .phys hm m
  | signed hop _ ih => exact .signed hop ih
  | joined hop _ _ ihl ihr => exact .joined hop ihl ihr

/-- The same expression with other magnitudes is arithmetic too. -/
theorem Arithmetic.resized (h : e.Arithmetic) (he : e.Resized e') : e'.Arithmetic := by
  induction he with
  | number _ hn => exact .number hn
  | quantity _ hm =>
    cases h with
    | number hn => cases hn
    | quantity => exact .quantity hm
  | signed _ ih =>
    cases h with
    | number hn => cases hn
    | signed hop he => exact .signed hop (ih he)
  | joined _ _ ihl ihr =>
    cases h with
    | number hn => cases hn
    | joined hop hl hr => exact .joined hop (ihl hl) (ihr hr)

/-- Dimensions are sound: an arithmetic expression comes to a value of its one dimension or to a
fault (`Measures`), which is one for units only where a sum or difference in it is mismatched, and
then it has no dimension. With other magnitudes (`Resized`) it comes to no value of another
dimension. -/
theorem Arithmetic.dimension_sound (h : e.Arithmetic) (fuel : Nat) (m : Machine) :
    e.Measures m (e.run fuel m) ∧
      (∀ d d', e.HasDimension d → e.HasDimension d' → d = d') ∧
      (e.Mismatched → ∀ d, ¬ e.HasDimension d) ∧
      ∀ e', e.Resized e' → ∀ v m', e'.run fuel m = (.ok v, m') →
        ∃ d w, e.HasDimension d ∧ v = some w ∧ w.value.HasDimension d := by
  refine ⟨h.measures fuel _ m, fun d d' => HasDimension.unique, Mismatched.not_hasDimension,
    fun e' he v m' hrun => ?_⟩
  have hmeasures := (h.resized he).measures fuel (callWithin fuel) m
  rw [show e'.evaluate fuel (callWithin fuel) m = _ from hrun] at hmeasures
  cases hmeasures with
  | value hd hv => exact ⟨_, _, he.hasDimension hd, rfl, hv⟩

/-- The quantity `6&|m*m| / 2&|s|`. -/
def areaRate : Node :=
  let m : Ident := ⟨"m", .origin⟩
  let s : Ident := ⟨"s", .origin⟩
  ⟨.origin, .binary .divide ⟨.origin, .phys ⟨.origin, .int 6⟩ ⟨.origin, .unit [m, m] []⟩⟩
    ⟨.origin, .phys ⟨.origin, .int 2⟩ ⟨.origin, .unit [s] []⟩⟩⟩

/-- The expression `areaRate` comes to a value that measures square metres over seconds. -/
theorem areaRate_dimension_sound :
    ∃ v, areaRate.run 0 (.initial 0) = (.ok (some v), .initial 0) ∧
      v.value.HasDimension (.powers (Units.tally ["m", "m"] - Units.tally [] -
        (Units.tally ["s"] - Units.tally []))) := by
  have hsound := Arithmetic.dimension_sound (e := areaRate)
    (.joined (.inr rfl) (.quantity .int) (.quantity .int)) 0 (.initial 0)
  have hdimension : areaRate.HasDimension _ :=
    .joined (.quantity .int) (.quantity .int) .quotient
  have hrun : ∃ v, areaRate.run 0 (.initial 0) = (.ok (some v), .initial 0) := ⟨_, rfl⟩
  obtain ⟨v, hv⟩ := hrun
  have hmeasures := hsound.1
  rw [hv] at hmeasures
  cases hmeasures with
  | value hd hw => exact ⟨v, hv, hdimension.unique hd ▸ hw⟩

end Node

end UnitScript
