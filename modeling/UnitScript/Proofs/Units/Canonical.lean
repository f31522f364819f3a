import UnitScript.Proofs.Machine.Reachable
import UnitScript.Proofs.Units.Table
import UnitScript.Proofs.Value.Refusals
import UnitScript.Proofs.Value.Results

/-!
# Units are canonical wherever they occur

Every unit on a reachable machine is made by the operations on tables, and so its table is
canonical (`Table.Made.canonical`). This is a regime in the sense of `Regime`: units come into a
run from the names that are written in a program, and values are made of other values by the
operations only (`Value.Combined`). Since a canonical table is told apart from others by its
exponents, the comparison of tables that decides whether quantities are added, compared or refused
is one of exponents (`canonicalUnits`).
-/

namespace UnitScript

/-! ## Where units occur -/

/-- A unit occurs in a value: it is the value or belongs to it, or it occurs in what a function has
captured or in what is returned. A machine mentions what its bindings do (`Machine.Mentions`). -/
inductive Value.Mentions : Value → Units → Prop
  | unit {u : Units} : Mentions (.unit u) u
  | quantity {q : Quantity} : Mentions (.quantity q) q.units
  | captured {f : Closure} {name : String} {v : Located} {u : Units} :
    (name, v) ∈ f.captured → v.value.Mentions u → Mentions (.function f) u
  | returned {v : Located} {u : Units} :
    v.value.Mentions u → Mentions (.returning (some v)) u

/-- A unit occurs in what is bound globally or by a call in progress (`Value.Mentions`). -/
inductive Machine.Mentions (m : Machine) (u : Units) : Prop
  | globally {name : String} {v : Located} :
    (name, v) ∈ m.context.globals → v.value.Mentions u → m.Mentions u
  | locally {frame : Frame} {name : String} {v : Located} : frame ∈ m.context.frames →
    (name, v) ∈ frame.bindings → v.value.Mentions u → m.Mentions u

/-- The units that a value mentions (`Value.Mentions`) are made by the operations (`Table.Made`). -/
def Value.Made (v : Value) : Prop := ∀ u, v.Mentions u → Table.Made u.factors

/-- So are the units in bindings. -/
def Bindings.Made (bindings : Bindings) : Prop := ∀ entry ∈ bindings, entry.2.value.Made

/-- All units in a context, in the global bindings and in those of every call, are made by the
operations (`Bindings.Made`). -/
structure Context.Made (c : Context) : Prop where
  globals : Bindings.Made c.globals
  frames : ∀ frame ∈ c.frames, Bindings.Made frame.bindings

/-! ## Operations on values -/

namespace Value

variable {a b c : Value} {u w : Units} {q : Quantity}

theorem made_number (n : Number) : (number n).Made := nofun

theorem made_bool (b : Bool) : (bool b).Made := nofun

theorem made_string (s : String) : (string s).Made := nofun

theorem made_unit : (unit u).Made ↔ Table.Made u.factors := by
  refine ⟨fun h => h u .unit, fun h v hv => ?_⟩
  cases hv
  exact h

theorem made_quantity : (quantity q).Made ↔ Table.Made q.units.factors := by
  refine ⟨fun h => h q.units .quantity, fun h v hv => ?_⟩
  cases hv
  exact h

theorem made_function {f : Closure} : (function f).Made ↔ Bindings.Made f.captured := by
  refine ⟨fun h entry hentry u hu => h u (.captured hentry hu), fun h u hu => ?_⟩
  cases hu with
  | captured hentry hu => exact h _ hentry _ hu

theorem made_returning {v : Located} : (returning (some v)).Made ↔ v.value.Made := by
  refine ⟨fun h u hu => h u (.returned hu), fun h u hu => ?_⟩
  cases hu with
  | returned hu => exact h u hu

/-- A unit that is a result and has the table of one. -/
theorem made_of_factors {t : Except Cause Table} {x : Except Cause Units}
    (hfactors : Units.factors <$> x = t) (hmade : ∀ table, t = .ok table → Table.Made table)
    (h : x = .ok u) : Table.Made u.factors := by
  subst h
  exact hmade _ hfactors.symm

theorem made_units_multiply (hu : Table.Made u.factors) (hw : Table.Made w.factors) {v : Units}
    (h : u.multiply w = .ok v) : Table.Made v.factors :=
  made_of_factors (Units.factors_multiply u w) (fun _ => .multiply hu hw) h

theorem made_units_divide (hu : Table.Made u.factors) (hw : Table.Made w.factors) {v : Units}
    (h : u.divide w = .ok v) : Table.Made v.factors :=
  made_of_factors (Units.factors_divide u w) (fun _ => .divide hu hw) h

theorem made_units_inverse (hu : Table.Made u.factors) {v : Units} (h : u.inverse = .ok v) :
    Table.Made v.factors :=
  made_of_factors (Units.factors_inverse u) (fun _ => .inverse hu) h

theorem made_units_ofFactors {above below : List String} (h : Units.ofFactors above below = .ok u) :
    Table.Made u.factors :=
  made_of_factors (Units.factors_ofFactors above below) (fun _ => .ofFactors) h

/-- Units stay made (`Value.Made`) while values are combined by an operator. -/
theorem Combined.made (h : Combined a b c) (ha : a.Made) (hb : b.Made) : c.Made := by
  cases h with
  | number => exact made_number _
  | bool => exact made_bool _
  | string => exact made_string _
  | unit => exact ha
  | unitProduct h =>
    exact made_unit.2 (made_units_multiply (made_unit.1 ha) (made_unit.1 hb) h)
  | unitQuotient h =>
    exact made_unit.2 (made_units_divide (made_unit.1 ha) (made_unit.1 hb) h)
  | keptLeft h =>
    rw [made_quantity, h]
    exact made_quantity.1 ha
  | keptRight h =>
    rw [made_quantity, h]
    exact made_quantity.1 hb
  | product h =>
    exact made_quantity.2 (made_units_multiply (made_quantity.1 ha) (made_quantity.1 hb) h)
  | quotient h =>
    exact made_quantity.2 (made_units_divide (made_quantity.1 ha) (made_quantity.1 hb) h)
  | inverted h => exact made_quantity.2 (made_units_inverse (made_quantity.1 hb) h)

end Value

/-! ## Bindings and contexts -/

namespace Bindings.Made

variable {bindings : Bindings}

/-- What is bound to a name. -/
theorem get? (h : bindings.Made) {name : String} {v : Located}
    (hv : bindings.get? name = some v) : v.value.Made := by
  obtain ⟨before, after, rfl, -⟩ := List.lookup_eq_some_iff.1 hv
  exact h (name, v) (List.mem_append_right _ List.mem_cons_self)

/-- A name is bound anew. -/
theorem put (h : bindings.Made) (name : String) {v : Located} (hv : v.value.Made) :
    (bindings.put name v).Made := by
  induction bindings with
  | nil => exact List.forall_mem_cons.2 ⟨hv, nofun⟩
  | cons entry bindings ih =>
    obtain ⟨hentry, hrest⟩ := List.forall_mem_cons.1 h
    obtain ⟨other, present⟩ := entry
    rw [Bindings.put]
    split
    · exact List.forall_mem_cons.2 ⟨hv, hrest⟩
    · exact List.forall_mem_cons.2 ⟨hentry, ih hrest⟩

end Bindings.Made

namespace Context.Made

variable {c : Context} {name : String} {v : Located}

theorem current (h : c.Made) : Bindings.Made c.current := by
  unfold Context.current
  split
  · exact h.globals
  · next frame frames hframes => exact h.frames frame (hframes ▸ List.mem_cons_self)

theorem lookup? (h : c.Made) (hv : c.lookup? name = some v) : v.value.Made := by
  rcases Option.or_eq_some_iff.1 hv with hcurrent | ⟨-, hglobal⟩
  · exact h.current.get? hcurrent
  · exact h.globals.get? hglobal

theorem bindGlobal (h : c.Made) (name : String) (hv : v.value.Made) :
    (c.bindGlobal name v).Made :=
  ⟨h.globals.put name hv, h.frames⟩

theorem bind (h : c.Made) (name : String) (hv : v.value.Made) : (c.bind name v).Made := by
  unfold Context.bind
  split
  · exact h.bindGlobal name hv
  · next frame frames hframes =>
    obtain ⟨hframe, hrest⟩ := List.forall_mem_cons.1 (hframes ▸ h.frames)
    exact ⟨h.globals, List.forall_mem_cons.2 ⟨hframe.put name hv, hrest⟩⟩

theorem set (h : c.Made) {type : Option TypeName} {c' : Context} (hv : v.value.Made)
    (hset : c.set name type v = .ok c') : c'.Made := by
  unfold Context.set Context.declare Context.assign at hset
  split at hset
  · split at hset
    · cases hset
      exact h.bind name hv
    · cases hset
  · split at hset
    · cases hset
    · split at hset
      · cases hset
        split
        · exact h.bind name hv
        · exact h.bindGlobal name hv
      · cases hset

theorem capture (h : c.Made) : Bindings.Made c.capture := by
  unfold Context.capture
  split
  · exact nofun
  · next frame frames hframes => exact h.frames frame (hframes ▸ List.mem_cons_self)

theorem read (h : c.Made) (hread : c.read name = .ok v) : v.value.Made := by
  unfold Context.read at hread
  split at hread
  · next hv =>
    cases hread
    exact h.lookup? hv
  · cases hread

theorem callee (h : c.Made) {f : Closure} (hcallee : c.callee name = .ok (.closure f)) :
    (Value.function f).Made := by
  unfold Context.callee at hcallee
  split at hcallee
  · cases hcallee
  · next hf =>
    cases hcallee
    exact h.globals.get? hf
  · cases hcallee
  · cases hcallee

theorem leave (h : c.Made) {c' : Context} (hleave : c.leave = .ok c') : c'.Made := by
  unfold Context.leave at hleave
  split at hleave
  · cases hleave
  · next frame frames hframes =>
    cases hleave
    exact ⟨h.globals, fun other hother =>
      h.frames other (hframes ▸ List.mem_cons_of_mem _ hother)⟩

end Context.Made

/-- The regime of units that are made by the operations (`Context.Made`): every step of the
evaluator keeps it. -/
def Regime.units : Regime where
  machines m := m.context.Made
  values := Value.Made
  number := Value.made_number
  bool := Value.made_bool
  string := Value.made_string
  breaking := nofun
  continuing := nofun
  returnNothing := nofun
  returning := Value.made_returning
  unit h := Value.made_unit.2 (Value.made_units_ofFactors h)
  quantity h := Value.made_quantity.2 (Value.made_unit.1 h)
  unary ha h := (Value.combined_of_unary h).made ha ha
  binary ha hb h := (Value.combined_of_binary h).made ha hb
  read h hread := h.read hread
  callee h hcallee := h.callee hcallee
  print _ h := h
  set h hv hset := h.set hv hset
  declareFunction _ h := h.bindGlobal _ (Value.made_function.2 h.capture)
  enter h hf henter := by
    obtain ⟨-, rfl⟩ := Context.enter_eq_ok.1 henter
    exact ⟨h.globals, List.forall_mem_cons.2 ⟨Value.made_function.1 hf, h.frames⟩⟩
  leave h hleave := h.leave hleave

/-- Where nothing has run there are no units. -/
theorem Context.made_initial (maxDepth : Nat) : (Context.initial maxDepth).Made :=
  ⟨List.forall_mem_cons.2 ⟨nofun, nofun⟩, nofun⟩

/-- The units on a machine that programs reach (`Machine.Reachable`) are made by the operations. -/
theorem Machine.Reachable.made {m : Machine} (h : m.Reachable) : m.context.Made :=
  h.machines (r := .units) fun maxDepth => Context.made_initial maxDepth

/-- The units in what a computation comes to on a reachable machine are made by the operations, if
it keeps to `Regime.units`. -/
theorem Eval.Keeps.made {x : Eval (Option Located)} (hx : x.Keeps .units (Regime.results .units))
    {m m' : Machine} (hm : m.Reachable) {v : Located} (h : x m = (.ok (some v), m')) :
    v.value.Made := by
  have hmade : Regime.units.machines m := hm.made
  exact (hx.of_eq_ok hmade h).1 v rfl

/-! ## The whole -/

/-- Quantities are refused for their units (`Quantity.combineAlike`) exactly if some exponent
differs, however their magnitudes are combined. -/
theorem Quantity.combineAlike_refused_iff {op : BinaryOp}
    {onNumbers : Number → Number → Except Cause Number}
    (hrange : ∀ m n, RefusedFor Cause.OutOfRange (onNumbers m n)) {q r : Quantity} :
    (∃ cause, combineAlike op onNumbers q r = .error cause ∧ cause.kind = .unitMismatch) ↔
      ∃ name, q.units.exponent name ≠ r.units.exponent name := by
  unfold combineAlike
  split
  · next heq =>
    refine ⟨?_, fun ⟨name, hne⟩ => absurd (heq ▸ rfl) hne⟩
    rintro ⟨cause, hcause, hkind⟩
    cases hmagnitude : onNumbers q.magnitude r.magnitude with
    | ok n =>
      rw [hmagnitude] at hcause
      cases hcause
    | error other =>
      rw [hmagnitude] at hcause
      cases hcause
      cases hkind.symm.trans ((hrange _ _).of_error hmagnitude)
  · next hne =>
    refine ⟨fun _ => ?_, fun _ => ⟨_, rfl, rfl⟩⟩
    exact Classical.not_forall.1 fun h => hne (Units.ext_exponent h)

/-- Units are the same exactly if their exponents (`Units.exponent`) are, in all dimensions. -/
theorem Units.beq_iff {u w : Units} : (u == w) = true ↔ ∀ name, u.exponent name = w.exponent name :=
  beq_iff_eq.trans ⟨fun h _ => h ▸ rfl, ext_exponent⟩

/-- How units are kept. `Table` has the operations on plain lists of exponents, which may hold zeros
while they run; `Table.Made` are the tables that they make in any combination, and `Table.Canonical`
those that are sorted and have no zeros. -/
structure CanonicalUnits : Prop where
  /-- Every unit that is bound on a reachable machine (`Machine.Mentions`), in a function that was
  captured as well, is made by the operations (`Table.Made`). -/
  bound {m : Machine} {u : Units} : m.Reachable → m.Mentions u → Table.Made u.factors
  /-- So is every unit in what an expression or a statement comes to there (`Value.Mentions`). -/
  evaluated {m m' : Machine} {fuel : Nat} {e : Node} {v : Located} {u : Units} : m.Reachable →
    e.run fuel m = (.ok (some v), m') → v.value.Mentions u → Table.Made u.factors
  /-- So is every unit in what a whole program gives back from `Block.run`. -/
  returned {m m' : Machine} {fuel : Nat} {b : Block} {v : Located} {u : Units} : m.Reachable →
    b.run fuel m = (.ok (some v), m') → v.value.Mentions u → Table.Made u.factors
  /-- The operations on units are those on tables, with the same refusals: what is computed factor
  by factor with zeros left out is what `Table.combine` computes with zeros and prunes. -/
  operations (u w : Units) (name : String) (above below : List String) :
    (Units.dimension name).factors = Table.dimension name ∧
    Units.factors <$> Units.ofFactors above below = Table.ofFactors above below ∧
    Units.factors <$> u.multiply w = Table.multiply u.factors w.factors ∧
    Units.factors <$> u.divide w = Table.divide u.factors w.factors ∧
    Units.factors <$> u.inverse = Table.inverse u.factors
  /-- What they make in any combination (`Table.Made`) is canonical, whatever cancels, and no name
  occurs twice in it. -/
  canonical {t : Table} : Table.Made t → t.Canonical ∧ (t.map Prod.fst).Nodup
  /-- Tables that are made are equal exactly if their exponents are (`Table.exponent`), and empty if
  these are all zero. -/
  told {s t : Table} : Table.Made s → Table.Made t →
    (s = t ↔ ∀ name, s.exponent name = t.exponent name) ∧
    (t = [] ↔ ∀ name, t.exponent name = 0)
  /-- Units are compared by their exponents (`Units.exponent`), -/
  compared (u w : Units) : (u == w) = true ↔ ∀ name, u.exponent name = w.exponent name
  /-- and have no dimension (`Units.isDimensionless`) exactly if all exponents are zero. -/
  dimensionless (u : Units) : u.isDimensionless = true ↔ ∀ name, u.exponent name = 0
  /-- Quantities are refused by `Quantity.add` for their units exactly if an exponent differs, -/
  added (q r : Quantity) : (∃ cause, q.add r = .error cause ∧ cause.kind = .unitMismatch) ↔
    ∃ name, q.units.exponent name ≠ r.units.exponent name
  /-- and in the same way they are refused by `Quantity.subtract`. -/
  subtracted (q r : Quantity) :
    (∃ cause, q.subtract r = .error cause ∧ cause.kind = .unitMismatch) ↔
      ∃ name, q.units.exponent name ≠ r.units.exponent name

/-- Units are canonical wherever they occur on reachable machines and in what is evaluated there,
and told apart by their exponents (`CanonicalUnits`). -/
theorem canonicalUnits : CanonicalUnits where
  bound hm hu := by
    cases hu with
    | globally hentry hu => exact hm.made.globals _ hentry _ hu
    | locally hframe hentry hu => exact hm.made.frames _ hframe _ hentry _ hu
  evaluated hm hrun := (Node.run_keeps _ _).made hm hrun _
  returned hm hrun := (Block.run_keeps _ _).made hm hrun _
  operations u w name above below := ⟨rfl, Units.factors_ofFactors above below,
    Units.factors_multiply u w, Units.factors_divide u w, Units.factors_inverse u⟩
  canonical h := ⟨h.canonical, h.canonical.nodup⟩
  told hs ht := ⟨hs.canonical.eq_iff ht.canonical, ht.canonical.eq_nil_iff⟩
  compared _ _ := Units.beq_iff
  dimensionless u := List.isEmpty_iff.trans u.canonical_factors.eq_nil_iff
  added _ _ := Quantity.combineAlike_refused_iff fun _ _ => Number.arithmetic_refusedFor ..
  subtracted _ _ := Quantity.combineAlike_refused_iff fun _ _ => Number.arithmetic_refusedFor ..

/-- The program `unit u = |m*s/s|;`, in which the seconds cancel. -/
def cancelling : Block :=
  let m : Ident := ⟨"m", .origin⟩
  let s : Ident := ⟨"s", .origin⟩
  ⟨.origin, [⟨.origin, .assign (some .unit) ⟨"u", .origin⟩ ⟨.origin, .unit [m, s] [s]⟩⟩]⟩

/-- The program `cancelling` leaves a unit that mentions metres only: nothing is left of what has
cancelled. -/
theorem cancelling_canonical :
    (cancelling.run 0 (.initial 0)).2.Mentions (.dimension "m") ∧
      Table.Made (Units.dimension "m").factors := by
  have hbound : (cancelling.run 0 (.initial 0)).2.Mentions (.dimension "m") :=
    .globally (List.mem_cons_of_mem _ List.mem_cons_self) .unit
  exact ⟨hbound, canonicalUnits.bound (Machine.Reachable.initial.run 0 cancelling) hbound⟩

end UnitScript
