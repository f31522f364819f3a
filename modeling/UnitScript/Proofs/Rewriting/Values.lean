import Mathlib.Data.List.Forall2
import UnitScript.Proofs.Machine.Related
import UnitScript.Proofs.Rewriting.Trees

/-!
# Values up to rewriting

A function carries its body, so where the body of a function is rewritten the values and the
contexts of a run differ. `Value.Rewritten` is what they have in common: the same data, and
functions of the same name, parameters and type whose bodies are rewritten. Nothing an evaluation
looks at tells such values from one another: they have the same kind and the same text, and
operators come to the same on them. Corresponding machines (`Machine.Rewritten`) look up, bind,
enter and leave alike.
-/

namespace UnitScript

mutual

/-- Values that differ at most in how the bodies of functions are written (`Rewrites`), in what
these have captured as well. -/
inductive Value.Rewritten : Value → Value → Prop
  | same : Value.Rewritten v v
  | function : Rewrites true (.block body) (.block body') →
      Bindings.Rewritten captured captured' →
      Value.Rewritten (.function ⟨⟨ident, params, returns, body⟩, captured⟩)
        (.function ⟨⟨ident, params, returns, body'⟩, captured'⟩)
  | returning : Value.Rewritten v w →
      Value.Rewritten (.returning (some ⟨v, span⟩)) (.returning (some ⟨w, span⟩))

/-- The same names are bound to such values (`Value.Rewritten`), in the same order and produced in
the same places. -/
inductive Bindings.Rewritten : List (String × Located) → List (String × Located) → Prop
  | nil : Bindings.Rewritten [] []
  | cons : Value.Rewritten v w → Bindings.Rewritten b b' →
      Bindings.Rewritten ((name, ⟨v, span⟩) :: b) ((name, ⟨w, span⟩) :: b')

end

/-! ## Values -/

namespace Value.Rewritten

variable {v v' w w' : Value}

/-- The kind of a value (`Value.kind`) does not depend on the bodies of functions, -/
theorem kind (h : v.Rewritten w) : v.kind = w.kind := by
  cases h <;> rfl

/-- and neither does whether it is a signal (`Value.isSignal`), -/
theorem isSignal (h : v.Rewritten w) : v.isSignal = w.isSignal := by
  rw [Value.isSignal, Value.isSignal, h.kind]

/-- what it may be bound to (`Value.fits`), -/
theorem fits (h : v.Rewritten w) (type : TypeName) : v.fits type = w.fits type := by
  rw [Value.fits, Value.fits, h.kind]

/-- its truth (`Value.truth?`) -/
theorem truth? (h : v.Rewritten w) : v.truth? = w.truth? := by
  cases h <;> rfl

/-- and its text (`Value.text`), which shows no bodies. -/
theorem text : {v w : Value} → v.Rewritten w → v.text = w.text
  | _, _, .same => rfl
  | _, _, .function .. => rfl
  | _, _, .returning h => by
    have hpayload := text h
    exact hpayload

/-- Values without the body of a function in them are the same: those that are neither a function
nor what is returned (`Kind.returning`). -/
theorem eq_of_kind (h : v.Rewritten w) (hfunction : v.kind ≠ .function)
    (hreturning : v.kind ≠ .returning) : v = w := by
  cases h with
  | same => rfl
  | function => exact absurd rfl hfunction
  | returning => exact absurd rfl hreturning

/-- Operators come to the same (`Value.binary`), and are refused for the same causes, -/
theorem binary (op : BinaryOp) (h : v.Rewritten v') (h' : w.Rewritten w') :
    v.binary op w = v'.binary op w' := by
  have hleft : v.binary op w = v'.binary op w := by
    cases h with
    | same => rfl
    | function | returning => cases op <;> cases w <;> rfl
  rw [hleft]
  cases h' with
  | same => rfl
  | function | returning =>
    cases op <;> cases v' <;> first | rfl | (cases ‹Number› <;> rfl)

/-- with one operand too (`Value.unary`). -/
theorem unary (op : UnaryOp) (h : v.Rewritten w) : v.unary op = w.unary op := by
  cases h <;> cases op <;> rfl

end Value.Rewritten

/-! ## Bindings -/

namespace Bindings.Rewritten

variable {b b' : Bindings}

theorem refl : (b : Bindings) → Bindings.Rewritten b b
  | [] => .nil
  | (_, ⟨_, _⟩) :: b => .cons .same (refl b)

end Bindings.Rewritten

/-- Values that correspond to each other (`Value.Rewritten`) and were produced in the same place. -/
structure Located.Rewritten (v w : Located) : Prop where
  value : v.value.Rewritten w.value
  span : v.span = w.span

/-- Results that are values (`Located.Rewritten`), or none. -/
abbrev Located.Rewritten? : Option Located → Option Located → Prop :=
  Option.Rel Located.Rewritten

/-- Functions of the same name, parameters and type, with bodies of which one is rewritten to the
other (`Rewrites`). -/
structure Closure.Rewritten (f g : Closure) : Prop where
  ident : f.declaration.ident = g.declaration.ident
  params : f.declaration.params = g.declaration.params
  returns : f.declaration.returns = g.declaration.returns
  body : Rewrites true (.block f.declaration.body) (.block g.declaration.body)
  captured : Bindings.Rewritten f.captured g.captured

/-- A function corresponds to a function (`Closure.Rewritten`), and to nothing else. -/
theorem Value.Rewritten.closure {f : Closure} {w : Value}
    (h : Value.Rewritten (.function f) w) : ∃ g, w = .function g ∧ f.Rewritten g := by
  cases h with
  | same => exact ⟨f, rfl, rfl, rfl, rfl, f.declaration.body.rewrites_self, .refl _⟩
  | function hbody hcaptured => exact ⟨_, rfl, rfl, rfl, rfl, hbody, hcaptured⟩

namespace Located.Rewritten

variable {v v' w w' : Located}

theorem refl (v : Located) : v.Rewritten v := ⟨.same, rfl⟩

theorem position (h : v.Rewritten w) : v.position = w.position := by
  rw [Located.position, Located.position, h.span]

/-- A condition (`Located.truth`) holds for both or neither, or is refused for the same cause. -/
theorem truth (h : v.Rewritten w) : v.truth = w.truth := by
  rw [Located.truth, Located.truth, h.value.truth?, h.value.kind, h.position]

/-- The same magnitude is read off both (`Located.magnitude`). -/
theorem magnitude (h : v.Rewritten w) : v.magnitude = w.magnitude := by
  obtain ⟨v, span⟩ := v
  obtain ⟨w, span'⟩ := w
  obtain ⟨hvalue, rfl⟩ := h
  cases hvalue <;> rfl

/-- The same unit is read off both (`Located.units`). -/
theorem units (h : v.Rewritten w) : v.units = w.units := by
  obtain ⟨v, span⟩ := v
  obtain ⟨w, span'⟩ := w
  obtain ⟨hvalue, rfl⟩ := h
  cases hvalue <;> rfl

/-- The values may be handed on by `return` on both sides (`Value.returning`). -/
theorem returning (h : v.Rewritten w) :
    Value.Rewritten (.returning (some v)) (.returning (some w)) := by
  obtain ⟨v, span⟩ := v
  obtain ⟨w, span'⟩ := w
  obtain ⟨hvalue, rfl⟩ := h
  exact .returning hvalue

/-- A fault that an operator has with its operands has the same place
(`UnitScript.operandPosition`). -/
theorem operandPosition (h : v.Rewritten v') (h' : w.Rewritten w') :
    operandPosition v w = operandPosition v' w' := by
  funext cause
  unfold UnitScript.operandPosition
  rw [h.position, h'.position]

end Located.Rewritten

/-- A result is a signal on both sides or on neither (`interrupts`). -/
theorem Located.interrupts_of_rewritten {r s : Option Located} (h : Located.Rewritten? r s) :
    interrupts r = interrupts s := by
  cases h with
  | none => rfl
  | some hvw => exact hvw.value.isSignal

/-- There is a result on both sides or on neither (`Located.Rewritten?`). -/
theorem Located.isSome_of_rewritten {r s : Option Located} (h : Located.Rewritten? r s) :
    r.isSome = s.isSome := by
  cases h <;> rfl

namespace Bindings.Rewritten

variable {b b' : Bindings}

/-- A name is bound (`Bindings.get?`) on both sides or on neither. -/
theorem get? (h : Bindings.Rewritten b b') (name : String) :
    Located.Rewritten? (b.get? name) (b'.get? name) := by
  induction b generalizing b' with
  | nil =>
    cases h
    exact .none
  | cons first b ih =>
    cases h with
    | cons hvalue hothers =>
      rw [Bindings.get?_cons, Bindings.get?_cons]
      split
      · exact .some ⟨hvalue, rfl⟩
      · exact ih hothers

/-- A name may be bound anew (`Bindings.put`) on both sides. -/
theorem put (h : Bindings.Rewritten b b') (name : String) {v w : Located} (hvw : v.Rewritten w) :
    Bindings.Rewritten (b.put name v) (b'.put name w) := by
  obtain ⟨v, span⟩ := v
  obtain ⟨w, span'⟩ := w
  obtain ⟨hvalue, rfl⟩ := hvw
  induction b generalizing b' with
  | nil =>
    cases h
    exact .cons hvalue .nil
  | cons first b ih =>
    cases h with
    | cons hpresent hothers =>
      rw [Bindings.put, Bindings.put]
      split
      · exact .cons hvalue hothers
      · exact .cons hpresent (ih hothers)

end Bindings.Rewritten

/-! ## Contexts -/

/-- The same call in progress (`Frame.activation`), with corresponding bindings. -/
structure Frame.Rewritten (F G : Frame) : Prop where
  activation : F.activation = G.activation
  bindings : Bindings.Rewritten F.bindings G.bindings

/-- The same calls in progress, and the same names bound in each and globally, to values that
correspond (`Value.Rewritten`). -/
structure Context.Rewritten (c d : Context) : Prop where
  globals : Bindings.Rewritten c.globals d.globals
  frames : List.Forall₂ Frame.Rewritten c.frames d.frames
  maxDepth : c.maxDepth = d.maxDepth

/-- What can be called is the same native function, or functions that correspond to each other. -/
inductive Callable.Rewritten : Callable → Callable → Prop
  | closure : f.Rewritten g → Callable.Rewritten (.closure f) (.closure g)
  | native : Callable.Rewritten (.native f) (.native f)

/-- Both are refused for the same `Cause`, or the results correspond to each other. -/
inductive Except.Rewritten {α : Type} (results : α → α → Prop) :
    Except Cause α → Except Cause α → Prop
  | ok : results a b → Except.Rewritten results (.ok a) (.ok b)
  | error : Except.Rewritten results (.error cause) (.error cause)

/-- The two ways in which outcomes may correspond to each other (`Except.Rewritten`): two results,
or the same refusal. -/
theorem Except.Rewritten.cases {α : Type} {results : α → α → Prop} {x y : Except Cause α}
    (h : Except.Rewritten results x y) :
    (∃ a b, x = .ok a ∧ y = .ok b ∧ results a b) ∨
      ∃ cause, x = .error cause ∧ y = .error cause := by
  cases h with
  | ok hab => exact .inl ⟨_, _, rfl, rfl, hab⟩
  | error => exact .inr ⟨_, rfl, rfl⟩

namespace Context.Rewritten

variable {c d : Context} {v w : Located}

theorem refl (c : Context) : c.Rewritten c where
  globals := .refl _
  frames := List.forall₂_same.2 fun _ _ => ⟨rfl, .refl _⟩
  maxDepth := rfl

/-- What the innermost call has bound (`Context.current`) corresponds, name by name. -/
theorem current (h : c.Rewritten d) : Bindings.Rewritten c.current d.current := by
  obtain ⟨globals, frames, limit⟩ := c
  obtain ⟨globals', frames', limit'⟩ := d
  obtain ⟨hglobals, hframes, -⟩ := h
  cases hframes with
  | nil => exact hglobals
  | cons hframe _ => exact hframe.bindings

/-- What a new function captures (`Context.capture`) corresponds, name by name. -/
theorem capture (h : c.Rewritten d) : Bindings.Rewritten c.capture d.capture := by
  obtain ⟨globals, frames, limit⟩ := c
  obtain ⟨globals', frames', limit'⟩ := d
  obtain ⟨-, hframes, -⟩ := h
  cases hframes with
  | nil => exact .nil
  | cons hframe _ => exact hframe.bindings

/-- What is visible under a name (`Context.lookup?`) corresponds, or nothing is on both sides. -/
theorem lookup? (h : c.Rewritten d) (name : String) :
    Located.Rewritten? (c.lookup? name) (d.lookup? name) := by
  have hcurrent := h.current.get? name
  rw [Context.lookup?, Context.lookup?]
  generalize c.current.get? name = r, d.current.get? name = s at hcurrent
  cases hcurrent with
  | none => exact h.globals.get? name
  | some hvw => exact .some hvw

/-- A variable is read (`Context.read`) on both sides, or refused on both. -/
theorem read (h : c.Rewritten d) (name : String) :
    Except.Rewritten Located.Rewritten (c.read name) (d.read name) := by
  have hlookup := h.lookup? name
  unfold Context.read
  generalize c.lookup? name = r, d.lookup? name = s at hlookup
  cases hlookup with
  | none => exact .error
  | some hvw => exact .ok hvw

/-- A function is looked up (`Context.callee`) on both sides, or refused on both. -/
theorem callee (h : c.Rewritten d) (name : String) :
    Except.Rewritten Callable.Rewritten (c.callee name) (d.callee name) := by
  have hglobal := h.globals.get? name
  unfold Context.callee
  generalize c.globals.get? name = r, d.globals.get? name = s at hglobal
  cases hglobal with
  | none => exact .error
  | @some v w hvw =>
    obtain ⟨v, span⟩ := v
    obtain ⟨w, span'⟩ := w
    have hvalue : v.Rewritten w := hvw.value
    cases v with
    | function f =>
      obtain ⟨g, rfl, hfg⟩ := hvalue.closure
      exact .ok (.closure hfg)
    | native f =>
      cases hvalue
      exact .ok .native
    | _ => cases hvalue <;> exact .error

/-- A name may be bound globally (`Context.bindGlobal`) on both sides. -/
theorem bindGlobal (h : c.Rewritten d) (name : String) (hvw : v.Rewritten w) :
    (c.bindGlobal name v).Rewritten (d.bindGlobal name w) :=
  ⟨h.globals.put name hvw, h.frames, h.maxDepth⟩

/-- A name may be bound in the innermost call (`Context.bind`) on both sides. -/
theorem bind (h : c.Rewritten d) (name : String) (hvw : v.Rewritten w) :
    (c.bind name v).Rewritten (d.bind name w) := by
  obtain ⟨globals, frames, limit⟩ := c
  obtain ⟨globals', frames', limit'⟩ := d
  obtain ⟨hglobals, hframes, hlimit⟩ := h
  cases hframes with
  | nil => exact ⟨hglobals.put name hvw, .nil, hlimit⟩
  | cons hframe hframes =>
    exact ⟨hglobals, .cons ⟨hframe.activation, hframe.bindings.put name hvw⟩ hframes, hlimit⟩

/-- A variable is set (`Context.set`) on both sides, or refused on both. -/
theorem set (h : c.Rewritten d) (name : String) (type : Option TypeName) (hvw : v.Rewritten w) :
    Except.Rewritten Context.Rewritten (c.set name type v) (d.set name type w) := by
  cases type with
  | some type =>
    rw [Context.set, Context.set, Context.declare, Context.declare, hvw.value.fits,
      hvw.value.kind]
    split
    · exact .ok (h.bind name hvw)
    · exact .error
  | none =>
    have hlookup := h.lookup? name
    rw [Context.set, Context.set, Context.assign, Context.assign,
      Located.isSome_of_rewritten (h.current.get? name)]
    generalize c.lookup? name = r, d.lookup? name = s at hlookup
    cases hlookup with
    | none => exact .error
    | some hpresent =>
      simp only [hpresent.value.kind, hvw.value.kind]
      split
      · refine .ok ?_
        -- Both bind the name in the innermost call, or both do so globally.
        split
        · exact h.bind name hvw
        · exact h.bindGlobal name hvw
      · exact .error

/-- A function may be defined (`Context.declareFunction`) on both sides, with bodies of which one is
rewritten into the other. -/
theorem declareFunction (h : c.Rewritten d) {body body' : Block}
    (hbody : Rewrites true (.block body) (.block body')) (ident : Ident) (params : List Param)
    (returns : TypeName) :
    (c.declareFunction ⟨ident, params, returns, body⟩).Rewritten
      (d.declareFunction ⟨ident, params, returns, body'⟩) :=
  h.bindGlobal ident.name ⟨.function hbody h.capture, rfl⟩

/-- A call is entered (`Context.enter`) on both sides, or refused on both. -/
theorem enter (h : c.Rewritten d) {f g : Closure} (hfg : f.Rewritten g) (site : Position) :
    Except.Rewritten Context.Rewritten (c.enter f site) (d.enter g site) := by
  rw [Context.enter, Context.enter, hfg.ident, h.maxDepth, Context.depth, Context.depth,
    h.frames.length_eq]
  split
  · exact .ok ⟨h.globals, .cons ⟨rfl, hfg.captured⟩ h.frames, rfl⟩
  · exact .error

/-- A call is left (`Context.leave`) on both sides, or there is none on both. -/
theorem leave (h : c.Rewritten d) : Except.Rewritten Context.Rewritten c.leave d.leave := by
  obtain ⟨globals, frames, limit⟩ := c
  obtain ⟨globals', frames', limit'⟩ := d
  obtain ⟨hglobals, hframes, hlimit⟩ := h
  cases hframes with
  | nil => exact .error
  | cons _ hframes => exact .ok ⟨hglobals, hframes, hlimit⟩

/-- Parameters may be bound (`Closure.bindParams`) to arguments that correspond. -/
theorem bindParams (h : c.Rewritten d) (params : List Param) {vs ws : List Located}
    (hvw : List.Forall₂ Located.Rewritten vs ws) :
    (Closure.bindParams params vs c).Rewritten (Closure.bindParams params ws d) := by
  induction params generalizing vs ws c d with
  | nil => exact h
  | cons param params ih =>
    cases hvw with
    | nil => exact h
    | cons hfirst hothers => exact ih (h.bind param.ident.name hfirst) hothers

/-- The calls in progress are listed alike (`Context.traceback`): they have the same names and
sites. -/
theorem traceback (h : c.Rewritten d) : c.traceback = d.traceback := by
  have hframes := h.frames
  rw [Context.traceback, Context.traceback]
  generalize c.frames = frames, d.frames = frames' at hframes
  induction hframes with
  | nil => rfl
  | cons hframe _ ih =>
    rw [List.map_cons, List.map_cons, hframe.activation, List.cons_append, List.cons_append, ih]

end Context.Rewritten

/-- Machines that have printed the same, in contexts that correspond (`Context.Rewritten`). -/
structure Machine.Rewritten (m n : Machine) : Prop where
  context : m.context.Rewritten n.context
  printed : m.printed = n.printed

theorem Machine.Rewritten.refl (m : Machine) : m.Rewritten m := ⟨.refl _, rfl⟩

/-- The same fault may be given the same place (`Fault.at?`). -/
theorem Fault.at?_congr {e f : Fault} (position : Option Position) (h : e = f) :
    e.at? position = f.at? position := by
  rw [h]

/-- What two runs have in common of which one is rewritten (`Machine.Rewritten`). Their faults are
the same. -/
def Link.rewriting : Link where
  machines := Machine.Rewritten
  faults := (· = ·)
  refl := Eq.refl
  placed := @Fault.at?_congr

end UnitScript
