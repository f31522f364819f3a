import UnitScript.Proofs.Machine
import UnitScript.Proofs.Value.Refusals

/-!
# Computations that do not look at the machine

Many steps of an evaluation only check the values they are given: they have a result without any
effect, or a fault (`Eval.Immediate`). What such a step comes to is the same on every machine, so
that whatever is said of evaluations is settled for these steps at once.
-/

namespace UnitScript

/-- A computation with a good result and no effect, or with a fault other than that of leaving where
no call is in progress (`Cause.noCallToLeave`). Whatever is said of runs in this development holds
of such computations at once. -/
inductive Eval.Immediate {α : Type} (good : α → Prop) : Eval α → Prop
  | pure {a : α} : good a → Immediate good (Pure.pure a)
  | fail {cause : Cause} (h : cause.kind ≠ .noCallToLeave) (position : Option Position) :
    Immediate good (Eval.fail cause position)

namespace Eval.Immediate

variable {α β : Type} {good : α → Prop} {x : Eval α}

/-- Results that are good in one way may be good in another, if the one implies the other. -/
theorem mono {better : α → Prop} (h : Immediate good x) (hle : ∀ a, good a → better a) :
    Immediate better x := by
  cases h with
  | pure ha => exact .pure (hle _ ha)
  | fail h position => exact .fail h position

/-- Where there is a result, it is good, and the machine is as it was (`Eval.Immediate`). -/
theorem of_eq_ok (h : Immediate good x) {m m' : Machine} {a : α} (hx : x m = (.ok a, m')) :
    good a ∧ m' = m := by
  cases h with
  | pure ha =>
    cases hx
    exact ⟨ha, rfl⟩
  | fail => cases hx

/-- A fault names no calls (`Fault.traceback`), and the machine is as it was. -/
theorem of_eq_fault (h : Immediate good x) {m m' : Machine} {e : Fault}
    (hx : x m = (.fault e, m')) : e.traceback = [] ∧ m' = m := by
  cases h with
  | pure ha => cases hx
  | fail =>
    cases hx
    exact ⟨rfl, rfl⟩

/-- Something that is refused or not (`Eval.attempt`), for any cause but that of leaving. -/
theorem attempt {result : Except Cause α} (place : Cause → Option Position)
    (h : ∀ cause, result = .error cause → cause.kind ≠ .noCallToLeave) :
    Immediate (fun a => result = .ok a) (Eval.attempt result place) := by
  unfold Eval.attempt
  cases result with
  | ok a => exact .pure rfl
  | error cause => exact .fail (h cause rfl) _

/-- Something that operands may be refused for (`Refuses`). -/
theorem of_refuses {result : Except Cause α} (place : Cause → Option Position)
    (h : Refuses result) : Immediate (fun a => result = .ok a) (Eval.attempt result place) := by
  refine .attempt place fun cause hcause hkind => ?_
  have hof := h.ofOperands hcause
  rw [hkind] at hof
  cases hof

end Eval.Immediate

/-! ## What values are needed for -/

/-- A truth value is read off a condition (`Located.truth`), whatever the machine is. -/
theorem Located.truth_immediate (v : Located) : v.truth.Immediate fun _ => True := by
  unfold Located.truth
  split
  · exact .pure trivial
  · exact .fail FaultKind.noConfusion _

/-- The magnitude of a quantity (`Located.magnitude`), whatever the machine is. -/
theorem Located.magnitude_immediate (v : Located) : v.magnitude.Immediate fun _ => True := by
  unfold Located.magnitude
  split
  · exact .pure trivial
  · exact .fail FaultKind.noConfusion _

/-- The unit of a quantity (`Located.units`), whatever the machine is. -/
theorem Located.units_immediate (v : Located) : v.units.Immediate fun _ => True := by
  unfold Located.units
  split
  · exact .pure trivial
  · exact .fail FaultKind.noConfusion _

/-! ## What calls check -/

/-- As many arguments as a function takes (`Callable.arity`) are let through, and any other number
is refused. -/
theorem checkArity_cases (f : Callable) (args : List Located) (site : Position) :
    args.length = f.arity ∧ checkArity f args site = pure () ∨
      args.length ≠ f.arity ∧ ∃ cause position,
        (cause.kind = .tooFewArguments ∨ cause.kind = .tooManyArguments) ∧
          checkArity f args site = Eval.fail cause position := by
  unfold checkArity
  split
  · next hlt => exact .inr ⟨Nat.ne_of_lt hlt, _, _, .inl rfl, rfl⟩
  · split
    · next hgt => exact .inr ⟨Nat.ne_of_gt hgt, _, _, .inr rfl, rfl⟩
    · next hge hle =>
      exact .inl ⟨Nat.le_antisymm (Nat.not_lt.1 hle) (Nat.not_lt.1 hge), rfl⟩

/-- The number of arguments is checked (`checkArity`): if they are let through, they are as many as
the function takes. -/
theorem checkArity_immediate (f : Callable) (args : List Located) (site : Position) :
    (checkArity f args site).Immediate fun _ => args.length = f.arity := by
  rcases checkArity_cases f args site with ⟨hlength, h⟩ | ⟨-, cause, position, hkind, h⟩
  · rw [h]
    exact .pure hlength
  · rw [h]
    refine .fail (fun hleave => ?_) position
    rcases hkind with hkind | hkind
    · cases hkind.symm.trans hleave
    · cases hkind.symm.trans hleave

namespace Closure

/-- Arguments are let through if each of them fits the parameter it is for (`Value.fits`), and
refused otherwise. -/
theorem checkArguments_cases (f : Closure) (params : List Param) (args : List Located) :
    (∀ p ∈ args.zip params, p.1.value.fits p.2.type = true) ∧
        f.checkArguments params args = pure () ∨
      (∃ p ∈ args.zip params, p.1.value.fits p.2.type = false) ∧
        ∃ cause position, cause.kind = .argumentMismatch ∧
          f.checkArguments params args = Eval.fail cause position := by
  induction params generalizing args with
  | nil =>
    have hnone : args.zip ([] : List Param) = [] := List.zip_nil_right
    rw [hnone]
    exact .inl ⟨nofun, rfl⟩
  | cons param params ih =>
    cases args with
    | nil => exact .inl ⟨nofun, rfl⟩
    | cons arg args =>
      rw [List.zip_cons_cons]
      unfold checkArguments
      split
      · next hfits =>
        rcases ih args with ⟨hall, hcheck⟩ | ⟨⟨p, hp, hmisfit⟩, hcheck⟩
        · exact .inl ⟨List.forall_mem_cons.2 ⟨hfits, hall⟩, hcheck⟩
        · exact .inr ⟨⟨p, List.mem_cons_of_mem _ hp, hmisfit⟩, hcheck⟩
      · next hmisfit =>
        refine .inr ⟨⟨(arg, param), List.mem_cons_self, ?_⟩, _, _, rfl, rfl⟩
        exact Bool.eq_false_iff.2 hmisfit

/-- The kinds of arguments are checked (`Closure.checkArguments`), whatever the machine is. -/
theorem checkArguments_immediate (f : Closure) (params : List Param) (args : List Located) :
    (f.checkArguments params args).Immediate fun _ => True := by
  rcases f.checkArguments_cases params args with ⟨-, h⟩ | ⟨-, cause, position, hkind, h⟩
  · rw [h]
    exact .pure trivial
  · rw [h]
    refine .fail (fun hleave => ?_) position
    cases hkind.symm.trans hleave

/-- What a function gives back is checked (`Closure.checkPayload`), whatever the machine is. -/
theorem checkPayload_immediate {good : Option Located → Prop} (f : Closure)
    {payload : Option Located} (hpayload : good payload) :
    (f.checkPayload payload).Immediate good := by
  simp only [checkPayload]
  split
  · split
    · exact .pure hpayload
    · exact .fail FaultKind.noConfusion _
  · split
    · exact .pure hpayload
    · exact .fail FaultKind.noConfusion _

/-- What the body of a function came to is checked (`Closure.checkResult`), whatever the machine
is. -/
theorem checkResult_immediate (f : Closure) (result : Option Located) :
    (f.checkResult result).Immediate fun _ => True := by
  unfold checkResult
  split
  · exact f.checkPayload_immediate trivial
  · split
    · exact .fail FaultKind.noConfusion _
    · exact f.checkPayload_immediate trivial
  · exact f.checkPayload_immediate trivial

end Closure

end UnitScript
