import UnitScript.Proofs.Calls.Stack
import UnitScript.Proofs.Machine.Judgement

/-!
# More fuel

Fuel bounds the rounds of a loop and the calls inside one another. A run that does not come to its
end is the same with more of it: each evaluation inside is either cut short with less fuel, and then
the whole one is, or it is the same (`Eval.Extends`). So what a program comes to, if it comes to
anything, does not depend on the fuel (`Block.run_eq_of_le`).
-/

namespace UnitScript

/-- The first computation runs out of fuel (`Outcome.outOfFuel`), or the second is the same and the
result is good. -/
def Eval.Extends {α : Type} (good : α → Prop) (x y : Eval α) : Prop :=
  ∀ m, (x m).1 = .outOfFuel ∨ y m = x m ∧ ∀ a, (x m).1 = .ok a → good a

namespace Eval.Extends

variable {α β : Type} {good : α → Prop} {fine : β → Prop} {x y : Eval α}

/-- A computation is the same as itself, and so with more fuel if its results are good. -/
theorem refl (x : Eval α) (h : ∀ m a, (x m).1 = .ok a → good a) : Extends good x x :=
  fun m => .inr ⟨rfl, h m⟩

/-- One computation after another: where the first runs out of fuel, so do both
(`Eval.bind_of_outOfFuel`). -/
theorem bind {f g : α → Eval β} (h : Extends good x y)
    (hfg : ∀ a, good a → Extends fine (f a) (g a)) : Extends fine (x >>= f) (y >>= g) := by
  intro m
  rcases hx : x m with ⟨a | e | _, m'⟩
  · rcases h m with hfuel | ⟨hsame, hgood⟩
    · rw [hx] at hfuel
      cases hfuel
    · rw [bind_of_ok hx, bind_of_ok (hsame.trans hx)]
      exact hfg a (hgood a (by rw [hx])) m'
  · rcases h m with hfuel | ⟨hsame, -⟩
    · rw [hx] at hfuel
      cases hfuel
    · rw [bind_of_fault hx, bind_of_fault (hsame.trans hx)]
      exact .inr ⟨rfl, nofun⟩
  · rw [bind_of_outOfFuel hx]
    exact .inl rfl

/-- Faults are given the calls in progress (`Eval.traced`) on either side. -/
theorem traced (h : Extends good x y) : Extends good (Eval.traced x) (Eval.traced y) := by
  intro m
  rcases h m with hfuel | ⟨hsame, hgood⟩
  · have hx : x m = (.outOfFuel, (x m).2) := Prod.ext hfuel rfl
    refine .inl ?_
    rw [Eval.traced, hx]
  · refine .inr ⟨traced_congr hsame, fun a ha => hgood a ?_⟩
    exact congrArg Prod.fst (traced_eq_ok.1 (Prod.ext ha rfl))

/-- Faults are given a place (`Eval.located`) on either side. -/
theorem located (position : Position) (h : Extends good x y) :
    Extends good (Eval.located position x) (Eval.located position y) := by
  intro m
  rcases h m with hfuel | ⟨hsame, hgood⟩
  · have hx : x m = (.outOfFuel, (x m).2) := Prod.ext hfuel rfl
    refine .inl ?_
    rw [Eval.located, hx]
  · refine .inr ⟨?_, fun a ha => hgood a ?_⟩
    · unfold Eval.located
      rw [hsame]
    · exact congrArg Prod.fst (located_eq_ok.1 (Prod.ext ha rfl))

/-- A loop may go on for more rounds (`Eval.repeatWhile`) with more fuel, and is the same if it ends
within the first ones. -/
theorem repeatWhile {condition condition' : Eval Bool} {body body' : Eval (Option α)} {done : α}
    (hcondition : Extends (fun _ => True) condition condition')
    (hbody : Extends (fun o => ∀ a ∈ o, good a) body body') (hdone : good done)
    {rounds rounds' : Nat} (hle : rounds ≤ rounds') :
    Extends good (Eval.repeatWhile condition body done rounds)
      (Eval.repeatWhile condition' body' done rounds') := by
  induction rounds generalizing rounds' with
  | zero => exact fun _ => .inl rfl
  | succ rounds ih =>
    obtain ⟨more, rfl⟩ := Nat.exists_eq_add_of_le hle
    rw [Nat.succ_add]
    unfold Eval.repeatWhile
    refine hcondition.bind fun holds _ => ?_
    cases holds with
    | false => exact .refl _ fun _ _ ha => by cases ha; exact hdone
    | true =>
      refine hbody.bind fun result hresult => ?_
      cases result with
      | none => exact ih (Nat.le_add_right _ _)
      | some a => exact .refl _ fun _ _ ha => by cases ha; exact hresult _ rfl

/-- A call that is entered is left where it was (`Discipline.calls`), so that the fuel makes no
difference to that. -/
theorem entered {x y : Eval (Option Located)} {good : Option Located → Prop}
    (h : Extends good x y) (hx : x.Obeys .calls) (hy : y.Obeys .calls) (f : Closure)
    (site : Position) (position : Option Position) :
    Extends good (Eval.change (·.enter f site) position >>= fun _ => Eval.leaving x)
      (Eval.change (·.enter f site) position >>= fun _ => Eval.leaving y) := by
  intro m
  cases henter : m.context.enter f site with
  | error cause =>
    rw [entered_of_error henter, entered_of_error henter]
    exact .inr ⟨rfl, nofun⟩
  | ok c =>
    rw [entered_of_ok henter (hx.steps { m with context := c }),
      entered_of_ok henter (hy.steps { m with context := c })]
    rcases h { m with context := c } with hfuel | ⟨hsame, hgood⟩
    · exact .inl hfuel
    · exact .inr ⟨by rw [hsame], hgood⟩

end Eval.Extends

/-- Calls are the same with more fuel. -/
def Caller.Extends (run run' : Caller) : Prop :=
  ∀ f args site, Eval.Extends (fun _ => True) (run f args site) (run' f args site)

/-- That more fuel makes no difference (`Eval.Extends`) is a judgement on evaluations. -/
def Judgement.fuel {rounds rounds' : Nat} {run run' : Caller} (hle : rounds ≤ rounds')
    (hrun : run.Extends run') : Judgement rounds rounds' run run' where
  forms _ := True
  values _ _ := True
  functions _ := True
  holds := Eval.Extends
  pure h := .refl _ fun _ _ ha => by cases ha; exact h
  bind h hfg := h.bind hfg
  fail _ _ := .refl _ nofun
  number _ := trivial
  bool _ := trivial
  string _ := trivial
  unit _ := trivial
  quantity _ := trivial
  unary _ _ := trivial
  binary _ _ _ := trivial
  breaking _ := trivial
  continuing _ := trivial
  returnNothing := trivial
  returning _ := trivial
  handedOn _ := trivial
  read _ _ := .refl _ fun _ _ _ => trivial
  callee _ _ := .refl _ fun _ _ _ _ _ => trivial
  print _ := .refl _ fun _ _ _ => trivial
  set _ _ _ := .refl _ fun _ _ _ => trivial
  declareFunction _ _ := .refl _ fun _ _ _ => trivial
  loop _ hcondition hbody hdone := .repeatWhile hcondition hbody hdone hle
  call site _ _ m := (hrun _ _ site m).imp id fun ⟨hsame, _⟩ => ⟨hsame, fun _ _ _ _ => trivial⟩

/-- A block is evaluated in the same way with more fuel (`Judgement.fuel`), if calls are run so. -/
theorem Block.evaluate_extends {rounds rounds' : Nat} {run run' : Caller} (hle : rounds ≤ rounds')
    (hrun : run.Extends run') (b : Block) :
    Eval.Extends (ComesTo fun _ => True) (b.evaluate rounds run) (b.evaluate rounds' run') := by
  have hallows : (Judgement.fuel hle hrun).Allows (b.occurrences false) := fun _ _ => trivial
  exact b.evaluate_judged (Judgement.fuel hle hrun) hallows

/-- Calls are run in the same way with more fuel, by induction on the fuel (`callWithin`). -/
theorem callWithin_extends {fuel fuel' : Nat} (hle : fuel ≤ fuel') :
    (callWithin fuel).Extends (callWithin fuel') := by
  induction fuel generalizing fuel' with
  | zero => exact fun _ _ _ _ => .inl rfl
  | succ fuel ih =>
    intro f args site
    obtain ⟨more, rfl⟩ := Nat.exists_eq_add_of_le hle
    have hless : fuel ≤ fuel + more := Nat.le_add_right _ _
    rw [Nat.succ_add, callWithin_succ, callWithin_succ, Closure.call_eq, Closure.call_eq]
    have hbody := f.declaration.body.evaluate_extends hless (ih hless)
    have hinside (n : Nat) : (Closure.inside (f.declaration.body.evaluate n (callWithin n)) f args
        site).Obeys .calls :=
      Closure.inside_obeys (Block.evaluate_obeys (callWithin_obeys n) _) f args site
    refine Eval.Extends.bind (.refl _ fun _ _ _ => trivial) fun _ _ => ?_
    refine .entered ?_ (hinside _) (hinside _) f site _
    refine .traced (.located site (Eval.Extends.bind (.refl _ fun _ _ _ => trivial) fun _ _ => ?_))
    exact hbody.bind fun _ _ => .refl _ fun _ _ _ => trivial

/-- A program that does not run out of fuel comes to the same with more of it (`Block.run`), so the
fuel only tells runs that end from runs that do not. -/
theorem Block.run_eq_of_le {fuel fuel' : Nat} (hle : fuel ≤ fuel') {program : Block} {m : Machine}
    (h : (program.run fuel m).1 ≠ .outOfFuel) : program.run fuel' m = program.run fuel m := by
  have hextends : Eval.Extends (fun _ => True) (program.run fuel) (program.run fuel') :=
    .traced ((program.evaluate_extends hle (callWithin_extends hle)).bind fun _ _ =>
      .refl _ fun _ _ _ => trivial)
  rcases hextends m with hfuel | ⟨hsame, -⟩
  · exact absurd hfuel h
  · exact hsame

end UnitScript
