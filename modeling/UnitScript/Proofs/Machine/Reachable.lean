import UnitScript.Proofs.Calls.Moments
import UnitScript.Proofs.Machine.Keeps

/-!
# Reachable machines

The machines that occur from the first program on: those on which an evaluation begins or ends, in
the course of the run of any program on a machine that was reached before
(`Machine.Reachable`). Programs may be any trees, may fail and may be cut short by the end of their
fuel. What a regime says of machines holds of all that are reachable if it holds where nothing has
run (`Machine.Reachable.machines`), since it goes on from moment to moment
(`Moment.Begins.keeps`).
-/

namespace UnitScript

section
variable {r : Regime}

/-- What a task is given is in order: the last result of statements, or the function that is called
and its arguments (`Regime.arguments`). -/
def Task.Keeps (r : Regime) : Task → Prop
  | .items last _ => r.results last
  | .call f args _ => r.values (.function f) ∧ r.arguments args
  | _ => True

/-- A round of a loop (`afterRound`) keeps to a regime, as its body does. -/
theorem Block.round_keeps (b : Block) (n : Nat) :
    (afterRound <$> b.evaluate n (callWithin n)).Keeps r fun o => ∀ a ∈ o, r.results a :=
  (Block.evaluate_keeps (callWithin_keeps n) b).map fun _ => afterRound_results

/-- Arguments that are let through (`Closure.checkArguments`) fit. -/
theorem Closure.fits_of_checkArguments {f : Closure} {params : List Param} {args : List Located}
    {m : Machine} (h : f.checkArguments params args m = (.ok (), m)) :
    ∀ p ∈ args.zip params, p.1.value.fits p.2.type = true := by
  rcases f.checkArguments_cases params args with ⟨hfits, -⟩ | ⟨-, cause, position, -, hfail⟩
  · exact hfits
  · rw [hfail] at h
    cases h

namespace Moment

/-- A task in order (`Task.Keeps`) begins on a machine in order (`Regime.machines`). -/
structure Keeps (r : Regime) (a : Moment) : Prop where
  machine : r.machines a.machine
  task : a.task.Keeps r

/-- What begins in order ends in order (`Moment.ending`). -/
theorem Keeps.ending {a : Moment} (h : a.Keeps r) : r.machines a.ending := by
  obtain ⟨n, task, m⟩ := a
  obtain ⟨hm, htask⟩ := h
  have hrun := callWithin_keeps (r := r) n
  cases task with
  | node e => exact (e.run_keeps n).machines hm
  | arguments es => exact (Node.evaluateArgs_keeps hrun es).machines hm
  | items last es => exact (Node.evaluateItems_keeps hrun es htask).machines hm
  | block b => exact (Block.evaluate_keeps hrun b).machines hm
  | alternatives a => exact (Alternatives.evaluate_keeps hrun a).machines hm
  | loop condition body rounds =>
    have hcondition := condition.holds_keeps (condition.run_keeps (r := r) n)
    exact (Eval.Keeps.repeatWhile hcondition (body.round_keeps n) r.results_none rounds).machines hm
  | call f args site => exact (hrun site htask.1 htask.2).machines hm

/-- What begins inside an evaluation in order is in order, with one case for each of `Begins`.
Whatever was evaluated before it keeps to the regime (`Eval.Keeps`). -/
theorem Begins.keeps {a b : Moment} (h : a.Begins b) (ha : a.Keeps r) : b.Keeps r := by
  obtain ⟨hm, htask⟩ := ha
  have hdemand (e : Node) (n : Nat) := e.demand_keeps (e.run_keeps (r := r) n)
  have hholds (e : Node) (n : Nat) := e.holds_keeps (e.run_keeps (r := r) n)
  have hmagnitude (e : Node) (n : Nat) :
      (e.demand (e.run n) >>= Located.magnitude).Keeps r fun _ => True :=
    (hdemand e n).bind fun v _ => .of_immediate v.magnitude_immediate
  cases h with
  | magnitude | operand | left | assigned | chosen | loop | arguments | returned | nested
  | argument | item | otherwise | caseCondition | loopCondition => exact ⟨hm, trivial⟩
  | items => exact ⟨hm, r.results_none⟩
  | unit h => exact ⟨((hmagnitude _ _).of_eq_ok hm h).2, trivial⟩
  | right h => exact ⟨((hdemand _ _).of_eq_ok hm h).2, trivial⟩
  | call hcallee hargs _ =>
    obtain ⟨hvs, hm'⟩ := (Node.evaluateArgs_keeps (callWithin_keeps _) _).of_eq_ok hm hargs
    exact ⟨hm', r.callee hm hcallee, hvs⟩
  | moreArguments h => exact ⟨((hdemand _ _).of_eq_ok hm h).2, trivial⟩
  | moreItems h _ =>
    obtain ⟨hresult, hm'⟩ := (Node.run_keeps _ _).of_eq_ok hm h
    exact ⟨hm', hresult⟩
  | caseBody h => exact ⟨((hholds _ _).of_eq_ok hm h).2, trivial⟩
  | caseOthers h => exact ⟨((hholds _ _).of_eq_ok hm h).2, trivial⟩
  | loopBody h => exact ⟨((hholds _ _).of_eq_ok hm h).2, trivial⟩
  | moreRounds hcondition hbody =>
    have hm' := ((hholds _ _).of_eq_ok hm hcondition).2
    exact ⟨((Block.round_keeps _ _).of_eq_ok hm' hbody).2, trivial⟩
  | body hcheck henter =>
    refine ⟨Closure.bindParams_keeps ?_ htask.2 (r.enter hm htask.1 henter), trivial⟩
    exact Closure.fits_of_checkArguments hcheck

/-- A regime is kept throughout a run (`Moment.Reaches`), by induction on how the moment is
reached. -/
theorem Reaches.keeps {a b : Moment} (h : a.Reaches b) (ha : a.Keeps r) : b.Keeps r := by
  induction h with
  | refl => exact ha
  | tail _ hstep ih => exact hstep.keeps ih

end Moment

end

namespace Eval

variable {α β : Type} {x : Eval α} {m : Machine}

/-- The calls that a fault is given (`Eval.traced`) are no effect on the machine. -/
theorem traced_machine : (Eval.traced x m).2 = (x m).2 := by
  unfold Eval.traced
  split
  all_goals
    next h => rw [h]

/-- Nor has a computation one that does not look at the machine (`Eval.Immediate`). -/
theorem bind_immediate_machine {f : α → Eval β} (h : ∀ a, (f a).Immediate fun _ => True) :
    ((x >>= f) m).2 = (x m).2 := by
  rcases hx : x m with ⟨a | e | _, m'⟩
  · rw [bind_of_ok hx]
    have hfa := h a
    generalize f a = y at hfa
    cases hfa with
    | pure => rfl
    | fail => rfl
  · rw [bind_of_fault hx]
  · rw [bind_of_outOfFuel hx]

end Eval

/-- A machine that occurs when programs are run one after the other, between them or in the course
of one. The programs may be any trees, whether or not they can be read from a text;
`Machine.Reached` is the narrower notion for those that can. -/
inductive Machine.Reachable : Machine → Prop
  /-- Nothing has run. -/
  | initial {maxDepth : Nat} : Reachable (.initial maxDepth)
  /-- Something begins in the course of a program (`Moment.Reaches`). -/
  | beginning {m : Machine} {fuel : Nat} {b : Block} {a : Moment} : Reachable m →
    Moment.Reaches ⟨fuel, .block b, m⟩ a → Reachable a.machine
  /-- It ends (`Moment.ending`), with whatever outcome. -/
  | ending {m : Machine} {fuel : Nat} {b : Block} {a : Moment} : Reachable m →
    Moment.Reaches ⟨fuel, .block b, m⟩ a → Reachable a.ending

namespace Machine.Reachable

variable {m : Machine}

/-- What a regime says where nothing has run holds wherever something has (`Reaches.keeps`,
`Keeps.ending`). -/
theorem machines {r : Regime} (hinitial : ∀ maxDepth, r.machines (.initial maxDepth))
    (h : m.Reachable) : r.machines m := by
  induction h with
  | initial => exact hinitial _
  | beginning _ hreaches ih => exact (hreaches.keeps ⟨ih, trivial⟩).machine
  | ending _ hreaches ih => exact (hreaches.keeps ⟨ih, trivial⟩).ending

/-- The machine that the run of a program (`Block.run`) leaves is reachable. -/
theorem run (h : m.Reachable) (fuel : Nat) (b : Block) : (b.run fuel m).2.Reachable := by
  have hblock : Reachable (b.evaluate fuel (callWithin fuel) m).2 := h.ending (b := b) .refl
  suffices hsame : (b.run fuel m).2 = (b.evaluate fuel (callWithin fuel) m).2 from hsame ▸ hblock
  rw [Block.run, Eval.traced_machine]
  refine Eval.bind_immediate_machine fun result => ?_
  split
  · exact .pure trivial
  · split
    · exact .fail FaultKind.noConfusion _
    · exact .pure trivial
  · exact .pure trivial

end Machine.Reachable

end UnitScript
