import UnitScript.Proofs.Calls.Moments
import UnitScript.Proofs.Context.InPlace

/-!
# What a run does to the storage

The evaluator changes contexts, and refuses an operation before it has changed anything. A storage
of numbered scopes is changed in place. This module follows both through whole evaluations: what an
evaluation does to its context are operations that the storage of the context performs in place
(`Discipline.storage`, `callWithin_storage`), so everything that `Storage.Runs` and
`Storage.Reaches` preserve holds along a run (`Moment.Reaches.storage`).
-/

namespace UnitScript

/-- The parameters of a call are bound by operations in place, one `Operation.bind` for each of
them. -/
theorem Closure.bindParams_runs (params : List Param) (args : List Located) (c : Context) :
    c.storage.Runs (bindParams params args c).storage := by
  induction params generalizing args c with
  | nil => exact .refl
  | cons param params ih =>
    cases args with
    | nil => exact .refl
    | cons arg args => exact (c.runs_bind param.ident.name arg).trans (ih args _)

/-- The discipline of operations in place: an evaluation takes the storage of its context to
another one as `Storage.Runs` does, and it may fail for any cause. -/
def Discipline.storage : Discipline where
  steps m n := m.context.storage.Runs n.context.storage
  causes _ := True
  refl _ := .refl
  trans h h' := h.trans h'
  print _ _ := .refl
  set h := Context.runs_of_set h
  declareFunction m declaration := m.context.runs_define ⟨declaration, m.context.capture⟩
  ordinary _ := trivial

/-- A call enters, runs its body and leaves in place, if the body is run in place. It is never
refused to leave, since the body leaves the calls in progress as they are (`Discipline.calls`). -/
theorem Closure.call_storage {body : Eval (Option Located)} (hbody : body.Obeys .storage)
    (hcalls : body.Obeys .calls) (f : Closure) (args : List Located) (site : Position) :
    (call body f args site).Obeys .storage := by
  rw [call_eq]
  refine Eval.Obeys.bind (.of_immediate (f.checkArguments_immediate _ args)) fun _ => ?_
  refine ⟨fun m => ?_, fun _ => trivial⟩
  cases henter : m.context.enter f site with
  | error cause =>
    rw [Eval.entered_of_error henter]
    exact .refl
  | ok c =>
    have hinside := inside_obeys_of_params hbody f args site fun m =>
      bindParams_runs f.declaration.params args m.context
    have hsame := (inside_obeys hcalls f args site).steps { m with context := c }
    rw [Eval.entered_of_ok henter hsame]
    exact .call .refl (Context.storage_enter_of_ok henter)
      (hinside.steps { m with context := c })
      (Context.storage_leave_of_ok (Context.leave_of_enter henter hsame))

/-- Calls are run in place (`Discipline.storage`), however deep they are inside one another, by
induction on the fuel. -/
theorem callWithin_storage (fuel : Nat) (f : Closure) (args : List Located) (site : Position) :
    (callWithin fuel f args site).Obeys .storage := by
  induction fuel generalizing f args site with
  | zero => exact .outOfFuel
  | succ fuel ih =>
    exact Closure.call_storage (Block.evaluate_obeys ih _)
      (Block.evaluate_obeys (callWithin_obeys fuel) _) f args site

namespace Moment

variable {a b : Moment}

/-- Where an evaluation begins inside another one (`Moment.Begins`), operations have been performed
in place up to there, the entry of a call among them. -/
theorem Begins.storage (h : a.Begins b) :
    a.machine.context.storage.Reaches b.machine.context.storage := by
  obtain ⟨n, task, m⟩ := a
  cases task with
  | call f args site =>
    obtain ⟨-, c, -, -, henter, rfl⟩ := h.of_call
    exact .entered (.runs .refl) (Context.storage_enter_of_ok henter)
      (Closure.bindParams_runs f.declaration.params args c)
  | node | arguments | items | block | alternatives | loop =>
    exact .runs (h.steps callWithin_storage id)

/-- Whatever begins in the course of a run (`Moment.Reaches`) begins with what operations in place
have made of the storage that the run began with. -/
theorem Reaches.storage (h : a.Reaches b) :
    a.machine.context.storage.Reaches b.machine.context.storage := by
  induction h with
  | refl => exact .runs .refl
  | tail _ hbegins ih => exact ih.trans hbegins.storage

end Moment

end UnitScript
