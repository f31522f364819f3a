import UnitScript.Context

/-!
# Computations on a machine

A machine is a context and the lines printed so far. An `Eval` computation takes a machine to
another one and to an outcome: a result, a fault, or the news that it was not given enough fuel.
Whatever the outcome, what was printed and bound before stays.
-/

namespace UnitScript

/-- The state of a run: what it knows (`Context`), and the lines that it has printed. -/
structure Machine where
  context : Context
  printed : Array String

/-- A machine on which nothing has run, with room for so many calls (`Context.initial`). -/
def Machine.initial (maxDepth : Nat) : Machine := ⟨.initial maxDepth, #[]⟩

/-- How a computation ends. Being out of fuel is no fault, since it says nothing of the program. -/
inductive Outcome (α : Type) where
  | ok (result : α)
  | fault (fault : Fault)
  | outOfFuel

/-- A computation on a machine. Unlike in a stack of transformers, a `Fault` leaves the machine as
it is there, so that what was printed and bound before is kept. -/
def Eval (α : Type) := Machine → Outcome α × Machine

namespace Eval

variable {α β : Type}

/-- A result without any effect. -/
@[always_inline, inline] protected def pure (a : α) : Eval α := fun machine => (.ok a, machine)

/-- One computation after another, which is skipped where the first has no result. -/
@[always_inline, inline] protected def bind (x : Eval α) (f : α → Eval β) : Eval β := fun machine =>
  match x machine with
  | (.ok a, machine) => f a machine
  | (.fault e, machine) => (.fault e, machine)
  | (.outOfFuel, machine) => (.outOfFuel, machine)

instance : Monad Eval where
  pure := Eval.pure
  bind := Eval.bind

/-- A computation whose result is passed on as it is. -/
theorem bind_pure (x : Eval α) : Eval.bind x Eval.pure = x := by
  funext machine
  unfold Eval.bind Eval.pure
  rcases x machine with ⟨_ | _ | _, _⟩ <;> rfl

/-- Computations can be grouped either way. -/
theorem bind_assoc {γ : Type} (x : Eval α) (f : α → Eval β) (g : β → Eval γ) :
    Eval.bind (Eval.bind x f) g = Eval.bind x fun a => Eval.bind (f a) g := by
  funext machine
  unfold Eval.bind
  rcases x machine with ⟨_ | _ | _, _⟩ <;> rfl

instance : LawfulMonad Eval :=
  LawfulMonad.mk' Eval bind_pure (fun _ _ => rfl) bind_assoc

/-- The end of the fuel, which is no fault (`Outcome.outOfFuel`). -/
def outOfFuel : Eval α := fun machine => (.outOfFuel, machine)

/-- A fault at a place. -/
def fail (cause : Cause) (position : Option Position) : Eval α := fun machine =>
  (.fault ((Fault.ofCause cause).at? position), machine)

/-- The result of something that can be refused, where the `Cause` tells the place of the fault. -/
def attempt (result : Except Cause α) (place : Cause → Option Position) : Eval α :=
  match result with
  | .ok a => pure a
  | .error cause => fail cause (place cause)

/-- What something in the context (`Context.read`, `Context.callee`) comes to. -/
def view (read : Context → Except Cause α) (position : Option Position) : Eval α := fun machine =>
  attempt (read machine.context) (fun _ => position) machine

/-- Changes the context (`Context.set`, `Context.enter`), unless that is refused. -/
def change (step : Context → Except Cause Context) (position : Option Position) : Eval Unit :=
  fun machine =>
    match step machine.context with
    | .ok context => (.ok (), { machine with context })
    | .error cause => fail cause position machine

/-- Prints a line. -/
def print (line : String) : Eval Unit := fun machine =>
  (.ok (), { machine with printed := machine.printed.push line })

/-- Adds the functions that are being run (`Context.traceback`) to a fault of a computation, if it
does not name any. -/
def traced (x : Eval α) : Eval α := fun machine =>
  match x machine with
  | (.fault e, machine) => (.fault (e.within machine.context.traceback), machine)
  | (outcome, machine) => (outcome, machine)

/-- Adds a place to a fault of a computation, if it does not name one (`Fault.at?`). -/
def located (position : Position) (x : Eval α) : Eval α := fun machine =>
  match x machine with
  | (.fault e, machine) => (.fault (e.at? (some position)), machine)
  | (outcome, machine) => (outcome, machine)

/-- Ends the innermost call (`Context.leave`) after a computation, whatever it came to. -/
def leaving (x : Eval α) : Eval α := fun machine =>
  let (outcome, machine) := x machine
  match machine.context.leave with
  | .ok context => (outcome, { machine with context })
  | .error cause => fail cause none machine

/-- Repeats a body as long as a condition holds, for a number of rounds. The body says whether to go
on or with what to stop, as `afterRound` does. -/
def repeatWhile (condition : Eval Bool) (body : Eval (Option α)) (done : α) : Nat → Eval α
  | 0 => outOfFuel
  | rounds + 1 => do
    if ← condition then
      match ← body with
      | some result => return result
      | none => repeatWhile condition body done rounds
    else return done

end Eval

end UnitScript
