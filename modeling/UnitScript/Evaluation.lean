import UnitScript.Machine
import UnitScript.Value.Operation

/-!
# Evaluating programs

A node evaluates to a value or, where it is a statement without one, to nothing. Statements run in
order until one of them comes to a signal, which is handed on to the loop or the call that it is
meant for. `Node.evaluate` recurs on the tree; calls of functions, whose bodies are no part of it,
are run by a computation it is given. `callWithin n` is that computation: it allows `n` calls
inside one another, and `n` rounds of every loop.
-/

namespace UnitScript

/-- How calls of defined functions are run: with a function, its arguments and the place of the
call. The evaluator takes one, so that it can recurse over the tree alone; `callWithin` is the one
it is run with. -/
abbrev Caller := Closure → List Located → Position → Eval (Option Located)

/-! ## What values are needed for -/

namespace Located

/-- The truth value of a condition (`Value.truth?`), which is refused at its place if it has
none. -/
def truth (v : Located) : Eval Bool :=
  match v.value.truth? with
  | some b => return b
  | none => Eval.fail (.invalidCondition v.value.kind) v.position

/-- The magnitude of a quantity: what was evaluated has to be a number (`Value.number`). -/
def magnitude (v : Located) : Eval Number :=
  match v.value with
  | .number n => return n
  | other => Eval.fail (.invalidMagnitude other.kind) v.position

/-- The unit of a quantity: what was evaluated has to be a unit (`Value.unit`). -/
def units (v : Located) : Eval Units :=
  match v.value with
  | .unit u => return u
  | other => Eval.fail (.invalidUnit other.kind) v.position

/-- Refuses a signal that no loop takes up (`Cause.straySignal`). -/
def refuseStray {α : Type} (v : Located) : Eval α :=
  Eval.fail (.straySignal v.value.kind) v.position

end Located

/-- The value of a node, which has to have one (`Cause.missingValue`). This is how operands,
conditions and arguments are evaluated. -/
def Node.demand (node : Node) (x : Eval (Option Located)) : Eval Located := do
  match ← x with
  | some v => return v
  | none => Eval.fail .missingValue (some node.span.start)

/-- Whether a node holds as a condition: its value is needed (`Node.demand`), and has to be a truth
value. -/
def Node.holds (node : Node) (x : Eval (Option Located)) : Eval Bool := do
  (← node.demand x).truth

/-- A value at the place of a node, as a `Located` result. -/
def producing (span : Span) (x : Eval Value) : Eval (Option Located) := do
  return some ⟨← x, some span⟩

/-- Whether a result is a signal (`Value.isSignal`), so that the statements behind it are not
run. -/
def interrupts (result : Option Located) : Bool :=
  result.any (·.value.isSignal)

/-- The place of a fault that an operator has with its operands: that of the divisor if it is zero
(`Cause.divisionByZero`), and of the first operand otherwise. -/
def operandPosition (left right : Located) : Cause → Option Position
  | .divisionByZero .. => right.position
  | _ => left.position

/-- What a loop does after a round, given what its body came to. It stops at `break` and hands on
`return`. -/
def afterRound : Option Located → Option (Option Located)
  | some ⟨.breaking, _⟩ => some none
  | some ⟨.returning payload, span⟩ => some (some ⟨.returning payload, span⟩)
  | _ => none

/-- Refuses a number of arguments other than the one that a function takes (`Callable.arity`). -/
def checkArity (f : Callable) (args : List Located) (site : Position) : Eval Unit :=
  if args.length < f.arity then
    Eval.fail (.tooFewArguments f.name f.arity args.length) (some site)
  else if f.arity < args.length then
    Eval.fail (.tooManyArguments f.name f.arity args.length) (some site)
  else return ()

/-- Calls a function with arguments that it takes. A `Native` prints them here, a `Closure` is left
to the caller. -/
def Callable.call (f : Callable) (run : Caller) (args : List Located) (site : Position) :
    Eval (Option Located) :=
  match f with
  | .closure f => run f args site
  | .native _ => do
    args.forM fun arg => Eval.print arg.value.text
    return none

/-! ## Nodes and blocks -/

mutual

/-- Runs a statement or evaluates an expression. A statement may come to nothing, and a jump comes
to a signal, which is handed on as a value (`interrupts`, `afterRound`). -/
def Node.evaluate (rounds : Nat) (run : Caller) : Node → Eval (Option Located)
  | ⟨span, .int n⟩ => producing span (return .number (.int n))
  | ⟨span, .double x⟩ => producing span (return .number (.double x))
  | ⟨span, .string s⟩ => producing span (return .string s)
  | ⟨span, .bool b⟩ => producing span (return .bool b)
  | ⟨span, .unit numerator denominator⟩ => producing span do
    let units := Units.ofFactors (numerator.map Ident.name) (denominator.map Ident.name)
    return .unit (← Eval.attempt units fun _ => some span.start)
  | ⟨span, .phys magnitude unit⟩ => producing span do
    let magnitude ← (← magnitude.demand (magnitude.evaluate rounds run)).magnitude
    let units ← (← unit.demand (unit.evaluate rounds run)).units
    return .quantity ⟨magnitude, units⟩
  | ⟨span, .unary op operand⟩ => producing span do
    let v ← operand.demand (operand.evaluate rounds run)
    Eval.attempt (v.value.unary op) fun _ => some span.start
  | ⟨span, .binary op left right⟩ => producing span do
    let l ← left.demand (left.evaluate rounds run)
    let r ← right.demand (right.evaluate rounds run)
    Eval.attempt (l.value.binary op r.value) (operandPosition l r)
  | ⟨span, .variable ident⟩ => producing span do
    let v ← Eval.view (·.read ident.name) (some ident.span.start)
    return v.value
  | ⟨_, .assign type ident value⟩ => do
    let v ← value.demand (value.evaluate rounds run)
    Eval.change (·.set ident.name type v) (some ident.span.start)
    return none
  | ⟨_, .ifElse alternatives⟩ => alternatives.evaluate rounds run
  | ⟨_, .whileLoop condition body⟩ =>
    Eval.repeatWhile
      (condition.holds (condition.evaluate rounds run))
      (afterRound <$> body.evaluate rounds run) none rounds
  | ⟨_, .function ident params returns body⟩ => do
    Eval.change (fun context => .ok (context.declareFunction ⟨ident, params, returns, body⟩)) none
    return none
  | ⟨span, .call ident args⟩ => do
    let f ← Eval.view (·.callee ident.name) (some ident.span.start)
    let args ← Node.evaluateArgs rounds run args
    checkArity f args span.start
    let result ← f.call run args span.start
    return result.map fun v => ⟨v.value, some span⟩
  | ⟨span, .returnNothing⟩ => producing span (return .returning none)
  | ⟨span, .returnValue value⟩ => producing span do
    return .returning (some (← value.demand (value.evaluate rounds run)))
  | ⟨span, .breakLoop⟩ => producing span (return .breaking)
  | ⟨span, .continueLoop⟩ => producing span (return .continuing)
  | ⟨_, .block block⟩ => block.evaluate rounds run

/-- Evaluates the arguments of a call from left to right. Each of them has to come to a value
(`Node.demand`). -/
def Node.evaluateArgs (rounds : Nat) (run : Caller) : List Node → Eval (List Located)
  | [] => return []
  | arg :: args => do
    let first ← arg.demand (arg.evaluate rounds run)
    let others ← Node.evaluateArgs rounds run args
    return first :: others

/-- Runs statements in order until one comes to a signal (`interrupts`), after one that came to the
given result. -/
def Node.evaluateItems (rounds : Nat) (run : Caller) (last : Option Located) :
    List Node → Eval (Option Located)
  | [] => return last
  | item :: items => do
    let result ← item.evaluate rounds run
    if interrupts result then return result
    else Node.evaluateItems rounds run result items

/-- Runs the statements of a block (`Node.evaluateItems`). A block is no scope: what it binds stays
bound behind it. -/
def Block.evaluate (rounds : Nat) (run : Caller) : Block → Eval (Option Located)
  | ⟨_, items⟩ => Node.evaluateItems rounds run none items

/-- Runs the first alternative whose condition holds (`Node.holds`), or nothing if there is none. -/
def Alternatives.evaluate (rounds : Nat) (run : Caller) : Alternatives → Eval (Option Located)
  | .none => return none
  | .otherwise block => block.evaluate rounds run
  | .case condition body others => do
    if ← condition.holds (condition.evaluate rounds run) then
      body.evaluate rounds run
    else others.evaluate rounds run

end

/-! ## Calls of defined functions -/

namespace Closure

/-- Refuses arguments that do not fit the parameters they are for (`Value.fits`), the first of them
from the left. -/
def checkArguments (f : Closure) : List Param → List Located → Eval Unit
  | param :: params, arg :: args =>
    if arg.value.fits param.type then checkArguments f params args
    else
      Eval.fail (.argumentMismatch param.ident.name f.declaration.ident.name param.type
        arg.value.kind) arg.position
  | _, _ => return ()

/-- Binds parameters to arguments in the innermost scope, one after the other (`Context.bind`). -/
def bindParams : List Param → List Located → Context → Context
  | param :: params, arg :: args, context =>
    bindParams params args (context.bind param.ident.name arg)
  | _, _, context => context

/-- Refuses to give back anything but what the function declares (`Declaration.returns`). -/
def checkPayload (f : Closure) (payload : Option Located) : Eval (Option Located) :=
  let returns := f.declaration.returns
  let mismatch := Cause.returnMismatch f.declaration.ident.name returns
  match payload with
  | some v =>
    if v.value.fits returns then return some v
    else Eval.fail (mismatch (some v.value.kind)) v.position
  | none => if returns = .void then return none else Eval.fail (mismatch none) none

/-- What a function gives back, given what its body came to: `return` hands over its payload, other
signals are stray (`Located.refuseStray`), and without any signal the last result counts. -/
def checkResult (f : Closure) : Option Located → Eval (Option Located)
  | some ⟨.returning payload, _⟩ => f.checkPayload payload
  | some v => if v.value.isSignal then v.refuseStray else f.checkPayload (some v)
  | none => f.checkPayload none

/-- Runs a call of a function, with a given way to run its body. The arguments are checked before
the call is entered (`Context.enter`), it is left however its body ends (`Eval.leaving`), and the
result is checked while the call is still in progress. -/
def call (body : Eval (Option Located)) : Caller := fun f args site => do
  f.checkArguments f.declaration.params args
  Eval.change (·.enter f site) (some site)
  Eval.leaving <| Eval.traced <| Eval.located site do
    Eval.change (fun context => .ok (bindParams f.declaration.params args context)) none
    f.checkResult (← body)

end Closure

/-- Runs calls that are so many deep inside one another at most. The fuel is for loops as well: each
of them gets as many rounds. By `Block.run_eq_of_le` more fuel changes nothing where it is
enough. -/
def callWithin : Nat → Caller
  | 0 => fun _ _ _ => Eval.outOfFuel
  | fuel + 1 => fun f args site =>
    Closure.call (f.declaration.body.evaluate fuel (callWithin fuel)) f args site

/-! ## Whole runs -/

/-- Runs a node with so much fuel, and calls by `callWithin`. -/
def Node.run (fuel : Nat) (node : Node) : Eval (Option Located) :=
  node.evaluate fuel (callWithin fuel)

/-- Runs a whole program with so much fuel. It gives back what it returns, or what its last
statement came to; `break` and `continue` outside of loops are refused (`Located.refuseStray`). -/
def Block.run (fuel : Nat) (program : Block) : Eval (Option Located) :=
  Eval.traced do
    match ← program.evaluate fuel (callWithin fuel) with
    | some ⟨.returning payload, _⟩ => return payload
    | some v => if v.value.isSignal then v.refuseStray else return some v
    | none => return none

end UnitScript
