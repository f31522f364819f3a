import UnitScript.Evaluation

/-!
# Evaluation with exits

The reference for the control flow of programs. Here `break`, `continue` and `return` are no values
but exits: they skip whatever is still to be done, up to the place that catches them. A loop catches
the exits of its body by `break` and `continue`; calls and whole programs catch `return`, and fail
if an exit that is meant for a loop gets as far as that (`Leaving.caught`). Statements in a row are
simply run one after the other, without a look at what they come to. Everything else, such as what
operators do with their operands or what a call does to the context, is as in `Node.evaluate`.
-/

namespace UnitScript

/-- What leaves statements before their end. Where the evaluator hands on a signal as a value
(`Value.breaking`, `Value.continuing`, `Value.returning`), this semantics throws one of these. -/
inductive Exit where
  /-- Leaves a loop, from the given place. -/
  | breaking (site : Span)
  /-- Leaves a round of a loop, from the given place. -/
  | continuing (site : Span)
  /-- Leaves a call, or the program. -/
  | returning (payload : Option Located)

/-- Computations that may be left by an exit. A fault or the end of the fuel is still an outcome of
`Eval`, so it is not caught where exits are. -/
abbrev Leaving := ExceptT Exit Eval

namespace Leaving

variable {α : Type}

/-- A computation that no `Exit` leaves. -/
def plain (x : Eval α) : Leaving α := ExceptT.lift x

/-- Repeats a body as long as a condition holds, for a number of rounds. A `continue` in the body is
caught here, so it leaves only the round. -/
def rounds (condition : Leaving Bool) (body : Leaving α) : Nat → Leaving Unit
  | 0 => plain Eval.outOfFuel
  | n + 1 => do
    if ← condition then
      tryCatch (do let _ ← body) fun
        | .continuing _ => return ()
        | exit => throw exit
      rounds condition body n

/-- A loop, which a `break` leaves: it is caught around all of the `rounds`. A loop has no value. -/
def loop (condition : Leaving Bool) (body : Leaving α) (n : Nat) : Leaving (Option Located) := do
  tryCatch (rounds condition body n) fun
    | .breaking _ => return ()
    | exit => throw exit
  return none

/-- The end of a function or a program, where `return` leads to. What it returns is the result; a
`break` or a `continue` that gets here is stray (`Cause.straySignal`). -/
def caught (x : Leaving (Option Located)) : Eval (Option Located) := do
  match ← x.run with
  | .ok result => return result
  | .error (.returning payload) => return payload
  | .error (.breaking site) => Eval.fail (.straySignal .breaking) (some site.start)
  | .error (.continuing site) => Eval.fail (.straySignal .continuing) (some site.start)

/-- A value at the place of a node. -/
def producing (span : Span) (x : Leaving Value) : Leaving (Option Located) := do
  return some ⟨← x, some span⟩

end Leaving

/-- The value of a node, which has to have one. Unlike `Node.demand` this never sees a signal, for
exits pass it by. -/
def Node.require (node : Node) (x : Leaving (Option Located)) : Leaving Located := do
  match ← x with
  | some v => return v
  | none => .plain (Eval.fail .missingValue (some node.span.start))

/-- Whether a node holds as a condition (`Located.truth`). -/
def Node.applies (node : Node) (x : Leaving (Option Located)) : Leaving Bool := do
  let v ← node.require x
  .plain v.truth

/-! ## Nodes and blocks -/

mutual

/-- Runs a statement or evaluates an expression, as `Node.evaluate` does, but with exits in place of
signals: `break`, `continue` and `return` throw, and nothing else looks for what is thrown except
loops and the ends of calls. -/
def Node.perform (rounds : Nat) (run : Caller) : Node → Leaving (Option Located)
  | ⟨span, .int n⟩ => Leaving.producing span (return .number (.int n))
  | ⟨span, .double x⟩ => Leaving.producing span (return .number (.double x))
  | ⟨span, .string s⟩ => Leaving.producing span (return .string s)
  | ⟨span, .bool b⟩ => Leaving.producing span (return .bool b)
  | ⟨span, .unit numerator denominator⟩ => Leaving.producing span do
    let units := Units.ofFactors (numerator.map Ident.name) (denominator.map Ident.name)
    return .unit (← .plain (Eval.attempt units fun _ => some span.start))
  | ⟨span, .phys magnitude unit⟩ => Leaving.producing span do
    let m ← magnitude.require (magnitude.perform rounds run)
    let n ← .plain m.magnitude
    let u ← unit.require (unit.perform rounds run)
    let units ← .plain u.units
    return .quantity ⟨n, units⟩
  | ⟨span, .unary op operand⟩ => Leaving.producing span do
    let v ← operand.require (operand.perform rounds run)
    .plain (Eval.attempt (v.value.unary op) fun _ => some span.start)
  | ⟨span, .binary op left right⟩ => Leaving.producing span do
    let l ← left.require (left.perform rounds run)
    let r ← right.require (right.perform rounds run)
    .plain (Eval.attempt (l.value.binary op r.value) (operandPosition l r))
  | ⟨span, .variable ident⟩ => Leaving.producing span do
    let v ← .plain (Eval.view (·.read ident.name) (some ident.span.start))
    return v.value
  | ⟨_, .assign type ident value⟩ => do
    let v ← value.require (value.perform rounds run)
    .plain (Eval.change (·.set ident.name type v) (some ident.span.start))
    return none
  | ⟨_, .ifElse alternatives⟩ => alternatives.perform rounds run
  | ⟨_, .whileLoop condition body⟩ =>
    Leaving.loop (condition.applies (condition.perform rounds run))
      (body.perform rounds run) rounds
  | ⟨_, .function ident params returns body⟩ => do
    .plain (Eval.change
      (fun context => .ok (context.declareFunction ⟨ident, params, returns, body⟩)) none)
    return none
  | ⟨span, .call ident args⟩ => do
    let f ← .plain (Eval.view (·.callee ident.name) (some ident.span.start))
    let args ← Node.performArgs rounds run args
    .plain (checkArity f args span.start)
    let result ← .plain (f.call run args span.start)
    return result.map fun v => ⟨v.value, some span⟩
  | ⟨_, .returnNothing⟩ => throw (.returning none)
  | ⟨_, .returnValue value⟩ => do
    let v ← value.require (value.perform rounds run)
    throw (.returning (some v))
  | ⟨span, .breakLoop⟩ => throw (.breaking span)
  | ⟨span, .continueLoop⟩ => throw (.continuing span)
  | ⟨_, .block block⟩ => block.perform rounds run

/-- Evaluates the arguments of a call from left to right. -/
def Node.performArgs (rounds : Nat) (run : Caller) : List Node → Leaving (List Located)
  | [] => return []
  | arg :: args => do
    let first ← arg.require (arg.perform rounds run)
    let others ← Node.performArgs rounds run args
    return first :: others

/-- Runs statements in order, after one that came to the given result. An exit leaves the statements
behind it unrun without any test (compare `Node.evaluateItems`). -/
def Node.performItems (rounds : Nat) (run : Caller) (last : Option Located) :
    List Node → Leaving (Option Located)
  | [] => return last
  | item :: items => do
    let result ← item.perform rounds run
    Node.performItems rounds run result items

/-- Runs the statements of a block. -/
def Block.perform (rounds : Nat) (run : Caller) : Block → Leaving (Option Located)
  | ⟨_, items⟩ => Node.performItems rounds run none items

/-- Runs the first alternative whose condition holds. -/
def Alternatives.perform (rounds : Nat) (run : Caller) :
    Alternatives → Leaving (Option Located)
  | .none => return none
  | .otherwise block => block.perform rounds run
  | .case condition body others => do
    if ← condition.applies (condition.perform rounds run) then
      body.perform rounds run
    else others.perform rounds run

end

/-! ## Calls and whole runs -/

/-- Runs a call of a function, with a given way to run its body. Checks, entry and exit are those of
`Closure.call`; the exits of the body are caught at its end (`Leaving.caught`). -/
def Closure.enact (body : Leaving (Option Located)) : Caller := fun f args site => do
  f.checkArguments f.declaration.params args
  Eval.change (·.enter f site) (some site)
  Eval.leaving <| Eval.traced <| Eval.located site do
    Eval.change (fun context => .ok (bindParams f.declaration.params args context)) none
    f.checkPayload (← body.caught)

/-- Runs calls that are so many deep inside one another at most, like `callWithin`. -/
def enactWithin : Nat → Caller
  | 0 => fun _ _ _ => Eval.outOfFuel
  | fuel + 1 => fun f args site =>
    Closure.enact (f.declaration.body.perform fuel (enactWithin fuel)) f args site

/-- Runs a whole program with so much fuel, as `Block.run` does. `Block.run_eq_enact` says that the
two are equal on all programs that are read from tokens. -/
def Block.enact (fuel : Nat) (program : Block) : Eval (Option Located) :=
  Eval.traced (program.perform fuel (enactWithin fuel)).caught

end UnitScript
