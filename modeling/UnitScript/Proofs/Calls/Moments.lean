import Mathlib.Logic.Relation
import UnitScript.Proofs.Calls.Stack

/-!
# The moments of a run

A run evaluates one thing inside another. `Moment.Begins` says which evaluations begin directly
inside a given one, and on which machines: it follows the evaluator, where a later part begins only
after the earlier ones have come to results, on the machine that these have left. Moments that are
reached by such steps (`Moment.Reaches`) are all that ever begin in a run; between them only single
steps are taken, which touch no call (`Discipline.calls`).

At each of them the calls in progress are those at the moment before, or there is one more that has
just been entered (`Moment.Begins.calls`).
-/

namespace UnitScript

/-- Something that is evaluated in the course of a run: every function of the evaluator has its
tasks, so `Begins` can follow a run into all of them. -/
inductive Task where
  | node (e : Node)
  | arguments (es : List Node)
  /-- Statements, after one that came to the given result. -/
  | items (last : Option Located) (es : List Node)
  | block (b : Block)
  | alternatives (a : Alternatives)
  /-- A loop with so many rounds left. -/
  | loop (condition : Node) (body : Block) (rounds : Nat)
  /-- A call of a function, with its arguments and its place. -/
  | call (f : Closure) (args : List Located) (site : Position)

/-- What a task comes to: a list of values for arguments, and a value or nothing (`Located`) for all
others. -/
def Task.Result : Task → Type
  | .arguments _ => List Located
  | _ => Option Located

/-- Evaluates a task as the evaluator does, with calls that are run by a given computation; with
`callWithin` this is the run of the task. -/
def Task.evaluate (rounds : Nat) (run : Caller) : (task : Task) → Eval task.Result
  | .node e => e.evaluate rounds run
  | .arguments es => Node.evaluateArgs rounds run es
  | .items last es => Node.evaluateItems rounds run last es
  | .block b => b.evaluate rounds run
  | .alternatives a => a.evaluate rounds run
  | .loop condition body others =>
    Eval.repeatWhile (condition.holds (condition.evaluate rounds run))
      (afterRound <$> body.evaluate rounds run) none others
  | .call f args site => run f args site

/-- The task is a call of a function. -/
def Task.IsCall : Task → Prop
  | .call .. => True
  | _ => False

/-- A task that begins to be evaluated on a machine, with so much fuel. What it comes to, and where,
is determined by that (`Task.evaluate`). -/
structure Moment where
  fuel : Nat
  task : Task
  machine : Machine

namespace Moment

/-- The machine on which the evaluation of the task ends, whether it comes to a value, to a fault or
to the end of the fuel. -/
def ending (a : Moment) : Machine :=
  (a.task.evaluate a.fuel (callWithin a.fuel) a.machine).2

/-- The evaluation at the second `Moment` begins directly inside the one at the first, on the
machine that everything evaluated before it has left. There is one case for each place where the
evaluator evaluates a part. -/
inductive Begins : Moment → Moment → Prop
  | magnitude : Begins ⟨n, .node ⟨span, .phys e u⟩, m⟩ ⟨n, .node e, m⟩
  /-- The unit of a quantity, behind its magnitude. -/
  | unit : (e.demand (e.run n) >>= Located.magnitude) m = (.ok number, m') →
      Begins ⟨n, .node ⟨span, .phys e u⟩, m⟩ ⟨n, .node u, m'⟩
  | operand : Begins ⟨n, .node ⟨span, .unary op e⟩, m⟩ ⟨n, .node e, m⟩
  | left : Begins ⟨n, .node ⟨span, .binary op l r⟩, m⟩ ⟨n, .node l, m⟩
  /-- The second operand, behind the first. -/
  | right : l.demand (l.run n) m = (.ok v, m') →
      Begins ⟨n, .node ⟨span, .binary op l r⟩, m⟩ ⟨n, .node r, m'⟩
  | assigned : Begins ⟨n, .node ⟨span, .assign type ident e⟩, m⟩ ⟨n, .node e, m⟩
  | chosen : Begins ⟨n, .node ⟨span, .ifElse a⟩, m⟩ ⟨n, .alternatives a, m⟩
  | loop : Begins ⟨n, .node ⟨span, .whileLoop condition body⟩, m⟩ ⟨n, .loop condition body n, m⟩
  /-- The arguments of a call, once there is a function of its name. -/
  | arguments : m.context.callee ident.name = .ok f →
      Begins ⟨n, .node ⟨span, .call ident es⟩, m⟩ ⟨n, .arguments es, m⟩
  /-- A call, once its arguments are there and as many as it takes. -/
  | call : m.context.callee ident.name = .ok (.closure f) →
      Node.evaluateArgs n (callWithin n) es m = (.ok args, m') →
      args.length = f.declaration.params.length →
      Begins ⟨n, .node ⟨span, .call ident es⟩, m⟩ ⟨n, .call f args span.start, m'⟩
  | returned : Begins ⟨n, .node ⟨span, .returnValue e⟩, m⟩ ⟨n, .node e, m⟩
  | nested : Begins ⟨n, .node ⟨span, .block b⟩, m⟩ ⟨n, .block b, m⟩
  | argument : Begins ⟨n, .arguments (e :: es), m⟩ ⟨n, .node e, m⟩
  /-- Further arguments, behind the first. -/
  | moreArguments : e.demand (e.run n) m = (.ok v, m') →
      Begins ⟨n, .arguments (e :: es), m⟩ ⟨n, .arguments es, m'⟩
  | item : Begins ⟨n, .items last (e :: es), m⟩ ⟨n, .node e, m⟩
  /-- Further statements, behind one that came to no signal. -/
  | moreItems : e.run n m = (.ok result, m') → interrupts result = false →
      Begins ⟨n, .items last (e :: es), m⟩ ⟨n, .items result es, m'⟩
  | items : Begins ⟨n, .block b, m⟩ ⟨n, .items none b.items, m⟩
  | otherwise : Begins ⟨n, .alternatives (.otherwise b), m⟩ ⟨n, .block b, m⟩
  | caseCondition :
      Begins ⟨n, .alternatives (.case condition body others), m⟩ ⟨n, .node condition, m⟩
  /-- The block of a case, if its condition holds. -/
  | caseBody : condition.holds (condition.run n) m = (.ok true, m') →
      Begins ⟨n, .alternatives (.case condition body others), m⟩ ⟨n, .block body, m'⟩
  /-- Further cases, if the condition does not hold. -/
  | caseOthers : condition.holds (condition.run n) m = (.ok false, m') →
      Begins ⟨n, .alternatives (.case condition body others), m⟩ ⟨n, .alternatives others, m'⟩
  | loopCondition : Begins ⟨n, .loop condition body (rounds + 1), m⟩ ⟨n, .node condition, m⟩
  /-- A round of a loop, if its condition holds. -/
  | loopBody : condition.holds (condition.run n) m = (.ok true, m') →
      Begins ⟨n, .loop condition body (rounds + 1), m⟩ ⟨n, .block body, m'⟩
  /-- Further rounds, behind one that does not end the loop. -/
  | moreRounds : condition.holds (condition.run n) m = (.ok true, m') →
      (afterRound <$> body.evaluate n (callWithin n)) m' = (.ok none, m'') →
      Begins ⟨n, .loop condition body (rounds + 1), m⟩ ⟨n, .loop condition body rounds, m''⟩
  /-- The body of a function, once its arguments fit, the call is entered and the parameters are
  bound. -/
  | body : f.checkArguments f.declaration.params args m = (.ok (), m) →
      m.context.enter f site = .ok context →
      Begins ⟨n + 1, .call f args site, m⟩
        ⟨n, .block f.declaration.body,
          { m with context := Closure.bindParams f.declaration.params args context }⟩

/-- The evaluation at the second moment begins in the course of the one at the first: directly
inside it (`Begins`), or in something that does. -/
def Reaches : Moment → Moment → Prop := Relation.ReflTransGen Begins

section
variable {d : Discipline} (hcalls : ∀ fuel f args site, (callWithin fuel f args site).Obeys d)
include hcalls

/-- An evaluation takes its machine to the one where it ends as a `Discipline` allows, if calls keep
to it. -/
theorem steps_ending (a : Moment) : d.steps a.machine a.ending := by
  obtain ⟨n, task, m⟩ := a
  cases task with
  | node e => exact (e.run_obeys (hcalls n)).steps m
  | arguments es => exact (Node.evaluateArgs_obeys (hcalls n) es).steps m
  | items last es => exact (Node.evaluateItems_obeys (hcalls n) es last).steps m
  | block b => exact (Block.evaluate_obeys (hcalls n) b).steps m
  | alternatives a => exact (Alternatives.evaluate_obeys (hcalls n) a).steps m
  | loop condition body rounds =>
    have hcondition := condition.holds_obeys (condition.run_obeys (hcalls n))
    have hbody : (body.evaluate n (callWithin n)).Obeys d := Block.evaluate_obeys (hcalls n) body
    exact (Eval.Obeys.repeatWhile none hcondition (hbody.map afterRound) rounds).steps m
  | call f args site => exact (hcalls n f args site).steps m

/-- What is evaluated before another evaluation begins inside one that is no call (`Begins`) keeps
to a `Discipline`, if calls do. -/
theorem Begins.steps {a b : Moment} (h : a.Begins b) (hcall : ¬ a.task.IsCall) :
    d.steps a.machine b.machine := by
  have hdemand : ∀ (e : Node) (n : Nat), (e.demand (e.run n)).Obeys d :=
    fun e n => e.demand_obeys (e.run_obeys (hcalls n))
  have hholds : ∀ (e : Node) (n : Nat), (e.holds (e.run n)).Obeys d :=
    fun e n => e.holds_obeys (e.run_obeys (hcalls n))
  have hround : ∀ (b : Block) (n : Nat), (afterRound <$> b.evaluate n (callWithin n)).Obeys d :=
    fun b n => (Block.evaluate_obeys (hcalls n) b).map afterRound
  cases h with
  | magnitude | operand | left | assigned | chosen | loop | arguments | returned | nested
  | argument | item | items | otherwise | caseCondition | loopCondition => exact d.refl _
  | unit hm =>
    refine ((hdemand _ _).bind fun v => ?_).steps_of_ok hm
    exact .of_immediate v.magnitude_immediate
  | right hl => exact (hdemand _ _).steps_of_ok hl
  | call _ hargs _ => exact (Node.evaluateArgs_obeys (hcalls _) _).steps_of_ok hargs
  | moreArguments he => exact (hdemand _ _).steps_of_ok he
  | moreItems he _ => exact (Node.run_obeys (hcalls _) _).steps_of_ok he
  | caseBody hc => exact (hholds _ _).steps_of_ok hc
  | caseOthers hc => exact (hholds _ _).steps_of_ok hc
  | loopBody hc => exact (hholds _ _).steps_of_ok hc
  | moreRounds hc hb => exact d.trans ((hholds _ _).steps_of_ok hc) ((hround _ _).steps_of_ok hb)
  | body => exact absurd trivial hcall

end

/-- An evaluation ends with the calls in progress that it began with (`Context.SameCalls`), by
`Discipline.calls`. -/
theorem sameCalls_ending (a : Moment) : a.machine.context.SameCalls a.ending.context :=
  a.steps_ending callWithin_obeys

/-- When an evaluation begins inside another one that is no call, the calls in progress are the same
(`Context.SameCalls`). Only the body of a function begins with one call more. -/
theorem Begins.sameCalls {a b : Moment} (h : a.Begins b) (hcall : ¬ a.task.IsCall) :
    a.machine.context.SameCalls b.machine.context :=
  h.steps callWithin_obeys hcall

/-- What begins inside a call is the body of the function, once the arguments fit, the call is
entered and the parameters are bound. -/
theorem Begins.of_call {k : Nat} {f : Closure} {args : List Located} {site : Position}
    {m : Machine} {b : Moment} (h : Begins ⟨k, .call f args site, m⟩ b) :
    ∃ n c, k = n + 1 ∧ f.checkArguments f.declaration.params args m = (.ok (), m) ∧
      m.context.enter f site = .ok c ∧ b = ⟨n, .block f.declaration.body,
        { m with context := Closure.bindParams f.declaration.params args c }⟩ := by
  cases h with
  | body hcheck henter => exact ⟨_, _, rfl, hcheck, henter, rfl⟩

/-- When an evaluation begins, the calls in progress are those of the one it is a part of, or one
more has been entered. -/
theorem Begins.calls {a b : Moment} (h : a.Begins b) :
    a.machine.context.SameCalls b.machine.context ∨
      ∃ f site context, a.machine.context.enter f site = .ok context ∧
        context.SameCalls b.machine.context := by
  obtain ⟨n, task, m⟩ := a
  cases task with
  | call f args site =>
    obtain ⟨-, context, -, -, henter, rfl⟩ := h.of_call
    exact .inr ⟨f, site, context, henter, .bindParams ..⟩
  | node | arguments | items | block | alternatives | loop => exact .inl (h.sameCalls id)

/-- No more calls are in progress than there may be. -/
def Bounded (a : Moment) : Prop :=
  a.machine.context.depth ≤ a.machine.context.maxDepth

/-- Within the bound on calls, what begins is within it. -/
theorem Begins.bounded {a b : Moment} (h : a.Begins b) (ha : a.Bounded) : b.Bounded := by
  unfold Bounded at ha ⊢
  rcases h.calls with hsame | ⟨f, site, context, henter, hsame⟩
  · rw [hsame.depth, hsame.maxDepth]
    exact ha
  · obtain ⟨hlt, rfl⟩ := Context.enter_eq_ok.1 henter
    rw [hsame.depth, hsame.maxDepth]
    exact hlt

/-- The bound on calls holds throughout a run. -/
theorem Reaches.bounded {a b : Moment} (h : a.Reaches b) (ha : a.Bounded) : b.Bounded := by
  induction h with
  | refl => exact ha
  | tail _ hstep ih => exact hstep.bounded ih

end Moment

end UnitScript
