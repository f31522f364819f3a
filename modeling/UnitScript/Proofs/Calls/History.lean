import UnitScript.Proofs.Calls.Known

/-!
# The history of functions

Every function that is bound on a reachable machine was defined before, by an evaluation that
occurred in the run of a program (`Machine.Reachable.defined`). It has captured what the innermost
call had bound when that began, and from its end runs lead to the machine (`Machine.Leads`).

This is carried from moment to moment: an evaluation that is given functions with such a history
(`Moment.Informed`) begins its parts with functions that have one (`Begins.informed`). A part begins
on the machine of the whole or where another part has ended. What is bound there was known
to that other part or was defined in the course of it, and the end of that definition leads to the
end of the part.
-/

namespace UnitScript

/-- Runs lead from the first machine to the second: into an evaluation (`Moment.Begins`), out of it,
or past it. So the machines are in the order of time. -/
inductive Machine.Leads (m : Machine) : Machine → Prop
  | refl : Leads m m
  | into {a b : Moment} : Leads m a.machine → a.Begins b → Leads m b.machine
  | outOf {a b : Moment} : Leads m b.ending → a.Begins b → Leads m a.ending
  | past {a : Moment} : Leads m a.machine → Leads m a.ending

/-- Where a part of an evaluation ends (`Moment.Reaches`), the run leads to the end of the whole. -/
theorem Moment.Reaches.leads {a d : Moment} (h : a.Reaches d) : d.ending.Leads a.ending := by
  induction h using Relation.ReflTransGen.head_induction_on with
  | refl => exact .refl
  | head hbegins _ ih => exact ih.outOf hbegins

/-- The function was defined at some moment, with what the innermost call had bound there, and from
the end of its definition runs lead (`Machine.Leads`) to the machine. -/
def Closure.DefinedBefore (m : Machine) (f : Closure) : Prop :=
  ∃ d : Moment, d.machine.Reachable ∧ d.Defines f ∧ d.ending.Leads m

/-- What was defined before one machine was defined before those that runs lead to from it. -/
theorem Closure.DefinedBefore.mono {m m' : Machine} {f : Closure} (h : DefinedBefore m f)
    (hleads : ∀ start : Machine, start.Leads m → start.Leads m') : DefinedBefore m' f := by
  obtain ⟨d, hd, hdefines, hbefore⟩ := h
  exact ⟨d, hd, hdefines, hleads _ hbefore⟩

/-- An evaluation in the course of a program on a reachable machine (`Machine.Reachable`), however
deep inside. -/
def Moment.Occurs (a : Moment) : Prop :=
  ∃ m fuel b, Machine.Reachable m ∧ Reaches ⟨fuel, .block b, m⟩ a

/-- An evaluation is given functions that were defined before it (`Closure.DefinedBefore`): on its
machine and in what its task is given. -/
structure Moment.Informed (a : Moment) : Prop where
  occurs : a.Occurs
  machine : a.machine.Knows (Closure.DefinedBefore a.machine)
  task : a.task.Within (Closure.DefinedBefore a.machine)

/-! ## Where parts of an evaluation end -/

section
variable {n : Nat} {m m' : Machine} {e : Node}

/-- Whether a value is there does not matter to the machine. -/
theorem Node.demand_machine (e : Node) (x : Eval (Option Located)) (m : Machine) :
    (e.demand x m).2 = (x m).2 := by
  refine Eval.bind_immediate_machine fun result => ?_
  cases result with
  | none => exact .fail FaultKind.noConfusion _
  | some v => exact .pure trivial

/-- Nor does it matter whether the value is a truth value. -/
theorem Node.holds_machine (e : Node) (x : Eval (Option Located)) (m : Machine) :
    (e.holds x m).2 = (x m).2 :=
  (Eval.bind_immediate_machine fun v => v.truth_immediate).trans (e.demand_machine x m)

/-- Behind a value comes the machine on which the evaluation of its node ends. -/
theorem Moment.ending_of_demand {v : Located} (h : e.demand (e.run n) m = (.ok v, m')) :
    ending ⟨n, .node e, m⟩ = m' :=
  (e.demand_machine (e.run n) m).symm.trans (congrArg Prod.snd h)

/-- The same holds of a condition. -/
theorem Moment.ending_of_holds {b : Bool} (h : e.holds (e.run n) m = (.ok b, m')) :
    ending ⟨n, .node e, m⟩ = m' :=
  (e.holds_machine (e.run n) m).symm.trans (congrArg Prod.snd h)

/-- And of a round. -/
theorem Moment.ending_of_round {b : Block} {result : Option (Option Located)}
    (h : (afterRound <$> b.evaluate n (callWithin n)) m = (.ok result, m')) :
    ending ⟨n, .block b, m⟩ = m' := by
  rw [← bind_pure_comp] at h
  exact (Eval.bind_immediate_machine fun _ => .pure trivial).symm.trans (congrArg Prod.snd h)

end

/-! ## From moment to moment -/

section
variable {known more : Closure → Prop} {a b c : Moment}

/-- More functions may be known. -/
theorem Value.Within.mono {v : Value} (h : v.Within known) (hle : ∀ f, known f → more f) :
    v.Within more :=
  ⟨h.capturing, fun hf => hle _ (h.given hf)⟩

/-- More functions may be known. -/
theorem Machine.Knows.mono {m : Machine} (h : m.Knows known) (hle : ∀ f, known f → more f) :
    m.Knows more :=
  ⟨h.orderly, fun hf => hle _ (h.stored hf)⟩

/-- More functions may be known. -/
theorem Task.Within.mono {task : Task} (h : task.Within known) (hle : ∀ f, known f → more f) :
    task.Within more := by
  cases task with
  | items last es => exact fun v hv => (h v hv).mono hle
  | call f args site => exact ⟨h.1.mono hle, fun arg harg => (h.2 arg harg).mono hle⟩
  | node | arguments | block | alternatives | loop => trivial

namespace Moment

/-- A part of an evaluation that occurs does. -/
theorem Occurs.part (h : a.Occurs) (hbegins : a.Begins b) : b.Occurs := by
  obtain ⟨m, fuel, block, hm, hreaches⟩ := h
  exact ⟨m, fuel, block, hm, hreaches.tail hbegins⟩

/-- The machine of an evaluation that occurs is reachable. -/
theorem Occurs.reachable (h : a.Occurs) : a.machine.Reachable := by
  obtain ⟨m, fuel, block, hm, hreaches⟩ := h
  exact hm.beginning hreaches

/-- What is reached from an evaluation that occurs does. -/
theorem Occurs.reaches (h : a.Occurs) (hreaches : a.Reaches b) : b.Occurs := by
  induction hreaches with
  | refl => exact h
  | tail _ hbegins ih => exact ih.part hbegins

/-- The functions that are defined in an evaluation were defined before its end. -/
theorem Occurs.defines (h : a.Occurs) : a.Known (Closure.DefinedBefore a.ending) :=
  fun _ _ hreaches hdefines => ⟨_, (h.reaches hreaches).reachable, hdefines, hreaches.leads⟩

namespace Informed

/-- What was defined before an evaluation was defined before its end. -/
theorem machine_ending (h : a.Informed) : a.machine.Knows (Closure.DefinedBefore a.ending) :=
  h.machine.mono fun _ hf => hf.mono fun _ hleads => hleads.past

/-- The same holds of what the task is given. -/
theorem task_ending (h : a.Informed) : a.task.Within (Closure.DefinedBefore a.ending) :=
  h.task.mono fun _ hf => hf.mono fun _ hleads => hleads.past

/-- The functions that are bound where an evaluation ends were defined before. -/
theorem ending (h : a.Informed) : a.ending.Knows (Closure.DefinedBefore a.ending) :=
  knows_ending h.machine_ending h.task_ending h.occurs.defines

/-- A part that begins with the whole. -/
theorem first (h : a.Informed) (hbegins : a.Begins b) (hmachine : b.machine = a.machine)
    (htask : b.task.Within (Closure.DefinedBefore b.machine)) : b.Informed :=
  ⟨h.occurs.part hbegins, hmachine ▸ h.machine, htask⟩

/-- A part that begins where another one ends. -/
theorem next (h : a.Informed) (hbegins : a.Begins b) (hc : c.Informed)
    (hmachine : c.ending = b.machine) (htask : b.task.Within (Closure.DefinedBefore b.machine)) :
    b.Informed :=
  ⟨h.occurs.part hbegins, hmachine ▸ hc.ending, htask⟩

/-- A round of a loop, behind its condition. -/
theorem loopBody {n rounds : Nat} {condition : Node} {body : Block} {m m' : Machine}
    (h : Informed ⟨n, .loop condition body (rounds + 1), m⟩)
    (hholds : condition.holds (condition.run n) m = (.ok true, m')) :
    Informed ⟨n, .block body, m'⟩ :=
  h.next (.loopBody hholds) (h.first .loopCondition rfl trivial) (ending_of_holds hholds) trivial

/-- A call, behind its arguments. -/
theorem call {n : Nat} {span : Span} {ident : Ident} {es : List Node} {m m' : Machine}
    {f : Closure} {args : List Located} (h : Informed ⟨n, .node ⟨span, .call ident es⟩, m⟩)
    (hf : m.context.callee ident.name = .ok (.closure f))
    (hargs : Node.evaluateArgs n (callWithin n) es m = (.ok args, m'))
    (hlength : args.length = f.declaration.params.length) :
    Informed ⟨n, .call f args span.start, m'⟩ := by
  have harguments : Informed ⟨n, .arguments es, m⟩ := h.first (.arguments hf) rfl trivial
  have hending : Moment.ending ⟨n, .arguments es, m⟩ = m' := congrArg Prod.snd hargs
  have hm := harguments.machine_ending
  have hconfined := Node.evaluateArgs_confined (callsConfined _ n) es hm harguments.occurs.defines
  rw [hending] at hm hconfined
  exact h.next (.call hf hargs hlength) harguments hending
    ⟨hm.callee hf, hconfined.result (congrArg Prod.fst hargs)⟩

/-- Further statements, behind one that came to no signal. -/
theorem moreItems {n : Nat} {last result : Option Located} {e : Node} {es : List Node}
    {m m' : Machine} (h : Informed ⟨n, .items last (e :: es), m⟩)
    (he : e.run n m = (.ok result, m')) (hresult : interrupts result = false) :
    Informed ⟨n, .items result es, m'⟩ := by
  have hitem : Informed ⟨n, .node e, m⟩ := h.first .item rfl trivial
  have hending : Moment.ending ⟨n, .node e, m⟩ = m' := congrArg Prod.snd he
  have hconfined := e.run_confined (callsConfined _ n) hitem.machine_ending hitem.occurs.defines
  rw [hending] at hconfined
  exact h.next (.moreItems he hresult) hitem hending (hconfined.result (congrArg Prod.fst he))

/-- The body of a function that is called. -/
theorem body {n : Nat} {f : Closure} {args : List Located} {site : Position} {m : Machine}
    {context : Context} (h : Informed ⟨n + 1, .call f args site, m⟩)
    (hcheck : f.checkArguments f.declaration.params args m = (.ok (), m))
    (henter : m.context.enter f site = .ok context) :
    Informed ⟨n, .block f.declaration.body,
      { m with context := Closure.bindParams f.declaration.params args context }⟩ := by
  have hbegins := Begins.body (n := n) hcheck henter
  refine ⟨h.occurs.part hbegins, ?_, trivial⟩
  have hm := h.machine.enter h.task.1 (Closure.fits_of_checkArguments hcheck) henter
  exact hm.mono fun _ hf => hf.mono fun _ hleads => hleads.into hbegins

end Informed

/-- The parts of an evaluation are given functions that were defined before them
(`Moment.Informed`), if the evaluation itself is: one case for each place where a part begins. -/
theorem Begins.informed (hbegins : a.Begins b) (h : a.Informed) : b.Informed := by
  cases hbegins with
  | magnitude => exact h.first .magnitude rfl trivial
  | operand => exact h.first .operand rfl trivial
  | left => exact h.first .left rfl trivial
  | assigned => exact h.first .assigned rfl trivial
  | chosen => exact h.first .chosen rfl trivial
  | loop => exact h.first .loop rfl trivial
  | arguments hf => exact h.first (.arguments hf) rfl trivial
  | returned => exact h.first .returned rfl trivial
  | nested => exact h.first .nested rfl trivial
  | argument => exact h.first .argument rfl trivial
  | item => exact h.first .item rfl trivial
  | items => exact h.first .items rfl Located.within_none
  | otherwise => exact h.first .otherwise rfl trivial
  | caseCondition => exact h.first .caseCondition rfl trivial
  | loopCondition => exact h.first .loopCondition rfl trivial
  | unit hm =>
    obtain ⟨v, m₁, hv, hnumber⟩ := Eval.bind_eq_ok.1 hm
    obtain ⟨-, rfl⟩ := v.magnitude_immediate.of_eq_ok hnumber
    exact h.next (.unit hm) (h.first .magnitude rfl trivial) (ending_of_demand hv) trivial
  | right hl => exact h.next (.right hl) (h.first .left rfl trivial) (ending_of_demand hl) trivial
  | call hf hargs hlength => exact h.call hf hargs hlength
  | moreArguments he =>
    exact h.next (.moreArguments he) (h.first .argument rfl trivial) (ending_of_demand he) trivial
  | moreItems he hresult => exact h.moreItems he hresult
  | caseBody hholds =>
    exact h.next (.caseBody hholds) (h.first .caseCondition rfl trivial) (ending_of_holds hholds)
      trivial
  | caseOthers hholds =>
    exact h.next (.caseOthers hholds) (h.first .caseCondition rfl trivial)
      (ending_of_holds hholds) trivial
  | loopBody hholds => exact h.loopBody hholds
  | moreRounds hholds hround =>
    exact h.next (.moreRounds hholds hround) (h.loopBody hholds) (ending_of_round hround) trivial
  | body hcheck henter => exact h.body hcheck henter

/-- Everything in the course of an evaluation (`Moment.Reaches`) is given functions that were
defined before it, by `Begins.informed` for each step. -/
theorem Reaches.informed (hreaches : a.Reaches b) (h : a.Informed) : b.Informed := by
  induction hreaches with
  | refl => exact h
  | tail _ hbegins ih => exact hbegins.informed ih

end Moment

/-- A program begins with the functions that were defined before. -/
theorem Machine.Knows.informed {m : Machine} (h : m.Knows (Closure.DefinedBefore m))
    (hm : m.Reachable) (fuel : Nat) (b : Block) : Moment.Informed ⟨fuel, .block b, m⟩ :=
  ⟨⟨m, fuel, b, hm, .refl⟩, h, trivial⟩

/-- All functions that are bound on reachable machines were defined before
(`Closure.DefinedBefore`), by induction on how the machine is reached. -/
theorem Machine.Reachable.defined {m : Machine} (h : m.Reachable) :
    m.Knows (Closure.DefinedBefore m) := by
  induction h with
  | initial =>
    refine ⟨.initial _, fun {f} hf => ?_⟩
    obtain ⟨entry, hentry, hvalue⟩ := hf
    cases List.mem_singleton.1 hentry
    cases hvalue
  | beginning hm hreaches ih => exact (hreaches.informed (ih.informed hm _ _)).machine
  | ending hm hreaches ih => exact (hreaches.informed (ih.informed hm _ _)).ending

end

end UnitScript
