import UnitScript.Proofs.Faults.Failing

/-!
# Where faults come from

A fault of a program is raised by the innermost evaluation that fails (`Moment.Raises`). The way
from the program to that evaluation tells the calls that it is inside of, each with the name of a
function and the place of the call expression that entered it (`Moment.Running`). The traceback of
the fault is put together on the way back, while these calls are left. That it is the list of them
all the same, whatever failed and however deep inside (`faultProvenance`), comes down to this: a
fault names no calls before the innermost of them is left (`Moment.Faults.traceback_eq_nil`), names
all of them when it is, and keeps these (`Moment.Running.faults`).
-/

namespace UnitScript

namespace Moment

/-! ## The way to a moment -/

/-- The evaluation begins in the course of another one, inside of these calls of functions, the
innermost first. This is `Moment.Reaches` with a record of the calls (`Activation`) that are entered
on the way. -/
inductive Running (start : Moment) : List Activation → Moment → Prop
  | start : Running start [] start
  /-- An evaluation inside another one that is no call. -/
  | part {calls : List Activation} {a b : Moment} : Running start calls a → ¬ a.task.IsCall →
    a.Begins b → Running start calls b
  /-- The body of a function that is called by a call expression: its call is put on top of the
  others, at the place of the expression. -/
  | body {calls : List Activation} {n : Nat} {span : Span} {ident : Ident} {es : List Node}
      {m m' : Machine} {f : Closure} {args : List Located} {b : Moment} :
    Running start calls ⟨n, .node ⟨span, .call ident es⟩, m⟩ →
    Begins ⟨n, .node ⟨span, .call ident es⟩, m⟩ ⟨n, .call f args span.start, m'⟩ →
    Begins ⟨n, .call f args span.start, m'⟩ b →
    Running start (⟨f.declaration.ident.name, span.start⟩ :: calls) b

/-- A fault with this cause is raised in the course of an evaluation, inside of these calls of
functions, in this context. Either something fails that has no failing part, or a call refuses the
result of its body. -/
inductive Raises (start : Moment) : List Activation → Context → Cause → Prop
  /-- By an evaluation inside of which nothing fails (`Moment.Fails`), and in which no call is
  entered. -/
  | within {calls : List Activation} {a : Moment} {e : Fault} {m' : Machine} :
    Running start calls a → a.Faults e m' → (∀ b, a.Begins b → ¬ b.Fails) →
    (a.task.IsCall → ∀ b, ¬ a.Begins b) → Raises start calls a.machine.context e.cause
  /-- By a call that refuses what its body has come to (`Closure.checkResult`), before it is
  left. -/
  | result {calls : List Activation} {n : Nat} {span : Span} {ident : Ident} {es : List Node}
      {m m' m'' : Machine} {f : Closure} {args : List Located} {b : Moment} {e : Fault} :
    Running start calls ⟨n, .node ⟨span, .call ident es⟩, m⟩ →
    Begins ⟨n, .node ⟨span, .call ident es⟩, m⟩ ⟨n, .call f args span.start, m'⟩ →
    Begins ⟨n, .call f args span.start, m'⟩ b → ¬ b.Fails →
    Faults ⟨n, .call f args span.start, m'⟩ e m'' →
    Raises start (⟨f.declaration.ident.name, span.start⟩ :: calls) b.ending.context e.cause

variable {start a b : Moment} {calls : List Activation}

/-- What begins in this way is reached (`Moment.Reaches`). -/
theorem Running.reaches (h : Running start calls a) : start.Reaches a := by
  induction h with
  | start => exact .refl
  | part _ _ hbegins ih => exact ih.tail hbegins
  | body _ hcall hbody ih => exact (ih.tail hcall).tail hbody

/-- A call that is entered (`Context.enter`) lies on top of those in progress, with the name of its
function and the place of its call. -/
theorem Begins.activations {k : Nat} {f : Closure} {args : List Located} {site : Position}
    {m : Machine} (h : Begins ⟨k, .call f args site, m⟩ b) :
    b.machine.context.frames.map Frame.activation =
      ⟨f.declaration.ident.name, site⟩ :: m.context.frames.map Frame.activation := by
  obtain ⟨n, c, -, -, henter, rfl⟩ := h.of_call
  have hsame := Context.SameCalls.bindParams f.declaration.params args c
  obtain ⟨-, rfl⟩ := Context.enter_eq_ok.1 henter
  exact hsame.activations

/-- The calls that a moment is inside of are those in progress (`Context.frames`) on top of the ones
at the start. -/
theorem Running.activations (h : Running start calls a) :
    a.machine.context.frames.map Frame.activation =
      calls ++ start.machine.context.frames.map Frame.activation := by
  induction h with
  | start => rfl
  | part _ hcall hbegins ih => exact (hbegins.sameCalls hcall).activations.trans ih
  | body _ hcall hbody ih =>
    rw [hbody.activations, (hcall.sameCalls id).activations, ih, List.cons_append]

/-! ## The way back -/

/-- A fault is passed on with the same cause. Its traceback is the one that it has, or, if it has
none and a call is left (`Eval.traced`), that of the calls in progress where it is raised. -/
theorem Running.faults (h : Running start calls a) {e : Fault} {m' : Machine}
    (ha : a.Faults e m') : ∃ e' m'', start.Faults e' m'' ∧ e'.cause = e.cause ∧
      (e'.traceback = e.traceback ∧ (e.traceback = [] → calls = []) ∨
        e.traceback = [] ∧ e'.traceback = a.machine.context.traceback) := by
  induction h generalizing e m' with
  | start => exact ⟨e, m', ha, rfl, .inl ⟨rfl, fun _ => rfl⟩⟩
  | part _ hcall hbegins ih =>
    rw [(hbegins.sameCalls hcall).traceback]
    exact ih (hbegins.faults hcall ha)
  | @body calls n span ident es m m' f args b _ hcall hbody ih =>
    obtain ⟨m'', hfaults⟩ := hbody.faults_call ha
    obtain ⟨e', m₁, hstart, hcause, hkept | ⟨hnil, -⟩⟩ := ih (hcall.faults id hfaults)
    · refine ⟨e', m₁, hstart, hcause, ?_⟩
      by_cases hnil : (e.at? (some span.start)).traceback = []
      · rw [hkept.1, Fault.traceback_within_of_nil hnil, ha.sameCalls.traceback]
        exact .inr ⟨hnil, rfl⟩
      · rw [hkept.1, Fault.traceback_within_of_ne_nil hnil]
        exact .inl ⟨rfl, fun h => absurd h hnil⟩
    · exact absurd hnil (Fault.traceback_within_ne_nil _ m'.context)

end Moment

/-! ## The innermost evaluation that fails -/

namespace Task

/-- The size of the tree that a task is about. -/
noncomputable def size : Task → Nat
  | .node e => sizeOf e
  | .arguments es => sizeOf es
  | .items _ es => sizeOf es
  | .block b => sizeOf b
  | .alternatives a => sizeOf a
  | .loop condition body _ => sizeOf condition + sizeOf body
  | .call .. => 0

/-- The rounds that are left to a task. -/
def rounds : Task → Nat
  | .loop _ _ rounds => rounds
  | _ => 0

end Task

/-- Every node has a size (`Task.size`). -/
theorem Node.sizeOf_pos (e : Node) : 0 < sizeOf e := by
  cases e
  rw [Node.mk.sizeOf_spec]
  omega

/-- So has every block. -/
theorem Block.sizeOf_pos (b : Block) : 0 < sizeOf b := by
  cases b
  rw [Block.mk.sizeOf_spec]
  omega

/-- The statements of a block are smaller than the block, in the sense of `Task.size`. -/
theorem Block.sizeOf_items_lt (b : Block) : sizeOf b.items < sizeOf b := by
  obtain ⟨span, items⟩ := b
  rw [Block.mk.sizeOf_spec]
  show sizeOf items < _
  omega

namespace Moment

/-- What begins inside an evaluation has less fuel, a smaller tree (`Task.size`) or fewer rounds
left (`Task.rounds`), in the lexicographic order of the three. -/
theorem Begins.smaller {a b : Moment} (h : a.Begins b) :
    Prod.Lex (· < ·) (Prod.Lex (· < ·) (· < ·)) (b.fuel, b.task.size, b.task.rounds)
      (a.fuel, a.task.size, a.task.rounds) := by
  cases h with
  | body => exact .left _ _ (Nat.lt_succ_self _)
  | moreRounds => exact .right _ (.right _ (Nat.lt_succ_self _))
  | items => exact .right _ (.left _ _ (Block.sizeOf_items_lt _))
  | loopCondition => exact .right _ (.left _ _ (Nat.lt_add_of_pos_right (Block.sizeOf_pos _)))
  | loopBody => exact .right _ (.left _ _ (Nat.lt_add_of_pos_left (Node.sizeOf_pos _)))
  | _ =>
    refine .right _ (.left _ _ ?_)
    simp only [Task.size, Node.mk.sizeOf_spec, Form.phys.sizeOf_spec, Form.unary.sizeOf_spec,
      Form.binary.sizeOf_spec, Form.assign.sizeOf_spec, Form.ifElse.sizeOf_spec,
      Form.whileLoop.sizeOf_spec, Form.call.sizeOf_spec, Form.returnValue.sizeOf_spec,
      Form.block.sizeOf_spec, Alternatives.otherwise.sizeOf_spec, Alternatives.case.sizeOf_spec,
      List.cons.sizeOf_spec]
    omega

/-- Nothing begins inside one another without end (`Begins.smaller`). -/
theorem begins_wellFounded : WellFounded fun b a : Moment => a.Begins b :=
  Subrelation.wf (fun h => Begins.smaller h)
    (InvImage.wf (fun a : Moment => (a.fuel, a.task.size, a.task.rounds))
      (Prod.lex Nat.lt_wfRel (Prod.lex Nat.lt_wfRel Nat.lt_wfRel)).wf)

/-- A call begins (`Moment.Begins`) inside a call expression, whose place it is given. -/
theorem Begins.to_call {a : Moment} {k : Nat} {f : Closure} {args : List Located}
    {site : Position} {m : Machine} (h : a.Begins ⟨k, .call f args site, m⟩) :
    ∃ span ident es m', site = span.start ∧ a = ⟨k, .node ⟨span, .call ident es⟩, m'⟩ := by
  cases h with
  | call => exact ⟨_, _, _, _, rfl, rfl⟩

/-- A fault is raised (`Moment.Raises`) in the course of every evaluation that fails, by induction
along `begins_wellFounded`: a failing part is looked into until none fails. -/
theorem Running.exists_raises {start a : Moment} {calls : List Activation}
    (hrunning : Running start calls a) (hcall : ¬ a.task.IsCall) (h : a.Fails) :
    ∃ calls' c cause, start.Raises calls' c cause := by
  -- The induction goes two steps down at once where a call is entered.
  induction a using begins_wellFounded.transGen.induction generalizing calls with
  | _ a ih
  obtain ⟨e, m', ha⟩ := h
  by_cases hparts : ∃ b, a.Begins b ∧ b.Fails
  · obtain ⟨⟨n, task, m⟩, hbegins, hfails⟩ := hparts
    by_cases hiscall : task.IsCall
    · cases task with
      | node | arguments | items | block | alternatives | loop => exact absurd hiscall id
      | call f args site =>
        obtain ⟨e', m'', hb⟩ := hfails
        obtain ⟨span, ident, es, m₀, rfl, rfl⟩ := hbegins.to_call
        by_cases hbody : ∃ c, Begins ⟨n, .call f args span.start, m⟩ c
        · obtain ⟨c, hbody⟩ := hbody
          by_cases hc : c.Fails
          · have hblock : ¬ c.task.IsCall := by
              obtain ⟨_, _, -, -, -, rfl⟩ := hbody.of_call
              exact id
            exact ih c (.tail (.single hbody) hbegins) (hrunning.body hbegins hbody) hblock hc
          · exact ⟨_, _, _, .result hrunning hbegins hbody hc hb⟩
        · have hnone (c : Moment) (hc : Begins ⟨n, .call f args span.start, m⟩ c) : False :=
            hbody ⟨c, hc⟩
          exact ⟨_, _, _, .within (hrunning.part hcall hbegins) hb (fun c hc => (hnone c hc).elim)
            fun _ => hnone⟩
    · exact ih _ (.single hbegins) (hrunning.part hcall hbegins) hiscall hfails
  · refine ⟨calls, _, _, .within hrunning ha (fun b hb hfails => hparts ⟨b, hb, hfails⟩) ?_⟩
    exact fun hiscall => absurd hiscall hcall

/-! ## What is raised -/

section
variable {start : Moment} {calls : List Activation} {c : Context} {cause : Cause}

/-- The bound on calls (`Context.maxDepth`) is never changed. -/
theorem Reaches.maxDepth {a b : Moment} (h : a.Reaches b) :
    b.machine.context.maxDepth = a.machine.context.maxDepth := by
  induction h with
  | refl => rfl
  | tail _ hbegins ih =>
    rcases hbegins.calls with hsame | ⟨f, site, context, henter, hsame⟩
    · exact hsame.maxDepth.trans ih
    · obtain ⟨-, rfl⟩ := Context.enter_eq_ok.1 henter
      exact hsame.maxDepth.trans ih

/-- A fault is raised in a context whose calls are those of a moment of the run
(`Context.SameCalls`). -/
theorem Raises.exists_running (h : start.Raises calls c cause) :
    ∃ a, Running start calls a ∧ a.machine.context.SameCalls c := by
  cases h with
  | @within _ a _ _ hrunning => exact ⟨a, hrunning, .refl _⟩
  | @result _ _ _ _ _ _ _ _ _ _ b _ hrunning hcall hbody =>
    exact ⟨b, hrunning.body hcall hbody, b.sameCalls_ending⟩

/-- A call that refuses what its body has come to (`Closure.checkResult`) names the calls in
progress. -/
theorem Faults.traceback_of_result {k : Nat} {f : Closure} {args : List Located}
    {site : Position} {m m' : Machine} {b : Moment} {e : Fault}
    (hbody : Begins ⟨k, .call f args site, m⟩ b) (hb : ¬ b.Fails)
    (h : Faults ⟨k, .call f args site, m⟩ e m') : e.traceback = b.ending.context.traceback := by
  obtain ⟨n, c, rfl, hcheck, henter, rfl⟩ := hbody.of_call
  obtain ⟨m₁, hcall⟩ := Closure.callWithin_of_enter (n := n) hcheck henter
  have htraced := (Prod.mk.inj (hcall.symm.trans h)).1
  obtain ⟨e₁, hlocated, rfl⟩ := Eval.traced_eq_fault.1 (Prod.ext htraced rfl)
  obtain ⟨e₂, hresult, rfl⟩ := Eval.located_eq_fault.1 hlocated
  rcases Eval.bind_eq_fault.1 hresult with hfails | ⟨r, m₂, hr, hrefused⟩
  · exact absurd ⟨e₂, _, hfails⟩ hb
  · obtain ⟨hnil, hmachine⟩ := (f.checkResult_immediate r).of_eq_fault hrefused
    have hat : (e₂.at? (some site)).traceback = [] := hnil
    have hending : m₂ = ending ⟨n, .block f.declaration.body, _⟩ := (congrArg Prod.snd hr).symm
    rw [Fault.traceback_within_of_nil hat, hmachine, hending]

/-- The evaluation fails for that cause, and its fault has the calls in progress as its traceback
unless it is not inside of any call. The bodies of calls fail with a place, and `Running.faults`
leads outwards from there. -/
theorem Raises.faults (hstart : ∀ a, start.Reaches a → a.machine.context.Orderly fun _ => True)
    (h : start.Raises calls c cause) : ∃ e m', start.Faults e m' ∧ e.cause = cause ∧
      (e.traceback = [] ∧ calls = [] ∨ e.traceback = c.traceback) := by
  cases h with
  | within hrunning ha hparts hcall =>
    have hnil := ha.traceback_eq_nil (hstart _ hrunning.reaches) hparts hcall
    obtain ⟨e, m', hfaults, hcause, ⟨hkept, hcalls⟩ | ⟨-, hgiven⟩⟩ := hrunning.faults ha
    · exact ⟨e, m', hfaults, hcause, .inl ⟨hkept.trans hnil, hcalls hnil⟩⟩
    · exact ⟨e, m', hfaults, hcause, .inr hgiven⟩
  | @result _ _ _ _ _ _ _ _ _ _ b _ hrunning hcall hbody hb ha =>
    have htraceback := ha.traceback_of_result hbody hb
    obtain ⟨e, m', hfaults, hcause, ⟨hkept, -⟩ | ⟨hnil, -⟩⟩ :=
      (hrunning.part id hcall).faults ha
    · exact ⟨e, m', hfaults, hcause, .inr (hkept.trans htraceback)⟩
    · exact absurd (htraceback.symm.trans hnil) b.ending.context.traceback_ne_nil

end

end Moment

/-! ## Programs -/

/-- A fault with this cause is raised in the run of a program, inside of these calls of functions,
in this context: by its statements (`Moment.Raises`), -/
inductive Block.Raises (fuel : Nat) (program : Block) (m : Machine) :
    List Activation → Context → Cause → Prop
  | within {calls : List Activation} {c : Context} {cause : Cause} :
    Moment.Raises ⟨fuel, .block program, m⟩ calls c cause → Raises fuel program m calls c cause
  /-- or by the program itself, which refuses what its statements have come to
  (`Cause.straySignal`). -/
  | result {e : Fault} {m' : Machine} : ¬ Moment.Fails ⟨fuel, .block program, m⟩ →
    program.run fuel m = (.fault e, m') → Raises fuel program m [] m'.context e.cause

section
variable {fuel : Nat} {program : Block} {m m' : Machine} {e : Fault}

/-- Where the statements of a program fail, the program fails with their fault, to which it adds its
traceback if there is none (`Fault.within`). -/
theorem Block.run_of_faults (h : Moment.Faults ⟨fuel, .block program, m⟩ e m') :
    program.run fuel m = (.fault (e.within m'.context.traceback), m') :=
  Eval.traced_eq_fault.2 ⟨e, Eval.bind_of_fault h, rfl⟩

/-- Where they do not, a fault of the program is that of a signal that they have come to
(`Located.refuseStray`). -/
theorem Block.traceback_of_result (hblock : ¬ Moment.Fails ⟨fuel, .block program, m⟩)
    (h : program.run fuel m = (.fault e, m')) :
    e.traceback = m'.context.traceback ∧ m.context.SameCalls m'.context := by
  obtain ⟨e', hfault, rfl⟩ := Eval.traced_eq_fault.1 h
  rcases Eval.bind_eq_fault.1 hfault with hfails | ⟨r, m₁, hr, hrefused⟩
  · exact absurd ⟨e', m', hfails⟩ hblock
  · have hsame : m.context.SameCalls m₁.context :=
      (Block.evaluate_obeys (callWithin_obeys fuel) program).steps_of_ok hr
    split at hrefused
    · cases hrefused
    · split at hrefused
      · cases hrefused
        exact ⟨Fault.traceback_within_of_nil rfl, hsame⟩
      · cases hrefused
    · cases hrefused

/-- The program fails while some evaluation in it fails, or by itself (`Block.Raises`). -/
theorem Block.exists_raises (h : program.run fuel m = (.fault e, m')) :
    ∃ calls c cause, program.Raises fuel m calls c cause := by
  by_cases hblock : Moment.Fails ⟨fuel, .block program, m⟩
  · obtain ⟨calls, c, cause, hraises⟩ := Moment.Running.start.exists_raises id hblock
    exact ⟨calls, c, cause, .within hraises⟩
  · exact ⟨[], m'.context, e.cause, .result hblock h⟩

end

/-- Where a fault of a program comes from: its place in the text (`Machine.Shows`), the evaluation
that raises it (`Block.Raises`), and the calls that are in progress there. -/
structure FaultProvenance (fuel : Nat) (program : Block) (m : Machine) (e : Fault) : Prop where
  /-- It is at a place where the program has a node or a name, or the body of a function that was
  bound before (`Machine.Shows`). -/
  placed : ∃ p, e.position = some p ∧ m.Shows program p
  /-- It is raised inside of some calls (`Block.Raises`), -/
  raised : ∃ calls c, program.Raises fuel m calls c e.cause
  /-- and wherever it is raised, its traceback lists these calls, innermost first, with the program
  itself (`Activation.main`) at the end. They are the calls in progress in that context
  (`Context.traceback`), and not more than `Context.maxDepth`. -/
  traced {calls : List Activation} {c : Context} {cause : Cause} :
    program.Raises fuel m calls c cause → cause = e.cause ∧
      e.traceback = calls ++ [.main] ∧ e.traceback = c.traceback ∧
      e.traceback.length = c.depth + 1 ∧ c.depth ≤ m.context.maxDepth

/-- Wherever a fault is raised in the run of a program that begins outside of all calls, the program
ends in it, with the calls that are in progress there (`Context.traceback`) as its traceback. -/
theorem Block.Raises.traced {fuel : Nat} {program : Block} {m m' : Machine} {e : Fault}
    {calls : List Activation} {c : Context} {cause : Cause} (hm : m.Reachable)
    (hframes : m.context.frames = []) (h : program.run fuel m = (.fault e, m'))
    (hraises : program.Raises fuel m calls c cause) :
    cause = e.cause ∧ e.traceback = c.traceback ∧ c.traceback = calls ++ [.main] ∧
      c.depth ≤ m.context.maxDepth := by
  have hzero : m.context.depth ≤ m.context.maxDepth := by
    rw [Context.depth, hframes]
    exact Nat.zero_le _
  have hmain {c : Context} (hsame : m.context.SameCalls c) : c.traceback = [.main] := by
    rw [hsame.traceback, Context.traceback, hframes]
    rfl
  cases hraises with
  | within hraises =>
    obtain ⟨a, hrunning, hsame⟩ := hraises.exists_running
    have hcalls : c.traceback = calls ++ [.main] := by
      have hactivations := hrunning.activations
      rw [hframes, List.map_nil, List.append_nil] at hactivations
      rw [hsame.traceback, Context.traceback, hactivations]
    have hdepth : c.depth ≤ m.context.maxDepth := by
      have hbounded := hrunning.reaches.bounded hzero
      rw [Moment.Bounded, hrunning.reaches.maxDepth] at hbounded
      rwa [hsame.depth]
    obtain ⟨e', m'', hfaults, rfl, htraceback⟩ := hraises.faults fun a ha =>
      (Machine.Reachable.beginning hm ha).orderly
    cases h.symm.trans (Block.run_of_faults hfaults)
    refine ⟨rfl, ?_, hcalls, hdepth⟩
    rcases htraceback with ⟨hnil, rfl⟩ | hgiven
    · rw [Fault.traceback_within_of_nil hnil, hmain hfaults.sameCalls, hcalls]
      rfl
    · rw [Fault.traceback_within_of_ne_nil (hgiven ▸ c.traceback_ne_nil), hgiven]
  | result hblock hrun =>
    cases h.symm.trans hrun
    obtain ⟨htraceback, hsame⟩ := Block.traceback_of_result hblock h
    refine ⟨rfl, htraceback, hmain hsame, ?_⟩
    rwa [hsame.depth]

/-- On every reachable machine (`Machine.Reachable`) on which no call is in progress, the faults of
programs come from where they say. Their places are given by `Block.run_placed`, and their
tracebacks by `Block.Raises.traced`. -/
theorem faultProvenance {fuel : Nat} {program : Block} {m m' : Machine} {e : Fault}
    (hm : m.Reachable) (hdepth : m.context.depth = 0)
    (h : program.run fuel m = (.fault e, m')) : FaultProvenance fuel program m e := by
  have hframes : m.context.frames = [] := List.eq_nil_of_length_eq_zero hdepth
  have htraced {calls : List Activation} {c : Context} {cause : Cause}
      (hraises : program.Raises fuel m calls c cause) : cause = e.cause ∧
      e.traceback = calls ++ [.main] ∧ e.traceback = c.traceback ∧
      e.traceback.length = c.depth + 1 ∧ c.depth ≤ m.context.maxDepth := by
    obtain ⟨hcause, hcontext, hcalls, hbounded⟩ := hraises.traced hm hframes h
    refine ⟨hcause, hcontext.trans hcalls, hcontext, ?_, hbounded⟩
    rw [hcontext, Context.traceback, List.length_append, List.length_map]
    rfl
  obtain ⟨calls, c, cause, hraises⟩ := Block.exists_raises h
  obtain ⟨rfl, -⟩ := htraced hraises
  exact ⟨Block.run_placed hm h, ⟨calls, c, hraises⟩, htraced⟩

/-- The program
```
function g() -> int { return x; }
function f() -> int { return g(); }
f();
```
-/
def nestedCalls : Block :=
  let span (row first last : Nat) : Span := ⟨⟨row, first⟩, ⟨row, last⟩⟩
  let g : Ident := ⟨"g", span 0 9 10⟩
  let f : Ident := ⟨"f", span 1 9 10⟩
  let inner : Node := ⟨span 0 22 30, .returnValue ⟨span 0 29 30, .variable ⟨"x", span 0 29 30⟩⟩⟩
  let outer : Node := ⟨span 1 22 32, .returnValue ⟨span 1 29 32, .call ⟨"g", span 1 29 30⟩ []⟩⟩
  ⟨⟨⟨0, 0⟩, ⟨2, 4⟩⟩,
    [⟨span 0 0 33, .function g [] .int ⟨span 0 20 33, [inner]⟩⟩,
      ⟨span 1 0 35, .function f [] .int ⟨span 1 20 35, [outer]⟩⟩,
      ⟨span 2 0 3, .call ⟨"f", span 2 0 1⟩ []⟩]⟩

/-- The fault of `nestedCalls` names both calls that are in progress when the variable is read, each
with the place where it stands in the program. -/
theorem nestedCalls_provenance :
    ∃ m', nestedCalls.run 3 (.initial 2) = (.fault ⟨.undefinedVariable "x", some ⟨0, 29⟩,
        [⟨"g", ⟨1, 29⟩⟩, ⟨"f", ⟨2, 0⟩⟩, .main]⟩, m') ∧
      FaultProvenance 3 nestedCalls (.initial 2) ⟨.undefinedVariable "x", some ⟨0, 29⟩,
        [⟨"g", ⟨1, 29⟩⟩, ⟨"f", ⟨2, 0⟩⟩, .main]⟩ :=
  ⟨_, rfl, faultProvenance (m := .initial 2) .initial rfl rfl⟩

end UnitScript
