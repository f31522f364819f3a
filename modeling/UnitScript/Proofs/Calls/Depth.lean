import Mathlib.Data.List.Forall2
import UnitScript.Proofs.Calls.Local
import UnitScript.Proofs.Calls.Storage

/-!
# How deep calls go

Calls are refused where one more would be too many, and only there: a call whose arguments are
accepted is refused if as many calls are in progress as there may be (`call_refused_iff`). So the
depth never passes its bound. `CallDiscipline` puts together what holds of every evaluation that
starts within the bound, whatever tree is evaluated and however it ends.
-/

namespace UnitScript

/-! ## Refused calls -/

/-- Arguments fit the parameters they are for, so that `Closure.checkArguments` lets them
through. -/
def Closure.Accepts (f : Closure) (args : List Located) : Prop :=
  List.Forall₂ (fun arg (param : Param) => arg.value.fits param.type = true) args
    f.declaration.params

/-- As many arguments as there are parameters are accepted (`Closure.Accepts`) if each of them fits
its parameter (`Value.fits`). -/
theorem Closure.accepts_iff {f : Closure} {args : List Located}
    (hlength : args.length = f.declaration.params.length) :
    f.Accepts args ↔
      ∀ p ∈ args.zip f.declaration.params, p.1.value.fits p.2.type = true := by
  rw [Accepts, List.forall₂_iff_zip]
  exact ⟨fun h p hp => h.2 hp, fun h => ⟨hlength, fun hp => h _ hp⟩⟩

/-- A fault from inside of `Eval.traced` names the calls that were in progress: even the program
itself is one of them (`Context.traceback_ne_nil`). -/
theorem Eval.traceback_of_traced {α : Type} {x : Eval α} {m : Machine} {e : Fault}
    (h : (Eval.traced x m).1 = .fault e) : e.traceback ≠ [] := by
  unfold Eval.traced at h
  rcases hx : x m with ⟨a | e' | _, m'⟩ <;> rw [hx] at h <;> cases h
  simp only [Fault.within]
  split
  · exact m'.context.traceback_ne_nil
  · next hsome => simpa using hsome

/-- A call with the right number of arguments is refused at its entry exactly if they fit
(`Closure.Accepts`) and one more call would be too many. A fault from inside a call would name the
calls in progress (`Eval.traceback_of_traced`), so an empty traceback tells them apart. -/
theorem callWithin_refused_iff {fuel : Nat} {f : Closure} {args : List Located} {site : Position}
    {m : Machine} (hm : m.context.depth ≤ m.context.maxDepth)
    (hlength : args.length = f.declaration.params.length) :
    (∃ e m', callWithin (fuel + 1) f args site m = (.fault e, m') ∧
        e.cause.kind = .recursionLimit ∧ e.traceback = []) ↔
      f.Accepts args ∧ m.context.depth = m.context.maxDepth := by
  have hbody : (f.declaration.body.evaluate fuel (callWithin fuel)).Obeys .calls :=
    Block.evaluate_obeys (callWithin_obeys fuel) f.declaration.body
  have hinside := Closure.inside_obeys hbody f args site
  rw [callWithin_succ, Closure.call_eq]
  rw [Closure.accepts_iff hlength]
  rcases f.checkArguments_cases f.declaration.params args with
    ⟨hall, hcheck⟩ | ⟨⟨p, hp, hmisfit⟩, cause, position, hkind, hcheck⟩
  · rw [hcheck, pure_bind]
    cases henter : m.context.enter f site with
    | error cause =>
      obtain ⟨hle, rfl⟩ := Context.enter_eq_error.1 henter
      rw [Eval.entered_of_error henter]
      exact ⟨fun _ => ⟨hall, Nat.le_antisymm hm hle⟩, fun _ => ⟨_, m, rfl, rfl, rfl⟩⟩
    | ok c =>
      obtain ⟨hlt, -⟩ := Context.enter_eq_ok.1 henter
      refine ⟨?_, ?_⟩
      · rintro ⟨e, m', hrun, -, htraceback⟩
        rw [Eval.entered_of_ok henter (hinside.steps { m with context := c })] at hrun
        exact absurd htraceback (Eval.traceback_of_traced (congrArg Prod.fst hrun))
      · rintro ⟨-, hdepth⟩
        exact absurd hdepth (Nat.ne_of_lt hlt)
  · refine ⟨?_, ?_⟩
    · rintro ⟨e, m', hrun, hlimit, -⟩
      rw [hcheck, Eval.fail_bind] at hrun
      cases hrun
      cases hkind.symm.trans hlimit
    · rintro ⟨hall, -⟩
      cases hmisfit.symm.trans (hall p hp)

/-- Where `Context.callee` finds a function, the arguments of a call come next, then their number is
checked, and then the function is called. -/
theorem Node.run_call_of_callee {fuel : Nat} {span : Span} {ident : Ident} {es : List Node}
    {m : Machine} {f : Callable} (hcallee : m.context.callee ident.name = .ok f) :
    Node.run fuel ⟨span, .call ident es⟩ m =
      (do let args ← Node.evaluateArgs fuel (callWithin fuel) es
          checkArity f args span.start
          let result ← f.call (callWithin fuel) args span.start
          return result.map fun v => ⟨v.value, some span⟩ : Eval (Option Located)) m := by
  have hview : Eval.view (·.callee ident.name) (some ident.span.start) m = (.ok f, m) := by
    rw [Eval.view, hcallee]
    rfl
  rw [Node.run, Node.evaluate, Eval.bind_of_ok hview]

/-- The same for a call expression (`Node.run`) whose arguments have come to values by
`Node.evaluateArgs`: it is refused at its entry exactly if they are as many as there are parameters,
fit these, and one more call would be too many. -/
theorem call_refused_iff {fuel : Nat} {span : Span} {ident : Ident} {es : List Node} {f : Closure}
    {args : List Located} {m m' : Machine} (hm : m.context.depth ≤ m.context.maxDepth)
    (hcallee : m.context.callee ident.name = .ok (.closure f))
    (hargs : Node.evaluateArgs (fuel + 1) (callWithin (fuel + 1)) es m = (.ok args, m')) :
    (∃ e m'', Node.run (fuel + 1) ⟨span, .call ident es⟩ m = (.fault e, m'') ∧
        e.cause.kind = .recursionLimit ∧ e.traceback = []) ↔
      args.length = f.declaration.params.length ∧ f.Accepts args ∧
        m'.context.depth = m'.context.maxDepth := by
  have hsame : m.context.SameCalls m'.context :=
    (Node.evaluateArgs_obeys (callWithin_obeys (fuel + 1)) es).steps_of_ok hargs
  have hm' : m'.context.depth ≤ m'.context.maxDepth := by
    rw [hsame.depth, hsame.maxDepth]
    exact hm
  rw [Node.run_call_of_callee hcallee, Eval.bind_of_ok hargs]
  rcases checkArity_cases (.closure f) args span.start with
    ⟨hlength, hcheck⟩ | ⟨hne, cause, position, hkind, hcheck⟩
  · have hcall := @callWithin_refused_iff fuel f args span.start m' hm' hlength
    rw [hcheck, pure_bind]
    refine ⟨?_, ?_⟩
    · rintro ⟨e, m'', hfault, hlimit, htraceback⟩
      rcases Eval.bind_eq_fault.1 hfault with h | ⟨_, _, -, h⟩
      · exact ⟨hlength, hcall.1 ⟨e, m'', h, hlimit, htraceback⟩⟩
      · cases h
    · rintro ⟨-, haccepted⟩
      obtain ⟨e, m'', h, hlimit, htraceback⟩ := hcall.2 haccepted
      exact ⟨e, m'', Eval.bind_of_fault h, hlimit, htraceback⟩
  · rw [hcheck, Eval.fail_bind]
    refine ⟨?_, ?_⟩
    · rintro ⟨e, m'', hfault, hlimit, -⟩
      cases hfault
      rcases hkind with hkind | hkind
      · cases hkind.symm.trans hlimit
      · cases hkind.symm.trans hlimit
    · rintro ⟨hlength, -⟩
      exact absurd hlength hne

/-! ## The discipline as a whole -/

/-- The storage is run, by operations in place (`Storage.Runs`), until it keeps a context
(`Storage.Keeps`). At the end it is in order, with the calls in progress and with all scopes that
it had before except for the innermost and the global one (`Storage.SameCalls`). -/
def Storage.RunsTo (s : Storage) (c : Context) : Prop :=
  ∃ s', s.Runs s' ∧ s.SameCalls s' ∧ s'.Stacked ∧ s'.Keeps c

/-- Whatever is run on the storage of a context that is in order leaves it in order. -/
theorem Storage.Runs.runsTo {s : Storage} {c : Context} (h : s.Runs c.storage) (hs : s.Stacked) :
    s.RunsTo c :=
  ⟨c.storage, h, h.sameCalls hs, h.stacked hs, c.keeps_storage⟩

/-- How calls are stacked in every evaluation that starts on a machine. What is said of scopes and
of the call stack is said of the `Storage` of the machine, two lists that the run changes in place
by the operations of `Storage.perform`. -/
structure CallDiscipline (fuel : Nat) (m : Machine) : Prop where
  /-- The run of any node leaves as many scopes and the same call stack as there were, and every
  scope but the innermost and the global one as it was, whatever the node has come to
  (`Storage.RunsTo`). -/
  node (e : Node) : m.context.storage.RunsTo (e.run fuel m).2.context
  /-- The same holds of the run of any program by `Block.run`, which hands on what it returns. -/
  program (b : Block) : m.context.storage.RunsTo (b.run fuel m).2.context
  /-- No run of a node fails for want of a call to leave: there is always one for
  `Context.leave`. -/
  node_leaves {e : Node} {fault : Fault} {m' : Machine} : e.run fuel m = (.fault fault, m') →
    fault.cause.kind ≠ .noCallToLeave
  /-- No run of a program fails for want of a call to leave either. -/
  program_leaves {b : Block} {fault : Fault} {m' : Machine} : b.run fuel m = (.fault fault, m') →
    fault.cause.kind ≠ .noCallToLeave
  /-- Between any two operations in place (`Storage.Reaches`) the scopes are in step with the call
  stack, all of them but the global one have the global one as their parent, and no more calls are
  in progress than there may be (`Storage.Stacked`). -/
  stacked {s : Storage} : m.context.storage.Reaches s → s.Stacked
  /-- Whatever begins in the course of a run (`Moment.Reaches`) begins with such a storage, which
  keeps its context with scopes and activations paired, and is run in place until it ends. -/
  moments {task : Task} {a : Moment} : Moment.Reaches ⟨fuel, task, m⟩ a →
    ∃ s, m.context.storage.Reaches s ∧ s.Stacked ∧ s.Keeps a.machine.context ∧
      s.RunsTo a.ending.context
  /-- What begins in this way is all that happens: an evaluation with any other way to run calls,
  if that agrees with `callWithin` on the calls that are reached (`Moment.Follows`), comes to the
  same. -/
  made {task : Task} {run : Caller} : Moment.Follows run ⟨fuel, task, m⟩ →
    task.evaluate fuel run m = task.evaluate fuel (callWithin fuel) m
  /-- In the same way, a call runs the body of its function where `Moment.Begins` says that it
  begins, and nowhere else. -/
  bodies {n : Nat} {f : Closure} {args : List Located} {site : Position}
    {body : Eval (Option Located)} : fuel = n + 1 →
    (∀ m', Moment.Begins ⟨fuel, .call f args site, m⟩ ⟨n, .block f.declaration.body, m'⟩ →
      body m' = f.declaration.body.evaluate n (callWithin n) m') →
    Closure.call body f args site m = callWithin fuel f args site m
  /-- A call of a function is refused for its depth exactly if its arguments are accepted, by their
  number and by `Closure.Accepts`, and as many calls are in progress as there may be. A fault
  without a traceback is one of this call itself: those from inside of it name calls in
  progress. -/
  refused {span : Span} {ident : Ident} {es : List Node} {f : Closure} {args : List Located}
    {m' : Machine} : 0 < fuel →
    m.context.callee ident.name = .ok (.closure f) →
    Node.evaluateArgs fuel (callWithin fuel) es m = (.ok args, m') →
    ((∃ e m'', Node.run fuel ⟨span, .call ident es⟩ m = (.fault e, m'') ∧
        e.cause.kind = .recursionLimit ∧ e.traceback = []) ↔
      args.length = f.declaration.params.length ∧ f.Accepts args ∧
        m'.context.depth = m'.context.maxDepth)

/-- Every evaluation that starts within the bound on calls keeps them in order: `CallDiscipline`
holds of every machine on which no more calls are in progress than there may be, and with any
amount of fuel. -/
theorem callDiscipline (fuel : Nat) {m : Machine} (hm : m.context.depth ≤ m.context.maxDepth) :
    CallDiscipline fuel m where
  node e := ((e.run_obeys (callWithin_storage fuel)).steps m).runsTo (Context.storage_stacked hm)
  program b := ((b.run_obeys (callWithin_storage fuel)).steps m).runsTo (Context.storage_stacked hm)
  node_leaves h := (Node.run_obeys (callWithin_obeys fuel) _).causes (congrArg Prod.fst h)
  program_leaves h := (Block.run_obeys (callWithin_obeys fuel) _).causes (congrArg Prod.fst h)
  stacked h := h.stacked (Context.storage_stacked hm)
  moments {task a} ha := by
    have hstacked := ha.storage.stacked (Context.storage_stacked hm)
    exact ⟨a.machine.context.storage, ha.storage, hstacked, Context.keeps_storage _,
      (a.steps_ending callWithin_storage).runsTo hstacked⟩
  made h := Task.evaluate_congr h
  bodies := by
    rintro n f args site body rfl h
    exact Closure.call_congr h
  refused := by
    intro span ident es f args m' hfuel hcallee hargs
    obtain ⟨n, rfl⟩ := Nat.exists_eq_add_of_lt hfuel
    rw [Nat.zero_add] at hargs ⊢
    exact call_refused_iff hm hcallee hargs

/-! ## A call inside of a call -/

/-- The call `climb(n)`. -/
def climbCall : Node :=
  ⟨.origin, .call ⟨"climb", .origin⟩ [⟨.origin, .variable ⟨"n", .origin⟩⟩]⟩

/-- The function `function climb(n: int) -> int { return climb(n); }`, which captures nothing. -/
def climb : Closure where
  declaration :=
    ⟨⟨"climb", .origin⟩, [⟨⟨"n", .origin⟩, .int⟩], .int,
      ⟨.origin, [⟨.origin, .returnValue climbCall⟩]⟩⟩
  captured := []

/-- A machine with room for two calls that knows `climb` and is inside of so many calls of it, as
`Context.enter` would have left it. -/
def climbing (calls : Nat) : Machine where
  context :=
    { (Context.initial 2).define climb with
      frames := List.replicate calls
        ⟨⟨"climb", .origin⟩, [("n", ⟨.number (.int 7), some .origin⟩)]⟩ }
  printed := #[]

/-- Inside of one call of `climb` another one is not refused, and its body begins with two calls in
progress. The call in that body is refused: its fault names both calls, and when it is reported the
scopes are as they were (`Storage.RunsTo`). Inside of two calls of `climb` the first further one is
refused at its entry. -/
theorem climb_disciplined :
    (¬ ∃ e m', climbCall.run 3 (climbing 1) = (.fault e, m') ∧
      e.cause.kind = .recursionLimit ∧ e.traceback = []) ∧
    (∃ a, ∃ s : Storage, Moment.Reaches ⟨3, .node climbCall, climbing 1⟩ a ∧
      a.task = .block climb.declaration.body ∧ s.Stacked ∧ s.Keeps a.machine.context ∧
      s.current = 2) ∧
    (∃ m', climbCall.run 3 (climbing 1) =
        (.fault ⟨.recursionLimit "climb" 2, some .origin,
          [⟨"climb", .origin⟩, ⟨"climb", .origin⟩, .main]⟩, m') ∧
      (climbing 1).context.storage.RunsTo m'.context) ∧
    ∃ e m', climbCall.run 3 (climbing 2) = (.fault e, m') ∧
      e.cause.kind = .recursionLimit ∧ e.traceback = [] := by
  have hone : CallDiscipline 3 (climbing 1) := callDiscipline 3 (by decide)
  have htwo : CallDiscipline 3 (climbing 2) := callDiscipline 3 (by decide)
  have haccepted : climb.Accepts [⟨.number (.int 7), some .origin⟩] := .cons rfl .nil
  have hbody : ∃ m, Moment.Reaches ⟨3, .node climbCall, climbing 1⟩
      ⟨2, .block climb.declaration.body, m⟩ ∧ m.context.depth = 2 :=
    ⟨_, .tail (.single (.call rfl rfl rfl)) (.body rfl rfl), rfl⟩
  refine ⟨fun h => ?_, ?_, ⟨_, rfl, hone.node climbCall⟩, ?_⟩
  · obtain ⟨-, -, hdepth⟩ := (hone.refused (by decide) rfl rfl).1 h
    exact absurd hdepth (by decide)
  · obtain ⟨m, hreaches, hdepth⟩ := hbody
    obtain ⟨s, -, hstacked, hkeeps, -⟩ := hone.moments hreaches
    refine ⟨_, s, hreaches, rfl, hstacked, hkeeps, ?_⟩
    rw [Context.eq_storage_of_keeps hkeeps hstacked, Context.storage_current, hdepth]
  · exact (htwo.refused (by decide) rfl rfl).2 ⟨rfl, haccepted, rfl⟩

end UnitScript
