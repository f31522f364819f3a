import UnitScript.Proofs.Calls.Local
import UnitScript.Proofs.Faults.Places

/-!
# How evaluations fail

An evaluation fails if one that begins directly inside it fails, and then it ends in the same fault
(`Moment.Begins.faults`), unless it is a call, which adds the place and the calls that are left
(`Moment.Begins.faults_call`). So what fails first fails innermost. A fault of an evaluation inside
of which nothing fails, and in which no call is entered, names no calls yet
(`Moment.Faults.traceback_eq_nil`): with a caller that never fails in place of the calls, which by
`Task.evaluate_congr` makes no difference there, all faults are raised by the evaluation itself.
-/

namespace UnitScript

namespace Moment

/-- The evaluation (`Task.evaluate`) ends in a fault, on a machine. -/
def Faults (a : Moment) (e : Fault) (m' : Machine) : Prop :=
  a.task.evaluate a.fuel (callWithin a.fuel) a.machine = (.fault e, m')

/-- The evaluation ends in a fault (`Moment.Faults`). -/
def Fails (a : Moment) : Prop := ∃ e m', a.Faults e m'

/-- An evaluation that fails ends with the calls in progress that it began with
(`Context.SameCalls`): calls are left on the way out. -/
theorem Faults.sameCalls {a : Moment} {e : Fault} {m' : Machine} (h : a.Faults e m') :
    a.machine.context.SameCalls m'.context := by
  have hending : a.ending = m' := congrArg Prod.snd h
  exact hending ▸ a.sameCalls_ending

end Moment

namespace Fault

variable {e : Fault} {traceback : List Activation}

/-- A fault that names no calls is given them (`Fault.within`). -/
theorem traceback_within_of_nil (h : e.traceback = []) :
    (e.within traceback).traceback = traceback := by
  simp only [within]
  exact if_pos (List.isEmpty_iff.2 h)

/-- A fault that names calls keeps them (`Fault.within`). -/
theorem traceback_within_of_ne_nil (h : e.traceback ≠ []) :
    (e.within traceback).traceback = e.traceback := by
  simp only [within]
  exact if_neg (mt List.isEmpty_iff.1 h)

/-- The calls of a context are named afterwards, for there is always the program itself
(`Context.traceback_ne_nil`). -/
theorem traceback_within_ne_nil (e : Fault) (c : Context) :
    (e.within c.traceback).traceback ≠ [] := by
  by_cases h : e.traceback = []
  · rw [traceback_within_of_nil h]
    exact c.traceback_ne_nil
  · rwa [traceback_within_of_ne_nil h]

end Fault

/-! ## Faults of parts -/

section
variable {m m' : Machine} {e : Fault}

/-- Where a value is needed that is not come to for a fault, that is the fault of `Node.demand`. -/
theorem Node.demand_of_fault {node : Node} {x : Eval (Option Located)}
    (h : x m = (.fault e, m')) : node.demand x m = (.fault e, m') :=
  Eval.bind_of_fault h

/-- A condition that is not come to for a fault has that fault (`Node.holds`). -/
theorem Node.holds_of_fault {node : Node} {x : Eval (Option Located)}
    (h : x m = (.fault e, m')) : node.holds x m = (.fault e, m') :=
  Eval.bind_of_fault (Node.demand_of_fault h)

/-- A fault is no result that may be changed: it is passed on. -/
theorem Eval.map_of_fault {α β : Type} (f : α → β) {x : Eval α} (h : x m = (.fault e, m')) :
    (f <$> x) m = (.fault e, m') := by
  rw [← bind_pure_comp]
  exact Eval.bind_of_fault h

/-- Nor one that a place may be given to (`producing`). -/
theorem producing_of_fault {span : Span} {x : Eval Value} (h : x m = (.fault e, m')) :
    producing span x m = (.fault e, m') :=
  Eval.bind_of_fault h

end

namespace Moment

/-- What fails inside an evaluation that is no call makes it end in the same fault. There is one
case for each of `Begins`. -/
theorem Begins.faults {a b : Moment} (h : a.Begins b) (hcall : ¬ a.task.IsCall) {e : Fault}
    {m' : Machine} (hb : b.Faults e m') : a.Faults e m' := by
  unfold Faults at hb ⊢
  cases h with
  | magnitude | operand | left | returned =>
    simp only [Task.evaluate, Node.evaluate] at hb ⊢
    exact producing_of_fault (Eval.bind_of_fault (Node.demand_of_fault hb))
  | unit hm =>
    obtain ⟨v, mid, hv, hn⟩ := Eval.bind_eq_ok.1 hm
    simp only [Task.evaluate, Node.evaluate] at hb ⊢
    refine producing_of_fault ((Eval.bind_of_ok hv).trans ((Eval.bind_of_ok hn).trans ?_))
    exact Eval.bind_of_fault (Node.demand_of_fault hb)
  | right hl =>
    simp only [Task.evaluate, Node.evaluate] at hb ⊢
    refine producing_of_fault ((Eval.bind_of_ok hl).trans ?_)
    exact Eval.bind_of_fault (Node.demand_of_fault hb)
  | assigned =>
    simp only [Task.evaluate, Node.evaluate] at hb ⊢
    exact Eval.bind_of_fault (Node.demand_of_fault hb)
  | chosen | loop | nested | otherwise =>
    simp only [Task.evaluate, Node.evaluate, Alternatives.evaluate] at hb ⊢
    exact hb
  | arguments hcallee =>
    simp only [Task.evaluate, Node.evaluate] at hb ⊢
    exact (Eval.bind_of_ok (Eval.view_eq_ok.2 ⟨hcallee, rfl⟩)).trans (Eval.bind_of_fault hb)
  | call hcallee hargs hlength =>
    simp only [Task.evaluate, Node.evaluate] at hb ⊢
    refine (Eval.bind_of_ok (Eval.view_eq_ok.2 ⟨hcallee, rfl⟩)).trans ?_
    refine (Eval.bind_of_ok hargs).trans ?_
    rcases checkArity_cases (.closure _) _ _ with ⟨-, hcheck⟩ | ⟨hne, -⟩
    · rw [hcheck, pure_bind]
      exact Eval.bind_of_fault hb
    · exact absurd hlength hne
  | argument =>
    simp only [Task.evaluate, Node.evaluateArgs] at hb ⊢
    exact Eval.bind_of_fault (Node.demand_of_fault hb)
  | moreArguments hv =>
    simp only [Task.evaluate, Node.evaluateArgs] at hb ⊢
    exact (Eval.bind_of_ok hv).trans (Eval.bind_of_fault hb)
  | item =>
    simp only [Task.evaluate, Node.evaluateItems] at hb ⊢
    exact Eval.bind_of_fault hb
  | moreItems hv hquiet =>
    simp only [Task.evaluate, Node.evaluateItems] at hb ⊢
    refine (Eval.bind_of_ok hv).trans ?_
    rw [hquiet]
    exact hb
  | @items n b m =>
    obtain ⟨span, es⟩ := b
    simp only [Task.evaluate, Block.evaluate] at hb ⊢
    exact hb
  | caseCondition =>
    simp only [Task.evaluate, Alternatives.evaluate] at hb ⊢
    exact Eval.bind_of_fault (Node.holds_of_fault hb)
  | caseBody hc | caseOthers hc =>
    simp only [Task.evaluate, Alternatives.evaluate] at hb ⊢
    exact (Eval.bind_of_ok hc).trans hb
  | loopCondition =>
    simp only [Task.evaluate, Eval.repeatWhile] at hb ⊢
    exact Eval.bind_of_fault (Node.holds_of_fault hb)
  | loopBody hc =>
    simp only [Task.evaluate, Eval.repeatWhile] at hb ⊢
    refine (Eval.bind_of_ok hc).trans (Eval.bind_of_fault ?_)
    exact Eval.map_of_fault afterRound hb
  | moreRounds hc hbody =>
    simp only [Task.evaluate, Eval.repeatWhile] at hb ⊢
    exact (Eval.bind_of_ok hc).trans ((Eval.bind_of_ok hbody).trans hb)
  | body => exact absurd trivial hcall

end Moment

namespace Closure

variable {n : Nat} {f : Closure} {args : List Located} {site : Position} {m : Machine}
  {c : Context}

/-- A call that is entered (`Context.enter`) comes to what its body comes to, once that is checked
(`Closure.checkResult`). -/
theorem callWithin_of_enter (hcheck : f.checkArguments f.declaration.params args m = (.ok (), m))
    (henter : m.context.enter f site = .ok c) :
    ∃ m', callWithin (n + 1) f args site m =
      ((Eval.traced (Eval.located site
        (f.declaration.body.evaluate n (callWithin n) >>= f.checkResult))
          { m with context := bindParams f.declaration.params args c }).1, m') := by
  have hobeys : (f.declaration.body.evaluate n (callWithin n)).Obeys .calls :=
    Block.evaluate_obeys (callWithin_obeys n) f.declaration.body
  have hsame := (inside_obeys hobeys f args site).steps { m with context := c }
  rw [callWithin_succ, call_eq]
  exact ⟨_, (Eval.bind_of_ok hcheck).trans (Eval.entered_of_ok henter hsame)⟩

end Closure

namespace Moment

/-- What fails inside a call makes the call fail, with a place (`Fault.at?`) and with the calls that
are left (`Fault.within`). -/
theorem Begins.faults_call {k : Nat} {f : Closure} {args : List Located} {site : Position}
    {m : Machine} {b : Moment} (h : Begins ⟨k, .call f args site, m⟩ b) {e : Fault} {m' : Machine}
    (hb : b.Faults e m') : ∃ m'', Faults ⟨k, .call f args site, m⟩
      ((e.at? (some site)).within m'.context.traceback) m'' := by
  obtain ⟨n, c, rfl, hcheck, henter, rfl⟩ := h.of_call
  obtain ⟨m'', hcall⟩ := Closure.callWithin_of_enter (n := n) hcheck henter
  refine ⟨m'', hcall.trans (congrArg (·, m'') ?_)⟩
  have hbody := Eval.bind_of_fault (f := f.checkResult) hb
  exact congrArg Prod.fst (Eval.traced_eq_fault.2 ⟨_, Eval.located_eq_fault.2 ⟨e, hbody, rfl⟩, rfl⟩)

/-- Whatever fails inside an evaluation makes it fail (`Begins.faults`, `Begins.faults_call`). -/
theorem Begins.fails {a b : Moment} (h : a.Begins b) (hb : b.Fails) : a.Fails := by
  obtain ⟨e, m', hb⟩ := hb
  obtain ⟨n, task, m⟩ := a
  cases task with
  | call f args site =>
    obtain ⟨m'', ha⟩ := h.faults_call hb
    exact ⟨_, m'', ha⟩
  | node | arguments | items | block | alternatives | loop => exact ⟨e, m', h.faults id hb⟩

/-- The same holds of whatever fails in its course (`Moment.Reaches`). -/
theorem Reaches.fails {a b : Moment} (h : a.Reaches b) (hb : b.Fails) : a.Fails := by
  induction h using Relation.ReflTransGen.head_induction_on with
  | refl => exact hb
  | head hbegins _ ih => exact hbegins.fails ih

end Moment

/-! ## Faults that name no calls -/

/-- A caller that does not fail: where the given one has a fault, this one runs out of fuel. It
serves to tell the faults of a task from those of the calls in it. -/
def Caller.quiet (run : Caller) : Caller := fun f args site m =>
  match run f args site m with
  | (.fault _, m') => (.outOfFuel, m')
  | ended => ended

/-- A caller that does not fail (`Caller.quiet`) has all the results that the caller has. -/
theorem Caller.quiet_blames {places : Position → Prop} {run : Caller}
    (hrun : run.Blames (.known places)) : run.quiet.Blames (.fresh places) := by
  intro f args site hf hargs hsite
  have hcall := hrun hf hargs hsite
  refine ⟨fun {m} hm => ?_, fun {m r} hm hr => ?_, fun {m e} hm he => ?_⟩
  · have hm' := hcall.machines hm
    unfold quiet
    rcases h : run f args site m with ⟨r | e | _, m'⟩ <;> rwa [h] at hm'
  · unfold quiet at hr
    rcases h : run f args site m with ⟨r' | e | _, m'⟩ <;> rw [h] at hr <;> cases hr
    exact hcall.result hm (congrArg Prod.fst h)
  · unfold quiet at he
    rcases h : run f args site m with ⟨r' | e' | _, m'⟩ <;> rw [h] at he <;> cases he

namespace Moment

/-- A caller that does not fail does what calls do where none of them fails (`Moment.Follows`). -/
theorem follows_quiet {a : Moment} (hcall : ¬ a.task.IsCall)
    (hparts : ∀ b, a.Begins b → ¬ b.Fails) : a.Follows (Caller.quiet (callWithin a.fuel)) := by
  intro f args site m hreaches
  rcases h : callWithin a.fuel f args site m with ⟨r | e | _, m'⟩
  · rw [Caller.quiet, h]
  · rcases Relation.ReflTransGen.cases_head hreaches with heq | ⟨b, hbegins, hrest⟩
    · rw [heq] at hcall
      exact absurd trivial hcall
    · exact absurd (Reaches.fails hrest ⟨e, m', h⟩) (hparts b hbegins)
  · rw [Caller.quiet, h]

end Moment

/-- A task that is no call has a fault that names no calls, if calls do not fail
(`Caller.quiet`). -/
theorem Task.traceback_of_quiet {n : Nat} {task : Task} (hcall : ¬ task.IsCall) {m : Machine}
    (hm : m.context.Orderly fun _ => True) {e : Fault}
    (h : (task.evaluate n (Caller.quiet (callWithin n)) m).1 = .fault e) : e.traceback = [] := by
  have hrun : (Caller.quiet (callWithin n)).Blames (.fresh fun _ => True) :=
    Caller.quiet_blames (callWithin_blames _ n)
  have hnode (e : Node) := @Node.evaluate_blames _ n _ hrun e fun _ _ => trivial
  have hblock (b : Block) := @Block.evaluate_blames _ n _ hrun b fun _ _ => trivial
  cases task with
  | node e => exact (hnode e).fault hm h
  | arguments es =>
    exact (@Node.evaluateArgs_blames _ n _ hrun es fun _ _ => trivial).fault hm h
  | items last es =>
    cases es with
    | nil => cases h
    | cons e es =>
      -- What the statements before came to is not looked at while there is another one.
      have hitems := @Node.evaluateItems_blames _ n _ hrun (e :: es) (fun _ _ => trivial) _ .none
      simp only [Task.evaluate, Node.evaluateItems] at h hitems
      exact hitems.fault hm h
  | block b => exact (hblock b).fault hm h
  | alternatives a =>
    exact (@Alternatives.evaluate_blames _ n _ hrun a fun _ _ => trivial).fault hm h
  | loop condition body rounds =>
    have hcondition := @Node.holds_blames _ condition (fun _ _ => trivial) _ (hnode condition)
    exact (Eval.Blames.repeatWhile hcondition ((hblock body).map fun _ => Produced.afterRound)
      Produced.none rounds).fault hm h
  | call => exact absurd trivial hcall

namespace Moment

/-- A call whose body does not begin fails before it is entered (`Context.enter`), and names no
calls. -/
theorem Faults.traceback_of_call {n : Nat} {f : Closure} {args : List Located} {site : Position}
    {m m' : Machine} {e : Fault} (h : Faults ⟨n, .call f args site, m⟩ e m')
    (hbody : ∀ b, ¬ Begins ⟨n, .call f args site, m⟩ b) : e.traceback = [] := by
  unfold Faults at h
  cases n with
  | zero => cases h
  | succ n =>
    simp only [Task.evaluate] at h
    rw [callWithin_succ, Closure.call_eq] at h
    rcases f.checkArguments_cases f.declaration.params args with
      ⟨-, hcheck⟩ | ⟨-, cause, position, -, hcheck⟩
    · cases henter : m.context.enter f site with
      | ok c => exact absurd (.body (congrFun hcheck m) henter) (hbody _)
      | error cause =>
        rw [hcheck, pure_bind, Eval.entered_of_error henter] at h
        cases h
        rfl
    · rw [hcheck, Eval.fail_bind] at h
      cases h
      rfl

/-- A fault of an evaluation inside of which nothing fails, and in which no call is entered, names
no calls: it could as well be run with `Caller.quiet`. -/
theorem Faults.traceback_eq_nil {a : Moment} (ha : a.machine.context.Orderly fun _ => True)
    {e : Fault} {m' : Machine} (h : a.Faults e m') (hparts : ∀ b, a.Begins b → ¬ b.Fails)
    (hcall : a.task.IsCall → ∀ b, ¬ a.Begins b) : e.traceback = [] := by
  obtain ⟨n, task, m⟩ := a
  by_cases hiscall : task.IsCall
  · cases task with
    | call => exact h.traceback_of_call (hcall hiscall)
    | node | arguments | items | block | alternatives | loop => exact absurd hiscall id
  · refine Task.traceback_of_quiet (n := n) hiscall ha ?_
    have hcongr := Task.evaluate_congr (follows_quiet hiscall hparts)
    exact congrArg Prod.fst (hcongr.trans h)

end Moment

end UnitScript
