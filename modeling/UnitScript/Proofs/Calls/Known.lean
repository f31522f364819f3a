import UnitScript.Proofs.Calls.Rules
import UnitScript.Proofs.Machine.Bound

/-!
# The functions that evaluations hand on

No step of an evaluation makes a function out of another one. Functions are defined
(`Moment.Defines`), and then bound, read, passed on and returned as they are. So where some
functions are known, and all those that are defined in the course of an evaluation are among them
(`Moment.Known`), it binds and comes to known functions only (`Eval.Confined`).

This is shown of a computation on the machine on which it begins, since only there it is settled
which evaluations begin inside of it. The trees are gone through as the evaluator does it, and calls
by their rules (`Closure.Runs`).
-/

namespace UnitScript

/-- The function is defined by the evaluation at this moment: the task is its declaration, and what
it captures is what `Context.capture` gives there. -/
def Moment.Defines (d : Moment) (f : Closure) : Prop :=
  ∃ span, d.task = .node ⟨span, .function f.declaration.ident f.declaration.params
    f.declaration.returns f.declaration.body⟩ ∧ f.captured = d.machine.context.capture

/-! ## Known functions -/

/-- A machine is in order, and the functions that it binds are known. Which functions are known is
left open here; `Closure.DefinedBefore` is one way. -/
structure Machine.Knows (known : Closure → Prop) (m : Machine) : Prop where
  orderly : m.context.Orderly fun _ => True
  stored {f : Closure} : m.Stores f → known f

/-- A value is in order, and the functions that it gives (`Value.Gives`) are known. -/
structure Value.Within (known : Closure → Prop) (v : Value) : Prop where
  capturing : v.Capturing
  given {f : Closure} : v.Gives f → known f

/-- The value of a result, if there is one, is in order (`Value.Within`). -/
def Located.Within (known : Closure → Prop) (result : Option Located) : Prop :=
  ∀ v ∈ result, v.value.Within known

section
variable {known : Closure → Prop} {m : Machine} {name : String} {v : Value}

/-- Where there is no result, none can be out of order. -/
theorem Located.within_none : Located.Within known none := by
  intro v hv
  cases hv

namespace Value

/-- A value that gives no functions (`Value.Gives`) is in order. -/
theorem within_of_not_gives (h : ∀ f, ¬ v.Gives f) : v.Within known :=
  ⟨fun f hf => absurd hf (h f), fun {f} hf => absurd hf (h f)⟩

/-- Plain values give no functions, so they are in order (`Value.Within`). -/
theorem Plain.within (h : v.Plain) : v.Within known := by
  refine within_of_not_gives fun f hf => ?_
  cases hf with
  | function => exact h.ne_function f rfl
  | returned => cases h.isSignal

/-- A function that is known, and has captured plain values only (`Bindings.Plain`), is a value in
order. -/
theorem Within.function {f : Closure} (h : known f) (hcaptured : Bindings.Plain f.captured) :
    (Value.function f).Within known := by
  refine ⟨fun g hg => ?_, fun hg => ?_⟩
  · cases hg
    exact hcaptured
  · cases hg
    exact h

/-- What hands on a value by `return` gives the functions that this value gives (`Value.Gives`). -/
theorem Within.returning {v : Located} (h : v.value.Within known) :
    (Value.returning (some v)).Within known := by
  refine ⟨fun g hg => ?_, fun hg => ?_⟩
  · cases hg with
    | returned hg => exact h.capturing g hg
  · cases hg with
    | returned hg => exact h.given hg

/-- The value that is handed on by `return` is in order where the signal is. -/
theorem Within.returned {v : Located} (h : (Value.returning (some v)).Within known) :
    v.value.Within known :=
  ⟨fun g hg => h.capturing g (.returned hg), fun hg => h.given (.returned hg)⟩

end Value

namespace Machine.Knows

/-- What is read (`Context.read`) is in order: it is no signal, and if it is a function this is
stored. -/
theorem read (h : m.Knows known) {v : Located} (hread : m.context.read name = .ok v) :
    v.value.Within known := by
  refine ⟨(h.orderly.read hread).capturing, fun {f} hf => ?_⟩
  have hsignal := (h.orderly.read hread).isSignal
  generalize hvalue : v.value = w at hf hsignal
  cases hf with
  | function => exact h.stored (h.orderly.mem_of_read hread hvalue)
  | returned => cases hsignal

/-- A function that is found for a call (`Context.callee`) is in order: it is stored. -/
theorem callee (h : m.Knows known) {f : Closure} (hf : m.context.callee name = .ok (.closure f)) :
    (Value.function f).Within known :=
  ⟨(h.orderly.callee hf).capturing, fun hg => by
    cases hg
    exact h.stored (Context.Orderly.mem_of_callee hf)⟩

/-- After a value in order has been bound globally, by `Context.bindGlobal`, all functions that are
stored are known. -/
theorem stored_bindGlobal (h : m.Knows known) {v : Located} (hv : v.value.Within known)
    {f : Closure} (hf : Machine.Stores { m with context := m.context.bindGlobal name v } f) :
    known f := by
  obtain ⟨entry, hentry, hvalue⟩ := hf
  have hbound := @Bindings.forall_mem_put m.context.globals name v
    (fun w => ∀ g, w = .function g → known g)
    (fun entry hentry _ hg => h.stored ⟨entry, hentry, hg⟩) fun _ hg => hv.given (hg ▸ .function)
  exact hbound entry hentry f hvalue

/-- The same holds after `Context.bind`, which binds inside of a call if one is in progress. -/
theorem stored_bind (h : m.Knows known) {v : Located} (hv : v.value.Within known)
    {f : Closure} (hf : Machine.Stores { m with context := m.context.bind name v } f) :
    known f := by
  unfold Context.bind at hf
  split at hf
  · exact h.stored_bindGlobal hv hf
  · exact h.stored hf

/-- A variable may be set (`Context.set`) to a value in order. -/
theorem set (h : m.Knows known) {type : Option TypeName} {v : Located} {context : Context}
    (hv : v.value.Within known) (hset : m.context.set name type v = .ok context) :
    Knows known { m with context } := by
  refine ⟨h.orderly.set hv.capturing.storable hset, fun {f} hf => ?_⟩
  unfold Context.set Context.declare Context.assign at hset
  split at hset
  · split at hset
    · cases hset
      exact h.stored_bind hv hf
    · cases hset
  · split at hset
    · cases hset
    · split at hset
      · cases hset
        split at hf
        · exact h.stored_bind hv hf
        · exact h.stored_bindGlobal hv hf
      · cases hset

/-- A function may be defined (`Context.declareFunction`) if what it becomes by capturing is
known. -/
theorem declareFunction (h : m.Knows known) {declaration : Declaration}
    (hknown : known ⟨declaration, m.context.capture⟩) :
    Knows known { m with context := m.context.declareFunction declaration } :=
  ⟨h.orderly.declareFunction fun _ _ => trivial,
    h.stored_bindGlobal (v := ⟨.function ⟨declaration, m.context.capture⟩, none⟩)
      (.function hknown h.orderly.capture)⟩

/-- A call may be entered (`Context.enter`), and its parameters bound to arguments that fit them
(`Closure.bindParams`). -/
theorem enter (h : m.Knows known) {f : Closure} {args : List Located} {site : Position}
    {context : Context} (hf : (Value.function f).Within known)
    (hfits : ∀ p ∈ args.zip f.declaration.params, p.1.value.fits p.2.type = true)
    (henter : m.context.enter f site = .ok context) :
    Knows known { m with context := Closure.bindParams f.declaration.params args context } := by
  have horderly := h.orderly.enter (hf.capturing.storable rfl) henter
  refine ⟨horderly.bindParams hfits, fun {g} hg => h.stored ?_⟩
  obtain ⟨-, rfl⟩ := Context.enter_eq_ok.1 henter
  rwa [Machine.Stores, Closure.bindParams_frame] at hg

end Machine.Knows

end

/-! ## Computations -/

/-- Begun on a machine, a computation leaves one on which known functions are bound
(`Machine.Knows`), and its result is good. -/
structure Eval.Confined {α : Type} (known : Closure → Prop) (good : α → Prop) (x : Eval α)
    (m : Machine) : Prop where
  machine : (x m).2.Knows known
  result {a : α} : (x m).1 = .ok a → good a

namespace Eval.Confined

variable {α β : Type} {known : Closure → Prop} {good : α → Prop} {fine : β → Prop} {x : Eval α}
  {m m' : Machine}

/-- Where there is a result, it is good, and known functions are bound (`Machine.Knows`) on the
machine that is left. -/
theorem of_eq_ok (h : Confined known good x m) {a : α} (hx : x m = (.ok a, m')) :
    good a ∧ m'.Knows known := by
  have hm := h.machine
  rw [hx] at hm
  exact ⟨h.result (congrArg Prod.fst hx), hm⟩

/-- A computation that leaves the machine as it was is confined if its results are good. -/
theorem unchanged (hm : m.Knows known) (hx : (x m).2 = m)
    (hresult : ∀ a, (x m).1 = .ok a → good a) : Confined known good x m :=
  ⟨hx.symm ▸ hm, hresult _⟩

/-- A fault (`Eval.fail`) changes nothing and gives nothing. -/
theorem fail (hm : m.Knows known) (cause : Cause) (position : Option Position) :
    Confined known good (Eval.fail cause position : Eval α) m := by
  refine unchanged hm rfl fun a h => ?_
  cases h

/-- The end of the fuel (`Eval.outOfFuel`) changes nothing and gives nothing. -/
theorem outOfFuel (hm : m.Knows known) :
    Confined known good (Eval.outOfFuel : Eval α) m := by
  refine unchanged hm rfl fun a h => ?_
  cases h

/-- A computation that does not look at the machine (`Immediate`) is confined if its results are
good. -/
theorem immediate (hm : m.Knows known) (h : Immediate good x) : Confined known good x m := by
  cases h with
  | pure ha =>
    refine unchanged hm rfl fun a h => ?_
    cases h
    exact ha
  | fail => exact .fail hm _ _

/-- One computation after another is confined if the second one is wherever the first one may end:
on a machine that `Machine.Knows`, with a good result. -/
theorem bind {f : α → Eval β} (hx : Confined known good x m)
    (hf : ∀ a m', x m = (.ok a, m') → m'.Knows known → good a → Confined known fine (f a) m') :
    Confined known fine (x >>= f) m := by
  rcases h : x m with ⟨a | e | _, m'⟩
  · obtain ⟨ha, hm'⟩ := hx.of_eq_ok h
    have hfa := hf a m' h hm' ha
    refine ⟨?_, fun {b} hb => ?_⟩
    · rw [bind_of_ok h]
      exact hfa.machine
    · rw [bind_of_ok h] at hb
      exact hfa.result hb
  · have hm' := hx.machine
    rw [h] at hm'
    refine ⟨?_, fun {b} hb => ?_⟩
    · rw [bind_of_fault h]
      exact hm'
    · rw [bind_of_fault h] at hb
      cases hb
  · have hm' := hx.machine
    rw [h] at hm'
    refine ⟨?_, fun {b} hb => ?_⟩
    · rw [bind_of_outOfFuel h]
      exact hm'
    · rw [bind_of_outOfFuel h] at hb
      cases hb

/-- A good result may be changed into one that is good in another sense. -/
theorem map {f : α → β} (hx : Confined known good x m) (h : ∀ a, good a → fine (f a)) :
    Confined known fine (f <$> x) m := by
  rw [← bind_pure_comp]
  exact hx.bind fun a _ _ hm' ha => immediate hm' (.pure (h a ha))

/-- What is refused or not (`Eval.attempt`) is confined if it is good where it is not refused. -/
theorem attempt {result : Except Cause α} (place : Cause → Option Position) (hm : m.Knows known)
    (h : ∀ a, result = .ok a → good a) : Confined known good (Eval.attempt result place) m := by
  cases result with
  | error cause => exact .fail hm _ _
  | ok a =>
    refine unchanged hm rfl fun b hb => ?_
    cases hb
    exact h a rfl

/-- What is read off the context (`Eval.view`) is confined if it is good. -/
theorem view {read : Context → Except Cause α} (position : Option Position) (hm : m.Knows known)
    (h : ∀ a, read m.context = .ok a → good a) :
    Confined known good (Eval.view read position) m :=
  have hattempt := attempt (fun _ => position) hm h
  ⟨hattempt.machine, hattempt.result⟩

/-- A change of the context (`Eval.change`) is confined if it leaves known functions bound. -/
theorem change {step : Context → Except Cause Context} (position : Option Position)
    (hm : m.Knows known)
    (h : ∀ context, step m.context = .ok context → Machine.Knows known { m with context }) :
    Confined known (fun _ => True) (Eval.change step position) m := by
  refine ⟨?_, fun _ => trivial⟩
  unfold Eval.change
  cases hstep : step m.context with
  | ok context => exact h context hstep
  | error cause => exact hm

/-- Printing (`Eval.print`) binds nothing, however many values are printed. -/
theorem forM_print (hm : m.Knows known) (args : List Located) :
    Confined known (fun _ => True) (args.forM fun arg => Eval.print arg.value.text) m := by
  refine ⟨?_, fun _ => trivial⟩
  rw [Eval.forM_print]
  exact ⟨hm.orderly, hm.stored⟩

end Eval.Confined

/-! ## Evaluations -/

/-- All functions that are defined from a moment on (`Moment.Defines`) are known, up to its end. -/
def Moment.Known (known : Closure → Prop) (a : Moment) : Prop :=
  ∀ ⦃d f⦄, a.Reaches d → d.Defines f → known f

/-- The functions that are defined inside a part of an evaluation (`Moment.Begins`) are among those
of the whole. -/
theorem Moment.Known.part {known : Closure → Prop} {a b : Moment} (h : a.Known known)
    (hbegins : a.Begins b) : b.Known known :=
  fun _ _ hreaches => h (.head hbegins hreaches)

section
variable {known : Closure → Prop} {n : Nat} {m : Machine}

/-- A value that is needed (`Node.demand`) is in order if the result it comes from is. -/
theorem Node.demand_confined (e : Node) {x : Eval (Option Located)}
    (hx : x.Confined known (Located.Within known) m) :
    (e.demand x).Confined known (fun v => v.value.Within known) m := by
  refine hx.bind fun result m' _ hm' hresult => ?_
  cases result with
  | none => exact .fail hm' _ _
  | some v => exact .immediate hm' (.pure (hresult v rfl))

/-- A condition (`Node.holds`) comes to a truth value, which gives no functions. -/
theorem Node.holds_confined (e : Node) {x : Eval (Option Located)}
    (hx : x.Confined known (Located.Within known) m) :
    (e.holds x).Confined known (fun _ => True) m :=
  (e.demand_confined hx).bind fun v _ _ hm' _ => .immediate hm' v.truth_immediate

/-- A value that is put at the place of a node (`producing`) is in order as before. -/
theorem producing_confined (span : Span) {x : Eval Value}
    (hx : x.Confined known (Value.Within known) m) :
    (producing span x).Confined known (Located.Within known) m := by
  refine hx.bind fun v m' _ hm' hv => .immediate hm' (.pure fun w hw => ?_)
  cases hw
  exact hv

/-- A literal or a signal at the place of a node is in order if it is as a value
(`Value.Within`). -/
theorem producing_pure_confined (span : Span) {v : Value} (hm : m.Knows known)
    (hv : v.Within known) :
    (producing span (return v)).Confined known (Located.Within known) m :=
  producing_confined span (.immediate hm (.pure hv))

/-- What a loop hands on after a round (`afterRound`) is what its body came to. -/
theorem afterRound_within {result : Option Located} (h : Located.Within known result) :
    ∀ a ∈ afterRound result, Located.Within known a := by
  intro a ha
  unfold afterRound at ha
  split at ha
  · cases ha
    exact Located.within_none
  · cases ha
    exact h
  · cases ha

/-- A loop (`Eval.repeatWhile`) binds and comes to known functions if its condition and its body do,
whenever they begin: by induction on the rounds that are left. -/
theorem Eval.repeatWhile_confined {condition : Node} {body : Block}
    (hcondition : ∀ m, m.Knows known → Moment.Known known ⟨n, .node condition, m⟩ →
      (condition.run n).Confined known (Located.Within known) m)
    (hbody : ∀ m, m.Knows known → Moment.Known known ⟨n, .block body, m⟩ →
      (body.evaluate n (callWithin n)).Confined known (Located.Within known) m)
    (rounds : Nat) (hm : m.Knows known)
    (h : Moment.Known known ⟨n, .loop condition body rounds, m⟩) :
    Eval.Confined known (Located.Within known)
      ((Task.loop condition body rounds).evaluate n (callWithin n)) m := by
  induction rounds generalizing m with
  | zero => exact .outOfFuel hm
  | succ rounds ih =>
    simp only [Task.evaluate, Eval.repeatWhile] at ih ⊢
    have hholds := condition.holds_confined (hcondition m hm (h.part .loopCondition))
    refine hholds.bind fun holds m' hholds hm' _ => ?_
    cases holds with
    | false => exact .immediate hm' (.pure Located.within_none)
    | true =>
      have hround : Eval.Confined known (fun o => ∀ a ∈ o, Located.Within known a)
          (afterRound <$> body.evaluate n (callWithin n)) m' :=
        (hbody m' hm' (h.part (.loopBody hholds))).map fun _ hresult => afterRound_within hresult
      refine hround.bind fun result m'' hresult hm'' hgood => ?_
      cases result with
      | none => exact ih hm'' (h.part (.moreRounds hholds hresult))
      | some result => exact .immediate hm'' (.pure (hgood result rfl))

/-- Calls bind and come to known functions only (`Eval.Confined`), if all that are defined inside
are known. -/
def CallsConfined (known : Closure → Prop) (n : Nat) : Prop :=
  ∀ ⦃f args site m⦄, m.Knows known → (Value.function f).Within known →
    (∀ arg ∈ args, arg.value.Within known) → Moment.Known known ⟨n, .call f args site, m⟩ →
    (callWithin n f args site).Confined known (Located.Within known) m

/-- What is called (`Callable.call`) binds and comes to known functions, if it is native or known
itself. -/
theorem Callable.call_confined (hcalls : CallsConfined known n) {f : Callable}
    {args : List Located} {site : Position} {m : Machine} (hm : m.Knows known)
    (hargs : ∀ arg ∈ args, arg.value.Within known)
    (hf : ∀ g, f = .closure g →
      (Value.function g).Within known ∧ Moment.Known known ⟨n, .call g args site, m⟩) :
    (f.call (callWithin n) args site).Confined known (Located.Within known) m := by
  cases f with
  | closure g =>
    obtain ⟨hg, hknown⟩ := hf g rfl
    exact hcalls hm hg hargs hknown
  | native f =>
    exact (Eval.Confined.forM_print hm args).bind fun _ _ _ hm' _ =>
      .immediate hm' (.pure Located.within_none)

mutual

/-- A node binds and comes to known functions (`Eval.Confined`), if those that it defines are known
(`Moment.Known`). By recursion over the tree, as `Node.evaluate` goes. -/
theorem Node.run_confined (hcalls : CallsConfined known n) : (e : Node) → {m : Machine} →
    m.Knows known → Moment.Known known ⟨n, .node e, m⟩ →
    (e.run n).Confined known (Located.Within known) m
  | ⟨span, .int k⟩, m, hm, _ => by
    rw [Node.run, Node.evaluate]
    exact producing_pure_confined span hm (Value.plain_number _).within
  | ⟨span, .double x⟩, m, hm, _ => by
    rw [Node.run, Node.evaluate]
    exact producing_pure_confined span hm (Value.plain_number _).within
  | ⟨span, .string s⟩, m, hm, _ => by
    rw [Node.run, Node.evaluate]
    exact producing_pure_confined span hm (Value.plain_string s).within
  | ⟨span, .bool b⟩, m, hm, _ => by
    rw [Node.run, Node.evaluate]
    exact producing_pure_confined span hm (Value.plain_bool b).within
  | ⟨span, .unit numerator denominator⟩, m, hm, _ => by
    have hunits {result : Except Cause Units} {place : Cause → Option Position} :
        Eval.Confined known (fun _ => True) (Eval.attempt result place) m :=
      .attempt _ hm fun _ _ => trivial
    rw [Node.run, Node.evaluate]
    exact producing_confined span (hunits.bind fun units _ _ hm' _ =>
      .immediate hm' (.pure (Value.plain_unit units).within))
  | ⟨span, .phys magnitude unit⟩, m, hm, h => by
    have hmagnitude := magnitude.demand_confined
      (Node.run_confined hcalls magnitude hm (h.part .magnitude))
    rw [Node.run, Node.evaluate]
    refine producing_confined span (hmagnitude.bind fun v m' hv hm' _ => ?_)
    refine (Eval.Confined.immediate hm' v.magnitude_immediate).bind
      fun number m'' hnumber hm'' _ => ?_
    have hunit := unit.demand_confined (Node.run_confined hcalls unit hm''
      (h.part (.unit ((Eval.bind_of_ok hv).trans hnumber))))
    refine hunit.bind fun w _ _ hm' _ => ?_
    refine (Eval.Confined.immediate hm' w.units_immediate).bind fun units _ _ hm' _ => ?_
    exact .immediate hm' (.pure (Value.plain_quantity _).within)
  | ⟨span, .unary op operand⟩, m, hm, h => by
    have hoperand := operand.demand_confined
      (Node.run_confined hcalls operand hm (h.part .operand))
    rw [Node.run, Node.evaluate]
    refine producing_confined span (hoperand.bind fun v _ _ hm' _ => .attempt _ hm' fun a ha => ?_)
    exact (Value.combined_of_unary ha).plain.within
  | ⟨span, .binary op left right⟩, m, hm, h => by
    have hleft := left.demand_confined (Node.run_confined hcalls left hm (h.part .left))
    rw [Node.run, Node.evaluate]
    refine producing_confined span (hleft.bind fun l m' hl hm' _ => ?_)
    have hright := right.demand_confined
      (Node.run_confined hcalls right hm' (h.part (.right hl)))
    refine hright.bind fun r _ _ hm' _ => .attempt _ hm' fun a ha => ?_
    exact (Value.combined_of_binary ha).plain.within
  | ⟨span, .variable ident⟩, m, hm, _ => by
    rw [Node.run, Node.evaluate]
    refine producing_confined span (.bind (.view _ hm fun v hv => hm.read hv) ?_)
    exact fun v _ _ hm' hv => .immediate hm' (.pure hv)
  | ⟨_, .assign type ident value⟩, m, hm, h => by
    have hvalue := value.demand_confined (Node.run_confined hcalls value hm (h.part .assigned))
    rw [Node.run, Node.evaluate]
    refine hvalue.bind fun v m' _ hm' hv => ?_
    refine (Eval.Confined.change _ hm' fun c hc => hm'.set hv hc).bind fun _ _ _ hm'' _ => ?_
    exact .immediate hm'' (.pure Located.within_none)
  | ⟨_, .ifElse alternatives⟩, m, hm, h => by
    rw [Node.run, Node.evaluate]
    exact Alternatives.evaluate_confined hcalls alternatives hm (h.part .chosen)
  | ⟨_, .whileLoop condition body⟩, m, hm, h => by
    rw [Node.run, Node.evaluate]
    exact Eval.repeatWhile_confined (fun _ => Node.run_confined hcalls condition)
      (fun _ => Block.evaluate_confined hcalls body) n hm (h.part .loop)
  | ⟨span, .function ident params returns body⟩, m, hm, h => by
    rw [Node.run, Node.evaluate]
    refine (Eval.Confined.change _ hm fun c hc => ?_).bind fun _ _ _ hm' _ =>
      .immediate hm' (.pure Located.within_none)
    cases hc
    exact hm.declareFunction (h .refl ⟨span, rfl, rfl⟩)
  | ⟨span, .call ident args⟩, m, hm, h => by
    have hcallee : Eval.Confined known (fun _ => True)
        (Eval.view (·.callee ident.name) (some ident.span.start)) m :=
      .view _ hm fun _ _ => trivial
    rw [Node.run, Node.evaluate]
    refine hcallee.bind fun f m' hview _ _ => ?_
    obtain ⟨hf, rfl⟩ := Eval.view_eq_ok.1 hview
    have hargs := Node.evaluateArgs_confined hcalls args hm (h.part (.arguments hf))
    refine hargs.bind fun vs m' hvs hm' hgood => ?_
    have harity := checkArity_immediate f vs span.start
    refine (Eval.Confined.immediate hm' harity).bind fun _ m'' hcheck _ hlength => ?_
    obtain ⟨-, rfl⟩ := harity.of_eq_ok hcheck
    have hknown : ∀ g, f = .closure g → (Value.function g).Within known ∧
        Moment.Known known ⟨n, .call g vs span.start, m''⟩ := by
      rintro g rfl
      exact ⟨hm.callee hf, h.part (.call hf hvs hlength)⟩
    refine (Callable.call_confined hcalls hm' hgood hknown).bind fun result _ _ hm' hresult =>
      .immediate hm' (.pure ?_)
    intro v hv
    obtain ⟨w, hw, rfl⟩ := Option.map_eq_some_iff.1 hv
    exact hresult w hw
  | ⟨span, .returnNothing⟩, m, hm, _ => by
    rw [Node.run, Node.evaluate]
    refine producing_pure_confined span hm (Value.within_of_not_gives fun f hf => ?_)
    cases hf
  | ⟨span, .returnValue value⟩, m, hm, h => by
    have hvalue := value.demand_confined (Node.run_confined hcalls value hm (h.part .returned))
    rw [Node.run, Node.evaluate]
    refine producing_confined span (hvalue.bind fun v _ _ hm' hv => ?_)
    exact .immediate hm' (.pure hv.returning)
  | ⟨span, .breakLoop⟩, m, hm, _ => by
    rw [Node.run, Node.evaluate]
    refine producing_pure_confined span hm (Value.within_of_not_gives fun f hf => ?_)
    cases hf
  | ⟨span, .continueLoop⟩, m, hm, _ => by
    rw [Node.run, Node.evaluate]
    refine producing_pure_confined span hm (Value.within_of_not_gives fun f hf => ?_)
    cases hf
  | ⟨_, .block block⟩, m, hm, h => by
    rw [Node.run, Node.evaluate]
    exact Block.evaluate_confined hcalls block hm (h.part .nested)

/-- The arguments of a call, evaluated in order by `Node.evaluateArgs`, bind and come to known
functions. -/
theorem Node.evaluateArgs_confined (hcalls : CallsConfined known n) : (es : List Node) →
    {m : Machine} → m.Knows known → Moment.Known known ⟨n, .arguments es, m⟩ →
    (Node.evaluateArgs n (callWithin n) es).Confined known
      (fun vs => ∀ v ∈ vs, v.value.Within known) m
  | [], m, hm, _ => by
    rw [Node.evaluateArgs]
    exact .immediate hm (.pure (List.forall_mem_nil _))
  | e :: es, m, hm, h => by
    have hfirst := e.demand_confined (Node.run_confined hcalls e hm (h.part .argument))
    rw [Node.evaluateArgs]
    refine hfirst.bind fun v m' hv hm' hgood => ?_
    have hothers := Node.evaluateArgs_confined hcalls es hm' (h.part (.moreArguments hv))
    refine hothers.bind fun vs _ _ hm'' hgoods => .immediate hm'' (.pure ?_)
    exact List.forall_mem_cons.2 ⟨hgood, hgoods⟩

/-- So do statements in a row (`Node.evaluateItems`), up to one that interrupts the others. -/
theorem Node.evaluateItems_confined (hcalls : CallsConfined known n) : (es : List Node) →
    {last : Option Located} → {m : Machine} → m.Knows known → Located.Within known last →
    Moment.Known known ⟨n, .items last es, m⟩ →
    (Node.evaluateItems n (callWithin n) last es).Confined known (Located.Within known) m
  | [], _, m, hm, hlast, _ => by
    rw [Node.evaluateItems]
    exact .immediate hm (.pure hlast)
  | e :: es, last, m, hm, hlast, h => by
    rw [Node.evaluateItems]
    refine (Node.run_confined hcalls e hm (h.part .item)).bind fun result m' he hm' hresult => ?_
    split
    · exact .immediate hm' (.pure hresult)
    · next hinterrupts =>
      have hquiet := Bool.eq_false_iff.2 hinterrupts
      exact Node.evaluateItems_confined hcalls es hm' hresult (h.part (.moreItems he hquiet))

/-- So do blocks, which come to what their statements come to (`Block.evaluate`). -/
theorem Block.evaluate_confined (hcalls : CallsConfined known n) : (b : Block) → {m : Machine} →
    m.Knows known → Moment.Known known ⟨n, .block b, m⟩ →
    (b.evaluate n (callWithin n)).Confined known (Located.Within known) m
  | ⟨_, items⟩, m, hm, h => by
    rw [Block.evaluate]
    exact Node.evaluateItems_confined hcalls items hm Located.within_none (h.part .items)

/-- So do alternatives (`Alternatives.evaluate`), whichever of their blocks is chosen. -/
theorem Alternatives.evaluate_confined (hcalls : CallsConfined known n) : (a : Alternatives) →
    {m : Machine} → m.Knows known → Moment.Known known ⟨n, .alternatives a, m⟩ →
    (a.evaluate n (callWithin n)).Confined known (Located.Within known) m
  | .none, m, hm, _ => by
    rw [Alternatives.evaluate]
    exact .immediate hm (.pure Located.within_none)
  | .otherwise b, m, hm, h => by
    rw [Alternatives.evaluate]
    exact Block.evaluate_confined hcalls b hm (h.part .otherwise)
  | .case condition body others, m, hm, h => by
    have hcondition := condition.holds_confined
      (Node.run_confined hcalls condition hm (h.part .caseCondition))
    rw [Alternatives.evaluate]
    refine hcondition.bind fun holds m' hholds hm' _ => ?_
    cases holds with
    | false => exact Alternatives.evaluate_confined hcalls others hm' (h.part (.caseOthers hholds))
    | true => exact Block.evaluate_confined hcalls body hm' (h.part (.caseBody hholds))

end

/-- What a call hands back (`Closure.HandsBack`) is what the body came to, or what that returns. -/
theorem Closure.HandsBack.within {r back : Option Located} (h : HandsBack r back)
    (hr : Located.Within known r) : Located.Within known back := by
  cases h with
  | nothing => exact hr
  | value => exact hr
  | returned =>
    intro v hv
    cases hv
    exact (hr _ rfl).returned

/-- The functions that are stored are bound globally, so they do not depend on the calls in progress
(`Context.frames`). -/
theorem Machine.Knows.of_frames (h : m.Knows known) {m' : Machine} (h' : m'.Knows known) :
    Machine.Knows known { m' with context := { m'.context with frames := m.context.frames } } :=
  ⟨⟨h'.orderly.globals, h.orderly.frames⟩, h'.stored⟩

/-- Calls bind and come to known functions only (`CallsConfined`), however deep they are inside one
another, by induction on the fuel. -/
theorem callsConfined (known : Closure → Prop) (n : Nat) : CallsConfined known n := by
  induction n with
  | zero => exact fun _ _ _ _ hm _ _ _ => .outOfFuel hm
  | succ n ih =>
    intro f args site m hm hf hargs h
    obtain ⟨outcome, m', hruns⟩ := f.exists_runs n args site m
    have hcall := hruns.callWithin
    cases hruns with
    | misfit =>
      refine .unchanged hm (congrArg Prod.snd hcall) fun a ha => ?_
      rw [hcall] at ha
      cases ha
    | tooDeep =>
      refine .unchanged hm (congrArg Prod.snd hcall) fun a ha => ?_
      rw [hcall] at ha
      cases ha
    | body hfits hdepth hrun hreturns =>
      obtain ⟨c, henter⟩ : ∃ c, m.context.enter f site = .ok c :=
        ⟨_, Context.enter_eq_ok.2 ⟨hdepth, rfl⟩⟩
      have hcheck : f.checkArguments f.declaration.params args m = (.ok (), m) := by
        rw [Closure.checkArguments_of_fits hfits]
        rfl
      rw [Closure.entering_eq args henter] at hrun
      have hbody := Block.evaluate_confined ih f.declaration.body (hm.enter hf hfits henter)
        (h.part (.body hcheck henter))
      have hm' := hbody.machine
      rw [hrun] at hm'
      refine ⟨?_, fun {a} ha => ?_⟩
      · rw [hcall]
        exact hm.of_frames hm'
      · rw [hcall] at ha
        cases ha
        cases hreturns with
        | result hback => exact hback.within (hbody.result (congrArg Prod.fst hrun))

/-- What a task is given is in order (`Value.Within`): the function and the arguments of a call, and
what has been come to before other statements. -/
def Task.Within (known : Closure → Prop) : Task → Prop
  | .items last _ => Located.Within known last
  | .call f args _ => (Value.function f).Within known ∧ ∀ arg ∈ args, arg.value.Within known
  | _ => True

/-- Known functions are bound where an evaluation ends (`Machine.Knows`), if they are where it
begins and all that are defined in the course of it are known (`Moment.Known`). -/
theorem Moment.knows_ending {a : Moment} (hm : a.machine.Knows known)
    (htask : a.task.Within known) (h : a.Known known) : a.ending.Knows known := by
  obtain ⟨n, task, m⟩ := a
  have hcalls := callsConfined known n
  cases task with
  | node e => exact (e.run_confined hcalls hm h).machine
  | arguments es => exact (Node.evaluateArgs_confined hcalls es hm h).machine
  | items last es => exact (Node.evaluateItems_confined hcalls es hm htask h).machine
  | block b => exact (b.evaluate_confined hcalls hm h).machine
  | alternatives a => exact (a.evaluate_confined hcalls hm h).machine
  | loop condition body rounds =>
    exact (Eval.repeatWhile_confined (fun _ => condition.run_confined hcalls)
      (fun _ => body.evaluate_confined hcalls) rounds hm h).machine
  | call f args site => exact (hcalls hm htask.1 htask.2 h).machine

end

end UnitScript
