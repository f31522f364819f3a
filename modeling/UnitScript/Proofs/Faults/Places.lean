import UnitScript.Proofs.Machine.Bound

/-!
# Where faults are found

A `Blame` says at which places of a program text faults are raised and what may be said of a fault
that is raised there. Evaluations of trees that stay within these places have such faults only, if
calls do, and what they come to was produced there (`Node.evaluate_blames` and its companions):
whenever the place of a fault is read off a value, the value has one. The places are passed on
together with the machine, on which functions are bound whose bodies stay within them as well
(`Context.Orderly`).

Applied to calls of any depth this gives the place of every fault (`Block.run_placed`). A second use
is that of faults which name no calls yet (`Blame.fresh`).
-/

namespace UnitScript

/-! ## Values and where they were produced -/

section
variable {places : Position → Prop}

/-- A value may be bound (`Value.Storable`) unless it is a signal, and what it returns was produced
at one of the places. -/
structure Value.Sourced (places : Position → Prop) (v : Value) : Prop where
  storable : v.isSignal = false → v.Storable places
  payload {w : Located} : v = .returning (some w) → ∃ p ∈ w.position, places p

/-- The value was produced at one of the places, which is where operators and checks put the blame
(`Located.position`). -/
structure Located.Sourced (places : Position → Prop) (v : Located) : Prop where
  placed : ∃ p ∈ v.position, places p
  value : v.value.Sourced places

/-- What may be bound (`Value.Storable`) returns nothing. -/
theorem Value.Storable.sourced {v : Value} (h : v.Storable places) : v.Sourced places := by
  refine ⟨fun _ => h, fun hv => ?_⟩
  subst hv
  cases h.isSignal

/-- Nor does what has a type (`Value.Plain`). -/
theorem Value.Plain.sourced {v : Value} (h : v.Plain) : v.Sourced places :=
  Storable.sourced (.plain h)

/-- A signal without anything that it returns, such as `Value.breaking`. -/
theorem Value.sourced_of_signal {v : Value} (hsignal : v.isSignal = true)
    (h : ∀ w, v ≠ .returning (some w)) : v.Sourced places :=
  ⟨fun hno => (nomatch hsignal.symm.trans hno), fun hw => absurd hw (h _)⟩

/-- A signal that returns a value (`Value.returning`), which was produced at one of the places. -/
theorem Value.sourced_returning {w : Located} (h : ∃ p ∈ w.position, places p) :
    (Value.returning (some w)).Sourced places := by
  refine ⟨nofun, fun hv => ?_⟩
  cases hv
  exact h

/-- A result, if there is one, was produced at one of the places. -/
def Produced (places : Position → Prop) (result : Option Located) : Prop :=
  ∀ v ∈ result, v.Sourced places

/-- Nothing is said of no result (`Produced`). -/
theorem Produced.none : Produced places none := nofun

/-- What a loop hands on is what its body came to (`UnitScript.afterRound`), and was produced
there. -/
theorem Produced.afterRound {result : Option Located} (h : Produced places result) :
    ∀ a ∈ UnitScript.afterRound result, Produced places a := by
  intro a ha
  unfold UnitScript.afterRound at ha
  split at ha
  · cases ha
    exact .none
  · cases ha
    exact h
  · cases ha

end

/-! ## Faults -/

/-- Places where faults are raised, and what is said of a fault. `known`, `unsure` and `fresh` are
the three that are used. -/
structure Blame where
  places : Position → Prop
  faults : Fault → Prop
  /-- A fault may have any cause, and is raised at one of the places. -/
  raised {cause : Cause} {p : Position} : places p →
    faults ((Fault.ofCause cause).at? (some p))

namespace Blame

/-- Faults are known to be at one of the places, as they are when a call or a program has ended
(`Eval.located`). -/
def known (places : Position → Prop) : Blame where
  places := places
  faults e := ∃ p ∈ e.position, places p
  raised hp := ⟨_, rfl, hp⟩

/-- Faults are not known to be at another place; they may have none yet. -/
def unsure (places : Position → Prop) : Blame where
  places := places
  faults e := ∀ p ∈ e.position, places p
  raised hp p h := by
    cases h
    exact hp

/-- Faults name no calls, as long as none has been left (`Eval.traced`). -/
def fresh (places : Position → Prop) : Blame where
  places := places
  faults e := e.traceback = []
  raised _ := rfl

end Blame

/-- From an orderly machine (`Context.Orderly`) a computation leaves one, its result is good, and
its faults are as they should be (`Blame`). -/
structure Eval.Blames {α : Type} (b : Blame) (good : α → Prop) (x : Eval α) : Prop where
  machines {m : Machine} : m.context.Orderly b.places → (x m).2.context.Orderly b.places
  result {m : Machine} {a : α} : m.context.Orderly b.places → (x m).1 = .ok a → good a
  fault {m : Machine} {e : Fault} : m.context.Orderly b.places → (x m).1 = .fault e → b.faults e

namespace Eval.Blames

variable {α β : Type} {b : Blame} {good better : α → Prop} {fine : β → Prop} {x : Eval α}

/-- Where there is a result, it is good, and the machine that is left is orderly
(`Context.Orderly`). -/
theorem of_eq_ok (hx : Blames b good x) {m m' : Machine} {a : α}
    (hm : m.context.Orderly b.places) (h : x m = (.ok a, m')) :
    good a ∧ m'.context.Orderly b.places := by
  have hm' := hx.machines hm
  rw [h] at hm'
  exact ⟨hx.result hm (congrArg Prod.fst h), hm'⟩

/-- Results that are good in one way may be good in another. -/
theorem mono (hx : Blames b good x) (h : ∀ a, good a → better a) : Blames b better x :=
  ⟨hx.machines, fun hm ha => h _ (hx.result hm ha), hx.fault⟩

/-- A result without any effect, `Pure.pure`, blames nothing. -/
theorem pure {a : α} (h : good a) : Blames b good (Pure.pure a : Eval α) := by
  refine ⟨id, fun _ ha => ?_, nofun⟩
  cases ha
  exact h

/-- The end of the fuel (`Eval.outOfFuel`) blames nothing. -/
theorem outOfFuel : Blames b good (Eval.outOfFuel : Eval α) := ⟨id, nofun, nofun⟩

/-- A fault of which the right thing is said (`Blame.faults`). -/
theorem fail {cause : Cause} {position : Option Position}
    (h : b.faults ((Fault.ofCause cause).at? position)) :
    Blames b good (Eval.fail cause position : Eval α) := by
  refine ⟨id, nofun, fun _ he => ?_⟩
  cases he
  exact h

/-- A fault at one of the places (`Blame.places`), whatever its cause is. -/
theorem fail_at {cause : Cause} {position : Option Position} (h : ∃ p ∈ position, b.places p) :
    Blames b good (Eval.fail cause position : Eval α) := by
  obtain ⟨p, rfl, hp⟩ := h
  exact .fail (b.raised hp)

/-- One computation after another: the fault is that of the first, or of the second behind a good
result. -/
theorem bind {f : α → Eval β} (hx : Blames b good x) (hf : ∀ a, good a → Blames b fine (f a)) :
    Blames b fine (x >>= f) := by
  refine ⟨fun {m} hm => ?_, fun {m c} hm hc => ?_, fun {m e} hm he => ?_⟩
  · rcases h : x m with ⟨a | e | _, m'⟩
    · obtain ⟨ha, hm'⟩ := hx.of_eq_ok hm h
      rw [bind_of_ok h]
      exact (hf a ha).machines hm'
    · rw [bind_of_fault h]
      have hm' := hx.machines hm
      rwa [h] at hm'
    · rw [bind_of_outOfFuel h]
      have hm' := hx.machines hm
      rwa [h] at hm'
  · obtain ⟨a, mid, ha, h⟩ := bind_eq_ok.1 (Prod.ext hc rfl)
    obtain ⟨hgood, hmid⟩ := hx.of_eq_ok hm ha
    exact (hf a hgood).result hmid (congrArg Prod.fst h)
  · rcases bind_eq_fault.1 (Prod.ext he rfl) with h | ⟨a, mid, ha, h⟩
    · exact hx.fault hm (congrArg Prod.fst h)
    · obtain ⟨hgood, hmid⟩ := hx.of_eq_ok hm ha
      exact (hf a hgood).fault hmid (congrArg Prod.fst h)

/-- What a computation comes to may be changed. -/
theorem map {f : α → β} (hx : Blames b good x) (h : ∀ a, good a → fine (f a)) :
    Blames b fine (f <$> x) := by
  rw [← bind_pure_comp]
  exact hx.bind fun a ha => .pure (h a ha)

/-- Something that is refused or not (`Eval.attempt`), with a place for each cause. -/
theorem attempt {result : Except Cause α} {place : Cause → Option Position}
    (h : ∀ a, result = .ok a → good a) (hplace : ∀ cause, ∃ p ∈ place cause, b.places p) :
    Blames b good (Eval.attempt result place) := by
  unfold Eval.attempt
  cases result with
  | ok a => exact .pure (h a rfl)
  | error cause => exact .fail_at (hplace cause)

/-- Something that is read off the context by `Eval.view`, which is blamed on one of the places. -/
theorem view {read : Context → Except Cause α} {p : Position} (hp : b.places p)
    (h : ∀ c a, c.Orderly b.places → read c = .ok a → good a) :
    Blames b good (Eval.view read (some p)) := by
  have hattempt (m : Machine) (hm : m.context.Orderly b.places) :
      Blames b good (Eval.attempt (read m.context) fun _ => some p) :=
    .attempt (fun a ha => h _ a hm ha) fun _ => ⟨p, rfl, hp⟩
  exact ⟨fun hm => (hattempt _ hm).machines hm, fun hm => (hattempt _ hm).result hm,
    fun hm => (hattempt _ hm).fault hm⟩

/-- A change of the context by `Eval.change`, which may be refused at one of the places. -/
theorem change {step : Context → Except Cause Context} {position : Option Position}
    (h : ∀ c c', c.Orderly b.places → step c = .ok c' → c'.Orderly b.places)
    (hplace : ∀ c cause, step c = .error cause → ∃ p ∈ position, b.places p) :
    Blames b (fun _ => True) (Eval.change step position) := by
  refine ⟨fun {m} hm => ?_, fun _ _ => trivial, fun {m e} hm he => ?_⟩
  · unfold Eval.change
    cases hstep : step m.context with
    | ok c => exact h m.context c hm hstep
    | error cause => exact hm
  · unfold Eval.change at he
    cases hstep : step m.context with
    | ok c =>
      rw [hstep] at he
      cases he
    | error cause =>
      rw [hstep] at he
      have hfail : Blames b (fun _ => True) (Eval.fail cause position : Eval Unit) :=
        .fail_at (hplace _ cause hstep)
      exact hfail.fault hm he

/-- A line is printed, for which nothing can be blamed. -/
theorem print (line : String) : Blames b (fun _ => True) (Eval.print line) :=
  ⟨id, fun _ _ => trivial, nofun⟩

/-- A loop (`Eval.repeatWhile`), by induction on its rounds. -/
theorem repeatWhile {condition : Eval Bool} {body : Eval (Option α)} {done : α}
    (hcondition : Blames b (fun _ => True) condition)
    (hbody : Blames b (fun o => ∀ a ∈ o, good a) body) (hdone : good done) (rounds : Nat) :
    Blames b good (Eval.repeatWhile condition body done rounds) := by
  induction rounds with
  | zero => exact .outOfFuel
  | succ rounds ih =>
    unfold Eval.repeatWhile
    refine hcondition.bind fun holds _ => ?_
    cases holds with
    | false => exact .pure hdone
    | true =>
      refine hbody.bind fun result hresult => ?_
      cases result with
      | none => exact ih
      | some a => exact .pure (hresult a rfl)

end Eval.Blames

/-! ## What values are needed for -/

section
variable {b : Blame}

/-- A truth value is read off a condition (`Located.truth`), or the condition is blamed. -/
theorem Located.truth_blames {v : Located} (hv : v.Sourced b.places) :
    v.truth.Blames b fun _ => True := by
  unfold Located.truth
  split
  · exact .pure trivial
  · exact .fail_at hv.placed

/-- The magnitude of a quantity (`Located.magnitude`), or the value that is none is blamed. -/
theorem Located.magnitude_blames {v : Located} (hv : v.Sourced b.places) :
    v.magnitude.Blames b fun _ => True := by
  unfold Located.magnitude
  split
  · exact .pure trivial
  · exact .fail_at hv.placed

/-- The unit of a quantity (`Located.units`), or the value that is none is blamed. -/
theorem Located.units_blames {v : Located} (hv : v.Sourced b.places) :
    v.units.Blames b fun _ => True := by
  unfold Located.units
  split
  · exact .pure trivial
  · exact .fail_at hv.placed

/-- A node within some places (`Node.places`) starts at one of them. -/
theorem Node.start_of_places {places : Position → Prop} {node : Node}
    (h : ∀ p ∈ node.places, places p) : places node.span.start := by
  obtain ⟨span, form⟩ := node
  rw [Node.places] at h
  exact (List.forall_mem_cons.1 h).1

/-- A value that is needed (`Node.demand`), or the node that has none is blamed. -/
theorem Node.demand_blames {node : Node} (hnode : ∀ p ∈ node.places, b.places p)
    {x : Eval (Option Located)} (hx : x.Blames b (Produced b.places)) :
    (node.demand x).Blames b fun v => v.Sourced b.places := by
  refine hx.bind fun result hresult => ?_
  cases result with
  | none => exact .fail_at ⟨_, rfl, Node.start_of_places hnode⟩
  | some v => exact .pure (hresult v rfl)

/-- A condition (`Node.holds`), which is blamed itself if it is no truth value. -/
theorem Node.holds_blames {node : Node} (hnode : ∀ p ∈ node.places, b.places p)
    {x : Eval (Option Located)} (hx : x.Blames b (Produced b.places)) :
    (node.holds x).Blames b fun _ => True :=
  (node.demand_blames hnode hx).bind fun _ hv => Located.truth_blames hv

/-- A value at the place of a node (`producing`) was produced at one of the places. -/
theorem producing_blames {span : Span} (hspan : b.places span.start) {x : Eval Value}
    (hx : x.Blames b (Value.Sourced b.places)) :
    (producing span x).Blames b (Produced b.places) := by
  refine hx.bind fun v hv => .pure fun w hw => ?_
  cases hw
  exact ⟨⟨_, rfl, hspan⟩, hv⟩

/-- An operator is blamed on one of its operands (`operandPosition`). -/
theorem operandPosition_placed {places : Position → Prop} {left right : Located}
    (hleft : left.Sourced places) (hright : right.Sourced places) (cause : Cause) :
    ∃ p ∈ operandPosition left right cause, places p := by
  unfold operandPosition
  split
  · exact hright.placed
  · exact hleft.placed

/-- A wrong number of arguments (`checkArity`) is blamed on the call. -/
theorem checkArity_blames (f : Callable) (args : List Located) {site : Position}
    (hsite : b.places site) : (checkArity f args site).Blames b fun _ => True := by
  unfold checkArity
  split
  · exact .fail_at ⟨_, rfl, hsite⟩
  · split
    · exact .fail_at ⟨_, rfl, hsite⟩
    · exact .pure trivial

/-! ## Trees -/

/-- Arguments were produced at some places (`Located.position`). -/
def ProducedArgs (places : Position → Prop) (args : List Located) : Prop :=
  ∀ arg ∈ args, arg.Sourced places

/-- Calls of functions that may be bound (`Value.Storable`) have the right faults and results. -/
def Caller.Blames (b : Blame) (run : Caller) : Prop :=
  ∀ ⦃f args site⦄, (Value.function f).Storable b.places → ProducedArgs b.places args →
    b.places site → (run f args site).Blames b (Produced b.places)

/-- A function is called (`Callable.call`) with arguments from the places. -/
theorem Callable.call_blames {run : Caller} (hrun : run.Blames b) {f : Callable}
    (hf : ∀ g, f = .closure g → (Value.function g).Storable b.places) {args : List Located}
    (hargs : ProducedArgs b.places args) {site : Position} (hsite : b.places site) :
    (f.call run args site).Blames b (Produced b.places) := by
  cases f with
  | closure f => exact hrun (hf f rfl) hargs hsite
  | native f =>
    have hprint : (args.forM fun arg => Eval.print arg.value.text).Blames b fun _ => True := by
      clear hargs
      induction args with
      | nil => exact .pure trivial
      | cons arg args ih => exact (Eval.Blames.print _).bind fun _ _ => ih
    exact hprint.bind fun _ _ => .pure .none

variable {rounds : Nat} {run : Caller}

mutual

/-- A node within the places (`Node.places`) is evaluated with faults and results from there, if
calls are. The five theorems from here to `Alternatives.evaluate_blames` follow the recursion of the
evaluator. -/
theorem Node.evaluate_blames (hrun : run.Blames b) :
    (node : Node) → (∀ p ∈ node.places, b.places p) →
      (node.evaluate rounds run).Blames b (Produced b.places)
  | ⟨_, .int _⟩, h | ⟨_, .double _⟩, h => by
    simp only [Node.evaluate]
    exact producing_blames (Node.start_of_places h) (.pure (Value.plain_number _).sourced)
  | ⟨_, .string s⟩, h => by
    simp only [Node.evaluate]
    exact producing_blames (Node.start_of_places h) (.pure (Value.plain_string s).sourced)
  | ⟨_, .bool q⟩, h => by
    simp only [Node.evaluate]
    exact producing_blames (Node.start_of_places h) (.pure (Value.plain_bool q).sourced)
  | ⟨_, .returnNothing⟩, h | ⟨_, .breakLoop⟩, h | ⟨_, .continueLoop⟩, h => by
    simp only [Node.evaluate]
    exact producing_blames (Node.start_of_places h) (.pure (Value.sourced_of_signal rfl nofun))
  | ⟨span, .unit numerator denominator⟩, h => by
    have hspan := Node.start_of_places h
    simp only [Node.evaluate]
    have hunits : (Eval.attempt (Units.ofFactors (numerator.map Ident.name)
        (denominator.map Ident.name)) fun _ => some span.start).Blames b fun _ => True :=
      .attempt (fun _ _ => trivial) fun _ => ⟨_, rfl, hspan⟩
    exact producing_blames hspan (hunits.bind fun u _ => .pure (Value.plain_unit u).sourced)
  | ⟨_, .phys magnitude unit⟩, h => by
    simp only [Node.places, Form.places, List.forall_mem_cons, List.forall_mem_append] at h
    obtain ⟨hspan, hmagnitude, hunit⟩ := h
    have hm := Node.evaluate_blames hrun magnitude hmagnitude
    have hu := Node.evaluate_blames hrun unit hunit
    simp only [Node.evaluate]
    refine producing_blames hspan ((Node.demand_blames hmagnitude hm).bind fun m hm => ?_)
    refine (Located.magnitude_blames hm).bind fun n _ => ?_
    refine (Node.demand_blames hunit hu).bind fun u hu => ?_
    exact (Located.units_blames hu).bind fun units _ => .pure (Value.plain_quantity _).sourced
  | ⟨_, .unary op operand⟩, h => by
    simp only [Node.places, Form.places, List.forall_mem_cons] at h
    obtain ⟨hspan, hoperand⟩ := h
    have ho := Node.evaluate_blames hrun operand hoperand
    simp only [Node.evaluate]
    refine producing_blames hspan ((Node.demand_blames hoperand ho).bind fun v _ => ?_)
    refine .attempt (fun w hw => ?_) fun _ => ⟨_, rfl, hspan⟩
    exact (Value.combined_of_unary hw).plain.sourced
  | ⟨_, .binary op left right⟩, h => by
    simp only [Node.places, Form.places, List.forall_mem_cons, List.forall_mem_append] at h
    obtain ⟨hspan, hleft, hright⟩ := h
    have hl := Node.evaluate_blames hrun left hleft
    have hr := Node.evaluate_blames hrun right hright
    simp only [Node.evaluate]
    refine producing_blames hspan ((Node.demand_blames hleft hl).bind fun v hv => ?_)
    refine (Node.demand_blames hright hr).bind fun w hw => ?_
    refine .attempt (fun u hu => ?_) (operandPosition_placed hv hw)
    exact (Value.combined_of_binary hu).plain.sourced
  | ⟨_, .variable ident⟩, h => by
    simp only [Node.places, Form.places, List.forall_mem_cons] at h
    obtain ⟨hspan, hident, -⟩ := h
    simp only [Node.evaluate]
    have hread : (Eval.view (·.read ident.name) (some ident.span.start)).Blames b
        fun v => v.value.Storable b.places := .view hident fun _ _ hc hv => hc.read hv
    exact producing_blames hspan (hread.bind fun v hv => .pure hv.sourced)
  | ⟨_, .assign type ident value⟩, h => by
    simp only [Node.places, Form.places, List.forall_mem_cons] at h
    obtain ⟨-, hident, hvalue⟩ := h
    have hv := Node.evaluate_blames hrun value hvalue
    simp only [Node.evaluate]
    refine (Node.demand_blames hvalue hv).bind fun v hv => ?_
    refine Eval.Blames.bind (.change (fun c c' hc hset => ?_) fun _ _ _ => ?_)
      fun _ _ => .pure .none
    · exact hc.set hv.value.storable hset
    · exact ⟨_, rfl, hident⟩
  | ⟨_, .ifElse alternatives⟩, h => by
    simp only [Node.places, Form.places, List.forall_mem_cons] at h
    simp only [Node.evaluate]
    exact Alternatives.evaluate_blames hrun alternatives h.2
  | ⟨_, .whileLoop condition body⟩, h => by
    simp only [Node.places, Form.places, List.forall_mem_cons, List.forall_mem_append] at h
    obtain ⟨-, hcondition, hbody⟩ := h
    have hc := Node.evaluate_blames hrun condition hcondition
    have hb := Block.evaluate_blames hrun body hbody
    simp only [Node.evaluate]
    refine .repeatWhile (Node.holds_blames hcondition hc) (hb.map fun _ hr => ?_) .none rounds
    exact hr.afterRound
  | ⟨_, .function ident params returns body⟩, h => by
    simp only [Node.places, Form.places, List.forall_mem_cons, List.cons_append,
      List.forall_mem_append] at h
    obtain ⟨-, -, -, hbody⟩ := h
    simp only [Node.evaluate]
    refine Eval.Blames.bind (.change (fun c c' hc hstep => ?_) nofun) fun _ _ => .pure .none
    cases hstep
    exact hc.declareFunction hbody
  | ⟨_, .call ident args⟩, h => by
    simp only [Node.places, Form.places, List.forall_mem_cons] at h
    obtain ⟨hspan, hident, hargs⟩ := h
    have hevaluated := Node.evaluateArgs_blames hrun args hargs
    simp only [Node.evaluate]
    have hcallee : (Eval.view (·.callee ident.name) (some ident.span.start)).Blames b
        fun f => ∀ g, f = .closure g → (Value.function g).Storable b.places :=
      .view hident fun c f hc hf g hg => hc.callee (hg ▸ hf)
    refine hcallee.bind fun f hf => hevaluated.bind fun vs hvs => ?_
    refine (checkArity_blames f vs hspan).bind fun _ _ => ?_
    refine (Callable.call_blames hrun hf hvs hspan).bind fun result hresult => .pure ?_
    intro v hv
    obtain ⟨w, hw, rfl⟩ := Option.map_eq_some_iff.1 hv
    exact ⟨⟨_, rfl, hspan⟩, (hresult w hw).value⟩
  | ⟨_, .returnValue value⟩, h => by
    simp only [Node.places, Form.places, List.forall_mem_cons] at h
    obtain ⟨hspan, hvalue⟩ := h
    have hv := Node.evaluate_blames hrun value hvalue
    simp only [Node.evaluate]
    refine producing_blames hspan ((Node.demand_blames hvalue hv).bind fun v hv => .pure ?_)
    exact Value.sourced_returning hv.placed
  | ⟨_, .block block⟩, h => by
    simp only [Node.places, Form.places, List.forall_mem_cons] at h
    simp only [Node.evaluate]
    exact Block.evaluate_blames hrun block h.2

/-- So are arguments. -/
theorem Node.evaluateArgs_blames (hrun : run.Blames b) :
    (args : List Node) → (∀ p ∈ Node.allPlaces args, b.places p) →
      (Node.evaluateArgs rounds run args).Blames b (ProducedArgs b.places)
  | [], _ => by
    simp only [Node.evaluateArgs]
    exact .pure nofun
  | arg :: args, h => by
    rw [Node.allPlaces, List.forall_mem_append] at h
    have hfirst := Node.evaluate_blames hrun arg h.1
    have hothers := Node.evaluateArgs_blames hrun args h.2
    simp only [Node.evaluateArgs]
    refine (Node.demand_blames h.1 hfirst).bind fun v hv => ?_
    exact hothers.bind fun vs hvs => .pure (List.forall_mem_cons.2 ⟨hv, hvs⟩)

/-- So are statements, behind one that came to a result from there. -/
theorem Node.evaluateItems_blames (hrun : run.Blames b) :
    (items : List Node) → (∀ p ∈ Node.allPlaces items, b.places p) →
      {last : Option Located} → Produced b.places last →
      (Node.evaluateItems rounds run last items).Blames b (Produced b.places)
  | [], _, last, hlast => by
    simp only [Node.evaluateItems]
    exact .pure hlast
  | item :: items, h, last, _ => by
    rw [Node.allPlaces, List.forall_mem_append] at h
    have hitem := Node.evaluate_blames hrun item h.1
    simp only [Node.evaluateItems]
    refine hitem.bind fun result hresult => ?_
    split
    · exact .pure hresult
    · exact Node.evaluateItems_blames hrun items h.2 hresult

/-- So are blocks. -/
theorem Block.evaluate_blames (hrun : run.Blames b) :
    (block : Block) → (∀ p ∈ block.places, b.places p) →
      (block.evaluate rounds run).Blames b (Produced b.places)
  | ⟨_, items⟩, h => by
    rw [Block.places] at h
    simp only [Block.evaluate]
    exact Node.evaluateItems_blames hrun items h .none

/-- So are alternatives. -/
theorem Alternatives.evaluate_blames (hrun : run.Blames b) :
    (alternatives : Alternatives) → (∀ p ∈ alternatives.places, b.places p) →
      (alternatives.evaluate rounds run).Blames b (Produced b.places)
  | .none, _ => by
    simp only [Alternatives.evaluate]
    exact .pure .none
  | .otherwise block, h => by
    simp only [Alternatives.evaluate]
    exact Block.evaluate_blames hrun block h
  | .case condition body others, h => by
    rw [Alternatives.places, List.forall_mem_append, List.forall_mem_append] at h
    have hc := Node.evaluate_blames hrun condition h.1
    have hb := Block.evaluate_blames hrun body h.2.1
    have ho := Alternatives.evaluate_blames hrun others h.2.2
    simp only [Alternatives.evaluate]
    refine (Node.holds_blames h.1 hc).bind fun holds _ => ?_
    split
    · exact hb
    · exact ho

end

/-! ## Calls -/

namespace Eval.Blames

variable {α : Type} {places : Position → Prop} {good : α → Prop} {x : Eval α}

/-- Faults that are known to be somewhere (`Blame.known`) are not elsewhere (`Blame.unsure`). -/
theorem unsure (hx : x.Blames (.known places) good) : x.Blames (.unsure places) good := by
  refine ⟨hx.machines, hx.result, fun hm he p hp => ?_⟩
  obtain ⟨p', hp', hplace⟩ := hx.fault hm he
  cases hp.symm.trans hp'
  exact hplace

/-- Faults without a place are given one (`Eval.located`), and are known to be there. -/
theorem located {position : Position} (hposition : places position)
    (hx : x.Blames (.unsure places) good) :
    (Eval.located position x).Blames (.known places) good := by
  refine ⟨fun {m} hm => ?_, fun {m a} hm ha => ?_, fun {m e} hm he => ?_⟩
  · rw [located_machine]
    exact hx.machines hm
  · exact hx.result hm (congrArg Prod.fst (located_eq_ok.1 (Prod.ext ha rfl)))
  · obtain ⟨⟨cause, position', traceback⟩, h, rfl⟩ := located_eq_fault.1 (Prod.ext he rfl)
    cases position' with
    | none => exact ⟨position, rfl, hposition⟩
    | some p => exact ⟨p, rfl, hx.fault hm (congrArg Prod.fst h) p rfl⟩

/-- Faults that are given calls (`Eval.traced`) stay where they are. -/
theorem traced (hx : x.Blames (.known places) good) :
    (Eval.traced x).Blames (.known places) good := by
  refine ⟨fun {m} hm => ?_, fun {m a} hm ha => ?_, fun {m e} hm he => ?_⟩
  · rw [traced_machine]
    exact hx.machines hm
  · exact hx.result hm (congrArg Prod.fst (traced_eq_ok.1 (Prod.ext ha rfl)))
  · obtain ⟨e', h, rfl⟩ := traced_eq_fault.1 (Prod.ext he rfl)
    obtain ⟨p, hp, hplace⟩ := hx.fault hm (congrArg Prod.fst h)
    exact ⟨p, hp, hplace⟩

/-- A call that may be made is entered (`Context.enter`) and left, and its faults are those of what
is between. -/
theorem entered {f : Closure} {site : Position} (hf : (Value.function f).Storable places)
    (hsite : places site) {x : Eval (Option Located)} {good : Option Located → Prop}
    (hx : x.Blames (.known places) good) (hobeys : x.Obeys .calls) :
    (Eval.change (·.enter f site) (some site) >>= fun _ => Eval.leaving x).Blames (.known places)
      good := by
  have hcases (m : Machine) (hm : m.context.Orderly places) :
      (∃ n, n.context.Orderly places ∧ (Eval.change (·.enter f site) (some site) >>= fun _ =>
        Eval.leaving x) m = ((x n).1, { (x n).2 with
          context := { (x n).2.context with frames := m.context.frames } })) ∨
      ∃ cause, (Eval.change (·.enter f site) (some site) >>= fun _ => Eval.leaving x) m =
        (.fault ((Fault.ofCause cause).at? (some site)), m) := by
    cases henter : m.context.enter f site with
    | error cause => exact .inr ⟨cause, entered_of_error henter⟩
    | ok c =>
      have hsame := hobeys.steps { m with context := c }
      exact .inl ⟨_, hm.enter hf henter, entered_of_ok henter hsame⟩
  refine ⟨fun {m} hm => ?_, fun {m a} hm ha => ?_, fun {m e} hm he => ?_⟩
  · rcases hcases m hm with ⟨n, hn, h⟩ | ⟨cause, h⟩
    · rw [h]
      exact ⟨(hx.machines hn).globals, hm.frames⟩
    · rw [h]
      exact hm
  · rcases hcases m hm with ⟨n, hn, h⟩ | ⟨cause, h⟩
    · rw [h] at ha
      exact hx.result hn ha
    · rw [h] at ha
      cases ha
  · rcases hcases m hm with ⟨n, hn, h⟩ | ⟨cause, h⟩
    · rw [h] at he
      exact hx.fault hn he
    · rw [h] at he
      cases he
      exact ⟨site, rfl, hsite⟩

end Eval.Blames

namespace Closure

variable {places : Position → Prop}

/-- An argument that does not fit (`Closure.checkArguments`) is blamed. -/
theorem checkArguments_blames {b : Blame} (f : Closure) {params : List Param}
    {args : List Located} (hargs : ProducedArgs b.places args) :
    (f.checkArguments params args).Blames b fun _ =>
      ∀ p ∈ args.zip params, p.1.value.fits p.2.type = true := by
  induction params generalizing args with
  | nil =>
    have hnone : args.zip ([] : List Param) = [] := List.zip_nil_right
    rw [hnone]
    exact .pure nofun
  | cons param params ih =>
    cases args with
    | nil => exact .pure nofun
    | cons arg args =>
      obtain ⟨harg, hargs⟩ := List.forall_mem_cons.1 hargs
      unfold checkArguments
      split
      · next hfits => exact (ih hargs).mono fun _ h => List.forall_mem_cons.2 ⟨hfits, h⟩
      · exact .fail_at harg.placed

/-- What is given back (`Closure.checkPayload`) is plain, and blamed if it does not fit. That
nothing is given back is not blamed on any place. -/
theorem checkPayload_blames (f : Closure) {payload : Option Located}
    (h : ∀ v ∈ payload, ∃ p ∈ v.position, places p) :
    (f.checkPayload payload).Blames (.unsure places) (Produced places) := by
  simp only [checkPayload]
  split
  · next v =>
    split
    · next hfits =>
      refine .pure fun w hw => ?_
      cases hw
      have hplain : v.value.Plain := ⟨_, hfits⟩
      exact ⟨h v rfl, hplain.sourced⟩
    · exact .fail_at (h v rfl)
  · split
    · exact .pure .none
    · refine .fail fun p hp => ?_
      cases hp

/-- What the body of a function came to is blamed if it is refused (`Closure.checkResult`). -/
theorem checkResult_blames (f : Closure) {result : Option Located} (h : Produced places result) :
    (f.checkResult result).Blames (.unsure places) (Produced places) := by
  unfold checkResult
  split
  · next payload span =>
    refine f.checkPayload_blames fun v hv => ?_
    cases hv
    exact (h _ rfl).value.payload rfl
  · next v _ =>
    have hplaced := (h v rfl).placed
    split
    · exact .fail_at hplaced
    · refine f.checkPayload_blames fun w hw => ?_
      cases hw
      exact hplaced
  · exact f.checkPayload_blames nofun

/-- What is between entering and leaving a call (`inside`) has known faults if the body has. -/
theorem inside_blames {body : Eval (Option Located)}
    (hbody : body.Blames (.known places) (Produced places)) (f : Closure) {args : List Located}
    (hfits : ∀ p ∈ args.zip f.declaration.params, p.1.value.fits p.2.type = true)
    {site : Position} (hsite : places site) :
    (inside body f args site).Blames (.known places) (Produced places) := by
  refine .traced (.located hsite (Eval.Blames.bind (.change (fun c c' hc hstep => ?_) nofun)
    fun _ _ => hbody.unsure.bind fun result hresult => f.checkResult_blames hresult))
  cases hstep
  exact hc.bindParams hfits

end Closure

/-- Calls of functions with bodies within some places have faults that are known to be at one of
them, by induction on the fuel. -/
theorem callWithin_blames (places : Position → Prop) (fuel : Nat) :
    (callWithin fuel).Blames (.known places) := by
  induction fuel with
  | zero => exact fun _ _ _ _ _ _ => .outOfFuel
  | succ fuel ih =>
    intro f args site hf hargs hsite
    rw [callWithin_succ, Closure.call_eq]
    refine (f.checkArguments_blames hargs).bind fun _ hfits => ?_
    have hbodies : ∀ p ∈ f.declaration.body.places, places p := by
      cases hf with
      | plain hplain => exact absurd rfl (hplain.ne_function f)
      | function hbodies _ => exact hbodies
    have hbody := @Block.evaluate_blames _ fuel _ ih f.declaration.body hbodies
    have hobeys : (f.declaration.body.evaluate fuel (callWithin fuel)).Obeys .calls :=
      Block.evaluate_obeys (callWithin_obeys fuel) f.declaration.body
    exact .entered hf hsite (Closure.inside_blames hbody f hfits hsite)
      (Closure.inside_obeys hobeys f args site)

/-- A program has faults that are known to be at one of some places if it is within these itself
(`Block.places`). -/
theorem Block.run_blames {places : Position → Prop} (fuel : Nat) {program : Block}
    (h : ∀ p ∈ program.places, places p) :
    (program.run fuel).Blames (.known places) fun _ => True := by
  have hblock := @Block.evaluate_blames _ fuel _ (callWithin_blames places fuel) program h
  refine .traced (hblock.bind fun result hresult => ?_)
  split
  · exact .pure trivial
  · next v _ =>
    split
    · exact .fail_at (hresult v rfl).placed
    · exact .pure trivial
  · exact .pure trivial

/-! ## Programs -/

/-- A place is one where the program, or the body of a function that is bound on the machine
(`Machine.Stores`), has a node or a name. -/
def Machine.Shows (m : Machine) (program : Block) (p : Position) : Prop :=
  p ∈ program.places ∨ ∃ f, m.Stores f ∧ p ∈ f.declaration.body.places

/-- Where the machine shows them (`Machine.Shows`), functions may be bound. -/
theorem Machine.Reachable.orderly_shows {m : Machine} (h : m.Reachable) (program : Block) :
    m.context.Orderly (m.Shows program) :=
  h.orderly.narrow fun entry hentry f hf _ hp => .inr ⟨f, ⟨entry, hentry, hf⟩, hp⟩

/-- Every fault of a program is at a place where the program has a node or a name, or the body of a
function that was bound before (`Machine.Shows`). -/
theorem Block.run_placed {m m' : Machine} (hm : m.Reachable) {fuel : Nat} {program : Block}
    {e : Fault} (h : program.run fuel m = (.fault e, m')) :
    ∃ p, e.position = some p ∧ m.Shows program p := by
  have hblames := @Block.run_blames (m.Shows program) fuel program fun _ hp => .inl hp
  exact hblames.fault (hm.orderly_shows program) (congrArg Prod.fst h)

end

end UnitScript
