import UnitScript.Proofs.Machine.Judgement

/-!
# What whole evaluations keep to

A `Discipline` is a preorder on machines that the single steps of an evaluation keep to, together
with the causes that its faults may have. Whatever is put together from such steps keeps to the
discipline as well (`Eval.Obeys`), and so does the evaluation of every tree whatsoever, if calls do
(`Node.evaluate_obeys` and its companions). Nothing is assumed of the trees or of the machine.
-/

namespace UnitScript

/-- What a run may do to a machine, and why it may fail. `steps` is a preorder, so it says what a
run as a whole may do as soon as it allows for each single step. -/
structure Discipline where
  /-- The first machine may become the second. -/
  steps : Machine → Machine → Prop
  /-- A fault may have this cause. -/
  causes : Cause → Prop
  refl (m : Machine) : steps m m
  trans {m n o : Machine} : steps m n → steps n o → steps m o
  /-- A line may be printed. -/
  print (m : Machine) (line : String) : steps m { m with printed := m.printed.push line }
  /-- A variable may be set. -/
  set {m : Machine} {name : String} {type : Option TypeName} {v : Located} {context : Context} :
    m.context.set name type v = .ok context → steps m { m with context }
  /-- A function may be defined. -/
  declareFunction (m : Machine) (declaration : Declaration) :
    steps m { m with context := m.context.declareFunction declaration }
  /-- All causes are allowed but the one that no call is there to leave. -/
  ordinary {cause : Cause} : cause.kind ≠ .noCallToLeave → causes cause

/-- A computation comes to good results only. -/
def Eval.Yields {α : Type} (good : α → Prop) (x : Eval α) : Prop :=
  ∀ ⦃m : Machine⦄ ⦃a : α⦄, (x m).1 = .ok a → good a

namespace Eval.Yields

variable {α β : Type} {good : α → Prop} {fine : β → Prop} {x : Eval α}

/-- A result without any effect, `Pure.pure`, comes to nothing else. -/
theorem pure {a : α} (h : good a) : Yields good (Pure.pure a : Eval α) := by
  intro m b hb
  cases hb
  exact h

/-- One computation after another comes to good results if the second one does for what the first
`Yields`. -/
theorem bind {f : α → Eval β} (hx : Yields good x) (hf : ∀ a, good a → Yields fine (f a)) :
    Yields fine (x >>= f) := by
  intro m b hb
  obtain ⟨a, mid, ha, h⟩ := bind_eq_ok.1 (Prod.ext hb rfl)
  exact hf a (hx (congrArg Prod.fst ha)) (congrArg Prod.fst h)

/-- A loop (`Eval.repeatWhile`) comes to a good result of its body, or to the one for a loop that is
done. -/
theorem repeatWhile {condition : Eval Bool} {body : Eval (Option α)} {done : α}
    (hbody : Yields (fun o => ∀ a ∈ o, good a) body) (hdone : good done) (rounds : Nat) :
    Yields good (Eval.repeatWhile condition body done rounds) := by
  induction rounds with
  | zero => exact nofun
  | succ rounds ih =>
    unfold Eval.repeatWhile
    have hcondition : Yields (fun _ => True) condition := fun _ _ _ => trivial
    refine hcondition.bind fun holds _ => ?_
    cases holds with
    | false => exact .pure hdone
    | true =>
      refine hbody.bind fun result hresult => ?_
      cases result with
      | none => exact ih
      | some a => exact .pure (hresult a rfl)

end Eval.Yields

/-- A computation keeps to a discipline: it takes its machine to another one by `Discipline.steps`,
and its faults have one of `Discipline.causes`. -/
structure Eval.Obeys {α : Type} (d : Discipline) (x : Eval α) : Prop where
  steps (m : Machine) : d.steps m (x m).2
  causes {m : Machine} {e : Fault} : (x m).1 = .fault e → d.causes e.cause

namespace Eval.Obeys

variable {α β : Type} {d : Discipline} {x : Eval α}

/-- A computation that comes to a result takes its machine to another one by `Discipline.steps`. -/
theorem steps_of_ok (hx : x.Obeys d) {m m' : Machine} {a : α} (h : x m = (.ok a, m')) :
    d.steps m m' := by
  have hsteps := hx.steps m
  rwa [h] at hsteps

/-- A result without any effect leaves the machine as it is, which every discipline allows. -/
theorem pure (a : α) : Obeys d (Pure.pure a : Eval α) :=
  ⟨d.refl, nofun⟩

/-- The end of the fuel (`Eval.outOfFuel`) is no fault and no step. -/
theorem outOfFuel : Obeys d (Eval.outOfFuel : Eval α) :=
  ⟨d.refl, nofun⟩

/-- One computation after another, where the second one has to keep to the discipline for what the
first `Yields`. -/
theorem bind_of_yields {good : α → Prop} {f : α → Eval β} (hx : Obeys d x) (hgood : x.Yields good)
    (hf : ∀ a, good a → Obeys d (f a)) : Obeys d (x >>= f) := by
  refine ⟨fun m => ?_, fun {m e} he => ?_⟩
  · have hm := hx.steps m
    rcases h : x m with ⟨a | e | _, m'⟩ <;> rw [h] at hm
    · rw [bind_of_ok h]
      exact d.trans hm ((hf a (hgood (congrArg Prod.fst h))).steps m')
    · rw [bind_of_fault h]
      exact hm
    · rw [bind_of_outOfFuel h]
      exact hm
  · rcases bind_eq_fault.1 (Prod.ext he rfl) with h | ⟨a, mid, ha, h⟩
    · exact hx.causes (congrArg Prod.fst h)
    · exact (hf a (hgood (congrArg Prod.fst ha))).causes (congrArg Prod.fst h)

/-- One computation after another, where the second one keeps to the discipline whatever the first
comes to. -/
theorem bind {f : α → Eval β} (hx : Obeys d x) (hf : ∀ a, Obeys d (f a)) :
    Obeys d (x >>= f) := by
  have hany : x.Yields fun _ => True := fun _ _ _ => trivial
  exact hx.bind_of_yields hany fun a _ => hf a

/-- What a computation comes to may be changed: the discipline speaks of machines and causes, not of
results. -/
theorem map (f : α → β) (hx : Obeys d x) : Obeys d (f <$> x) := by
  rw [← bind_pure_comp]
  exact hx.bind fun a => .pure (f a)

/-- A fault (`Eval.fail`) for any cause but that of leaving where no call is in progress. -/
theorem fail {cause : Cause} (h : cause.kind ≠ .noCallToLeave) (position : Option Position) :
    Obeys d (Eval.fail cause position : Eval α) := by
  refine ⟨d.refl, fun hfault => ?_⟩
  cases hfault
  exact d.ordinary h

/-- Whatever does not look at the machine (`Eval.Immediate`) keeps to every discipline. -/
theorem of_immediate {good : α → Prop} (h : Immediate good x) : Obeys d x := by
  cases h with
  | pure ha => exact .pure _
  | fail h position => exact .fail h position

/-- Something that is read off the context by `Eval.view`, with causes other than that of
leaving. -/
theorem view {read : Context → Except Cause α} (position : Option Position)
    (h : ∀ context cause, read context = .error cause → cause.kind ≠ .noCallToLeave) :
    Obeys d (Eval.view read position) := by
  have hattempt (m : Machine) : Obeys d (Eval.attempt (read m.context) fun _ => position) :=
    .of_immediate (.attempt _ (h m.context))
  refine ⟨fun m => ?_, fun {m e} he => ?_⟩
  · exact (hattempt m).steps m
  · exact (hattempt m).causes he

/-- A change of the context by `Eval.change`, if each change is one of `Discipline.steps`. -/
theorem change {step : Context → Except Cause Context} (position : Option Position)
    (hstep : ∀ (m : Machine) context, step m.context = .ok context → d.steps m { m with context })
    (hcause : ∀ context cause, step context = .error cause → cause.kind ≠ .noCallToLeave) :
    Obeys d (Eval.change step position) := by
  refine ⟨fun m => ?_, fun {m e} he => ?_⟩
  · unfold Eval.change
    cases h : step m.context with
    | ok context => exact hstep m context h
    | error cause => exact d.refl m
  · unfold Eval.change at he
    cases h : step m.context with
    | ok context =>
      rw [h] at he
      cases he
    | error cause =>
      rw [h] at he
      cases he
      exact d.ordinary (hcause _ cause h)

/-- A line is printed, which `Discipline.print` allows. -/
theorem print (line : String) : Obeys d (Eval.print line) :=
  ⟨fun m => d.print m line, nofun⟩

/-- Faults are given the calls in progress (`Eval.traced`), which changes neither their causes nor
the machine. -/
theorem traced (hx : Obeys d x) : Obeys d (Eval.traced x) := by
  refine ⟨fun m => ?_, fun {m e} he => ?_⟩
  · have hm := hx.steps m
    unfold Eval.traced
    split
    all_goals
      next h => rw [h] at hm; exact hm
  · unfold Eval.traced at he
    split at he
    · next e' m' h =>
      cases he
      show d.causes e'.cause
      exact hx.causes (congrArg Prod.fst h)
    · next h =>
      refine hx.causes (m := m) ?_
      rw [h]
      exact he

/-- Faults are given a place (`Eval.located`), which changes neither their causes nor the
machine. -/
theorem located (position : Position) (hx : Obeys d x) : Obeys d (Eval.located position x) := by
  refine ⟨fun m => ?_, fun {m e} he => ?_⟩
  · have hm := hx.steps m
    unfold Eval.located
    split
    all_goals
      next h => rw [h] at hm; exact hm
  · unfold Eval.located at he
    split at he
    · next e' m' h =>
      cases he
      show d.causes e'.cause
      exact hx.causes (congrArg Prod.fst h)
    · next h =>
      refine hx.causes (m := m) ?_
      rw [h]
      exact he

/-- A loop (`Eval.repeatWhile`) whose condition and body keep to the discipline, by induction on its
rounds. -/
theorem repeatWhile {condition : Eval Bool} {body : Eval (Option α)} (done : α)
    (hcondition : Obeys d condition) (hbody : Obeys d body) (rounds : Nat) :
    Obeys d (Eval.repeatWhile condition body done rounds) := by
  induction rounds with
  | zero => exact .outOfFuel
  | succ rounds ih =>
    unfold Eval.repeatWhile
    refine hcondition.bind fun holds => ?_
    cases holds with
    | false => exact .pure done
    | true =>
      refine hbody.bind fun result => ?_
      cases result with
      | none => exact ih
      | some a => exact .pure a

end Eval.Obeys

/-! ## What values are needed for -/

section
variable {d : Discipline}

/-- A value that is needed (`Node.demand`) is come to by what the node does, or is missing. -/
theorem Node.demand_obeys (node : Node) {x : Eval (Option Located)} (hx : x.Obeys d) :
    (node.demand x).Obeys d := by
  refine hx.bind fun result => ?_
  cases result with
  | none => exact .fail FaultKind.noConfusion _
  | some v => exact .pure v

/-- A condition (`Node.holds`) does what its node does, and then looks at the value only. -/
theorem Node.holds_obeys (node : Node) {x : Eval (Option Located)} (hx : x.Obeys d) :
    (node.holds x).Obeys d :=
  (node.demand_obeys hx).bind fun v => .of_immediate v.truth_immediate

/-! ## Trees -/

variable {rounds : Nat} {run : Caller}

/-- What evaluations keep to is a judgement on them (`Judgement`), if calls keep to it. -/
def Discipline.judgement (d : Discipline) (rounds : Nat)
    (hrun : ∀ f args site, (run f args site).Obeys d) : Judgement rounds rounds run run where
  forms _ := True
  values _ _ := True
  functions _ := True
  holds good x _ := x.Obeys d ∧ x.Yields good
  pure ha := ⟨.pure _, .pure ha⟩
  bind hx hf :=
    ⟨hx.1.bind_of_yields hx.2 fun a ha => (hf a ha).1, hx.2.bind fun a ha => (hf a ha).2⟩
  fail _ hcause := ⟨.fail hcause.not_leave _, nofun⟩
  number _ := trivial
  bool _ := trivial
  string _ := trivial
  unit _ := trivial
  quantity _ := trivial
  unary _ _ := trivial
  binary _ _ _ := trivial
  breaking _ := trivial
  continuing _ := trivial
  returnNothing := trivial
  returning _ := trivial
  handedOn _ := trivial
  read _ _ := ⟨.view _ fun _ _ h => (Context.read_ordinary h).not_leave, fun _ _ _ => trivial⟩
  callee _ _ :=
    ⟨.view _ fun _ _ h => (Context.callee_ordinary h).not_leave, fun _ _ _ _ _ => trivial⟩
  print line := ⟨.print line, fun _ _ _ => trivial⟩
  set _ _ _ :=
    ⟨.change _ (fun _ _ h => d.set h) fun _ _ h => (Context.set_ordinary h).not_leave,
      fun _ _ _ => trivial⟩
  declareFunction _ _ := by
    refine ⟨.change _ (fun m context h => ?_) nofun, fun _ _ _ => trivial⟩
    cases h
    exact d.declareFunction m _
  loop _ hcondition hbody hdone :=
    ⟨.repeatWhile _ hcondition.1 hbody.1 _, .repeatWhile hbody.2 hdone _⟩
  call site _ _ := ⟨hrun _ _ site, fun _ _ _ _ _ => trivial⟩

/-- It allows all forms (`Judgement.Allows`): a discipline asks nothing of trees. -/
theorem Discipline.allows (hrun : ∀ f args site, (run f args site).Obeys d)
    (occurrences : List Occurrence) : (d.judgement rounds hrun).Allows occurrences :=
  fun _ _ => trivial

/-- The evaluation of any node keeps to a discipline if calls do (`Node.evaluate_judged` for
`Discipline.judgement`). -/
theorem Node.evaluate_obeys (hrun : ∀ f args site, (run f args site).Obeys d) (node : Node) :
    (node.evaluate rounds run).Obeys d :=
  (node.evaluate_judged (d.judgement rounds hrun)
    (Discipline.allows hrun (node.occurrences false))).1

/-- The evaluation of arguments keeps to it, as that of each of them by `Node.evaluate_obeys`. -/
theorem Node.evaluateArgs_obeys (hrun : ∀ f args site, (run f args site).Obeys d)
    (args : List Node) : (Node.evaluateArgs rounds run args).Obeys d :=
  (Node.evaluateArgs_judged (d.judgement rounds hrun) args
    (Discipline.allows hrun (Node.allOccurrences false args))).1

/-- The evaluation of statements keeps to it, whatever the statement before them came to. -/
theorem Node.evaluateItems_obeys (hrun : ∀ f args site, (run f args site).Obeys d)
    (items : List Node) (last : Option Located) :
    (Node.evaluateItems rounds run last items).Obeys d :=
  (Node.evaluateItems_judged (d.judgement rounds hrun) items
    (Discipline.allows hrun (Node.allOccurrences false items)) fun _ _ => trivial).1

/-- The evaluation of a block keeps to it, as that of its statements by
`Node.evaluateItems_obeys`. -/
theorem Block.evaluate_obeys (hrun : ∀ f args site, (run f args site).Obeys d) (block : Block) :
    (block.evaluate rounds run).Obeys d :=
  (block.evaluate_judged (d.judgement rounds hrun)
    (Discipline.allows hrun (block.occurrences false))).1

/-- The evaluation of alternatives keeps to it, whichever of them is run. -/
theorem Alternatives.evaluate_obeys (hrun : ∀ f args site, (run f args site).Obeys d)
    (alternatives : Alternatives) : (alternatives.evaluate rounds run).Obeys d :=
  (alternatives.evaluate_judged (d.judgement rounds hrun)
    (Discipline.allows hrun (alternatives.occurrences false))).1

end

end UnitScript
