import UnitScript.Proofs.Machine.Judgement

/-!
# What evaluations keep up

A `Regime` says which machines are in order and which values may be come to on them, and that the
single steps of an evaluation respect both. Then whole evaluations do (`Eval.Keeps`): begun on a
machine in order, they leave one in order, whether they succeed or fail, and a value that they come
to is one of the regime. This holds of every tree (`Node.evaluate_keeps` and its companions) and
of all calls (`callWithin_keeps`).
-/

namespace UnitScript

/-- What is said of machines and of values, as single steps of an evaluation respect it. The fields
without a comment are the steps; `callWithin_keeps` derives from them that whole runs respect it. -/
structure Regime where
  /-- A machine is in order. -/
  machines : Machine → Prop
  /-- A value may be come to. -/
  values : Value → Prop
  number (n : Number) : values (.number n)
  bool (b : Bool) : values (.bool b)
  string (s : String) : values (.string s)
  breaking : values .breaking
  continuing : values .continuing
  returnNothing : values (.returning none)
  /-- What is returned is a value of the regime, and the other way round. -/
  returning {v : Located} : values (.returning (some v)) ↔ values v.value
  unit {above below : List String} {u : Units} : Units.ofFactors above below = .ok u →
    values (.unit u)
  quantity {n : Number} {u : Units} : values (.unit u) → values (.quantity ⟨n, u⟩)
  unary {op : UnaryOp} {a b : Value} : values a → a.unary op = .ok b → values b
  binary {op : BinaryOp} {a b c : Value} : values a → values b → a.binary op b = .ok c → values c
  /-- What is bound on a machine in order may be come to. -/
  read {m : Machine} {name : String} {v : Located} : machines m → m.context.read name = .ok v →
    values v.value
  callee {m : Machine} {name : String} {f : Closure} : machines m →
    m.context.callee name = .ok (.closure f) → values (.function f)
  print {m : Machine} (line : String) : machines m →
    machines { m with printed := m.printed.push line }
  set {m : Machine} {name : String} {type : Option TypeName} {v : Located} {context : Context} :
    machines m → values v.value → m.context.set name type v = .ok context →
    machines { m with context }
  declareFunction {m : Machine} (declaration : Declaration) : machines m →
    machines { m with context := m.context.declareFunction declaration }
  enter {m : Machine} {f : Closure} {site : Position} {context : Context} : machines m →
    values (.function f) → m.context.enter f site = .ok context → machines { m with context }
  leave {m : Machine} {context : Context} : machines m → m.context.leave = .ok context →
    machines { m with context }

/-- A result, if there is one, is a value of the regime. -/
def Regime.results (r : Regime) (result : Option Located) : Prop :=
  ∀ v ∈ result, r.values v.value

/-- Nothing is said of no result, so `Regime.results` holds of it. -/
theorem Regime.results_none (r : Regime) : r.results none := nofun

/-- Arguments are values of the regime. -/
def Regime.arguments (r : Regime) (args : List Located) : Prop :=
  ∀ arg ∈ args, r.values arg.value

/-- From a machine in order (`Regime.machines`) a computation leaves one in order, however it ends,
and its result is good. -/
structure Eval.Keeps {α : Type} (r : Regime) (good : α → Prop) (x : Eval α) : Prop where
  machines {m : Machine} : r.machines m → r.machines (x m).2
  result {m : Machine} {a : α} : r.machines m → (x m).1 = .ok a → good a

namespace Eval.Keeps

variable {α β : Type} {r : Regime} {good : α → Prop} {fine : β → Prop} {x : Eval α}

/-- Where there is a result, it is good, and the machine that is left is in order
(`Regime.machines`). -/
theorem of_eq_ok (hx : Keeps r good x) {m m' : Machine} {a : α} (hm : r.machines m)
    (h : x m = (.ok a, m')) : good a ∧ r.machines m' := by
  have hm' := hx.machines hm
  rw [h] at hm'
  exact ⟨hx.result hm (congrArg Prod.fst h), hm'⟩

/-- A result without any effect, `Pure.pure`, leaves the machine as it is. -/
theorem pure {a : α} (h : good a) : Keeps r good (Pure.pure a : Eval α) := by
  refine ⟨id, fun _ ha => ?_⟩
  cases ha
  exact h

/-- The end of the fuel (`Eval.outOfFuel`) has no result to be good. -/
theorem outOfFuel : Keeps r good (Eval.outOfFuel : Eval α) := ⟨id, nofun⟩

/-- A fault (`Eval.fail`) has no result to be good, and leaves the machine as it is. -/
theorem fail (cause : Cause) (position : Option Position) :
    Keeps r good (Eval.fail cause position : Eval α) := ⟨id, nofun⟩

/-- One computation after another, where the second one keeps to the regime for every good result of
the first. -/
theorem bind {f : α → Eval β} (hx : Keeps r good x) (hf : ∀ a, good a → Keeps r fine (f a)) :
    Keeps r fine (x >>= f) := by
  refine ⟨fun {m} hm => ?_, fun {m b} hm hb => ?_⟩
  · rcases h : x m with ⟨a | e | _, m'⟩
    · obtain ⟨ha, hm'⟩ := hx.of_eq_ok hm h
      rw [bind_of_ok h]
      exact (hf a ha).machines hm'
    · rw [bind_of_fault h]
      have hm' := hx.machines hm
      rwa [h] at hm'
    · rw [bind_of_outOfFuel h]
      have hm' := hx.machines hm
      rwa [h] at hm'
  · obtain ⟨a, mid, ha, h⟩ := bind_eq_ok.1 (Prod.ext hb rfl)
    obtain ⟨hgood, hmid⟩ := hx.of_eq_ok hm ha
    exact (hf a hgood).result hmid (congrArg Prod.fst h)

/-- What a computation comes to may be changed, if what is made of good results is good. -/
theorem map {f : α → β} (hx : Keeps r good x) (h : ∀ a, good a → fine (f a)) :
    Keeps r fine (f <$> x) := by
  rw [← bind_pure_comp]
  exact hx.bind fun a ha => .pure (h a ha)

/-- Whatever does not look at the machine (`Eval.Immediate`) keeps to every regime. -/
theorem of_immediate (h : Immediate good x) : Keeps r good x := by
  cases h with
  | pure ha => exact .pure ha
  | fail _ position => exact .fail _ position

/-- Something that is refused or not (`Eval.attempt`), whose results are good. -/
theorem attempt {result : Except Cause α} (place : Cause → Option Position)
    (h : ∀ a, result = .ok a → good a) : Keeps r good (Eval.attempt result place) := by
  unfold Eval.attempt
  cases result with
  | ok a => exact .pure (h a rfl)
  | error cause => exact .fail _ _

/-- Something that is read off the context by `Eval.view`, if it is good on machines in order. -/
theorem view {read : Context → Except Cause α} (position : Option Position)
    (h : ∀ m a, r.machines m → read m.context = .ok a → good a) :
    Keeps r good (Eval.view read position) := by
  have hattempt (m : Machine) (hm : r.machines m) :
      Keeps r good (Eval.attempt (read m.context) fun _ => position) :=
    .attempt _ fun a ha => h m a hm ha
  exact ⟨fun hm => (hattempt _ hm).machines hm, fun hm => (hattempt _ hm).result hm⟩

/-- A change of the context by `Eval.change` that leaves machines in order. -/
theorem change {step : Context → Except Cause Context} (position : Option Position)
    (h : ∀ (m : Machine) context, r.machines m → step m.context = .ok context →
      r.machines { m with context }) :
    Keeps r (fun _ => True) (Eval.change step position) := by
  refine ⟨fun {m} hm => ?_, fun _ _ => trivial⟩
  unfold Eval.change
  cases hstep : step m.context with
  | ok context => exact h m context hm hstep
  | error cause => exact hm

/-- A line is printed, which `Regime.print` allows for. -/
theorem print (line : String) : Keeps r (fun _ => True) (Eval.print line) :=
  ⟨r.print line, fun _ _ => trivial⟩

/-- Faults are given the calls in progress (`Eval.traced`): results and machines stay as they
are. -/
theorem traced (hx : Keeps r good x) : Keeps r good (Eval.traced x) := by
  refine ⟨fun {m} hm => ?_, fun {m a} hm ha => ?_⟩
  · have hm' := hx.machines hm
    unfold Eval.traced
    split
    all_goals
      next h => rwa [h] at hm'
  · unfold Eval.traced at ha
    split at ha
    · cases ha
    · next h => exact hx.result hm ((congrArg Prod.fst h).trans ha)

/-- Faults are given a place (`Eval.located`): results and machines stay as they are. -/
theorem located (position : Position) (hx : Keeps r good x) :
    Keeps r good (Eval.located position x) := by
  refine ⟨fun {m} hm => ?_, fun {m a} hm ha => ?_⟩
  · have hm' := hx.machines hm
    unfold Eval.located
    split
    all_goals
      next h => rwa [h] at hm'
  · unfold Eval.located at ha
    split at ha
    · cases ha
    · next h => exact hx.result hm ((congrArg Prod.fst h).trans ha)

/-- A call is left behind a computation (`Eval.leaving`), which `Regime.leave` allows for. -/
theorem leaving (hx : Keeps r good x) : Keeps r good (Eval.leaving x) := by
  refine ⟨fun {m} hm => ?_, fun {m a} hm ha => ?_⟩
  · rw [leaving_eq]
    cases h : (x m).2.context.leave with
    | ok context => exact r.leave (hx.machines hm) h
    | error cause => exact hx.machines hm
  · rw [leaving_eq] at ha
    cases h : (x m).2.context.leave with
    | ok context =>
      rw [h] at ha
      exact hx.result hm ha
    | error cause =>
      rw [h] at ha
      cases ha

/-- A loop (`Eval.repeatWhile`) whose condition and body keep to the regime, by induction on its
rounds. -/
theorem repeatWhile {condition : Eval Bool} {body : Eval (Option α)} {done : α}
    (hcondition : Keeps r (fun _ => True) condition)
    (hbody : Keeps r (fun o => ∀ a ∈ o, good a) body) (hdone : good done) (rounds : Nat) :
    Keeps r good (Eval.repeatWhile condition body done rounds) := by
  induction rounds with
  | zero => exact .outOfFuel
  | succ rounds ih =>
    unfold Eval.repeatWhile
    refine hcondition.bind fun holds _ => ?_
    cases holds with
    | false => exact .pure hdone
    | true =>
      refine hbody.bind fun result hresult => ?_
      cases result with
      | none => exact ih
      | some a => exact .pure (hresult a rfl)

end Eval.Keeps

/-! ## What values are needed for -/

section
variable {r : Regime}

/-- A value that is needed (`Node.demand`) is one of the regime if the results of its node are. -/
theorem Node.demand_keeps (node : Node) {x : Eval (Option Located)} (hx : x.Keeps r r.results) :
    (node.demand x).Keeps r fun v => r.values v.value := by
  refine hx.bind fun result hresult => ?_
  cases result with
  | none => exact .fail _ _
  | some v => exact .pure (hresult v rfl)

/-- A condition (`Node.holds`) keeps to the regime if its node does. Its truth value is not spoken
of. -/
theorem Node.holds_keeps (node : Node) {x : Eval (Option Located)} (hx : x.Keeps r r.results) :
    (node.holds x).Keeps r fun _ => True :=
  (node.demand_keeps hx).bind fun v _ => .of_immediate v.truth_immediate

/-- What a loop hands on is what its body came to (`UnitScript.afterRound`): nothing, or a `return`
with its payload. -/
theorem afterRound_results {result : Option Located} (h : r.results result) :
    ∀ a ∈ afterRound result, r.results a := by
  intro a ha
  unfold afterRound at ha
  split at ha
  · cases ha
    exact nofun
  · cases ha
    exact h
  · cases ha

/-! ## Trees -/

/-- Calls keep to a regime: of its functions, with its values as arguments (`Regime.arguments`). -/
def Caller.Keeps (r : Regime) (run : Caller) : Prop :=
  ∀ ⦃f args⦄ site, r.values (.function f) → r.arguments args →
    (run f args site).Keeps r r.results

variable {rounds : Nat} {run : Caller}

/-- What evaluations keep up is a judgement on them (`Judgement`), if calls keep it up. -/
def Regime.judgement (r : Regime) (rounds : Nat) (hrun : run.Keeps r) :
    Judgement rounds rounds run run where
  forms _ := True
  values _ := r.values
  functions f := r.values (.function f)
  holds good x _ := x.Keeps r good
  pure ha := .pure ha
  bind hx hf := hx.bind hf
  fail _ _ := .fail _ _
  number := r.number
  bool := r.bool
  string := r.string
  unit := r.unit
  quantity := r.quantity
  unary := r.unary
  binary := r.binary
  breaking _ := r.breaking
  continuing _ := r.continuing
  returnNothing := r.returnNothing
  returning := r.returning.2
  handedOn := id
  read _ _ := .view _ fun _ _ hm h => r.read hm h
  callee _ _ := .view _ fun _ _ hm hf _ hg => r.callee hm (hg ▸ hf)
  print := .print
  set _ _ hv := .change _ fun _ _ hm h => r.set hm hv h
  declareFunction _ _ := by
    refine .change _ fun m context hm h => ?_
    cases h
    exact r.declareFunction _ hm
  loop _ hcondition hbody hdone := .repeatWhile hcondition hbody hdone _
  call site hf hargs := hrun site hf hargs

/-- It allows all forms (`Judgement.Allows`): a regime asks nothing of trees. -/
theorem Regime.allows (hrun : run.Keeps r) (occurrences : List Occurrence) :
    (r.judgement rounds hrun).Allows occurrences :=
  fun _ _ => trivial

/-- The evaluation of any node keeps to a regime if calls do (`Node.evaluate_judged` for
`Regime.judgement`). -/
theorem Node.evaluate_keeps (hrun : run.Keeps r) (node : Node) :
    (node.evaluate rounds run).Keeps r r.results :=
  node.evaluate_judged (r.judgement rounds hrun) (Regime.allows hrun (node.occurrences false))

/-- The evaluation of arguments keeps to it, and comes to `Regime.arguments`. -/
theorem Node.evaluateArgs_keeps (hrun : run.Keeps r) (args : List Node) :
    (Node.evaluateArgs rounds run args).Keeps r r.arguments :=
  Node.evaluateArgs_judged (r.judgement rounds hrun) args
    (Regime.allows hrun (Node.allOccurrences false args))

/-- The evaluation of statements keeps to it, if the result of the statement before them does. -/
theorem Node.evaluateItems_keeps (hrun : run.Keeps r) (items : List Node) {last : Option Located}
    (hlast : r.results last) : (Node.evaluateItems rounds run last items).Keeps r r.results :=
  Node.evaluateItems_judged (r.judgement rounds hrun) items
    (Regime.allows hrun (Node.allOccurrences false items)) hlast

/-- The evaluation of a block keeps to it, as that of its statements by
`Node.evaluateItems_keeps`. -/
theorem Block.evaluate_keeps (hrun : run.Keeps r) (block : Block) :
    (block.evaluate rounds run).Keeps r r.results :=
  block.evaluate_judged (r.judgement rounds hrun) (Regime.allows hrun (block.occurrences false))

/-- The evaluation of alternatives keeps to it, whichever of them is run. -/
theorem Alternatives.evaluate_keeps (hrun : run.Keeps r) (alternatives : Alternatives) :
    (alternatives.evaluate rounds run).Keeps r r.results :=
  alternatives.evaluate_judged (r.judgement rounds hrun)
    (Regime.allows hrun (alternatives.occurrences false))

/-! ## Calls -/

namespace Closure

/-- Parameters are bound to arguments that fit them, one after the other. Each of them is set as a
variable of its type is declared (`Regime.set`). -/
theorem bindParams_keeps {params : List Param} {args : List Located}
    (hfits : ∀ p ∈ args.zip params, p.1.value.fits p.2.type = true) (hargs : r.arguments args)
    {m : Machine} (hm : r.machines m) :
    r.machines { m with context := bindParams params args m.context } := by
  induction params generalizing args m with
  | nil => exact hm
  | cons param params ih =>
    cases args with
    | nil => exact hm
    | cons arg args =>
      rw [List.zip_cons_cons] at hfits
      obtain ⟨hfirst, hfits⟩ := List.forall_mem_cons.1 hfits
      obtain ⟨harg, hargs⟩ := List.forall_mem_cons.1 hargs
      -- An argument that fits is bound as a variable of its type is declared.
      have hset : m.context.set param.ident.name (some param.type) arg =
          .ok (m.context.bind param.ident.name arg) := if_pos hfirst
      exact ih hfits hargs (r.set hm harg hset)

/-- What a function gives back is what its body came to, or what that returns
(`Closure.checkResult`). -/
theorem checkResult_keeps (f : Closure) {result : Option Located} (h : r.results result) :
    (f.checkResult result).Keeps r r.results := by
  unfold checkResult
  split
  · next payload span =>
    refine .of_immediate (f.checkPayload_immediate fun v hv => ?_)
    cases hv
    exact r.returning.1 (h _ rfl)
  · split
    · exact .fail _ _
    · exact .of_immediate (f.checkPayload_immediate h)
  · exact .of_immediate (f.checkPayload_immediate h)

/-- A call keeps to a regime if the body of its function does: it is entered, and left again, on
machines in order. -/
theorem call_keeps {body : Eval (Option Located)} (hbody : body.Keeps r r.results) {f : Closure}
    (hf : r.values (.function f)) {args : List Located} (hargs : r.arguments args)
    (site : Position) : (call body f args site).Keeps r r.results := by
  unfold call
  rcases f.checkArguments_cases f.declaration.params args with
    ⟨hfits, h⟩ | ⟨-, cause, position, -, h⟩
  · rw [h, pure_bind]
    refine Eval.Keeps.bind (.change _ fun m c hm hc => r.enter hm hf hc) fun _ _ => ?_
    refine .leaving (.traced (.located site ?_))
    refine Eval.Keeps.bind (.change _ fun m c hm hc => ?_) fun _ _ => ?_
    · cases hc
      exact bindParams_keeps hfits hargs hm
    · exact hbody.bind fun result hresult => f.checkResult_keeps hresult
  · rw [h, Eval.fail_bind]
    exact .fail _ _

end Closure

/-- Calls keep to a regime, however deep they are inside one another, by induction on the fuel
(`Closure.call_keeps`). -/
theorem callWithin_keeps (fuel : Nat) : (callWithin fuel).Keeps r := by
  induction fuel with
  | zero => exact fun _ _ _ _ _ => .outOfFuel
  | succ fuel ih =>
    intro f args site hf hargs
    exact Closure.call_keeps (Block.evaluate_keeps ih _) hf hargs site

/-- The run of any node keeps to a regime, since its calls do (`callWithin_keeps`). -/
theorem Node.run_keeps (fuel : Nat) (node : Node) : (node.run fuel).Keeps r r.results :=
  Node.evaluate_keeps (callWithin_keeps fuel) node

/-- The run of any program keeps to a regime, whether it comes to a value, to a fault or to the end
of the fuel. -/
theorem Block.run_keeps (fuel : Nat) (program : Block) : (program.run fuel).Keeps r r.results := by
  refine .traced ((Block.evaluate_keeps (callWithin_keeps fuel) program).bind fun result h => ?_)
  split
  · next payload span => exact .pure fun v hv => by cases hv; exact r.returning.1 (h _ rfl)
  · split
    · exact .fail _ _
    · exact .pure h
  · exact .pure h

end

end UnitScript
