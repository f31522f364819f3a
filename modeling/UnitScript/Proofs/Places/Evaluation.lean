import UnitScript.Proofs.Calls.Stack
import UnitScript.Proofs.Places.Relocate
import UnitScript.Proofs.Value.Results

/-!
# Evaluation hands places on

A run does not depend on where anything stands: if a tree and a machine are moved, the run comes to
what it came to before, moved in the same way (`Block.run_relocate`). No step looks at a position,
and those that occur in values, faults and tracebacks have been handed on from the tree or from
the machine. Only the program itself is said to be called at the first place of the text, which
therefore has to stay where it is.
-/

namespace UnitScript

variable {f : Position → Position}

/-! ## Values -/

namespace Value

@[simp] theorem kind_relocate (v : Value) : (v.relocate f).kind = v.kind := by
  cases v <;> rfl

@[simp] theorem isSignal_relocate (v : Value) : (v.relocate f).isSignal = v.isSignal := by
  rw [isSignal, isSignal, kind_relocate]

@[simp] theorem fits_relocate (v : Value) (type : TypeName) :
    (v.relocate f).fits type = v.fits type := by
  rw [fits, fits, kind_relocate]

@[simp] theorem truth?_relocate (v : Value) : (v.relocate f).truth? = v.truth? := by
  cases v <;> rfl

/-- A function is written (`Closure.text`) without the places in it, so as before. -/
theorem text_closure_relocate (closure : Closure) : (closure.relocate f).text = closure.text := by
  obtain ⟨⟨ident, params, returns, body⟩, captured⟩ := closure
  simp only [Closure.relocate, Declaration.relocate, Closure.text, List.map_map]
  rfl

/-- A value is printed (`Value.text`) as before, since no text shows a place. -/
@[simp] theorem text_relocate : (v : Value) → (v.relocate f).text = v.text
  | .number _ | .bool _ | .string _ | .unit _ | .quantity _ | .native _ | .breaking
  | .continuing => rfl
  | .function closure => text_closure_relocate closure
  | .returning none => rfl
  | .returning (some ⟨payload, _⟩) => text_relocate payload

/-- Of values with places in them, functions and what is returned, an operator (`Value.binary`) sees
the kinds alone. -/
theorem binary_forget (op : BinaryOp) (a b : Value) :
    (a.relocate f).binary op (b.relocate f) = a.binary op b := by
  cases op <;> cases a <;> cases b <;> first | rfl | (cases ‹Number› <;> rfl)

theorem unary_forget (op : UnaryOp) (a : Value) : (a.relocate f).unary op = a.unary op := by
  cases op <;> cases a <;> rfl

/-- What operators come to (`Combined`) has no places in it. -/
theorem Combined.relocate {a b c : Value} (h : Combined a b c) : c.relocate f = c := by
  cases h <;> rfl

/-- A result without places in it is the same when it is moved (`Value.relocate`). -/
theorem map_relocate {result : Except Cause Value}
    (h : ∀ v, result = .ok v → v.relocate f = v) : relocate f <$> result = result := by
  cases result with
  | error cause => rfl
  | ok v => exact congrArg Except.ok (h v rfl)

theorem binary_relocate (op : BinaryOp) (a b : Value) :
    (a.relocate f).binary op (b.relocate f) = relocate f <$> a.binary op b := by
  rw [binary_forget, map_relocate fun _ h => (combined_of_binary h).relocate]

theorem unary_relocate (op : UnaryOp) (a : Value) :
    (a.relocate f).unary op = relocate f <$> a.unary op := by
  rw [unary_forget, map_relocate fun _ h => (combined_of_unary h).relocate]

end Value

@[simp] theorem Located.value_relocate (v : Located) :
    (v.relocate f).value = v.value.relocate f := by
  obtain ⟨value, span⟩ := v
  rfl

@[simp] theorem Located.position_relocate (v : Located) :
    (v.relocate f).position = v.position.map f := by
  obtain ⟨value, span⟩ := v
  cases span <;> rfl

@[simp] theorem Closure.declaration_relocate (closure : Closure) :
    (closure.relocate f).declaration = closure.declaration.relocate f := by
  obtain ⟨declaration, captured⟩ := closure
  rfl

@[simp] theorem Closure.captured_relocate (closure : Closure) :
    (closure.relocate f).captured = Bindings.relocate f closure.captured := by
  obtain ⟨declaration, captured⟩ := closure
  rfl

@[simp] theorem Closure.name_relocate (closure : Closure) :
    (closure.relocate f).declaration.ident.name = closure.declaration.ident.name := by
  rw [declaration_relocate]
  rfl

@[simp] theorem Closure.params_relocate (closure : Closure) :
    (closure.relocate f).declaration.params = closure.declaration.params.map (·.relocate f) := by
  rw [declaration_relocate]
  rfl

/-! ## Bindings and contexts -/

@[simp] theorem Bindings.get?_relocate (bindings : Bindings) (name : String) :
    Bindings.get? (Bindings.relocate f bindings) name =
      (bindings.get? name).map (·.relocate f) := by
  induction bindings with
  | nil => rfl
  | cons entry bindings ih =>
    obtain ⟨other, present⟩ := entry
    rw [Bindings.relocate, get?_cons, get?_cons, ih]
    split <;> rfl

@[simp] theorem Bindings.put_relocate (bindings : Bindings) (name : String) (v : Located) :
    Bindings.put name (v.relocate f) (Bindings.relocate f bindings) =
      Bindings.relocate f (bindings.put name v) := by
  induction bindings with
  | nil => rfl
  | cons entry bindings ih =>
    obtain ⟨other, present⟩ := entry
    rw [Bindings.relocate, Bindings.put, Bindings.put, ih]
    split <;> rfl

namespace Context

variable (c : Context) (name : String) (v : Located)

@[simp] theorem depth_relocate : (c.relocate f).depth = c.depth := List.length_map _

@[simp] theorem current_relocate : (c.relocate f).current = Bindings.relocate f c.current := by
  obtain ⟨globals, frames, maxDepth⟩ := c
  cases frames <;> rfl

@[simp] theorem lookup?_relocate :
    (c.relocate f).lookup? name = (c.lookup? name).map (·.relocate f) := by
  rw [lookup?, current_relocate, Bindings.get?_relocate]
  show (_ : Option Located).or (Bindings.get? (Bindings.relocate f c.globals) name) = _
  rw [Bindings.get?_relocate, lookup?, Option.map_or]

@[simp] theorem read_relocate :
    (c.relocate f).read name = Located.relocate f <$> c.read name := by
  rw [read, read, lookup?_relocate]
  cases c.lookup? name <;> rfl

@[simp] theorem bindGlobal_relocate :
    (c.relocate f).bindGlobal name (v.relocate f) = (c.bindGlobal name v).relocate f := by
  show Context.mk (Bindings.put name (v.relocate f) (Bindings.relocate f c.globals)) _ _ = _
  rw [Bindings.put_relocate]
  rfl

@[simp] theorem bind_relocate :
    (c.relocate f).bind name (v.relocate f) = (c.bind name v).relocate f := by
  obtain ⟨globals, frames, maxDepth⟩ := c
  cases frames with
  | nil => exact bindGlobal_relocate ⟨globals, [], maxDepth⟩ name v
  | cons frame frames =>
    obtain ⟨activation, bindings⟩ := frame
    show Context.mk _
      (⟨_, Bindings.put name (v.relocate f) (Bindings.relocate f bindings)⟩ :: _) _ = _
    rw [Bindings.put_relocate]
    rfl

@[simp] theorem set_relocate (type : Option TypeName) :
    (c.relocate f).set name type (v.relocate f) = relocate f <$> c.set name type v := by
  cases type with
  | some type =>
    simp only [set, declare, Located.value_relocate, Value.fits_relocate, Value.kind_relocate,
      bind_relocate]
    split <;> rfl
  | none =>
    simp only [set, assign, lookup?_relocate, current_relocate, Bindings.get?_relocate,
      Located.value_relocate, Value.kind_relocate]
    cases c.lookup? name with
    | none => rfl
    | some present =>
      simp only [Option.map_some, Located.value_relocate, Value.kind_relocate, Option.isSome_map,
        bind_relocate, bindGlobal_relocate]
      split
      · split <;> rfl
      · rfl

@[simp] theorem capture_relocate : (c.relocate f).capture = Bindings.relocate f c.capture := by
  obtain ⟨globals, frames, maxDepth⟩ := c
  cases frames <;> rfl

@[simp] theorem declareFunction_relocate (declaration : Declaration) :
    (c.relocate f).declareFunction (declaration.relocate f) =
      (c.declareFunction declaration).relocate f := by
  have hdefined : (⟨.function ⟨declaration.relocate f, (c.relocate f).capture⟩, none⟩ : Located) =
      Located.relocate f ⟨.function ⟨declaration, c.capture⟩, none⟩ := by
    rw [capture_relocate]
    rfl
  rw [declareFunction, define, hdefined]
  exact bindGlobal_relocate c _ _

@[simp] theorem callee_relocate :
    (c.relocate f).callee name = Callable.relocate f <$> c.callee name := by
  have hglobals : (c.relocate f).globals.get? name = (c.globals.get? name).map (·.relocate f) :=
    Bindings.get?_relocate c.globals name
  rw [callee, callee, hglobals]
  cases Bindings.get? c.globals name with
  | none => rfl
  | some v =>
    obtain ⟨value, span⟩ := v
    cases value <;> rfl

@[simp] theorem enter_relocate (g : Closure) (site : Position) :
    (c.relocate f).enter (g.relocate f) (f site) = relocate f <$> c.enter g site := by
  simp only [enter, depth_relocate, Closure.name_relocate, Closure.captured_relocate]
  show (if c.depth < c.maxDepth then _ else _) = _
  split <;> rfl

@[simp] theorem leave_relocate : (c.relocate f).leave = relocate f <$> c.leave := by
  obtain ⟨globals, frames, maxDepth⟩ := c
  cases frames <;> rfl

theorem bindParams_relocate (params : List Param) (args : List Located) :
    Closure.bindParams (params.map (·.relocate f)) (args.map (·.relocate f)) (c.relocate f) =
      (Closure.bindParams params args c).relocate f := by
  induction params generalizing args c with
  | nil => rfl
  | cons param params ih =>
    cases args with
    | nil => rfl
    | cons arg args =>
      rw [List.map_cons, List.map_cons, Closure.bindParams, bind_relocate]
      exact ih (c.bind _ arg) args

/-- The calls in progress (`Context.traceback`) are those before, made elsewhere, if the first place
of a text stays. -/
theorem traceback_relocate (hf : f .origin = .origin) :
    (c.relocate f).traceback = c.traceback.map (·.relocate f) := by
  have hmain : Activation.main.relocate f = .main := congrArg (Activation.mk mainName) hf
  simp only [traceback, relocate, List.map_append, List.map_map, List.map_cons, List.map_nil, hmain]
  rfl

end Context

/-! ## Faults -/

namespace Fault

variable (e : Fault)

theorem at?_relocate (position : Option Position) :
    (e.relocate f).at? (position.map f) = (e.at? position).relocate f := by
  simp only [at?, relocate, Option.map_or]

theorem within_relocate (traceback : List Activation) :
    (e.relocate f).within (traceback.map (·.relocate f)) = (e.within traceback).relocate f := by
  simp only [within, relocate, List.isEmpty_map]
  split <;> rfl

end Fault

/-! ## Computations -/

/-- On the moved machine (`Machine.relocate`) the second computation does what the first does,
moved. -/
def Eval.Moves {α β : Type} (f : Position → Position) (move : α → β) (x : Eval α) (y : Eval β) :
    Prop :=
  ∀ m : Machine, y (m.relocate f) = ((x m).1.relocate f move, (x m).2.relocate f)

namespace Eval.Moves

variable {α β γ δ : Type} {move : α → β} {shift : γ → δ} {x : Eval α} {y : Eval β}

/-- A result without any effect moves as the result does (`Moves`). -/
theorem pure (a : α) : Moves f move (Pure.pure a : Eval α) (Pure.pure (move a)) := fun _ => rfl

/-- The end of the fuel (`Eval.outOfFuel`) has no place. -/
theorem outOfFuel : Moves f move (Eval.outOfFuel : Eval α) (Eval.outOfFuel : Eval β) :=
  fun _ => rfl

/-- A fault (`Eval.fail`) has its place moved, and its cause as it is. -/
theorem fail (cause : Cause) (position : Option Position) :
    Moves f move (Eval.fail cause position : Eval α) (Eval.fail cause (position.map f)) := by
  intro m
  show (Outcome.fault ((Fault.ofCause cause).at? (position.map f)), _) = _
  rw [show Fault.ofCause cause = (Fault.ofCause cause).relocate f from rfl, Fault.at?_relocate]
  rfl

/-- One computation after another moves if both do, the second one for every result of the first. -/
theorem bind {g : α → Eval γ} {h : β → Eval δ} (hxy : Moves f move x y)
    (hgh : ∀ a, Moves f shift (g a) (h (move a))) : Moves f shift (x >>= g) (y >>= h) := by
  intro m
  have hm := hxy m
  rcases hx : x m with ⟨a | e | _, m'⟩ <;> rw [hx] at hm
  · rw [bind_of_ok hx, bind_of_ok hm]
    exact hgh a m'
  · rw [bind_of_fault hx, bind_of_fault hm]
    rfl
  · rw [bind_of_outOfFuel hx, bind_of_outOfFuel hm]
    rfl

/-- What a computation comes to may be changed, on both sides in the same way. -/
theorem map {g : α → γ} {h : β → δ} (hxy : Moves f move x y)
    (hgh : ∀ a, h (move a) = shift (g a)) : Moves f shift (g <$> x) (h <$> y) := by
  rw [← bind_pure_comp, ← bind_pure_comp]
  refine hxy.bind fun a => ?_
  rw [hgh]
  exact .pure _

/-- What is refused or not (`Eval.attempt`) moves if the result and the place of a refusal do. -/
theorem attempt {result : Except Cause α} {result' : Except Cause β}
    {place place' : Cause → Option Position} (hresult : result' = move <$> result)
    (hplace : ∀ cause, place' cause = (place cause).map f) :
    Moves f move (Eval.attempt result place) (Eval.attempt result' place') := by
  subst hresult
  cases result with
  | ok a => exact .pure a
  | error cause =>
    show Moves f move (Eval.fail cause (place cause)) (Eval.fail cause (place' cause))
    rw [hplace]
    exact .fail cause _

/-- What is read off the context (`Eval.view`) moves if it is read off a moved context as the moved
result. -/
theorem view {read : Context → Except Cause α} {read' : Context → Except Cause β}
    (position : Option Position) (h : ∀ c : Context, read' (c.relocate f) = move <$> read c) :
    Moves f move (Eval.view read position) (Eval.view read' (position.map f)) :=
  fun m => attempt (h m.context) (fun _ => rfl) m

/-- A change of the context (`Eval.change`) moves if a moved context is changed into the moved
one. -/
theorem change {step step' : Context → Except Cause Context} (position : Option Position)
    (h : ∀ c : Context, step' (c.relocate f) = Context.relocate f <$> step c) :
    Moves f id (Eval.change step position) (Eval.change step' (position.map f)) := by
  intro m
  unfold Eval.change
  rw [show (m.relocate f).context = m.context.relocate f from rfl, h]
  cases step m.context with
  | ok context => rfl
  | error cause => exact fail cause position m

/-- A line is printed (`Eval.print`) as it is, on both sides. -/
theorem print (line : String) : Moves f id (Eval.print line) (Eval.print line) := fun _ => rfl

/-- Faults are given the calls in progress (`Eval.traced`), which are moved with the machine. -/
theorem traced (hf : f .origin = .origin) (hxy : Moves f move x y) :
    Moves f move (Eval.traced x) (Eval.traced y) := by
  intro m
  have hm := hxy m
  unfold Eval.traced
  rcases hx : x m with ⟨a | e | _, m'⟩ <;> rw [hx] at hm <;> rw [hm]
  · rfl
  · show (Outcome.fault ((e.relocate f).within (m'.context.relocate f).traceback), _) = _
    rw [Context.traceback_relocate _ hf, Fault.within_relocate]
    rfl
  · rfl

/-- Faults are given a place (`Eval.located`), which is moved if they have none. -/
theorem located (position : Position) (hxy : Moves f move x y) :
    Moves f move (Eval.located position x) (Eval.located (f position) y) := by
  intro m
  have hm := hxy m
  unfold Eval.located
  rcases hx : x m with ⟨a | e | _, m'⟩ <;> rw [hx] at hm <;> rw [hm]
  · rfl
  · show (Outcome.fault ((e.relocate f).at? ((some position).map f)), _) = _
    rw [Fault.at?_relocate]
    rfl
  · rfl

/-- A call is left (`Eval.leaving`) on both sides, whatever it has come to. -/
theorem leaving (hxy : Moves f move x y) : Moves f move (Eval.leaving x) (Eval.leaving y) := by
  intro m
  have hleave : ((x m).2.relocate f).context.leave =
      Context.relocate f <$> (x m).2.context.leave :=
    Context.leave_relocate (x m).2.context
  rw [leaving_eq, leaving_eq, hxy m, hleave]
  cases (x m).2.context.leave with
  | ok context => rfl
  | error cause => exact fail (α := α) cause none (x m).2

/-- A loop (`Eval.repeatWhile`) moves if its condition and its body do, by induction on the
rounds. -/
theorem repeatWhile {condition condition' : Eval Bool} {body : Eval (Option α)}
    {body' : Eval (Option β)} {done : α} (hcondition : Moves f id condition condition')
    (hbody : Moves f (Option.map move) body body') (rounds : Nat) :
    Moves f move (Eval.repeatWhile condition body done rounds)
      (Eval.repeatWhile condition' body' (move done) rounds) := by
  induction rounds with
  | zero => exact .outOfFuel
  | succ rounds ih =>
    unfold Eval.repeatWhile
    refine hcondition.bind fun holds => ?_
    cases holds with
    | false => exact .pure done
    | true =>
      refine hbody.bind fun result => ?_
      cases result with
      | none => exact ih
      | some a => exact .pure a

end Eval.Moves

/-- A result is moved (`Located.relocate`) if there is one. -/
abbrev Located.move (f : Position → Position) : Option Located → Option Located :=
  Option.map (·.relocate f)

/-! ## What values are needed for -/

/-- A value that is needed (`Node.demand`) is moved, and so is the place where it is missed. -/
theorem Node.demand_moves (node : Node) {x y : Eval (Option Located)}
    (h : x.Moves f (Located.move f) y) :
    (node.demand x).Moves f (·.relocate f) ((node.relocate f).demand y) := by
  refine h.bind fun result => ?_
  cases result with
  | none =>
    simp only [Option.map_none, span_relocate]
    exact .fail .missingValue (some node.span.start)
  | some v => exact .pure v

/-- The truth value of a condition (`Located.truth`) is the same, and is missed at the moved
place. -/
theorem Located.truth_moves (v : Located) : v.truth.Moves f id (v.relocate f).truth := by
  unfold Located.truth
  rw [value_relocate, Value.truth?_relocate]
  cases v.value.truth? with
  | some b => exact .pure b
  | none =>
    simp only [Value.kind_relocate, position_relocate]
    exact .fail _ _

/-- A condition (`Node.holds`) holds on both sides or on neither. -/
theorem Node.holds_moves (node : Node) {x y : Eval (Option Located)}
    (h : x.Moves f (Located.move f) y) :
    (node.holds x).Moves f id ((node.relocate f).holds y) :=
  (node.demand_moves h).bind fun v => v.truth_moves

/-- The magnitude of a quantity (`Located.magnitude`) is the same, and is missed at the moved
place. -/
theorem Located.magnitude_moves (v : Located) :
    v.magnitude.Moves f id (v.relocate f).magnitude := by
  obtain ⟨value, span⟩ := v
  cases value with
  | number n => exact .pure n
  | _ =>
    show Eval.Moves f id (Eval.fail _ _) (Eval.fail _ (Located.relocate f ⟨_, span⟩).position)
    rw [position_relocate]
    exact .fail _ _

/-- The unit of a quantity (`Located.units`) is the same, and is missed at the moved place. -/
theorem Located.units_moves (v : Located) : v.units.Moves f id (v.relocate f).units := by
  obtain ⟨value, span⟩ := v
  cases value with
  | unit u => exact .pure u
  | _ =>
    show Eval.Moves f id (Eval.fail _ _) (Eval.fail _ (Located.relocate f ⟨_, span⟩).position)
    rw [position_relocate]
    exact .fail _ _

/-- A value at the place of a node (`producing`) is at the moved place. -/
theorem producing_moves (span : Span) {x y : Eval Value} (h : x.Moves f (·.relocate f) y) :
    (producing span x).Moves f (Located.move f) (producing (span.relocate f) y) :=
  h.bind fun v => .pure (some (⟨v, some span⟩ : Located))

/-- The place of a fault that an operator has with its operands (`operandPosition`) is moved with
them. -/
theorem operandPosition_relocate (left right : Located) (cause : Cause) :
    operandPosition (left.relocate f) (right.relocate f) cause =
      (operandPosition left right cause).map f := by
  cases cause <;> simp only [operandPosition, Located.position_relocate]

/-- What a loop does after a round (`afterRound`) depends on what kind of signal its body came to,
which is not moved. -/
theorem afterRound_relocate (result : Option Located) :
    afterRound (Located.move f result) = (afterRound result).map (Located.move f) := by
  cases result with
  | none => rfl
  | some v =>
    obtain ⟨value, span⟩ := v
    cases value <;> rfl

/-- The same results are signals (`interrupts`), moved or not. -/
theorem interrupts_relocate (result : Option Located) :
    interrupts (Located.move f result) = interrupts result := by
  cases result with
  | none => rfl
  | some v => simp [interrupts]

/-- The number of arguments (`checkArity`) is the same, and a wrong one is reported at the moved
place. -/
theorem checkArity_moves (g : Callable) (args : List Located) (site : Position) :
    (checkArity g args site).Moves f id
      (checkArity (g.relocate f) (args.map (·.relocate f)) (f site)) := by
  have hname : (g.relocate f).name = g.name := by
    cases g with
    | closure g => exact g.name_relocate
    | native g => rfl
  have harity : (g.relocate f).arity = g.arity := by
    cases g with
    | closure g =>
      show (g.relocate f).declaration.params.length = _
      rw [Closure.params_relocate, List.length_map]
      rfl
    | native g => rfl
  unfold checkArity
  rw [List.length_map, hname, harity]
  split
  · exact .fail _ _
  · split
    · exact .fail _ _
    · exact .pure ()

/-! ## Trees -/

/-- Calls are made on the moved machine as on the other: `Eval.Moves` for every function and all
arguments. -/
def Caller.Moves (f : Position → Position) (run run' : Caller) : Prop :=
  ∀ g args site, (run g args site).Moves f (Located.move f)
    (run' (g.relocate f) (args.map (·.relocate f)) (f site))

/-- A function is called (`Callable.call`) on the moved machine as on the other. -/
theorem Callable.call_moves {run run' : Caller} (hrun : run.Moves f run') (g : Callable)
    (args : List Located) (site : Position) :
    (g.call run args site).Moves f (Located.move f)
      ((g.relocate f).call run' (args.map (·.relocate f)) (f site)) := by
  cases g with
  | closure g => exact hrun g args site
  | native g =>
    have hprint : (args.forM fun arg => Eval.print arg.value.text).Moves f id
        ((args.map (·.relocate f)).forM fun arg => Eval.print arg.value.text) := by
      induction args with
      | nil => exact .pure ()
      | cons arg args ih =>
        have hfirst : (Eval.print arg.value.text).Moves f id
            (Eval.print (arg.relocate f).value.text) := by
          rw [Located.value_relocate, Value.text_relocate]
          exact .print _
        exact hfirst.bind fun _ => ih
    exact hprint.bind fun _ => .pure none

variable {rounds : Nat} {run run' : Caller}

mutual

/-- A moved node is evaluated on the moved machine as the node was (`Eval.Moves`), if calls are. By
recursion over the tree, as `Node.evaluate` goes. -/
theorem Node.evaluate_moves (hrun : run.Moves f run') :
    (node : Node) → (node.evaluate rounds run).Moves f (Located.move f)
      ((node.relocate f).evaluate rounds run')
  | ⟨_, .int _⟩ | ⟨_, .double _⟩ | ⟨_, .string _⟩ | ⟨_, .bool _⟩ | ⟨_, .returnNothing⟩
  | ⟨_, .breakLoop⟩ | ⟨_, .continueLoop⟩ => by
    simp only [Node.relocate, Form.relocate, Node.evaluate]
    exact producing_moves _ (.pure _)
  | ⟨span, .unit numerator denominator⟩ => by
    have hnames (idents : List Ident) :
        (idents.map (·.relocate f)).map Ident.name = idents.map Ident.name := by
      rw [List.map_map]
      rfl
    simp only [Node.relocate, Form.relocate, Node.evaluate, hnames]
    generalize Units.ofFactors (numerator.map Ident.name) (denominator.map Ident.name) = units
    have hunits : Eval.Moves f id (Eval.attempt units fun _ => some span.start)
        (Eval.attempt units fun _ => some (f span.start)) :=
      .attempt (id_map _).symm fun _ => rfl
    exact producing_moves span (hunits.bind fun u => .pure (Value.unit u))
  | ⟨span, .phys magnitude unit⟩ => by
    have hm := Node.evaluate_moves hrun magnitude
    have hu := Node.evaluate_moves hrun unit
    simp only [Node.relocate, Form.relocate, Node.evaluate]
    refine producing_moves span ((magnitude.demand_moves hm).bind fun m => ?_)
    refine m.magnitude_moves.bind fun n => (unit.demand_moves hu).bind fun u => ?_
    exact u.units_moves.bind fun units => .pure (Value.quantity ⟨n, units⟩)
  | ⟨span, .unary op operand⟩ => by
    have ho := Node.evaluate_moves hrun operand
    simp only [Node.relocate, Form.relocate, Node.evaluate]
    refine producing_moves span ((operand.demand_moves ho).bind fun v => ?_)
    rw [Located.value_relocate]
    exact .attempt (Value.unary_relocate op v.value) fun _ => rfl
  | ⟨span, .binary op left right⟩ => by
    have hl := Node.evaluate_moves hrun left
    have hr := Node.evaluate_moves hrun right
    simp only [Node.relocate, Form.relocate, Node.evaluate]
    refine producing_moves span ((left.demand_moves hl).bind fun v => ?_)
    refine (right.demand_moves hr).bind fun w => ?_
    rw [Located.value_relocate, Located.value_relocate]
    exact .attempt (Value.binary_relocate op v.value w.value) (operandPosition_relocate v w)
  | ⟨span, .variable ident⟩ => by
    simp only [Node.relocate, Form.relocate, Node.evaluate]
    refine producing_moves span (Eval.Moves.bind (.view _ fun c => c.read_relocate ident.name)
      fun v => ?_)
    rw [Located.value_relocate]
    exact .pure v.value
  | ⟨_, .assign type ident value⟩ => by
    have hv := Node.evaluate_moves hrun value
    simp only [Node.relocate, Form.relocate, Node.evaluate]
    refine (value.demand_moves hv).bind fun v => ?_
    exact Eval.Moves.bind (.change _ fun c => c.set_relocate ident.name v type) fun _ => .pure none
  | ⟨_, .ifElse alternatives⟩ => by
    simp only [Node.relocate, Form.relocate, Node.evaluate]
    exact Alternatives.evaluate_moves hrun alternatives
  | ⟨_, .whileLoop condition body⟩ => by
    have hc := Node.evaluate_moves hrun condition
    have hb := Block.evaluate_moves hrun body
    simp only [Node.relocate, Form.relocate, Node.evaluate]
    exact .repeatWhile (condition.holds_moves hc) (hb.map afterRound_relocate) rounds
  | ⟨_, .function ident params returns body⟩ => by
    simp only [Node.relocate, Form.relocate, Node.evaluate]
    refine Eval.Moves.bind (.change none fun c => ?_) fun _ => .pure none
    exact congrArg Except.ok (c.declareFunction_relocate ⟨ident, params, returns, body⟩)
  | ⟨span, .call ident args⟩ => by
    have hargs := Node.evaluateArgs_moves hrun args
    simp only [Node.relocate, Form.relocate, Node.evaluate]
    refine Eval.Moves.bind (.view _ fun c => c.callee_relocate ident.name) fun g => ?_
    refine hargs.bind fun vs => (checkArity_moves g vs span.start).bind fun _ => ?_
    refine (g.call_moves hrun vs span.start).bind fun result => ?_
    have hresult : (Located.move f result).map (fun v => ⟨v.value, some (span.relocate f)⟩) =
        Located.move f (result.map fun v => ⟨v.value, some span⟩) := by
      cases result with
      | none => rfl
      | some v =>
        simp only [Option.map_some, Located.value_relocate]
        rfl
    rw [hresult]
    exact .pure _
  | ⟨span, .returnValue value⟩ => by
    have hv := Node.evaluate_moves hrun value
    simp only [Node.relocate, Form.relocate, Node.evaluate]
    exact producing_moves span
      ((value.demand_moves hv).bind fun v => .pure (Value.returning (some v)))
  | ⟨_, .block block⟩ => by
    simp only [Node.relocate, Form.relocate, Node.evaluate]
    exact Block.evaluate_moves hrun block

/-- So are arguments (`Node.evaluateArgs`), one after the other. -/
theorem Node.evaluateArgs_moves (hrun : run.Moves f run') :
    (args : List Node) → (Node.evaluateArgs rounds run args).Moves f (List.map (·.relocate f))
      (Node.evaluateArgs rounds run' (Node.relocateAll f args))
  | [] => by
    simp only [Node.relocateAll, Node.evaluateArgs]
    exact .pure []
  | arg :: args => by
    have hfirst := Node.evaluate_moves hrun arg
    have hothers := Node.evaluateArgs_moves hrun args
    simp only [Node.relocateAll, Node.evaluateArgs]
    exact (arg.demand_moves hfirst).bind fun v => hothers.bind fun vs => .pure (v :: vs)

/-- So are statements (`Node.evaluateItems`), up to one that interrupts the others. -/
theorem Node.evaluateItems_moves (hrun : run.Moves f run') :
    (items : List Node) → (last : Option Located) →
      (Node.evaluateItems rounds run last items).Moves f (Located.move f)
        (Node.evaluateItems rounds run' (Located.move f last) (Node.relocateAll f items))
  | [], last => by
    simp only [Node.relocateAll, Node.evaluateItems]
    exact .pure last
  | item :: items, last => by
    have hitem := Node.evaluate_moves hrun item
    have hitems := Node.evaluateItems_moves hrun items
    simp only [Node.relocateAll, Node.evaluateItems]
    refine hitem.bind fun result => ?_
    rw [interrupts_relocate]
    split
    · exact .pure result
    · exact hitems result

/-- So are blocks (`Block.evaluate`), which come to what their statements come to. -/
theorem Block.evaluate_moves (hrun : run.Moves f run') :
    (block : Block) → (block.evaluate rounds run).Moves f (Located.move f)
      ((block.relocate f).evaluate rounds run')
  | ⟨_, items⟩ => by
    simp only [Block.relocate, Block.evaluate]
    exact Node.evaluateItems_moves hrun items none

/-- So are alternatives (`Alternatives.evaluate`), of which the same one is chosen. -/
theorem Alternatives.evaluate_moves (hrun : run.Moves f run') :
    (alternatives : Alternatives) → (alternatives.evaluate rounds run).Moves f (Located.move f)
      ((alternatives.relocate f).evaluate rounds run')
  | .none => by
    simp only [Alternatives.relocate, Alternatives.evaluate]
    exact .pure none
  | .otherwise block => by
    simp only [Alternatives.relocate, Alternatives.evaluate]
    exact Block.evaluate_moves hrun block
  | .case condition body others => by
    have hc := Node.evaluate_moves hrun condition
    have hb := Block.evaluate_moves hrun body
    have ho := Alternatives.evaluate_moves hrun others
    simp only [Alternatives.relocate, Alternatives.evaluate]
    refine (condition.holds_moves hc).bind fun holds => ?_
    cases holds with
    | true => exact hb
    | false => exact ho

end

/-! ## Calls and runs -/

/-- What is given back of what the statements of a body came to: a payload that they return, or the
last value, unless that is a signal (`Located.refuseStray`). -/
def Eval.ofBody (give : Option Located → Eval (Option Located)) :
    Option Located → Eval (Option Located)
  | some ⟨.returning payload, _⟩ => give payload
  | some v => if v.value.isSignal then v.refuseStray else give (some v)
  | none => give none

/-- A value that returns nothing is the last one, or a signal that is refused (`Eval.ofBody`). -/
theorem Eval.ofBody_some {give : Option Located → Eval (Option Located)} {v : Located}
    (h : v.value.kind ≠ .returning) :
    Eval.ofBody give (some v) = if v.value.isSignal then v.refuseStray else give (some v) := by
  obtain ⟨value, span⟩ := v
  cases value with
  | returning payload => exact absurd rfl h
  | _ => rfl

theorem Eval.ofBody_moves {give give' : Option Located → Eval (Option Located)}
    (hgive : ∀ result, (give result).Moves f (Located.move f) (give' (Located.move f result)))
    (result : Option Located) :
    (Eval.ofBody give result).Moves f (Located.move f)
      (Eval.ofBody give' (Located.move f result)) := by
  have hother (v : Located) (hkind : v.value.kind ≠ .returning) :
      (Eval.ofBody give (some v)).Moves f (Located.move f)
        (Eval.ofBody give' (some (v.relocate f))) := by
    have hkind' : (v.relocate f).value.kind ≠ .returning := by
      rwa [Located.value_relocate, Value.kind_relocate]
    rw [Eval.ofBody_some hkind, Eval.ofBody_some hkind']
    simp only [Located.refuseStray, Located.value_relocate, Value.isSignal_relocate,
      Value.kind_relocate, Located.position_relocate]
    split
    · exact .fail _ _
    · exact hgive (some v)
  cases result with
  | none => exact hgive none
  | some v =>
    obtain ⟨value, span⟩ := v
    cases value with
    | returning payload =>
      show Eval.Moves f _ (give payload) (give' (Located.relocate? f payload))
      rw [Located.relocate?_eq]
      exact hgive payload
    | number n => exact hother _ (by cases n <;> exact Kind.noConfusion)
    | _ => exact hother _ Kind.noConfusion

namespace Closure

/-- A call gives back what its body came to (`Eval.ofBody`), if that is as declared. -/
theorem checkResult_eq (g : Closure) (result : Option Located) :
    g.checkResult result = Eval.ofBody g.checkPayload result :=
  rfl

/-- The kinds of arguments are checked (`Closure.checkArguments`) with the same outcome, and a
refusal is moved. -/
theorem checkArguments_moves (g : Closure) (params : List Param) (args : List Located) :
    (g.checkArguments params args).Moves f id
      ((g.relocate f).checkArguments (params.map (·.relocate f)) (args.map (·.relocate f))) := by
  induction params generalizing args with
  | nil => exact .pure ()
  | cons param params ih =>
    cases args with
    | nil => exact .pure ()
    | cons arg args =>
      simp only [List.map_cons, checkArguments, Located.value_relocate, Value.fits_relocate,
        Value.kind_relocate, Located.position_relocate, name_relocate]
      show Eval.Moves f id _ (if arg.value.fits param.type then _ else _)
      split
      · exact ih args
      · exact .fail _ _

/-- What a function gives back is checked (`Closure.checkPayload`) with the same outcome, and a
refusal is moved. -/
theorem checkPayload_moves (g : Closure) (payload : Option Located) :
    (g.checkPayload payload).Moves f (Located.move f)
      ((g.relocate f).checkPayload (Located.move f payload)) := by
  have hreturns : (g.relocate f).declaration.returns = g.declaration.returns := by
    rw [declaration_relocate]
    rfl
  cases payload with
  | some v =>
    simp only [Option.map_some, checkPayload, Located.value_relocate, Value.fits_relocate,
      Value.kind_relocate, Located.position_relocate, name_relocate, hreturns]
    split
    · exact .pure (some v)
    · exact .fail _ _
  | none =>
    simp only [Option.map_none, checkPayload, name_relocate, hreturns]
    split
    · exact .pure none
    · exact .fail _ none

/-- What the body of a function came to is checked (`Closure.checkResult`) with the same outcome. -/
theorem checkResult_moves (g : Closure) (result : Option Located) :
    (g.checkResult result).Moves f (Located.move f)
      ((g.relocate f).checkResult (Located.move f result)) := by
  rw [checkResult_eq, checkResult_eq]
  exact Eval.ofBody_moves g.checkPayload_moves result

/-- A call (`Closure.call`) is made on the moved machine as on the other if the body of its function
is run so. -/
theorem call_moves (hf : f .origin = .origin) {body body' : Eval (Option Located)}
    (hbody : body.Moves f (Located.move f) body') (g : Closure) (args : List Located)
    (site : Position) :
    (call body g args site).Moves f (Located.move f)
      (call body' (g.relocate f) (args.map (·.relocate f)) (f site)) := by
  rw [call_eq, call_eq, params_relocate]
  refine (g.checkArguments_moves _ args).bind fun _ => ?_
  refine Eval.Moves.bind (.change _ fun c => c.enter_relocate g site) fun _ => ?_
  refine .leaving (.traced hf (.located site ?_))
  refine Eval.Moves.bind (.change none fun c => ?_) fun _ => ?_
  · rw [params_relocate, c.bindParams_relocate]
    rfl
  · exact hbody.bind fun result => g.checkResult_moves result

end Closure

/-- Calls are made on the moved machine as on the other (`Caller.Moves`), however deep they are. The
first place of a text has to stay, where tracebacks have the program. -/
theorem callWithin_moves (hf : f .origin = .origin) (fuel : Nat) :
    (callWithin fuel).Moves f (callWithin fuel) := by
  induction fuel with
  | zero => exact fun _ _ _ => .outOfFuel
  | succ fuel ih =>
    intro g args site
    have hbody : (g.declaration.body.evaluate fuel (callWithin fuel)).Moves f (Located.move f)
        ((g.declaration.body.relocate f).evaluate fuel (callWithin fuel)) :=
      Block.evaluate_moves ih g.declaration.body
    rw [callWithin_succ, callWithin_succ, Closure.declaration_relocate]
    exact Closure.call_moves hf hbody g args site

/-- A program gives back whatever its statements came to (`Eval.ofBody`), of any kind. -/
theorem Block.run_eq (fuel : Nat) (program : Block) :
    program.run fuel =
      Eval.traced (program.evaluate fuel (callWithin fuel) >>=
        Eval.ofBody fun result => return result) :=
  rfl

/-- The run of a moved program on the moved machine is the run of the program, moved
(`Outcome.relocate`, `Machine.relocate`). -/
theorem Block.run_relocate (hf : f .origin = .origin) (fuel : Nat) (program : Block)
    (m : Machine) :
    (program.relocate f).run fuel (m.relocate f) =
      ((program.run fuel m).1.relocate f (Located.move f), (program.run fuel m).2.relocate f) := by
  have hblock : (program.evaluate fuel (callWithin fuel)).Moves f (Located.move f)
      ((program.relocate f).evaluate fuel (callWithin fuel)) :=
    Block.evaluate_moves (callWithin_moves hf fuel) program
  rw [run_eq, run_eq]
  exact Eval.Moves.traced hf (hblock.bind (Eval.ofBody_moves fun _ => .pure _)) m

/-! ## Texts -/

/-- The ending of the run of a program that has come to an `Outcome`. -/
def Ending.ofOutcome : Outcome (Option Located) → Ending
  | .ok result => .value result
  | .fault e => .failure (.runtime e)
  | .outOfFuel => .outOfFuel

/-- A text is run (`runText`) as the program that it is read as. -/
theorem runText_of_ofText {text : List Char} {program : Block} (h : Block.ofText text = .ok program)
    (fuel : Nat) (m : Machine) :
    runText fuel text m =
      (Ending.ofOutcome (program.run fuel m).1, (program.run fuel m).2) := by
  simp only [runText, h]
  rcases program.run fuel m with ⟨_ | _ | _, m'⟩ <;> rfl

/-- A text that is no program is not run: `runText` leaves the machine as it is. -/
theorem runText_of_error {text : List Char} {failure : Failure}
    (h : Block.ofText text = .error failure) (fuel : Nat) (m : Machine) :
    runText fuel text m = (.failure failure, m) := by
  rw [runText, h]

end UnitScript
