import UnitScript.Proofs.Machine.Immediate
import UnitScript.Proofs.Tree.Occurrences

/-!
# Judgements on evaluations

A `Judgement` is anything that can be said of two evaluations of one tree, with rounds and calls of
their own, and that is settled step by step: it is closed under the ways of putting computations
together, and it holds of the steps that touch a machine, where the tree has a form that it allows.
Then it holds of the evaluations of every tree that has such forms only (`Node.evaluate_judged` and
its companions). What is said of a single evaluation is a judgement that looks at one side.

A judgement may tell values that are come to inside the body of a loop from others, since signals
for the loop are come to there only.
-/

namespace UnitScript

/-- A result is one of the values if there is one. -/
def ComesTo (values : Value → Prop) (result : Option Located) : Prop := ∀ v ∈ result, values v.value

/-- Nothing is said of no result, so `ComesTo` holds of it. -/
theorem ComesTo.nothing {values : Value → Prop} : ComesTo values none := nofun

/-- A result that is one of the values (`ComesTo`). -/
theorem ComesTo.some {values : Value → Prop} {v : Located} (h : values v.value) :
    ComesTo values (some v) := by
  intro w hw
  cases hw
  exact h

/-- A cause that a step may have which is not the end of a call or of a program, that is neither
`Cause.noCallToLeave` nor `Cause.straySignal`. -/
structure Cause.Ordinary (cause : Cause) : Prop where
  not_leave : cause.kind ≠ .noCallToLeave
  not_stray : cause.kind ≠ .straySignal
  /-- Units that do not match are different. -/
  apart {op : BinaryOp} {u w : Units} : cause = .unitMismatch op u w → u ≠ w

/-- Whether all faults of a kind are ordinary. -/
def FaultKind.isOrdinary : FaultKind → Bool
  | noCallToLeave | straySignal | unitMismatch => false
  | _ => true

/-- A cause of such a kind (`FaultKind.isOrdinary`) is ordinary. -/
theorem Cause.Ordinary.of_kind {cause : Cause} (h : cause.kind.isOrdinary = true) :
    cause.Ordinary := by
  refine ⟨fun hleave => ?_, fun hstray => ?_, ?_⟩
  · rw [hleave] at h
    cases h
  · rw [hstray] at h
    cases h
  · rintro op u w rfl
    cases h

namespace Context

variable {context : Context} {name : String} {cause : Cause}

/-- A variable that cannot be read (`Context.read`) is not defined, which is an ordinary cause. -/
theorem read_ordinary (h : context.read name = .error cause) : cause.Ordinary := by
  unfold Context.read at h
  split at h
  · cases h
  · cases h
    exact .of_kind rfl

/-- A function that cannot be found (`Context.callee`) is not defined, or no function. -/
theorem callee_ordinary (h : context.callee name = .error cause) : cause.Ordinary := by
  unfold Context.callee at h
  split at h
  · cases h
    exact .of_kind rfl
  · cases h
  · cases h
  · cases h
    exact .of_kind rfl

/-- A variable that cannot be set (`Context.set`) is not defined, or of another kind. -/
theorem set_ordinary {type : Option TypeName} {v : Located}
    (h : context.set name type v = .error cause) : cause.Ordinary := by
  unfold Context.set Context.declare Context.assign at h
  split at h
  · split at h
    · cases h
    · cases h
      exact .of_kind rfl
  · split at h
    · cases h
      exact .of_kind rfl
    · split at h
      · cases h
      · cases h
        exact .of_kind rfl

end Context

/-- What is said of the evaluations of a tree with so many rounds and such calls on either side.
`Node.evaluate_judged` is the one induction over trees; disciplines, regimes, policies and links are
instances. -/
structure Judgement (rounds rounds' : Nat) (run run' : Caller) where
  /-- The forms that a tree may have. -/
  forms : Occurrence → Prop
  /-- The values that may be come to, inside the body of a loop or not: jumps may be come to inside
  only. -/
  values : Bool → Value → Prop
  /-- The functions that may be called. -/
  functions : Closure → Prop
  /-- What is said of two computations, where good results may be come to only. -/
  holds {α : Type} : (α → Prop) → Eval α → Eval α → Prop
  pure {α : Type} {good : α → Prop} {a : α} : good a → holds good (Pure.pure a) (Pure.pure a)
  bind {α β : Type} {good : α → Prop} {fine : β → Prop} {x y : Eval α} {f g : α → Eval β} :
    holds good x y → (∀ a, good a → holds fine (f a) (g a)) → holds fine (x >>= f) (y >>= g)
  fail {α : Type} {good : α → Prop} {cause : Cause} (position : Option Position) :
    cause.Ordinary → holds good (Eval.fail cause position) (Eval.fail cause position)
  number {looped : Bool} (n : Number) : values looped (.number n)
  bool {looped : Bool} (b : Bool) : values looped (.bool b)
  string {looped : Bool} (s : String) : values looped (.string s)
  unit {looped : Bool} {above below : List String} {u : Units} :
    Units.ofFactors above below = .ok u → values looped (.unit u)
  quantity {looped : Bool} {n : Number} {u : Units} : values looped (.unit u) →
    values looped (.quantity ⟨n, u⟩)
  unary {looped : Bool} {op : UnaryOp} {a b : Value} : values looped a → a.unary op = .ok b →
    values looped b
  binary {looped : Bool} {op : BinaryOp} {a b c : Value} : values looped a → values looped b →
    a.binary op b = .ok c → values looped c
  breaking {looped : Bool} : forms ⟨.breakLoop, looped⟩ → values looped .breaking
  continuing {looped : Bool} : forms ⟨.continueLoop, looped⟩ → values looped .continuing
  returnNothing {looped : Bool} : values looped (.returning none)
  returning {looped : Bool} {v : Located} : values looped v.value →
    values looped (.returning (some v))
  /-- A loop hands on what is returned in its body. -/
  handedOn {looped : Bool} {payload : Option Located} : values true (.returning payload) →
    values looped (.returning payload)
  read {looped : Bool} (name : String) (position : Option Position) :
    holds (fun v => values looped v.value) (Eval.view (·.read name) position)
      (Eval.view (·.read name) position)
  callee (name : String) (position : Option Position) :
    holds (fun f => ∀ g, f = .closure g → functions g) (Eval.view (·.callee name) position)
      (Eval.view (·.callee name) position)
  print (line : String) : holds (fun _ => True) (Eval.print line) (Eval.print line)
  set {type : Option TypeName} {ident : Ident} {value : Node} {looped : Bool} {v : Located}
    (position : Option Position) : forms ⟨.assign type ident value, looped⟩ →
    values looped v.value →
    holds (fun _ => True) (Eval.change (·.set ident.name type v) position)
      (Eval.change (·.set ident.name type v) position)
  declareFunction {ident : Ident} {params : List Param} {returns : TypeName} {body : Block}
    {looped : Bool} (position : Option Position) :
    forms ⟨.function ident params returns body, looped⟩ →
    holds (fun _ => True)
      (Eval.change (fun context => .ok (context.declareFunction ⟨ident, params, returns, body⟩))
        position)
      (Eval.change (fun context => .ok (context.declareFunction ⟨ident, params, returns, body⟩))
        position)
  loop {condition : Node} {body : Block} {looped : Bool} {α : Type} {good : α → Prop}
    {c c' : Eval Bool} {b b' : Eval (Option α)} {done : α} :
    forms ⟨.whileLoop condition body, looped⟩ → holds (fun _ => True) c c' →
    holds (fun result => ∀ a ∈ result, good a) b b' → good done →
    holds good (Eval.repeatWhile c b done rounds) (Eval.repeatWhile c' b' done rounds')
  call {looped : Bool} {f : Closure} {args : List Located} (site : Position) : functions f →
    (∀ arg ∈ args, values looped arg.value) →
    holds (ComesTo (values looped)) (run f args site) (run' f args site)

namespace Judgement

variable {rounds rounds' : Nat} {run run' : Caller} {α β : Type}

section
variable (j : Judgement rounds rounds' run run') {good : α → Prop} {fine : β → Prop}
  {looped : Bool}

/-- What computations come to may be changed, on both sides in the same way. -/
theorem map {x y : Eval α} {f : α → β} (h : j.holds good x y) (hf : ∀ a, good a → fine (f a)) :
    j.holds fine (f <$> x) (f <$> y) := by
  rw [← bind_pure_comp, ← bind_pure_comp]
  exact j.bind h fun a ha => j.pure (hf a ha)

/-- Something that operands may be refused for (`Refuses`): such causes are ordinary. -/
theorem attempt {result : Except Cause α} (place : Cause → Option Position)
    (hrefuses : Refuses result) (h : ∀ a, result = .ok a → good a) :
    j.holds good (Eval.attempt result place) (Eval.attempt result place) := by
  unfold Eval.attempt
  cases result with
  | ok a => exact j.pure (h a rfl)
  | error cause =>
    have hkind := hrefuses.ofOperands rfl
    refine j.fail _ ⟨fun hleave => ?_, fun hstray => ?_, ?_⟩
    · rw [hleave] at hkind
      cases hkind
    · rw [hstray] at hkind
      cases hkind
    · rintro op u w rfl
      exact hrefuses.apart rfl

/-! ## What values are needed for -/

/-- A truth value is read off a condition (`Located.truth`), or the kind of the condition is
refused. -/
theorem truth (v : Located) : j.holds (fun _ => True) v.truth v.truth := by
  unfold Located.truth
  split
  · exact j.pure trivial
  · exact j.fail _ (.of_kind rfl)

/-- The magnitude of a quantity (`Located.magnitude`), or a value that is none is refused. -/
theorem magnitude (v : Located) : j.holds (fun _ => True) v.magnitude v.magnitude := by
  unfold Located.magnitude
  split
  · exact j.pure trivial
  · exact j.fail _ (.of_kind rfl)

/-- The unit of a quantity (`Located.units`), or a value that is none is refused. -/
theorem units {v : Located} (hv : j.values looped v.value) :
    j.holds (fun u => j.values looped (.unit u)) v.units v.units := by
  unfold Located.units
  split
  · next u hu => exact j.pure (hu ▸ hv)
  · exact j.fail _ (.of_kind rfl)

/-- The number of arguments is checked (`UnitScript.checkArity`). -/
theorem checkArity (f : Callable) (args : List Located) (site : Position) :
    j.holds (fun _ => True) (UnitScript.checkArity f args site)
      (UnitScript.checkArity f args site) := by
  unfold UnitScript.checkArity
  split
  · exact j.fail _ (.of_kind rfl)
  · split
    · exact j.fail _ (.of_kind rfl)
    · exact j.pure trivial

/-- A value that is needed (`Node.demand`), or the node that has none is blamed. -/
theorem demand (node : Node) {x y : Eval (Option Located)}
    (h : j.holds (ComesTo (j.values looped)) x y) :
    j.holds (fun v => j.values looped v.value) (node.demand x) (node.demand y) := by
  refine j.bind h fun result hresult => ?_
  cases result with
  | none => exact j.fail _ (.of_kind rfl)
  | some v => exact j.pure (hresult v rfl)

/-- A condition (`Node.holds`), which is a value that is needed and then looked at. -/
theorem condition (node : Node) {x y : Eval (Option Located)}
    (h : j.holds (ComesTo (j.values looped)) x y) :
    j.holds (fun _ => True) (node.holds x) (node.holds y) :=
  j.bind (j.demand node h) fun v _ => j.truth v

/-- A value at the place of a node (`UnitScript.producing`). -/
theorem producing (span : Span) {x y : Eval Value} (h : j.holds (j.values looped) x y) :
    j.holds (ComesTo (j.values looped)) (UnitScript.producing span x)
      (UnitScript.producing span y) :=
  j.bind h fun _ hv => j.pure (.some hv)

/-- What a loop hands on is what its body came to (`UnitScript.afterRound`), by
`Judgement.handedOn`. -/
theorem afterRound {result : Option Located} (h : ComesTo (j.values true) result) :
    ∀ r ∈ UnitScript.afterRound result, ComesTo (j.values looped) r := by
  intro r hr
  unfold UnitScript.afterRound at hr
  split at hr
  · cases hr
    exact .nothing
  · cases hr
    exact .some (j.handedOn (h _ rfl))
  · cases hr

/-- A function is called (`Callable.call`): natives print, all others are left to the caller. -/
theorem callable {f : Callable} (hf : ∀ g, f = .closure g → j.functions g) {args : List Located}
    (hargs : ∀ arg ∈ args, j.values looped arg.value) (site : Position) :
    j.holds (ComesTo (j.values looped)) (f.call run args site) (f.call run' args site) := by
  cases f with
  | closure f => exact j.call site (hf f rfl) hargs
  | native f =>
    have hprint : j.holds (fun _ => True) (args.forM fun arg => Eval.print arg.value.text)
        (args.forM fun arg => Eval.print arg.value.text) := by
      clear hargs
      induction args with
      | nil => exact j.pure trivial
      | cons arg args ih => exact j.bind (j.print _) fun _ _ => ih
    exact j.bind hprint fun _ _ => j.pure .nothing

end

end Judgement

/-! ## Trees -/

section
variable {rounds rounds' : Nat} {run run' : Caller} (j : Judgement rounds rounds' run run')

/-- The forms (`Occurrence`) are allowed by the judgement. -/
def Judgement.Allows (occurrences : List Occurrence) : Prop := ∀ o ∈ occurrences, j.forms o

/-- Forms that are allowed together (`Judgement.Allows`) are allowed one by one, -/
theorem Judgement.allows_cons {o : Occurrence} {os : List Occurrence} :
    j.Allows (o :: os) ↔ j.forms o ∧ j.Allows os :=
  List.forall_mem_cons

/-- or in two parts. -/
theorem Judgement.allows_append {os os' : List Occurrence} :
    j.Allows (os ++ os') ↔ j.Allows os ∧ j.Allows os' :=
  List.forall_mem_append

mutual

/-- What is said of evaluations holds of that of a node with forms that are allowed
(`Judgement.Allows`). The five theorems from here on follow the recursion of the evaluator, with one
case for each form of `Form`. -/
theorem Node.evaluate_judged : (node : Node) → {looped : Bool} →
    j.Allows (node.occurrences looped) →
    j.holds (ComesTo (j.values looped)) (node.evaluate rounds run) (node.evaluate rounds' run')
  | ⟨_, .int _⟩, _, _ | ⟨_, .double _⟩, _, _ => by
    simp only [Node.evaluate]
    exact j.producing _ (j.pure (j.number _))
  | ⟨_, .string s⟩, _, _ => by
    simp only [Node.evaluate]
    exact j.producing _ (j.pure (j.string s))
  | ⟨_, .bool b⟩, _, _ => by
    simp only [Node.evaluate]
    exact j.producing _ (j.pure (j.bool b))
  | ⟨_, .returnNothing⟩, _, _ => by
    simp only [Node.evaluate]
    exact j.producing _ (j.pure j.returnNothing)
  | ⟨_, .breakLoop⟩, _, h => by
    simp only [Node.evaluate]
    exact j.producing _ (j.pure (j.breaking (j.allows_cons.1 h).1))
  | ⟨_, .continueLoop⟩, _, h => by
    simp only [Node.evaluate]
    exact j.producing _ (j.pure (j.continuing (j.allows_cons.1 h).1))
  | ⟨_, .unit numerator denominator⟩, _, _ => by
    simp only [Node.evaluate]
    refine j.producing _ (j.bind (j.attempt _ ?_ fun u hu => j.unit hu) fun u hu => j.pure hu)
    exact Units.ofFactors_refuses ..
  | ⟨_, .phys magnitude unit⟩, _, h => by
    obtain ⟨hmagnitude, hunit⟩ := j.allows_append.1 (j.allows_cons.1 h).2
    have hm := Node.evaluate_judged magnitude hmagnitude
    have hu := Node.evaluate_judged unit hunit
    simp only [Node.evaluate]
    refine j.producing _ (j.bind (j.demand magnitude hm) fun m _ => ?_)
    refine j.bind (j.magnitude m) fun n _ => j.bind (j.demand unit hu) fun u hu => ?_
    exact j.bind (j.units hu) fun units hunits => j.pure (j.quantity hunits)
  | ⟨_, .unary op operand⟩, _, h => by
    have ho := Node.evaluate_judged operand (j.allows_cons.1 h).2
    simp only [Node.evaluate]
    refine j.producing _ (j.bind (j.demand operand ho) fun v hv => ?_)
    exact j.attempt _ (Value.unary_refuses op v.value) fun w hw => j.unary hv hw
  | ⟨_, .binary op left right⟩, _, h => by
    obtain ⟨hleft, hright⟩ := j.allows_append.1 (j.allows_cons.1 h).2
    have hl := Node.evaluate_judged left hleft
    have hr := Node.evaluate_judged right hright
    simp only [Node.evaluate]
    refine j.producing _ (j.bind (j.demand left hl) fun v hv => ?_)
    refine j.bind (j.demand right hr) fun w hw => ?_
    exact j.attempt _ (Value.binary_refuses op v.value w.value) fun u hu => j.binary hv hw hu
  | ⟨_, .variable ident⟩, _, _ => by
    simp only [Node.evaluate]
    exact j.producing _ (j.bind (j.read ident.name _) fun v hv => j.pure hv)
  | ⟨_, .assign type ident value⟩, _, h => by
    obtain ⟨hform, hvalue⟩ := j.allows_cons.1 h
    have hv := Node.evaluate_judged value hvalue
    simp only [Node.evaluate]
    refine j.bind (j.demand value hv) fun v hv => ?_
    exact j.bind (j.set _ hform hv) fun _ _ => j.pure .nothing
  | ⟨_, .ifElse alternatives⟩, _, h => by
    simp only [Node.evaluate]
    exact Alternatives.evaluate_judged alternatives (j.allows_cons.1 h).2
  | ⟨_, .whileLoop condition body⟩, _, h => by
    obtain ⟨hform, h⟩ := j.allows_cons.1 h
    obtain ⟨hcondition, hbody⟩ := j.allows_append.1 h
    have hc := Node.evaluate_judged condition hcondition
    have hb := Block.evaluate_judged body hbody
    simp only [Node.evaluate]
    refine j.loop hform (j.condition condition hc) (j.map hb fun result => ?_) .nothing
    exact j.afterRound
  | ⟨_, .function ident params returns body⟩, _, h => by
    simp only [Node.evaluate]
    exact j.bind (j.declareFunction _ (j.allows_cons.1 h).1) fun _ _ => j.pure .nothing
  | ⟨span, .call ident args⟩, _, h => by
    have hargs := Node.evaluateArgs_judged args (j.allows_cons.1 h).2
    simp only [Node.evaluate]
    refine j.bind (j.callee ident.name _) fun f hf => j.bind hargs fun vs hvs => ?_
    refine j.bind (j.checkArity f vs span.start) fun _ _ => ?_
    refine j.map (j.callable hf hvs span.start) fun result hresult => ?_
    intro v hv
    obtain ⟨w, hw, rfl⟩ := Option.map_eq_some_iff.1 hv
    exact hresult w hw
  | ⟨_, .returnValue value⟩, _, h => by
    have hv := Node.evaluate_judged value (j.allows_cons.1 h).2
    simp only [Node.evaluate]
    exact j.producing _ (j.bind (j.demand value hv) fun v hv => j.pure (j.returning hv))
  | ⟨_, .block block⟩, _, h => by
    simp only [Node.evaluate]
    exact Block.evaluate_judged block (j.allows_cons.1 h).2

/-- It holds of the evaluations of arguments, one after the other. -/
theorem Node.evaluateArgs_judged : (args : List Node) → {looped : Bool} →
    j.Allows (Node.allOccurrences looped args) →
    j.holds (fun vs => ∀ v ∈ vs, j.values looped v.value) (Node.evaluateArgs rounds run args)
      (Node.evaluateArgs rounds' run' args)
  | [], _, _ => by
    simp only [Node.evaluateArgs]
    exact j.pure nofun
  | arg :: args, _, h => by
    obtain ⟨harg, hargs⟩ := j.allows_append.1 h
    have hfirst := Node.evaluate_judged arg harg
    have hothers := Node.evaluateArgs_judged args hargs
    simp only [Node.evaluateArgs]
    refine j.bind (j.demand arg hfirst) fun v hv => j.bind hothers fun vs hvs => j.pure ?_
    exact List.forall_mem_cons.2 ⟨hv, hvs⟩

/-- It holds of the evaluations of statements, which end at a signal on both sides
(`interrupts`). -/
theorem Node.evaluateItems_judged : (items : List Node) → {looped : Bool} →
    j.Allows (Node.allOccurrences looped items) → {last : Option Located} →
    ComesTo (j.values looped) last →
    j.holds (ComesTo (j.values looped)) (Node.evaluateItems rounds run last items)
      (Node.evaluateItems rounds' run' last items)
  | [], _, _, last, hlast => by
    simp only [Node.evaluateItems]
    exact j.pure hlast
  | item :: items, _, h, last, _ => by
    obtain ⟨hitem, hitems⟩ := j.allows_append.1 h
    have hfirst := Node.evaluate_judged item hitem
    simp only [Node.evaluateItems]
    refine j.bind hfirst fun result hresult => ?_
    split
    · exact j.pure hresult
    · exact Node.evaluateItems_judged items hitems hresult

/-- It holds of the evaluations of a block, by `Node.evaluateItems_judged`. -/
theorem Block.evaluate_judged : (block : Block) → {looped : Bool} →
    j.Allows (block.occurrences looped) →
    j.holds (ComesTo (j.values looped)) (block.evaluate rounds run) (block.evaluate rounds' run')
  | ⟨_, items⟩, _, h => by
    simp only [Block.evaluate]
    exact Node.evaluateItems_judged items h .nothing

/-- It holds of the evaluations of alternatives: conditions that hold lead to the same block on both
sides. -/
theorem Alternatives.evaluate_judged : (alternatives : Alternatives) → {looped : Bool} →
    j.Allows (alternatives.occurrences looped) →
    j.holds (ComesTo (j.values looped)) (alternatives.evaluate rounds run)
      (alternatives.evaluate rounds' run')
  | .none, _, _ => by
    simp only [Alternatives.evaluate]
    exact j.pure .nothing
  | .otherwise block, _, h => by
    simp only [Alternatives.evaluate]
    exact Block.evaluate_judged block h
  | .case condition body others, _, h => by
    obtain ⟨hcondition, h⟩ := j.allows_append.1 h
    obtain ⟨hbody, hothers⟩ := j.allows_append.1 h
    have hc := Node.evaluate_judged condition hcondition
    have hb := Block.evaluate_judged body hbody
    have ho := Alternatives.evaluate_judged others hothers
    simp only [Alternatives.evaluate]
    refine j.bind (j.condition condition hc) fun holds _ => ?_
    split
    · exact hb
    · exact ho

end

end

end UnitScript
