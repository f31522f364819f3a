import UnitScript.Proofs.Calls.Moments

/-!
# Calls begin at the moments of a run

An evaluation makes no calls but those that it reaches by `Moment.Begins`: a caller that does what
calls do at the moments that are reached (`Moment.Follows`) makes no difference to what the
evaluation comes to, whatever it does elsewhere (`Task.evaluate_congr`). So a property of all these
moments is one of all that happens in a run.
-/

namespace UnitScript

/-- The caller does what `callWithin` does wherever a call is reached (`Moment.Reaches`) with the
same fuel. What it does on other machines or with other arguments is left open. -/
def Moment.Follows (run : Caller) (a : Moment) : Prop :=
  ∀ ⦃f args site m⦄, a.Reaches ⟨a.fuel, .call f args site, m⟩ →
    run f args site m = callWithin a.fuel f args site m

section
variable {n : Nat} {run : Caller}

/-- What begins inside an evaluation reaches no calls but those of the whole, so a caller that
`Follows` the whole follows the part. -/
theorem Moment.Follows.part {task part : Task} {m m' : Machine} (h : Follows run ⟨n, task, m⟩)
    (hbegins : Begins ⟨n, task, m⟩ ⟨n, part, m'⟩) : Follows run ⟨n, part, m'⟩ :=
  fun _ _ _ _ hreaches => h (.head hbegins hreaches)

/-- A value that is needed. -/
theorem Node.demand_congr (e : Node) {x y : Eval (Option Located)} {m : Machine}
    (h : x m = y m) : e.demand x m = e.demand y m :=
  Eval.bind_congr_at h fun _ _ _ => rfl

/-- A condition. -/
theorem Node.holds_congr (e : Node) {x y : Eval (Option Located)} {m : Machine}
    (h : x m = y m) : e.holds x m = e.holds y m :=
  Eval.bind_congr_at (e.demand_congr h) fun _ _ _ => rfl

/-- A value at the place of a node. -/
theorem producing_congr (span : Span) {x y : Eval Value} {m : Machine} (h : x m = y m) :
    producing span x m = producing span y m :=
  Eval.bind_congr_at h fun _ _ _ => rfl

/-- What comes to the same may be changed in the same way. -/
theorem Eval.map_congr_at {α β : Type} (f : α → β) {x y : Eval α} {m : Machine} (h : x m = y m) :
    (f <$> x) m = (f <$> y) m := by
  rw [← bind_pure_comp, ← bind_pure_comp]
  exact bind_congr_at h fun _ _ _ => rfl

/-- A loop makes no calls but those of its conditions and its rounds. -/
theorem Eval.repeatWhile_congr {condition : Node} {body : Block}
    (hcondition : ∀ m, Moment.Follows run ⟨n, .node condition, m⟩ →
      condition.evaluate n run m = condition.run n m)
    (hbody : ∀ m, Moment.Follows run ⟨n, .block body, m⟩ →
      body.evaluate n run m = body.evaluate n (callWithin n) m)
    (rounds : Nat) {m : Machine} (h : Moment.Follows run ⟨n, .loop condition body rounds, m⟩) :
    (Task.loop condition body rounds).evaluate n run m =
      (Task.loop condition body rounds).evaluate n (callWithin n) m := by
  induction rounds generalizing m with
  | zero => rfl
  | succ rounds ih =>
    simp only [Task.evaluate, Eval.repeatWhile] at ih ⊢
    have hholds := condition.holds_congr (hcondition m (h.part .loopCondition))
    refine bind_congr_at hholds fun holds m' hm' => ?_
    cases holds with
    | false => rfl
    | true =>
      have hround := Eval.map_congr_at afterRound (hbody m' (h.part (.loopBody hm')))
      refine bind_congr_at hround fun result m'' hm'' => ?_
      cases result with
      | none => exact ih (h.part (.moreRounds hm' hm''))
      | some result => rfl

mutual

/-- A node makes no calls but those that it reaches: with a caller that `Moment.Follows` it, it
comes to what `Node.run` does. -/
theorem Node.evaluate_congr : (e : Node) → {m : Machine} → Moment.Follows run ⟨n, .node e, m⟩ →
    e.evaluate n run m = e.run n m
  | ⟨_, .int _⟩, _, _ | ⟨_, .double _⟩, _, _ | ⟨_, .string _⟩, _, _ | ⟨_, .bool _⟩, _, _
  | ⟨_, .unit _ _⟩, _, _ | ⟨_, .variable _⟩, _, _ | ⟨_, .function _ _ _ _⟩, _, _
  | ⟨_, .returnNothing⟩, _, _ | ⟨_, .breakLoop⟩, _, _ | ⟨_, .continueLoop⟩, _, _ => by
    simp only [Node.run, Node.evaluate]
  | ⟨span, .phys magnitude unit⟩, m, h => by
    have hmagnitude := Node.evaluate_congr magnitude (h.part .magnitude)
    simp only [Node.run, Node.evaluate] at hmagnitude ⊢
    refine producing_congr span (Eval.bind_congr_at (magnitude.demand_congr hmagnitude) ?_)
    intro v m' hv
    refine Eval.bind_congr_at rfl fun number m'' hnumber => ?_
    have hunit := Node.evaluate_congr unit (h.part (.unit ((Eval.bind_of_ok hv).trans hnumber)))
    exact Eval.bind_congr_at (unit.demand_congr hunit) fun _ _ _ => rfl
  | ⟨span, .unary op operand⟩, m, h => by
    have hoperand := Node.evaluate_congr operand (h.part .operand)
    simp only [Node.run, Node.evaluate] at hoperand ⊢
    exact producing_congr span (Eval.bind_congr_at (operand.demand_congr hoperand) fun _ _ _ => rfl)
  | ⟨span, .binary op left right⟩, m, h => by
    have hleft := Node.evaluate_congr left (h.part .left)
    simp only [Node.run, Node.evaluate] at hleft ⊢
    refine producing_congr span (Eval.bind_congr_at (left.demand_congr hleft) fun l m' hl => ?_)
    have hright := Node.evaluate_congr right (h.part (.right hl))
    exact Eval.bind_congr_at (right.demand_congr hright) fun _ _ _ => rfl
  | ⟨_, .assign type ident value⟩, m, h => by
    have hvalue := Node.evaluate_congr value (h.part .assigned)
    simp only [Node.run, Node.evaluate] at hvalue ⊢
    exact Eval.bind_congr_at (value.demand_congr hvalue) fun _ _ _ => rfl
  | ⟨_, .ifElse alternatives⟩, m, h => by
    have halternatives := Alternatives.evaluate_congr alternatives (h.part .chosen)
    simp only [Node.run, Node.evaluate]
    exact halternatives
  | ⟨_, .whileLoop condition body⟩, m, h => by
    simp only [Node.run, Node.evaluate]
    exact Eval.repeatWhile_congr (fun _ => Node.evaluate_congr condition)
      (fun _ => Block.evaluate_congr body) n (h.part .loop)
  | ⟨span, .call ident args⟩, m, h => by
    simp only [Node.run, Node.evaluate]
    refine Eval.bind_congr_at rfl fun f m' hview => ?_
    obtain ⟨hcallee, rfl⟩ := Eval.view_eq_ok.1 hview
    have hargs := Node.evaluateArgs_congr args (h.part (.arguments hcallee))
    refine Eval.bind_congr_at hargs fun vs m'' hvs => ?_
    refine Eval.bind_congr_at rfl fun _ m''' hcheck => ?_
    obtain ⟨hlength, rfl⟩ := (checkArity_immediate f vs span.start).of_eq_ok hcheck
    refine Eval.bind_congr_at ?_ fun _ _ _ => rfl
    cases f with
    | closure f => exact h (.single (.call hcallee hvs hlength))
    | native f => rfl
  | ⟨span, .returnValue value⟩, m, h => by
    have hvalue := Node.evaluate_congr value (h.part .returned)
    simp only [Node.run, Node.evaluate] at hvalue ⊢
    exact producing_congr span (Eval.bind_congr_at (value.demand_congr hvalue) fun _ _ _ => rfl)
  | ⟨_, .block block⟩, m, h => by
    have hblock := Block.evaluate_congr block (h.part .nested)
    simp only [Node.run, Node.evaluate]
    exact hblock

/-- Arguments make no calls but those that they reach. -/
theorem Node.evaluateArgs_congr : (es : List Node) → {m : Machine} →
    Moment.Follows run ⟨n, .arguments es, m⟩ →
    Node.evaluateArgs n run es m = Node.evaluateArgs n (callWithin n) es m
  | [], _, _ => by simp only [Node.evaluateArgs]
  | e :: es, m, h => by
    have hfirst := Node.evaluate_congr e (h.part .argument)
    simp only [Node.evaluateArgs]
    refine Eval.bind_congr_at (e.demand_congr hfirst) fun v m' hv => ?_
    have hothers := Node.evaluateArgs_congr es (h.part (.moreArguments hv))
    exact Eval.bind_congr_at hothers fun _ _ _ => rfl

/-- Statements make no calls but those that they reach. -/
theorem Node.evaluateItems_congr : (es : List Node) → {last : Option Located} → {m : Machine} →
    Moment.Follows run ⟨n, .items last es, m⟩ →
    Node.evaluateItems n run last es m = Node.evaluateItems n (callWithin n) last es m
  | [], _, _, _ => by simp only [Node.evaluateItems]
  | e :: es, last, m, h => by
    have hfirst := Node.evaluate_congr e (h.part .item)
    simp only [Node.evaluateItems]
    refine Eval.bind_congr_at hfirst fun result m' hresult => ?_
    split
    · rfl
    · next hinterrupts =>
      have hquiet := Bool.eq_false_iff.2 hinterrupts
      exact Node.evaluateItems_congr es (h.part (.moreItems hresult hquiet))

/-- Blocks make no calls but those that they reach. -/
theorem Block.evaluate_congr : (b : Block) → {m : Machine} →
    Moment.Follows run ⟨n, .block b, m⟩ → b.evaluate n run m = b.evaluate n (callWithin n) m
  | ⟨_, items⟩, m, h => by
    have hitems := Node.evaluateItems_congr items (h.part .items)
    simp only [Block.evaluate]
    exact hitems

/-- Alternatives make no calls but those that they reach. -/
theorem Alternatives.evaluate_congr : (a : Alternatives) → {m : Machine} →
    Moment.Follows run ⟨n, .alternatives a, m⟩ →
    a.evaluate n run m = a.evaluate n (callWithin n) m
  | .none, _, _ => by simp only [Alternatives.evaluate]
  | .otherwise b, m, h => by
    have hblock := Block.evaluate_congr b (h.part .otherwise)
    simp only [Alternatives.evaluate]
    exact hblock
  | .case condition body others, m, h => by
    have hcondition := Node.evaluate_congr condition (h.part .caseCondition)
    simp only [Alternatives.evaluate]
    refine Eval.bind_congr_at (condition.holds_congr hcondition) fun holds m' hholds => ?_
    cases holds with
    | false => exact Alternatives.evaluate_congr others (h.part (.caseOthers hholds))
    | true => exact Block.evaluate_congr body (h.part (.caseBody hholds))

end

/-- No evaluation makes calls but those that it reaches (`Moment.Follows`), whatever its task is. -/
theorem Task.evaluate_congr {task : Task} {m : Machine} (h : Moment.Follows run ⟨n, task, m⟩) :
    task.evaluate n run m = task.evaluate n (callWithin n) m := by
  cases task with
  | node e => exact e.evaluate_congr h
  | arguments es => exact Node.evaluateArgs_congr es h
  | items last es => exact Node.evaluateItems_congr es h
  | block b => exact b.evaluate_congr h
  | alternatives a => exact a.evaluate_congr h
  | loop condition body rounds =>
    exact Eval.repeatWhile_congr (fun _ => condition.evaluate_congr)
      (fun _ => body.evaluate_congr) rounds h
  | call f args site => exact h .refl

/-- A call runs the body of its function at no other moment than the one that begins inside it
(`Moment.Begins`). -/
theorem Closure.call_congr {f : Closure} {args : List Located} {site : Position} {m : Machine}
    {body : Eval (Option Located)}
    (h : ∀ m', Moment.Begins ⟨n + 1, .call f args site, m⟩ ⟨n, .block f.declaration.body, m'⟩ →
      body m' = f.declaration.body.evaluate n (callWithin n) m') :
    call body f args site m = callWithin (n + 1) f args site m := by
  rw [callWithin_succ, call_eq, call_eq]
  refine Eval.bind_congr_at rfl fun _ m' hcheck => ?_
  obtain ⟨-, rfl⟩ := (f.checkArguments_immediate f.declaration.params args).of_eq_ok hcheck
  refine Eval.bind_congr_at rfl fun _ m'' henter => ?_
  obtain ⟨context, hcontext, rfl⟩ := Eval.change_eq_ok.1 henter
  unfold Eval.leaving inside Eval.traced Eval.located
  rw [Eval.bind_congr_at rfl fun _ m''' hbind => ?_]
  obtain ⟨bound, hbound, rfl⟩ := Eval.change_eq_ok.1 hbind
  cases hbound
  exact Eval.bind_congr_at (h _ (.body hcheck hcontext)) fun _ _ _ => rfl

end

end UnitScript
