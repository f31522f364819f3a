import UnitScript.Proofs.Machine.Obeys

/-!
# The stack of calls

Whatever an evaluation comes to, a result, a fault or the end of its fuel, it leaves the calls in
progress as they were, together with all that they have bound except for the innermost one
(`Context.SameCalls`). This is a discipline in the sense of `Discipline`: no single step touches
more than the globals and the innermost bindings, and a call takes off again what it has put on
top. There is always a call to leave, so leaving never fails.
-/

namespace UnitScript

/-- The same calls are in progress (`Frame.activation`), those below the innermost one have the same
bindings, and as many may be in progress. Globals and the innermost bindings may differ. -/
structure Context.SameCalls (before after : Context) : Prop where
  maxDepth : after.maxDepth = before.maxDepth
  activations : after.frames.map Frame.activation = before.frames.map Frame.activation
  below : after.frames.tail = before.frames.tail

namespace Context.SameCalls

variable {c c' c'' : Context}

/-- A context has the same calls as itself. -/
theorem refl (c : Context) : c.SameCalls c := ⟨rfl, rfl, rfl⟩

/-- The calls stay the same over several steps. -/
theorem trans (h : c.SameCalls c') (h' : c'.SameCalls c'') : c.SameCalls c'' :=
  ⟨h'.maxDepth.trans h.maxDepth, h'.activations.trans h.activations, h'.below.trans h.below⟩

/-- As many calls are in progress. -/
theorem depth (h : c.SameCalls c') : c'.depth = c.depth := by
  have hlength := congrArg List.length h.activations
  rwa [List.length_map, List.length_map] at hlength

/-- The same functions are being run. -/
theorem traceback (h : c.SameCalls c') : c'.traceback = c.traceback := by
  rw [Context.traceback, Context.traceback, h.activations]

/-- Contexts that differ in their globals have the same calls. -/
theorem of_frames (hmax : c'.maxDepth = c.maxDepth) (hframes : c'.frames = c.frames) :
    c.SameCalls c' :=
  ⟨hmax, congrArg _ hframes, congrArg _ hframes⟩

/-- Binding a name globally touches no call. -/
theorem bindGlobal (c : Context) (name : String) (v : Located) :
    c.SameCalls (c.bindGlobal name v) :=
  of_frames rfl rfl

/-- Binding a name touches the bindings of the innermost call only. -/
theorem bind (c : Context) (name : String) (v : Located) : c.SameCalls (c.bind name v) := by
  unfold Context.bind
  split
  · exact bindGlobal c name v
  · next frame frames hframes =>
    refine ⟨rfl, ?_, ?_⟩
    · rw [hframes, List.map_cons, List.map_cons]
    · rw [hframes, List.tail_cons, List.tail_cons]

/-- Setting a variable touches the bindings of the innermost call only. -/
theorem set {name : String} {type : Option TypeName} {v : Located}
    (h : c.set name type v = .ok c') : c.SameCalls c' := by
  unfold Context.set Context.declare Context.assign at h
  split at h
  · split at h
    · cases h
      exact bind c name v
    · cases h
  · split at h
    · cases h
    · split at h
      · cases h
        split
        · exact bind c name v
        · exact bindGlobal c name v
      · cases h

/-- Binding parameters touches the bindings of the innermost call only. -/
theorem bindParams (params : List Param) (args : List Located) (c : Context) :
    c.SameCalls (Closure.bindParams params args c) := by
  induction params generalizing args c with
  | nil => exact refl c
  | cons param params ih =>
    cases args with
    | nil => exact refl c
    | cons arg args => exact (bind c param.ident.name arg).trans (ih args _)

end Context.SameCalls

/-- The program itself is always being run. -/
theorem Context.traceback_ne_nil (c : Context) : c.traceback ≠ [] :=
  List.append_ne_nil_of_right_ne_nil _ (List.cons_ne_nil _ _)

/-- A call is entered exactly if there is room for it, and then its frame lies on top of those in
progress, with what the function captured. -/
theorem Context.enter_eq_ok {c c' : Context} {f : Closure} {site : Position} :
    c.enter f site = .ok c' ↔
      c.depth < c.maxDepth ∧
        c' = { c with frames := ⟨⟨f.declaration.ident.name, site⟩, f.captured⟩ :: c.frames } := by
  simp only [Context.enter]
  split
  · next hlt => simp [hlt, eq_comm]
  · next hge => simp [hge]

/-- One call more is in progress once a call has been entered. -/
theorem Context.depth_of_enter {c c' : Context} {f : Closure} {site : Position}
    (h : c.enter f site = .ok c') : c'.depth = c.depth + 1 ∧ c'.maxDepth = c.maxDepth := by
  obtain ⟨-, rfl⟩ := Context.enter_eq_ok.1 h
  exact ⟨rfl, rfl⟩

/-- A call that cannot be entered would be one too many, and `Context.enter` refuses it for no other
cause. -/
theorem Context.enter_eq_error {c : Context} {f : Closure} {site : Position} {cause : Cause} :
    c.enter f site = .error cause ↔
      c.maxDepth ≤ c.depth ∧ cause = .recursionLimit f.declaration.ident.name c.maxDepth := by
  simp only [Context.enter]
  split
  · next hlt => simp [Nat.not_le.2 hlt]
  · next hge => simp [Nat.not_lt.1 hge, eq_comm]

/-- After a call that was entered, leaving brings back the calls that were in progress, if they have
been the same (`Context.SameCalls`) inside. -/
theorem Context.leave_of_enter {c c' c'' : Context} {f : Closure} {site : Position}
    (henter : c.enter f site = .ok c') (hsame : c'.SameCalls c'') :
    c''.leave = .ok { c'' with frames := c.frames } := by
  obtain ⟨-, rfl⟩ := Context.enter_eq_ok.1 henter
  have hbelow := hsame.below
  have hdepth := hsame.depth
  unfold Context.leave
  split
  · next hnil =>
    rw [Context.depth, hnil] at hdepth
    cases hdepth
  · next frame frames hcons =>
    rw [hcons, List.tail_cons, List.tail_cons] at hbelow
    rw [hbelow]

namespace Eval

variable {f : Closure} {site : Position} {position : Option Position} {m : Machine}
  {x : Eval (Option Located)}

/-- A call that cannot be entered is refused. -/
theorem entered_of_error {cause : Cause} (h : m.context.enter f site = .error cause) :
    (Eval.change (·.enter f site) position >>= fun _ => Eval.leaving x) m =
      (.fault ((Fault.ofCause cause).at? position), m) := by
  refine bind_of_fault ?_
  rw [Eval.change, h]
  rfl

/-- A call that is entered is left with what it came to, and the calls below are as they were. -/
theorem entered_of_ok {c : Context} (henter : m.context.enter f site = .ok c)
    (hsame : c.SameCalls (x { m with context := c }).2.context) :
    (Eval.change (·.enter f site) position >>= fun _ => Eval.leaving x) m =
      ((x { m with context := c }).1, { (x { m with context := c }).2 with
        context :=
          { (x { m with context := c }).2.context with frames := m.context.frames } }) := by
  have hchange : Eval.change (·.enter f site) position m = (.ok (), { m with context := c }) := by
    rw [Eval.change, henter]
  have hleave := Context.leave_of_enter henter hsame
  rw [bind_of_ok hchange]
  unfold Eval.leaving
  simp only [hleave]

end Eval

/-- The discipline of calls: an evaluation leaves the calls in progress as they were
(`Context.SameCalls`), and never fails for want of one to leave. -/
def Discipline.calls : Discipline where
  steps m n := m.context.SameCalls n.context
  causes cause := cause.kind ≠ .noCallToLeave
  refl m := .refl m.context
  trans h h' := h.trans h'
  print m _ := .refl m.context
  set h := .set h
  declareFunction m _ := .bindGlobal m.context _ _
  ordinary h := h

/-! ## Calls -/

namespace Closure

/-- A computation between entering and leaving a call keeps to `Discipline.calls` if it does so
itself, by `Context.leave_of_enter`. -/
theorem entered_obeys (f : Closure) (site : Position) (position : Option Position)
    {x : Eval (Option Located)} (hx : x.Obeys .calls) :
    (Eval.change (·.enter f site) position >>= fun _ => Eval.leaving x).Obeys .calls := by
  refine ⟨fun m => ?_, fun {m e} he => ?_⟩
  · cases henter : m.context.enter f site with
    | error cause =>
      rw [Eval.entered_of_error henter]
      exact .refl _
    | ok c =>
      have hsame := hx.steps { m with context := c }
      rw [Eval.entered_of_ok henter hsame]
      obtain ⟨-, rfl⟩ := Context.enter_eq_ok.1 henter
      exact .of_frames hsame.maxDepth rfl
  · cases henter : m.context.enter f site with
    | error cause =>
      obtain ⟨-, rfl⟩ := Context.enter_eq_error.1 henter
      rw [Eval.entered_of_error henter] at he
      cases he
      exact FaultKind.noConfusion
    | ok c =>
      rw [Eval.entered_of_ok henter (hx.steps { m with context := c })] at he
      exact hx.causes he

/-- What is run between entering and leaving a call: parameters are bound (`bindParams`), the body
is run, and what it hands back is checked (`checkResult`). -/
def inside (body : Eval (Option Located)) (f : Closure) (args : List Located) (site : Position) :
    Eval (Option Located) :=
  Eval.traced <| Eval.located site do
    Eval.change (fun context => .ok (bindParams f.declaration.params args context)) none
    f.checkResult (← body)

/-- A call checks its arguments, enters, runs what is `inside`, and leaves, whatever that comes
to. -/
theorem call_eq (body : Eval (Option Located)) (f : Closure) (args : List Located)
    (site : Position) :
    call body f args site = f.checkArguments f.declaration.params args >>= fun _ =>
      Eval.change (·.enter f site) (some site) >>= fun _ =>
        Eval.leaving (inside body f args site) :=
  rfl

/-- What is inside a call keeps to a discipline if the body of the function does, and if parameters
may be bound. -/
theorem inside_obeys_of_params {d : Discipline} {body : Eval (Option Located)}
    (hbody : body.Obeys d) (f : Closure) (args : List Located) (site : Position)
    (hparams : ∀ m : Machine,
      d.steps m { m with context := bindParams f.declaration.params args m.context }) :
    (inside body f args site).Obeys d := by
  refine .traced (.located site (Eval.Obeys.bind (.change _ (fun m c hc => ?_) nofun) fun _ => ?_))
  · cases hc
    exact hparams m
  · exact hbody.bind fun result => .of_immediate (f.checkResult_immediate result)

/-- What is inside a call keeps to `Discipline.calls` if the body of the function does. -/
theorem inside_obeys {body : Eval (Option Located)} (hbody : body.Obeys .calls)
    (f : Closure) (args : List Located) (site : Position) :
    (inside body f args site).Obeys .calls :=
  inside_obeys_of_params hbody f args site fun m => .bindParams _ args m.context

/-- A call keeps to `Discipline.calls` if the body of the function does: the innermost call of the
body is the one that was entered. -/
theorem call_obeys {body : Eval (Option Located)} (hbody : body.Obeys .calls) (f : Closure)
    (args : List Located) (site : Position) : (call body f args site).Obeys .calls := by
  rw [call_eq]
  refine Eval.Obeys.bind (.of_immediate (f.checkArguments_immediate _ args)) fun _ => ?_
  exact entered_obeys f site _ (inside_obeys hbody f args site)

end Closure

/-- A call runs the body of its function, where one call less may be inside another. -/
theorem callWithin_succ (fuel : Nat) (f : Closure) (args : List Located) (site : Position) :
    callWithin (fuel + 1) f args site =
      Closure.call (f.declaration.body.evaluate fuel (callWithin fuel)) f args site :=
  rfl

/-- Calls keep to `Discipline.calls`, however deep they are inside one another, by induction on the
fuel. -/
theorem callWithin_obeys (fuel : Nat) (f : Closure) (args : List Located) (site : Position) :
    (callWithin fuel f args site).Obeys .calls := by
  induction fuel generalizing f args site with
  | zero => exact .outOfFuel
  | succ fuel ih => exact Closure.call_obeys (Block.evaluate_obeys ih _) f args site

section
variable {d : Discipline} {fuel : Nat}

/-- The run of any node keeps to a discipline if calls do. -/
theorem Node.run_obeys (hcalls : ∀ f args site, (callWithin fuel f args site).Obeys d)
    (node : Node) : (node.run fuel).Obeys d :=
  Node.evaluate_obeys hcalls node

/-- The run of any program keeps to a discipline if calls do. -/
theorem Block.run_obeys (hcalls : ∀ f args site, (callWithin fuel f args site).Obeys d)
    (program : Block) : (program.run fuel).Obeys d := by
  refine .traced ((Block.evaluate_obeys hcalls program).bind fun result => ?_)
  split
  · exact .pure _
  · split
    · exact .fail FaultKind.noConfusion _
    · exact .pure _
  · exact .pure _

end

end UnitScript
