import UnitScript.Proofs.Calls.Stack
import UnitScript.Proofs.Machine.Stable

/-!
# Calls do not see their callers

What a call comes to depends on its function, its arguments and the globals, and on the number of
calls in progress, but not on what these calls are or have bound (`callWithin_blind`). Inside a
call, two machines that differ below the innermost frame only (`Link.blind`) look the same to every
step of an evaluation: names are looked up in the innermost frame and among the globals, and what a
new function captures is the innermost frame. A call made there starts from a frame of its own, the
same on both machines, so that the calls inside it are blind in turn.
-/

namespace UnitScript

/-- Faults that differ at most in the calls they name (`Fault.traceback`). -/
def Fault.Alike (e f : Fault) : Prop := e.cause = f.cause ∧ e.position = f.position

/-- The same names are bound to the same values (`Bindings.get?`), in whatever order that was
done. -/
def Bindings.Same (b b' : Bindings) : Prop := ∀ name, b.get? name = b'.get? name

/-- Bindings stay the same when a name is bound anew. -/
theorem Bindings.Same.put {b b' : Bindings} (h : b.Same b') (name : String) (v : Located) :
    (b.put name v).Same (b'.put name v) := by
  intro other
  rw [get?_put, get?_put, h other]

/-- Machines in calls that have bound the same (`Bindings.Same`), above calls that may differ. They
have printed the same since given texts. -/
structure Machine.Above (below below' : List Frame) (printed printed' : Array String)
    (m n : Machine) : Prop where
  frames : ∃ frame, m.context.frames = frame :: below ∧ n.context.frames = frame :: below'
  globals : Bindings.Same m.context.globals n.context.globals
  maxDepth : m.context.maxDepth = n.context.maxDepth
  printed : ∃ lines, m.printed = printed ++ lines ∧ n.printed = printed' ++ lines

/-- What two runs inside a call have in common (`Machine.Above`), whatever calls are below; and
faults are `Fault.Alike`. -/
def Link.blind (below below' : List Frame) (printed printed' : Array String) : Link where
  machines := Machine.Above below below' printed printed'
  faults := Fault.Alike
  refl _ := ⟨rfl, rfl⟩
  placed position h := ⟨h.1, congrArg (Option.or · position) h.2⟩

/-! ## Single steps -/

namespace Machine.Above

variable {below below' : List Frame} {printed printed' : Array String} {m n : Machine}

/-- The same is bound in the innermost calls. -/
theorem current (h : Above below below' printed printed' m n) :
    m.context.current = n.context.current := by
  obtain ⟨frame, hm, hn⟩ := h.frames
  rw [Context.current, Context.current, hm, hn]

/-- The same names are visible, with the same values. -/
theorem lookup? (h : Above below below' printed printed' m n) (name : String) :
    m.context.lookup? name = n.context.lookup? name := by
  rw [Context.lookup?, Context.lookup?, h.current, h.globals name]

/-- A new function captures the same. -/
theorem capture (h : Above below below' printed printed' m n) :
    m.context.capture = n.context.capture := by
  obtain ⟨frame, hm, hn⟩ := h.frames
  rw [Context.capture, Context.capture, hm, hn]

/-- A line is printed on both machines. -/
theorem print (h : Above below below' printed printed' m n) (line : String) :
    Above below below' printed printed' { m with printed := m.printed.push line }
      { n with printed := n.printed.push line } := by
  obtain ⟨lines, hm, hn⟩ := h.printed
  refine ⟨h.frames, h.globals, h.maxDepth, lines.push line, ?_, ?_⟩
  · rw [hm, Array.append_push]
  · rw [hn, Array.append_push]

/-- A name is bound globally on both machines. -/
theorem bindGlobal (h : Above below below' printed printed' m n) (name : String) (v : Located) :
    Above below below' printed printed' { m with context := m.context.bindGlobal name v }
      { n with context := n.context.bindGlobal name v } :=
  ⟨h.frames, h.globals.put name v, h.maxDepth, h.printed⟩

/-- A name is bound in the innermost calls. -/
theorem bind (h : Above below below' printed printed' m n) (name : String) (v : Located) :
    Above below below' printed printed' { m with context := m.context.bind name v }
      { n with context := n.context.bind name v } := by
  obtain ⟨frame, hm, hn⟩ := h.frames
  rw [Context.bind, Context.bind, hm, hn]
  exact ⟨⟨_, rfl, rfl⟩, h.globals, h.maxDepth, h.printed⟩

/-- Parameters are bound in the innermost calls. -/
theorem bindParams (h : Above below below' printed printed' m n) (params : List Param)
    (args : List Located) :
    Above below below' printed printed'
      { m with context := Closure.bindParams params args m.context }
      { n with context := Closure.bindParams params args n.context } := by
  induction params generalizing args m n with
  | nil => exact h
  | cons param params ih =>
    cases args with
    | nil => exact h
    | cons arg args => exact ih (h.bind param.ident.name arg) args

/-- A variable is set on both machines, or refused for the same cause. -/
theorem set (h : Above below below' printed printed' m n) (name : String) (type : Option TypeName)
    (v : Located) :
    (∃ c d, m.context.set name type v = .ok c ∧ n.context.set name type v = .ok d ∧
      Above below below' printed printed' { m with context := c } { n with context := d }) ∨
      ∃ cause, m.context.set name type v = .error cause ∧
        n.context.set name type v = .error cause := by
  cases type with
  | some type =>
    simp only [Context.set, Context.declare]
    split
    · exact .inl ⟨_, _, rfl, rfl, h.bind name v⟩
    · exact .inr ⟨_, rfl, rfl⟩
  | none =>
    simp only [Context.set, Context.assign, h.lookup? name, h.current]
    split
    · exact .inr ⟨_, rfl, rfl⟩
    · split
      · refine .inl ⟨_, _, rfl, rfl, ?_⟩
        -- The variable is bound in the innermost call on both machines, or globally on both.
        split
        · exact h.bind name v
        · exact h.bindGlobal name v
      · exact .inr ⟨_, rfl, rfl⟩

end Machine.Above

/-- Inside a call nothing is seen of the calls below: every step of the evaluator keeps machines
`Machine.Above`. -/
theorem Link.blind_stable (below below' : List Frame) (printed printed' : Array String) :
    (Link.blind below below' printed printed').Stable where
  read name h := by rw [Context.read, Context.read, h.lookup? name]
  callee name h := by rw [Context.callee, Context.callee, h.globals name]
  set name type v h := h.set name type v
  declareFunction declaration h := by
    have hcapture := h.capture
    simp only [Context.declareFunction, Context.define, hcapture]
    exact h.bindGlobal _ _
  print line h := h.print line

/-! ## Calls -/

/-- Machines with the same globals on which as many calls are in progress, and may be
(`Context.depth`, `Context.maxDepth`). What these calls are, and what they have bound, is left
open. -/
structure Machine.Alike (m n : Machine) : Prop where
  globals : Bindings.Same m.context.globals n.context.globals
  depth : m.context.depth = n.context.depth
  maxDepth : m.context.maxDepth = n.context.maxDepth

/-- Inside calls that have bound the same (`Machine.Above`), above as many others, machines are
`Machine.Alike`. -/
theorem Machine.Above.alike {below below' : List Frame} {printed printed' : Array String}
    {m n : Machine} (h : Above below below' printed printed' m n)
    (hlength : below.length = below'.length) : m.Alike n := by
  obtain ⟨frame, hm, hn⟩ := h.frames
  refine ⟨h.globals, ?_, h.maxDepth⟩
  rw [Context.depth, Context.depth, hm, hn, List.length_cons, List.length_cons, hlength]

/-- A call is entered on machines that are alike, where it starts from the same bindings
(`Machine.Above`), or is refused on both for the same cause. -/
theorem Machine.Alike.enter {m n : Machine} (h : m.Alike n) (f : Closure) (site : Position) :
    (∃ c d, m.context.enter f site = .ok c ∧ n.context.enter f site = .ok d ∧
      Above m.context.frames n.context.frames m.printed n.printed { m with context := c }
        { n with context := d }) ∨
      ∃ cause, m.context.enter f site = .error cause ∧ n.context.enter f site = .error cause := by
  simp only [Context.enter, h.depth, h.maxDepth]
  split
  · refine .inl ⟨_, _, rfl, rfl, ⟨_, rfl, rfl⟩, h.globals, rfl, #[], ?_, ?_⟩
    · exact Array.append_empty.symm
    · exact Array.append_empty.symm
  · exact .inr ⟨_, rfl, rfl⟩

/-- Two runs of a call come to the same: the result, the fault up to the calls it names
(`Fault.Alike`), or the end of the fuel, the globals, and the lines that are printed. The calls in
progress are left as they were. -/
structure SameCall (m n : Machine) (r s : Outcome (Option Located) × Machine) : Prop where
  outcome : Outcome.Related Fault.Alike (· = ·) r.1 s.1
  globals : Bindings.Same r.2.context.globals s.2.context.globals
  printed : ∃ lines, r.2.printed = m.printed ++ lines ∧ s.2.printed = n.printed ++ lines
  frames : r.2.context.frames = m.context.frames ∧ s.2.context.frames = n.context.frames
  maxDepth : r.2.context.maxDepth = s.2.context.maxDepth

/-- What is run inside a call (`Closure.inside`) is alike on machines that are `Machine.Above` if
the body is. -/
theorem Closure.inside_alike {below below' : List Frame} {printed printed' : Array String}
    {body body' : Eval (Option Located)}
    (hbody : Eval.Alike (.blind below below' printed printed') body body') (f : Closure)
    (args : List Located) (site : Position) :
    Eval.Alike (.blind below below' printed printed') (inside body f args site)
      (inside body' f args site) := by
  refine .traced (.located site (Eval.Alike.bind (.change _ fun m n hmn => ?_) fun _ => ?_)) ?_
  · exact .inl ⟨_, _, rfl, rfl, hmn.bindParams f.declaration.params args⟩
  · exact hbody.bind fun result => .of_immediate (f.checkResult_immediate result)
  · intro e e' m n he _
    exact he

/-- A call comes to the same (`SameCall`) on machines that are alike if the body of its function is
alike above whatever calls. -/
theorem Closure.call_blind {body : Eval (Option Located)} (hobeys : body.Obeys .calls)
    (hbody : ∀ {below below' : List Frame} {printed printed' : Array String},
      below.length = below'.length → Eval.Alike (.blind below below' printed printed') body body)
    (f : Closure) (args : List Located) (site : Position) {m n : Machine} (h : m.Alike n) :
    SameCall m n (call body f args site m) (call body f args site n) := by
  have hunchanged {e : Fault} : SameCall m n (.fault e, m) (.fault e, n) :=
    ⟨.fault ⟨rfl, rfl⟩, h.globals, ⟨#[], Array.append_empty.symm, Array.append_empty.symm⟩,
      ⟨rfl, rfl⟩, h.maxDepth⟩
  have hcheck := f.checkArguments_immediate f.declaration.params args
  rw [call_eq]
  generalize f.checkArguments f.declaration.params args = check at hcheck ⊢
  cases hcheck with
  | fail _ position => exact hunchanged
  | pure =>
    rw [pure_bind]
    rcases h.enter f site with ⟨c, d, hm, hn, habove⟩ | ⟨cause, hm, hn⟩
    · have hinside := inside_obeys hobeys f args site
      obtain ⟨houtcome, hafter⟩ := inside_alike (hbody h.depth) f args site habove
      rw [Eval.entered_of_ok hm (hinside.steps { m with context := c }),
        Eval.entered_of_ok hn (hinside.steps { n with context := d })]
      exact ⟨houtcome, hafter.globals, hafter.printed, ⟨rfl, rfl⟩, hafter.maxDepth⟩
    · rw [Eval.entered_of_error hm, Eval.entered_of_error hn]
      exact hunchanged

/-- What holds of a call above no other calls (`SameCall`) holds inside one as well, where machines
are `Machine.Above`. -/
theorem SameCall.above {below below' : List Frame} {printed printed' : Array String}
    {m n : Machine} {r s : Outcome (Option Located) × Machine} (h : SameCall m n r s)
    (habove : m.Above below below' printed printed' n) :
    r.2.Above below below' printed printed' s.2 := by
  obtain ⟨frame, hm, hn⟩ := habove.frames
  obtain ⟨lines, hlinesm, hlinesn⟩ := habove.printed
  obtain ⟨others, hr, hs⟩ := h.printed
  refine ⟨⟨frame, ?_, ?_⟩, h.globals, h.maxDepth, lines ++ others, ?_, ?_⟩
  · rw [h.frames.1, hm]
  · rw [h.frames.2, hn]
  · rw [hr, hlinesm, Array.append_assoc]
  · rw [hs, hlinesn, Array.append_assoc]

/-- A call comes to the same (`SameCall`) on all machines with the same globals on which as many
calls are in progress and may be, whatever these are and have bound. By induction on the fuel, with
`Closure.call_blind` for the step. -/
theorem callWithin_blind (fuel : Nat) (f : Closure) (args : List Located) (site : Position)
    {m n : Machine} (h : m.Alike n) :
    SameCall m n (callWithin fuel f args site m) (callWithin fuel f args site n) := by
  induction fuel generalizing f args site m n with
  | zero =>
    exact ⟨.outOfFuel, h.globals, ⟨#[], Array.append_empty.symm, Array.append_empty.symm⟩,
      ⟨rfl, rfl⟩, h.maxDepth⟩
  | succ fuel ih =>
    rw [callWithin_succ]
    refine Closure.call_blind (Block.evaluate_obeys (callWithin_obeys fuel) _) ?_ f args site h
    intro below below' printed printed' hlength
    refine Block.evaluate_related (Link.blind_stable below below' printed printed') ?_ _
    intro g vs place m n hmn
    have hcall := ih g vs place (hmn.alike hlength)
    exact ⟨hcall.outcome, hcall.above hmn⟩

/-- A function that gives back what it sees as `x`, without a parameter of that name. -/
def peek : Closure where
  declaration :=
    { ident := ⟨"peek", .origin⟩
      params := []
      returns := .int
      body := ⟨.origin, [⟨.origin, .returnValue ⟨.origin, .variable ⟨"x", .origin⟩⟩⟩]⟩ }
  captured := []

/-- A call of `peek` comes to the same (`SameCall`) whether `x` is bound by its caller or not: it
sees neither. -/
theorem peek_blind :
    let caller : Frame := ⟨.main, [("x", ⟨.number (.int 1), none⟩)]⟩
    SameCall ⟨⟨[], [caller], 2⟩, #[]⟩ ⟨⟨[], [⟨.main, []⟩], 2⟩, #[]⟩
      (callWithin 1 peek [] .origin ⟨⟨[], [caller], 2⟩, #[]⟩)
      (callWithin 1 peek [] .origin ⟨⟨[], [⟨.main, []⟩], 2⟩, #[]⟩) :=
  callWithin_blind 1 peek [] .origin ⟨fun _ => rfl, rfl, rfl⟩

end UnitScript
