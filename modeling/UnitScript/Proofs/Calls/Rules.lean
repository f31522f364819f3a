import UnitScript.Proofs.Calls.Depth

/-!
# The rules of calls

How a call expression is evaluated, told as rules: one for each way in which it can end
(`CallRuns`). The function is the one that is bound globally under the name. The arguments are
evaluated from left to right, up to the first that has no value. Their number is checked, then
their types one after the other, then the depth of calls; whatever is refused there leaves the
machine as the arguments have left it. Otherwise the body of the function is run, on a machine with
one frame more, which binds what the function has captured and its parameters
(`Closure.entering`), and what it comes to has to be what the function declares.

Every evaluation of a call follows exactly one of the rules (`CallRuns.iff_run`).
-/

namespace UnitScript

/-- Both end without a result, and in the same way: in one `Fault` or for want of fuel. The types of
their results may differ. -/
inductive Outcome.EndsLike : Outcome α → Outcome β → Prop
  | fault : EndsLike (.fault e) (.fault e)
  | outOfFuel : EndsLike .outOfFuel .outOfFuel

/-- What has no result has none with whatever follows it, and ends in the same way
(`Outcome.EndsLike`). -/
theorem Eval.bind_of_endsLike {α β : Type} {x : Eval α} {f : α → Eval β} {m n : Machine}
    {outcome : Outcome α} {outcome' : Outcome β} (h : x m = (outcome, n))
    (hends : outcome.EndsLike outcome') : (x >>= f) m = (outcome', n) := by
  cases hends with
  | fault => exact bind_of_fault h
  | outOfFuel => exact bind_of_outOfFuel h

/-- A computation that is located and traced has the results that it has. -/
theorem Eval.traced_located_of_ok {α : Type} {x : Eval α} {m n : Machine} {site : Position} {a : α}
    (h : x m = (.ok a, n)) : Eval.traced (Eval.located site x) m = (.ok a, n) :=
  traced_eq_ok.2 (located_eq_ok.2 h)

/-- Its faults are given the place and the calls in progress. -/
theorem Eval.traced_located_of_fault {α : Type} {x : Eval α} {m n : Machine} {site : Position}
    {e : Fault} (h : x m = (.fault e, n)) :
    Eval.traced (Eval.located site x) m =
      (.fault ((e.at? (some site)).within n.context.traceback), n) :=
  traced_eq_fault.2 ⟨_, located_eq_fault.2 ⟨e, h, rfl⟩, rfl⟩

/-- It runs out of fuel where it does. -/
theorem Eval.traced_located_of_outOfFuel {α : Type} {x : Eval α} {m n : Machine} {site : Position}
    (h : x m = (.outOfFuel, n)) : Eval.traced (Eval.located site x) m = (.outOfFuel, n) := by
  unfold traced located
  rw [h]

/-! ## Arguments -/

/-- Arguments come to values one after the other (`Node.demand`), each on the machine that the ones
before it have left. -/
inductive Evaluated (fuel : Nat) : Machine → List Node → List Located → Machine → Prop
  | nil : Evaluated fuel m [] [] m
  | cons : Node.demand e (e.run fuel) m = (.ok v, m') → Evaluated fuel m' es vs m'' →
      Evaluated fuel m (e :: es) (v :: vs) m''

/-- One argument has no value: it fails, comes to nothing, or the fuel does not last. Those before
it have values (`Evaluated`), and those behind it are not evaluated. -/
inductive Stopped (fuel : Nat) (m : Machine) : List Node → Outcome (List Located) → Machine → Prop
  | at {e : Node} : Evaluated fuel m front vs m' → e.demand (e.run fuel) m' = (outcome, m'') →
      outcome.EndsLike outcome' → Stopped fuel m (front ++ e :: behind) outcome' m''

section
variable {fuel : Nat} {m m' m'' : Machine} {e : Node} {es : List Node} {v : Located}
  {vs : List Located} {outcome : Outcome (List Located)}

/-- Arguments that come to values (`Evaluated`) are evaluated by `Node.evaluateArgs`, to these
values and on that machine. -/
theorem Evaluated.evaluateArgs (h : Evaluated fuel m es vs m') :
    Node.evaluateArgs fuel (callWithin fuel) es m = (.ok vs, m') := by
  induction h with
  | nil =>
    rw [Node.evaluateArgs]
    rfl
  | cons hfirst _ ih =>
    rw [Node.evaluateArgs]
    exact (Eval.bind_of_ok hfirst).trans (Eval.bind_of_ok ih)

/-- An argument without a value (`Stopped`) ends `Node.evaluateArgs` in the way the argument has
ended. -/
theorem Stopped.evaluateArgs (h : Stopped fuel m es outcome m') :
    Node.evaluateArgs fuel (callWithin fuel) es m = (outcome, m') := by
  obtain ⟨hfront, he, hends⟩ := h
  induction hfront with
  | nil =>
    rw [List.nil_append, Node.evaluateArgs]
    exact Eval.bind_of_endsLike he hends
  | cons hfirst _ ih =>
    rw [List.cons_append, Node.evaluateArgs]
    refine (Eval.bind_of_ok hfirst).trans (Eval.bind_of_endsLike (ih he) ?_)
    cases hends with
    | fault => exact .fault
    | outOfFuel => exact .outOfFuel

/-- An argument with a value comes before those where the evaluation stops. -/
theorem Stopped.cons (hfirst : e.demand (e.run fuel) m = (.ok v, m'))
    (h : Stopped fuel m' es outcome m'') : Stopped fuel m (e :: es) outcome m'' := by
  obtain ⟨hfront, he, hends⟩ := h
  exact .at (.cons hfirst hfront) he hends

/-- Arguments come to values (`Evaluated`), or one of them has none (`Stopped`), by induction on the
arguments. -/
theorem evaluated_or_stopped (fuel : Nat) (m : Machine) (es : List Node) :
    (∃ vs m', Evaluated fuel m es vs m') ∨ ∃ outcome m', Stopped fuel m es outcome m' := by
  induction es generalizing m with
  | nil => exact .inl ⟨[], m, .nil⟩
  | cons e es ih =>
    rcases he : e.demand (e.run fuel) m with ⟨v | fault | _, m'⟩
    · rcases ih m' with ⟨vs, m'', hes⟩ | ⟨outcome, m'', hes⟩
      · exact .inl ⟨v :: vs, m'', .cons he hes⟩
      · exact .inr ⟨outcome, m'', .cons he hes⟩
    · exact .inr ⟨_, m', .at .nil he .fault⟩
    · exact .inr ⟨_, m', .at .nil he .outOfFuel⟩

/-- Arguments come to values in the sense of `Evaluated` exactly if `Node.evaluateArgs` gives these
values. -/
theorem Evaluated.iff_evaluateArgs :
    Evaluated fuel m es vs m' ↔
      Node.evaluateArgs fuel (callWithin fuel) es m = (.ok vs, m') := by
  refine ⟨Evaluated.evaluateArgs, fun h => ?_⟩
  rcases evaluated_or_stopped fuel m es with ⟨vs', m'', hes⟩ | ⟨outcome, m'', hes⟩
  · cases hes.evaluateArgs.symm.trans h
    exact hes
  · have houtcome := congrArg Prod.fst (hes.evaluateArgs.symm.trans h)
    obtain ⟨-, -, hends⟩ := hes
    cases hends with
    | fault => cases houtcome
    | outOfFuel => cases houtcome

/-- Arguments are evaluated with the calls in progress that there are. -/
theorem Evaluated.sameCalls (h : Evaluated fuel m es vs m') :
    m.context.SameCalls m'.context :=
  (Node.evaluateArgs_obeys (callWithin_obeys fuel) es).steps_of_ok h.evaluateArgs

end

/-! ## The frame of a call -/

namespace Closure

/-- The bindings with parameters that are bound to arguments one after the other (`Bindings.put`), a
later one over an earlier one of its name. -/
def bound : List Param → List Located → Bindings → Bindings
  | param :: params, arg :: args, bindings =>
    bound params args (bindings.put param.ident.name arg)
  | _, _, bindings => bindings

/-- The argument for a parameter of a name, and of several parameters of one name for the last: what
`bound` leaves under that name (`get?_bound`). -/
def argument? (params : List Param) (args : List Located) (name : String) : Option Located :=
  ((params.zip args).reverse.find? fun p => p.1.ident.name == name).map Prod.snd

/-- The machine on which the body of a function begins: there is a new `Frame`, with what the
function captured and, over that, the parameters. -/
def entering (f : Closure) (args : List Located) (site : Position) (m : Machine) : Machine :=
  { m with context := { m.context with
      frames := ⟨⟨f.declaration.ident.name, site⟩, bound f.declaration.params args f.captured⟩ ::
        m.context.frames } }

/-- In `bound` bindings a parameter has its argument (`argument?`), and other names have what was
bound before. -/
theorem get?_bound (params : List Param) (args : List Located) (bindings : Bindings)
    (name : String) :
    (bound params args bindings).get? name =
      (argument? params args name).or (bindings.get? name) := by
  induction params generalizing args bindings with
  | nil => rfl
  | cons param params ih =>
    cases args with
    | nil => rfl
    | cons arg args =>
      rw [bound, ih, argument?, argument?, List.zip_cons_cons, List.reverse_cons,
        List.find?_append, Bindings.get?_put]
      cases (params.zip args).reverse.find? fun p => p.1.ident.name == name with
      | some p => rfl
      | none =>
        by_cases hname : param.ident.name = name
        · simp [hname]
        · simp [hname, Ne.symm hname]

/-- Binding parameters in a call (`bindParams`) is a change of the bindings of its frame, to the
`bound` ones. -/
theorem bindParams_frame (params : List Param) (args : List Located) (globals : Bindings)
    (frame : Frame) (frames : List Frame) (maxDepth : Nat) :
    bindParams params args ⟨globals, frame :: frames, maxDepth⟩ =
      ⟨globals, { frame with bindings := bound params args frame.bindings } :: frames,
        maxDepth⟩ := by
  induction params generalizing args frame with
  | nil => rfl
  | cons param params ih =>
    cases args with
    | nil => rfl
    | cons arg args => exact ih args { frame with bindings := frame.bindings.put _ arg }

/-- The body of a function begins on the machine `entering` once its call has been entered
(`Context.enter`) and the parameters are bound. -/
theorem entering_eq {f : Closure} {site : Position} {m : Machine} {context : Context}
    (args : List Located) (henter : m.context.enter f site = .ok context) :
    f.entering args site m =
      { m with context := bindParams f.declaration.params args context } := by
  obtain ⟨-, rfl⟩ := Context.enter_eq_ok.1 henter
  rw [bindParams_frame]
  rfl

/-! ## What a call gives back -/

/-- What a body that came to a value, or to nothing, hands back: what it returns or, where it does
not, what its last statement came to. A body that comes to `break` or `continue` hands nothing
back. -/
inductive HandsBack : Option Located → Option Located → Prop
  | nothing : HandsBack none none
  | value : Value.isSignal v = false → HandsBack (some ⟨v, span⟩) (some ⟨v, span⟩)
  | returned : HandsBack (some ⟨.returning payload, span⟩) payload

/-- What is handed back is a value of the type that the function declares (`Value.fits`), or nothing
if it declares none. -/
def Promises (f : Closure) : Option Located → Prop
  | some v => v.value.fits f.declaration.returns = true
  | none => f.declaration.returns = .void

/-- What a call comes to, given what the body of the function came to: what it `HandsBack`, if the
function `Promises` that. Faults are given the place of the call and the calls in progress if they
have none. -/
inductive Returns (f : Closure) (site : Position) (traceback : List Activation) :
    Outcome (Option Located) → Outcome (Option Located) → Prop
  | result : HandsBack r back → f.Promises back → Returns f site traceback (.ok r) (.ok back)
  | mismatch : HandsBack r back → ¬ f.Promises back →
      Returns f site traceback (.ok r) (.fault
        ⟨.returnMismatch f.declaration.ident.name f.declaration.returns
          (back.map fun v => v.value.kind), (back.bind Located.position).or (some site), traceback⟩)
  | stray : Value.isSignal v = true → v.kind ≠ .returning →
      Returns f site traceback (.ok (some ⟨v, span⟩))
        (.fault ⟨.straySignal v.kind, (span.map Span.start).or (some site), traceback⟩)
  | fault : Returns f site traceback (.fault e) (.fault ((e.at? (some site)).within traceback))
  | outOfFuel : Returns f site traceback .outOfFuel .outOfFuel

section
variable {f : Closure} {site : Position} {traceback : List Activation}
  {outcome outcome' : Outcome (Option Located)} {r back : Option Located}

/-- What is handed back is checked. -/
theorem HandsBack.checkResult (h : HandsBack r back) : f.checkResult r = f.checkPayload back := by
  cases h with
  | nothing => rfl
  | returned => rfl
  | @value v span hsignal =>
    unfold Closure.checkResult
    split
    · next heq =>
      cases heq
      cases hsignal
    · next heq =>
      cases heq
      rw [if_neg (Bool.eq_false_iff.1 hsignal)]
    · next heq => cases heq

/-- What is promised is let through. -/
theorem checkPayload_of_promises (h : f.Promises back) : f.checkPayload back = pure back := by
  cases back with
  | none => exact if_pos h
  | some v => exact if_pos h

/-- What is not promised is refused. -/
theorem checkPayload_of_not_promises (h : ¬ f.Promises back) :
    f.checkPayload back = Eval.fail (.returnMismatch f.declaration.ident.name
      f.declaration.returns (back.map fun v => v.value.kind)) (back.bind Located.position) := by
  cases back with
  | none => exact if_neg h
  | some v => exact if_neg h

/-- A body hands something back or comes to a signal. -/
theorem handsBack_or_stray (r : Option Located) :
    (∃ back, HandsBack r back) ∨
      ∃ v span, r = some ⟨v, span⟩ ∧ v.isSignal = true ∧ v.kind ≠ .returning := by
  cases r with
  | none => exact .inl ⟨_, .nothing⟩
  | some v =>
    obtain ⟨v, span⟩ := v
    cases v with
    | returning payload => exact .inl ⟨_, .returned⟩
    | breaking => exact .inr ⟨_, _, rfl, rfl, Kind.noConfusion⟩
    | continuing => exact .inr ⟨_, _, rfl, rfl, Kind.noConfusion⟩
    | number n => cases n <;> exact .inl ⟨_, .value rfl⟩
    | bool | string | unit | quantity | function | native => exact .inl ⟨_, .value rfl⟩

/-- Whatever the body comes to, the call comes to something. -/
theorem exists_returns (f : Closure) (site : Position) (traceback : List Activation)
    (outcome : Outcome (Option Located)) :
    ∃ outcome', Returns f site traceback outcome outcome' := by
  cases outcome with
  | fault e => exact ⟨_, .fault⟩
  | outOfFuel => exact ⟨_, .outOfFuel⟩
  | ok r =>
    rcases handsBack_or_stray r with ⟨back, hback⟩ | ⟨v, span, rfl, hsignal, hkind⟩
    · by_cases hpromises : f.Promises back
      · exact ⟨_, .result hback hpromises⟩
      · exact ⟨_, .mismatch hback hpromises⟩
    · exact ⟨_, .stray hsignal hkind⟩

/-- What is inside a call (`Closure.inside`) comes to what the rules of `Returns` say of the outcome
of the body. -/
theorem Returns.inside {body : Eval (Option Located)} {args : List Located} {m m' : Machine}
    {context : Context} (henter : m.context.enter f site = .ok context)
    (hbody : body (f.entering args site m) = (outcome, m'))
    (h : f.Returns site m'.context.traceback outcome outcome') :
    inside body f args site { m with context } = (outcome', m') := by
  have hchange : Eval.change
      (fun context => .ok (bindParams f.declaration.params args context)) none { m with context } =
      (.ok (), f.entering args site m) := by
    rw [entering_eq args henter]
    rfl
  have hok {r : Option Located} (hr : outcome = .ok r) :
      (Eval.change (fun context => .ok (bindParams f.declaration.params args context)) none >>=
        fun _ => body >>= f.checkResult) { m with context } = f.checkResult r m' :=
    (Eval.bind_of_ok hchange).trans (Eval.bind_of_ok (hr ▸ hbody))
  cases h with
  | result hback hpromises =>
    refine Eval.traced_located_of_ok ((hok rfl).trans ?_)
    rw [hback.checkResult, checkPayload_of_promises hpromises]
    rfl
  | @mismatch r back hback hpromises =>
    have hr : f.checkResult r m' = Eval.fail (.returnMismatch f.declaration.ident.name
        f.declaration.returns (back.map fun v => v.value.kind))
        (back.bind Located.position) m' := by
      rw [hback.checkResult, checkPayload_of_not_promises hpromises]
    exact Eval.traced_located_of_fault ((hok rfl).trans hr)
  | @stray v span hsignal hkind =>
    have hr : f.checkResult (some ⟨v, span⟩) m' =
        Eval.fail (.straySignal v.kind) (span.map Span.start) m' := by
      cases v with
      | breaking => rfl
      | continuing => rfl
      | returning => exact absurd rfl hkind
      | number n => cases n <;> cases hsignal
      | bool | string | unit | quantity | function | native => cases hsignal
    exact Eval.traced_located_of_fault ((hok rfl).trans hr)
  | fault =>
    exact Eval.traced_located_of_fault ((Eval.bind_of_ok hchange).trans (Eval.bind_of_fault hbody))
  | outOfFuel =>
    have hinner : (body >>= f.checkResult) (f.entering args site m) = (.outOfFuel, m') :=
      Eval.bind_of_outOfFuel hbody
    exact Eval.traced_located_of_outOfFuel ((Eval.bind_of_ok hchange).trans hinner)

end

/-! ## Calls of defined functions -/

/-- How a call of a function ends whose arguments are as many as its parameters: refused for an
argument, refused for its depth, or as its body ends (`Returns`). -/
inductive Runs (fuel : Nat) (f : Closure) (args : List Located) (site : Position) (m : Machine) :
    Outcome (Option Located) → Machine → Prop
  /-- The first argument that does not fit its parameter is refused. -/
  | misfit {before behind : List (Located × Param)} {arg : Located} {param : Param} :
      args.zip f.declaration.params = before ++ (arg, param) :: behind →
      (∀ p ∈ before, p.1.value.fits p.2.type = true) → arg.value.fits param.type = false →
      Runs fuel f args site m (.fault ⟨.argumentMismatch param.ident.name
        f.declaration.ident.name param.type arg.value.kind, arg.position, []⟩) m
  /-- One more call would be too many. -/
  | tooDeep : (∀ p ∈ args.zip f.declaration.params, p.1.value.fits p.2.type = true) →
      m.context.maxDepth ≤ m.context.depth →
      Runs fuel f args site m (.fault ⟨.recursionLimit f.declaration.ident.name
        m.context.maxDepth, some site, []⟩) m
  /-- The body is run in a frame of its own, which is taken off again. -/
  | body : (∀ p ∈ args.zip f.declaration.params, p.1.value.fits p.2.type = true) →
      m.context.depth < m.context.maxDepth →
      f.declaration.body.evaluate fuel (callWithin fuel) (f.entering args site m) =
        (outcome, m') →
      f.Returns site m'.context.traceback outcome outcome' →
      Runs fuel f args site m outcome'
        { m' with context := { m'.context with frames := m.context.frames } }

section
variable {fuel : Nat} {f : Closure} {args : List Located} {site : Position} {m m' : Machine}
  {outcome : Outcome (Option Located)}

/-- The first argument that does not fit is refused. -/
theorem checkArguments_of_misfit {params : List Param} {before behind : List (Located × Param)}
    {arg : Located} {param : Param} (h : args.zip params = before ++ (arg, param) :: behind)
    (hbefore : ∀ p ∈ before, p.1.value.fits p.2.type = true)
    (hmisfit : arg.value.fits param.type = false) :
    f.checkArguments params args = Eval.fail (.argumentMismatch param.ident.name
      f.declaration.ident.name param.type arg.value.kind) arg.position := by
  induction before generalizing params args with
  | nil =>
    cases params with
    | nil => cases args <;> cases h
    | cons param' params =>
      cases args with
      | nil => cases h
      | cons arg' args =>
        cases h
        rw [checkArguments, if_neg (Bool.eq_false_iff.1 hmisfit)]
  | cons p before ih =>
    obtain ⟨hp, hothers⟩ := List.forall_mem_cons.1 hbefore
    cases params with
    | nil => cases args <;> cases h
    | cons param' params =>
      cases args with
      | nil => cases h
      | cons arg' args =>
        rw [List.zip_cons_cons, List.cons_append, List.cons.injEq] at h
        obtain ⟨rfl, h⟩ := h
        rw [checkArguments, if_pos hp]
        exact ih h hothers

/-- Arguments that all fit are let through. -/
theorem checkArguments_of_fits {params : List Param}
    (h : ∀ p ∈ args.zip params, p.1.value.fits p.2.type = true) :
    f.checkArguments params args = pure () := by
  rcases f.checkArguments_cases params args with ⟨-, hcheck⟩ | ⟨⟨p, hp, hmisfit⟩, -⟩
  · exact hcheck
  · cases (h p hp).symm.trans hmisfit

/-- All arguments fit, or there is a first one that does not. -/
theorem fits_or_misfit (pairs : List (Located × Param)) :
    (∀ p ∈ pairs, p.1.value.fits p.2.type = true) ∨
      ∃ before p behind, pairs = before ++ p :: behind ∧
        (∀ p ∈ before, p.1.value.fits p.2.type = true) ∧ p.1.value.fits p.2.type = false := by
  induction pairs with
  | nil => exact .inl (List.forall_mem_nil _)
  | cons p pairs ih =>
    cases hp : p.1.value.fits p.2.type with
    | false => exact .inr ⟨[], p, pairs, rfl, List.forall_mem_nil _, hp⟩
    | true =>
      rcases ih with hall | ⟨before, q, behind, rfl, hbefore, hq⟩
      · exact .inl (List.forall_mem_cons.2 ⟨hp, hall⟩)
      · exact .inr ⟨p :: before, q, behind, rfl, List.forall_mem_cons.2 ⟨hp, hbefore⟩, hq⟩

/-- A call that follows the rules of `Runs` ends as they say, in the same outcome and on the same
machine. -/
theorem Runs.callWithin (h : f.Runs fuel args site m outcome m') :
    callWithin (fuel + 1) f args site m = (outcome, m') := by
  have hbody : (f.declaration.body.evaluate fuel (UnitScript.callWithin fuel)).Obeys .calls :=
    Block.evaluate_obeys (callWithin_obeys fuel) f.declaration.body
  rw [callWithin_succ, call_eq]
  cases h with
  | misfit hzip hbefore hmisfit =>
    rw [checkArguments_of_misfit hzip hbefore hmisfit, Eval.fail_bind]
    rfl
  | tooDeep hfits hdeep =>
    rw [checkArguments_of_fits hfits, pure_bind]
    exact Eval.entered_of_error (Context.enter_eq_error.2 ⟨hdeep, rfl⟩)
  | body hfits hdepth hrun hreturns =>
    rw [checkArguments_of_fits hfits, pure_bind]
    obtain ⟨c, henter⟩ : ∃ c, m.context.enter f site = .ok c :=
      ⟨_, Context.enter_eq_ok.2 ⟨hdepth, rfl⟩⟩
    rw [Eval.entered_of_ok henter ((inside_obeys hbody f args site).steps { m with context := c }),
      hreturns.inside henter hrun]

/-- Every call follows one of the rules of `Runs`, so these describe all of `callWithin`. -/
theorem exists_runs (fuel : Nat) (f : Closure) (args : List Located) (site : Position)
    (m : Machine) : ∃ outcome m', f.Runs fuel args site m outcome m' := by
  rcases fits_or_misfit (args.zip f.declaration.params) with
    hfits | ⟨before, ⟨arg, param⟩, behind, hzip, hbefore, hmisfit⟩
  · by_cases hdepth : m.context.depth < m.context.maxDepth
    · rcases hrun : f.declaration.body.evaluate fuel (UnitScript.callWithin fuel)
        (f.entering args site m) with ⟨outcome, m'⟩
      obtain ⟨outcome', hreturns⟩ := f.exists_returns site m'.context.traceback outcome
      exact ⟨outcome', _, .body hfits hdepth hrun hreturns⟩
    · exact ⟨_, m, .tooDeep hfits (Nat.not_lt.1 hdepth)⟩
  · exact ⟨_, m, .misfit hzip hbefore hmisfit⟩

end

end Closure

/-! ## Call expressions -/

/-- What can be called, as it is bound. -/
def Callable.value : Callable → Value
  | closure f => .function f
  | native f => .native f

/-- Something that can be called (`Callable`) is bound globally under a name. -/
def Context.Provides (c : Context) (name : String) (f : Callable) : Prop :=
  ∃ v, Bindings.get? c.globals name = some v ∧ v.value = f.value

/-- `Context.callee` finds a function exactly if the context provides it (`Context.Provides`) under
that name. -/
theorem Context.callee_eq_ok {c : Context} {name : String} {f : Callable} :
    c.callee name = .ok f ↔ c.Provides name f := by
  unfold callee Provides
  split
  · next h => simp [h]
  · next g span h => cases f <;> simp [h, Callable.value]
  · next g span h => cases f <;> simp [h, Callable.value]
  · next v span hfunction hnative h =>
    cases f with
    | closure f => simpa [h, Callable.value] using hfunction f
    | native f => simpa [h, Callable.value] using hnative f

/-- How a call expression is evaluated. Each rule is for one way in which that may end: there is no
function, an argument has no value, there are too few or too many, or the function is called
(`Closure.Runs`). -/
inductive CallRuns (fuel : Nat) (span : Span) (ident : Ident) (es : List Node) (m : Machine) :
    Outcome (Option Located) → Machine → Prop
  /-- Nothing is bound globally under the name. -/
  | undefined : Bindings.get? m.context.globals ident.name = none →
      CallRuns fuel span ident es m
        (.fault ⟨.undefinedFunction ident.name, some ident.span.start, []⟩) m
  /-- What is bound is no function. -/
  | notCallable {v : Located} : Bindings.get? m.context.globals ident.name = some v →
      (∀ f : Callable, v.value ≠ f.value) →
      CallRuns fuel span ident es m
        (.fault ⟨.notCallable ident.name v.value.kind, some ident.span.start, []⟩) m
  /-- An argument has no value. -/
  | argument {f : Callable} : m.context.Provides ident.name f → Stopped fuel m es stopped m' →
      stopped.EndsLike outcome → CallRuns fuel span ident es m outcome m'
  | tooFew {f : Callable} : m.context.Provides ident.name f → Evaluated fuel m es args m' →
      args.length < f.arity →
      CallRuns fuel span ident es m
        (.fault ⟨.tooFewArguments f.name f.arity args.length, some span.start, []⟩) m'
  | tooMany {f : Callable} : m.context.Provides ident.name f → Evaluated fuel m es args m' →
      f.arity < args.length →
      CallRuns fuel span ident es m
        (.fault ⟨.tooManyArguments f.name f.arity args.length, some span.start, []⟩) m'
  /-- A native function prints its arguments. -/
  | native {f : Native} : m.context.Provides ident.name (.native f) →
      Evaluated fuel m es args m' → args.length = f.params.length →
      CallRuns fuel span ident es m (.ok none)
        { m' with printed := m'.printed ++ args.map fun arg => arg.value.text }
  /-- A defined function comes to something, which is given the place of the call. -/
  | value {f : Closure} : m.context.Provides ident.name (.closure f) →
      Evaluated (n + 1) m es args m' → args.length = f.declaration.params.length →
      fuel = n + 1 → f.Runs n args span.start m' (.ok result) m'' →
      CallRuns fuel span ident es m (.ok (result.map fun v => ⟨v.value, some span⟩)) m''
  /-- The call of a defined function has no result. -/
  | failing {f : Closure} : m.context.Provides ident.name (.closure f) →
      Evaluated (n + 1) m es args m' → args.length = f.declaration.params.length →
      fuel = n + 1 → f.Runs n args span.start m' failed m'' → failed.EndsLike outcome →
      CallRuns fuel span ident es m outcome m''
  /-- No call may be run any more. -/
  | exhausted {f : Closure} : m.context.Provides ident.name (.closure f) →
      Evaluated 0 m es args m' → args.length = f.declaration.params.length → fuel = 0 →
      CallRuns fuel span ident es m .outOfFuel m'

section
variable {fuel n : Nat} {span : Span} {ident : Ident} {es : List Node} {m m' m'' : Machine}
  {f : Callable} {args : List Located} {outcome : Outcome (Option Located)}

/-- Where the arguments have come to values (`Evaluated`), as many as the function takes, it is
called next. -/
theorem Node.run_call_of_evaluated (hf : m.context.Provides ident.name f)
    (hargs : Evaluated fuel m es args m') (hlength : args.length = f.arity) :
    Node.run fuel ⟨span, .call ident es⟩ m =
      (do let result ← f.call (callWithin fuel) args span.start
          return result.map fun v => ⟨v.value, some span⟩ : Eval (Option Located)) m' := by
  have harity : checkArity f args span.start = pure () := by
    rw [checkArity, if_neg (hlength ▸ Nat.lt_irrefl _), if_neg (hlength ▸ Nat.lt_irrefl _)]
  rw [run_call_of_callee (Context.callee_eq_ok.2 hf), Eval.bind_of_ok hargs.evaluateArgs, harity,
    pure_bind]

/-- Where `checkArity` finds another number of arguments, the call is refused at the place of the
expression. -/
theorem Node.run_call_of_arity (hf : m.context.Provides ident.name f)
    (hargs : Evaluated fuel m es args m') {cause : Cause}
    (harity : checkArity f args span.start = Eval.fail cause (some span.start)) :
    Node.run fuel ⟨span, .call ident es⟩ m =
      (.fault ((Fault.ofCause cause).at? (some span.start)), m') := by
  rw [run_call_of_callee (Context.callee_eq_ok.2 hf), Eval.bind_of_ok hargs.evaluateArgs, harity,
    Eval.fail_bind]
  rfl

/-- Lines are printed one after the other. -/
theorem Eval.forM_print (args : List Located) (m : Machine) :
    (args.forM fun arg => Eval.print arg.value.text) m =
      (.ok (), { m with printed := m.printed ++ args.map fun arg => arg.value.text }) := by
  induction args generalizing m with
  | nil => simp [List.forM_nil, pure, Eval.pure]
  | cons arg args ih =>
    have hfirst : Eval.print arg.value.text m =
        (.ok (), { m with printed := m.printed.push arg.value.text }) := rfl
    refine (bind_of_ok hfirst).trans ((ih _).trans ?_)
    rw [List.map_cons]
    simp

/-- A call expression that follows one of the rules of `CallRuns` ends as that says. -/
theorem CallRuns.run (h : CallRuns fuel span ident es m outcome m') :
    Node.run fuel ⟨span, .call ident es⟩ m = (outcome, m') := by
  cases h with
  | undefined hnone =>
    have hview : Eval.view (·.callee ident.name) (some ident.span.start) m =
        (.fault ⟨.undefinedFunction ident.name, some ident.span.start, []⟩, m) := by
      rw [Eval.view, Context.callee, hnone]
      rfl
    rw [Node.run, Node.evaluate, Eval.bind_of_fault hview]
  | @notCallable v hv hkind =>
    have hcallee : m.context.callee ident.name =
        .error (.notCallable ident.name v.value.kind) := by
      unfold Context.callee
      rw [hv]
      split
      · next h => cases h
      · next g _ h =>
        cases h
        exact absurd rfl (hkind (.closure g))
      · next g _ h =>
        cases h
        exact absurd rfl (hkind (.native g))
      · next h =>
        cases h
        rfl
    have hview : Eval.view (·.callee ident.name) (some ident.span.start) m =
        (.fault ⟨.notCallable ident.name v.value.kind, some ident.span.start, []⟩, m) := by
      rw [Eval.view, hcallee]
      rfl
    rw [Node.run, Node.evaluate, Eval.bind_of_fault hview]
  | argument hf hstopped hends =>
    rw [Node.run_call_of_callee (Context.callee_eq_ok.2 hf)]
    exact Eval.bind_of_endsLike hstopped.evaluateArgs hends
  | tooFew hf hargs hlt => exact Node.run_call_of_arity hf hargs (if_pos hlt)
  | tooMany hf hargs hgt =>
    have hge := Nat.not_lt.2 (Nat.le_of_lt hgt)
    exact Node.run_call_of_arity hf hargs ((if_neg hge).trans (if_pos hgt))
  | native hf hargs hlength =>
    rw [Node.run_call_of_evaluated hf hargs hlength]
    refine Eval.bind_of_ok (?_ : Callable.call _ _ _ _ _ = (.ok none, _))
    exact Eval.bind_of_ok (Eval.forM_print _ _)
  | value hf hargs hlength hfuel hruns =>
    subst hfuel
    rw [Node.run_call_of_evaluated hf hargs hlength]
    exact Eval.bind_of_ok hruns.callWithin
  | failing hf hargs hlength hfuel hruns hends =>
    subst hfuel
    rw [Node.run_call_of_evaluated hf hargs hlength]
    exact Eval.bind_of_endsLike hruns.callWithin hends
  | exhausted hf hargs hlength hfuel =>
    subst hfuel
    rw [Node.run_call_of_evaluated hf hargs hlength]
    exact Eval.bind_of_outOfFuel rfl

/-- What has no result has none of any type. -/
theorem Outcome.exists_endsLike {α β : Type} (outcome : Outcome α) :
    (∃ a, outcome = .ok a) ∨ ∃ outcome' : Outcome β, outcome.EndsLike outcome' := by
  cases outcome with
  | ok a => exact .inl ⟨a, rfl⟩
  | fault e => exact .inr ⟨_, .fault⟩
  | outOfFuel => exact .inr ⟨_, .outOfFuel⟩

/-- Arguments at which the evaluation stops have no values. -/
theorem Stopped.endsLike {outcome : Outcome (List Located)} (h : Stopped fuel m es outcome m') :
    ∃ outcome' : Outcome (Option Located), outcome.EndsLike outcome' := by
  obtain ⟨-, -, hends⟩ := h
  cases hends with
  | fault => exact ⟨_, .fault⟩
  | outOfFuel => exact ⟨_, .outOfFuel⟩

/-- A call of a defined function with as many arguments as it takes follows one of the rules of
`CallRuns`, by `Closure.exists_runs`. -/
theorem exists_callRuns_of_closure {f : Closure} (hf : m.context.Provides ident.name (.closure f))
    (hargs : Evaluated fuel m es args m') (hlength : args.length = f.declaration.params.length) :
    ∃ outcome m'', CallRuns fuel span ident es m outcome m'' := by
  cases fuel with
  | zero => exact ⟨_, _, .exhausted hf hargs hlength rfl⟩
  | succ n =>
    obtain ⟨outcome, m'', hruns⟩ := f.exists_runs n args span.start m'
    rcases outcome.exists_endsLike with ⟨result, rfl⟩ | ⟨outcome', hends⟩
    · exact ⟨_, m'', .value hf hargs hlength rfl hruns⟩
    · exact ⟨outcome', m'', .failing hf hargs hlength rfl hruns hends⟩

/-- Every call expression follows one of the rules of `CallRuns`, on any machine and with any amount
of fuel. -/
theorem exists_callRuns (fuel : Nat) (span : Span) (ident : Ident) (es : List Node) (m : Machine) :
    ∃ outcome m', CallRuns fuel span ident es m outcome m' := by
  cases hglobal : Bindings.get? m.context.globals ident.name with
  | none => exact ⟨_, m, .undefined hglobal⟩
  | some v =>
    by_cases hcallable : ∃ f : Callable, v.value = f.value
    · obtain ⟨f, hvalue⟩ := hcallable
      have hf : m.context.Provides ident.name f := ⟨v, hglobal, hvalue⟩
      rcases evaluated_or_stopped fuel m es with ⟨args, m', hargs⟩ | ⟨stopped, m', hstopped⟩
      · rcases Nat.lt_trichotomy args.length f.arity with hlt | hlength | hgt
        · exact ⟨_, m', .tooFew hf hargs hlt⟩
        · cases f with
          | closure f => exact exists_callRuns_of_closure hf hargs hlength
          | native f => exact ⟨_, _, .native hf hargs hlength⟩
        · exact ⟨_, m', .tooMany hf hargs hgt⟩
      · obtain ⟨outcome, hends⟩ := hstopped.endsLike
        exact ⟨outcome, m', .argument hf hstopped hends⟩
    · exact ⟨_, m, .notCallable hglobal (not_exists.1 hcallable)⟩

/-- The rules of `CallRuns` tell how every call expression is evaluated, and nothing else. -/
theorem CallRuns.iff_run :
    CallRuns fuel span ident es m outcome m' ↔
      Node.run fuel ⟨span, .call ident es⟩ m = (outcome, m') := by
  refine ⟨CallRuns.run, fun h => ?_⟩
  obtain ⟨outcome', m'', hruns⟩ := exists_callRuns fuel span ident es m
  cases hruns.run.symm.trans h
  exact hruns

end

end UnitScript
