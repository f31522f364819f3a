import UnitScript.Proofs.Calls.History

/-!
# The protocol of calls

`CallProtocol` puts together what holds of every call expression on a machine: which function is
called, what begins inside the expression and when, how it ends, what the frame of the call binds,
and what the call comes to. It holds on all reachable machines (`callProtocol`), where the functions
that can be called are known to have captured what was bound at their definitions.
-/

namespace UnitScript

/-! ## What begins inside a call -/

/-- Inside a call expression its arguments begin, if there is a function to be called
(`Context.Provides`), and behind them the call, if the function is not native and takes as many.
This inverts `Moment.Begins` for calls. -/
theorem Moment.begins_call_iff {fuel : Nat} {span : Span} {ident : Ident} {es : List Node}
    {m : Machine} {b : Moment} :
    Begins ⟨fuel, .node ⟨span, .call ident es⟩, m⟩ b ↔
      (∃ f, m.context.Provides ident.name f) ∧ b = ⟨fuel, .arguments es, m⟩ ∨
      ∃ f args m', m.context.Provides ident.name (.closure f) ∧ Evaluated fuel m es args m' ∧
        args.length = f.declaration.params.length ∧ b = ⟨fuel, .call f args span.start, m'⟩ := by
  refine ⟨fun h => ?_, ?_⟩
  · cases h with
    | arguments hf => exact .inl ⟨⟨_, Context.callee_eq_ok.1 hf⟩, rfl⟩
    | call hf hargs hlength =>
      exact .inr ⟨_, _, _, Context.callee_eq_ok.1 hf, Evaluated.iff_evaluateArgs.2 hargs, hlength,
        rfl⟩
  · rintro (⟨⟨f, hf⟩, rfl⟩ | ⟨f, args, m', hf, hargs, hlength, rfl⟩)
    · exact .arguments (Context.callee_eq_ok.2 hf)
    · exact .call (Context.callee_eq_ok.2 hf) hargs.evaluateArgs hlength

namespace Closure

variable {fuel : Nat} {f : Closure} {args : List Located} {site : Position} {m m' : Machine}

/-- Inside a call the body of the function begins, if all arguments fit and one more call may be in
progress, on the machine `Closure.entering`. -/
theorem begins_body_iff {b : Moment} :
    Moment.Begins ⟨fuel + 1, .call f args site, m⟩ b ↔
      (∀ p ∈ args.zip f.declaration.params, p.1.value.fits p.2.type = true) ∧
        m.context.depth < m.context.maxDepth ∧
        b = ⟨fuel, .block f.declaration.body, f.entering args site m⟩ := by
  refine ⟨fun h => ?_, ?_⟩
  · obtain ⟨n, c, hfuel, hcheck, henter, rfl⟩ := h.of_call
    cases hfuel
    rw [entering_eq args henter]
    exact ⟨fits_of_checkArguments hcheck, (Context.enter_eq_ok.1 henter).1, rfl⟩
  · rintro ⟨hfits, hdepth, rfl⟩
    obtain ⟨c, henter⟩ : ∃ c, m.context.enter f site = .ok c :=
      ⟨_, Context.enter_eq_ok.2 ⟨hdepth, rfl⟩⟩
    rw [entering_eq args henter]
    refine .body ?_ henter
    rw [checkArguments_of_fits hfits]
    rfl

/-- No value is of the type that stands for none. -/
theorem not_fits_void (v : Value) : v.fits .void = false := by
  unfold Value.fits
  cases v.kind <;> rfl

/-- A function that gives back what it declares (`Closure.Promises`) gives back nothing exactly if
it declares that. -/
theorem Promises.eq_none_iff {result : Option Located} (h : f.Promises result) :
    result = none ↔ f.declaration.returns = .void := by
  cases result with
  | none => exact ⟨fun _ => h, fun _ => rfl⟩
  | some v =>
    refine ⟨fun hnone => absurd hnone (Option.some_ne_none v), fun hvoid => ?_⟩
    rw [Promises, hvoid, not_fits_void] at h
    cases h

/-- A call that comes to something (`Closure.Runs`) comes to what the function declares
(`Closure.Promises`). -/
theorem Runs.promises {result : Option Located} (h : f.Runs fuel args site m (.ok result) m') :
    f.Promises result := by
  cases h with
  | body _ _ _ hreturns =>
    cases hreturns with
    | result _ hpromises => exact hpromises

end Closure

/-! ## The protocol as a whole -/

/-- How call expressions are evaluated on a machine. `CallRuns` lists all the ways in which such an
expression may end, and `Moment.Begins` what is evaluated on the way there, in which order and on
which machine. -/
structure CallProtocol (m : Machine) : Prop where
  /-- The function is the one that is bound globally under the name (`Context.Provides`), and
  whatever the calls in progress have bound makes no difference. -/
  callee (name : String) (frames : List Frame) {f : Callable} :
    Context.callee { m.context with frames } name = .ok f ↔ m.context.Provides name f
  /-- Every call expression ends as one of the rules of `CallRuns` says, and as no other. -/
  rules {fuel : Nat} {span : Span} {ident : Ident} {es : List Node}
    {outcome : Outcome (Option Located)} {m' : Machine} :
    Node.run fuel ⟨span, .call ident es⟩ m = (outcome, m') ↔
      CallRuns fuel span ident es m outcome m'
  /-- Arguments begin only if there is a function to be called, and the call only if they have come
  to values (`Evaluated`), as many as it takes. Nothing else begins. -/
  begins {fuel : Nat} {span : Span} {ident : Ident} {es : List Node} {b : Moment} :
    Moment.Begins ⟨fuel, .node ⟨span, .call ident es⟩, m⟩ b ↔
      (∃ f, m.context.Provides ident.name f) ∧ b = ⟨fuel, .arguments es, m⟩ ∨
      ∃ f args m', m.context.Provides ident.name (.closure f) ∧ Evaluated fuel m es args m' ∧
        args.length = f.declaration.params.length ∧ b = ⟨fuel, .call f args span.start, m'⟩
  /-- Arguments are evaluated in the frame of the caller: the calls in progress are the same all the
  time (`Context.SameCalls`). -/
  arguments {fuel : Nat} {es : List Node} {args : List Located} {m' : Machine} :
    Evaluated fuel m es args m' → m.context.SameCalls m'.context
  /-- The body of a function begins only if the arguments fit and one more call may be in progress,
  on the machine of the call (`Closure.entering`). -/
  entered {fuel : Nat} {f : Closure} {args : List Located} {site : Position} {b : Moment} :
    Moment.Begins ⟨fuel + 1, .call f args site, m⟩ b ↔
      (∀ p ∈ args.zip f.declaration.params, p.1.value.fits p.2.type = true) ∧
        m.context.depth < m.context.maxDepth ∧
        b = ⟨fuel, .block f.declaration.body, f.entering args site m⟩
  /-- There it has a new frame, in which a parameter has its argument (`Closure.argument?`), the
  last one of several of one name, and any other name has what the function captured. -/
  frame (f : Closure) (args : List Located) (site : Position) :
    ∃ bindings, f.entering args site m = { m with context := { m.context with
        frames := ⟨⟨f.declaration.ident.name, site⟩, bindings⟩ :: m.context.frames } } ∧
      ∀ name, Bindings.get? bindings name =
        (Closure.argument? f.declaration.params args name).or (Bindings.get? f.captured name)
  /-- What a function has captured is what the innermost call had bound at its definition, which
  came before (`Closure.DefinedBefore`). -/
  captured {name : String} {f : Closure} : m.context.Provides name (.closure f) →
    Closure.DefinedBefore m f
  /-- A call that comes to something comes to a value of the type that the function declares
  (`Value.fits`), or to nothing if and only if it declares none. -/
  results {fuel : Nat} {f : Closure} {args : List Located} {site : Position}
    {result : Option Located} {m' : Machine} : f.Runs fuel args site m (.ok result) m' →
    (∀ v ∈ result, v.value.fits f.declaration.returns = true) ∧
      (result = none ↔ f.declaration.returns = .void)

/-- Calls are made by the protocol (`CallProtocol`) on every machine that programs can reach,
between their statements or in the middle of them (`Machine.Reachable`). -/
theorem callProtocol {m : Machine} (hm : m.Reachable) : CallProtocol m where
  callee _ _ _ := Context.callee_eq_ok
  rules := CallRuns.iff_run.symm
  begins := Moment.begins_call_iff
  arguments h := h.sameCalls
  entered := Closure.begins_body_iff
  frame f args site := ⟨_, rfl, Closure.get?_bound f.declaration.params args f.captured⟩
  captured := by
    rintro name f ⟨v, hv, hvalue⟩
    exact hm.defined.stored ⟨_, Bindings.mem_of_get? hv, hvalue⟩
  results h := by
    refine ⟨fun v hv => ?_, h.promises.eq_none_iff⟩
    cases hv
    exact h.promises

/-- The statements
```
function make(k: int) -> void { function pick(x: int, x: int) -> int { return x; } }
make(3);
```
-/
def picking : Block :=
  let k : Ident := ⟨"k", .origin⟩
  let x : Ident := ⟨"x", .origin⟩
  let make : Ident := ⟨"make", .origin⟩
  let inner : Block := ⟨.origin, [⟨.origin, .returnValue ⟨.origin, .variable x⟩⟩]⟩
  let pick : Node := ⟨.origin, .function ⟨"pick", .origin⟩ [⟨x, .int⟩, ⟨x, .int⟩] .int inner⟩
  ⟨.origin,
    [⟨.origin, .function make [⟨k, .int⟩] .void ⟨.origin, [pick]⟩⟩,
      ⟨.origin, .call make [⟨.origin, .int 3⟩]⟩]⟩

/-- The statements of `picking` leave a function that has captured a number of the call it was
defined in. A call of it gives back the last of two arguments for parameters of one name. -/
theorem picking_callProtocol :
    let m := (picking.run 2 (.initial 1)).2
    let pick : Node := ⟨.origin, .call ⟨"pick", .origin⟩ [⟨.origin, .int 1⟩, ⟨.origin, .int 2⟩]⟩
    (∃ f, m.context.callee "pick" = .ok (.closure f) ∧
        f.captured = [("k", ⟨.number (.int 3), some .origin⟩)]) ∧
      (pick.run 2 m).1 = .ok (some ⟨.number (.int 2), some .origin⟩) ∧ CallProtocol m :=
  ⟨⟨_, rfl, rfl⟩, rfl, callProtocol (Machine.Reachable.initial.run 2 picking)⟩

end UnitScript
