import UnitScript.Proofs.Machine.Fuel

/-!
# The limit on calls

How many calls may be in progress is looked at in one place, where a call is entered. So a machine
that allows more of them differs from one that allows fewer only after a call has been refused: a
step on the one machine is refused for its calls, or it is the same step on the other
(`Eval.Raised`). A refusal is never caught, so a program that ends in any other way, or goes on
forever, does the same under every higher limit (`limit_transparent`).
-/

namespace UnitScript

/-- The same context where so many calls may be in progress (`Context.maxDepth`), with the bindings
and calls it has. -/
def Context.limited (limit : Nat) (context : Context) : Context :=
  { context with maxDepth := limit }

/-- The same machine where so many calls may be in progress (`Context.limited`). -/
def Machine.limited (limit : Nat) (m : Machine) : Machine :=
  { m with context := m.context.limited limit }

/-- The outcome is the fault of a call that was refused because as many as allowed were in progress
(`Cause.recursionLimit`). -/
def Outcome.OverLimit {α : Type} (outcome : Outcome α) : Prop :=
  ∃ e, outcome = .fault e ∧ e.cause.kind = .recursionLimit

/-- Under the low limit the first computation has a call refused (`Outcome.OverLimit`), or under the
high limit the second comes to the same, on the same machine up to the limit, and the result is
good. -/
def Eval.Raised (low high : Nat) {α : Type} (good : α → Prop) (x y : Eval α) : Prop :=
  ∀ m : Machine, (x (m.limited low)).1.OverLimit ∨
    ∃ outcome, ∃ m' : Machine, x (m.limited low) = (outcome, m'.limited low) ∧
      y (m.limited high) = (outcome, m'.limited high) ∧ ∀ a, outcome = .ok a → good a

/-! ## Single steps -/

namespace Context

variable (context : Context) (limit : Nat)

/-- A name is bound in the same way under each limit. -/
theorem bind_limited (name : String) (v : Located) :
    (context.limited limit).bind name v = (context.bind name v).limited limit := by
  obtain ⟨globals, frames, maxDepth⟩ := context
  cases frames <;> rfl

/-- Parameters are bound in the same way under each limit. -/
theorem bindParams_limited (params : List Param) (args : List Located) :
    Closure.bindParams params args (context.limited limit) =
      (Closure.bindParams params args context).limited limit := by
  induction params generalizing args context with
  | nil => rfl
  | cons param params ih =>
    cases args with
    | nil => rfl
    | cons arg args =>
      rw [Closure.bindParams, Closure.bindParams, bind_limited]
      exact ih (context.bind param.ident.name arg) args

/-- A variable is set in the same way under each limit, or refused for the same cause. -/
theorem set_limited (name : String) (type : Option TypeName) (v : Located) :
    (context.limited limit).set name type v = (context.set name type v).map (·.limited limit) := by
  have hlookup : (context.limited limit).lookup? name = context.lookup? name := rfl
  have hcurrent : (context.limited limit).current = context.current := rfl
  cases type with
  | some type =>
    simp only [Context.set, Context.declare, bind_limited]
    split <;> rfl
  | none =>
    simp only [Context.set, Context.assign, hlookup, hcurrent, bind_limited]
    split
    · rfl
    · split
      · split <;> rfl
      · rfl

end Context

namespace Eval.Raised

variable {low high : Nat} {α β : Type} {good : α → Prop} {fine : β → Prop} {x y : Eval α}

/-- A computation that comes to the same under every limit is `Raised`: what it comes to may be read
off without looking at the limit. -/
theorem of_same (h : ∀ m : Machine, ∃ outcome, ∃ m' : Machine,
    (∀ limit, x (m.limited limit) = (outcome, m'.limited limit)) ∧
      ∀ a, outcome = .ok a → good a) : Raised low high good x x := by
  intro m
  obtain ⟨outcome, m', hsame, hgood⟩ := h m
  exact .inr ⟨outcome, m', hsame low, hsame high, hgood⟩

/-- Results that are good in one way may be good in another. -/
theorem mono (h : Raised low high good x y) {weaker : α → Prop} (hle : ∀ a, good a → weaker a) :
    Raised low high weaker x y := by
  intro m
  rcases h m with hover | ⟨outcome, m', hx, hy, hgood⟩
  · exact .inl hover
  · exact .inr ⟨outcome, m', hx, hy, fun a ha => hle a (hgood a ha)⟩

/-- A result. -/
theorem pure {a : α} (h : good a) : Raised low high good (Pure.pure a) (Pure.pure a) :=
  of_same fun m => ⟨.ok a, m, fun _ => rfl, fun _ ha => by cases ha; exact h⟩

/-- A fault. -/
theorem fail (cause : Cause) (position : Option Position) :
    Raised low high good (Eval.fail cause position) (Eval.fail cause position) :=
  of_same fun m => ⟨_, m, fun _ => rfl, nofun⟩

/-- The end of the fuel. -/
theorem outOfFuel : Raised low high good Eval.outOfFuel Eval.outOfFuel :=
  of_same fun m => ⟨.outOfFuel, m, fun _ => rfl, nofun⟩

/-- Whatever does not look at the machine. -/
theorem of_immediate (h : Immediate good x) : Raised low high good x x := by
  cases h with
  | pure ha => exact .pure ha
  | fail _ position => exact .fail _ position

/-- Something that is read off contexts and does not depend on the limit. -/
theorem view {read : Context → Except Cause α} (position : Option Position)
    (h : ∀ (c : Context) limit, read (c.limited limit) = read c)
    (hgood : ∀ c a, read c = .ok a → good a) :
    Raised low high good (Eval.view read position) (Eval.view read position) := by
  refine of_same fun m => ?_
  have hview : ∀ limit, Eval.view read position (m.limited limit) =
      Eval.attempt (read m.context) (fun _ => position) (m.limited limit) := fun limit => by
    rw [Eval.view, Machine.limited, h]
  cases hread : read m.context with
  | ok a =>
    refine ⟨.ok a, m, fun limit => ?_, fun _ ha => by cases ha; exact hgood _ _ hread⟩
    rw [hview, hread]
    rfl
  | error cause =>
    refine ⟨.fault ((Fault.ofCause cause).at? position), m, fun limit => ?_, nofun⟩
    rw [hview, hread]
    rfl

/-- A change of contexts that does not depend on the limit. -/
theorem change {good : Unit → Prop} {step : Context → Except Cause Context}
    (position : Option Position)
    (h : ∀ (c : Context) limit, step (c.limited limit) = (step c).map (·.limited limit))
    (hgood : good ()) :
    Raised low high good (Eval.change step position) (Eval.change step position) := by
  refine of_same fun m => ?_
  cases hstep : step m.context with
  | ok c =>
    refine ⟨.ok (), { m with context := c }, fun limit => ?_, fun _ _ => hgood⟩
    rw [Eval.change, Machine.limited, h, hstep]
    rfl
  | error cause =>
    have hfault : ∀ a, Outcome.fault ((Fault.ofCause cause).at? position) = .ok a → good a := by
      intro a ha
      cases ha
    refine ⟨.fault ((Fault.ofCause cause).at? position), m, fun limit => ?_, hfault⟩
    rw [Eval.change, Machine.limited, h, hstep]
    rfl

/-- A line that is printed. -/
theorem print {good : Unit → Prop} (line : String) (h : good ()) :
    Raised low high good (Eval.print line) (Eval.print line) :=
  of_same fun m => ⟨.ok (), { m with printed := m.printed.push line }, fun _ => rfl, fun _ _ => h⟩

/-! ## Steps put together -/

/-- One computation after another. -/
theorem bind {f g : α → Eval β} (h : Raised low high good x y)
    (hfg : ∀ a, good a → Raised low high fine (f a) (g a)) :
    Raised low high fine (x >>= f) (y >>= g) := by
  intro m
  rcases h m with ⟨e, he, hkind⟩ | ⟨outcome, m', hx, hy, hgood⟩
  · have hx : x (m.limited low) = (.fault e, (x (m.limited low)).2) := Prod.ext he rfl
    rw [bind_of_fault hx]
    exact .inl ⟨e, rfl, hkind⟩
  · cases outcome with
    | ok a =>
      rw [bind_of_ok hx, bind_of_ok hy]
      exact hfg a (hgood a rfl) m'
    | fault e =>
      rw [bind_of_fault hx, bind_of_fault hy]
      exact .inr ⟨_, m', rfl, rfl, nofun⟩
    | outOfFuel =>
      rw [bind_of_outOfFuel hx, bind_of_outOfFuel hy]
      exact .inr ⟨_, m', rfl, rfl, nofun⟩

/-- Faults are given the calls in progress. -/
theorem traced (h : Raised low high good x y) :
    Raised low high good (Eval.traced x) (Eval.traced y) := by
  intro m
  rcases h m with ⟨e, he, hkind⟩ | ⟨outcome, m', hx, hy, hgood⟩
  · have hx : x (m.limited low) = (.fault e, (x (m.limited low)).2) := Prod.ext he rfl
    refine .inl ⟨_, congrArg Prod.fst (traced_eq_fault.2 ⟨e, hx, rfl⟩), hkind⟩
  · unfold Eval.traced
    rw [hx, hy]
    cases outcome with
    | ok a => exact .inr ⟨_, m', rfl, rfl, hgood⟩
    | fault e => exact .inr ⟨_, m', rfl, rfl, nofun⟩
    | outOfFuel => exact .inr ⟨_, m', rfl, rfl, nofun⟩

/-- Faults are given a place. -/
theorem located (position : Position) (h : Raised low high good x y) :
    Raised low high good (Eval.located position x) (Eval.located position y) := by
  intro m
  rcases h m with ⟨e, he, hkind⟩ | ⟨outcome, m', hx, hy, hgood⟩
  · have hx : x (m.limited low) = (.fault e, (x (m.limited low)).2) := Prod.ext he rfl
    refine .inl ⟨_, congrArg Prod.fst (located_eq_fault.2 ⟨e, hx, rfl⟩), hkind⟩
  · unfold Eval.located
    rw [hx, hy]
    cases outcome with
    | ok a => exact .inr ⟨_, m', rfl, rfl, hgood⟩
    | fault e => exact .inr ⟨_, m', rfl, rfl, nofun⟩
    | outOfFuel => exact .inr ⟨_, m', rfl, rfl, nofun⟩

/-- A loop. -/
theorem repeatWhile {condition condition' : Eval Bool} {body body' : Eval (Option α)} {done : α}
    (hcondition : Raised low high (fun _ => True) condition condition')
    (hbody : Raised low high (fun o => ∀ a ∈ o, good a) body body') (hdone : good done)
    (rounds : Nat) :
    Raised low high good (Eval.repeatWhile condition body done rounds)
      (Eval.repeatWhile condition' body' done rounds) := by
  induction rounds with
  | zero => exact .outOfFuel
  | succ rounds ih =>
    unfold Eval.repeatWhile
    refine hcondition.bind fun holds _ => ?_
    cases holds with
    | false => exact .pure hdone
    | true =>
      refine hbody.bind fun result hresult => ?_
      cases result with
      | none => exact ih
      | some a => exact .pure (hresult a rfl)

/-- A call that is entered and left again is `Raised`. It is the one step that looks at the limit:
where the low limit lets it pass, so does the high one. -/
theorem entered (hle : low ≤ high) {x y : Eval (Option Located)}
    {good : Option Located → Prop} (h : Raised low high good x y) (hx : x.Obeys .calls)
    (hy : y.Obeys .calls) (f : Closure) (site : Position) (position : Option Position) :
    Raised low high good
      (Eval.change (·.enter f site) position >>= fun _ => Eval.leaving x)
      (Eval.change (·.enter f site) position >>= fun _ => Eval.leaving y) := by
  intro m
  by_cases hdepth : m.context.depth < low
  · let inside : Context := { m.context with
      frames := ⟨⟨f.declaration.ident.name, site⟩, f.captured⟩ :: m.context.frames }
    let n : Machine := { m with context := inside }
    have henter {limit : Nat} (hlimit : m.context.depth < limit) :
        (m.limited limit).context.enter f site = .ok (n.limited limit).context :=
      Context.enter_eq_ok.2 ⟨hlimit, rfl⟩
    rw [entered_of_ok (henter hdepth) (hx.steps (n.limited low)),
      entered_of_ok (henter (Nat.lt_of_lt_of_le hdepth hle)) (hy.steps (n.limited high))]
    rcases h n with hover | ⟨outcome, m', hxn, hyn, hgood⟩
    · exact .inl hover
    · refine .inr ⟨outcome, { m' with context := { m'.context with frames := m.context.frames } },
        ?_, ?_, hgood⟩
      · exact hxn ▸ rfl
      · exact hyn ▸ rfl
  · have hrefused : (m.limited low).context.enter f site =
        .error (.recursionLimit f.declaration.ident.name low) :=
      Context.enter_eq_error.2 ⟨Nat.le_of_not_lt hdepth, rfl⟩
    rw [entered_of_error hrefused]
    exact .inl ⟨_, rfl, rfl⟩

end Eval.Raised

/-! ## Trees and calls -/

/-- Calls under the high limit are as under the low one, where none is refused. -/
def Caller.Raised (low high : Nat) (run : Caller) : Prop :=
  ∀ f args site, Eval.Raised low high (fun _ => True) (run f args site) (run f args site)

/-- That a higher limit makes no difference (`Eval.Raised`) is a `Judgement` on evaluations: every
step of the evaluator but the entry of a call keeps it. -/
def Judgement.limit {low high : Nat} (rounds : Nat) {run : Caller} (hrun : run.Raised low high) :
    Judgement rounds rounds run run where
  forms _ := True
  values _ _ := True
  functions _ := True
  holds := Eval.Raised low high
  pure := .pure
  bind := .bind
  fail _ _ := .fail _ _
  number _ := trivial
  bool _ := trivial
  string _ := trivial
  unit _ := trivial
  quantity _ := trivial
  unary _ _ := trivial
  binary _ _ _ := trivial
  breaking _ := trivial
  continuing _ := trivial
  returnNothing := trivial
  returning _ := trivial
  handedOn _ := trivial
  read _ _ := .view _ (fun _ _ => rfl) fun _ _ _ => trivial
  callee _ _ := .view _ (fun _ _ => rfl) fun _ _ _ _ _ => trivial
  print line := .print line trivial
  set _ _ _ := .change _ (fun c limit => c.set_limited limit _ _ _) trivial
  declareFunction _ _ := .change _ (fun _ _ => rfl) trivial
  loop _ hcondition hbody hdone := .repeatWhile hcondition hbody hdone rounds
  call site _ _ := (hrun _ _ site).mono fun _ _ _ _ => trivial

section
variable {low high : Nat}

/-- A block is evaluated in the same way under a higher limit, if calls are run so. -/
theorem Block.evaluate_raised (rounds : Nat) {run : Caller} (hrun : run.Raised low high)
    (b : Block) :
    Eval.Raised low high (ComesTo fun _ => True) (b.evaluate rounds run)
      (b.evaluate rounds run) := by
  have hallows : (Judgement.limit rounds hrun).Allows (b.occurrences false) := fun _ _ => trivial
  exact b.evaluate_judged (Judgement.limit rounds hrun) hallows

/-- Calls are run in the same way under a higher limit, or one of them is refused under the low one.
By induction on the fuel. -/
theorem callWithin_raised (hle : low ≤ high) (fuel : Nat) :
    (callWithin fuel).Raised low high := by
  induction fuel with
  | zero => exact fun _ _ _ => .outOfFuel
  | succ fuel ih =>
    intro f args site
    rw [callWithin_succ, Closure.call_eq]
    have hbody := f.declaration.body.evaluate_raised fuel ih
    have hinside : (Closure.inside (f.declaration.body.evaluate fuel (callWithin fuel)) f args
        site).Obeys .calls :=
      Closure.inside_obeys (Block.evaluate_obeys (callWithin_obeys fuel) _) f args site
    refine Eval.Raised.bind (.of_immediate (f.checkArguments_immediate _ args)) fun _ _ => ?_
    refine .entered hle ?_ hinside hinside f site _
    have hparams : Eval.Raised low high (fun _ => True)
        (Eval.change (fun c => .ok (Closure.bindParams f.declaration.params args c)) none)
        (Eval.change (fun c => .ok (Closure.bindParams f.declaration.params args c)) none) :=
      .change _ (fun c limit => congrArg _ (c.bindParams_limited limit _ args)) trivial
    refine .traced (.located site (hparams.bind fun _ _ => ?_))
    exact hbody.bind fun result _ => .of_immediate (f.checkResult_immediate result)

/-- A program has a call refused under the low limit, or it comes to the same under the high one
with the same fuel (`Eval.Raised`). -/
theorem Block.run_raised (hle : low ≤ high) (fuel : Nat) (program : Block) :
    Eval.Raised low high (fun _ => True) (program.run fuel) (program.run fuel) := by
  refine .traced
    ((program.evaluate_raised fuel (callWithin_raised hle fuel)).bind fun result _ => ?_)
  split
  · exact .pure trivial
  · split
    · exact .fail _ _
    · exact .pure trivial
  · exact .pure trivial

end

/-- The program comes to an end on a machine with some fuel (`Block.run`), in this way and with that
machine. -/
def Block.EndsIn (program : Block) (m : Machine) (outcome : Outcome (Option Located))
    (m' : Machine) : Prop :=
  outcome ≠ .outOfFuel ∧ ∃ fuel, program.run fuel m = (outcome, m')

/-- The program never comes to an end on a machine, whatever the fuel: `Block.run` always runs out
of it. -/
def Block.GoesOn (program : Block) (m : Machine) : Prop :=
  ∀ fuel, (program.run fuel m).1 = .outOfFuel

/-- A program that ends (`Block.EndsIn`), but not for a call that is refused, ends under every
higher limit with the same value or the same fault, and with the same machine up to the limit; and
one that never ends (`Block.GoesOn`) does not do so under a higher limit either. -/
theorem limit_transparent (program : Block) (m : Machine) {limit : Nat}
    (hle : m.context.maxDepth ≤ limit) :
    (∀ outcome m', program.EndsIn m outcome m' → ¬ outcome.OverLimit →
      program.EndsIn (m.limited limit) outcome (m'.limited limit)) ∧
    (program.GoesOn m → program.GoesOn (m.limited limit)) := by
  have hraised := fun fuel => program.run_raised hle fuel m
  have hlimited : m.limited m.context.maxDepth = m := rfl
  simp only [hlimited] at hraised
  refine ⟨?_, fun hgoes fuel => ?_⟩
  · rintro outcome m' ⟨hfuel, fuel, hrun⟩ hover
    rcases hraised fuel with h | ⟨_, m'', hlow, hhigh, -⟩
    · rw [hrun] at h
      exact absurd h hover
    · -- The machine that is left has the limit it began with, so it tells what is left otherwise.
      rw [hrun] at hlow
      cases hlow
      exact ⟨hfuel, fuel, hhigh⟩
  · have hgoes := hgoes fuel
    rcases hraised fuel with ⟨e, he, -⟩ | ⟨outcome, m', hlow, hhigh, -⟩
    · rw [he] at hgoes
      cases hgoes
    · rw [hhigh]
      rwa [hlow] at hgoes

/-- The program `function twice(n: int) -> int { return n + n; } print(twice(1)); twice(7);`. -/
def doubling : Block :=
  let twice (arg : Node) : Node := ⟨.origin, .call ⟨"twice", .origin⟩ [arg]⟩
  let n : Node := ⟨.origin, .variable ⟨"n", .origin⟩⟩
  ⟨.origin,
    [⟨.origin, .function ⟨"twice", .origin⟩ [⟨⟨"n", .origin⟩, .int⟩] .int
        ⟨.origin, [⟨.origin, .returnValue ⟨.origin, .binary .add n n⟩⟩]⟩⟩,
      ⟨.origin, .call ⟨"print", .origin⟩ [twice ⟨.origin, .int 1⟩]⟩,
      twice ⟨.origin, .int 7⟩]⟩

/-- Where one call may be in progress `doubling` ends with a value and a line printed, and so it
does where 128 may be. -/
theorem doubling_limit_transparent :
    let left := (doubling.run 2 (.initial 1)).2
    let value : Outcome (Option Located) := .ok (some ⟨.number (.int 14), some .origin⟩)
    doubling.EndsIn (.initial 1) value left ∧ left.printed = #["2"] ∧ 1 ≤ 128 ∧
      doubling.EndsIn ((Machine.initial 1).limited 128) value (left.limited 128) := by
  intro left value
  have hrun : doubling.run 2 (.initial 1) = (value, left) := rfl
  have hfuel : value ≠ .outOfFuel := by
    intro h
    dsimp only [value] at h
    cases h
  have hends : doubling.EndsIn (.initial 1) value left := ⟨hfuel, 2, hrun⟩
  have hover : ¬ value.OverLimit := by
    rintro ⟨e, he, -⟩
    dsimp only [value] at he
    cases he
  have hle : (Machine.initial 1).context.maxDepth ≤ 128 := by decide
  exact ⟨hends, rfl, by decide, (limit_transparent doubling _ hle).1 _ _ hends hover⟩

end UnitScript
