import UnitScript.Proofs.Control.Exits
import UnitScript.Proofs.Control.Proper
import UnitScript.Proofs.Machine.Related

/-!
# Signals act as exits

On regular trees and proper machines, evaluation with signals and evaluation with exits go side by
side. An expression comes to a proper value and to no exit (`Agrees`); a statement comes to a signal
where the other side is left by the exit of the same name (`Signals`), and every place where a
signal is looked at (the next statement of a block, the end of a round, the end of a call) is one
where the exit passes or is caught. The induction follows the tree, with calls on either side that
agree, and then the number of calls inside one another.
-/

namespace UnitScript

/-- Both sides run on one and the same machine, on which everything is proper (`Machine.Proper`). -/
def Link.proper : Link where
  machines m n := m = n ∧ m.Proper
  faults := (· = ·)
  refl _ := rfl
  placed position h := by rw [h]

/-- A result is proper (`Value.Proper`) if there is one, so it is no signal and statements go on
behind it (`interrupts`). -/
def Settled (result : Option Located) : Prop := ∀ v ∈ result, v.value.Proper

/-- No result is settled: there is no value to be a signal. -/
theorem Settled.nothing : Settled none := by
  intro v hv
  cases hv

/-- A proper result (`Value.Proper`) is settled. -/
theorem Settled.proper {v : Located} (h : v.value.Proper) : Settled (some v) := by
  intro w hw
  cases hw
  exact h

/-- The other side comes to the same result, of which something holds, and to no `Exit`. -/
def Stays {α : Type} (good : α → Prop) (a : α) (b : Except Exit α) : Prop :=
  b = .ok a ∧ good a

/-- From the same proper machine both sides come to the same, and to no exit. This is `Eval.Related`
for `Stays`, and what expressions do. -/
def Agrees {α : Type} (good : α → Prop) (x : Eval α) (y : Leaving α) : Prop :=
  Eval.Related .proper (Stays good) x y.run

/-! ## Computations that no exit leaves -/

namespace Agrees

variable {α β : Type} {good : α → Prop} {better : β → Prop}

/-- A result without any effect stays (`Stays`) on the other side. -/
theorem pure {a : α} (h : good a) : Agrees good (Pure.pure a) (Pure.pure a) :=
  Eval.Related.pure ⟨rfl, h⟩

/-- Computations without exits agree as such, if their results are equal and good
(`Leaving.plain`). -/
theorem plain {x y : Eval α} (h : Eval.Related .proper (fun a b => a = b ∧ good a) x y) :
    Agrees good x (.plain y) := by
  have hmap : Eval.Related .proper (Stays good) (id <$> x) (Except.ok <$> y) := by
    refine h.map fun a b hab => ?_
    obtain ⟨rfl, ha⟩ := hab
    exact ⟨rfl, ha⟩
  rwa [id_map] at hmap

/-- Where the first side stays (`Stays`), both go on with the same result. -/
theorem related_bind {γ : Type} {results : β → Except Exit γ → Prop} {x : Eval α} {y : Leaving α}
    {f : α → Eval β} {g : α → Leaving γ} (h : Agrees good x y)
    (hfg : ∀ a, good a → Eval.Related .proper results (f a) (g a).run) :
    Eval.Related .proper results (x >>= f) (y >>= g).run := by
  rw [ExceptT.run_bind]
  refine Eval.Related.bind h fun a s hs => ?_
  obtain ⟨rfl, ha⟩ := hs
  exact hfg a ha

/-- Both sides go on with the same result, by `Agrees.related_bind`. -/
theorem bind {x : Eval α} {y : Leaving α} {f : α → Eval β} {g : α → Leaving β}
    (h : Agrees good x y) (hfg : ∀ a, good a → Agrees better (f a) (g a)) :
    Agrees better (x >>= f) (y >>= g) :=
  related_bind h hfg

end Agrees

/-! ## Steps that touch the machine -/

/-- A change of the context (`Eval.change`) that leaves it proper is the same on both sides. -/
theorem change_related {step : Context → Except Cause Context} (position : Option Position)
    (h : ∀ context context', context.Proper → step context = .ok context' → context'.Proper) :
    Eval.Related .proper (fun _ _ => True) (Eval.change step position)
      (Eval.change step position) := by
  refine .change position fun m n hmn => ?_
  obtain ⟨rfl, hm⟩ := hmn
  cases hstep : step m.context with
  | ok context => exact .inl ⟨context, context, rfl, rfl, rfl, h _ _ hm hstep⟩
  | error cause => exact .inr ⟨cause, rfl, rfl⟩

/-- A line is printed on both sides, and what is bound stays as it is. -/
theorem print_related (line : String) :
    Eval.Related .proper (fun _ _ => True) (Eval.print line) (Eval.print line) := by
  rintro m n ⟨rfl, hm⟩
  exact ⟨.ok trivial, rfl, hm⟩

namespace Agrees

/-- Whatever does not look at the machine (`Eval.Immediate`) stays (`Stays`) on the other side. -/
theorem of_immediate {α : Type} {good : α → Prop} {x : Eval α} (h : x.Immediate good) :
    Agrees good x (.plain x) :=
  .plain (.of_immediate h)

/-- A fault (`Eval.fail`) is no exit: it is the same fault on both sides. -/
theorem fail {α : Type} {good : α → Prop} (cause : Cause) (position : Option Position) :
    Agrees good (Eval.fail cause position) (.plain (Eval.fail cause position)) :=
  .plain (.fail cause position)

/-- Something that is read off the context by `Eval.view` is good on proper machines. -/
theorem view {α : Type} {good : α → Prop} {read : Context → Except Cause α}
    (position : Option Position)
    (h : ∀ context a, context.Proper → read context = .ok a → good a) :
    Agrees good (Eval.view read position) (.plain (Eval.view read position)) := by
  refine .plain (.view position fun m n hmn => ?_)
  obtain ⟨rfl, hm⟩ := hmn
  cases hread : read m.context with
  | ok a => exact .inl ⟨a, a, rfl, rfl, rfl, h _ a hm hread⟩
  | error cause => exact .inr ⟨cause, rfl, rfl⟩

/-- A change of the context that leaves it proper (`Agrees.change_related`), as a computation
without exits. -/
theorem change {step : Context → Except Cause Context} (position : Option Position)
    (h : ∀ context context', context.Proper → step context = .ok context' → context'.Proper) :
    Agrees (fun _ => True) (Eval.change step position) (.plain (Eval.change step position)) :=
  .plain ((change_related position h).mono fun _ _ _ => ⟨rfl, trivial⟩)

variable {x : Eval (Option Located)} {y : Leaving (Option Located)}

/-- A value that is needed: what is refused by `Node.demand` is refused by `Node.require`. -/
theorem demand (node : Node) (h : Agrees Settled x y) :
    Agrees (fun v => v.value.Proper) (node.demand x) (node.require y) := by
  refine h.bind fun result hresult => ?_
  cases result with
  | none => exact .fail _ _
  | some v => exact .pure (hresult v rfl)

/-- A condition, by `Node.holds` on one side and `Node.applies` on the other. -/
theorem holds (node : Node) (h : Agrees Settled x y) :
    Agrees (fun _ => True) (node.holds x) (node.applies y) :=
  (h.demand node).bind fun v _ => .of_immediate v.truth_immediate

/-- A value at the place of a node (`UnitScript.producing`, `Leaving.producing`). -/
theorem producing (span : Span) {x : Eval Value} {y : Leaving Value}
    (h : Agrees Value.Proper x y) :
    Agrees Settled (UnitScript.producing span x) (Leaving.producing span y) := by
  exact h.bind fun v hv => .pure (.proper hv)

end Agrees

/-! ## Calls, given how functions are run -/

/-- Two ways to run functions agree if calls of proper functions with proper arguments come to the
same on both sides. -/
def Caller.Agree (run run' : Caller) : Prop :=
  ∀ ⦃f : Closure⦄ ⦃args : List Located⦄ (site : Position), (Value.function f).Proper →
    (∀ arg ∈ args, arg.value.Proper) →
    Eval.Related .proper (fun r s => r = s ∧ Settled r) (run f args site) (run' f args site)

/-- What can be called is proper: a function as a value (`Value.Proper`), and any native. -/
def Callable.Proper : Callable → Prop
  | .closure f => (Value.function f).Proper
  | .native _ => True

/-- Lines are printed one after the other (`Native`), the same ones on both sides. -/
theorem prints_related (args : List Located) :
    Eval.Related .proper (fun _ _ => True) (args.forM fun arg => Eval.print arg.value.text)
      (args.forM fun arg => Eval.print arg.value.text) := by
  induction args with
  | nil => exact .pure trivial
  | cons arg args ih => exact (print_related _).bind fun _ _ _ => ih

/-- A function is called (`Callable.call`) on both sides, with related results if the callers
agree. -/
theorem Callable.call_related {run run' : Caller} (hrun : run.Agree run') {f : Callable}
    (hf : f.Proper) {args : List Located} (hargs : ∀ arg ∈ args, arg.value.Proper)
    (site : Position) :
    Eval.Related .proper (fun r s => r = s ∧ Settled r) (f.call run args site)
      (f.call run' args site) := by
  cases f with
  | closure f => exact hrun site hf hargs
  | native f => exact (prints_related args).bind fun _ _ _ => .pure ⟨rfl, .nothing⟩

/-! ## Signals and exits -/

/-- A signal on one side is the `Exit` with its place on the other; any other result is the same on
both. This relates the two results of a statement. -/
inductive Signals : Option Located → Except Exit (Option Located) → Prop
  | value {r : Option Located} : Settled r → Signals r (.ok r)
  | breaking {site : Span} : Signals (some ⟨.breaking, some site⟩) (.error (.breaking site))
  | continuing {site : Span} : Signals (some ⟨.continuing, some site⟩) (.error (.continuing site))
  | returning {payload : Option Located} {span : Option Span} : Settled payload →
      Signals (some ⟨.returning payload, span⟩) (.error (.returning payload))

/-- A proper result lets statements go on (`UnitScript.interrupts`). -/
theorem Settled.interrupts {r : Option Located} (h : Settled r) : interrupts r = false := by
  cases r with
  | none => rfl
  | some v => exact (h v rfl).isSignal

/-- After a round that came to a proper result the next one follows (`UnitScript.afterRound`). -/
theorem Settled.afterRound {r : Option Located} (h : Settled r) : afterRound r = none := by
  cases r with
  | none => rfl
  | some v =>
    obtain ⟨v, span⟩ := v
    cases h _ rfl with
    | number | bool | string | unit | quantity | function | native => rfl

/-- What agrees (`Agrees`) as an expression is related by `Signals` as a statement. -/
theorem Agrees.signals {x : Eval (Option Located)} {y : Leaving (Option Located)}
    (h : Agrees Settled x y) : Eval.Related .proper Signals x y.run := by
  refine h.mono fun r s hrs => ?_
  obtain ⟨rfl, hr⟩ := hrs
  exact .value hr

/-- An exit on one side, a signal on the other (`Signals`). -/
theorem throw_related {r : Option Located} {exit : Exit} (h : Signals r (.error exit)) :
    Eval.Related .proper Signals (pure r) (throw exit : Leaving (Option Located)).run :=
  .pure h

/-- How a round of a loop ends: what `afterRound` makes of the body's result on one side, and how
the body is left on the other. -/
inductive Rounds : Option (Option Located) → Except Exit Unit → Prop
  | again : Rounds none (.ok ())
  | broken {site : Span} : Rounds (some none) (.error (.breaking site))
  | returned {payload : Option Located} {span : Option Span} : Settled payload →
      Rounds (some (some ⟨.returning payload, span⟩)) (.error (.returning payload))

/-- After a round, what its body came to is looked at on one side (`afterRound`), and `continue` is
caught on the other. -/
theorem round_related {x : Eval (Option Located)} {y : Leaving (Option Located)}
    (h : Eval.Related .proper Signals x y.run) :
    Eval.Related .proper Rounds (afterRound <$> x)
      (tryCatch (do let _ ← y) fun
        | .continuing _ => return ()
        | exit => throw exit : Leaving Unit).run := by
  rw [ExceptT.run_tryCatch, ExceptT.run_bind, bind_assoc, ← bind_pure_comp]
  refine h.bind fun r s hrs => ?_
  cases hrs with
  | value hr =>
    rw [hr.afterRound]
    exact .pure .again
  | breaking => exact .pure .broken
  | continuing => exact .pure .again
  | returning hpayload => exact .pure (.returned hpayload)

/-- How a loop ends before its `break` is caught: it is done, it is broken, or a `return` leaves
it. -/
inductive Looped : Option Located → Except Exit Unit → Prop
  | done : Looped none (.ok ())
  | broken {site : Span} : Looped none (.error (.breaking site))
  | returned {payload : Option Located} {span : Option Span} : Settled payload →
      Looped (some ⟨.returning payload, span⟩) (.error (.returning payload))

/-- The rounds of a loop (`Eval.repeatWhile`, `Leaving.rounds`), by induction on how many are
left. -/
theorem rounds_related {condition : Eval Bool} {condition' : Leaving Bool}
    {x : Eval (Option Located)} {y : Leaving (Option Located)}
    (hcondition : Agrees (fun _ => True) condition condition')
    (hbody : Eval.Related .proper Signals x y.run) (rounds : Nat) :
    Eval.Related .proper Looped (Eval.repeatWhile condition (afterRound <$> x) none rounds)
      (Leaving.rounds condition' y rounds).run := by
  induction rounds with
  | zero =>
    rintro m n ⟨rfl, hm⟩
    exact ⟨.outOfFuel, rfl, hm⟩
  | succ rounds ih =>
    unfold Eval.repeatWhile Leaving.rounds
    refine hcondition.related_bind fun b _ => ?_
    cases b with
    | false => exact .pure .done
    | true =>
      refine (round_related hbody).bind fun r s hrs => ?_
      cases hrs with
      | again => exact ih
      | broken => exact .pure .broken
      | returned hpayload => exact .pure (.returned hpayload)

/-- A loop. Signals that end a round are what is caught around `Leaving.rounds`, so `Looped` becomes
`Signals`. -/
theorem loop_related {condition : Eval Bool} {condition' : Leaving Bool}
    {x : Eval (Option Located)} {y : Leaving (Option Located)}
    (hcondition : Agrees (fun _ => True) condition condition')
    (hbody : Eval.Related .proper Signals x y.run) (rounds : Nat) :
    Eval.Related .proper Signals (Eval.repeatWhile condition (afterRound <$> x) none rounds)
      (Leaving.loop condition' y rounds).run := by
  have hrounds := rounds_related hcondition hbody rounds
  unfold Leaving.loop
  rw [ExceptT.run_bind, ExceptT.run_tryCatch, bind_assoc, ← bind_pure (Eval.repeatWhile _ _ _ _)]
  refine hrounds.bind fun r s hrs => ?_
  cases hrs with
  | done => exact .pure (.value .nothing)
  | broken => exact .pure (.value .nothing)
  | returned hpayload => exact .pure (.returning hpayload)

/-! ## Trees -/

/-- What the two sides make of a part of a tree: expressions and arguments agree without exits
(`Agrees`), statements are related by `Signals`. -/
def Part.Agrees (rounds : Nat) (run run' : Caller) : Part → Prop
  | .expression e => UnitScript.Agrees Settled (e.evaluate rounds run) (e.perform rounds run')
  | .arguments es =>
    UnitScript.Agrees (fun args => ∀ arg ∈ args, arg.value.Proper)
      (Node.evaluateArgs rounds run es) (Node.performArgs rounds run' es)
  | .statement e =>
    Eval.Related .proper Signals (e.evaluate rounds run) (e.perform rounds run').run
  | .items es => ∀ last, Settled last →
    Eval.Related .proper Signals (Node.evaluateItems rounds run last es)
      (Node.performItems rounds run' last es).run
  | .block b => Eval.Related .proper Signals (b.evaluate rounds run) (b.perform rounds run').run
  | .alternatives a =>
    Eval.Related .proper Signals (a.evaluate rounds run) (a.perform rounds run').run

section
variable {rounds : Nat} {run run' : Caller}

/-- A call agrees (`Part.Agrees`) if its arguments do, and if the callers agree. -/
theorem call_agrees (hrun : run.Agree run') {span : Span} {ident : Ident} {es : List Node}
    (hes : (Part.arguments es).Agrees rounds run run') :
    (Part.expression ⟨span, .call ident es⟩).Agrees rounds run run' := by
  have hcallee : UnitScript.Agrees Callable.Proper
      (Eval.view (·.callee ident.name) (some ident.span.start))
      (.plain (Eval.view (·.callee ident.name) (some ident.span.start))) := by
    refine .view _ fun context f hcontext hf => ?_
    cases f with
    | closure f => exact hcontext.callee hf
    | native f => trivial
  simp only [Part.Agrees, Node.evaluate, Node.perform]
  refine hcallee.bind fun f hf => hes.bind fun args hargs => ?_
  refine Agrees.bind (.of_immediate (checkArity_immediate f args span.start)) fun _ _ => ?_
  refine (Agrees.plain (Callable.call_related hrun hf hargs span.start)).bind fun result hr => ?_
  refine .pure fun v hv => ?_
  obtain ⟨w, hw, rfl⟩ := Option.map_eq_some_iff.1 hv
  exact hr w hw

/-- Statements in a row agree if the first and the others do: where the first is left by an exit,
its signal `interrupts` the others. -/
theorem items_related {e : Node} {es : List Node}
    (he : (Part.statement e).Agrees rounds run run')
    (hes : (Part.items es).Agrees rounds run run') :
    (Part.items (e :: es)).Agrees rounds run run' := by
  intro last _
  simp only [Node.evaluateItems, Node.performItems]
  rw [ExceptT.run_bind]
  refine he.bind fun r s hrs => ?_
  cases hrs with
  | value hr =>
    rw [hr.interrupts]
    exact hes r hr
  | breaking => exact .pure .breaking
  | continuing => exact .pure .continuing
  | returning hpayload => exact .pure (.returning hpayload)

/-- Every part of a regular tree agrees (`Part.Agrees`) if calls do, by induction on `Regular`. -/
theorem Regular.agrees (hrun : run.Agree run') {p : Part} (h : Regular p) :
    p.Agrees rounds run run' := by
  induction h with
  | int | double => exact .producing _ (.pure .number)
  | string => exact .producing _ (.pure .string)
  | bool => exact .producing _ (.pure .bool)
  | unit =>
    refine .producing _ (Agrees.bind (.of_immediate (.of_refuses _ ?_)) fun _ _ => .pure .unit)
    exact Units.ofFactors_refuses ..
  | phys _ _ ihm ihu =>
    simp only [Part.Agrees, Node.evaluate, Node.perform] at ihm ihu ⊢
    refine .producing _ ((ihm.demand _).bind fun m _ => ?_)
    refine Agrees.bind (.of_immediate m.magnitude_immediate) fun n _ => ?_
    refine (ihu.demand _).bind fun u _ => ?_
    exact Agrees.bind (.of_immediate u.units_immediate) fun units _ => .pure .quantity
  | unary _ ih =>
    simp only [Part.Agrees, Node.evaluate, Node.perform] at ih ⊢
    refine .producing _ ((ih.demand _).bind fun v _ => .of_immediate ?_)
    exact (Eval.Immediate.of_refuses _ (Value.unary_refuses ..)).mono fun _ => .of_unary
  | binary _ _ ihl ihr =>
    simp only [Part.Agrees, Node.evaluate, Node.perform] at ihl ihr ⊢
    refine .producing _ ((ihl.demand _).bind fun l _ => (ihr.demand _).bind fun r _ => ?_)
    refine .of_immediate (Eval.Immediate.mono (.of_refuses _ ?_) fun _ => .of_binary)
    exact Value.binary_refuses ..
  | name =>
    simp only [Part.Agrees, Node.evaluate, Node.perform]
    refine .producing _ (Agrees.bind (.view _ fun context v hcontext hv => ?_) fun v hv => .pure hv)
    exact hcontext.read hv
  | assign _ ih =>
    simp only [Part.Agrees, Node.evaluate, Node.perform] at ih ⊢
    refine (ih.demand _).bind fun v hv => ?_
    refine Agrees.bind (.change _ fun context context' hcontext hset => ?_) fun _ _ =>
      .pure .nothing
    exact hcontext.set hv hset
  | call _ ih => exact call_agrees hrun ih
  | noArguments =>
    simp only [Part.Agrees, Node.evaluateArgs, Node.performArgs]
    exact .pure (List.forall_mem_nil _)
  | moreArguments _ _ ih ihs =>
    simp only [Part.Agrees, Node.evaluateArgs, Node.performArgs] at ih ihs ⊢
    refine (ih.demand _).bind fun first hfirst => ihs.bind fun others hothers => .pure ?_
    intro arg harg
    rcases List.mem_cons.1 harg with rfl | harg
    · exact hfirst
    · exact hothers arg harg
  | evaluated _ ih => exact ih.signals
  | ifElse _ ih =>
    simp only [Part.Agrees, Node.evaluate, Node.perform] at ih ⊢
    exact ih
  | whileLoop _ _ ihc ihb =>
    simp only [Part.Agrees, Node.evaluate, Node.perform] at ihc ihb ⊢
    exact loop_related (ihc.holds _) ihb rounds
  | function hbody _ =>
    simp only [Part.Agrees, Node.evaluate, Node.perform]
    refine Agrees.signals (Agrees.bind (.change _ fun context context' hcontext hset => ?_)
      fun _ _ => .pure .nothing)
    cases hset
    exact hcontext.declareFunction hbody
  | returnNothing => exact throw_related (.returning .nothing)
  | returnValue _ ih =>
    simp only [Part.Agrees, Node.evaluate, Node.perform] at ih ⊢
    unfold producing
    rw [bind_assoc]
    refine (ih.demand _).related_bind fun v hv => throw_related (.returning (.proper hv))
  | breakLoop => exact throw_related .breaking
  | continueLoop => exact throw_related .continuing
  | nested _ ih =>
    simp only [Part.Agrees, Node.evaluate, Node.perform] at ih ⊢
    exact ih
  | noItems =>
    intro last hlast
    exact .pure (.value hlast)
  | moreItems _ _ ih ihs => exact items_related ih ihs
  | block _ ih =>
    simp only [Part.Agrees, Block.evaluate, Block.perform]
    exact ih Option.none .nothing
  | none =>
    simp only [Part.Agrees, Alternatives.evaluate, Alternatives.perform]
    exact .pure (.value .nothing)
  | otherwise _ ih =>
    simp only [Part.Agrees, Alternatives.evaluate, Alternatives.perform] at ih ⊢
    exact ih
  | case _ _ _ ihc ihb iho =>
    simp only [Part.Agrees, Alternatives.evaluate, Alternatives.perform] at ihc ihb iho ⊢
    refine (ihc.holds _).related_bind fun b _ => ?_
    cases b with
    | false => exact iho
    | true => exact ihb

end

/-! ## Calls and programs -/

/-- A call or a program ends in the same way on both sides: what it comes to by its end or by
`return` is given back, and other signals are refused like the exits (`Leaving.caught`). -/
theorem caught_related {α : Type} {results : α → α → Prop} {x : Eval (Option Located)}
    {y : Leaving (Option Located)} {close : Option Located → Eval α}
    {give : Option Located → Eval α} (h : Eval.Related .proper Signals x y.run)
    (hvalue : ∀ r, Settled r → Eval.Related .proper results (close r) (give r))
    (hreturn : ∀ payload span, Settled payload →
      Eval.Related .proper results (close (some ⟨.returning payload, span⟩)) (give payload))
    (hbreak : ∀ span, close (some ⟨.breaking, span⟩) =
      Eval.fail (.straySignal .breaking) (span.map Span.start))
    (hcontinue : ∀ span, close (some ⟨.continuing, span⟩) =
      Eval.fail (.straySignal .continuing) (span.map Span.start)) :
    Eval.Related .proper results (x >>= close) (y.caught >>= give) := by
  unfold Leaving.caught
  rw [bind_assoc]
  refine h.bind fun r s hrs => ?_
  cases hrs with
  | value hr => exact hvalue _ hr
  | breaking =>
    rw [hbreak]
    exact .fail _ _
  | continuing =>
    rw [hcontinue]
    exact .fail _ _
  | returning hpayload => exact hreturn _ _ hpayload

/-- The end of a call (`Eval.leaving`) is the same on both sides, and leaves proper machines. -/
theorem leaving_related {α : Type} {results : α → α → Prop} {x y : Eval α}
    (h : Eval.Related .proper results x y) :
    Eval.Related .proper results (Eval.leaving x) (Eval.leaving y) := by
  intro m n hmn
  obtain ⟨houtcome, hmachines⟩ := h hmn
  obtain ⟨hsame, hproper⟩ := hmachines
  simp only [Eval.leaving, ← hsame]
  split
  · next context hleave => exact ⟨houtcome, rfl, Context.Proper.leave hproper hleave⟩
  · exact ⟨.fault rfl, rfl, hproper⟩

/-- A result that is no signal is what the function gives back, so `Closure.checkResult` asks no
more than `Closure.checkPayload`. -/
theorem Settled.checkResult {f : Closure} {r : Option Located} (h : Settled r) :
    f.checkResult r = f.checkPayload r := by
  cases r with
  | none => rfl
  | some v =>
    obtain ⟨v, span⟩ := v
    cases h _ rfl with
    | @number n => cases n <;> rfl
    | bool | string | unit | quantity | function | native => rfl

/-- Calls agree if the bodies of functions are related by `Signals`. Arguments are bound on proper
machines again (`Context.Proper.bindParams`). -/
theorem Closure.call_related {body : Eval (Option Located)} {body' : Leaving (Option Located)}
    (hbody : Eval.Related .proper Signals body body'.run) {f : Closure}
    (hf : (Value.function f).Proper) {args : List Located}
    (hargs : ∀ arg ∈ args, arg.value.Proper) (site : Position) :
    Eval.Related .proper (fun r s => r = s ∧ Settled r) (Closure.call body f args site)
      (Closure.enact body' f args site) := by
  refine Eval.Related.bind (.of_immediate (f.checkArguments_immediate _ args)) fun _ _ _ => ?_
  refine (change_related _ fun _ _ hcontext henter => hcontext.enter hf henter).bind
    fun _ _ _ => leaving_related (.traced (.located site ?_) ?_)
  · refine (change_related _ fun _ _ hcontext hbind => ?_).bind fun _ _ _ => ?_
    · cases hbind
      exact hcontext.bindParams hargs
    · refine caught_related hbody (fun r hr => ?_) (fun payload span hpayload => ?_)
        (fun _ => rfl) (fun _ => rfl)
      · rw [hr.checkResult]
        exact .of_immediate (f.checkPayload_immediate hr)
      · exact .of_immediate (f.checkPayload_immediate hpayload)
  · rintro e _ m _ rfl ⟨rfl, -⟩
    rfl

/-- Calls agree, however deep they may be inside one another: `callWithin` and `enactWithin` by
induction on their fuel. -/
theorem callWithin_agree (fuel : Nat) : (callWithin fuel).Agree (enactWithin fuel) := by
  induction fuel with
  | zero => exact fun _ _ _ _ _ => .outOfFuel
  | succ fuel ih =>
    intro f args site hf hargs
    have hregular : Regular (.block f.declaration.body) := by
      cases hf with
      | function hbody _ => exact hbody
    exact Closure.call_related (hregular.agrees ih) hf hargs site

/-- A regular program is run in the same way on both sides (`Block.run`, `Block.enact`). -/
theorem Block.run_related (fuel : Nat) {program : Block} (h : Regular (.block program)) :
    Eval.Related .proper (· = ·) (program.run fuel) (program.enact fuel) := by
  have hbody : Eval.Related .proper Signals (program.evaluate fuel (callWithin fuel))
      (program.perform fuel (enactWithin fuel)).run := h.agrees (callWithin_agree fuel)
  refine .traced ?_ ?_
  · rw [← bind_pure (Leaving.caught _)]
    refine caught_related hbody (fun r hr => ?_) (fun _ _ _ => .pure rfl) (fun _ => rfl)
      (fun _ => rfl)
    cases r with
    | none => exact .pure rfl
    | some v =>
      obtain ⟨v, span⟩ := v
      cases hr _ rfl with
      | @number n => cases n <;> exact .pure rfl
      | bool | string | unit | quantity | function | native => exact .pure rfl
  · rintro e _ m _ rfl ⟨rfl, -⟩
    rfl

/-- Related outcomes are the same if results and faults are related by equality. -/
theorem Outcome.Related.eq {α : Type} {o o' : Outcome α}
    (h : Outcome.Related (· = ·) (· = ·) o o') : o = o' := by
  cases h with
  | ok h => rw [h]
  | fault h => rw [h]
  | outOfFuel => rfl

/-- A machine on which programs have been run one after the other, each read from tokens
(`Block.ofTokens`), however the runs ended. -/
inductive Machine.Reached : Machine → Prop
  | initial (maxDepth : Nat) : Reached (.initial maxDepth)
  | run {m : Machine} {tokens : List Token} {program : Block} (fuel : Nat) : m.Reached →
      Block.ofTokens tokens = .ok program → Reached (program.run fuel m).2

/-- Only proper values are bound by programs that are read from tokens, since these are regular
(`Block.regular_of_ofTokens`). -/
theorem Machine.Reached.proper {m : Machine} (h : m.Reached) : m.Proper := by
  induction h with
  | initial maxDepth => exact .initial maxDepth
  | run fuel _ hprogram ih =>
    have hrun := Block.run_related fuel (Block.regular_of_ofTokens hprogram) ⟨rfl, ih⟩
    exact hrun.2.2

/-- Programs that are read from tokens run as if `break`, `continue` and `return` were exits: on
every machine that such programs have been run on (`Machine.Reached`), and with any fuel,
`Block.run` and `Block.enact` come to the same value or fault, print the same lines and leave the
same bindings. -/
theorem Block.run_eq_enact {m : Machine} (hm : m.Reached) {tokens : List Token} {program : Block}
    (hprogram : Block.ofTokens tokens = .ok program) (fuel : Nat) :
    program.run fuel m = program.enact fuel m := by
  obtain ⟨houtcome, hmachines⟩ :=
    Block.run_related fuel (Block.regular_of_ofTokens hprogram) ⟨rfl, hm.proper⟩
  exact Prod.ext houtcome.eq hmachines.1

/-- The loop `while (true) { break; }`, with all its parts at one place. -/
def brokenLoop : Block :=
  ⟨.origin, [⟨.origin, .whileLoop ⟨.origin, .bool true⟩ ⟨.origin, [⟨.origin, .breakLoop⟩]⟩⟩]⟩

/-- The tokens of that loop, as `Token.ofText` would read them. -/
def brokenLoopTokens : List Token :=
  [.whileWord, .leftParen, .trueWord, .rightParen, .leftBrace, .breakWord, .semicolon,
    .rightBrace, .endOfText].map fun kind => ⟨kind, none, .origin⟩

/-- The loop is run as if its `break` were an exit, with fuel for more rounds than it makes. -/
theorem brokenLoop_run_eq_enact :
    Block.ofTokens brokenLoopTokens = .ok brokenLoop ∧
      brokenLoop.run 2 (.initial 1) = brokenLoop.enact 2 (.initial 1) := by
  have hread : Block.ofTokens brokenLoopTokens = .ok brokenLoop := rfl
  exact ⟨hread, Block.run_eq_enact (.initial 1) hread 2⟩

end UnitScript
