import UnitScript.Proofs.Rewriting.Values

/-!
# Runs of rewritten programs

Where a tree is rewritten inside of functions as well, it comes to the same on corresponding
machines, up to the bodies of functions (`Rewrites.alike`): the same values, signals and faults, the
same printed lines, and contexts that correspond to each other. The induction follows the
rewriting, with calls on either side that do the same, and then the number of calls inside one
another, since a call runs a body that is rewritten in turn. Together with what holds outside of
functions this says that the rewrites preserve the meaning of programs (`rewritesPreserve`).
-/

namespace UnitScript

/-- Computations whose results correspond to each other (`Located.Rewritten?`), begun on machines
that do (`Link.rewriting`). -/
abbrev Eval.Rewritten (x y : Eval (Option Located)) : Prop :=
  Eval.Related .rewriting Located.Rewritten? x y

/-! ## Single steps -/

namespace Eval.Related

variable {α : Type} {results : α → α → Prop}

/-- The same computation, which does not look at the machine. -/
theorem immediate {good : α → Prop} {x y : Eval α} (h : Immediate good x) (hxy : x = y) :
    Related .rewriting (· = ·) x y := by
  subst hxy
  exact (of_immediate h).mono fun _ _ hab => hab.1

/-- Something that is read off corresponding contexts. -/
theorem viewed {read read' : Context → Except Cause α} (position : Option Position)
    (h : ∀ {c d : Context}, c.Rewritten d → Except.Rewritten results (read c) (read' d)) :
    Related .rewriting results (Eval.view read position) (Eval.view read' position) :=
  .view position fun _ _ hmn => (h hmn.context).cases

/-- A change of corresponding contexts. -/
theorem changed {step step' : Context → Except Cause Context} (position : Option Position)
    (h : ∀ {c d : Context}, c.Rewritten d → Except.Rewritten Context.Rewritten (step c) (step' d)) :
    Related .rewriting (fun _ _ => True) (Eval.change step position)
      (Eval.change step' position) := by
  refine .change position fun m n hmn => (h hmn.context).cases.imp ?_ id
  rintro ⟨c, d, hc, hd, hcd⟩
  exact ⟨c, d, hc, hd, hcd, hmn.printed⟩

/-- A computation after which a call is left. -/
theorem leaving {x y : Eval α} (h : Related .rewriting results x y) :
    Related .rewriting results (Eval.leaving x) (Eval.leaving y) := by
  intro m n hmn
  obtain ⟨houtcome, hmachines⟩ := h hmn
  rw [Eval.leaving_eq, Eval.leaving_eq]
  rcases hmachines.context.leave.cases with ⟨c, d, hc, hd, hcd⟩ | ⟨cause, hc, hd⟩
  · rw [hc, hd]
    exact ⟨houtcome, hcd, hmachines.printed⟩
  · rw [hc, hd]
    exact ⟨.fault rfl, hmachines⟩

/-- Something that is refused or not. -/
theorem attempt (result : Except Cause α) (place : Cause → Option Position) :
    Related .rewriting (· = ·) (Eval.attempt result place) (Eval.attempt result place) := by
  unfold Eval.attempt
  cases result with
  | ok a => exact .pure rfl
  | error cause => exact .fail cause _

/-- The same line is printed. -/
theorem print {line line' : String} (h : line = line') :
    Related .rewriting (fun _ _ => True) (Eval.print line) (Eval.print line') := by
  subst h
  exact fun _ _ hmn => ⟨.ok trivial, hmn.context, congrArg (Array.push · line) hmn.printed⟩

end Eval.Related

section
variable {x y : Eval (Option Located)} {e e' : Node}

/-- A value that is needed. -/
theorem Eval.Rewritten.demand (h : Eval.Rewritten x y) (hspan : e.span = e'.span) :
    Eval.Related .rewriting Located.Rewritten (e.demand x) (e'.demand y) := by
  rw [Node.demand_eq_of_span hspan]
  refine Eval.Related.bind h fun r s hrs => ?_
  cases hrs with
  | none => exact .fail _ _
  | some hvw => exact .pure hvw

/-- A condition. -/
theorem Eval.Rewritten.holds (h : Eval.Rewritten x y) (hspan : e.span = e'.span) :
    Eval.Related .rewriting (· = ·) (e.holds x) (e'.holds y) :=
  (h.demand hspan).bind fun v _ hvw => .immediate v.truth_immediate hvw.truth

/-- A value at the place of a node. -/
theorem producing_rewritten (span : Span) {x y : Eval Value}
    (h : Eval.Related .rewriting Value.Rewritten x y) :
    Eval.Rewritten (producing span x) (producing span y) :=
  h.bind fun _ _ hvw => .pure (.some ⟨hvw, rfl⟩)

/-- What a round of a loop says about the next one. -/
theorem afterRound_rewritten {r s : Option Located} (h : Located.Rewritten? r s) :
    Option.Rel Located.Rewritten? (afterRound r) (afterRound s) := by
  cases h with
  | none => exact .none
  | @some v w hvw =>
    obtain ⟨v, span⟩ := v
    obtain ⟨w, span'⟩ := w
    obtain ⟨hvalue, rfl⟩ := hvw
    cases hvalue with
    | function => exact .none
    | returning hpayload => exact .some (.some ⟨.returning hpayload, rfl⟩)
    | same =>
      cases v with
      | breaking => exact .some .none
      | returning payload => exact .some (.some ⟨.same, rfl⟩)
      | _ => exact .none

/-- The number of arguments is checked alike. -/
theorem checkArity_congr {f g : Callable} {args args' : List Located} (hfg : f.Rewritten g)
    (h : args.length = args'.length) (site : Position) :
    checkArity f args site = checkArity g args' site := by
  cases hfg with
  | native => rw [checkArity, checkArity, h]
  | closure hfg =>
    rw [checkArity, checkArity, h, Callable.arity, Callable.arity, Callable.name, Callable.name,
      hfg.params, hfg.ident]

end

/-! ## Trees -/

/-- Two ways to run calls that come to the same up to rewritten bodies (`Closure.Rewritten`). -/
def Caller.Rewritten (run run' : Caller) : Prop :=
  ∀ ⦃f g : Closure⦄ ⦃args args' : List Located⦄ (site : Position), f.Rewritten g →
    List.Forall₂ Located.Rewritten args args' →
    Eval.Rewritten (run f args site) (run' g args' site)

section
variable {rounds : Nat} {run run' : Caller}

/-- Arguments are printed alike. -/
theorem prints_rewritten {args args' : List Located}
    (h : List.Forall₂ Located.Rewritten args args') :
    Eval.Related .rewriting (fun _ _ => True) (args.forM fun arg => Eval.print arg.value.text)
      (args'.forM fun arg => Eval.print arg.value.text) := by
  induction h with
  | nil => exact .pure trivial
  | cons harg _ ih => exact (Eval.Related.print harg.value.text).bind fun _ _ _ => ih

/-- What can be called is called. -/
theorem Callable.call_rewritten (hrun : run.Rewritten run') {f g : Callable} (hfg : f.Rewritten g)
    {args args' : List Located} (hargs : List.Forall₂ Located.Rewritten args args')
    (site : Position) : Eval.Rewritten (f.call run args site) (g.call run' args' site) := by
  cases hfg with
  | closure hfg => exact hrun site hfg hargs
  | native => exact (prints_rewritten hargs).bind fun _ _ _ => .pure .none

/-- Trees come to the same (`Eval.Rewritten`) with two ways to run calls. -/
def Subtree.Alike (rounds : Nat) (run run' : Caller) : Subtree → Subtree → Prop
  | .node e, .node e' =>
    Eval.Rewritten (e.evaluate rounds run) (e'.evaluate rounds run') ∧ e.span = e'.span
  | .arguments es, .arguments es' =>
    Eval.Related .rewriting (List.Forall₂ Located.Rewritten) (Node.evaluateArgs rounds run es)
      (Node.evaluateArgs rounds run' es')
  | .items es, .items es' => ∀ last last', Located.Rewritten? last last' →
    Eval.Rewritten (Node.evaluateItems rounds run last es)
      (Node.evaluateItems rounds run' last' es')
  | .block b, .block b' => Eval.Rewritten (b.evaluate rounds run) (b'.evaluate rounds run')
  | .alternatives a, .alternatives a' =>
    Eval.Rewritten (a.evaluate rounds run) (a'.evaluate rounds run')
  | _, _ => False

/-- Statements in a row come to the same if the first and the others do. -/
theorem items_alike {e e' : Node} {es es' : List Node}
    (he : (Subtree.node e).Alike rounds run run' (.node e'))
    (hes : (Subtree.items es).Alike rounds run run' (.items es')) :
    (Subtree.items (e :: es)).Alike rounds run run' (.items (e' :: es')) := by
  intro last last' _
  rw [Node.evaluateItems, Node.evaluateItems]
  refine Eval.Related.bind he.1 fun r s hrs => ?_
  rw [Located.interrupts_of_rewritten hrs]
  split
  · exact .pure hrs
  · exact hes r s hrs

/-- Forms without other trees come to the same. -/
theorem leaf_alike {form : Form} (hleaf : form.isLeaf = true) (span : Span) :
    (Subtree.node ⟨span, form⟩).Alike rounds run run' (.node ⟨span, form⟩) := by
  refine ⟨?_, rfl⟩
  cases form with
  | int | double | string | bool | returnNothing | breakLoop | continueLoop =>
    simp only [Node.evaluate]
    exact producing_rewritten _ (.pure .same)
  | unit =>
    simp only [Node.evaluate]
    refine producing_rewritten _ ((Eval.Related.attempt _ _).bind ?_)
    rintro units _ rfl
    exact .pure .same
  | «variable» ident =>
    simp only [Node.evaluate]
    refine producing_rewritten _ (Eval.Related.bind (.viewed _ fun hcd => hcd.read _) ?_)
    exact fun v w hvw => .pure hvw.value
  | _ => cases hleaf

/-- Calls come to the same if their arguments do. -/
theorem call_alike (hrun : run.Rewritten run') {es es' : List Node}
    (hes : (Subtree.arguments es).Alike rounds run run' (.arguments es')) (span : Span)
    (ident : Ident) : (Subtree.node ⟨span, .call ident es⟩).Alike rounds run run'
      (.node ⟨span, .call ident es'⟩) := by
  refine ⟨?_, rfl⟩
  rw [Node.evaluate, Node.evaluate]
  refine Eval.Related.bind (.viewed _ fun hcd => hcd.callee _) fun f g hfg => ?_
  refine Eval.Related.bind hes fun args args' hargs => ?_
  rw [checkArity_congr hfg hargs.length_eq]
  refine Eval.Related.bind (.immediate (checkArity_immediate g args' _) rfl) fun _ _ _ => ?_
  refine (Callable.call_rewritten hrun hfg hargs _).bind fun r s hrs => .pure ?_
  cases hrs with
  | none => exact .none
  | some hvw => exact .some ⟨hvw.value, rfl⟩

/-- Alternatives come to the same if their parts do. -/
theorem case_alike {condition condition' : Node} {body body' : Block}
    {others others' : Alternatives}
    (hcondition : (Subtree.node condition).Alike rounds run run' (.node condition'))
    (hbody : (Subtree.block body).Alike rounds run run' (.block body'))
    (hothers : (Subtree.alternatives others).Alike rounds run run' (.alternatives others')) :
    (Subtree.alternatives (.case condition body others)).Alike rounds run run'
      (.alternatives (.case condition' body' others')) := by
  show Eval.Rewritten (Alternatives.evaluate rounds run _) (Alternatives.evaluate rounds run' _)
  rw [Alternatives.evaluate, Alternatives.evaluate]
  refine (hcondition.1.holds hcondition.2).bind ?_
  rintro b _ rfl
  split
  · exact hbody
  · exact hothers

/-- A block comes to the same as other statements in its place. -/
theorem splice_alike {bs bs' cs cs' : List Node} (hne : bs' ≠ [])
    (hbs : (Subtree.items bs).Alike rounds run run' (.items bs'))
    (hcs : (Subtree.items cs).Alike rounds run run' (.items cs')) (span inner : Span) :
    (Subtree.items (⟨span, .block ⟨inner, bs⟩⟩ :: cs)).Alike rounds run run'
      (.items (bs' ++ cs')) := by
  intro last last' _
  rw [Node.evaluateItems_of_ne_nil (List.append_ne_nil_of_left_ne_nil hne cs'),
    Node.evaluateItems_append _ _ rfl, Node.evaluateItems, Node.evaluate, Block.evaluate]
  refine Eval.Related.bind (hbs none none .none) fun r s hrs => ?_
  rw [Located.interrupts_of_rewritten hrs]
  split
  · exact .pure hrs
  · exact hcs r s hrs

/-- What is rewritten (`Rewrites true`) comes to the same if calls do, by induction on how it is
rewritten. -/
theorem Rewrites.alike (hrun : run.Rewritten run') {p q : Subtree} (h : Rewrites true p q) :
    p.Alike rounds run run' q := by
  induction h with
  | leaf hleaf => exact leaf_alike hleaf _
  | phys _ _ ih ih' =>
    refine ⟨?_, rfl⟩
    simp only [Node.evaluate]
    refine producing_rewritten _ ((ih.1.demand ih.2).bind fun v w hvw => ?_)
    refine (Eval.Related.immediate v.magnitude_immediate hvw.magnitude).bind ?_
    rintro magnitude _ rfl
    refine (ih'.1.demand ih'.2).bind fun v w hvw => ?_
    refine (Eval.Related.immediate v.units_immediate hvw.units).bind ?_
    rintro units _ rfl
    exact .pure .same
  | unary _ ih =>
    refine ⟨?_, rfl⟩
    simp only [Node.evaluate]
    refine producing_rewritten _ ((ih.1.demand ih.2).bind fun v w hvw => ?_)
    rw [hvw.value.unary]
    exact (Eval.Related.attempt _ _).mono fun _ _ h => h ▸ .same
  | binary _ _ ih ih' =>
    refine ⟨?_, rfl⟩
    simp only [Node.evaluate]
    refine producing_rewritten _ ((ih.1.demand ih.2).bind fun v v' hv => ?_)
    refine (ih'.1.demand ih'.2).bind fun w w' hw => ?_
    rw [hv.value.binary _ hw.value, hv.operandPosition hw]
    exact (Eval.Related.attempt _ _).mono fun _ _ h => h ▸ .same
  | assign _ ih =>
    refine ⟨?_, rfl⟩
    simp only [Node.evaluate]
    refine (ih.1.demand ih.2).bind fun v w hvw => ?_
    exact Eval.Related.bind (.changed _ fun hcd => hcd.set _ _ hvw) fun _ _ _ => .pure .none
  | ifElse _ ih | nested _ ih =>
    refine ⟨?_, rfl⟩
    rw [Node.evaluate, Node.evaluate]
    exact ih
  | whileLoop _ _ ih ihbody =>
    refine ⟨?_, rfl⟩
    rw [Node.evaluate, Node.evaluate]
    refine .repeatWhile (ih.1.holds ih.2) ?_ .none rounds
    exact Eval.Related.map ihbody fun _ _ => afterRound_rewritten
  | function _ hbody =>
    refine ⟨?_, rfl⟩
    rw [Node.evaluate, Node.evaluate]
    exact Eval.Related.bind (.changed _ fun hcd => .ok (hcd.declareFunction hbody ..))
      fun _ _ _ => .pure .none
  | @sameFunction _ _ _ _ body =>
    refine ⟨?_, rfl⟩
    rw [Node.evaluate]
    exact Eval.Related.bind
      (.changed _ fun hcd => .ok (hcd.declareFunction body.rewrites_self ..))
      fun _ _ _ => .pure .none
  | call _ ih => exact call_alike hrun ih _ _
  | returnValue _ ih =>
    refine ⟨?_, rfl⟩
    simp only [Node.evaluate]
    exact producing_rewritten _ ((ih.1.demand ih.2).bind fun v w hvw => .pure hvw.returning)
  | noArguments => exact .pure .nil
  | moreArguments _ _ ih ihs =>
    show Eval.Related _ _ (Node.evaluateArgs rounds run _) (Node.evaluateArgs rounds run' _)
    rw [Node.evaluateArgs, Node.evaluateArgs]
    refine (ih.1.demand ih.2).bind fun v w hvw => ?_
    exact Eval.Related.bind ihs fun vs ws hvws => .pure (.cons hvw hvws)
  | noItems => exact fun _ _ hlast => .pure hlast
  | moreItems _ _ ih ihs => exact items_alike ih ihs
  | block _ ih => exact ih Option.none Option.none .none
  | none => exact .pure .none
  | otherwise _ ih => exact ih
  | case _ _ _ ih ihbody ihothers => exact case_alike ih ihbody ihothers
  | elseBlock _ _ _ ih ihbody ihothers =>
    refine case_alike ih ihbody ?_
    show Eval.Rewritten _ (Alternatives.evaluate rounds run' _)
    rw [Alternatives.evaluate_elseBlock]
    exact ihothers
  | splice hne hbs _ ih ihs => exact splice_alike (hbs.ne_nil hne) ih ihs _ _

end

/-! ## Calls -/

/-- What the body of a function or program came to is given back alike. -/
theorem Eval.Rewritten.ofBody {give give' : Option Located → Eval (Option Located)}
    (hgive : ∀ r s, Located.Rewritten? r s → Eval.Rewritten (give r) (give' s))
    {r s : Option Located} (h : Located.Rewritten? r s) :
    Eval.Rewritten (Eval.ofBody give r) (Eval.ofBody give' s) := by
  have hother (v w : Located) (hvw : v.Rewritten w) (hkind : v.value.kind ≠ .returning) :
      Eval.Rewritten (Eval.ofBody give (some v)) (Eval.ofBody give' (some w)) := by
    have hkind' : w.value.kind ≠ .returning := by rwa [← hvw.value.kind]
    rw [Eval.ofBody_some hkind, Eval.ofBody_some hkind', Located.refuseStray, Located.refuseStray,
      hvw.value.isSignal, hvw.value.kind, hvw.position]
    split
    · exact .fail _ _
    · exact hgive _ _ (.some hvw)
  cases h with
  | none => exact hgive Option.none Option.none .none
  | @some v w hvw =>
    obtain ⟨v, span⟩ := v
    obtain ⟨w, span'⟩ := w
    obtain ⟨hvalue, rfl⟩ := hvw
    cases hvalue with
    | function hbody hcaptured => exact hother _ _ ⟨.function hbody hcaptured, rfl⟩ Kind.noConfusion
    | returning hpayload => exact hgive _ _ (.some ⟨hpayload, rfl⟩)
    | same =>
      cases v with
      | returning payload =>
        refine hgive payload payload ?_
        cases payload with
        | none => exact .none
        | some payload => exact .some (.refl payload)
      | number n => exact hother _ _ (.refl _) (by cases n <;> exact Kind.noConfusion)
      | _ => exact hother _ _ (.refl _) Kind.noConfusion

/-- Corresponding machines have the same calls in progress. -/
theorem within_rewritten {e f : Fault} {m n : Machine} (h : e = f) (hmn : m.Rewritten n) :
    e.within m.context.traceback = f.within n.context.traceback := by
  rw [h, hmn.context.traceback]

namespace Closure

variable {f g : Closure} {args args' : List Located}

/-- Arguments are refused alike. -/
theorem checkArguments_rewritten (hfg : f.Rewritten g)
    (hargs : List.Forall₂ Located.Rewritten args args') (params : List Param) :
    f.checkArguments params args = g.checkArguments params args' := by
  induction params generalizing args args' with
  | nil => rfl
  | cons param params ih =>
    cases hargs with
    | nil => rfl
    | cons harg hargs =>
      rw [checkArguments, checkArguments, harg.value.fits, harg.value.kind, harg.position,
        hfg.ident, ih hargs]

/-- What a function gives back is refused alike. -/
theorem checkPayload_rewritten (hfg : f.Rewritten g) {r s : Option Located}
    (h : Located.Rewritten? r s) : Eval.Rewritten (f.checkPayload r) (g.checkPayload s) := by
  cases h with
  | none =>
    rw [checkPayload, checkPayload, hfg.returns, hfg.ident]
    split
    · exact .pure .none
    · exact .fail _ _
  | some hvw =>
    simp only [checkPayload, hvw.value.fits, hvw.value.kind, hvw.position, hfg.returns, hfg.ident]
    split
    · exact .pure (.some hvw)
    · exact .fail _ _

/-- A call comes to the same if the body of the function does. -/
theorem call_rewritten {body body' : Eval (Option Located)} (hbody : Eval.Rewritten body body')
    (hfg : f.Rewritten g) (hargs : List.Forall₂ Located.Rewritten args args') (site : Position) :
    Eval.Rewritten (call body f args site) (call body' g args' site) := by
  rw [call_eq, call_eq, hfg.params, checkArguments_rewritten hfg hargs]
  refine Eval.Related.bind (.immediate (g.checkArguments_immediate _ _) rfl) fun _ _ _ => ?_
  refine Eval.Related.bind (.changed _ fun hcd => hcd.enter hfg site) fun _ _ _ => ?_
  refine .leaving (.traced (.located site ?_) within_rewritten)
  rw [hfg.params]
  refine Eval.Related.bind (.changed _ fun hcd => .ok (hcd.bindParams _ hargs)) fun _ _ _ => ?_
  refine Eval.Related.bind hbody fun r s hrs => ?_
  rw [checkResult_eq, checkResult_eq]
  exact Eval.Rewritten.ofBody (fun _ _ => checkPayload_rewritten hfg) hrs

end Closure

/-- Calls of functions whose bodies are rewritten come to the same (`Caller.Rewritten`), however
deep they are, by induction on the fuel. -/
theorem callWithin_rewritten (fuel : Nat) : (callWithin fuel).Rewritten (callWithin fuel) := by
  induction fuel with
  | zero => exact fun _ _ _ _ _ _ _ => .outOfFuel
  | succ fuel ih =>
    intro f g args args' site hfg hargs
    rw [callWithin_succ, callWithin_succ]
    exact Closure.call_rewritten (Rewrites.alike ih hfg.body) hfg hargs site

/-! ## Programs -/

section
variable {P Q : Block}

/-- The run of a program that is rewritten outside of functions (`Rewrites false`) is the run of the
program. -/
theorem Block.run_of_rewrites (h : Rewrites false (.block P) (.block Q)) (fuel : Nat) :
    P.run fuel = Q.run fuel := by
  have hsame : P.evaluate fuel (callWithin fuel) = Q.evaluate fuel (callWithin fuel) := h.same
  rw [Block.run_eq, Block.run_eq, hsame]

/-- The run of a rewritten program comes to the same (`Eval.Rewritten`) on machines that
correspond. -/
theorem Block.run_rewritten (h : Rewrites true (.block P) (.block Q)) (fuel : Nat) :
    Eval.Rewritten (P.run fuel) (Q.run fuel) := by
  have halike : Eval.Rewritten (P.evaluate fuel (callWithin fuel))
      (Q.evaluate fuel (callWithin fuel)) := Rewrites.alike (callWithin_rewritten fuel) h
  rw [Block.run_eq, Block.run_eq]
  refine .traced (Eval.Related.bind halike fun r s hrs => ?_) within_rewritten
  exact Eval.Rewritten.ofBody (fun _ _ => .pure) hrs

end

/-- Rewriting statements does not change what a program does: for a single place, for all places
outside of functions at once, and for all places (`Rewrites`). -/
structure RewritesPreserve (P Q : Block) : Prop where
  /-- The cases of an `if` behind the first one do the same in an `else` block of their own,
  whatever machine they are run on and however calls are run. -/
  elseBlock (rounds : Nat) (run : Caller) (span inner outer : Span) (condition : Node)
    (body : Block) (others : Alternatives) :
    (⟨span, .ifElse (.case condition body others)⟩ : Node).evaluate rounds run =
      (⟨span, .ifElse (.case condition body
        (.otherwise ⟨inner, [⟨outer, .ifElse others⟩]⟩))⟩ : Node).evaluate rounds run
  /-- The statements of a block that is not empty do the same in its place, whatever stands before
  and behind them. -/
  spliced (rounds : Nat) (run : Caller) (last : Option Located) (span inner : Span)
    (before items behind : List Node) : items ≠ [] →
    Node.evaluateItems rounds run last (before ++ ⟨span, .block ⟨inner, items⟩⟩ :: behind) =
      Node.evaluateItems rounds run last (before ++ (items ++ behind))
  /-- So it is in all places of a program outside of functions (`Rewrites false`): the runs are the
  same, machine and all. -/
  outside : Rewrites false (.block P) (.block Q) → ∀ fuel, P.run fuel = Q.run fuel
  /-- It is so inside of functions too (`Rewrites true`), but for the bodies of the functions that
  are defined: on corresponding machines (`Machine.Rewritten`) the value or the fault is the same,
  as are the lines that are printed, and the machines that are left correspond to each other. -/
  inside : Rewrites true (.block P) (.block Q) → ∀ fuel m n, m.Rewritten n →
    Outcome.Related (· = ·) Located.Rewritten? (P.run fuel m).1 (Q.run fuel n).1 ∧
      (P.run fuel m).2.Rewritten (Q.run fuel n).2
  /-- Corresponding values (`Value.Rewritten`) are of the same kind and are shown alike, and they
  are equal if they are neither functions nor what a signal returns. -/
  values {v w : Value} : v.Rewritten w → v.kind = w.kind ∧ v.text = w.text ∧
    (v.kind ≠ .function → v.kind ≠ .returning → v = w)

/-- The cases of an `if` behind the first one may be put into an `else` block, and the statements of
a block that is not empty may be put in its place, anywhere in a program (`RewritesPreserve`). -/
theorem rewritesPreserve (P Q : Block) : RewritesPreserve P Q where
  elseBlock rounds run span inner outer condition body others := by
    have h : Rewrites false (.alternatives (.case condition body others)) (.alternatives
        (.case condition body (.otherwise ⟨inner, [⟨outer, .ifElse others⟩]⟩))) :=
      .elseBlock condition.rewrites_self body.rewrites_self others.rewrites_self
    exact (Rewrites.ifElse h).same.1
  spliced rounds run last span inner before items behind hne := by
    have h : Rewrites false (.items (⟨span, .block ⟨inner, items⟩⟩ :: behind))
        (.items (items ++ behind)) :=
      .splice hne (Node.items_rewrites_self items) (Node.items_rewrites_self behind)
    exact (h.append_left before).same last
  outside := Block.run_of_rewrites
  inside h fuel _ _ hmn := Block.run_rewritten h fuel hmn
  values h := ⟨h.kind, h.text, h.eq_of_kind⟩

/-- Whether the parameter of `rank` is this number. -/
def ranks (n : Int64) : Node :=
  ⟨.origin, .binary .equal ⟨.origin, .variable ⟨"x", .origin⟩⟩ ⟨.origin, .int n⟩⟩

/-- What is behind the first case of `rank`. -/
def behindFirst : Alternatives :=
  .case (ranks 2) ⟨.origin, [⟨.origin, .returnValue ⟨.origin, .string "silver"⟩⟩]⟩ .none

/-- A program that defines a function `rank`, with the given cases behind its first one, and then
goes on with some statements. -/
def ranking (others : Alternatives) (items : List Node) : Block :=
  ⟨.origin, ⟨.origin, .function ⟨"rank", .origin⟩ [⟨⟨"x", .origin⟩, .int⟩] .string
    ⟨.origin, [⟨.origin, .ifElse (.case (ranks 1)
      ⟨.origin, [⟨.origin, .returnValue ⟨.origin, .string "gold"⟩⟩]⟩ others)⟩]⟩⟩ :: items⟩

/-- The call `rank(2)` of the function that `ranking` defines. -/
def rankTwo : Node := ⟨.origin, .call ⟨"rank", .origin⟩ [⟨.origin, .int 2⟩]⟩

/-- The program `ranking` does the same if the call does not stand in a block, and if in the
function what is behind the first case stands in an `else` block. -/
theorem ranking_rewritesPreserve :
    (∀ fuel, (ranking behindFirst [⟨.origin, .block ⟨.origin, [rankTwo]⟩⟩]).run fuel =
        (ranking behindFirst [rankTwo]).run fuel) ∧
      (∀ fuel m, Outcome.Related (· = ·) Located.Rewritten?
        ((ranking behindFirst [⟨.origin, .block ⟨.origin, [rankTwo]⟩⟩]).run fuel m).1
        ((ranking (.otherwise ⟨.origin, [⟨.origin, .ifElse behindFirst⟩]⟩) [rankTwo]).run
          fuel m).1) ∧
      ((ranking behindFirst [⟨.origin, .block ⟨.origin, [rankTwo]⟩⟩]).run 2 (.initial 1)).1 =
        .ok (some ⟨.string "silver", some .origin⟩) := by
  have hcall (inside : Bool) : Rewrites inside
      (.items [⟨.origin, .block ⟨.origin, [rankTwo]⟩⟩]) (.items [rankTwo]) :=
    .splice (List.cons_ne_nil _ _) (Node.items_rewrites_self _) .noItems
  refine ⟨?_, fun fuel m => ?_, rfl⟩
  · refine (rewritesPreserve _ _).outside (.block (.moreItems ?_ (hcall false)))
    exact .sameFunction
  · refine ((rewritesPreserve _ _).inside (.block (.moreItems ?_ (hcall true))) fuel m m
      (.refl m)).1
    refine .function rfl (.block (.moreItems (.ifElse ?_) .noItems))
    exact .elseBlock (Node.rewrites_self _) (Block.rewrites_self _) (Alternatives.rewrites_self _)

end UnitScript
