import UnitScript.Proofs.Control.Agreement
import UnitScript.Proofs.Machine.Policy

/-!
# Signals are no data

In the course of a program that is read from tokens every evaluation is one of a regular part of a
tree, on a machine on which everything is proper (`Moment.Regular`, kept by
`Moment.Begins.regular`). So whatever is used as data, an operand, an argument or a condition, is no
signal, loops and calls come to nothing that is meant for a loop, and programs come to no signal at
all. A signal is refused only where a jump stands outside of all loops (`signalDiscipline`).
-/

namespace UnitScript

/-! ## Values that are used -/

/-- A value is used as data by the evaluation that begins at a moment: it is an operand, a
condition, an argument, a payload or the like. There is one case for each use that the evaluator
makes of a value it has demanded (`Node.demand`). -/
inductive Moment.Uses : Moment → Located → Prop
  | magnitude : e.demand (e.run n) m = (.ok v, m') → Uses ⟨n, .node ⟨span, .phys e u⟩, m⟩ v
  | unit : (e.demand (e.run n) >>= Located.magnitude) m = (.ok number, m') →
      u.demand (u.run n) m' = (.ok v, m'') → Uses ⟨n, .node ⟨span, .phys e u⟩, m⟩ v
  | operand : e.demand (e.run n) m = (.ok v, m') → Uses ⟨n, .node ⟨span, .unary op e⟩, m⟩ v
  | left : l.demand (l.run n) m = (.ok v, m') → Uses ⟨n, .node ⟨span, .binary op l r⟩, m⟩ v
  | right : l.demand (l.run n) m = (.ok w, m') → r.demand (r.run n) m' = (.ok v, m'') →
      Uses ⟨n, .node ⟨span, .binary op l r⟩, m⟩ v
  | assigned : e.demand (e.run n) m = (.ok v, m') →
      Uses ⟨n, .node ⟨span, .assign type ident e⟩, m⟩ v
  /-- An argument, which is printed if the function is the one that prints. -/
  | argument : m.context.callee ident.name = .ok f →
      Node.evaluateArgs n (callWithin n) es m = (.ok args, m') → v ∈ args →
      Uses ⟨n, .node ⟨span, .call ident es⟩, m⟩ v
  | payload : e.demand (e.run n) m = (.ok v, m') → Uses ⟨n, .node ⟨span, .returnValue e⟩, m⟩ v
  | caseCondition : condition.demand (condition.run n) m = (.ok v, m') →
      Uses ⟨n, .alternatives (.case condition body others), m⟩ v
  | loopCondition : condition.demand (condition.run n) m = (.ok v, m') →
      Uses ⟨n, .loop condition body (rounds + 1), m⟩ v

/-! ## Regular moments -/

/-- What is evaluated is regular (`UnitScript.Regular`), and what is given for it is proper
(`Value.Proper`): the last result of statements (`Settled`), a function that is called and its
arguments. -/
def Task.Regular : Task → Prop
  | .node e => UnitScript.Regular (.statement e)
  | .arguments es => UnitScript.Regular (.arguments es)
  | .items last es => Settled last ∧ UnitScript.Regular (.items es)
  | .block b => UnitScript.Regular (.block b)
  | .alternatives a => UnitScript.Regular (.alternatives a)
  | .loop condition body _ =>
    UnitScript.Regular (.expression condition) ∧ UnitScript.Regular (.block body)
  | .call f args _ => (Value.function f).Proper ∧ ∀ arg ∈ args, arg.value.Proper

/-- A regular task (`Task.Regular`) begins on a proper machine (`Machine.Proper`). `Begins.regular`
passes this on to all that begins inside. -/
structure Moment.Regular (a : Moment) : Prop where
  machine : a.machine.Proper
  task : a.task.Regular

section
variable {α : Type} {m m' : Machine} {n : Nat}

/-- Where a side of related computations (`Eval.Related`) has a result on a proper machine, the
other has a related one, and the machine that is left is proper. -/
theorem Eval.Related.of_eq_ok {β : Type} {results : α → β → Prop} {x : Eval α} {y : Eval β} {a : α}
    (h : Eval.Related .proper results x y) (hm : m.Proper) (hx : x m = (.ok a, m')) :
    (∃ b, results a b) ∧ m'.Proper := by
  obtain ⟨houtcome, hsame, hproper⟩ := h ⟨rfl, hm⟩
  rw [hx] at houtcome hproper
  refine ⟨?_, hproper⟩
  generalize (y m).1 = o at houtcome
  cases houtcome with
  | ok hab => exact ⟨_, hab⟩

/-- A computation that agrees (`Agrees`) with one that may be left by exits has good results. -/
theorem Agrees.of_eq_ok {good : α → Prop} {x : Eval α} {y : Leaving α} {a : α}
    (h : Agrees good x y) (hm : m.Proper) (hx : x m = (.ok a, m')) : good a ∧ m'.Proper := by
  obtain ⟨⟨_, hgood⟩, hm'⟩ := Eval.Related.of_eq_ok h hm hx
  exact ⟨hgood.2, hm'⟩

namespace Regular

variable {e : Node} {es : List Node} {b : Block}

/-- The value of a regular expression is needed (`Node.demand`), and so no signal. -/
theorem demand_agrees (h : Regular (.expression e)) (n : Nat) :
    Agrees (fun v => v.value.Proper) (e.demand (e.run n))
      (e.require (e.perform n (enactWithin n))) :=
  Agrees.demand e (h.agrees (callWithin_agree n))

/-- A regular condition (`Node.holds`) agrees with the one that may be left by exits. -/
theorem holds_agrees (h : Regular (.expression e)) (n : Nat) :
    Agrees (fun _ => True) (e.holds (e.run n)) (e.applies (e.perform n (enactWithin n))) :=
  (h.demand_agrees n).bind fun v _ => .of_immediate v.truth_immediate

/-- A regular block comes to a signal exactly where the other side is left by its exit
(`Signals`). -/
theorem block_related (h : Regular (.block b)) (n : Nat) :
    Eval.Related .proper Signals (b.evaluate n (callWithin n)) (b.perform n (enactWithin n)).run :=
  h.agrees (callWithin_agree n)

/-- What a regular expression comes to is proper, by `Regular.demand_agrees`. -/
theorem demand (h : Regular (.expression e)) (hm : m.Proper) {v : Located}
    (hx : e.demand (e.run n) m = (.ok v, m')) : v.value.Proper ∧ m'.Proper :=
  (h.demand_agrees n).of_eq_ok hm hx

/-- A magnitude leaves a proper machine (`Located.magnitude`). -/
theorem magnitude (h : Regular (.expression e)) (hm : m.Proper) {number : Number}
    (hx : (e.demand (e.run n) >>= Located.magnitude) m = (.ok number, m')) : m'.Proper :=
  (((h.demand_agrees n).bind fun v _ => .of_immediate v.magnitude_immediate).of_eq_ok hm hx).2

/-- A condition leaves a proper machine (`Node.holds`). -/
theorem holds (h : Regular (.expression e)) (hm : m.Proper) {holds : Bool}
    (hx : e.holds (e.run n) m = (.ok holds, m')) : m'.Proper :=
  ((h.holds_agrees n).of_eq_ok hm hx).2

/-- The values of regular arguments are proper, and so is the machine behind them
(`Machine.Proper`). -/
theorem arguments (h : Regular (.arguments es)) (hm : m.Proper) {args : List Located}
    (hx : Node.evaluateArgs n (callWithin n) es m = (.ok args, m')) :
    (∀ arg ∈ args, arg.value.Proper) ∧ m'.Proper :=
  Agrees.of_eq_ok (h.agrees (callWithin_agree n)) hm hx

/-- A regular statement comes to a signal or to a proper result (`Signals`). -/
theorem statement (h : Regular (.statement e)) (hm : m.Proper) {r : Option Located}
    (hx : e.run n m = (.ok r, m')) : (∃ s, Signals r s) ∧ m'.Proper :=
  Eval.Related.of_eq_ok (h.agrees (callWithin_agree n)) hm hx

/-- A round of a regular loop (`afterRound`) leaves a proper machine. -/
theorem round (h : Regular (.block b)) (hm : m.Proper) {r : Option (Option Located)}
    (hx : (afterRound <$> b.evaluate n (callWithin n)) m = (.ok r, m')) : m'.Proper := by
  rw [← bind_pure_comp] at hx
  obtain ⟨result, mid, hblock, hpure⟩ := Eval.bind_eq_ok.1 hx
  cases hpure
  exact ((h.block_related n).of_eq_ok hm hblock).2

end Regular

/-- A signal stops statements (`interrupts`), so behind a result that lets them go on the result is
proper. -/
theorem Signals.settled {r : Option Located} {s : Except Exit (Option Located)} (h : Signals r s)
    (hgoes : interrupts r = false) : Settled r := by
  cases h with
  | value hr => exact hr
  | breaking | continuing | returning => cases hgoes

end

namespace Moment

/-- What begins in a regular evaluation is regular. There is one case for each of `Begins`; the
results of the parts before it are proper by `Agrees.of_eq_ok`. -/
theorem Begins.regular {a b : Moment} (h : a.Begins b) (ha : a.Regular) : b.Regular := by
  obtain ⟨hm, htask⟩ := ha
  cases h with
  | magnitude => exact ⟨hm, .evaluated (Regular.phys_parts htask).1⟩
  | unit hx =>
    obtain ⟨he, hu⟩ := Regular.phys_parts htask
    exact ⟨he.magnitude hm hx, .evaluated hu⟩
  | operand => exact ⟨hm, .evaluated (Regular.unary_part htask)⟩
  | left => exact ⟨hm, .evaluated (Regular.binary_parts htask).1⟩
  | right hx =>
    obtain ⟨hl, hr⟩ := Regular.binary_parts htask
    exact ⟨(hl.demand hm hx).2, .evaluated hr⟩
  | assigned => exact ⟨hm, .evaluated (Regular.assign_part htask)⟩
  | chosen => exact ⟨hm, Regular.ifElse_part htask⟩
  | loop => exact ⟨hm, Regular.whileLoop_parts htask⟩
  | arguments => exact ⟨hm, Regular.call_parts htask⟩
  | call hcallee hargs _ =>
    obtain ⟨hproper, hm'⟩ := (Regular.call_parts htask).arguments hm hargs
    exact ⟨hm', Context.Proper.callee hm hcallee, hproper⟩
  | returned => exact ⟨hm, .evaluated (Regular.returnValue_part htask)⟩
  | nested => exact ⟨hm, Regular.nested_part htask⟩
  | argument => exact ⟨hm, .evaluated (Regular.arguments_parts htask).1⟩
  | moreArguments hx =>
    obtain ⟨he, hes⟩ := Regular.arguments_parts htask
    exact ⟨(he.demand hm hx).2, hes⟩
  | item => exact ⟨hm, (Regular.items_parts htask.2).1⟩
  | moreItems hx hgoes =>
    obtain ⟨he, hes⟩ := Regular.items_parts htask.2
    obtain ⟨⟨_, hsignals⟩, hm'⟩ := he.statement hm hx
    exact ⟨hm', hsignals.settled hgoes, hes⟩
  | items => exact ⟨hm, .nothing, Regular.block_part htask⟩
  | otherwise => exact ⟨hm, Regular.otherwise_part htask⟩
  | caseCondition => exact ⟨hm, .evaluated (Regular.case_parts htask).1⟩
  | caseBody hx =>
    obtain ⟨hc, hb, -⟩ := Regular.case_parts htask
    exact ⟨hc.holds hm hx, hb⟩
  | caseOthers hx =>
    obtain ⟨hc, -, ho⟩ := Regular.case_parts htask
    exact ⟨hc.holds hm hx, ho⟩
  | loopCondition => exact ⟨hm, .evaluated htask.1⟩
  | loopBody hx => exact ⟨htask.1.holds hm hx, htask.2⟩
  | moreRounds hx hround => exact ⟨htask.2.round (htask.1.holds hm hx) hround, htask⟩
  | body hcheck henter =>
    obtain ⟨hf, hargs⟩ := htask
    refine ⟨(Context.Proper.enter hm hf henter).bindParams hargs, ?_⟩
    cases hf with
    | function hbody _ => exact hbody

/-- So is everything that begins in its course (`Moment.Reaches`), by induction on how it is
reached. -/
theorem Reaches.regular {a b : Moment} (h : a.Reaches b) (ha : a.Regular) : b.Regular := by
  induction h with
  | refl => exact ha
  | tail _ hstep ih => exact hstep.regular ih

/-- What a regular evaluation uses (`Moment.Uses`) is proper, and so no signal
(`Value.Proper.isSignal`). -/
theorem Uses.proper {a : Moment} {v : Located} (h : a.Uses v) (ha : a.Regular) :
    v.value.Proper := by
  obtain ⟨hm, htask⟩ := ha
  cases h with
  | magnitude hx => exact ((Regular.phys_parts htask).1.demand hm hx).1
  | unit hn hx =>
    obtain ⟨he, hu⟩ := Regular.phys_parts htask
    exact (hu.demand (he.magnitude hm hn) hx).1
  | operand hx => exact ((Regular.unary_part htask).demand hm hx).1
  | left hx => exact ((Regular.binary_parts htask).1.demand hm hx).1
  | right hleft hx =>
    obtain ⟨hl, hr⟩ := Regular.binary_parts htask
    exact (hr.demand (hl.demand hm hleft).2 hx).1
  | assigned hx => exact ((Regular.assign_part htask).demand hm hx).1
  | argument _ hargs hv => exact ((Regular.call_parts htask).arguments hm hargs).1 v hv
  | payload hx => exact ((Regular.returnValue_part htask).demand hm hx).1
  | caseCondition hx => exact ((Regular.case_parts htask).1.demand hm hx).1
  | loopCondition hx => exact (htask.1.demand hm hx).1

end Moment

/-! ## What loops, calls and programs come to -/

section
variable {m m' : Machine} {n : Nat} {v : Located}

/-- A regular loop comes to nothing that is meant for a loop: its `break` and `continue` are caught
by `Leaving.loop` on the other side. -/
theorem Regular.loop_result {span : Span} {condition : Node} {body : Block}
    (h : Regular (.statement ⟨span, .whileLoop condition body⟩)) (hm : m.Proper)
    (hx : Node.run n ⟨span, .whileLoop condition body⟩ m = (.ok (some v), m')) :
    v.value ≠ .breaking ∧ v.value ≠ .continuing := by
  obtain ⟨hc, hb⟩ := h.whileLoop_parts
  have hlooped := rounds_related (hc.holds_agrees n) (hb.block_related n) n
  obtain ⟨⟨_, hend⟩, -⟩ := Eval.Related.of_eq_ok hlooped hm hx
  cases hend with
  | returned => exact ⟨nofun, nofun⟩

/-- A regular call comes to no signal, since `Closure.checkResult` refuses what is meant for a loop
and unpacks what `return` hands over. -/
theorem Regular.call_result {span : Span} {ident : Ident} {es : List Node}
    (h : Regular (.statement ⟨span, .call ident es⟩)) (hm : m.Proper)
    (hx : Node.run n ⟨span, .call ident es⟩ m = (.ok (some v), m')) : v.value.isSignal = false := by
  have hcall : Regular (.expression ⟨span, .call ident es⟩) := .call h.call_parts
  obtain ⟨hsettled, -⟩ := Agrees.of_eq_ok (hcall.agrees (callWithin_agree n)) hm hx
  exact (hsettled v rfl).isSignal

/-- A regular program comes to no signal, for its end is that of a call (`caught_related`). -/
theorem Regular.run_result {program : Block} (h : Regular (.block program)) (hm : m.Proper)
    (hx : program.run n m = (.ok (some v), m')) : v.value.isSignal = false := by
  obtain ⟨result, mid, hresult, hend⟩ := Eval.bind_eq_ok.1 (Eval.traced_eq_ok.1 hx)
  obtain ⟨⟨_, hsignals⟩, -⟩ := (h.block_related n).of_eq_ok hm hresult
  split at hend
  · cases hend
    cases hsignals with
    | value hr => cases hr _ rfl
    | returning hpayload => exact (hpayload v rfl).isSignal
  · split at hend
    · cases hend
    · next hsignal =>
      cases hend
      exact Bool.eq_false_iff.2 hsignal
  · cases hend

end

/-! ## Jumps inside of loops -/

/-- Every `break` and every `continue` is inside the body of a loop, of the same function if it is
in one. Bodies of functions begin outside of all loops again. -/
def Block.JumpsInLoops (b : Block) : Prop :=
  b.Throughout fun o => o.form.isJump = true → o.looped = true

/-- The policy (`Policy`) of programs whose jumps are inside of loops. It excludes one kind of
cause, that of `Cause.straySignal`. -/
def Policy.jumpsInLoops : Policy where
  forms := Occurrence.Throughout fun o => o.form.isJump = true → o.looped = true
  bodies := Block.JumpsInLoops
  machines _ := True
  causes cause := cause.kind ≠ .straySignal
  exhaustion := True
  ordinary h := h.not_stray
  stray hjump hform _ := by cases hform.here hjump
  loop _ := trivial
  function h := h.body rfl
  print _ _ := trivial
  set _ _ _ := trivial
  declareFunction _ _ := trivial

/-- It is the same inside of calls (`Policy.Encloses`): a body begins outside of all loops again. -/
theorem Policy.jumpsInLoops_encloses : Policy.jumpsInLoops.Encloses .jumpsInLoops where
  bodies := .rfl
  causes := id
  exhaustion := id
  forms := Block.Throughout.occurrences
  enter _ _ _ _ := trivial
  leave _ _ _ := trivial

/-- No call refuses a signal, by induction on the fuel (`Encloses.callWithin_succ` for
`Policy.jumpsInLoops`). -/
theorem callWithin_jumpsInLoops (fuel : Nat) : (callWithin fuel).Meets .jumpsInLoops := by
  induction fuel with
  | zero => exact fun _ _ _ _ => .outOfFuel trivial
  | succ fuel ih => exact Policy.jumpsInLoops_encloses.callWithin_succ ih

/-- Nor does a program, if the functions that are stored on its machine (`Machine.Stores`) have
their jumps inside of loops as well. -/
theorem Block.JumpsInLoops.run {m m' : Machine} (hm : m.Reachable) {fuel : Nat} {program : Block}
    (h : program.JumpsInLoops) (hstored : ∀ f, m.Stores f → f.declaration.body.JumpsInLoops)
    {e : Fault} (hx : program.run fuel m = (.fault e, m')) : e.cause.kind ≠ .straySignal := by
  have hadmits : Policy.jumpsInLoops.Admits m := ⟨hm.orderly, fun hf => hstored _ hf, trivial⟩
  have hends := (Block.run_meets (callWithin_jumpsInLoops fuel) h.occurrences hadmits).1
  rw [hx] at hends
  cases hends with
  | fault hcause => exact hcause

/-! ## Programs -/

/-- Machines that programs read from tokens have been run on (`Machine.Reached`) are reachable
(`Machine.Reachable`). -/
theorem Machine.Reached.reachable {m : Machine} (h : m.Reached) : m.Reachable := by
  induction h with
  | initial => exact .initial
  | run fuel _ _ ih => exact ih.run fuel _

/-- How a program handles signals when it is run on a machine. `Moment.Reaches` ranges over every
evaluation in the course of the run, those inside of calls included. -/
structure SignalDiscipline (fuel : Nat) (program : Block) (m : Machine) : Prop where
  /-- Nothing that is used as data anywhere in the run (`Moment.Uses`), as an operand, an argument,
  a condition or a payload, is a signal, -/
  data {a : Moment} {v : Located} : Moment.Reaches ⟨fuel, .block program, m⟩ a → a.Uses v →
    v.value.isSignal = false
  /-- no loop that is reached comes to `Value.breaking` or to `Value.continuing`, though it may hand
  on a `return`, -/
  loops {n : Nat} {span : Span} {condition : Node} {body : Block} {m' m'' : Machine} {v : Located} :
    Moment.Reaches ⟨fuel, .block program, m⟩
      ⟨n, .node ⟨span, .whileLoop condition body⟩, m'⟩ →
    Node.run n ⟨span, .whileLoop condition body⟩ m' = (.ok (some v), m'') →
    v.value ≠ .breaking ∧ v.value ≠ .continuing
  /-- no call that is reached (`Moment.Reaches`) comes to any signal, -/
  calls {n : Nat} {span : Span} {ident : Ident} {es : List Node} {m' m'' : Machine} {v : Located} :
    Moment.Reaches ⟨fuel, .block program, m⟩ ⟨n, .node ⟨span, .call ident es⟩, m'⟩ →
    Node.run n ⟨span, .call ident es⟩ m' = (.ok (some v), m'') → v.value.isSignal = false
  /-- and neither does the program, whose `return` has been settled by `Block.run`. -/
  value {m' : Machine} {v : Located} : program.run fuel m = (.ok (some v), m') →
    v.value.isSignal = false
  /-- Where all jumps are inside of loops (`Block.JumpsInLoops`), in the program and in the
  functions that are stored on the machine, no signal is refused. -/
  stray {m' : Machine} {e : Fault} : program.JumpsInLoops →
    (∀ f, m.Stores f → f.declaration.body.JumpsInLoops) →
    program.run fuel m = (.fault e, m') → e.cause.kind ≠ .straySignal

/-- Programs that are read from tokens (`Block.ofTokens`) use signals for nothing but to leave loops
and calls, on every machine that such programs have been run on (`Machine.Reached`). A parsed
program is regular by `Block.regular_of_ofTokens`, and `Reaches.regular` carries this into every
evaluation of the run. -/
theorem signalDiscipline {m : Machine} (hm : m.Reached) {tokens : List Token} {program : Block}
    (hprogram : Block.ofTokens tokens = .ok program) (fuel : Nat) :
    SignalDiscipline fuel program m := by
  have hregular := Block.regular_of_ofTokens hprogram
  have hbegin : Moment.Regular ⟨fuel, .block program, m⟩ := ⟨hm.proper, hregular⟩
  exact
    { data := fun hreaches huses => (huses.proper (hreaches.regular hbegin)).isSignal
      loops := fun hreaches hx =>
        (hreaches.regular hbegin).task.loop_result (hreaches.regular hbegin).machine hx
      calls := fun hreaches hx =>
        (hreaches.regular hbegin).task.call_result (hreaches.regular hbegin).machine hx
      value := hregular.run_result hm.proper
      stray := fun hjumps hstored hx => hjumps.run hm.reachable hstored hx }

/-- The body of `function once() -> int { while (true) { break; } return 1; }`. -/
def onceBody : Block :=
  ⟨.origin, [⟨.origin, .whileLoop ⟨.origin, .bool true⟩ ⟨.origin, [⟨.origin, .breakLoop⟩]⟩⟩,
    ⟨.origin, .returnValue ⟨.origin, .int 1⟩⟩]⟩

/-- The definition of that function, and the statement `once();`. -/
def once : Block :=
  ⟨.origin, [⟨.origin, .function ⟨"once", .origin⟩ [] .int onceBody⟩,
    ⟨.origin, .call ⟨"once", .origin⟩ []⟩]⟩

/-- The tokens of these, as `Token.ofText` would read them. -/
def onceTokens : List Token :=
  let name : Token := ⟨.identifier, some "once", .origin⟩
  let bare (kinds : List TokenKind) : List Token := kinds.map fun kind => ⟨kind, none, .origin⟩
  bare [.functionWord] ++ name :: bare [.leftParen, .rightParen, .arrow, .intWord, .leftBrace,
      .whileWord, .leftParen, .trueWord, .rightParen, .leftBrace, .breakWord, .semicolon,
      .rightBrace, .returnWord] ++
    ⟨.intLiteral, some "1", .origin⟩ :: bare [.semicolon, .rightBrace] ++
    name :: bare [.leftParen, .rightParen, .semicolon, .endOfText]

/-- The only jump is inside of the loop (`Block.JumpsInLoops`). -/
theorem once_jumpsInLoops : once.JumpsInLoops := by
  have hbody : onceBody.JumpsInLoops := .of_bodies (by decide) nofun
  refine .of_bodies (by decide) fun body h => ?_
  cases List.mem_singleton.1 h
  exact hbody

/-- The loop in the body of `once` is left by its `break`, and the call comes to what is returned
behind it. The tokens are those of the program, and its only jump is inside of the loop. -/
theorem once_signalDiscipline :
    Block.ofTokens onceTokens = .ok once ∧ once.JumpsInLoops ∧
      (once.run 2 (.initial 1)).1 = .ok (some ⟨.number (.int 1), some .origin⟩) ∧
      SignalDiscipline 2 once (.initial 1) := by
  have hread : Block.ofTokens onceTokens = .ok once := rfl
  exact ⟨hread, once_jumpsInLoops, rfl, signalDiscipline (.initial 1) hread 2⟩

end UnitScript
