import UnitScript.Proofs.Calls.Stack
import UnitScript.Proofs.Machine.Bound
import UnitScript.Proofs.Machine.Judgement

/-!
# Policies

A `Policy` limits the forms that a program may have, and those in the bodies of functions, and says
what these limits are good for: what may be asked of machines besides their order, why a run may
fail, and whether it may run out of fuel. Programs with such forms, run on machines that the policy
admits, leave machines that it admits (`Eval.Meets`), if calls do. Calls may be run under another
policy, which the first one encloses (`Policy.Encloses`), so that less is asked inside of a call
than outside, or more.
-/

namespace UnitScript

/-- Limits to programs, and what they are good for: which causes a run may fail for, and whether it
may come to the end of its fuel (`Policy.Ends`). The fields without a comment say that single steps
respect the limits. -/
structure Policy where
  /-- The forms that a program may have. -/
  forms : Occurrence → Prop
  /-- The bodies that functions may have. -/
  bodies : Block → Prop
  /-- What is asked of machines. -/
  machines : Machine → Prop
  /-- Why a run may fail. -/
  causes : Cause → Prop
  /-- A run may come to the end of its fuel (`Outcome.outOfFuel`). -/
  exhaustion : Prop
  ordinary {cause : Cause} : cause.Ordinary → causes cause
  /-- A jump outside of all loops may be refused. -/
  stray {form : Form} {cause : Cause} : form.isJump = true → forms ⟨form, false⟩ →
    cause.kind = .straySignal → causes cause
  /-- A loop may go on for ever. -/
  loop {condition : Node} {body : Block} {looped : Bool} :
    forms ⟨.whileLoop condition body, looped⟩ → exhaustion
  function {ident : Ident} {params : List Param} {returns : TypeName} {body : Block}
    {looped : Bool} : forms ⟨.function ident params returns body, looped⟩ → bodies body
  print {m : Machine} (line : String) : machines m →
    machines { m with printed := m.printed.push line }
  set {m : Machine} {type : Option TypeName} {ident : Ident} {value : Node} {looped : Bool}
    {v : Located} {context : Context} : forms ⟨.assign type ident value, looped⟩ → machines m →
    m.context.set ident.name type v = .ok context → machines { m with context }
  declareFunction {m : Machine} {ident : Ident} {params : List Param} {returns : TypeName}
    {body : Block} {looped : Bool} : forms ⟨.function ident params returns body, looped⟩ →
    machines m →
    machines { m with context := m.context.declareFunction ⟨ident, params, returns, body⟩ }

namespace Policy

/-- A function that may be called: it has captured plain values (`Bindings.Plain`), and its body is
one of `Policy.bodies`. -/
structure Functions (p : Policy) (f : Closure) : Prop where
  captured : Bindings.Plain f.captured
  body : p.bodies f.declaration.body

/-- A value that may be come to, inside the body of a loop or not. The functions that it gives
(`Value.Gives`) may be called. -/
structure Values (p : Policy) (looped : Bool) (v : Value) : Prop where
  functions {f : Closure} : v.Gives f → p.Functions f
  breaking : v = .breaking → p.forms ⟨.breakLoop, looped⟩
  continuing : v = .continuing → p.forms ⟨.continueLoop, looped⟩

/-- A machine that a run may begin on: it is orderly (`Context.Orderly`), and the functions that it
stores (`Machine.Stores`) have bodies that the policy allows. -/
structure Admits (p : Policy) (m : Machine) : Prop where
  orderly : m.context.Orderly fun _ => True
  bodies {f : Closure} : m.Stores f → p.bodies f.declaration.body
  machines : p.machines m

/-- The ways in which a run may end: well, for one of `Policy.causes`, or without fuel if
`Policy.exhaustion` allows for it. -/
inductive Ends (p : Policy) {α : Type} (good : α → Prop) : Outcome α → Prop
  | ok {a : α} : good a → p.Ends good (.ok a)
  | fault {e : Fault} : p.causes e.cause → p.Ends good (.fault e)
  | outOfFuel : p.exhaustion → p.Ends good .outOfFuel

end Policy

/-- A run that ends well under one policy ends well under another (`Policy.Ends`) that allows for as
much. -/
theorem Policy.Ends.mono {p q : Policy} {α : Type} {good better : α → Prop} {o : Outcome α}
    (h : p.Ends good o) (hgood : ∀ a, good a → better a)
    (hcauses : ∀ {cause}, p.causes cause → q.causes cause)
    (hexhaustion : p.exhaustion → q.exhaustion) : q.Ends better o := by
  cases h with
  | ok h => exact .ok (hgood _ h)
  | fault h => exact .fault (hcauses h)
  | outOfFuel h => exact .outOfFuel (hexhaustion h)

/-- Begun on a machine, a computation ends in one of the ways that the policy allows
(`Policy.Ends`), and with a machine that it admits (`Policy.Admits`). -/
def Eval.MeetsOn {α : Type} (p : Policy) (good : α → Prop) (x : Eval α) (m : Machine) : Prop :=
  p.Ends good (x m).1 ∧ p.Admits (x m).2

/-- It does so on every machine that the policy admits. -/
def Eval.Meets {α : Type} (p : Policy) (good : α → Prop) (x : Eval α) : Prop :=
  ∀ ⦃m : Machine⦄, p.Admits m → x.MeetsOn p good m

namespace Policy

variable {p : Policy} {looped : Bool} {v : Value} {f : Closure} {m : Machine}

/-! ## Values -/

/-- Plain values (`Value.Plain`) may be come to: they give no functions and are no signals. -/
theorem Values.plain (h : v.Plain) : p.Values looped v where
  functions hf := by
    cases hf with
    | function => exact absurd rfl (h.ne_function _)
    | returned => cases h.isSignal
  breaking hv := by subst hv; cases h.isSignal
  continuing hv := by subst hv; cases h.isSignal

/-- A value that may be come to may be returned (`Value.returning`), -/
theorem Values.returning {v : Located} (h : p.Values looped v.value) :
    p.Values looped (.returning (some v)) where
  functions hf := by
    cases hf with
    | returned hf => exact h.functions hf
  breaking := nofun
  continuing := nofun

/-- and handed on from the body of a loop, for a `return` is allowed anywhere. -/
theorem Values.handedOn {payload : Option Located} (h : p.Values true (.returning payload)) :
    p.Values looped (.returning payload) :=
  ⟨h.functions, nofun, nofun⟩

/-- A function may be come to if it may be called (`Policy.Functions`). -/
theorem Values.function (h : p.Functions f) : p.Values looped (.function f) where
  functions hf := by
    cases hf
    exact h
  breaking := nofun
  continuing := nofun

/-- Functions that are come to have captured plain values (`Value.Capturing`). -/
theorem Values.capturing (h : p.Values looped v) : v.Capturing :=
  fun _ hf => (h.functions hf).captured

/-! ## Machines -/

/-- A function that is bound globally (`Machine.Stores`) may be called. -/
theorem Admits.functions (h : p.Admits m) (hf : m.Stores f) : p.Functions f := by
  refine ⟨?_, h.bodies hf⟩
  obtain ⟨entry, hentry, hvalue⟩ := hf
  have hstorable := h.orderly.globals entry hentry
  rw [hvalue] at hstorable
  exact hstorable.capturing f .function

/-- What is read (`Context.read`) may be come to: data, or a function that is stored. -/
theorem Admits.read (h : p.Admits m) {name : String} {v : Located}
    (hread : m.context.read name = .ok v) : p.Values looped v.value := by
  have hstorable := h.orderly.read hread
  have hstored := fun f => h.orderly.mem_of_read hread (f := f)
  generalize v.value = value at hstorable hstored
  cases hstorable with
  | plain hplain => exact .plain hplain
  | function => exact .function (h.functions (hstored _ rfl))
  | native => exact ⟨nofun, nofun, nofun⟩

/-- A line is printed, by `Policy.print`. -/
theorem Admits.print (h : p.Admits m) (line : String) :
    p.Admits { m with printed := m.printed.push line } :=
  ⟨h.orderly, h.bodies, p.print line h.machines⟩

end Policy

/-- A variable that is set (`Context.set`) is bound in a call, or globally to another value of the
same kind or, where no call is in progress, to one of its type. -/
theorem Context.set_globals {c c' : Context} {name : String} {type : Option TypeName} {v : Located}
    (h : c.set name type v = .ok c') :
    c'.globals = c.globals ∨ c'.globals = c.globals.put name v ∧
      ((∃ present, c.globals.get? name = some present ∧ present.value.kind = v.value.kind) ∨
        c.frames = [] ∧ ∃ t, type = some t ∧ v.value.fits t = true) := by
  have hbind : (c.bind name v).globals = c.globals ∨
      (c.bind name v).globals = c.globals.put name v ∧ c.frames = [] := by
    unfold Context.bind
    split
    · next hnone => exact .inr ⟨rfl, hnone⟩
    · exact .inl rfl
  unfold Context.set Context.declare Context.assign at h
  split at h
  · next t =>
    split at h
    · next hfits =>
      cases h
      exact hbind.imp id fun ⟨hput, hnone⟩ => ⟨hput, .inr ⟨hnone, t, rfl, hfits⟩⟩
    · cases h
  · split at h
    · cases h
    · next present hpresent =>
      split at h
      · next hkind =>
        cases h
        split
        · refine hbind.imp id fun ⟨hput, hnone⟩ => ⟨hput, .inl ⟨present, ?_, hkind⟩⟩
          rw [Context.lookup?, Context.current, hnone] at hpresent
          rwa [Option.or_self] at hpresent
        · next hcurrent =>
          refine .inr ⟨rfl, .inl ⟨present, ?_, hkind⟩⟩
          have hnone := Option.not_isSome_iff_eq_none.1 hcurrent
          rwa [Context.lookup?, hnone, Option.none_or] at hpresent
      · cases h

/-- What is bound globally after a value has been (`Bindings.put`) was bound before, or is the
value. -/
theorem Machine.Stores.of_put {m : Machine} {context : Context} {name : String} {v : Located}
    {f : Closure} (h : Machine.Stores { m with context } f)
    (hput : context.globals = m.context.globals.put name v) :
    v.value = .function f ∨ m.Stores f := by
  obtain ⟨entry, hentry, hvalue⟩ := h
  have hall : ∀ entry ∈ m.context.globals.put name v,
      entry.2.value = v.value ∨ ∃ present ∈ m.context.globals, present.2.value = entry.2.value :=
    @Bindings.forall_mem_put _ _ _
      (fun w => w = v.value ∨ ∃ present ∈ m.context.globals, present.2.value = w)
      (fun present hpresent => .inr ⟨present, hpresent, rfl⟩) (.inl rfl)
  rcases hall entry (hput ▸ hentry) with hsame | ⟨present, hpresent, hsame⟩
  · exact .inl (hsame.symm.trans hvalue)
  · exact .inr ⟨present, hpresent, hsame.trans hvalue⟩

namespace Policy.Admits

variable {p : Policy} {m : Machine}

/-- A variable is set (`Context.set`), by an assignment that the policy allows and to a value that
may be come to. -/
theorem set (h : p.Admits m) {type : Option TypeName} {ident : Ident} {value : Node}
    {looped : Bool} {v : Located} {context : Context}
    (hform : p.forms ⟨.assign type ident value, looped⟩) (hv : p.Values looped v.value)
    (hset : m.context.set ident.name type v = .ok context) : p.Admits { m with context } where
  orderly := h.orderly.set hv.capturing.storable hset
  bodies {f} hf := by
    rcases Context.set_globals hset with hsame | ⟨hput, -⟩
    · obtain ⟨entry, hentry, hvalue⟩ := hf
      exact h.bodies ⟨entry, hsame ▸ hentry, hvalue⟩
    · rcases hf.of_put hput with hvalue | hstored
      · exact (hv.functions (hvalue ▸ .function)).body
      · exact h.bodies hstored
  machines := p.set hform h.machines hset

/-- A function is defined (`Context.declareFunction`) whose definition the policy allows. -/
theorem declareFunction (h : p.Admits m) {ident : Ident} {params : List Param} {returns : TypeName}
    {body : Block} {looped : Bool} (hform : p.forms ⟨.function ident params returns body, looped⟩) :
    p.Admits { m with context := m.context.declareFunction ⟨ident, params, returns, body⟩ } where
  orderly := h.orderly.declareFunction fun _ _ => trivial
  bodies {f} hf := by
    rcases hf.of_put rfl with hvalue | hstored
    · cases hvalue
      exact p.function hform
    · exact h.bodies hstored
  machines := p.declareFunction hform h.machines

end Policy.Admits

/-! ## Computations -/

namespace Eval.MeetsOn

variable {α β : Type} {p : Policy} {good : α → Prop} {fine : β → Prop} {x : Eval α} {m : Machine}

/-- One computation after another, where the second one begins on the machine that the first has
left. -/
theorem bind {f : α → Eval β} (hx : MeetsOn p good x m)
    (hf : ∀ a m', good a → p.Admits m' → MeetsOn p fine (f a) m') : MeetsOn p fine (x >>= f) m := by
  obtain ⟨hends, hm'⟩ := hx
  unfold MeetsOn
  rcases h : x m with ⟨a | e | _, m'⟩ <;> rw [h] at hends hm' <;> cases hends
  · next ha =>
    rw [bind_of_ok h]
    exact hf a m' ha hm'
  · next he =>
    rw [bind_of_fault h]
    exact ⟨.fault he, hm'⟩
  · next hexhaustion =>
    rw [bind_of_outOfFuel h]
    exact ⟨.outOfFuel hexhaustion, hm'⟩

/-- Faults are given the calls in progress (`Eval.traced`), for the same causes and on the same
machine. -/
theorem traced (hx : MeetsOn p good x m) : MeetsOn p good (Eval.traced x) m := by
  obtain ⟨hends, hm'⟩ := hx
  unfold MeetsOn Eval.traced
  rcases h : x m with ⟨a | e | _, m'⟩ <;> rw [h] at hends hm' <;> cases hends
  · next ha => exact ⟨.ok ha, hm'⟩
  · next he => exact ⟨.fault he, hm'⟩
  · next hexhaustion => exact ⟨.outOfFuel hexhaustion, hm'⟩

/-- Faults are given a place (`Eval.located`), for the same causes and on the same machine. -/
theorem located (position : Position) (hx : MeetsOn p good x m) :
    MeetsOn p good (Eval.located position x) m := by
  obtain ⟨hends, hm'⟩ := hx
  unfold MeetsOn Eval.located
  rcases h : x m with ⟨a | e | _, m'⟩ <;> rw [h] at hends hm' <;> cases hends
  · next ha => exact ⟨.ok ha, hm'⟩
  · next he => exact ⟨.fault he, hm'⟩
  · next hexhaustion => exact ⟨.outOfFuel hexhaustion, hm'⟩

end Eval.MeetsOn

namespace Eval.Meets

variable {α β : Type} {p : Policy} {good : α → Prop} {fine : β → Prop} {x : Eval α}

/-- A result without any effect, `Pure.pure`, ends well. -/
theorem pure {a : α} (h : good a) : Meets p good (Pure.pure a : Eval α) :=
  fun _ hm => ⟨.ok h, hm⟩

/-- A fault (`Eval.fail`) for a cause that the policy allows. -/
theorem fail {cause : Cause} (h : p.causes cause) (position : Option Position) :
    Meets p good (Eval.fail cause position : Eval α) :=
  fun _ hm => ⟨.fault h, hm⟩

/-- The end of the fuel (`Eval.outOfFuel`), where the policy allows for it. -/
theorem outOfFuel (h : p.exhaustion) : Meets p good (Eval.outOfFuel : Eval α) :=
  fun _ hm => ⟨.outOfFuel h, hm⟩

/-- Results that are good in one way may be good in another (`Policy.Ends.mono`). -/
theorem mono {better : α → Prop} (hx : Meets p good x) (h : ∀ a, good a → better a) :
    Meets p better x :=
  fun _ hm => ⟨(hx hm).1.mono h id id, (hx hm).2⟩

/-- One computation after another, on whatever machine that is admitted (`Eval.MeetsOn.bind`). -/
theorem bind {f : α → Eval β} (hx : Meets p good x) (hf : ∀ a, good a → Meets p fine (f a)) :
    Meets p fine (x >>= f) :=
  fun _ hm => (hx hm).bind fun a _ ha hm' => hf a ha hm'

/-- Something that is read off the context by `Eval.view`, with ordinary causes only. -/
theorem view {read : Context → Except Cause α} (position : Option Position)
    (hok : ∀ m a, p.Admits m → read m.context = .ok a → good a)
    (herror : ∀ context cause, read context = .error cause → cause.Ordinary) :
    Meets p good (Eval.view read position) := by
  intro m hm
  unfold MeetsOn Eval.view Eval.attempt
  cases h : read m.context with
  | ok a => exact ⟨.ok (hok m a hm h), hm⟩
  | error cause => exact ⟨.fault (p.ordinary (herror _ cause h)), hm⟩

/-- A change of the context by `Eval.change` that leaves it admitted, with ordinary causes only. -/
theorem change {step : Context → Except Cause Context} (position : Option Position)
    (hok : ∀ (m : Machine) context, p.Admits m → step m.context = .ok context →
      p.Admits { m with context })
    (herror : ∀ context cause, step context = .error cause → cause.Ordinary) :
    Meets p (fun _ => True) (Eval.change step position) := by
  intro m hm
  unfold MeetsOn Eval.change
  cases hstep : step m.context with
  | ok context => exact ⟨.ok trivial, hok m context hm hstep⟩
  | error cause => exact ⟨.fault (p.ordinary (herror _ cause hstep)), hm⟩

/-- A loop (`Eval.repeatWhile`), which may go on for ever: the policy has to allow for the end of
the fuel. -/
theorem repeatWhile {condition : Eval Bool} {body : Eval (Option α)} {done : α}
    (hexhaustion : p.exhaustion) (hcondition : Meets p (fun _ => True) condition)
    (hbody : Meets p (fun o => ∀ a ∈ o, good a) body) (hdone : good done) (rounds : Nat) :
    Meets p good (Eval.repeatWhile condition body done rounds) := by
  induction rounds with
  | zero => exact .outOfFuel hexhaustion
  | succ rounds ih =>
    unfold Eval.repeatWhile
    refine hcondition.bind fun holds _ => ?_
    cases holds with
    | false => exact .pure hdone
    | true =>
      refine hbody.bind fun result hresult => ?_
      cases result with
      | none => exact ih
      | some a => exact .pure (hresult a rfl)

end Eval.Meets

/-! ## Programs -/

/-- Calls keep to a policy: of its functions, with any arguments. -/
def Caller.Meets (p : Policy) (run : Caller) : Prop :=
  ∀ ⦃f⦄ args site, p.Functions f → (run f args site).Meets p (ComesTo Value.Plain)

namespace Policy

variable {p q : Policy}

/-- That evaluations meet a policy (`Eval.Meets`) is a judgement on them. -/
def judgement (p : Policy) (rounds : Nat) {run : Caller} (hrun : run.Meets p) :
    Judgement rounds rounds run run where
  forms := p.forms
  values := p.Values
  functions := p.Functions
  holds good x _ := x.Meets p good
  pure h := .pure h
  bind hx hf := hx.bind hf
  fail position h := .fail (p.ordinary h) position
  number n := .plain (Value.plain_number n)
  bool b := .plain (Value.plain_bool b)
  string s := .plain (Value.plain_string s)
  unit _ := .plain (Value.plain_unit _)
  quantity _ := .plain (Value.plain_quantity _)
  unary _ h := .plain (Value.combined_of_unary h).plain
  binary _ _ h := .plain (Value.combined_of_binary h).plain
  breaking h := ⟨nofun, fun _ => h, nofun⟩
  continuing h := ⟨nofun, nofun, fun _ => h⟩
  returnNothing := ⟨nofun, nofun, nofun⟩
  returning h := h.returning
  handedOn h := h.handedOn
  read _ position := .view position (fun _ _ hm h => hm.read h) fun _ _ => Context.read_ordinary
  callee _ position :=
    .view position
      (fun _ _ hm hcallee _ hf => hm.functions (Context.Orderly.mem_of_callee (hf ▸ hcallee)))
      fun _ _ => Context.callee_ordinary
  print line := fun _ hm => ⟨.ok trivial, hm.print line⟩
  set position hform hv :=
    .change position (fun _ _ hm h => hm.set hform hv h) fun _ _ => Context.set_ordinary
  declareFunction position hform :=
    .change position (fun _ _ hm h => by cases h; exact hm.declareFunction hform) nofun
  loop hform hcondition hbody hdone := .repeatWhile (p.loop hform) hcondition hbody hdone rounds
  call site hf _ :=
    (hrun _ site hf).mono fun _ hresult v hv => .plain (hresult v hv)

/-- One policy encloses another: under the first, calls may be run under the second. This is where
less is asked inside of a call than outside, as for `Policy.kinds`, or one call less is left, as for
`Policy.loopFree`. -/
structure Encloses (p q : Policy) : Prop where
  bodies {b : Block} : p.bodies b ↔ q.bodies b
  causes {cause : Cause} : q.causes cause → p.causes cause
  exhaustion : q.exhaustion → p.exhaustion
  /-- The body of a function that may be called has forms that the second policy allows. -/
  forms {b : Block} : p.bodies b → ∀ o ∈ b.occurrences false, q.forms o
  enter {m : Machine} {f : Closure} {site : Position} {context : Context} (params : List Param)
    (args : List Located) : p.machines m → m.context.enter f site = .ok context →
    q.machines { m with context := Closure.bindParams params args context }
  leave {m m' : Machine} : p.machines m → q.machines m' →
    m'.context.maxDepth = m.context.maxDepth →
    p.machines { m' with context := { m'.context with frames := m.context.frames } }

/-- What a function gives back has the type that it declares. -/
theorem checkPayload_meets (f : Closure) (payload : Option Located) :
    (f.checkPayload payload).Meets p (ComesTo Value.Plain) := by
  have hordinary {found : Option Kind} : Cause.Ordinary
      (.returnMismatch f.declaration.ident.name f.declaration.returns found) := .of_kind rfl
  simp only [Closure.checkPayload]
  split
  · split
    · next hfits => exact .pure (.some ⟨_, hfits⟩)
    · exact .fail (p.ordinary hordinary) _
  · split
    · exact .pure .nothing
    · exact .fail (p.ordinary hordinary) _

/-- A signal that is no `return`, come to outside of all loops, may be refused. -/
theorem refuseStray_meets {α : Type} {good : α → Prop} {v : Located}
    (hv : p.Values false v.value) (hsignal : v.value.isSignal = true)
    (hreturn : ∀ payload span, v = ⟨.returning payload, span⟩ → False) :
    (v.refuseStray : Eval α).Meets p good := by
  obtain ⟨value, span⟩ := v
  cases value with
  | returning payload => exact (hreturn payload span rfl).elim
  | breaking =>
    have hjump : Form.isJump .breakLoop = true := rfl
    exact .fail (p.stray hjump (hv.breaking rfl) rfl) _
  | continuing =>
    have hjump : Form.isJump .continueLoop = true := rfl
    exact .fail (p.stray hjump (hv.continuing rfl) rfl) _
  | number n => cases n <;> cases hsignal
  | bool | string | unit | quantity | function | native => cases hsignal

/-- So does the end of a call. -/
theorem checkResult_meets (f : Closure) {result : Option Located}
    (h : ComesTo (p.Values false) result) :
    (f.checkResult result).Meets p (ComesTo Value.Plain) := by
  unfold Closure.checkResult
  split
  · exact checkPayload_meets f _
  · next v hreturn =>
    split
    · next hsignal => exact refuseStray_meets (h v rfl) hsignal hreturn
    · exact checkPayload_meets f _
  · exact checkPayload_meets f _

/-- Inside of a call, what is bound globally stays when parameters are bound. -/
theorem bindParams_globals (params : List Param) (args : List Located) {c : Context}
    (h : c.frames ≠ []) : (Closure.bindParams params args c).globals = c.globals := by
  induction params generalizing args c with
  | nil => rfl
  | cons param params ih =>
    cases args with
    | nil => rfl
    | cons arg args =>
      obtain ⟨frame, frames, hframes⟩ := List.exists_cons_of_ne_nil h
      have hbind : c.bind param.ident.name arg = { c with frames :=
          { frame with bindings := frame.bindings.put param.ident.name arg } :: frames } := by
        rw [Context.bind, hframes]
      rw [Closure.bindParams, ih args (by rw [hbind]; exact List.cons_ne_nil _ _), hbind]

/-- A machine on which a call has been entered and the parameters have been bound. -/
theorem Encloses.admits (h : p.Encloses q) {m : Machine} (hm : p.Admits m) {f : Closure}
    (hf : p.Functions f) {args : List Located} {site : Position} {c : Context}
    (hfits : ∀ a ∈ args.zip f.declaration.params, a.1.value.fits a.2.type = true)
    (henter : m.context.enter f site = .ok c) :
    q.Admits { m with context := Closure.bindParams f.declaration.params args c } where
  orderly :=
    (hm.orderly.enter (.function (fun _ _ => trivial) hf.captured) henter).bindParams hfits
  bodies {g} hg := by
    obtain ⟨-, rfl⟩ := Context.enter_eq_ok.1 henter
    obtain ⟨entry, hentry, hvalue⟩ := hg
    rw [bindParams_globals _ _ (List.cons_ne_nil _ _)] at hentry
    exact h.bodies.1 (hm.bodies ⟨entry, hentry, hvalue⟩)
  machines := h.enter _ _ hm.machines henter

/-- A machine on which a call has been left. -/
theorem Encloses.admits_left (h : p.Encloses q) {m m' : Machine} (hm : p.Admits m)
    (hm' : q.Admits m') (hmax : m'.context.maxDepth = m.context.maxDepth) :
    p.Admits { m' with context := { m'.context with frames := m.context.frames } } where
  orderly := ⟨hm'.orderly.globals, hm.orderly.frames⟩
  bodies hg := h.bodies.2 (hm'.bodies hg)
  machines := h.leave hm.machines hm'.machines hmax

/-- A call keeps to a policy if the body of its function keeps to one that is enclosed. -/
theorem Encloses.call (h : p.Encloses q) {body : Eval (Option Located)}
    (hbody : body.Meets q (ComesTo (q.Values false))) (hcalls : body.Obeys .calls) {f : Closure}
    (hf : p.Functions f) (args : List Located) (site : Position) :
    (Closure.call body f args site).Meets p (ComesTo Value.Plain) := by
  rw [Closure.call_eq]
  rcases f.checkArguments_cases f.declaration.params args with
    ⟨hfits, hcheck⟩ | ⟨-, cause, position, hkind, hcheck⟩
  · rw [hcheck, pure_bind]
    intro m hm
    unfold Eval.MeetsOn
    cases henter : m.context.enter f site with
    | error cause =>
      obtain ⟨-, rfl⟩ := Context.enter_eq_error.1 henter
      rw [Eval.entered_of_error henter]
      exact ⟨.fault (p.ordinary (.of_kind rfl)), hm⟩
    | ok c =>
      have hinside : (Closure.inside body f args site).MeetsOn q (ComesTo Value.Plain)
          { m with context := c } := by
        -- The parameters are bound before anything of the body is run.
        have hbound := (hbody.bind fun _ => checkResult_meets f) (h.admits hm hf hfits henter)
        exact .traced (.located site hbound)
      have hsame := (Closure.inside_obeys hcalls f args site).steps { m with context := c }
      have hmax : c.maxDepth = m.context.maxDepth := by
        obtain ⟨-, rfl⟩ := Context.enter_eq_ok.1 henter
        rfl
      rw [Eval.entered_of_ok henter hsame]
      exact ⟨hinside.1.mono (fun _ => id) h.causes h.exhaustion,
        h.admits_left hm hinside.2 (hsame.maxDepth.trans hmax)⟩
  · rw [hcheck, Eval.fail_bind]
    refine .fail (p.ordinary (.of_kind ?_)) _
    rw [hkind]
    rfl

/-- Calls with more fuel meet the enclosing policy if calls with less meet the enclosed one, which
is the step of an induction on the fuel (`callWithin`). -/
theorem Encloses.callWithin_succ (h : p.Encloses q) {fuel : Nat}
    (hrun : (callWithin fuel).Meets q) : (callWithin (fuel + 1)).Meets p := by
  intro f args site hf
  have hbody := f.declaration.body.evaluate_judged (q.judgement fuel hrun) (h.forms hf.body)
  exact h.call hbody (Block.evaluate_obeys (callWithin_obeys fuel) _) hf args site

end Policy

/-- A program keeps to a policy that allows its forms, if calls do. -/
theorem Block.run_meets {p : Policy} {fuel : Nat} (hrun : (callWithin fuel).Meets p)
    {program : Block} (h : ∀ o ∈ program.occurrences false, p.forms o) :
    (program.run fuel).Meets p fun _ => True := by
  have hbody := program.evaluate_judged (p.judgement fuel hrun) h
  intro m hm
  refine Eval.MeetsOn.traced ((hbody hm).bind fun result m' hresult hm' => ?_)
  split
  · exact ⟨.ok trivial, hm'⟩
  · next v hreturn =>
    split
    · next hsignal => exact Policy.refuseStray_meets (hresult v rfl) hsignal hreturn hm'
    · exact ⟨.ok trivial, hm'⟩
  · exact ⟨.ok trivial, hm'⟩

end UnitScript
