import UnitScript.Proofs.Machine.Reachable
import UnitScript.Proofs.Value.Results

/-!
# What may be bound

Calls bind plain values only: those that have one of the types. Globally there are functions as
well, and these have captured plain values only. Signals are bound nowhere (`Context.Orderly`).
This is so on every machine that is reachable, whatever trees are run
(`Machine.Reachable.orderly`): a type lets through plain values only, and an assignment keeps the
kind of what was bound before.

The bodies of the functions that are bound may be limited to some places of the program text. These
are read off the tree of a body (`Block.places`).
-/

namespace UnitScript

/-! ## Places in trees -/

/-- The place where a name is written. -/
def Ident.place (ident : Ident) : Position := ident.span.start

mutual

/-- The places where a node starts, and all nodes and names inside it (`Ident.place`). -/
def Node.places : Node → List Position
  | ⟨span, form⟩ => span.start :: form.places

/-- The places inside a form. -/
def Form.places : Form → List Position
  | .int _ | .double _ | .string _ | .bool _ | .returnNothing | .breakLoop | .continueLoop => []
  | .unit numerator denominator => (numerator ++ denominator).map Ident.place
  | .phys magnitude unit => magnitude.places ++ unit.places
  | .unary _ operand => operand.places
  | .binary _ left right => left.places ++ right.places
  | .variable ident => [ident.place]
  | .assign _ ident value => ident.place :: value.places
  | .ifElse alternatives => alternatives.places
  | .whileLoop condition body => condition.places ++ body.places
  | .function ident params _ body =>
    ident.place :: (params.map fun param => param.ident.place) ++ body.places
  | .call ident args => ident.place :: Node.allPlaces args
  | .returnValue value => value.places
  | .block block => block.places

/-- The places of several nodes. -/
def Node.allPlaces : List Node → List Position
  | [] => []
  | node :: nodes => node.places ++ Node.allPlaces nodes

/-- The places inside a block. -/
def Block.places : Block → List Position
  | ⟨_, items⟩ => Node.allPlaces items

/-- The places inside alternatives. -/
def Alternatives.places : Alternatives → List Position
  | .none => []
  | .otherwise block => block.places
  | .case condition body others => condition.places ++ (body.places ++ others.places)

end

/-! ## Values that are bound -/

namespace Value

/-- A value of some type (`Value.fits`), which is to say data. -/
def Plain (v : Value) : Prop := ∃ type, v.fits type = true

variable {v w : Value}

/-- Plain values are told by their kinds (`Kind.fits`). -/
theorem Plain.of_kind (h : v.Plain) (hkind : v.kind = w.kind) : w.Plain := by
  obtain ⟨type, hfits⟩ := h
  refine ⟨type, ?_⟩
  unfold fits at hfits ⊢
  rwa [← hkind]

/-- Plain values are no signals (`Value.isSignal`), since no signal is of a type. -/
theorem Plain.isSignal (h : v.Plain) : v.isSignal = false := by
  obtain ⟨type, hfits⟩ := h
  unfold fits at hfits
  unfold Value.isSignal
  generalize v.kind = kind at hfits ⊢
  cases kind with
  | int | double | bool | string | unit | quantity | function | native => rfl
  | returning | breaking | continuing => cases hfits

/-- Nor are they functions, for which there is no `TypeName` either. -/
theorem Plain.ne_function (h : v.Plain) (f : Closure) : v ≠ function f := by
  rintro rfl
  obtain ⟨type, hfits⟩ := h
  cases hfits

theorem plain_number (n : Number) : (number n).Plain := by
  cases n with
  | int => exact ⟨.int, rfl⟩
  | double => exact ⟨.double, rfl⟩

theorem plain_bool (b : Bool) : (bool b).Plain := ⟨.bool, rfl⟩

theorem plain_string (s : String) : (string s).Plain := ⟨.string, rfl⟩

theorem plain_unit (u : Units) : (unit u).Plain := ⟨.unit, rfl⟩

theorem plain_quantity (q : Quantity) : (quantity q).Plain := ⟨.phys, rfl⟩

/-- What operators come to is plain (`Combined`). -/
theorem Combined.plain {a b c : Value} (h : Combined a b c) : c.Plain := by
  cases h with
  | number => exact plain_number _
  | bool => exact plain_bool _
  | string => exact plain_string _
  | unit | unitProduct | unitQuotient => exact plain_unit _
  | keptLeft | keptRight | product | quotient | inverted => exact plain_quantity _

end Value

/-- All that is bound is plain. -/
def Bindings.Plain (bindings : Bindings) : Prop := ∀ entry ∈ bindings, entry.2.value.Plain

/-- A value that may be bound globally: one that is plain (`Value.Plain`), or a function that has
captured plain values only and whose body stays within some places (`Block.places`). -/
inductive Value.Storable (places : Position → Prop) : Value → Prop
  | plain {v : Value} : v.Plain → Storable places v
  | function {f : Closure} : (∀ p ∈ f.declaration.body.places, places p) →
    Bindings.Plain f.captured → Storable places (.function f)
  | native {f : Native} : Storable places (.native f)

/-- What may be bound is no signal (`Value.isSignal`). -/
theorem Value.Storable.isSignal {places : Position → Prop} {v : Value} (h : v.Storable places) :
    v.isSignal = false := by
  cases h with
  | plain h => exact h.isSignal
  | function | native => rfl

/-- A value of the kind of one that is bound is no signal either, and so may be bound
(`Value.Storable`) if any value that is no signal may. -/
theorem Value.Storable.of_kind {places : Position → Prop} {present v : Value}
    (hpresent : present.Storable places) (hkind : present.kind = v.kind)
    (hv : v.isSignal = false → v.Storable places) : v.Storable places := by
  refine hv ?_
  have hsignal := hpresent.isSignal
  unfold Value.isSignal at hsignal ⊢
  rwa [← hkind]

/-- What calls bind is plain (`Bindings.Plain`), and what is bound globally may be
(`Value.Storable`). -/
structure Context.Orderly (places : Position → Prop) (c : Context) : Prop where
  globals : ∀ entry ∈ c.globals, entry.2.value.Storable places
  frames : ∀ frame ∈ c.frames, Bindings.Plain frame.bindings

/-! ## Bindings -/

namespace Bindings

variable {bindings : Bindings} {name : String} {v : Located}

/-- What is found (`Bindings.get?`) is bound. -/
theorem mem_of_get? (h : bindings.get? name = some v) : (name, v) ∈ bindings := by
  obtain ⟨before, after, rfl, -⟩ := List.lookup_eq_some_iff.1 h
  exact List.mem_append_right _ List.mem_cons_self

/-- What holds of all that is bound, and of one value more, holds when that is bound as well
(`Bindings.put`). -/
theorem forall_mem_put {good : Value → Prop} (h : ∀ entry ∈ bindings, good entry.2.value)
    (hv : good v.value) : ∀ entry ∈ bindings.put name v, good entry.2.value := by
  induction bindings with
  | nil => exact List.forall_mem_cons.2 ⟨hv, nofun⟩
  | cons first bindings ih =>
    obtain ⟨hfirst, hrest⟩ := List.forall_mem_cons.1 h
    obtain ⟨other, present⟩ := first
    rw [put]
    split
    · exact List.forall_mem_cons.2 ⟨hv, hrest⟩
    · exact List.forall_mem_cons.2 ⟨hfirst, ih hrest⟩

end Bindings

/-! ## Contexts -/

namespace Context.Orderly

variable {places : Position → Prop} {c c' : Context} {name : String} {v : Located}

/-- What a call has bound is plain (`Context.Orderly.frames`). -/
theorem plain_of_mem (h : c.Orderly places) {frame : Frame} {frames : List Frame}
    (hframes : c.frames = frame :: frames) : Bindings.Plain frame.bindings :=
  h.frames frame (hframes ▸ List.mem_cons_self)

/-- What the innermost scope binds (`Context.current`) is plain inside of a call, and may be bound
globally outside. -/
theorem current (h : c.Orderly places) (hv : c.current.get? name = some v) :
    c.frames = [] ∧ v.value.Storable places ∨ v.value.Plain := by
  unfold Context.current at hv
  split at hv
  · next hnone => exact .inl ⟨hnone, h.globals _ (Bindings.mem_of_get? hv)⟩
  · next hframes => exact .inr (h.plain_of_mem hframes _ (Bindings.mem_of_get? hv))

/-- What is visible (`Context.lookup?`) may be bound. -/
theorem lookup? (h : c.Orderly places) (hv : c.lookup? name = some v) :
    v.value.Storable places := by
  rcases Option.or_eq_some_iff.1 hv with hcurrent | ⟨-, hglobal⟩
  · rcases h.current hcurrent with ⟨-, hv⟩ | hv
    · exact hv
    · exact .plain hv
  · exact h.globals _ (Bindings.mem_of_get? hglobal)

/-- What is read (`Context.read`) may be bound. -/
theorem read (h : c.Orderly places) (hread : c.read name = .ok v) : v.value.Storable places := by
  unfold Context.read at hread
  split at hread
  · next hv =>
    cases hread
    exact h.lookup? hv
  · cases hread

/-- What can be called (`Context.callee`) is bound globally. -/
theorem mem_of_callee {f : Closure} (hcallee : c.callee name = .ok (.closure f)) :
    ∃ entry ∈ c.globals, entry.2.value = .function f := by
  unfold Context.callee at hcallee
  split at hcallee
  · cases hcallee
  · next hf =>
    cases hcallee
    exact ⟨_, Bindings.mem_of_get? hf, rfl⟩
  · cases hcallee
  · cases hcallee

/-- So it may be bound (`Value.Storable`). -/
theorem callee (h : c.Orderly places) {f : Closure} (hcallee : c.callee name = .ok (.closure f)) :
    (Value.function f).Storable places := by
  obtain ⟨entry, hentry, hf⟩ := mem_of_callee hcallee
  exact hf ▸ h.globals entry hentry

/-- What may be bound is bound globally (`Context.bindGlobal`). -/
theorem bindGlobal (h : c.Orderly places) (hv : v.value.Storable places) :
    (c.bindGlobal name v).Orderly places :=
  ⟨Bindings.forall_mem_put h.globals hv, h.frames⟩

/-- A plain value is bound in a call (`Context.bind`). -/
theorem bind (h : c.Orderly places) (hv : v.value.Plain) : (c.bind name v).Orderly places := by
  unfold Context.bind
  split
  · exact h.bindGlobal (.plain hv)
  · next frame frames hframes =>
    obtain ⟨hframe, hrest⟩ := List.forall_mem_cons.1 (hframes ▸ h.frames)
    exact ⟨h.globals, List.forall_mem_cons.2 ⟨Bindings.forall_mem_put hframe hv, hrest⟩⟩

/-- A variable is set (`Context.set`). Signals are refused, since they are of no type and of no kind
that is bound. -/
theorem set (h : c.Orderly places) {type : Option TypeName}
    (hv : v.value.isSignal = false → v.value.Storable places) (hset : c.set name type v = .ok c') :
    c'.Orderly places := by
  unfold Context.set Context.declare Context.assign at hset
  split at hset
  · next type =>
    split at hset
    · next hfits =>
      cases hset
      exact h.bind ⟨type, hfits⟩
    · cases hset
  · split at hset
    · cases hset
    · next present hpresent =>
      split at hset
      · next hkind =>
        cases hset
        have hstorable := (h.lookup? hpresent).of_kind hkind hv
        split
        · next hcurrent =>
          -- The value that is replaced is the one of the innermost scope.
          obtain ⟨found, hfound⟩ := Option.isSome_iff_exists.1 hcurrent
          have hsame : found = present := by
            rw [Context.lookup?, hfound] at hpresent
            exact Option.some.inj hpresent
          subst hsame
          rcases h.current hfound with ⟨hnone, -⟩ | hplain
          · rw [Context.bind, hnone]
            exact h.bindGlobal hstorable
          · exact h.bind (hplain.of_kind hkind)
        · exact h.bindGlobal hstorable
      · cases hset

/-- What a function captures is plain (`Context.capture`): it is what a call has bound, or
nothing. -/
theorem capture (h : c.Orderly places) : Bindings.Plain c.capture := by
  unfold Context.capture
  split
  · exact nofun
  · next hframes => exact h.plain_of_mem hframes

/-- A function is defined (`Context.declareFunction`) whose body stays within the places. -/
theorem declareFunction (h : c.Orderly places) {declaration : Declaration}
    (hbody : ∀ p ∈ declaration.body.places, places p) :
    (c.declareFunction declaration).Orderly places :=
  h.bindGlobal (.function hbody h.capture)

/-- A function that may be bound is entered: what it has captured is plain, and the new frame binds
nothing else yet (`Context.enter`). -/
theorem enter (h : c.Orderly places) {f : Closure} {site : Position}
    (hf : (Value.function f).Storable places) (henter : c.enter f site = .ok c') :
    c'.Orderly places := by
  obtain ⟨-, rfl⟩ := Context.enter_eq_ok.1 henter
  refine ⟨h.globals, List.forall_mem_cons.2 ⟨?_, h.frames⟩⟩
  cases hf with
  | plain hplain => exact absurd rfl (hplain.ne_function f)
  | function _ hcaptured => exact hcaptured

/-- A call is left (`Context.leave`), and all that it has bound is gone. -/
theorem leave (h : c.Orderly places) (hleave : c.leave = .ok c') : c'.Orderly places := by
  unfold Context.leave at hleave
  split at hleave
  · cases hleave
  · next hframes =>
    cases hleave
    exact ⟨h.globals, fun frame hframe => h.frames frame (hframes ▸ List.mem_cons_of_mem _ hframe)⟩

/-- Parameters are bound to arguments that fit them (`Closure.bindParams`), which are plain for that
reason. -/
theorem bindParams (h : c.Orderly places) {params : List Param} {args : List Located}
    (hfits : ∀ p ∈ args.zip params, p.1.value.fits p.2.type = true) :
    (Closure.bindParams params args c).Orderly places := by
  induction params generalizing args c with
  | nil => exact h
  | cons param params ih =>
    cases args with
    | nil => exact h
    | cons arg args =>
      rw [List.zip_cons_cons] at hfits
      obtain ⟨hfirst, hfits⟩ := List.forall_mem_cons.1 hfits
      exact ih (h.bind ⟨param.type, hfirst⟩) hfits

/-- The places may be narrowed down to those where the bodies of the bound functions are
(`Machine.Stores`). -/
theorem narrow (h : c.Orderly places) {fewer : Position → Prop}
    (hbodies : ∀ entry ∈ c.globals, ∀ f, entry.2.value = .function f →
      ∀ p ∈ f.declaration.body.places, fewer p) : c.Orderly fewer := by
  refine ⟨fun entry hentry => ?_, h.frames⟩
  have hstorable := h.globals entry hentry
  have hbody := hbodies entry hentry
  generalize entry.2.value = v at hstorable hbody
  cases hstorable with
  | plain hplain => exact .plain hplain
  | function _ hcaptured => exact .function (hbody _ rfl) hcaptured
  | native => exact .native

/-- Where nothing has run (`Context.initial`), only the printer is bound. -/
theorem initial (maxDepth : Nat) : (Context.initial maxDepth).Orderly places :=
  ⟨List.forall_mem_cons.2 ⟨.native, nofun⟩, nofun⟩

/-- A function that is read (`Context.read`) is bound globally: what calls bind is plain. -/
theorem mem_of_read (h : c.Orderly places) (hread : c.read name = .ok v) {f : Closure}
    (hf : v.value = .function f) : ∃ entry ∈ c.globals, entry.2.value = .function f := by
  have hlookup : c.lookup? name = some v := by
    unfold Context.read at hread
    split at hread
    · next hv =>
      cases hread
      exact hv
    · cases hread
  rcases Option.or_eq_some_iff.1 hlookup with hcurrent | ⟨-, hglobal⟩
  · rcases h.current hcurrent with ⟨hnone, -⟩ | hplain
    · rw [Context.current, hnone] at hcurrent
      exact ⟨_, Bindings.mem_of_get? hcurrent, hf⟩
    · exact absurd hf (hplain.ne_function f)
  · exact ⟨_, Bindings.mem_of_get? hglobal, hf⟩

end Context.Orderly

/-- A function is bound globally, so that calls may find it (`Context.callee`). -/
def Machine.Stores (m : Machine) (f : Closure) : Prop :=
  ∃ entry ∈ m.context.globals, entry.2.value = .function f

/-! ## Reachable machines -/

/-- A function is a value, or what a value returns (`Value.returning`), at any depth. -/
inductive Value.Gives : Value → Closure → Prop
  | function {f : Closure} : Gives (.function f) f
  | returned {v : Located} {f : Closure} : v.value.Gives f → Gives (.returning (some v)) f

/-- The functions that a value gives (`Value.Gives`) have captured plain values only. -/
def Value.Capturing (v : Value) : Prop := ∀ f, v.Gives f → Bindings.Plain f.captured

namespace Value

variable {v : Value}

/-- Plain values give no functions (`Value.Gives`). -/
theorem Plain.capturing (h : v.Plain) : v.Capturing := by
  intro f hf
  cases hf with
  | function => exact absurd rfl (h.ne_function f)
  | returned => cases h.isSignal

/-- Whatever may be bound is in order: its functions have captured plain values
(`Value.Capturing`). -/
theorem Storable.capturing {places : Position → Prop} (h : v.Storable places) : v.Capturing := by
  cases h with
  | plain h => exact h.capturing
  | function _ hcaptured =>
    intro f hf
    cases hf
    exact hcaptured
  | native => exact nofun

/-- What is in order may be bound anywhere unless it is a signal (`Value.Storable`). -/
theorem Capturing.storable (h : v.Capturing) (hsignal : v.isSignal = false) :
    v.Storable fun _ => True := by
  cases v with
  | number n => exact .plain (plain_number n)
  | bool b => exact .plain (plain_bool b)
  | string s => exact .plain (plain_string s)
  | unit u => exact .plain (plain_unit u)
  | quantity q => exact .plain (plain_quantity q)
  | function f => exact .function (fun _ _ => trivial) (h f .function)
  | native f => exact .native
  | returning | breaking | continuing => cases hsignal

end Value

/-- The regime of what may be bound: `Context.Orderly` for machines, `Value.Capturing` for
values. -/
def Regime.orderly : Regime where
  machines m := m.context.Orderly fun _ => True
  values := Value.Capturing
  number n := (Value.plain_number n).capturing
  bool b := (Value.plain_bool b).capturing
  string s := (Value.plain_string s).capturing
  breaking := nofun
  continuing := nofun
  returnNothing := nofun
  returning {v} := by
    refine ⟨fun h f hf => h f (.returned hf), fun h f hf => ?_⟩
    cases hf with
    | returned hf => exact h f hf
  unit _ := (Value.plain_unit _).capturing
  quantity _ := (Value.plain_quantity _).capturing
  unary _ h := (Value.combined_of_unary h).plain.capturing
  binary _ _ h := (Value.combined_of_binary h).plain.capturing
  read h hread := (h.read hread).capturing
  callee h hcallee := (h.callee hcallee).capturing
  print _ h := h
  set h hv hset := h.set hv.storable hset
  declareFunction _ h := h.declareFunction fun _ _ => trivial
  enter h hf henter := h.enter (hf.storable rfl) henter
  leave h hleave := h.leave hleave

/-- On reachable machines calls bind plain values only, and no signals are bound
(`Context.Orderly`). -/
theorem Machine.Reachable.orderly {m : Machine} (h : m.Reachable) :
    m.context.Orderly fun _ => True :=
  h.machines (r := .orderly) fun maxDepth => .initial maxDepth

end UnitScript
