import Mathlib.Data.List.Induction
import Mathlib.Data.List.Infix
import UnitScript.Proofs.Calls.Stack
import UnitScript.Proofs.Context.Scopes
import UnitScript.Proofs.Except

/-!
# The laws of contexts

A context behaves like a map from names to values for the program and a stack of such maps for the
calls in progress: whatever operations are performed, these maps answer them in the same way
(`Context.maps_step`). So a name is read from the innermost map or else from the global one, each
operation that writes changes what one of the maps has for one name, a call that is over leaves
nothing behind but global values, and an operation that is refused changes nothing
(`Context.Laws`, `Context.storeLaws`).
-/

namespace UnitScript

/-- Global values by name, and those of each call in progress, innermost first: contexts as plain
maps, where `Function.update` is all there is to writing. -/
structure Maps where
  globals : String → Option Located
  locals : List (String → Option Located)
  maxDepth : Nat

namespace Maps

/-- The map of the innermost call, or the global one where there is none, as `Context.current` has
it for bindings. -/
def current (s : Maps) : String → Option Located :=
  match s.locals with
  | [] => s.globals
  | values :: _ => values

/-- The nearest visible value of a name: that of the `current` map, or else the global one. -/
def lookup? (s : Maps) (name : String) : Option Located :=
  (s.current name).or (s.globals name)

/-- The maps with another global value of a name, by `Function.update`. -/
def bindGlobal (s : Maps) (name : String) (v : Located) : Maps :=
  { s with globals := Function.update s.globals name (some v) }

/-- The maps with another value of a name in the innermost call, or in the global map where there is
none. -/
def bind (s : Maps) (name : String) (v : Located) : Maps :=
  match s.locals with
  | [] => s.bindGlobal name v
  | values :: others => { s with locals := Function.update values name (some v) :: others }

/-- An operation with the maps behind it, written without the functions of `Context`: each case says
outright what is read, checked and updated. -/
def perform (s : Maps) : Operation → Except Cause (Answer × Maps)
  | .get name =>
    match s.lookup? name with
    | some v => .ok (.value v, s)
    | none => .error (.undefinedVariable name)
  | .set name (some type) v =>
    if v.value.fits type then .ok (.done, s.bind name v)
    else .error (.declarationMismatch name type v.value.kind)
  | .set name none v =>
    match s.lookup? name with
    | none => .error (.undeclaredVariable name)
    | some present =>
      if present.value.kind = v.value.kind then
        .ok (.done, if (s.current name).isSome then s.bind name v else s.bindGlobal name v)
      else .error (.reassignmentMismatch name present.value.kind v.value.kind)
  | .bind name v => .ok (.done, s.bind name v)
  | .define f => .ok (.done, s.bindGlobal f.declaration.ident.name ⟨.function f, none⟩)
  | .provide f => .ok (.done, s.bindGlobal f.name ⟨.native f, none⟩)
  | .capture =>
    match s.locals with
    | [] => .ok (.captured fun _ => none, s)
    | values :: _ => .ok (.captured values, s)
  | .enter f _ =>
    if s.locals.length < s.maxDepth then
      .ok (.done, { s with locals := Bindings.get? f.captured :: s.locals })
    else .error (.recursionLimit f.declaration.ident.name s.maxDepth)
  | .leave =>
    match s.locals with
    | [] => .error .noCallToLeave
    | _ :: locals => .ok (.done, { s with locals })

/-- An operation, after which the maps are as before if it is refused (`Operation.attempt`). -/
def step : Maps → Operation → Except Cause Answer × Maps := Operation.attempt perform

/-- The maps in which nothing has run: no call is in progress, and globally there is one native
function. -/
def initial (maxDepth : Nat) : Maps :=
  bindGlobal ⟨fun _ => none, [], maxDepth⟩ Context.printer.name ⟨.native Context.printer, none⟩

end Maps

/-! ## Contexts as maps -/

/-- Reading after writing (`Bindings.put`) is reading an updated map (`Function.update`), for all
names at once. -/
theorem Bindings.get?_put_eq_update (bindings : Bindings) (name : String) (v : Located) :
    Bindings.get? (Bindings.put name v bindings) =
      Function.update (Bindings.get? bindings) name (some v) := by
  funext other
  simp only [Bindings.get?_put, Function.update_apply, eq_comm]

namespace Context

/-- A context as `Maps`: what its bindings answer by name, without the order in which they are
kept. -/
def maps (c : Context) : Maps where
  globals := Bindings.get? c.globals
  locals := c.frames.map fun frame => Bindings.get? frame.bindings
  maxDepth := c.maxDepth

variable {c c' : Context} {name : String} {v : Located}

/-- The current map is that of the current bindings. -/
@[simp] theorem maps_current (c : Context) : c.maps.current = Bindings.get? c.current := by
  rw [Maps.current, current, maps]
  cases c.frames with
  | nil => rfl
  | cons frame frames => rfl

/-- Names are looked up alike. -/
@[simp] theorem maps_lookup? (c : Context) (name : String) :
    c.maps.lookup? name = c.lookup? name := by
  rw [Maps.lookup?, maps_current, lookup?]
  rfl

/-- Binding globally updates the global map. -/
@[simp] theorem maps_bindGlobal (c : Context) (name : String) (v : Located) :
    (c.bindGlobal name v).maps = c.maps.bindGlobal name v := by
  rw [maps, bindGlobal, Bindings.get?_put_eq_update]
  rfl

/-- Binding updates the current map. -/
@[simp] theorem maps_bind (c : Context) (name : String) (v : Located) :
    (c.bind name v).maps = c.maps.bind name v := by
  cases h : c.frames with
  | nil => simp [bind, Maps.bind, h, maps, Maps.bindGlobal, bindGlobal,
      Bindings.get?_put_eq_update]
  | cons frame frames => simp [bind, Maps.bind, maps, h, Bindings.get?_put_eq_update]

/-- `Maps.perform` answers every operation like `Context.perform`, and leaves the maps of the
context behind it. -/
theorem maps_perform (c : Context) (operation : Operation) :
    c.maps.perform operation = (c.perform operation).map (Prod.map id maps) := by
  cases operation with
  | get name =>
    simp only [Maps.perform, maps_lookup?, perform, read]
    cases c.lookup? name with
    | none => rfl
    | some v => rfl
  | set name type v =>
    cases type with
    | some type =>
      simp only [Maps.perform, perform, set, declare, ← maps_bind]
      split
      · rfl
      · rfl
    | none =>
      simp only [Maps.perform, maps_lookup?, maps_current, perform, set, assign, ← maps_bind,
        ← maps_bindGlobal]
      cases c.lookup? name with
      | none => rfl
      | some present =>
        by_cases hkind : present.value.kind = v.value.kind
        · simp only [hkind, if_true, ← apply_ite maps]
          rfl
        · simp only [hkind, if_false]
          rfl
  | bind name v =>
    rw [Maps.perform, ← maps_bind]
    rfl
  | define f =>
    rw [Maps.perform, ← maps_bindGlobal]
    rfl
  | provide f =>
    rw [Maps.perform, ← maps_bindGlobal]
    rfl
  | capture =>
    obtain ⟨globals, frames, maxDepth⟩ := c
    cases frames with
    | nil => rfl
    | cons frame frames => rfl
  | enter f site =>
    rw [Maps.perform, perform, enter, depth, maps, List.length_map]
    split
    · rfl
    · rfl
  | leave =>
    rw [Maps.perform, perform, leave, maps]
    cases h : c.frames with
    | nil => rfl
    | cons frame frames => rfl

/-- Maps answer an operation like the context (`Context.step`) and stay its maps, also where it is
refused. -/
theorem maps_step (c : Context) (operation : Operation) :
    c.maps.step operation = ((c.step operation).1, (c.step operation).2.maps) := by
  rw [Maps.step, Operation.attempt, maps_perform, step, Operation.attempt]
  cases c.perform operation with
  | error cause => rfl
  | ok result => rfl

/-- `Context.initial` has the maps `Maps.initial`, so whole runs of operations can be compared from
the beginning on (`Operation.sequence_simulates`). -/
theorem maps_initial (maxDepth : Nat) : (initial maxDepth).maps = Maps.initial maxDepth :=
  maps_bindGlobal _ _ _

/-! ## What an operation changes -/

/-- The stack of calls has one activation more than there are calls in progress (`Context.depth`):
that of the program. -/
theorem length_callStack (c : Context) : c.callStack.length = c.depth + 1 := by
  simp [callStack, traceback, depth]

/-- From the first context to the second, only the value of one name in the scope of one number
(`Storage.at?`) is another one, and it is this. The calls in progress are the same. -/
structure Writes (c : Context) (i : Nat) (name : String) (v : Located) (c' : Context) : Prop where
  values (j : Nat) (other : String) :
    c'.storage.at? j other = if j = i ∧ other = name then some v else c.storage.at? j other
  callStack : c'.callStack = c.callStack
  maxDepth : c'.maxDepth = c.maxDepth

/-- What `Storage.put` writes at the number of a scope is what is read there, and nothing else is
(`Writes`). -/
theorem writes_of_put {i : Nat} (hi : i ≤ c.depth) (h : c'.storage = c.storage.put i name v) :
    c.Writes i name v c' where
  values j other := by
    rw [h, Storage.at?, Storage.put, Storage.at?]
    by_cases hj : j = i
    · subst hj
      have hlt : j < c.storage.scopes.length := by
        rw [storage, length_scopes]
        exact Nat.lt_succ_of_le hi
      rw [List.getElem?_modify_eq, List.getElem?_eq_getElem hlt]
      simp only [Option.map_eq_map, Option.map_some, Option.bind_some, Scope.put,
        Bindings.get?_put, true_and, eq_comm]
    · rw [List.getElem?_modify_ne _ _ (Ne.symm hj), if_neg fun h => hj h.1]
  callStack := congrArg Storage.callStack h
  maxDepth := congrArg Storage.maxDepth h

/-- Binding writes in the innermost scope. -/
theorem writes_bind (c : Context) (name : String) (v : Located) :
    c.Writes c.depth name v (c.bind name v) :=
  writes_of_put (Nat.le_refl _) (c.storage_put_depth name v).symm

/-- Binding globally writes in the first scope. -/
theorem writes_bindGlobal (c : Context) (name : String) (v : Located) :
    c.Writes 0 name v (c.bindGlobal name v) :=
  writes_of_put (Nat.zero_le _) rfl

/-- Declaring by `Context.set` writes in the innermost scope (`Writes`), whatever is visible from
outside of it. -/
theorem writes_of_declare {type : TypeName} (h : c.set name (some type) v = .ok c') :
    c.Writes c.depth name v c' := by
  rw [set, declare] at h
  split at h
  · cases h
    exact c.writes_bind name v
  · cases h

/-- What `Context.lookup?` reads of a name is what the scope binds that `Context.holder?` finds. -/
theorem lookup?_of_holder? {i : Nat} (h : c.holder? name = some i) :
    c.lookup? name = c.storage.at? i name := by
  rw [← holder?_bind_at?, h, Option.bind_some]

/-- Assigning by `Context.set` writes in the scope that holds what is read (`Context.holder?`), over
a value of the same kind. -/
theorem writes_of_assign (h : c.set name none v = .ok c') :
    ∃ i present, c.holder? name = some i ∧ c.storage.at? i name = some present ∧
      present.value.kind = v.value.kind ∧ c.Writes i name v c' := by
  rw [set, assign] at h
  cases hlookup : c.lookup? name with
  | none =>
    rw [hlookup] at h
    cases h
  | some present =>
    rw [hlookup] at h
    simp only at h
    split at h
    · next hkind =>
      cases h
      cases hcurrent : Bindings.get? c.current name with
      | some v' =>
        have hholder : c.holder? name = some c.depth := by
          rw [holder?, hcurrent]
          rfl
        refine ⟨c.depth, present, hholder, ?_, hkind, c.writes_bind name v⟩
        rw [← lookup?_of_holder? hholder, hlookup]
      | none =>
        have hholder : c.holder? name = some 0 := by
          rw [lookup?, hcurrent, Option.none_or] at hlookup
          rw [holder?, hcurrent, hlookup]
          rfl
        refine ⟨0, present, hholder, ?_, hkind, c.writes_bindGlobal name v⟩
        rw [← lookup?_of_holder? hholder, hlookup]
    · cases h

/-- Where a value is written (`Writes`) in the scope of a name that is read, or in the innermost
one, `Context.lookup?` finds it afterwards, and other names have the values from before. -/
theorem Writes.lookup? {i : Nat} (h : c.Writes i name v c')
    (hi : i = c.depth ∨ c.holder? name = some i) (other : String) :
    c'.lookup? other = if other = name then some v else c.lookup? other := by
  have hdepth : c'.depth = c.depth := by
    have hlength := congrArg List.length h.callStack
    rwa [length_callStack, length_callStack, Nat.add_right_cancel_iff] at hlength
  have hlookup (c : Context) (name : String) :
      c.lookup? name = (c.storage.at? c.depth name).or (c.storage.at? 0 name) := by
    rw [storage_at?_depth, storage_at?_zero, Context.lookup?]
  rw [hlookup, hlookup, hdepth, h.values, h.values]
  by_cases hother : other = name
  · subst hother
    simp only [and_true, if_true]
    by_cases hcurrent : c.depth = i
    · rw [if_pos hcurrent, Option.some_or]
    · -- The innermost scope does not bind the name, so the global one holds it.
      have hheld := hi.resolve_left (Ne.symm hcurrent)
      rw [holder?] at hheld
      split at hheld
      · exact absurd (Option.some.inj hheld) hcurrent
      · next hnone =>
        split at hheld
        · cases hheld
          rw [if_neg hcurrent, if_pos rfl, storage_at?_depth, Option.not_isSome_iff_eq_none.1 hnone,
            Option.none_or]
        · cases hheld
  · simp only [hother, and_false, if_false]

/-! ## What happens between entering and leaving -/

/-- An operation leaves the calls in progress as they are (`Context.SameCalls`), begins one, or ends
the innermost one. -/
theorem step_calls (c : Context) (operation : Operation) :
    c.SameCalls (c.step operation).2 ∨
      (∃ frame, (c.step operation).2 = { c with frames := frame :: c.frames }) ∨
      ∃ frame frames, c.frames = frame :: frames ∧ (c.step operation).2 = { c with frames } := by
  cases h : c.perform operation with
  | error cause =>
    have hstep : (c.step operation).2 = c := by rw [step, Operation.attempt, h]
    exact .inl (hstep.symm ▸ .refl c)
  | ok result =>
    have hstep : (c.step operation).2 = result.2 := by rw [step, Operation.attempt, h]
    rw [hstep]
    cases operation with
    | get name =>
      obtain ⟨v, -, rfl⟩ := Except.map_eq_ok.1 h
      exact .inl (.refl c)
    | set name type v =>
      obtain ⟨c', hset, rfl⟩ := Except.map_eq_ok.1 h
      exact .inl (.set hset)
    | bind name v =>
      cases h
      exact .inl (.bind c name v)
    | define f =>
      cases h
      exact .inl (.bindGlobal c _ _)
    | provide f =>
      cases h
      exact .inl (.bindGlobal c _ _)
    | capture =>
      cases h
      exact .inl (.refl c)
    | enter f site =>
      obtain ⟨c', henter, rfl⟩ := Except.map_eq_ok.1 h
      obtain ⟨-, rfl⟩ := enter_eq_ok.1 henter
      exact .inr (.inl ⟨_, rfl⟩)
    | leave =>
      obtain ⟨c', hleave, rfl⟩ := Except.map_eq_ok.1 h
      rw [leave] at hleave
      split at hleave
      · cases hleave
      · next frame frames hframes =>
        cases hleave
        exact .inr (.inr ⟨frame, frames, hframes, rfl⟩)

/-- Calls in progress are there, unchanged, behind any operation if there are more on top of them:
the step of the induction in `suffix_of_after`. -/
theorem suffix_of_step {below : List Frame} {operation : Operation} (h : below <:+ c.frames)
    (hdepth : below.length < c.depth) :
    below <:+ (c.step operation).2.frames ∧ (c.step operation).2.maxDepth = c.maxDepth := by
  obtain ⟨frame, frames, hframes⟩ :=
    List.exists_cons_of_length_pos (Nat.lt_of_le_of_lt (Nat.zero_le _) hdepth)
  have htail : below <:+ frames := by
    rcases List.suffix_cons_iff.1 (hframes ▸ h) with heq | htail
    · rw [depth, hframes, heq] at hdepth
      exact absurd hdepth (Nat.lt_irrefl _)
    · exact htail
  rcases c.step_calls operation with hsame | ⟨entered, hstep⟩ | ⟨left, others, hothers, hstep⟩
  · refine ⟨?_, hsame.maxDepth⟩
    have hbelow := hsame.below
    rw [hframes, List.tail_cons] at hbelow
    exact (hbelow ▸ htail).trans (List.tail_suffix _)
  · rw [hstep]
    exact ⟨h.trans (List.suffix_cons _ _), rfl⟩
  · rw [hstep]
    cases hframes.symm.trans hothers
    exact ⟨htail, rfl⟩

/-- The context behind one more operation. -/
theorem after_append (c : Context) (operations : List Operation) (operation : Operation) :
    c.after (operations ++ [operation]) = ((c.after operations).step operation).2 :=
  Operation.sequence_append c operations [operation]

/-- Calls in progress stay below over all operations (`Context.after`) that do not end the call on
top of them. -/
theorem suffix_of_after {below : List Frame} {operations : List Operation}
    (h : below <:+ c.frames)
    (hdepth : ∀ front, front <+: operations → below.length < (c.after front).depth) :
    below <:+ (c.after operations).frames ∧ (c.after operations).maxDepth = c.maxDepth := by
  induction operations using List.reverseRecOn with
  | nil => exact ⟨h, rfl⟩
  | append_singleton operations operation ih =>
    obtain ⟨hsuffix, hmax⟩ := ih fun front hfront =>
      hdepth front (hfront.trans (List.prefix_append _ _))
    obtain ⟨hsuffix, hmax'⟩ :=
      suffix_of_step hsuffix (hdepth operations (List.prefix_append _ _))
    rw [after_append]
    exact ⟨hsuffix, hmax'.trans hmax⟩

/-- Leaving a call brings back the context from which it was entered, but for global values,
whatever operations have been performed inside, as long as none of them ends that call
(`suffix_of_after`). -/
theorem leave_after_enter {c₁ : Context} {f : Closure} {site : Position}
    {operations : List Operation} (henter : c.enter f site = .ok c₁)
    (hinside : ∀ front, front <+: operations → c₁.depth ≤ (c₁.after front).depth)
    (hdepth : (c₁.after operations).depth = c₁.depth) :
    (c₁.after operations).leave = .ok { c with globals := (c₁.after operations).globals } := by
  obtain ⟨-, rfl⟩ := enter_eq_ok.1 henter
  obtain ⟨hsuffix, hmax⟩ := suffix_of_after (List.suffix_cons _ c.frames) hinside
  generalize hlast : after _ operations = last at hsuffix hmax hdepth ⊢
  obtain ⟨globals, frames, maxDepth⟩ := last
  obtain ⟨front, hfront⟩ := hsuffix
  have hone : front.length = 1 := by
    have hlength := congrArg List.length hfront
    rw [List.length_append] at hlength
    simp only [depth, List.length_cons] at hdepth hlength
    omega
  obtain ⟨frame, rfl⟩ := List.length_eq_one_iff.1 hone
  cases hmax
  cases hfront
  rfl

/-! ## The laws as a whole -/

/-- What operations do to a context. The scopes of the context are numbered as in `Context.storage`:
that of the program comes first, that of the innermost call has the number of calls in progress.
`Storage.at?` says what a scope binds, and `Context.Writes` what a step has changed. -/
structure Laws (c : Context) : Prop where
  /-- What the innermost scope binds is what `Context.read` gives, whether the name is bound
  globally or not. -/
  readCurrent {name : String} {v : Located} :
    c.storage.at? c.depth name = some v → c.read name = .ok v
  /-- A name that the innermost scope does not bind is read (`Context.read`) among the global
  values. The scopes of other calls are not looked at. -/
  readGlobal {name : String} {v : Located} : c.storage.at? c.depth name = none →
    c.storage.at? 0 name = some v → c.read name = .ok v
  /-- A name that neither of the two scopes binds cannot be read, and the refusal
  (`Cause.undefinedVariable`) names it. -/
  readNothing {name : String} : c.storage.at? c.depth name = none →
    c.storage.at? 0 name = none → c.read name = .error (.undefinedVariable name)
  /-- A variable is declared in the innermost scope, and nothing but this is written
  (`Context.Writes`). -/
  declared {name : String} {type : TypeName} {v : Located} {c' : Context} :
    c.set name (some type) v = .ok c' → c.Writes c.depth name v c'
  /-- A parameter is bound (`Context.bind`) in the innermost scope, and nothing but this is
  written. -/
  bound (name : String) (v : Located) : c.Writes c.depth name v (c.bind name v)
  /-- A variable is assigned where it is read (`Context.holder?`), and keeps its kind: in no other
  scope is anything written. -/
  assigned {name : String} {v : Located} {c' : Context} : c.set name none v = .ok c' →
    ∃ i present, c.holder? name = some i ∧ c.storage.at? i name = some present ∧
      c.read name = .ok present ∧ present.value.kind = v.value.kind ∧ c.Writes i name v c'
  /-- A function is defined (`Context.define`) in the global scope, from inside of a call as
  well. -/
  defined (f : Closure) :
    c.Writes 0 f.declaration.ident.name ⟨.function f, none⟩ (c.define f)
  /-- A native function is provided (`Context.provide`) in the global scope too. -/
  provided (f : Native) : c.Writes 0 f.name ⟨.native f, none⟩ (c.provide f)
  /-- What has been declared, assigned or bound is what `Context.read` gives, and other names are
  read as before. -/
  readBack {name : String} {v : Located} {c' : Context} :
    (∃ type, c.set name type v = .ok c') ∨ c' = c.bind name v →
    c'.read name = .ok v ∧ ∀ other, other ≠ name → c'.read other = c.read other
  /-- A call that is left leaves nothing behind but global values, whatever has been done inside it
  (`Context.after`), calls inside the call among this, as long as it is still in progress itself. -/
  called {f : Closure} {site : Position} {c₁ : Context} {operations : List Operation} :
    c.enter f site = .ok c₁ →
    (∀ front, front <+: operations → c₁.depth ≤ (c₁.after front).depth) →
    (c₁.after operations).depth = c₁.depth →
    (c₁.after operations).leave = .ok { c with globals := (c₁.after operations).globals }
  /-- What is refused has changed nothing in place: `Storage.perform` leaves the storage of the same
  context. -/
  refused {operation : Operation} {cause : Cause} {s : Storage} :
    c.storage.perform operation = (.error cause, s) → s = c.storage

/-- Names that `Context.lookup?` finds alike are read alike, the refusal included. -/
theorem read_congr (h : c'.lookup? name = c.lookup? name) : c'.read name = c.read name := by
  rw [read, read, h]

/-- The scope that `Context.holder?` finds for a name binds the value that is read. -/
theorem read_of_holder? {i : Nat} {present : Located} (h : c.holder? name = some i)
    (hat : c.storage.at? i name = some present) : c.read name = .ok present := by
  rw [read, lookup?_of_holder? h, hat]

/-- A value that is written (`Writes`) where its name is read, or in the innermost scope, is read
back, and other names are read as before. -/
theorem Writes.readBack {i : Nat} (h : c.Writes i name v c')
    (hi : i = c.depth ∨ c.holder? name = some i) :
    c'.read name = .ok v ∧ ∀ other, other ≠ name → c'.read other = c.read other := by
  refine ⟨?_, fun other hother => read_congr ?_⟩
  · rw [read, h.lookup? hi, if_pos rfl]
  · rw [h.lookup? hi, if_neg hother]

/-- A refused operation has changed nothing in place: by `Context.storage_perform` the storage is
that of the context behind the refused `Context.step`, which is the same context. -/
theorem storage_of_refused {operation : Operation} {cause : Cause} {s : Storage}
    (h : c.storage.perform operation = (.error cause, s)) : s = c.storage := by
  rw [storage_perform, step, Operation.attempt] at h
  cases hperform : c.perform operation with
  | error cause' =>
    rw [hperform] at h
    exact (congrArg Prod.snd h).symm
  | ok result =>
    rw [hperform] at h
    cases congrArg Prod.fst h

/-- The `Laws` hold of every context, whether a run reaches it or not. -/
theorem lawful (c : Context) : c.Laws where
  readCurrent {name v} h := by
    rw [storage_at?_depth] at h
    rw [read, lookup?, h, Option.some_or]
  readGlobal {name v} hcurrent h := by
    rw [storage_at?_depth] at hcurrent
    rw [storage_at?_zero] at h
    rw [read, lookup?, hcurrent, Option.none_or, h]
  readNothing {name} hcurrent h := by
    rw [storage_at?_depth] at hcurrent
    rw [storage_at?_zero] at h
    rw [read, lookup?, hcurrent, Option.none_or, h]
  declared := writes_of_declare
  bound := c.writes_bind
  assigned h := by
    obtain ⟨i, present, hholder, hat, hkind, hwrites⟩ := writes_of_assign h
    exact ⟨i, present, hholder, hat, read_of_holder? hholder hat, hkind, hwrites⟩
  defined f := c.writes_bindGlobal _ _
  provided f := c.writes_bindGlobal _ _
  readBack {name v c'} := by
    rintro (⟨type, h⟩ | rfl)
    · cases type with
      | some type => exact (writes_of_declare h).readBack (.inl rfl)
      | none =>
        obtain ⟨i, present, hholder, -, -, hwrites⟩ := writes_of_assign h
        exact hwrites.readBack (.inr hholder)
    · exact (c.writes_bind name v).readBack (.inl rfl)
  called := leave_after_enter
  refused := storage_of_refused

/-- From the beginning on, a context answers all operations (`Operation.sequence`) as `Maps.step`
does on a global map and a stack of local ones, and as `Storage.perform` does on scopes that are
numbered and changed in place; and it obeys the `Laws`. -/
theorem storeLaws :
    (∀ maxDepth operations,
      Operation.sequence Maps.step (.initial maxDepth) operations =
          ((Operation.sequence step (initial maxDepth) operations).1,
            ((initial maxDepth).after operations).maps) ∧
        Operation.sequence Storage.perform (.initial maxDepth) operations =
          ((Operation.sequence step (initial maxDepth) operations).1,
            ((initial maxDepth).after operations).storage)) ∧
      ∀ c : Context, c.Laws := by
  refine ⟨fun maxDepth operations => ⟨?_, ?_⟩, lawful⟩
  · rw [← maps_initial]
    exact Operation.sequence_simulates maps_step _ operations
  · rw [← storage_initial]
    exact Operation.sequence_simulates storage_perform _ operations

end Context

/-! ## Nested calls -/

namespace Context

/-- A function that does nothing, to be entered by `nestedOperations`. -/
def idle (name : String) : Closure :=
  ⟨⟨⟨name, .point ⟨0, 0⟩⟩, [], .void, ⟨.point ⟨0, 0⟩, []⟩⟩, []⟩

/-- An integer that stands nowhere: a value without a place. -/
def plainInt (n : Int64) : Located := ⟨.number (.int n), none⟩

/-- Operations inside a call: another one is entered, which assigns to a global variable and is
refused an assignment to one of its caller, and is left. -/
def nestedOperations : List Operation :=
  [.bind "x" (plainInt 2), .enter (idle "inner") ⟨2, 0⟩, .set "g" none (plainInt 5),
    .set "x" none (plainInt 3), .leave]

/-- A context with a global variable of the value one. -/
def withGlobal : Context := (initial 2).bind "g" (plainInt 1)

/-- The context `withGlobal` with a call of `idle` in progress, for which a variable is bound. -/
def withCall : Context :=
  { withGlobal with frames := [⟨⟨"outer", ⟨1, 0⟩⟩, []⟩] }

/-- Behind `nestedOperations` the caller has its own variable as it was. When it is left in turn,
its variable is gone and the global one has its new value. -/
theorem nestedOperations_leave :
    ∃ c, (withCall.after nestedOperations).leave = .ok c ∧ c.frames = withGlobal.frames ∧
      (withCall.after nestedOperations).read "x" = .ok (plainInt 2) ∧
      c.read "g" = .ok (plainInt 5) ∧ c.read "x" = .error (.undefinedVariable "x") := by
  have henter : withGlobal.enter (idle "outer") ⟨1, 0⟩ = .ok withCall := rfl
  have hinside : ∀ front ∈ nestedOperations.inits, withCall.depth ≤ (withCall.after front).depth :=
    by decide
  have hleave := (storeLaws.2 withGlobal).called henter
    (fun front hfront => hinside front ((List.mem_inits _ _).2 hfront)) rfl
  exact ⟨_, hleave, rfl, rfl, rfl, rfl⟩

end Context

end UnitScript
