import UnitScript.Context

/-!
# Scopes that are numbered

A context can be kept as a growing list of scopes, one for the program and one for each call, where
each scope knows the number of the one in which names are looked up that it does not bind. Names
are then looked up along these numbers, values are written at a number, and every operation changes
the storage in place, so that one that is refused leaves behind whatever it has written before.

`Storage.perform` runs operations in this way. It answers what the operation on the context does,
and keeps the scopes of the context (`Context.storage_perform`), also if it is refused.
-/

namespace UnitScript

/-! ## Scopes and their parents -/

/-- The bindings of a call, or the global ones, with the number of the scope in which names are
looked up that are not bound there (`Scope.resolve?`). -/
structure Scope where
  bindings : Bindings
  parent : Option Nat

/-- The scope of a call in progress: the bindings of its `Frame`, and the global scope as the
parent. -/
def Frame.scope (frame : Frame) : Scope := ⟨frame.bindings, some 0⟩

/-- The value of a name in a scope or in those that its parents lead to, of which so many are looked
at. The bound is never reached where the parents form no cycle. -/
def Scope.resolve? (scopes : List Scope) (name : String) : Nat → Nat → Option Located
  | 0, _ => none
  | bound + 1, i => do
    let scope ← scopes[i]?
    (Bindings.get? scope.bindings name).or (scope.parent.bind (resolve? scopes name bound))

namespace Context

/-- The scopes of a context: the global one and one `Frame.scope` for each call, innermost last. -/
def scopes (c : Context) : List Scope :=
  ⟨c.globals, none⟩ :: c.frames.reverse.map Frame.scope

/-- What is being run: the program and the calls, innermost last. It is the `Context.traceback` of a
fault in reverse. -/
def callStack (c : Context) : List Activation := c.traceback.reverse

/-- `Context.lookup?`, which knows of the innermost call and the global bindings only, looks a name
up as `Scope.resolve?` does along the parents. -/
theorem lookup?_eq_resolve? (c : Context) (name : String) :
    c.lookup? name = Scope.resolve? c.scopes name c.scopes.length c.depth := by
  obtain ⟨globals, frames, maxDepth⟩ := c
  cases frames with
  | nil =>
    simp [lookup?, current, scopes, depth, Scope.resolve?]
  | cons frame frames =>
    simp [lookup?, current, scopes, depth, Scope.resolve?, Frame.scope]

end Context

/-! ## Operations -/

/-- An operation on contexts: everything that an evaluation does to variables, functions and calls.
`Context.perform` and `Storage.perform` both carry them out. -/
inductive Operation where
  | get (name : String)
  | set (name : String) (type : Option TypeName) (v : Located)
  | bind (name : String) (v : Located)
  | define (f : Closure)
  | provide (f : Native)
  | capture
  | enter (f : Closure) (site : Position)
  | leave

/-- What an `Operation` answers that is not refused: a value that was read, bindings that are
captured, or that it is done. -/
inductive Answer where
  | done
  | value (v : Located)
  /-- The bindings that are captured, name by name. -/
  | captured (bindings : String → Option Located)

namespace Operation

variable {σ τ : Type}

/-- An operation that is given by a computation of a new state, after which the state is as before
if it is refused. -/
def attempt (perform : σ → Operation → Except Cause (Answer × σ)) (s : σ)
    (operation : Operation) : Except Cause Answer × σ :=
  match perform s operation with
  | .ok (answer, s') => (.ok answer, s')
  | .error cause => (.error cause, s)

/-- Operations one after the other, whether they are refused or not, with all their answers and the
state that they leave behind. -/
def sequence (step : σ → Operation → Except Cause Answer × σ) (s : σ) :
    List Operation → List (Except Cause Answer) × σ
  | [] => ([], s)
  | operation :: operations =>
    let (answer, s') := step s operation
    let (answers, s'') := sequence step s' operations
    (answer :: answers, s'')

/-- Where a `view` answers every single operation as the state does and remains the view of it, this
is so for every `sequence` of operations. -/
theorem sequence_simulates {step : σ → Operation → Except Cause Answer × σ}
    {step' : τ → Operation → Except Cause Answer × τ} {view : σ → τ}
    (h : ∀ s operation,
      step' (view s) operation = ((step s operation).1, view (step s operation).2))
    (s : σ) (operations : List Operation) :
    sequence step' (view s) operations =
      ((sequence step s operations).1, view (sequence step s operations).2) := by
  induction operations generalizing s with
  | nil => rfl
  | cons operation operations ih =>
    rw [sequence, h]
    simp only [ih]
    rfl

/-- A `sequence` in two parts leaves behind what the second part makes of what the first one has
left. -/
theorem sequence_append {step : σ → Operation → Except Cause Answer × σ} (s : σ)
    (front operations : List Operation) :
    (sequence step s (front ++ operations)).2 =
      (sequence step (sequence step s front).2 operations).2 := by
  induction front generalizing s with
  | nil => rfl
  | cons operation front ih => exact ih _

end Operation

namespace Context

/-- An operation on a context, with the context behind it, in terms of `Context.read`,
`Context.set`, `Context.enter` and the others. -/
def perform (c : Context) : Operation → Except Cause (Answer × Context)
  | .get name => (c.read name).map (.value ·, c)
  | .set name type v => (c.set name type v).map (.done, ·)
  | .bind name v => .ok (.done, c.bind name v)
  | .define f => .ok (.done, c.define f)
  | .provide f => .ok (.done, c.provide f)
  | .capture => .ok (.captured (Bindings.get? c.capture), c)
  | .enter f site => (c.enter f site).map (.done, ·)
  | .leave => c.leave.map (.done, ·)

/-- An operation on a context, after which it is as before if the operation is refused
(`Operation.attempt`). -/
def step : Context → Operation → Except Cause Answer × Context := Operation.attempt perform

/-- The context behind a `sequence` of operations, those that are refused among them. -/
def after (c : Context) (operations : List Operation) : Context :=
  (Operation.sequence step c operations).2

end Context

/-! ## Storage -/

/-- A context as two lists that are changed separately: the scopes (`Scope`) of the program and of
the calls in progress, and the stack of calls (`Activation`), both innermost last. Nothing in the
type keeps them in step. -/
structure Storage where
  scopes : List Scope
  callStack : List Activation
  maxDepth : Nat

/-- The number of the scope where a name is bound of those that the parents of a scope lead to, of
which so many are looked at (compare `Scope.resolve?`). -/
def Scope.holder? (scopes : List Scope) (name : String) : Nat → Nat → Option Nat
  | 0, _ => none
  | bound + 1, i => do
    let scope ← scopes[i]?
    if (Bindings.get? scope.bindings name).isSome then some i
    else scope.parent.bind (holder? scopes name bound)

/-- A scope with another value of a name (`Bindings.put`) and the same parent. -/
def Scope.put (name : String) (v : Located) (scope : Scope) : Scope :=
  { scope with bindings := Bindings.put name v scope.bindings }

namespace Storage

/-- The number of the innermost scope. It is also the number of calls in progress, against which the
limit is checked by `enter`. -/
def current (s : Storage) : Nat := s.scopes.length - 1

/-- The number of the scope that holds the nearest visible value of a name, looked for along the
parents from the innermost scope on (`Scope.holder?`). -/
def holder? (s : Storage) (name : String) : Option Nat :=
  Scope.holder? s.scopes name s.scopes.length s.current

/-- The value of a name in the scope of a number, parents not considered (`Scope.resolve?` considers
them). -/
def at? (s : Storage) (i : Nat) (name : String) : Option Located :=
  s.scopes[i]?.bind fun scope => Bindings.get? scope.bindings name

/-- The storage with another value of a name in the scope of a number (`Scope.put`), everything else
as it was. -/
def put (i : Nat) (name : String) (v : Located) (s : Storage) : Storage :=
  { s with scopes := s.scopes.modify i (Scope.put name v) }

/-- A step that changes the storage in place, until it is refused: what it has written up to then
remains written. -/
abbrev Step := ExceptT Cause (StateM Storage)

/-- Reads a variable from the scope that holds it (`holder?`), or refuses if no scope does. -/
def get (name : String) : Step Answer := do
  let s ← MonadState.get
  match (s.holder? name).bind (s.at? · name) with
  | some v => return .value v
  | none => throw (.undefinedVariable name)

/-- Writes a value in the scope of a number (`put`). -/
def write (i : Nat) (name : String) (v : Located) : Step Answer := do
  modify (put i name v)
  return .done

/-- Declares a variable in the innermost scope if a type is given, and otherwise assigns where
`holder?` finds the name. Kinds are compared before anything is written. -/
def set (name : String) (type : Option TypeName) (v : Located) : Step Answer := do
  let s ← MonadState.get
  match type with
  | some type =>
    if v.value.fits type then write s.current name v
    else throw (.declarationMismatch name type v.value.kind)
  | none =>
    match s.holder? name with
    | none => throw (.undeclaredVariable name)
    | some i =>
      if let some present := s.at? i name then
        if present.value.kind ≠ v.value.kind then
          throw (.reassignmentMismatch name present.value.kind v.value.kind)
      write i name v

/-- Binds a name in the innermost scope (`Storage.current`), whatever the other scopes hold of this
name. -/
def bind (name : String) (v : Located) : Step Answer := do
  write (← MonadState.get).current name v

/-- What a function carries into its calls that is defined now: what the innermost scope binds, or
nothing where that is the global one. -/
def capture : Step Answer := do
  let s ← MonadState.get
  return .captured (if s.current = 0 then fun _ => none else s.at? s.current)

/-- Begins a call: where there is room, a scope with the global one as its parent is pushed, and
then an activation in another list. -/
def enter (f : Closure) (site : Position) : Step Answer := do
  let s ← MonadState.get
  if s.maxDepth ≤ s.current then
    throw (.recursionLimit f.declaration.ident.name s.maxDepth)
  modify fun s => { s with scopes := s.scopes ++ [⟨f.captured, some 0⟩] }
  modify fun s => { s with callStack := s.callStack ++ [⟨f.declaration.ident.name, site⟩] }
  return .done

/-- Ends the innermost call: the last scope is popped, and then the last activation from the other
list. -/
def leave : Step Answer := do
  if (← MonadState.get).current = 0 then
    throw .noCallToLeave
  modify fun s => { s with scopes := s.scopes.dropLast }
  modify fun s => { s with callStack := s.callStack.dropLast }
  return .done

/-- What an operation does in place, in terms of `get`, `set`, `write`, `capture`, `enter` and
`leave`. -/
def operate : Operation → Step Answer
  | .get name => get name
  | .set name type v => set name type v
  | .bind name v => bind name v
  | .define f => write 0 f.declaration.ident.name ⟨.function f, none⟩
  | .provide f => write 0 f.name ⟨.native f, none⟩
  | .capture => capture
  | .enter f site => enter f site
  | .leave => leave

/-- An operation with the storage that it leaves behind, also if it is refused: nothing is taken
back then. -/
def perform (s : Storage) (operation : Operation) : Except Cause Answer × Storage :=
  (operate operation).run s

/-- The storage in which nothing has run but the native function is provided: one scope, one
activation, that of the program. -/
def initial (maxDepth : Nat) : Storage :=
  (perform ⟨[⟨[], none⟩], [.main], maxDepth⟩ (.provide Context.printer)).2

/-! ## What an operation does -/

/-- Reading a variable answers what the scope binds that holds its name (`holder?`), and changes
nothing. -/
theorem perform_get (s : Storage) (name : String) :
    s.perform (.get name) =
      (match (s.holder? name).bind (s.at? · name) with
        | some v => .ok (.value v)
        | none => .error (.undefinedVariable name), s) := by
  have hrun : s.perform (.get name) =
      ((match (s.holder? name).bind (s.at? · name) with
        | some v => return .value v
        | none => throw (.undefinedVariable name)) : Step Answer) s := rfl
  rw [hrun]
  cases (s.holder? name).bind (s.at? · name) with
  | none => rfl
  | some v => rfl

/-- Declaring a variable writes a value of its type in the innermost scope, by `put`, and is refused
for any other value. -/
theorem perform_declare (s : Storage) (name : String) (type : TypeName) (v : Located) :
    s.perform (.set name (some type) v) =
      if v.value.fits type then (.ok .done, s.put s.current name v)
      else (.error (.declarationMismatch name type v.value.kind), s) := by
  have hrun : s.perform (.set name (some type) v) =
      (if v.value.fits type then write s.current name v
        else throw (.declarationMismatch name type v.value.kind) : Step Answer) s := rfl
  rw [hrun]
  split
  · rfl
  · rfl

/-- The scope that `holder?` finds for a name binds it, so that `get` has a value to answer. -/
theorem exists_at?_of_holder? {s : Storage} {name : String} {i : Nat}
    (h : s.holder? name = some i) : ∃ v, s.at? i name = some v := by
  have hbound (bound start : Nat) (h : Scope.holder? s.scopes name bound start = some i) :
      ∃ v, s.at? i name = some v := by
    induction bound generalizing start with
    | zero => cases h
    | succ bound ih =>
      rw [Scope.holder?] at h
      obtain ⟨scope, hscope, h⟩ := Option.bind_eq_some_iff.1 h
      split at h
      · next hsome =>
        cases h
        obtain ⟨v, hv⟩ := Option.isSome_iff_exists.1 hsome
        exact ⟨v, by rw [at?, hscope, Option.bind_some, hv]⟩
      · obtain ⟨parent, -, h⟩ := Option.bind_eq_some_iff.1 h
        exact ih parent h
  exact hbound _ _ h

/-- An assignment looks for the scope that holds the name, compares kinds and writes: `set` without
a type, unfolded once for the two lemmas below. -/
theorem perform_assign (s : Storage) (name : String) (v : Located) :
    s.perform (.set name none v) =
      (match s.holder? name with
        | none => throw (.undeclaredVariable name)
        | some i => do
          if let some present := s.at? i name then
            if present.value.kind ≠ v.value.kind then
              throw (.reassignmentMismatch name present.value.kind v.value.kind)
          write i name v : Step Answer) s :=
  rfl

/-- Assigning to a variable that no scope holds (`holder?`) is refused, and the storage is as it
was. -/
theorem perform_assign_of_none {s : Storage} {name : String} (h : s.holder? name = none)
    (v : Located) : s.perform (.set name none v) = (.error (.undeclaredVariable name), s) := by
  rw [perform_assign, h]
  rfl

/-- Assigning to a variable writes in the scope that holds it (`put`), over a value of the same
kind, and is refused over a value of another one. -/
theorem perform_assign_of_some {s : Storage} {name : String} {i : Nat} {present : Located}
    (h : s.holder? name = some i) (hat : s.at? i name = some present) (v : Located) :
    s.perform (.set name none v) =
      if present.value.kind = v.value.kind then (.ok .done, s.put i name v)
      else (.error (.reassignmentMismatch name present.value.kind v.value.kind), s) := by
  rw [perform_assign, h]
  simp only [hat]
  by_cases hkind : present.value.kind = v.value.kind
  · simp only [hkind, ne_eq, not_true_eq_false, if_false, if_true]
    rfl
  · simp only [hkind, ne_eq, not_false_eq_true, if_true, if_false]
    rfl

/-- The storage with a call of a function on top, as `enter` leaves it: there is one scope more, of
what the function captured, and one activation more. -/
def push (f : Closure) (site : Position) (s : Storage) : Storage :=
  { s with
    scopes := s.scopes ++ [⟨f.captured, some 0⟩]
    callStack := s.callStack ++ [⟨f.declaration.ident.name, site⟩] }

/-- The storage without its innermost call, as `leave` leaves it. -/
def pop (s : Storage) : Storage :=
  { s with scopes := s.scopes.dropLast, callStack := s.callStack.dropLast }

/-- Entering a call is refused where as many calls are in progress as there may be, and is a `push`
of a scope and an activation otherwise. -/
theorem perform_enter (s : Storage) (f : Closure) (site : Position) :
    s.perform (.enter f site) =
      if s.current < s.maxDepth then (.ok .done, s.push f site)
      else (.error (.recursionLimit f.declaration.ident.name s.maxDepth), s) := by
  have hrun : s.perform (.enter f site) =
      (do
        if s.maxDepth ≤ s.current then
          throw (.recursionLimit f.declaration.ident.name s.maxDepth)
        modify fun s => { s with scopes := s.scopes ++ [⟨f.captured, some 0⟩] }
        modify fun s =>
          { s with callStack := s.callStack ++ [⟨f.declaration.ident.name, site⟩] }
        return .done : Step Answer) s := rfl
  rw [hrun]
  by_cases h : s.current < s.maxDepth
  · rw [if_neg (Nat.not_le.2 h), if_pos h]
    rfl
  · rw [if_pos (Nat.not_lt.1 h), if_neg h]
    rfl

/-- Leaving is refused where only the program is run, and is a `pop` of a scope and an activation
otherwise. -/
theorem perform_leave (s : Storage) :
    s.perform .leave =
      if s.current = 0 then (.error .noCallToLeave, s) else (.ok .done, s.pop) := by
  have hrun : s.perform .leave =
      (do
        if s.current = 0 then
          throw .noCallToLeave
        modify fun s => { s with scopes := s.scopes.dropLast }
        modify fun s => { s with callStack := s.callStack.dropLast }
        return .done : Step Answer) s := rfl
  rw [hrun]
  split
  · rfl
  · rfl

end Storage

/-! ## Contexts as storage -/

/-- The storage of a context: its numbered scopes (`Context.scopes`) and its stack of calls
(`Context.callStack`). -/
def Context.storage (c : Context) : Storage := ⟨c.scopes, c.callStack, c.maxDepth⟩

namespace Context

variable {c : Context} {name : String} {v : Located}

/-- A context has one scope more than it has calls in progress (`Context.depth`): that of the
program. -/
theorem length_scopes (c : Context) : c.scopes.length = c.depth + 1 := by
  simp [scopes, depth]

/-- The innermost scope has the number of calls in progress. -/
@[simp] theorem storage_current (c : Context) : c.storage.current = c.depth := by
  rw [Storage.current, storage, length_scopes, Nat.add_sub_cancel]

/-- The global bindings come first among the `scopes` of a context and have no parent. -/
theorem scopes_zero (c : Context) : c.scopes[0]? = some ⟨c.globals, none⟩ := rfl

/-- The scope of the innermost call comes last among the `scopes`, at the number of calls in
progress. -/
theorem scopes_depth {frame : Frame} {frames : List Frame} (h : c.frames = frame :: frames) :
    c.scopes[c.depth]? = some frame.scope := by
  simp [scopes, depth, h]

/-- The innermost scope has the current bindings. -/
@[simp] theorem storage_at?_depth (c : Context) (name : String) :
    c.storage.at? c.depth name = Bindings.get? c.current name := by
  cases h : c.frames with
  | nil => simp [Storage.at?, storage, scopes, depth, current, h]
  | cons frame frames => simp [Storage.at?, storage, scopes_depth h, current, h, Frame.scope]

/-- The first scope has the global bindings. -/
@[simp] theorem storage_at?_zero (c : Context) (name : String) :
    c.storage.at? 0 name = Bindings.get? c.globals name := rfl

/-- The number of the scope that holds the nearest visible value of a name: that of the innermost
call, or the global one. `storage_holder?` compares it to the search along parents. -/
def holder? (c : Context) (name : String) : Option Nat :=
  if (Bindings.get? c.current name).isSome then some c.depth
  else if (Bindings.get? c.globals name).isSome then some 0 else none

/-- The scope that holds a value is found along the parents (`Storage.holder?`), which lead from any
call to the global scope at once. -/
theorem storage_holder? (c : Context) (name : String) :
    c.storage.holder? name = c.holder? name := by
  rw [Storage.holder?, storage_current, storage, length_scopes, holder?]
  cases h : c.frames with
  | nil =>
    rw [Scope.holder?, depth, h, List.length_nil, scopes_zero, current, h]
    simp only [Option.bind_eq_bind, Option.bind_some, Option.bind_none]
    split
    · rfl
    · rfl
  | cons frame frames =>
    have hdepth : c.depth = frames.length + 1 := by rw [depth, h, List.length_cons]
    rw [Scope.holder?, scopes_depth h]
    simp only [Option.bind_eq_bind, Option.bind_some, Frame.scope, current, h]
    rw [hdepth, Scope.holder?, scopes_zero]
    simp only [Option.bind_eq_bind, Option.bind_some, Option.bind_none]

/-- Writing in place in the innermost scope (`Storage.put`) is what `Context.bind` does to the
context. -/
theorem storage_put_depth (c : Context) (name : String) (v : Located) :
    c.storage.put c.depth name v = (c.bind name v).storage := by
  cases h : c.frames with
  | nil =>
    rw [depth, h, List.length_nil, bind]
    simp only [h]
    rfl
  | cons frame frames =>
    have hscopes (globals : Bindings) (frame : Frame) (n : Nat) :
        Context.scopes ⟨globals, frame :: frames, n⟩ =
          Context.scopes ⟨globals, frames, n⟩ ++ [frame.scope] := by
      simp [scopes]
    have hdepth : c.depth = (Context.scopes ⟨c.globals, frames, c.maxDepth⟩).length := by
      rw [length_scopes, depth, h, List.length_cons, depth]
    obtain ⟨globals, _, maxDepth⟩ := c
    cases h
    have hlast := List.modifyTailIdx_add (List.modifyHead (Scope.put name v)) 0
      (Context.scopes ⟨globals, frames, maxDepth⟩) [frame.scope]
    simp only [storage, Storage.put, bind, hscopes, Storage.mk.injEq, and_true]
    rw [hdepth]
    refine ⟨hlast, ?_⟩
    simp only [callStack, traceback, List.map_cons]

/-- The value of a name that `Context.lookup?` finds is the one that the scope holds which `holder?`
finds. -/
theorem holder?_bind_at? (c : Context) (name : String) :
    ((c.holder? name).bind fun i => c.storage.at? i name) = c.lookup? name := by
  rw [holder?, lookup?]
  cases hcurrent : Bindings.get? c.current name with
  | some v => simp [hcurrent]
  | none =>
    cases hglobal : Bindings.get? c.globals name with
    | some v => simp [hglobal]
    | none => simp

/-- Reading in place answers what `Context.read` answers, and leaves the storage of the same
context. -/
theorem storage_get (c : Context) (name : String) :
    c.storage.perform (.get name) = ((c.read name).map .value, c.storage) := by
  have hheld : (c.storage.holder? name).bind (c.storage.at? · name) = c.lookup? name := by
    rw [storage_holder?, holder?_bind_at?]
  rw [Storage.perform_get, hheld, read]
  cases c.lookup? name with
  | none => rfl
  | some v => rfl

/-- Declaring in place answers what `Context.step` answers, and leaves the storage of the context
behind that step. -/
theorem storage_declare (c : Context) (name : String) (type : TypeName) (v : Located) :
    c.storage.perform (.set name (some type) v) =
      ((c.step (.set name (some type) v)).1, (c.step (.set name (some type) v)).2.storage) := by
  rw [Storage.perform_declare, storage_current, step, Operation.attempt, perform, set, declare]
  split
  · exact congrArg (Prod.mk _) (c.storage_put_depth name v)
  · rfl

/-- Writing in the scope that holds a name is writing where `Context.assign` writes: in the
innermost call if the name is bound there, and globally otherwise. -/
theorem storage_put_of_holder? {i : Nat} (h : c.holder? name = some i) (v : Located) :
    c.storage.put i name v =
      (if (Bindings.get? c.current name).isSome then c.bind name v
        else c.bindGlobal name v).storage := by
  rw [holder?] at h
  split at h
  · next hcurrent =>
    cases h
    rw [if_pos hcurrent]
    exact c.storage_put_depth name v
  · next hcurrent =>
    rw [if_neg hcurrent]
    split at h
    · cases h
      rfl
    · cases h

/-- Assigning in place answers what `Context.step` answers, and leaves the storage of the context
behind that step, in all three cases of `Storage.perform_assign`. -/
theorem storage_assign (c : Context) (name : String) (v : Located) :
    c.storage.perform (.set name none v) =
      ((c.step (.set name none v)).1, (c.step (.set name none v)).2.storage) := by
  have hlookup := c.holder?_bind_at? name
  rw [step, Operation.attempt, perform, set, assign, ← hlookup]
  cases hholder : c.holder? name with
  | none =>
    rw [Storage.perform_assign_of_none ((c.storage_holder? name).trans hholder)]
    rfl
  | some i =>
    have hstorage := (c.storage_holder? name).trans hholder
    obtain ⟨present, hat⟩ := Storage.exists_at?_of_holder? hstorage
    rw [Storage.perform_assign_of_some hstorage hat, storage_put_of_holder? hholder,
      Option.bind_some, hat]
    by_cases hkind : present.value.kind = v.value.kind
    · simp only [hkind, if_true]
      rfl
    · simp only [hkind, if_false]
      rfl

/-- Where a context enters a call its storage gets a scope and an activation more, and where it
refuses to, both are as before. -/
theorem storage_enter (c : Context) (f : Closure) (site : Position) :
    c.storage.perform (.enter f site) =
      ((c.step (.enter f site)).1, (c.step (.enter f site)).2.storage) := by
  rw [Storage.perform_enter, storage_current, step, Operation.attempt, perform, enter]
  by_cases h : c.depth < c.maxDepth
  · have hpushed : c.storage.push f site =
        storage { c with
          frames := ⟨⟨f.declaration.ident.name, site⟩, f.captured⟩ :: c.frames } := by
      simp [Storage.push, storage, scopes, callStack, traceback, Frame.scope]
    simp only [if_pos h]
    exact (if_pos h).trans (congrArg (Prod.mk _) hpushed)
  · simp only [if_neg h]
    exact if_neg h

/-- Where a context leaves a call its storage loses the last scope and the last activation, and
where it refuses to, both are as before. -/
theorem storage_leave (c : Context) :
    c.storage.perform .leave = ((c.step .leave).1, (c.step .leave).2.storage) := by
  rw [Storage.perform_leave, storage_current, step, Operation.attempt, perform, leave, depth]
  cases h : c.frames with
  | nil => rfl
  | cons frame frames =>
    have hpopped : c.storage.pop = storage { c with frames } := by
      simp [Storage.pop, storage, scopes, callStack, traceback, h, List.dropLast_cons_of_ne_nil]
    exact congrArg (Prod.mk _) hpopped

/-- The storage of a context answers every operation like the context (`Context.step`) and is the
storage of the context behind it, also where the operation is refused. -/
theorem storage_perform (c : Context) (operation : Operation) :
    c.storage.perform operation = ((c.step operation).1, (c.step operation).2.storage) := by
  cases operation with
  | get name =>
    rw [storage_get, step, Operation.attempt, perform]
    cases c.read name with
    | error cause => rfl
    | ok v => rfl
  | set name type v =>
    cases type with
    | none => exact c.storage_assign name v
    | some type => exact c.storage_declare name type v
  | bind name v =>
    have hrun : c.storage.perform (.bind name v) =
        (.ok .done, c.storage.put c.storage.current name v) := rfl
    rw [hrun, storage_current, storage_put_depth]
    rfl
  | define f => rfl
  | provide f => rfl
  | capture =>
    have hrun : c.storage.perform .capture =
        (.ok (.captured (if c.storage.current = 0 then fun _ => none
          else c.storage.at? c.storage.current)), c.storage) := rfl
    have hcaptured : (if c.storage.current = 0 then fun _ => none
        else c.storage.at? c.storage.current) = Bindings.get? c.capture := by
      rw [storage_current, capture, depth]
      cases h : c.frames with
      | nil => rfl
      | cons frame frames =>
        funext name
        have hat := c.storage_at?_depth name
        rw [depth, current, h] at hat
        exact hat
    rw [hrun, hcaptured]
    rfl
  | enter f site => exact c.storage_enter f site
  | leave => exact c.storage_leave

/-- `Context.initial` has the storage `Storage.initial`, so whole runs of operations can be compared
from the beginning on (`Operation.sequence_simulates`). -/
theorem storage_initial (maxDepth : Nat) : (initial maxDepth).storage = Storage.initial maxDepth :=
  rfl

end Context

end UnitScript
