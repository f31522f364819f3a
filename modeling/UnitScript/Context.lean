import UnitScript.Value

/-!
# Contexts

A context holds the global bindings and a stack of frames, one for each call in progress, innermost
first. A name is looked up in the innermost frame and then among the globals, never in the frames
between. Functions are bound and looked up among the globals only. What a frame binds is captured
by the functions that are defined in it, and a call of such a function starts from a copy of it.
-/

namespace UnitScript

/-- Values by name. A name occurs once, since `Bindings.put` writes over a value that is there. -/
abbrev Bindings := List (String × Located)

namespace Bindings

/-- The value of a name in some bindings, if it is bound there. -/
def get? (bindings : Bindings) (name : String) : Option Located :=
  bindings.lookup name

/-- The bindings with another value of a name, which stays where it was bound or is added at the
end. -/
def put (name : String) (v : Located) : Bindings → Bindings
  | [] => [(name, v)]
  | (other, present) :: bindings =>
    if other = name then (name, v) :: bindings else (other, present) :: put name v bindings

@[simp] theorem get?_nil (name : String) : get? [] name = none := rfl

/-- Reading (`get?`) the first binding or one behind it. -/
theorem get?_cons (name other : String) (present : Located) (bindings : Bindings) :
    get? ((other, present) :: bindings) name =
      if other = name then some present else get? bindings name := by
  unfold get?
  rw [List.lookup_cons]
  by_cases h : other = name
  · subst h; simp
  · rw [if_neg h, beq_false_of_ne (Ne.symm h)]

/-- Reading (`get?`) after writing (`put`) gives what was written, and other names read as
before. -/
@[simp] theorem get?_put (name other : String) (v : Located) (bindings : Bindings) :
    get? (put name v bindings) other = if other = name then some v else get? bindings other := by
  induction bindings with
  | nil => simp [put, get?_cons, eq_comm]
  | cons first bindings ih =>
    obtain ⟨third, present⟩ := first
    rw [put]
    split
    next h =>
      subst h
      rw [get?_cons, get?_cons]
      by_cases ho : third = other
      · simp [ho]
      · simp [ho, Ne.symm ho]
    next h =>
      rw [get?_cons, get?_cons, ih]
      by_cases ho : third = other
      · subst ho; simp [h]
      · simp [ho]

end Bindings

/-- A call in progress: the function and the place of the call (`Activation`), with the bindings of
its own. -/
structure Frame where
  activation : Activation
  bindings : Bindings

/-- What a run knows: global bindings, calls in progress (`Frame`), innermost first, and how many of
these there may be. -/
structure Context where
  globals : Bindings
  frames : List Frame
  maxDepth : Nat

/-- What can be called: a function that a program has defined (`Closure`), or one that the language
provides (`Native`). -/
inductive Callable where
  | closure (f : Closure)
  | native (f : Native)

namespace Callable

/-- The name something was defined under. -/
def name : Callable → String
  | closure f => f.declaration.ident.name
  | native f => f.name

/-- How many arguments something takes: as many as it has parameters, whether it is a `Closure` or
`Native`. -/
def arity : Callable → Nat
  | closure f => f.declaration.params.length
  | native f => f.params.length

end Callable

namespace Context

/-- The number of calls in progress, which `enter` compares to the limit. -/
def depth (context : Context) : Nat := context.frames.length

/-- The bindings of the innermost `Frame`, or the globals where there is none. What calls further
out have bound is not visible. -/
def current (context : Context) : Bindings :=
  match context.frames with
  | [] => context.globals
  | frame :: _ => frame.bindings

/-- The nearest visible value of a name: among the `current` bindings, or else among the globals. -/
def lookup? (context : Context) (name : String) : Option Located :=
  (Bindings.get? context.current name).or (Bindings.get? context.globals name)

/-- The value of a variable by `lookup?`, or the refusal that names it. -/
def read (context : Context) (name : String) : Except Cause Located :=
  match context.lookup? name with
  | some v => .ok v
  | none => .error (.undefinedVariable name)

/-- Binds a name among the globals, over whatever was bound there. -/
def bindGlobal (context : Context) (name : String) (v : Located) : Context :=
  { context with globals := Bindings.put name v context.globals }

/-- Binds a name in the innermost call, or among the globals where there is none (`bindGlobal`),
whatever is visible outside. -/
def bind (context : Context) (name : String) (v : Located) : Context :=
  match context.frames with
  | [] => context.bindGlobal name v
  | frame :: frames =>
    { context with
      frames := { frame with bindings := Bindings.put name v frame.bindings } :: frames }

/-- Declares a variable in the innermost call with a value of its type (`Value.fits`). A declaration
over an earlier one may change the type. -/
def declare (context : Context) (name : String) (type : TypeName) (v : Located) :
    Except Cause Context :=
  if v.value.fits type then .ok (context.bind name v)
  else .error (.declarationMismatch name type v.value.kind)

/-- Assigns to the nearest visible variable of a name another value of the same kind, where
`lookup?` finds it. -/
def assign (context : Context) (name : String) (v : Located) : Except Cause Context :=
  match context.lookup? name with
  | none => .error (.undeclaredVariable name)
  | some present =>
    if present.value.kind = v.value.kind then
      .ok (if (Bindings.get? context.current name).isSome then context.bind name v
        else context.bindGlobal name v)
    else .error (.reassignmentMismatch name present.value.kind v.value.kind)

/-- What an assignment statement does: `declare` if a type is given, and `assign` otherwise. -/
def set (context : Context) (name : String) (type : Option TypeName) (v : Located) :
    Except Cause Context :=
  match type with
  | some type => context.declare name type v
  | none => context.assign name v

/-- Defines a function under its name, among the globals (`bindGlobal`), even inside of a call. -/
def define (context : Context) (f : Closure) : Context :=
  context.bindGlobal f.declaration.ident.name ⟨.function f, none⟩

/-- What a function that is defined now carries into its calls (`Closure.captured`): the bindings of
the innermost call. Functions that are defined outside of every call see the globals and need to
carry nothing. -/
def capture (context : Context) : Bindings :=
  match context.frames with
  | [] => []
  | frame :: _ => frame.bindings

/-- Defines a function here and now, with what it captures (`capture`). -/
def declareFunction (context : Context) (declaration : Declaration) : Context :=
  context.define ⟨declaration, context.capture⟩

/-- Provides a native function under its name, among the globals. -/
def provide (context : Context) (f : Native) : Context :=
  context.bindGlobal f.name ⟨.native f, none⟩

/-- The function of a name, which is looked up among the globals only. Any other value there is
refused (`Cause.notCallable`). -/
def callee (context : Context) (name : String) : Except Cause Callable :=
  match Bindings.get? context.globals name with
  | none => .error (.undefinedFunction name)
  | some ⟨.function f, _⟩ => .ok (.closure f)
  | some ⟨.native f, _⟩ => .ok (.native f)
  | some ⟨other, _⟩ => .error (.notCallable name other.kind)

/-- Begins a call: the bindings of its `Frame` start from what the function captured. Where as many
calls are in progress as there may be (`maxDepth`), it is refused. -/
def enter (context : Context) (f : Closure) (site : Position) : Except Cause Context :=
  let name := f.declaration.ident.name
  if context.depth < context.maxDepth then
    .ok { context with frames := ⟨⟨name, site⟩, f.captured⟩ :: context.frames }
  else .error (.recursionLimit name context.maxDepth)

/-- Ends the innermost call, if there is one (`Cause.noCallToLeave`). What it has bound goes with
it. -/
def leave (context : Context) : Except Cause Context :=
  match context.frames with
  | [] => .error .noCallToLeave
  | _ :: frames => .ok { context with frames }

/-- The functions that are being run, innermost first and the program itself last, as faults name
them. -/
def traceback (context : Context) : List Activation :=
  context.frames.map Frame.activation ++ [.main]

/-- How many calls may be in progress where nothing else is said. -/
def defaultMaxDepth : Nat := 128

/-- The one function that the language provides. -/
def printer : Native := ⟨"print", ["value"]⟩

/-- A context in which nothing has run: no call is in progress, and `printer` is the one function
there is. -/
def initial (maxDepth : Nat) : Context :=
  provide ⟨[], [], maxDepth⟩ printer

end Context

end UnitScript
