import UnitScript.Proofs.Control.Regular
import UnitScript.Evaluation

/-!
# Proper values and contexts

A value is proper if it is no signal and, where it is a function, its body is regular and all that
it has captured is proper. A context is proper if all that is bound in it is. Nothing that is done
to a context with proper values can spoil it: each operation has a lemma that says so.
-/

namespace UnitScript

/-- A value that may be kept: no signal, and no function with an irregular body (`Regular`) or with
improper bindings among what it has captured. -/
inductive Value.Proper : Value → Prop
  | number : Proper (.number n)
  | bool : Proper (.bool b)
  | string : Proper (.string s)
  | unit : Proper (.unit u)
  | quantity : Proper (.quantity q)
  | function : Regular (.block f.declaration.body) →
      (∀ binding ∈ f.captured, Value.Proper binding.2.value) → Proper (.function f)
  | native : Proper (.native f)

/-- A proper value is no signal (`Value.isSignal`). -/
theorem Value.Proper.isSignal {v : Value} (h : v.Proper) : v.isSignal = false := by
  cases h with
  | @number n => cases n <;> rfl
  | bool | string | unit | quantity | function | native => rfl

/-- Everything bound is proper (`Value.Proper`). -/
def Bindings.Proper (bindings : Bindings) : Prop :=
  ∀ binding ∈ bindings, binding.2.value.Proper

namespace Bindings.Proper

variable {bindings : Bindings} {name : String} {v : Located}

/-- What is found (`Bindings.get?`) is proper. -/
theorem get? (h : bindings.Proper) (hv : Bindings.get? bindings name = some v) :
    v.value.Proper := by
  induction bindings with
  | nil => cases hv
  | cons first bindings ih =>
    rw [Bindings.get?_cons] at hv
    split at hv
    · cases hv
      exact h first (List.mem_cons_self ..)
    · exact ih (fun binding hb => h binding (List.mem_cons_of_mem _ hb)) hv

/-- A proper value may be bound (`Bindings.put`) among proper ones. -/
theorem put (h : bindings.Proper) (hv : v.value.Proper) :
    Bindings.Proper (Bindings.put name v bindings) := by
  induction bindings with
  | nil =>
    intro binding hb
    cases List.mem_singleton.1 hb
    exact hv
  | cons first bindings ih =>
    have hrest : Bindings.Proper bindings :=
      fun binding hb => h binding (List.mem_cons_of_mem _ hb)
    rw [Bindings.put]
    split
    · intro binding hb
      rcases List.mem_cons.1 hb with rfl | hb
      · exact hv
      · exact hrest binding hb
    · intro binding hb
      rcases List.mem_cons.1 hb with rfl | hb
      · exact h _ (List.mem_cons_self ..)
      · exact ih hrest binding hb

end Bindings.Proper

/-- Everything bound in the context is proper, globally and in each of the frames (`Frame`). -/
structure Context.Proper (context : Context) : Prop where
  globals : context.globals.Proper
  frames : ∀ frame ∈ context.frames, frame.bindings.Proper

/-- Everything bound on the machine is proper (`Context.Proper`). -/
def Machine.Proper (machine : Machine) : Prop := machine.context.Proper

namespace Context.Proper

variable {context context' : Context} {name : String} {v : Located}

/-- What the innermost call has bound (`Context.current`) is proper. -/
theorem current (h : context.Proper) : context.current.Proper := by
  unfold Context.current
  split
  · exact h.globals
  · next frame frames hframes => exact h.frames frame (by rw [hframes]; exact List.mem_cons_self ..)

/-- What is visible (`Context.lookup?`) is proper. -/
theorem lookup? (h : context.Proper) (hv : context.lookup? name = some v) : v.value.Proper := by
  rcases Option.or_eq_some_iff.1 hv with hv | ⟨-, hv⟩
  · exact h.current.get? hv
  · exact h.globals.get? hv

/-- What is read (`Context.read`) is proper. -/
theorem read (h : context.Proper) (hv : context.read name = .ok v) : v.value.Proper := by
  unfold Context.read at hv
  split at hv
  · next hlookup =>
    cases hv
    exact h.lookup? hlookup
  · cases hv

/-- A function that can be called (`Context.callee`) is proper. -/
theorem callee {f : Closure} (h : context.Proper) (hf : context.callee name = .ok (.closure f)) :
    (Value.function f).Proper := by
  unfold Context.callee at hf
  split at hf
  · cases hf
  · next hget =>
    cases hf
    exact h.globals.get? hget
  · cases hf
  · cases hf

/-- A proper value may be bound globally (`Context.bindGlobal`). -/
theorem bindGlobal (h : context.Proper) (hv : v.value.Proper) :
    (context.bindGlobal name v).Proper :=
  ⟨h.globals.put hv, h.frames⟩

/-- A proper value may be bound (`Context.bind`), in a call or globally. -/
theorem bind (h : context.Proper) (hv : v.value.Proper) : (context.bind name v).Proper := by
  unfold Context.bind
  split
  · exact h.bindGlobal hv
  · next frame frames hframes =>
    refine ⟨h.globals, fun other hother => ?_⟩
    rcases List.mem_cons.1 hother with rfl | hother
    · exact (h.frames frame (by rw [hframes]; exact List.mem_cons_self ..)).put hv
    · exact h.frames other (by rw [hframes]; exact List.mem_cons_of_mem _ hother)

/-- A variable may be set (`Context.set`) to a proper value. -/
theorem set {type : Option TypeName} (h : context.Proper) (hv : v.value.Proper)
    (hset : context.set name type v = .ok context') : context'.Proper := by
  unfold Context.set Context.declare Context.assign at hset
  split at hset
  · split at hset
    · cases hset
      exact h.bind hv
    · cases hset
  · split at hset
    · cases hset
    · split at hset
      · cases hset
        split
        · exact h.bind hv
        · exact h.bindGlobal hv
      · cases hset

/-- What a function captures (`Context.capture`) is proper. -/
theorem capture (h : context.Proper) : context.capture.Proper := by
  unfold Context.capture
  split
  · nofun
  · next frame frames hframes => exact h.frames frame (by rw [hframes]; exact List.mem_cons_self ..)

/-- A function with a regular body may be defined (`Context.declareFunction`): it is proper, since
all it captures is. -/
theorem declareFunction {declaration : Declaration} (h : context.Proper)
    (hbody : Regular (.block declaration.body)) : (context.declareFunction declaration).Proper :=
  h.bindGlobal (.function hbody h.capture)

/-- A proper function may be called: `Context.enter` puts what it has captured into the new frame,
and that is proper. -/
theorem enter {f : Closure} {site : Position} (h : context.Proper)
    (hf : (Value.function f).Proper) (henter : context.enter f site = .ok context') :
    context'.Proper := by
  simp only [Context.enter] at henter
  split at henter
  · cases henter
    refine ⟨h.globals, fun frame hframe => ?_⟩
    rcases List.mem_cons.1 hframe with rfl | hframe
    · cases hf with
      | function _ hcaptured => exact hcaptured
    · exact h.frames frame hframe
  · cases henter

/-- A call may end (`Context.leave`), and takes its bindings with it. -/
theorem leave (h : context.Proper) (hleave : context.leave = .ok context') :
    context'.Proper := by
  unfold Context.leave at hleave
  split at hleave
  · cases hleave
  · next frame frames hframes =>
    cases hleave
    exact ⟨h.globals, fun other hother => h.frames other
      (by rw [hframes]; exact List.mem_cons_of_mem _ hother)⟩

/-- Parameters may be bound to proper arguments (`Closure.bindParams`). -/
theorem bindParams {params : List Param} {args : List Located} (h : context.Proper)
    (hargs : ∀ arg ∈ args, arg.value.Proper) : (Closure.bindParams params args context).Proper := by
  induction params generalizing args context with
  | nil => exact h
  | cons param params ih =>
    cases args with
    | nil => exact h
    | cons arg args =>
      exact ih (h.bind (hargs arg (List.mem_cons_self ..)))
        fun other hother => hargs other (List.mem_cons_of_mem _ hother)

end Context.Proper

/-- Nothing but the printer is bound at first (`Context.initial`). -/
theorem Machine.Proper.initial (maxDepth : Nat) : (Machine.initial maxDepth).Proper := by
  refine ⟨fun binding hb => ?_, nofun⟩
  cases List.mem_singleton.1 hb
  exact .native

/-! ## Results of operators -/

namespace Value

variable {a b v : Value} {op : BinaryOp}

/-- What is wrapped as a proper value is proper, as results of numbers, units and quantities are. -/
theorem Proper.of_map {α : Type} {wrap : α → Value} (hwrap : ∀ a, (wrap a).Proper)
    {result : Except Cause α} (h : wrap <$> result = .ok v) : v.Proper := by
  cases result with
  | error cause => cases h
  | ok a =>
    cases h
    exact hwrap a

/-- The outcome of a test for equality (`Value.equality`) is proper. -/
theorem Proper.of_equality {test : Bool → Bool} (h : equality op test a b = .ok v) : v.Proper := by
  unfold equality at h
  split at h
  · cases h
    exact .bool
  · cases h

/-- The outcome of a test for order (`Value.order`) is proper. -/
theorem Proper.of_order {test : Option Ordering → Bool} (h : order op test a b = .ok v) :
    v.Proper := by
  unfold order at h
  split at h
  · cases h
    exact .bool
  · cases h

/-- The outcome of joining truth values (`Value.logic`) is proper. -/
theorem Proper.of_logic {test : Bool → Bool → Bool} (h : logic op test a b = .ok v) :
    v.Proper := by
  unfold logic at h
  split at h
  · cases h
    exact .bool
  · cases h

/-- The outcome of repeating a string (`Value.repeatString`) is proper. -/
theorem Proper.of_repeatString {s : String} {count : Int64}
    (h : repeatString s count = .ok v) : v.Proper := by
  simp only [repeatString] at h
  split at h
  · cases h
    exact .string
  · cases h

/-- What operators come to (`Value.binary`) is proper: it is a number, a truth value, a string, a
unit or a quantity. -/
theorem Proper.of_binary (h : Value.binary op a b = .ok v) : v.Proper := by
  have hquantity : ∀ q, (Value.quantity q).Proper := fun _ => .quantity
  have hnumber : ∀ n, (Value.number n).Proper := fun _ => .number
  have hunit : ∀ u, (Value.unit u).Proper := fun _ => .unit
  cases op with
  | add =>
    change add a b = _ at h
    unfold add at h
    split at h
    · cases h; exact .string
    · cases h; exact .unit
    · exact .of_map hquantity h
    · exact .of_map hnumber h
    · cases h
  | subtract =>
    change subtract a b = _ at h
    unfold subtract at h
    split at h
    · cases h; exact .unit
    · exact .of_map hquantity h
    · exact .of_map hnumber h
    · cases h
  | multiply =>
    change multiply a b = _ at h
    unfold multiply at h
    split at h
    · exact .of_repeatString h
    · exact .of_repeatString h
    · exact .of_map hunit h
    · exact .of_map hquantity h
    · exact .of_map hquantity h
    · exact .of_map hquantity h
    · exact .of_map hnumber h
    · cases h
  | divide =>
    change divide a b = _ at h
    unfold divide at h
    split at h
    · exact .of_map hunit h
    · exact .of_map hquantity h
    · exact .of_map hquantity h
    · exact .of_map hquantity h
    · exact .of_map hnumber h
    · cases h
  | equal | notEqual => exact .of_equality h
  | less | lessEqual | greater | greaterEqual =>
    simp only [Value.binary] at h
    exact .of_order h
  | and | or => exact .of_logic h

/-- What operators come to (`Value.unary`) is proper as well. -/
theorem Proper.of_unary {op : UnaryOp} (h : Value.unary op a = .ok v) : v.Proper := by
  unfold Value.unary at h
  split at h
  · cases h; exact .bool
  · exact .of_map (fun _ => .quantity) h
  · exact .of_map (fun _ => .number) h
  · cases h; exact .quantity
  · cases h; exact .number
  · cases h

end Value

end UnitScript
