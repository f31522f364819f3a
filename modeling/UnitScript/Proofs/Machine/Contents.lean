import UnitScript.Proofs.Calls.Depth
import UnitScript.Proofs.Machine.Bound

/-!
# What scopes hold

Whatever has been evaluated, and however it ended, no scope binds a signal, and only the global one
binds functions. All other scopes, and all functions wherever they are, hold data only
(`scopeContents`). So values that are bound do not nest: what is inside one of them has nothing
inside itself, and none is inside itself.
-/

namespace UnitScript

/-- Whether values of a kind are data: neither functions nor signals. -/
def Kind.isData : Kind → Bool
  | int | double | bool | string | unit | quantity => true
  | function | native | returning | breaking | continuing => false

namespace Value

variable {v w : Value}

/-- The values that have a type (`Value.Plain`) are those that are data. -/
theorem plain_iff : v.Plain ↔ v.kind.isData = true := by
  unfold Plain fits
  generalize v.kind = kind
  refine ⟨?_, fun h => ?_⟩
  · rintro ⟨type, hfits⟩
    cases kind with
    | int | double | bool | string | unit | quantity => rfl
    | function | native | returning | breaking | continuing => cases hfits
  · cases kind with
    | int => exact ⟨.int, rfl⟩
    | double => exact ⟨.double, rfl⟩
    | bool => exact ⟨.bool, rfl⟩
    | string => exact ⟨.string, rfl⟩
    | unit => exact ⟨.unit, rfl⟩
    | quantity => exact ⟨.phys, rfl⟩
    | function | native | returning | breaking | continuing => cases h

/-- A value is directly inside another one: a function has captured it (`Closure.captured`), or it
is what is returned. -/
inductive Holds : Value → Value → Prop
  | captured {f : Closure} {entry : String × Located} : entry ∈ f.captured →
    Holds (.function f) entry.2.value
  | returned {v : Located} : Holds (.returning (some v)) v.value

/-- Nothing is inside a plain value (`Value.Holds`). -/
theorem Plain.not_holds (h : v.Plain) (w : Value) : ¬ v.Holds w := by
  intro hw
  cases hw with
  | @captured f => exact h.ne_function f rfl
  | returned => cases h.isSignal

/-- What is inside a value that may be bound (`Value.Storable`) is plain, so nothing is inside of
that (`Plain.not_holds`). -/
theorem Storable.plain_of_holds {places : Position → Prop} (h : v.Storable places)
    (hw : v.Holds w) : w.Plain := by
  cases h with
  | plain hplain => exact absurd hw (hplain.not_holds w)
  | function _ hcaptured =>
    cases hw with
    | captured hentry => exact hcaptured _ hentry
  | native => cases hw

end Value

/-- A value is bound on a machine, in any of its scopes (`Context.scopes`), or at any depth inside
of one that is (`Value.Holds`). -/
inductive Machine.Has (m : Machine) : Value → Prop
  | bound {scope : Scope} {entry : String × Located} : scope ∈ m.context.scopes →
    entry ∈ scope.bindings → m.Has entry.2.value
  | inside {v w : Value} : m.Has v → v.Holds w → m.Has w

section
variable {places : Position → Prop} {c : Context} {scope : Scope} {entry : String × Located}

/-- What is bound in a call is plain: all scopes but the first are those of calls
(`Context.scopes`). -/
theorem Context.Orderly.plain_of_tail (h : c.Orderly places) (hscope : scope ∈ c.scopes.tail)
    (hentry : entry ∈ scope.bindings) : entry.2.value.Plain := by
  obtain ⟨frame, hframe, rfl⟩ := List.mem_map.1 hscope
  exact h.frames frame (List.mem_reverse.1 hframe) entry hentry

/-- What is bound anywhere may be bound globally (`Value.Storable`). -/
theorem Context.Orderly.storable (h : c.Orderly places) (hscope : scope ∈ c.scopes)
    (hentry : entry ∈ scope.bindings) : entry.2.value.Storable places := by
  rcases List.mem_cons.1 hscope with rfl | hscope
  · exact h.globals entry hentry
  · exact .plain (h.plain_of_tail hscope hentry)

/-- What is inside of something that is bound might be bound as well, by induction on how deep it is
inside. -/
theorem Machine.Has.storable {m : Machine} (hm : m.context.Orderly places) {v : Value}
    (h : m.Has v) : v.Storable places := by
  induction h with
  | bound hscope hentry => exact hm.storable hscope hentry
  | inside _ hw ih => exact .plain (ih.plain_of_holds hw)

end

/-- What the scopes of a machine (`Context.scopes`) hold, the global one first. -/
structure ScopeContents (m : Machine) : Prop where
  /-- No scope of the context (`Context.scopes`) binds a signal. -/
  signals {scope : Scope} {entry : String × Located} : scope ∈ m.context.scopes →
    entry ∈ scope.bindings → entry.2.value.isSignal = false
  /-- All scopes but the global one bind data only (`Kind.isData`). -/
  locals {scope : Scope} {entry : String × Located} : scope ∈ m.context.scopes.tail →
    entry ∈ scope.bindings → entry.2.value.kind.isData = true
  /-- Functions have captured data only, wherever they are (`Machine.Has`). -/
  captured {f : Closure} {entry : String × Located} : m.Has (.function f) →
    entry ∈ f.captured → entry.2.value.kind.isData = true
  /-- A scope that binds a function is the global one. -/
  functions {i : Nat} {scope : Scope} {entry : String × Located} :
    m.context.scopes[i]? = some scope → entry ∈ scope.bindings →
    entry.2.value.kind = .function ∨ entry.2.value.kind = .native → i = 0
  /-- What is inside a value (`Value.Holds`) has nothing inside itself: a captured value is never a
  function with captured values of its own, -/
  flat {v w : Value} : m.Has v → v.Holds w → ∀ u, ¬ w.Holds u
  /-- and no value is inside itself, at whatever depth. -/
  acyclic {v : Value} : m.Has v → ¬ Relation.TransGen Value.Holds v v

/-- On every reachable machine (`Machine.Reachable`), in the course of a run as well as between
runs, the scopes hold what they may hold. All of it follows from `Machine.Reachable.orderly`, the
invariant that `Regime.orderly` carries through a run. -/
theorem scopeContents {m : Machine} (hm : m.Reachable) : ScopeContents m where
  signals hscope hentry := (hm.orderly.storable hscope hentry).isSignal
  locals hscope hentry := Value.plain_iff.1 (hm.orderly.plain_of_tail hscope hentry)
  captured hf hentry :=
    Value.plain_iff.1 ((hf.storable hm.orderly).plain_of_holds (.captured hentry))
  functions {i scope entry} hscope hentry hkind := by
    cases i with
    | zero => rfl
    | succ i =>
      have htail : scope ∈ m.context.scopes.tail := List.mem_of_getElem? (i := i) hscope
      have hdata := Value.plain_iff.1 (hm.orderly.plain_of_tail htail hentry)
      rcases hkind with hkind | hkind
      · rw [hkind] at hdata
        cases hdata
      · rw [hkind] at hdata
        cases hdata
  flat hv hw := ((hv.storable hm.orderly).plain_of_holds hw).not_holds
  acyclic hv hcycle := by
    obtain ⟨w, hw, hback⟩ := Relation.TransGen.head'_iff.1 hcycle
    have hplain := (hv.storable hm.orderly).plain_of_holds hw
    rcases Relation.ReflTransGen.cases_head hback with rfl | ⟨u, hu, -⟩
    · exact hplain.not_holds _ hw
    · exact hplain.not_holds u hu

/-- The statements
```
function make(n: int) -> void { function show() -> int { return n; } }
make(3);
show = break;
```
of which the last one, with a signal to be assigned, is not in the language. -/
def capturing : Block :=
  let n : Ident := ⟨"n", .origin⟩
  let make : Ident := ⟨"make", .origin⟩
  let inside : Ident := ⟨"show", .origin⟩
  let inner : Block := ⟨.origin, [⟨.origin, .returnValue ⟨.origin, .variable n⟩⟩]⟩
  let outer : Block := ⟨.origin, [⟨.origin, .function inside [] .int inner⟩]⟩
  ⟨.origin,
    [⟨.origin, .function make [⟨n, .int⟩] .void outer⟩,
      ⟨.origin, .call make [⟨.origin, .int 3⟩]⟩,
      ⟨.origin, .assign none inside ⟨.origin, .breakLoop⟩⟩]⟩

/-- They leave a function that has captured a number, and the signal is refused: `Context.set` sees
that `break` is not of the kind of the function. -/
theorem capturing_scopeContents :
    (capturing.run 2 (.initial 1)).1 =
        .fault ⟨.reassignmentMismatch "show" .function .breaking, some .origin, [.main]⟩ ∧
      (capturing.run 2 (.initial 1)).2.context.globals.map Prod.fst = ["print", "make", "show"] ∧
      ScopeContents (capturing.run 2 (.initial 1)).2 :=
  ⟨rfl, rfl, scopeContents (Machine.Reachable.initial.run 2 capturing)⟩

end UnitScript
