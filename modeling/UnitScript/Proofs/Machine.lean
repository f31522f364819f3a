import UnitScript.Evaluation

/-!
# How computations end

What a computation that is put together from others comes to, told from what these come to.
-/

namespace UnitScript.Eval

variable {α β : Type} {x : Eval α} {f : α → Eval β} {m n : Machine}

/-- Where the first computation has a result, the second goes on with it, on the machine that is
left. -/
theorem bind_of_ok {a : α} (h : x m = (.ok a, n)) : (x >>= f) m = f a n := by
  show Eval.bind x f m = _
  rw [Eval.bind, h]

/-- A fault of the first computation is one of both, and the machine is the one it has left. -/
theorem bind_of_fault {e : Fault} (h : x m = (.fault e, n)) : (x >>= f) m = (.fault e, n) := by
  show Eval.bind x f m = _
  rw [Eval.bind, h]

/-- Where the first computation runs out of fuel (`Outcome.outOfFuel`), both do. -/
theorem bind_of_outOfFuel (h : x m = (.outOfFuel, n)) : (x >>= f) m = (.outOfFuel, n) := by
  show Eval.bind x f m = _
  rw [Eval.bind, h]

/-- Nothing follows a fault (`Eval.fail`). -/
theorem fail_bind (cause : Cause) (position : Option Position) :
    (Eval.fail cause position >>= f) = Eval.fail cause position :=
  rfl

/-- Both computations have results, or the first has none. -/
theorem bind_eq_ok {b : β} :
    (x >>= f) m = (.ok b, n) ↔ ∃ a mid, x m = (.ok a, mid) ∧ f a mid = (.ok b, n) := by
  refine ⟨fun h => ?_, ?_⟩
  · rcases hx : x m with ⟨a | e | _, mid⟩
    · rw [bind_of_ok hx] at h
      exact ⟨a, mid, rfl, h⟩
    · rw [bind_of_fault hx] at h
      cases h
    · rw [bind_of_outOfFuel hx] at h
      cases h
  · rintro ⟨a, mid, hx, hf⟩
    rw [bind_of_ok hx, hf]

/-- A fault of both computations is one of the first or, where this has a result, of the second. -/
theorem bind_eq_fault {e : Fault} :
    (x >>= f) m = (.fault e, n) ↔
      x m = (.fault e, n) ∨ ∃ a mid, x m = (.ok a, mid) ∧ f a mid = (.fault e, n) := by
  refine ⟨fun h => ?_, ?_⟩
  · rcases hx : x m with ⟨a | e' | _, mid⟩
    · rw [bind_of_ok hx] at h
      exact .inr ⟨a, mid, rfl, h⟩
    · rw [bind_of_fault hx] at h
      cases h
      exact .inl rfl
    · rw [bind_of_outOfFuel hx] at h
      cases h
  · rintro (hx | ⟨a, mid, hx, hf⟩)
    · exact bind_of_fault hx
    · rw [bind_of_ok hx, hf]

/-- What is read off the context by `Eval.view` leaves the machine as it was. -/
theorem view_eq_ok {read : Context → Except Cause α} {position : Option Position} {a : α} :
    Eval.view read position m = (.ok a, n) ↔ read m.context = .ok a ∧ n = m := by
  unfold Eval.view Eval.attempt
  cases h : read m.context with
  | ok b => simp [pure, Eval.pure, eq_comm]
  | error cause => simp [Eval.fail]

/-- A change of the context by `Eval.change` is all that happens: what was printed stays. -/
theorem change_eq_ok {step : Context → Except Cause Context} {position : Option Position} :
    Eval.change step position m = (.ok (), n) ↔
      ∃ context, step m.context = .ok context ∧ n = { m with context } := by
  unfold Eval.change
  cases h : step m.context with
  | ok context => simp [eq_comm]
  | error cause => simp [Eval.fail]

/-- A computation whose call is left (`Eval.leaving`) comes to what it came to, unless no call is
there to leave. -/
theorem leaving_eq (x : Eval α) (m : Machine) :
    Eval.leaving x m =
      match (x m).2.context.leave with
      | .ok context => ((x m).1, { (x m).2 with context })
      | .error cause => Eval.fail cause none (x m).2 :=
  rfl

/-- Two computations come to the same if their first parts do and what follows a result of these
does. -/
theorem bind_congr_at {y : Eval α} {g : α → Eval β} (h : x m = y m)
    (hfg : ∀ a m', y m = (.ok a, m') → f a m' = g a m') : (x >>= f) m = (y >>= g) m := by
  rcases hy : y m with ⟨a | e | _, m'⟩
  · rw [bind_of_ok hy, bind_of_ok (h.trans hy)]
    exact hfg a m' hy
  · rw [bind_of_fault hy, bind_of_fault (h.trans hy)]
  · rw [bind_of_outOfFuel hy, bind_of_outOfFuel (h.trans hy)]

/-- Computations that come to the same are traced to the same (`Eval.traced`). -/
theorem traced_congr {y : Eval α} (h : x m = y n) : traced x m = traced y n := by
  unfold traced
  rw [h]

/-- A computation that is traced (`Eval.traced`) has the results that it has. -/
theorem traced_eq_ok {a : α} : traced x m = (.ok a, n) ↔ x m = (.ok a, n) := by
  unfold traced
  rcases x m with ⟨b | e | _, m'⟩ <;> simp

/-- A fault of a computation that is traced is one of the computation, which may be given the calls
in progress (`Context.traceback`) where it was left. -/
theorem traced_eq_fault {e : Fault} :
    traced x m = (.fault e, n) ↔
      ∃ e', x m = (.fault e', n) ∧ e = e'.within n.context.traceback := by
  unfold traced
  rcases x m with ⟨b | e' | _, m'⟩
  · simp
  · refine ⟨fun h => ?_, ?_⟩
    · cases h
      exact ⟨e', rfl, rfl⟩
    · rintro ⟨e'', h, rfl⟩
      cases h
      rfl
  · simp

/-- A computation that is located (`Eval.located`) has the results that it has. -/
theorem located_eq_ok {position : Position} {a : α} :
    located position x m = (.ok a, n) ↔ x m = (.ok a, n) := by
  unfold located
  rcases x m with ⟨b | e | _, m'⟩ <;> simp

/-- A fault of a computation that is located is one of the computation, which may be given a place
(`Fault.at?`). -/
theorem located_eq_fault {position : Position} {e : Fault} :
    located position x m = (.fault e, n) ↔
      ∃ e', x m = (.fault e', n) ∧ e = e'.at? (some position) := by
  unfold located
  rcases x m with ⟨b | e' | _, m'⟩
  · simp
  · refine ⟨fun h => ?_, ?_⟩
    · cases h
      exact ⟨e', rfl, rfl⟩
    · rintro ⟨e'', h, rfl⟩
      cases h
      rfl
  · simp

/-- The place that a fault is given (`Eval.located`) is no effect on the machine. -/
theorem located_machine {position : Position} : (located position x m).2 = (x m).2 := by
  unfold located
  split
  all_goals
    next h => rw [h]

end UnitScript.Eval
