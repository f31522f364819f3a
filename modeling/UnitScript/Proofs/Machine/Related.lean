import UnitScript.Proofs.Machine.Immediate

/-!
# Computations side by side

Two computations are related (`Eval.Related`) if from linked machines they end in the same way, in
linked machines, with related results or with linked faults. A `Link` says what is linked: machines
with machines and faults with faults. There is one rule for each way of putting computations
together, so that a relation between whole evaluations comes down to the few steps that touch a
machine.
-/

namespace UnitScript

/-- What two runs have in common: which machines and which faults of theirs correspond to each
other. The semantics with exits (`Link.proper`), the blindness of calls (`Link.blind`) and rewriting
(`Link.rewriting`) are each stated with one. -/
structure Link where
  /-- Which machines correspond to each other. -/
  machines : Machine → Machine → Prop
  /-- Which faults correspond to each other. -/
  faults : Fault → Fault → Prop
  /-- A fault corresponds to itself. -/
  refl (e : Fault) : faults e e
  /-- Faults that correspond to each other may be given the same place. -/
  placed {e f : Fault} (position : Option Position) :
    faults e f → faults (e.at? position) (f.at? position)

/-- Two outcomes are of the same sort, and what they come with corresponds to each other. A run that
ends is never related to one that comes to the end of its fuel. -/
inductive Outcome.Related {α β : Type} (faults : Fault → Fault → Prop) (results : α → β → Prop) :
    Outcome α → Outcome β → Prop
  | ok {a : α} {b : β} : results a b → Related faults results (.ok a) (.ok b)
  | fault {e f : Fault} : faults e f → Related faults results (.fault e) (.fault f)
  | outOfFuel : Related faults results .outOfFuel .outOfFuel

/-- Outcomes whose results are related in one way (`Outcome.Related`) may be related in another. -/
theorem Outcome.Related.mono {α β : Type} {faults : Fault → Fault → Prop}
    {results weaker : α → β → Prop} {o : Outcome α} {o' : Outcome β}
    (h : Outcome.Related faults results o o') (hle : ∀ a b, results a b → weaker a b) :
    Outcome.Related faults weaker o o' := by
  cases h with
  | ok hab => exact .ok (hle _ _ hab)
  | fault hef => exact .fault hef
  | outOfFuel => exact .outOfFuel

namespace Eval

variable {α β γ δ : Type} {link : Link}

/-- From linked machines (`Link.machines`) the computations come to related outcomes
(`Outcome.Related`) and linked machines. -/
def Related (link : Link) (results : α → β → Prop) (x : Eval α) (y : Eval β) : Prop :=
  ∀ ⦃m n : Machine⦄, link.machines m n →
    Outcome.Related link.faults results (x m).1 (y n).1 ∧ link.machines (x m).2 (y n).2

namespace Related

variable {results : α → β → Prop} {others : γ → δ → Prop} {x : Eval α} {y : Eval β}

/-- Computations whose results are related in one way may be related in another
(`Outcome.Related.mono`). -/
theorem mono {weaker : α → β → Prop} (h : Related link results x y)
    (hle : ∀ a b, results a b → weaker a b) : Related link weaker x y := by
  intro m n hmn
  obtain ⟨houtcome, hmachines⟩ := h hmn
  exact ⟨houtcome.mono hle, hmachines⟩

/-- Related results without any effect leave linked machines linked. -/
theorem pure {a : α} {b : β} (h : results a b) :
    Related link results (Pure.pure a : Eval α) (Pure.pure b : Eval β) :=
  fun _ _ hmn => ⟨.ok h, hmn⟩

/-- Related computations go on with what is related for related results. Where the first have none,
both end in the same way. -/
theorem bind {f : α → Eval γ} {g : β → Eval δ} (h : Related link results x y)
    (hfg : ∀ a b, results a b → Related link others (f a) (g b)) :
    Related link others (x >>= f) (y >>= g) := by
  intro m n hmn
  obtain ⟨houtcome, hmachines⟩ := h hmn
  show Outcome.Related _ _ (Eval.bind x f m).1 (Eval.bind y g n).1 ∧
    link.machines (Eval.bind x f m).2 (Eval.bind y g n).2
  unfold Eval.bind
  rcases hx : x m with ⟨a | e | _, m'⟩ <;> rcases hy : y n with ⟨b | f' | _, n'⟩ <;>
    rw [hx, hy] at houtcome hmachines <;> cases houtcome
  · next hab => exact hfg a b hab hmachines
  · next hef => exact ⟨.fault hef, hmachines⟩
  · exact ⟨.outOfFuel, hmachines⟩

/-- What related computations come to may be changed in related ways (`Eval.Related.bind`). -/
theorem map {f : α → γ} {g : β → δ} (h : Related link results x y)
    (hfg : ∀ a b, results a b → others (f a) (g b)) :
    Related link others (f <$> x) (g <$> y) := by
  rw [← bind_pure_comp, ← bind_pure_comp]
  exact h.bind fun a b hab => .pure (hfg a b hab)

/-- The end of the fuel (`Eval.outOfFuel`) on both sides. -/
theorem outOfFuel : Related link results (Eval.outOfFuel : Eval α) (Eval.outOfFuel : Eval β) :=
  fun _ _ hmn => ⟨.outOfFuel, hmn⟩

/-- The same fault at the same place (`Eval.fail`), which corresponds to itself by `Link.refl`. -/
theorem fail (cause : Cause) (position : Option Position) :
    Related link results (Eval.fail cause position : Eval α)
      (Eval.fail cause position : Eval β) :=
  fun _ _ hmn => ⟨.fault (link.refl _), hmn⟩

/-- Whatever does not look at the machine (`Eval.Immediate`) is related to itself. -/
theorem of_immediate {good : α → Prop} {x : Eval α} (h : Immediate good x) :
    Related link (fun a b => a = b ∧ good a) x x := by
  cases h with
  | pure ha => exact .pure ⟨rfl, ha⟩
  | fail _ position => exact .fail _ position

/-- Something that is read off corresponding contexts (`Eval.view`), or refused for the same cause
on both. -/
theorem view {read : Context → Except Cause α} {read' : Context → Except Cause β}
    (position : Option Position)
    (h : ∀ m n, link.machines m n →
      (∃ a b, read m.context = .ok a ∧ read' n.context = .ok b ∧ results a b) ∨
        ∃ cause, read m.context = .error cause ∧ read' n.context = .error cause) :
    Related link results (Eval.view read position) (Eval.view read' position) := by
  intro m n hmn
  unfold Eval.view Eval.attempt
  rcases h m n hmn with ⟨a, b, ha, hb, hab⟩ | ⟨cause, ha, hb⟩
  · rw [ha, hb]
    exact ⟨.ok hab, hmn⟩
  · rw [ha, hb]
    exact ⟨.fault (link.refl _), hmn⟩

/-- A change of corresponding contexts (`Eval.change`) to corresponding ones, or refused for the
same cause on both. -/
theorem change {step step' : Context → Except Cause Context} (position : Option Position)
    (h : ∀ m n, link.machines m n →
      (∃ c d, step m.context = .ok c ∧ step' n.context = .ok d ∧
        link.machines { m with context := c } { n with context := d }) ∨
        ∃ cause, step m.context = .error cause ∧ step' n.context = .error cause) :
    Related link (fun _ _ => True) (Eval.change step position) (Eval.change step' position) := by
  intro m n hmn
  unfold Eval.change
  rcases h m n hmn with ⟨c, d, hc, hd, hcd⟩ | ⟨cause, hc, hd⟩
  · rw [hc, hd]
    exact ⟨.ok trivial, hcd⟩
  · rw [hc, hd]
    exact ⟨.fault (link.refl _), hmn⟩

/-- A computation whose faults are given a place (`Eval.located`), as `Link.placed` allows for. -/
theorem located (position : Position) (h : Related link results x y) :
    Related link results (Eval.located position x) (Eval.located position y) := by
  intro m n hmn
  obtain ⟨houtcome, hmachines⟩ := h hmn
  unfold Eval.located
  rcases hx : x m with ⟨a | e | _, m'⟩ <;> rcases hy : y n with ⟨b | f | _, n'⟩ <;>
    rw [hx, hy] at houtcome hmachines <;> cases houtcome
  · next hab => exact ⟨.ok hab, hmachines⟩
  · next hef => exact ⟨.fault (link.placed _ hef), hmachines⟩
  · exact ⟨.outOfFuel, hmachines⟩

/-- A computation whose faults are given the calls in progress (`Eval.traced`), where faults still
correspond to each other with those of corresponding machines. -/
theorem traced (h : Related link results x y)
    (hwithin : ∀ {e f m n}, link.faults e f → link.machines m n →
      link.faults (e.within m.context.traceback) (f.within n.context.traceback)) :
    Related link results (Eval.traced x) (Eval.traced y) := by
  intro m n hmn
  obtain ⟨houtcome, hmachines⟩ := h hmn
  unfold Eval.traced
  rcases hx : x m with ⟨a | e | _, m'⟩ <;> rcases hy : y n with ⟨b | f | _, n'⟩ <;>
    rw [hx, hy] at houtcome hmachines <;> cases houtcome
  · next hab => exact ⟨.ok hab, hmachines⟩
  · next hef => exact ⟨.fault (hwithin hef hmachines), hmachines⟩
  · exact ⟨.outOfFuel, hmachines⟩

/-- A loop (`Eval.repeatWhile`) whose condition and body correspond to each other, by induction on
its rounds. -/
theorem repeatWhile {condition condition' : Eval Bool} {body body' : Eval (Option α)} {done : α}
    {results : α → α → Prop}
    (hcondition : Related link (· = ·) condition condition')
    (hbody : Related link (fun r s => Option.Rel results r s) body body')
    (hdone : results done done) (rounds : Nat) :
    Related link results (Eval.repeatWhile condition body done rounds)
      (Eval.repeatWhile condition' body' done rounds) := by
  induction rounds with
  | zero => exact .outOfFuel
  | succ rounds ih =>
    unfold Eval.repeatWhile
    refine hcondition.bind fun holds _ hholds => ?_
    subst hholds
    cases holds with
    | false => exact .pure hdone
    | true =>
      refine hbody.bind fun r s hrs => ?_
      cases hrs with
      | none => exact ih
      | some hab => exact .pure hab

end Related

end Eval

end UnitScript
