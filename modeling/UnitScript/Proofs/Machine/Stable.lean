import UnitScript.Proofs.Machine.Judgement
import UnitScript.Proofs.Machine.Related

/-!
# Two runs of one tree

Where linked machines show the same to every step of an evaluation (`Link.Stable`), the whole
evaluation of a tree comes to the same on both, if calls do (`Block.evaluate_related`). Nothing is
assumed of the tree.
-/

namespace UnitScript

/-- Linked machines (`Link.machines`) look the same to single steps and stay linked by them. -/
structure Link.Stable (link : Link) : Prop where
  read {m n : Machine} (name : String) : link.machines m n →
    m.context.read name = n.context.read name
  callee {m n : Machine} (name : String) : link.machines m n →
    m.context.callee name = n.context.callee name
  /-- A variable is set on both machines, or refused on both for the same cause. -/
  set {m n : Machine} (name : String) (type : Option TypeName) (v : Located) :
    link.machines m n →
      (∃ c d, m.context.set name type v = .ok c ∧ n.context.set name type v = .ok d ∧
        link.machines { m with context := c } { n with context := d }) ∨
      ∃ cause, m.context.set name type v = .error cause ∧ n.context.set name type v = .error cause
  declareFunction {m n : Machine} (declaration : Declaration) : link.machines m n →
    link.machines { m with context := m.context.declareFunction declaration }
      { n with context := n.context.declareFunction declaration }
  print {m n : Machine} (line : String) : link.machines m n →
    link.machines { m with printed := m.printed.push line }
      { n with printed := n.printed.push line }

section
variable {link : Link}

/-- The same on linked machines: `Eval.Related` with equal results. -/
abbrev Eval.Alike {α : Type} (link : Link) (x y : Eval α) : Prop :=
  Eval.Related link (· = ·) x y

namespace Eval.Alike

variable {α β : Type} {x y : Eval α}

/-- Alike computations go on with what is alike for each result (`Eval.Related.bind`). -/
theorem bind {f g : α → Eval β} (h : Alike link x y) (hfg : ∀ a, Alike link (f a) (g a)) :
    Alike link (x >>= f) (y >>= g) := by
  refine Related.bind h fun a b hab => ?_
  subst hab
  exact hfg a

/-- Whatever does not look at the machine (`Eval.Immediate`) is alike to itself. -/
theorem of_immediate {good : α → Prop} (h : Immediate good x) : Alike link x x :=
  (Related.of_immediate h).mono fun _ _ hab => hab.1

/-- The same is read off linked contexts (`Eval.view`), or it is refused for the same cause. -/
theorem view {read : Context → Except Cause α} (position : Option Position)
    (h : ∀ m n, link.machines m n → read m.context = read n.context) :
    Alike link (Eval.view read position) (Eval.view read position) := by
  refine Related.view position fun m n hmn => ?_
  have hread := h m n hmn
  cases hm : read m.context with
  | ok a => exact .inl ⟨a, a, rfl, by rw [← hread, hm], rfl⟩
  | error cause => exact .inr ⟨cause, rfl, by rw [← hread, hm]⟩

/-- Linked contexts are changed (`Eval.change`), or refused for the same cause. -/
theorem change {step : Context → Except Cause Context} (position : Option Position)
    (h : ∀ m n, link.machines m n →
      (∃ c d, step m.context = .ok c ∧ step n.context = .ok d ∧
        link.machines { m with context := c } { n with context := d }) ∨
        ∃ cause, step m.context = .error cause ∧ step n.context = .error cause) :
    Alike link (Eval.change step position) (Eval.change step position) :=
  (Related.change position h).mono fun _ _ _ => rfl

end Eval.Alike

/-! ## Trees -/

/-- The steps that linked machines look the same to, and calls that are run alike (`Eval.Alike`),
make up a judgement on evaluations. -/
def Link.Stable.judgement (h : link.Stable) (rounds : Nat) {run run' : Caller}
    (hrun : ∀ f args site, Eval.Alike link (run f args site) (run' f args site)) :
    Judgement rounds rounds run run' where
  forms _ := True
  values _ _ := True
  functions _ := True
  holds good := Eval.Related link fun a b => a = b ∧ good a
  pure ha := .pure ⟨rfl, ha⟩
  bind hxy hfg := hxy.bind fun a b hab => by
    obtain ⟨rfl, ha⟩ := hab
    exact hfg a ha
  fail _ _ := .fail _ _
  number _ := trivial
  bool _ := trivial
  string _ := trivial
  unit _ := trivial
  quantity _ := trivial
  unary _ _ := trivial
  binary _ _ _ := trivial
  breaking _ := trivial
  continuing _ := trivial
  returnNothing := trivial
  returning _ := trivial
  handedOn _ := trivial
  read name _ :=
    (Eval.Alike.view _ fun _ _ hmn => h.read name hmn).mono fun _ _ hab => ⟨hab, trivial⟩
  callee name _ :=
    (Eval.Alike.view _ fun _ _ hmn => h.callee name hmn).mono
      fun _ _ hab => ⟨hab, fun _ _ => trivial⟩
  print line _ _ hmn := ⟨.ok ⟨rfl, trivial⟩, h.print line hmn⟩
  set _ _ _ :=
    (Eval.Alike.change _ fun _ _ hmn => h.set _ _ _ hmn).mono fun _ _ hab => ⟨hab, trivial⟩
  declareFunction _ _ _ _ hmn := ⟨.ok ⟨rfl, trivial⟩, h.declareFunction _ hmn⟩
  loop _ hcondition hbody hdone := by
    refine .repeatWhile (hcondition.mono fun _ _ hab => hab.1) (hbody.mono ?_) ⟨rfl, hdone⟩ _
    rintro a _ ⟨rfl, ha⟩
    cases a with
    | none => exact .none
    | some a => exact .some ⟨rfl, ha a rfl⟩
  call site _ _ := (hrun _ _ site).mono fun _ _ hab => ⟨hab, fun _ _ => trivial⟩

/-- Blocks are run alike on linked machines if calls are, by `Block.evaluate_judged` for
`Link.Stable.judgement`. -/
theorem Block.evaluate_related (hlink : link.Stable) {rounds : Nat} {run run' : Caller}
    (hrun : ∀ f args site, Eval.Alike link (run f args site) (run' f args site)) (block : Block) :
    Eval.Alike link (block.evaluate rounds run) (block.evaluate rounds run') := by
  have hallows : (hlink.judgement rounds hrun).Allows (block.occurrences false) :=
    fun _ _ => trivial
  have hsame := block.evaluate_judged _ hallows
  exact Eval.Related.mono hsame fun _ _ hab => hab.1

end

end UnitScript
