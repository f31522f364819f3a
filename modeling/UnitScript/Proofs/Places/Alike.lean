import UnitScript.Proofs.Grammar
import UnitScript.Proofs.Places.Relocate
import UnitScript.Tree.Alike

/-!
# Alike trees

Trees that are the same once all their places are moved to the same one are alike, provided that
they are alike themselves (`Block.alike_of_relocate`). A tree is not alike itself only if it holds
a double that is no number, and none is read from tokens whose doubles are numbers
(`Block.DerivedFrom.alike_self`).
-/

namespace UnitScript

variable {f : Position → Position}

/-! ## From places to trees -/

theorem Ident.name_eq_of_relocate {a b : Ident} (h : a.relocate f = b.relocate f) :
    a.name = b.name :=
  (congrArg Ident.name h :)

theorem Ident.alike_of_relocate {a b : Ident} (h : a.relocate f = b.relocate f) :
    a.alike b = true :=
  beq_iff_eq.2 (name_eq_of_relocate h)

theorem Ident.allAlike_of_relocate {as bs : List Ident}
    (h : as.map (·.relocate f) = bs.map (·.relocate f)) : Ident.allAlike as bs = true := by
  have hnames := congrArg (List.map Ident.name) h
  rw [List.map_map, List.map_map] at hnames
  exact beq_iff_eq.2 hnames

theorem Param.alike_of_relocate {a b : Param} (h : a.relocate f = b.relocate f) :
    a.alike b = true := by
  have hident : a.ident.relocate f = b.ident.relocate f := (congrArg Param.ident h :)
  have htype : a.type = b.type := (congrArg Param.type h :)
  rw [Param.alike, Ident.alike_of_relocate hident, htype, beq_self_eq_true]
  rfl

theorem Param.allAlike_of_relocate {as bs : List Param}
    (h : as.map (·.relocate f) = bs.map (·.relocate f)) : Param.allAlike as bs = true := by
  induction as generalizing bs with
  | nil =>
    cases bs with
    | nil => rfl
    | cons b bs => cases h
  | cons a as ih =>
    cases bs with
    | nil => cases h
    | cons b bs =>
      obtain ⟨hab, has⟩ := List.cons_eq_cons.1 h
      rw [Param.allAlike, Param.alike_of_relocate hab, ih has]
      rfl

-- Forms that differ are moved to forms that differ, so one case is left for each form.
mutual

/-- Nodes that are the same at the same places are alike. -/
theorem Node.alike_of_relocate : (a b : Node) → a.relocate f = b.relocate f →
    a.alike a = true → a.alike b = true
  | ⟨_, .int _⟩, ⟨_, form⟩, h, ha => by
    cases form <;> simp_all [Node.relocate, Form.relocate, Node.alike]
  | ⟨_, .double _⟩, ⟨_, form⟩, h, ha => by
    cases form <;> simp_all [Node.relocate, Form.relocate, Node.alike]
  | ⟨_, .string _⟩, ⟨_, form⟩, h, ha => by
    cases form <;> simp_all [Node.relocate, Form.relocate, Node.alike]
  | ⟨_, .bool _⟩, ⟨_, form⟩, h, ha => by
    cases form <;> simp_all [Node.relocate, Form.relocate, Node.alike]
  | ⟨_, .returnNothing⟩, ⟨_, form⟩, h, ha => by
    cases form <;> simp_all [Node.relocate, Form.relocate, Node.alike]
  | ⟨_, .breakLoop⟩, ⟨_, form⟩, h, ha => by
    cases form <;> simp_all [Node.relocate, Form.relocate, Node.alike]
  | ⟨_, .continueLoop⟩, ⟨_, form⟩, h, ha => by
    cases form <;> simp_all [Node.relocate, Form.relocate, Node.alike]
  | ⟨_, .unit m d⟩, ⟨_, form⟩, h, ha => by
    cases form <;> simp only [Node.relocate, Form.relocate, Node.mk.injEq, reduceCtorEq,
      and_false, Form.unit.injEq] at h
    next n e =>
    obtain ⟨-, hm, hd⟩ := h
    simp only [Node.alike, Bool.and_eq_true] at ha ⊢
    exact ⟨Ident.allAlike_of_relocate hm, Ident.allAlike_of_relocate hd⟩
  | ⟨_, .phys m u⟩, ⟨_, form⟩, h, ha => by
    cases form <;> simp only [Node.relocate, Form.relocate, Node.mk.injEq, reduceCtorEq,
      and_false, Form.phys.injEq] at h
    next n v =>
    obtain ⟨-, hm, hu⟩ := h
    simp only [Node.alike, Bool.and_eq_true] at ha ⊢
    exact ⟨m.alike_of_relocate n hm ha.1, u.alike_of_relocate v hu ha.2⟩
  | ⟨_, .unary op a⟩, ⟨_, form⟩, h, ha => by
    cases form <;> simp only [Node.relocate, Form.relocate, Node.mk.injEq, reduceCtorEq,
      and_false, Form.unary.injEq] at h
    next op' b =>
    obtain ⟨-, rfl, hab⟩ := h
    simp only [Node.alike, Bool.and_eq_true] at ha ⊢
    exact ⟨ha.1, a.alike_of_relocate b hab ha.2⟩
  | ⟨_, .binary op a c⟩, ⟨_, form⟩, h, ha => by
    cases form <;> simp only [Node.relocate, Form.relocate, Node.mk.injEq, reduceCtorEq,
      and_false, Form.binary.injEq] at h
    next op' b d =>
    obtain ⟨-, rfl, hab, hcd⟩ := h
    simp only [Node.alike, Bool.and_eq_true] at ha ⊢
    exact ⟨⟨ha.1.1, a.alike_of_relocate b hab ha.1.2⟩, c.alike_of_relocate d hcd ha.2⟩
  | ⟨_, .variable a⟩, ⟨_, form⟩, h, ha => by
    cases form <;> simp only [Node.relocate, Form.relocate, Node.mk.injEq, reduceCtorEq,
      and_false, Form.variable.injEq] at h
    next b =>
    obtain ⟨-, hab⟩ := h
    simp only [Node.alike] at ha ⊢
    exact Ident.alike_of_relocate hab
  | ⟨_, .assign s a v⟩, ⟨_, form⟩, h, ha => by
    cases form <;> simp only [Node.relocate, Form.relocate, Node.mk.injEq, reduceCtorEq,
      and_false, Form.assign.injEq] at h
    next t b w =>
    obtain ⟨-, rfl, hab, hvw⟩ := h
    simp only [Node.alike, Bool.and_eq_true] at ha ⊢
    exact ⟨⟨ha.1.1, Ident.alike_of_relocate hab⟩, v.alike_of_relocate w hvw ha.2⟩
  | ⟨_, .ifElse as⟩, ⟨_, form⟩, h, ha => by
    cases form <;> simp only [Node.relocate, Form.relocate, Node.mk.injEq, reduceCtorEq,
      and_false, Form.ifElse.injEq] at h
    next bs =>
    obtain ⟨-, hab⟩ := h
    simp only [Node.alike] at ha ⊢
    exact as.alike_of_relocate bs hab ha
  | ⟨_, .whileLoop c a⟩, ⟨_, form⟩, h, ha => by
    cases form <;> simp only [Node.relocate, Form.relocate, Node.mk.injEq, reduceCtorEq,
      and_false, Form.whileLoop.injEq] at h
    next d b =>
    obtain ⟨-, hcd, hab⟩ := h
    simp only [Node.alike, Bool.and_eq_true] at ha ⊢
    exact ⟨c.alike_of_relocate d hcd ha.1, a.alike_of_relocate b hab ha.2⟩
  | ⟨_, .function i p s a⟩, ⟨_, form⟩, h, ha => by
    cases form <;> simp only [Node.relocate, Form.relocate, Node.mk.injEq, reduceCtorEq,
      and_false, Form.function.injEq] at h
    next j q t b =>
    obtain ⟨-, hij, hpq, rfl, hab⟩ := h
    simp only [Node.alike, Bool.and_eq_true] at ha ⊢
    exact ⟨⟨⟨Ident.alike_of_relocate hij, Param.allAlike_of_relocate hpq⟩, ha.1.2⟩,
      a.alike_of_relocate b hab ha.2⟩
  | ⟨_, .call i as⟩, ⟨_, form⟩, h, ha => by
    cases form <;> simp only [Node.relocate, Form.relocate, Node.mk.injEq, reduceCtorEq,
      and_false, Form.call.injEq] at h
    next j bs =>
    obtain ⟨-, hij, hab⟩ := h
    simp only [Node.alike, Bool.and_eq_true] at ha ⊢
    exact ⟨Ident.alike_of_relocate hij, Node.allAlike_of_relocate as bs hab ha.2⟩
  | ⟨_, .returnValue a⟩, ⟨_, form⟩, h, ha => by
    cases form <;> simp only [Node.relocate, Form.relocate, Node.mk.injEq, reduceCtorEq,
      and_false, Form.returnValue.injEq] at h
    next b =>
    obtain ⟨-, hab⟩ := h
    simp only [Node.alike] at ha ⊢
    exact a.alike_of_relocate b hab ha
  | ⟨_, .block a⟩, ⟨_, form⟩, h, ha => by
    cases form <;> simp only [Node.relocate, Form.relocate, Node.mk.injEq, reduceCtorEq,
      and_false, Form.block.injEq] at h
    next b =>
    obtain ⟨-, hab⟩ := h
    simp only [Node.alike] at ha ⊢
    exact a.alike_of_relocate b hab ha

/-- Lists of nodes that are the same at the same places are alike. -/
theorem Node.allAlike_of_relocate : (as bs : List Node) →
    Node.relocateAll f as = Node.relocateAll f bs → Node.allAlike as as = true →
    Node.allAlike as bs = true
  | [], [], _, _ => by rw [Node.allAlike]
  | [], _ :: _, h, _ => by simp only [Node.relocateAll, reduceCtorEq] at h
  | _ :: _, [], h, _ => by simp only [Node.relocateAll, reduceCtorEq] at h
  | a :: as, b :: bs, h, ha => by
    simp only [Node.relocateAll, List.cons.injEq] at h
    simp only [Node.allAlike, Bool.and_eq_true] at ha ⊢
    exact ⟨a.alike_of_relocate b h.1 ha.1, Node.allAlike_of_relocate as bs h.2 ha.2⟩

/-- Blocks that are the same at the same places are alike. -/
theorem Block.alike_of_relocate : (a b : Block) → a.relocate f = b.relocate f →
    a.alike a = true → a.alike b = true
  | ⟨_, as⟩, ⟨_, bs⟩, h, ha => by
    simp only [Block.relocate, Block.mk.injEq] at h
    simp only [Block.alike] at ha ⊢
    exact Node.allAlike_of_relocate as bs h.2 ha

/-- Alternatives that are the same at the same places are alike. -/
theorem Alternatives.alike_of_relocate : (as bs : Alternatives) → as.relocate f = bs.relocate f →
    as.alike as = true → as.alike bs = true
  | .none, bs, h, ha => by
    cases bs <;> simp only [Alternatives.relocate, reduceCtorEq] at h
    exact ha
  | .otherwise a, bs, h, ha => by
    cases bs <;> simp only [Alternatives.relocate, reduceCtorEq, Alternatives.otherwise.injEq] at h
    next b =>
    simp only [Alternatives.alike] at ha ⊢
    exact a.alike_of_relocate b h ha
  | .case c a as, bs, h, ha => by
    cases bs <;> simp only [Alternatives.relocate, reduceCtorEq, Alternatives.case.injEq] at h
    next d b bs =>
    obtain ⟨hcd, hab, has⟩ := h
    simp only [Alternatives.alike, Bool.and_eq_true] at ha ⊢
    exact ⟨⟨c.alike_of_relocate d hcd ha.1.1, a.alike_of_relocate b hab ha.1.2⟩,
      as.alike_of_relocate bs has ha.2⟩

end

/-! ## From tokens to trees -/

/-- Whether a token reads as a number, if it reads as a double. -/
def Token.IsExact (token : Token) : Prop :=
  token.kind = .doubleLiteral → ∀ x, Double.ofText? token.lexeme.toList = some x →
    (x == x) = true

/-- Whether the trees of a phrase are alike themselves. -/
def Phrase.AlikeSelf : Phrase → Prop
  | .atom e | .signed e | .chain _ e | .comparison e | .expression e | .simple e | .item e =>
    e.alike e = true
  | .arguments es | .items es => Node.allAlike es es = true
  | .case condition body => condition.alike condition = true ∧ body.alike body = true
  | .others alternatives => alternatives.alike alternatives = true
  | .block b => b.alike b = true

/-- What a tier joins is alike itself as the tree that it is. -/
theorem Tier.alikeSelf_operand {tier : Tier} {e : Node} :
    (tier.operand e).AlikeSelf ↔ e.alike e = true := by
  cases tier <;> exact Iff.rfl

/-- A node is alike itself regardless of its place. -/
theorem Node.alike_self_at (e : Node) (span : Span) :
    Node.alike ⟨span, e.form⟩ ⟨span, e.form⟩ = e.alike e := by
  obtain ⟨_, form⟩ := e
  cases form <;> simp only [Node.alike]

theorem DerivesNumber.alike_self {e : Node} {token : Token} (h : DerivesNumber e token)
    (htoken : token.IsExact) : e.alike e = true := by
  cases h with
  | int hkind hread => simp only [Node.alike, beq_self_eq_true]
  | double hkind hread =>
    rw [Node.alike]
    exact htoken hkind _ hread

theorem DerivesMagnitude.alike_self {e : Node} {token : Token} (h : DerivesMagnitude e token)
    (htoken : token.IsExact) : e.alike e = true := by
  cases h with
  | name hkind => simp only [Node.alike, Ident.alike, beq_self_eq_true]
  | number hnumber => exact hnumber.alike_self htoken

theorem DerivesUnit.alike_self {e : Node} {ts : List Token} (h : DerivesUnit e ts) :
    e.alike e = true := by
  cases h
  simp only [Node.alike, Ident.allAlike, beq_self_eq_true, Bool.and_self]

/-- What is derived from tokens whose doubles are numbers is alike itself. -/
theorem Derives.alikeSelf {n : Nat} {p : Phrase} {ts : List Token} (h : Derives n p ts)
    (hts : ∀ token ∈ ts, token.IsExact) : p.AlikeSelf := by
  have hident (ident : Ident) : ident.alike ident = true := Ident.alike_of_relocate (f := id) rfl
  have hparams (params : List Param) : Param.allAlike params params = true :=
    Param.allAlike_of_relocate (f := id) rfl
  induction h with
  | name hname => simp only [Phrase.AlikeSelf, Node.alike, hident]
  | number hnumber => exact hnumber.alike_self (hts _ List.mem_cons_self)
  | quantity hmagnitude hampersand hunit =>
    simp only [Phrase.AlikeSelf, Node.alike, hunit.alike_self,
      hmagnitude.alike_self (hts _ List.mem_cons_self), Bool.and_self]
  | unit hunit => exact hunit.alike_self
  | text hkind => simp only [Phrase.AlikeSelf, Node.alike, beq_self_eq_true]
  | trueWord hkind | falseWord hkind => simp only [Phrase.AlikeSelf, Node.alike, beq_self_eq_true]
  | group hfirst _ hlast ih =>
    simp only [Phrase.AlikeSelf] at ih ⊢
    exact (Node.alike_self_at _ _).trans (ih fun token ht => hts token (by simp [ht]))
  | call hname hfirst _ hlast ih =>
    simp only [Phrase.AlikeSelf, Node.alike, hident, Bool.true_and] at ih ⊢
    exact ih fun token ht => hts token (by simp [ht])
  | noArguments | noItems => simp only [Phrase.AlikeSelf, Node.allAlike]
  | lastArgument he ih =>
    simp only [Phrase.AlikeSelf, Node.allAlike, Bool.and_true] at ih ⊢
    exact ih hts
  | moreArguments he hcomma _ ih ihs =>
    simp only [Phrase.AlikeSelf] at ih ihs ⊢
    rw [Node.allAlike, ih fun token ht => hts token (by simp [ht]),
      ihs fun token ht => hts token (by simp [ht]), Bool.and_self]
  | unsigned he ih | compared he ih | evaluated he ih | logical he ih =>
    simp only [Phrase.AlikeSelf] at ih ⊢
    exact ih hts
  | single he ih => exact Tier.alikeSelf_operand.1 (ih hts)
  | sign hop hne _ ih | negated hnot _ ih =>
    simp only [Phrase.AlikeSelf, Parser.unary, Node.alike, beq_self_eq_true, Bool.true_and] at ih ⊢
    exact ih fun token ht => hts token (by simp [ht])
  | joined _ hop htier _ ih ihs =>
    rw [Tier.alikeSelf_operand] at ihs
    simp only [Phrase.AlikeSelf, Parser.binary, Node.alike, beq_self_eq_true, Bool.true_and,
      Bool.and_eq_true] at ih ⊢
    exact ⟨ih fun token ht => hts token (by simp [ht]),
      ihs fun token ht => hts token (by simp [ht])⟩
  | assign hname hequal _ ih | declare hword htype hname hequal _ ih =>
    simp only [Phrase.AlikeSelf, Node.alike, beq_self_eq_true, hident, Bool.true_and] at ih ⊢
    exact ih fun token ht => hts token (by simp [ht])
  | case hfirst _ hlast _ ih ihs =>
    simp only [Phrase.AlikeSelf] at ih ihs ⊢
    exact ⟨ih fun token ht => hts token (by simp [ht]),
      ihs fun token ht => hts token (by simp [ht])⟩
  | noOthers => simp only [Phrase.AlikeSelf, Alternatives.alike]
  | otherwise hword _ ih =>
    simp only [Phrase.AlikeSelf, Alternatives.alike] at ih ⊢
    exact ih fun token ht => hts token (by simp [ht])
  | elseIf hword _ _ ih ihs =>
    simp only [Phrase.AlikeSelf, Alternatives.alike, Bool.and_eq_true] at ih ihs ⊢
    exact ⟨ih fun token ht => hts token (by simp [ht]),
      ihs fun token ht => hts token (by simp [ht])⟩
  | block hfirst _ hlast ih =>
    simp only [Phrase.AlikeSelf, Block.alike] at ih ⊢
    exact ih fun token ht => hts token (by simp [ht])
  | returnNothing hword | breakLoop hword | continueLoop hword =>
    simp only [Phrase.AlikeSelf, Node.alike]
  | returnValue hword he ih =>
    simp only [Phrase.AlikeSelf, Node.alike] at ih ⊢
    exact ih fun token ht => hts token (by simp [ht])
  | closed _ hsemicolon ih =>
    simp only [Phrase.AlikeSelf] at ih ⊢
    exact ih fun token ht => hts token (by simp [ht])
  | ifElse hword _ _ ih ihs =>
    simp only [Phrase.AlikeSelf, Node.alike, Alternatives.alike, Bool.and_eq_true] at ih ihs ⊢
    exact ⟨ih fun token ht => hts token (by simp [ht]),
      ihs fun token ht => hts token (by simp [ht])⟩
  | whileLoop hword _ ih =>
    simp only [Phrase.AlikeSelf, Node.alike, Bool.and_eq_true] at ih ⊢
    exact ih fun token ht => hts token (by simp [ht])
  | function hword hname hfirst hparams' hlast harrow hresult _ ih =>
    simp only [Phrase.AlikeSelf, Node.alike, hident, hparams, beq_self_eq_true, Bool.true_and]
      at ih ⊢
    exact ih fun token ht => hts token (by simp [ht])
  | nested hb ih =>
    simp only [Phrase.AlikeSelf, Node.alike] at ih ⊢
    exact ih hts
  | moreItems he _ ih ihs =>
    simp only [Phrase.AlikeSelf, Node.allAlike, Bool.and_eq_true] at ih ihs ⊢
    exact ⟨ih fun token ht => hts token (by simp [ht]),
      ihs fun token ht => hts token (by simp [ht])⟩

/-- A program read from tokens whose doubles are numbers is alike itself. -/
theorem Block.DerivedFrom.alike_self {program : Block} {tokens : List Token}
    (h : program.DerivedFrom tokens) (htokens : ∀ token ∈ tokens, token.IsExact) :
    program.alike program = true := by
  cases h with
  | program hes hlast hfirst =>
    rw [Block.alike]
    exact hes.alikeSelf fun token ht => htokens token (List.mem_append_left _ ht)

end UnitScript
