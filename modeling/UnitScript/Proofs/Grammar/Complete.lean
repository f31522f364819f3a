import UnitScript.Proofs.Grammar.Lookahead
import UnitScript.Proofs.Grammar.Sound

/-!
# What is derived is read

The parsers read every instance of a phrase, and nothing of what follows it (`read_of_derives`).
The proof is by induction on the derivation. For each phrase `Read` says what the parsers make of
its tokens; where the grammar and the loops group tokens differently, as for operands that are
joined from the left, it speaks of the items a loop walks. Which rule a parser follows is decided
by the beginnings and ends of phrases. With soundness this makes reading a program the same as
deriving it (`ofTokens_eq_ok_iff`).
-/

namespace UnitScript

namespace Parser

/-- A parser reads a result off some tokens if what follows them is as expected, and leaves what
follows. What has to follow is different for each parser (`anything`, `Ends`, `Apart`). -/
def Yields {α : Type} (p : Parser α) (follows : List Token → Prop) (a : α) (ts : List Token) :
    Prop :=
  ∀ ⦃rest : List Token⦄, follows rest → p (ts ++ rest) = .ok (a, rest)

/-- One level deeper, by `Parser.nested`, the same is yielded. -/
theorem Yields.nested {α : Type} {p : Parser α} {follows : List Token → Prop} {a : α}
    {ts : List Token} (h : Yields p follows a ts) : Yields (nested p) follows a ts :=
  fun _ hrest => nested_eq_ok.2 (h hrest)

/-- What a parser yields it accepts in the sense of `Accepts`, which the loops ask for. -/
theorem yields_accepts {α : Type} {p : Parser α} {follows : List Token → Prop} :
    Accepts p (Yields p follows) follows :=
  fun _ _ _ h hrest => h hrest

/-- Nothing is expected of what follows: the condition of `Yields` for parsers that end at a fixed
token. -/
abbrev anything : List Token → Prop := fun _ => True

/-! ## Parts of expressions that do not contain expressions -/

/-- A name is read by `ident` wherever it is derived. -/
theorem ident_accepts : Accepts ident DerivesIdent anything := by
  intro name ts rest h _
  cases h with
  | name hkind => exact ident_eq_ok.2 ⟨_, rfl, hkind, rfl⟩

/-- Names joined by stars are read by `factors` where no star follows. -/
theorem factors_yields {names : List Ident} {ts : List Token}
    (h : Separated .star DerivesIdent names ts) {rest : List Token}
    (hstop : ∀ token ∈ rest.head?, token.kind ≠ .star) :
    factors (ts ++ rest) = .ok (names, rest) :=
  separated_accepts ident_accepts (fun _ _ _ => trivial) h trivial hstop

/-- Names joined by stars (`Separated`) begin with a name. -/
theorem begins_of_separated {separator : TokenKind} {names : List Ident} {ts : List Token}
    (h : Separated separator DerivesIdent names ts) :
    ∃ name us, ts = name :: us ∧ name.kind = .identifier := by
  cases h with
  | last hname =>
    cases hname with
    | name hkind => exact ⟨_, _, rfl, hkind⟩
  | more hname _ _ =>
    cases hname with
    | name hkind => exact ⟨_, _, rfl, hkind⟩

/-- The numerator of a unit, names or a one, is read by `numerator` where no star follows. -/
theorem numerator_yields {names : List Ident} {ts : List Token} (h : DerivesNumerator names ts)
    {rest : List Token} (hstop : ∀ token ∈ rest.head?, token.kind ≠ .star) :
    numerator (ts ++ rest) = .ok (names, rest) := by
  cases h with
  | names hnames =>
    obtain ⟨name, us, rfl, hkind⟩ := begins_of_separated hnames
    refine bind_eq_ok.2 ⟨name, _, peek_eq_ok.2 ⟨rfl, rfl⟩, ?_⟩
    rw [if_pos hkind]
    exact factors_yields hnames hstop
  | @one number hkind hlexeme =>
    refine bind_eq_ok.2 ⟨number, _, peek_eq_ok.2 ⟨rfl, rfl⟩, ?_⟩
    rw [if_neg (by rw [hkind]; decide)]
    exact accept_eq_ok.2 ⟨number, rfl, if_pos ⟨hkind, hlexeme⟩⟩

/-- A unit that is derived (`DerivesUnit`) is read between its bars, whatever follows. -/
theorem unit_yields {e : Node} {ts : List Token} (h : DerivesUnit e ts) :
    Yields unit anything e ts := by
  intro rest _
  cases h with
  | @unit above ts below us first last hfirst habove hbelow hlast =>
    have hstop : last.kind ≠ .star := by rw [hlast]; decide
    simp only [unit, bind_eq_ok, take_eq_ok]
    refine ⟨first, ts ++ (us ++ last :: rest), ⟨by simp, hfirst⟩, above, us ++ last :: rest, ?_⟩
    cases hbelow with
    | none =>
      refine ⟨numerator_yields habove fun _ ht => by cases ht; exact hstop, false, last :: rest,
        takeIf_eq_ok.2 (.inr ⟨fun _ ht => by cases ht; rw [hlast]; decide, rfl, rfl⟩), ?_⟩
      simp only [Bool.false_eq_true, if_false, bind_eq_ok, pure_eq_ok, take_eq_ok]
      exact ⟨[], last :: rest, ⟨rfl, rfl⟩, last, rest, ⟨rfl, hlast⟩, rfl, rfl⟩
    | @names _ us bar hbar hnames =>
      refine ⟨numerator_yields habove fun _ ht => by cases ht; rw [hbar]; decide, true,
        us ++ last :: rest, takeIf_eq_ok.2 (.inl ⟨bar, rfl, hbar, rfl⟩), ?_⟩
      simp only [if_true, bind_eq_ok, pure_eq_ok, take_eq_ok]
      exact ⟨below, last :: rest, factors_yields hnames fun _ ht => by cases ht; exact hstop,
        last, rest, ⟨rfl, hlast⟩, rfl, rfl⟩

/-- A number that is derived (`DerivesNumber`) is read from its token, whatever follows. -/
theorem number_yields {e : Node} {token : Token} (h : DerivesNumber e token)
    (rest : List Token) : number token.kind (token :: rest) = .ok (e, rest) := by
  cases h with
  | int hkind hvalue =>
    rw [number, if_pos hkind]
    exact accept_eq_ok.2 ⟨token, rfl, by rw [hvalue]; rfl⟩
  | double hkind hvalue =>
    rw [number, if_neg (by rw [hkind]; decide)]
    exact accept_eq_ok.2 ⟨token, rfl, by rw [hvalue]; rfl⟩

/-- Behind its magnitude, the rest of a quantity is read by `quantity`: an ampersand and a unit. -/
theorem quantity_yields (magnitude : Node) {u : Node} {ampersand : Token} {ts : List Token}
    (hampersand : ampersand.kind = .ampersand) (hu : DerivesUnit u ts) (rest : List Token) :
    quantity magnitude (ampersand :: ts ++ rest) =
      .ok (⟨magnitude.span.through u.span, .phys magnitude u⟩, rest) := by
  simp only [quantity, bind_eq_ok, pure_eq_ok, take_eq_ok]
  exact ⟨ampersand, ts ++ rest, ⟨rfl, hampersand⟩, u, rest, unit_yields hu trivial, rfl, rfl⟩

/-! ## Expressions, given those of deeper levels -/

section
variable {below : Deeper}

/-- A number is read by `atom` where nothing goes on with it (`Ends`), as an ampersand would. -/
theorem atom_number {e : Node} {token : Token} (h : DerivesNumber e token) :
    Yields (atom below) (Ends 4) e [token] := by
  intro rest hrest
  obtain ⟨next, rest, rfl, -, hnext, -⟩ := hrest.ne
  have hnumber := number_yields h (next :: rest)
  refine bind_eq_ok.2 ⟨token, _, peek_eq_ok.2 ⟨rfl, rfl⟩, ?_⟩
  have key : (do let magnitude ← number token.kind
                 if ← atKind .ampersand then quantity magnitude else return magnitude :
      Parser Node) (token :: next :: rest) = .ok (e, next :: rest) := by
    refine bind_eq_ok.2 ⟨e, _, hnumber, bind_eq_ok.2 ⟨false, _, ?_, pure_eq_ok.2 ⟨rfl, rfl⟩⟩⟩
    exact atKind_eq_ok.2 ⟨next, rfl, rfl, (decide_eq_false hnext).symm⟩
  cases h with
  | int hkind _ | double hkind _ =>
    simp only [hkind] at key ⊢
    exact key

/-- A name is read by `atom` as a variable, where neither a bracket nor an ampersand follows
(`Ends`). -/
theorem atom_name {name : Token} (hname : name.kind = .identifier) :
    Yields (atom below) (Ends 4) ⟨name.span, .variable name.ident⟩ [name] := by
  intro rest hrest
  obtain ⟨next, rest, rfl, hcall, hquantity, -⟩ := hrest.ne
  refine bind_eq_ok.2 ⟨name, _, peek_eq_ok.2 ⟨rfl, rfl⟩, ?_⟩
  simp only [hname]
  refine bind_eq_ok.2 ⟨some next.kind, _, peekSecond?_eq_ok.2 ⟨rfl, rfl⟩, ?_⟩
  generalize hsecond : some next.kind = second
  split
  · exact absurd (Option.some.inj hsecond) hcall
  · refine bind_eq_ok.2 ⟨name.ident, _, ident_eq_ok.2 ⟨name, rfl, hname, rfl⟩, ?_⟩
    rw [if_neg fun h => hquantity (Option.some.inj (hsecond.trans h))]
    exact pure_eq_ok.2 ⟨rfl, rfl⟩

/-- A quantity is read by `atom`, from its magnitude to the end of its unit. -/
theorem atom_quantity {magnitude u : Node} {token ampersand : Token} {ts : List Token}
    (h : DerivesMagnitude magnitude token) (hampersand : ampersand.kind = .ampersand)
    (hu : DerivesUnit u ts) :
    Yields (atom below) (Ends 4) ⟨magnitude.span.through u.span, .phys magnitude u⟩
      (token :: ampersand :: ts) := by
  intro rest _
  have hquantity := quantity_yields magnitude hampersand hu rest
  refine bind_eq_ok.2 ⟨token, _, peek_eq_ok.2 ⟨rfl, rfl⟩, ?_⟩
  cases h with
  | name hname =>
    simp only [hname]
    refine bind_eq_ok.2 ⟨some .ampersand, _, peekSecond?_eq_ok.2 ⟨?_, rfl⟩, ?_⟩
    · exact congrArg some hampersand
    · exact bind_eq_ok.2 ⟨token.ident, _, ident_eq_ok.2 ⟨token, rfl, hname, rfl⟩, hquantity⟩
  | number hnumber =>
    have key : (do let magnitude ← number token.kind
                   if ← atKind .ampersand then quantity magnitude else return magnitude :
        Parser Node) (token :: ampersand :: ts ++ rest) =
          .ok (⟨magnitude.span.through u.span, .phys magnitude u⟩, rest) := by
      refine bind_eq_ok.2 ⟨magnitude, _, number_yields hnumber _, ?_⟩
      refine bind_eq_ok.2 ⟨true, _, ?_, hquantity⟩
      exact atKind_eq_ok.2 ⟨ampersand, rfl, rfl, (decide_eq_true hampersand).symm⟩
    cases hnumber with
    | int hkind _ | double hkind _ =>
      simp only [hkind] at key ⊢
      exact key

/-- A unit by itself is read by `atom`, from bar to bar. -/
theorem atom_unit {e : Node} {ts : List Token} (h : DerivesUnit e ts) :
    Yields (atom below) (Ends 4) e ts := by
  intro rest _
  have hread := @unit_yields _ _ h rest trivial
  cases h with
  | @unit _ _ _ _ first _ hfirst _ _ _ =>
    refine bind_eq_ok.2 ⟨first, _, peek_eq_ok.2 ⟨rfl, rfl⟩, ?_⟩
    simp only [hfirst]
    exact hread

/-- A text or a truth value (`literal?`) is read by `atom` from its one token. -/
theorem atom_literal {token : Token} {e : Node} (h : literal? token = some e) :
    Yields (atom below) (Ends 4) e [token] := by
  intro rest _
  refine bind_eq_ok.2 ⟨token, _, peek_eq_ok.2 ⟨rfl, rfl⟩, ?_⟩
  have key : accept .expression literal? (token :: rest) = .ok (e, rest) :=
    accept_eq_ok.2 ⟨token, rfl, h⟩
  cases hkind : token.kind <;> simp only [literal?, hkind] at h ⊢
  case stringLiteral | charLiteral | trueWord | falseWord => exact key
  all_goals cases h

/-- An expression in brackets is read by `atom`, with the span of the brackets and the form of what
they enclose. -/
theorem atom_group {e : Node} {first last : Token} {ts : List Token}
    (hfirst : first.kind = .leftParen) (he : Yields below.expression (Ends 0) e ts)
    (hlast : last.kind = .rightParen) :
    Yields (atom below) (Ends 4) ⟨first.span.through last.span, e.form⟩
      (first :: ts ++ [last]) := by
  intro rest _
  refine bind_eq_ok.2 ⟨first, _, peek_eq_ok.2 ⟨rfl, rfl⟩, ?_⟩
  simp only [hfirst, group, bind_eq_ok, pure_eq_ok, take_eq_ok]
  refine ⟨first, ts ++ last :: rest, ⟨by simp, hfirst⟩, e, last :: rest, ?_, ?_⟩
  · exact he (.of_close (.inl hlast) rest)
  · exact ⟨last, rest, ⟨rfl, hlast⟩, rfl, rfl⟩

/-- What the arguments of a call are read as: nothing, or a list that `separated` accepts. -/
def Arguments (below : Deeper) (es : List Node) (ts : List Token) : Prop :=
  es = [] ∧ ts = [] ∨
    Separated .comma (Yields below.expression (Ends 0)) es ts ∧
      Begins TokenKind.beginsExpression ts

/-- A call is read by `atom`: a name, and its arguments in brackets (`Arguments`). -/
theorem atom_call {name first last : Token} {args : List Node} {ts : List Token}
    (hname : name.kind = .identifier) (hfirst : first.kind = .leftParen)
    (hargs : Arguments below args ts) (hlast : last.kind = .rightParen) :
    Yields (atom below) (Ends 4) ⟨name.span.through last.span, .call name.ident args⟩
      (name :: first :: ts ++ [last]) := by
  intro rest _
  refine bind_eq_ok.2 ⟨name, _, peek_eq_ok.2 ⟨rfl, rfl⟩, ?_⟩
  simp only [hname]
  refine bind_eq_ok.2 ⟨some .leftParen, _, peekSecond?_eq_ok.2 ⟨congrArg some hfirst, rfl⟩, ?_⟩
  simp only [call, bind_eq_ok, ident_eq_ok, take_eq_ok]
  refine ⟨name.ident, first :: ts ++ last :: rest, ⟨name, by simp, hname, rfl⟩, first,
    ts ++ last :: rest, ⟨rfl, hfirst⟩, ?_⟩
  rcases hargs with ⟨rfl, rfl⟩ | ⟨hargs, token, us, rfl, hbegins⟩
  · refine ⟨true, last :: rest, ?_, ?_⟩
    · exact atKind_eq_ok.2 ⟨last, rfl, rfl, (decide_eq_true hlast).symm⟩
    · simp only [if_true, bind_eq_ok, pure_eq_ok, take_eq_ok]
      exact ⟨[], last :: rest, ⟨rfl, rfl⟩, last, rest, ⟨rfl, hlast⟩, rfl, rfl⟩
  · have hopen : token.kind ≠ .rightParen := by
      intro h
      rw [h] at hbegins
      cases hbegins
    refine ⟨false, _, atKind_eq_ok.2 ⟨token, rfl, rfl, (decide_eq_false hopen).symm⟩, ?_⟩
    simp only [Bool.false_eq_true, if_false, bind_eq_ok, pure_eq_ok, take_eq_ok]
    refine ⟨args, last :: rest, ?_, last, rest, ⟨rfl, hlast⟩, rfl, rfl⟩
    refine separated_accepts yields_accepts (fun comma _ hcomma => ?_) hargs
      (.of_close (.inl hlast) rest) fun _ ht => ?_
    · exact .of_close (.inr (.inl hcomma)) _
    · cases ht
      rw [hlast]
      decide

/-- An atom that no sign stands in front of is read by `signed` too. -/
theorem signed_unsigned {e : Node} {ts : List Token} (he : Yields (atom below) (Ends 4) e ts)
    (hopens : Opens TokenKind.beginsAtom ts) : Yields (signed below) (Ends 4) e ts := by
  intro rest hrest
  obtain ⟨token, us, rfl, hkind⟩ := hopens.begins
  refine bind_eq_ok.2 ⟨none, _, acceptIf?_eq_ok.2 (.inr ⟨?_, rfl, rfl⟩), he hrest⟩
  intro first hfirst
  cases hfirst
  exact TokenKind.sign?_of_beginsAtom hkind

/-- A sign is read by `signed` with its operand, which may have a sign itself (`Deeper.sign`). -/
theorem signed_sign {token : Token} {op : UnaryOp} {e : Node} {ts : List Token}
    (hop : UnaryOp.ofToken? token.kind = some op) (hne : op ≠ .not)
    (he : Yields below.sign (Ends 4) e ts) :
    Yields (signed below) (Ends 4) (unary op token.span e) (token :: ts) := by
  intro rest hrest
  refine bind_eq_ok.2 ⟨some (op, token.span), ts ++ rest, acceptIf?_eq_ok.2 (.inl ?_), ?_⟩
  · exact ⟨token, op, rfl, by rw [hop]; simp [Option.filter, hne], rfl⟩
  · exact bind_eq_ok.2 ⟨e, rest, he hrest, pure_eq_ok.2 ⟨rfl, rfl⟩⟩

/-- The parser for the operands of a tier: `signed` for products, a `chain` of the tier below for
sums and comparisons, and `comparison` for logic. -/
def operands (below : Deeper) : Tier → Parser Node
  | .product => signed below
  | .sum => chain .product (signed below)
  | .comparison => chain .sum (chain .product (signed below))
  | .logic => comparison below

/-- A first operand and a trail of others (`Trail`), which are joined from the left. -/
def Joined (below : Deeper) (tier : Tier) (e : Node) (ts : List Token) : Prop :=
  ∃ first others us vs,
    e = others.foldl (fun left (op, right) => binary left op right) first ∧ ts = us ++ vs ∧
      Yields (operands below tier) (Ends (tier.rank + 1)) first us ∧
      Trail tier.operator? (Yields (operands below tier) (Ends (tier.rank + 1))) others vs

/-- Operands that are joined from the left (`Joined`) are read as a `chain` where no operator of the
tier follows. -/
theorem Joined.yields {tier : Tier} {e : Node} {ts : List Token} (h : Joined below tier e ts) :
    Yields (chain tier (operands below tier)) (Ends tier.rank) e ts := by
  intro rest hrest
  obtain ⟨first, others, us, vs, rfl, rfl, hfirst, hothers⟩ := h
  have hnext : Ends (tier.rank + 1) (vs ++ rest) := by
    cases hothers with
    | nil => exact hrest.succ
    | cons hop _ _ => exact .of_operator (by rw [hop]; rfl) _
  have hread := following_accepts yields_accepts (fun token us h => .of_operator h us) hothers
    hrest.succ hrest.operator?_eq_none
  rw [List.append_assoc]
  exact bind_eq_ok.2 ⟨first, _, hfirst hnext,
    bind_eq_ok.2 ⟨others, _, hread, pure_eq_ok.2 ⟨rfl, rfl⟩⟩⟩

/-- A further operand is joined (`Joined`) to those before it, which make up its left operand. -/
theorem Joined.snoc {tier : Tier} {left right : Node} {op : BinaryOp} {token : Token}
    {ts us : List Token} (h : Joined below tier left ts)
    (hop : BinaryOp.ofToken? token.kind = some op) (htier : op.tier = tier)
    (hright : Yields (operands below tier) (Ends (tier.rank + 1)) right us) :
    Joined below tier (binary left op right) (ts ++ token :: us) := by
  obtain ⟨first, others, us', vs, rfl, rfl, hfirst, hothers⟩ := h
  have hlead : tier.operator? token.kind = some op := by
    rw [Tier.operator?, hop]
    simp [Option.filter, htier]
  refine ⟨first, others ++ [(op, right)], us', vs ++ (token :: us ++ []), ?_, by simp, hfirst, ?_⟩
  · rw [List.foldl_append]
    rfl
  · exact hothers.append (.cons hlead hright .nil)

/-- A comparison that is not negated is read by `comparison`, as a chain of sums. -/
theorem comparison_compared {e : Node} {ts : List Token} (he : Joined below .comparison e ts)
    (hopens : Opens TokenKind.beginsSigned ts) : Yields (comparison below) (Ends 1) e ts := by
  intro rest hrest
  obtain ⟨token, us, rfl, hkind⟩ := hopens.begins
  refine bind_eq_ok.2 ⟨none, _, acceptIf?_eq_ok.2 (.inr ⟨?_, rfl, rfl⟩), he.yields hrest⟩
  intro first hfirst
  cases hfirst
  exact TokenKind.not?_of_beginsSigned hkind

/-- `not` is read with the comparison it negates. -/
theorem comparison_negated {token : Token} {e : Node} {ts : List Token}
    (hnot : token.kind = .notWord) (he : Yields below.comparison (Ends 1) e ts) :
    Yields (comparison below) (Ends 1) (unary .not token.span e) (token :: ts) := by
  intro rest hrest
  refine bind_eq_ok.2 ⟨some (.not, token.span), ts ++ rest, acceptIf?_eq_ok.2 (.inl ?_), ?_⟩
  · exact ⟨token, .not, rfl, by rw [hnot]; rfl, rfl⟩
  · exact bind_eq_ok.2 ⟨e, rest, he hrest, pure_eq_ok.2 ⟨rfl, rfl⟩⟩

/-- Behind its type, if there is one, an assignment is read: a name, a sign and the value that
`Deeper.expression` reads. -/
theorem assigned_yields {start : Span} {type : Option TypeName} {name equal : Token} {e : Node}
    {ts rest : List Token} (hname : name.kind = .identifier) (hequal : equal.kind = .equal)
    (he : below.expression (ts ++ rest) = .ok (e, rest)) :
    (do let name ← ident
        let _ ← take .equal
        let value ← below.expression
        return ⟨start.through value.span, .assign type name value⟩ : Parser Node)
      (name :: equal :: ts ++ rest) =
        .ok (⟨start.through e.span, .assign type name.ident e⟩, rest) := by
  simp only [bind_eq_ok, pure_eq_ok, ident_eq_ok, take_eq_ok]
  exact ⟨name.ident, equal :: ts ++ rest, ⟨name, rfl, hname, rfl⟩, equal, ts ++ rest,
    ⟨rfl, hequal⟩, e, rest, he, rfl, rfl⟩

/-- An assignment without a type is read by `expressionBody`, which sees that a sign follows the
name. -/
theorem expressionBody_assign {name equal : Token} {e : Node} {ts : List Token}
    (hname : name.kind = .identifier) (hequal : equal.kind = .equal)
    (he : Yields below.expression (Ends 0) e ts) :
    Yields (expressionBody below) (Ends 0)
      ⟨name.span.through e.span, .assign none name.ident e⟩ (name :: equal :: ts) := by
  intro rest hrest
  refine bind_eq_ok.2 ⟨name, _, peek_eq_ok.2 ⟨rfl, rfl⟩, ?_⟩
  refine bind_eq_ok.2 ⟨some .equal, _, peekSecond?_eq_ok.2 ⟨congrArg some hequal, rfl⟩, ?_⟩
  rw [if_pos (.inr ⟨hname, rfl⟩)]
  refine bind_eq_ok.2 ⟨name, _, peek_eq_ok.2 ⟨rfl, rfl⟩, ?_⟩
  refine bind_eq_ok.2 ⟨name, _, peek_eq_ok.2 ⟨rfl, rfl⟩, ?_⟩
  rw [if_neg (by rw [hname]; decide)]
  exact bind_eq_ok.2 ⟨none, _, pure_eq_ok.2 ⟨rfl, rfl⟩, assigned_yields hname hequal (he hrest)⟩

/-- A declaration is read by `expressionBody`, which sees that it begins with a type. -/
theorem expressionBody_declare {word name equal : Token} {type : TypeName} {e : Node}
    {ts : List Token} (hword : word.kind.isType = true)
    (htype : TypeName.ofToken? word.kind = some type) (hname : name.kind = .identifier)
    (hequal : equal.kind = .equal) (he : Yields below.expression (Ends 0) e ts) :
    Yields (expressionBody below) (Ends 0)
      ⟨word.span.through e.span, .assign (some type) name.ident e⟩
      (word :: name :: equal :: ts) := by
  intro rest hrest
  refine bind_eq_ok.2 ⟨word, _, peek_eq_ok.2 ⟨rfl, rfl⟩, ?_⟩
  refine bind_eq_ok.2 ⟨some name.kind, _, peekSecond?_eq_ok.2 ⟨rfl, rfl⟩, ?_⟩
  rw [if_pos (.inl hword)]
  refine bind_eq_ok.2 ⟨word, _, peek_eq_ok.2 ⟨rfl, rfl⟩, ?_⟩
  refine bind_eq_ok.2 ⟨word, _, peek_eq_ok.2 ⟨rfl, rfl⟩, ?_⟩
  rw [if_pos hword]
  refine bind_eq_ok.2 ⟨some type, name :: equal :: ts ++ rest, ?_, ?_⟩
  · exact map_eq_ok.2 ⟨type, type_eq_ok.2 ⟨word, rfl, hword, htype⟩, rfl⟩
  · exact assigned_yields hname hequal (he hrest)

/-- An expression that assigns nothing at its top is read by `expressionBody` as a chain of logic
(`Joined`). -/
theorem expressionBody_logical {e : Node} {ts : List Token} (he : Joined below .logic e ts)
    (hopens : Opens TokenKind.beginsLogical ts) :
    Yields (expressionBody below) (Ends 0) e ts := by
  intro rest hrest
  obtain ⟨next, rest, rfl, -, -, hnext⟩ := hrest.ne
  have hopens : Opens TokenKind.beginsLogical (ts ++ next :: rest) := hopens.append hnext
  have hread := he.yields hrest
  obtain ⟨token, us, htokens, hkind⟩ := hopens.begins
  rw [htokens] at hopens hread ⊢
  refine bind_eq_ok.2 ⟨token, _, peek_eq_ok.2 ⟨rfl, rfl⟩, ?_⟩
  refine bind_eq_ok.2 ⟨_, _, peekSecond?_eq_ok.2 ⟨rfl, rfl⟩, ?_⟩
  rw [if_neg]
  · exact hread
  · rintro (htype | ⟨hname, hequal⟩)
    · rw [TokenKind.isType_of_beginsLogical hkind] at htype
      cases htype
    · exact hopens.second hname hequal

end

/-! ## Statements, given the blocks in them -/

section
variable {below : Deeper} {inner : Parser Block}

/-- A condition in brackets and a block are read as a `case`. -/
theorem case_yields {first last : Token} {c : Node} {body : Block} {ts us : List Token}
    (hfirst : first.kind = .leftParen) (hc : Yields below.expression (Ends 0) c ts)
    (hlast : last.kind = .rightParen) (hbody : Yields inner anything body us) :
    Yields (case below inner) anything (c, body) (first :: ts ++ last :: us) := by
  intro rest _
  simp only [case, condition, bind_eq_ok, pure_eq_ok, take_eq_ok]
  refine ⟨c, us ++ rest, ⟨first, ts ++ last :: (us ++ rest), ⟨by simp, hfirst⟩, c,
    last :: (us ++ rest), ?_, ?_⟩, ?_⟩
  · exact hc (.of_close (.inl hlast) _)
  · exact ⟨last, us ++ rest, ⟨rfl, hlast⟩, rfl, rfl⟩
  · exact ⟨body, rest, hbody trivial, rfl, rfl⟩

/-- What an `if` has behind its first case: a trail of further cases, and an `else` block or
nothing. -/
def Others (below : Deeper) (inner : Parser Block) (alternatives : Alternatives)
    (ts : List Token) : Prop :=
  ∃ cases last us vs, alternatives = .ofCases (cases.map Prod.snd) last ∧ ts = us ++ vs ∧
    Trail (only .elseifWord) (Yields (case below inner) anything) cases us ∧
    (last = .none ∧ vs = [] ∨
      ∃ b word ws, last = .otherwise b ∧ vs = word :: ws ∧ word.kind = .elseWord ∧
        Yields inner anything b ws)

/-- A further case stands in front of the other alternatives (`Others`), behind its word. -/
theorem Others.cons {alternatives : Alternatives} {word : Token} {c : Node} {body : Block}
    {ts us : List Token} (h : Others below inner alternatives us)
    (hword : word.kind = .elseifWord)
    (hcase : Yields (case below inner) anything (c, body) ts) :
    Others below inner (.case c body alternatives) (word :: ts ++ us) := by
  obtain ⟨cases, last, us, vs, rfl, rfl, hcases, hlast⟩ := h
  exact ⟨((), (c, body)) :: cases, last, word :: ts ++ us, vs, rfl, by simp,
    .cons (if_pos hword) hcase hcases, hlast⟩

/-- An `if` is read as a statement where nothing goes on with it. -/
theorem ifElse_yields {word : Token} {c : Node} {body : Block} {alternatives : Alternatives}
    {ts us : List Token} (hword : word.kind = .ifWord)
    (hcase : Yields (case below inner) anything (c, body) ts)
    (hothers : Others below inner alternatives us) :
    Yields (statementWith below inner) Apart
      ⟨word.span.through (alternatives.lastSpan body.span),
        .ifElse (.case c body alternatives)⟩ (word :: ts ++ us) := by
  intro rest hrest
  obtain ⟨cases, last, us, vs, rfl, rfl, hcases, hlast⟩ := hothers
  have hstop : ∀ token ∈ (vs ++ rest).head?, only .elseifWord token.kind = none := by
    rcases hlast with ⟨-, rfl⟩ | ⟨_, final, _, -, rfl, hfinal, -⟩
    · exact fun token ht => if_neg (hrest token ht).1
    · intro token ht
      cases ht
      exact if_neg (by rw [hfinal]; decide)
  have hread : following (only .elseifWord) (case below inner) (us ++ (vs ++ rest)) =
      .ok (cases, vs ++ rest) :=
    following_accepts yields_accepts (fun _ _ _ => trivial) hcases trivial hstop
  refine bind_eq_ok.2 ⟨word, _, peek_eq_ok.2 ⟨rfl, rfl⟩, ?_⟩
  simp only [hword, ifElse, bind_eq_ok, take_eq_ok]
  refine ⟨word, ts ++ (us ++ (vs ++ rest)), ⟨by simp, hword⟩, (c, body), _, hcase trivial,
    cases, _, hread, ?_⟩
  rcases hlast with ⟨rfl, rfl⟩ | ⟨b, final, ws, rfl, rfl, hfinal, hb⟩
  · refine ⟨false, rest, takeIf_eq_ok.2 (.inr ⟨fun t ht => (hrest t ht).2, rfl, rfl⟩), ?_⟩
    simp only [Bool.false_eq_true, if_false, pure_eq_ok, and_true]
    rw [lastSpan_ofCases_none, List.map_map]
    rfl
  · refine ⟨true, ws ++ rest, takeIf_eq_ok.2 (.inl ⟨final, rfl, hfinal, rfl⟩), ?_⟩
    simp only [if_true, bind_eq_ok, pure_eq_ok]
    refine ⟨b, rest, hb trivial, ?_, rfl⟩
    rw [lastSpan_ofCases_otherwise]
    rfl

/-- A loop is read by `statementWith`: its word, a condition and a block. -/
theorem whileLoop_yields {word : Token} {c : Node} {body : Block} {ts : List Token}
    (hword : word.kind = .whileWord)
    (hcase : Yields (case below inner) anything (c, body) ts) :
    Yields (statementWith below inner) Apart
      ⟨word.span.through body.span, .whileLoop c body⟩ (word :: ts) := by
  intro rest _
  have hread := @hcase rest trivial
  simp only [case, bind_eq_ok, pure_eq_ok] at hread
  obtain ⟨e, mid, he, b, left, hb, hpair, hleft⟩ := hread
  obtain ⟨rfl, rfl⟩ := Prod.mk.inj hpair
  subst hleft
  refine bind_eq_ok.2 ⟨word, _, peek_eq_ok.2 ⟨rfl, rfl⟩, ?_⟩
  simp only [hword, whileLoop, bind_eq_ok, pure_eq_ok, take_eq_ok]
  exact ⟨word, ts ++ left, ⟨rfl, hword⟩, e, mid, he, b, left, hb, rfl, rfl⟩

/-- A parameter is read by `param` wherever it is derived (`DerivesParam`). -/
theorem param_accepts : Accepts param DerivesParam anything := by
  intro p ts rest h _
  cases h with
  | @param type name colon word hname hcolon hword htype =>
    simp only [param, bind_eq_ok, pure_eq_ok, take_eq_ok, ident_eq_ok, type_eq_ok]
    exact ⟨name.ident, colon :: word :: rest, ⟨name, rfl, hname, rfl⟩, colon, word :: rest,
      ⟨rfl, hcolon⟩, type, rest, ⟨word, rfl, hword, htype⟩, rfl, rfl⟩

/-- Parameters (`DerivesParam`) begin with a name, so that they are told from the bracket that
closes them. -/
theorem begins_of_params {params : List Param} {ts : List Token}
    (h : Separated .comma DerivesParam params ts) :
    ∃ name us, ts = name :: us ∧ name.kind = .identifier := by
  cases h with
  | last hparam =>
    cases hparam with
    | param hname _ _ _ => exact ⟨_, _, rfl, hname⟩
  | more hparam _ _ =>
    cases hparam with
    | param hname _ _ _ => exact ⟨_, _, rfl, hname⟩

/-- A definition of a function is read by `statementWith`: its parameters, its type and its body. -/
theorem function_yields {word name first last arrow result : Token} {params : List Param}
    {returns : TypeName} {body : Block} {ts us : List Token}
    (hword : word.kind = .functionWord) (hname : name.kind = .identifier)
    (hfirst : first.kind = .leftParen) (hparams : DerivesParams params ts)
    (hlast : last.kind = .rightParen) (harrow : arrow.kind = .arrow)
    (hresult : TypeName.ofToken? result.kind = some returns)
    (hbody : Yields inner anything body us) :
    Yields (statementWith below inner) Apart
      ⟨word.span.through body.span, .function name.ident params returns body⟩
      (word :: name :: first :: ts ++ last :: arrow :: result :: us) := by
  intro rest _
  refine bind_eq_ok.2 ⟨word, _, peek_eq_ok.2 ⟨rfl, rfl⟩, ?_⟩
  simp only [hword, function, bind_eq_ok, take_eq_ok, ident_eq_ok]
  let left := last :: arrow :: result :: (us ++ rest)
  refine ⟨word, name :: first :: ts ++ left, ⟨by simp [left], hword⟩, name.ident,
    first :: ts ++ left, ⟨name, rfl, hname, rfl⟩, first, ts ++ left, ⟨rfl, hfirst⟩, ?_⟩
  cases hparams with
  | none =>
    refine ⟨false, left, atKind_eq_ok.2 ⟨last, rfl, rfl, ?_⟩, ?_⟩
    · rw [hlast]; rfl
    · simp only [Bool.false_eq_true, if_false, bind_eq_ok, pure_eq_ok, take_eq_ok, returnType,
        accept_eq_ok]
      exact ⟨[], left, ⟨rfl, rfl⟩, last, _, ⟨rfl, hlast⟩, arrow, _, ⟨rfl, harrow⟩, returns, _,
        ⟨result, rfl, hresult⟩, body, rest, hbody trivial, rfl, rfl⟩
  | some hparams =>
    have hread : separated .comma param (ts ++ left) = .ok (params, left) :=
      separated_accepts param_accepts (fun _ _ _ => trivial) hparams trivial
        fun _ ht => by cases ht; rw [hlast]; decide
    obtain ⟨param, ts, rfl, hkind⟩ := begins_of_params hparams
    refine ⟨true, _, atKind_eq_ok.2 ⟨param, rfl, rfl, (decide_eq_true hkind).symm⟩, ?_⟩
    simp only [if_true, bind_eq_ok, pure_eq_ok, take_eq_ok, returnType, accept_eq_ok]
    exact ⟨params, left, hread, last, _, ⟨rfl, hlast⟩, arrow, _, ⟨rfl, harrow⟩, returns, _,
      ⟨result, rfl, hresult⟩, body, rest, hbody trivial, rfl, rfl⟩

/-- What a semicolon closes is read as a statement by `statementWith`, together with the
semicolon. -/
def Closed (below : Deeper) (inner : Parser Block) (e : Node) (ts : List Token) : Prop :=
  ∀ ⦃semicolon : Token⦄, semicolon.kind = .semicolon →
    Yields (statementWith below inner) Apart e (ts ++ [semicolon])

/-- What is read in front of a semicolon is read by `closed` together with it. -/
theorem closed_yields {simple : Parser Node} {e : Node} {ts rest : List Token} {semicolon : Token}
    (hsemicolon : semicolon.kind = .semicolon)
    (he : simple (ts ++ semicolon :: rest) = .ok (e, semicolon :: rest)) :
    closed simple (ts ++ [semicolon] ++ rest) = .ok (e, rest) := by
  simp only [closed, bind_eq_ok, pure_eq_ok, take_eq_ok]
  exact ⟨e, semicolon :: rest, by simpa using he, semicolon, rest, ⟨rfl, hsemicolon⟩, rfl, rfl⟩

/-- An expression is read as a statement (`Closed`) where it begins like one. -/
theorem closed_expression {e : Node} {ts : List Token}
    (he : Yields below.expression (Ends 0) e ts) (hbegins : Begins TokenKind.beginsExpression ts) :
    Closed below inner e ts := by
  intro semicolon hsemicolon rest _
  have hread := closed_yields hsemicolon (he (.of_close (.inr (.inr hsemicolon)) rest))
  obtain ⟨token, us, rfl, hkind⟩ := hbegins
  refine bind_eq_ok.2 ⟨token, _, peek_eq_ok.2 ⟨rfl, rfl⟩, ?_⟩
  cases h : token.kind <;> simp only [h] at hkind ⊢
  case ifWord | whileWord | functionWord | leftBrace | returnWord | breakWord | continueWord =>
    cases hkind
  all_goals exact hread

/-- The end of a call with a value is read as a statement (`Closed`): a word and an expression. -/
theorem closed_returnValue {word : Token} {e : Node} {ts : List Token}
    (hword : word.kind = .returnWord) (he : Yields below.expression (Ends 0) e ts)
    (hbegins : Begins TokenKind.beginsExpression ts) :
    Closed below inner ⟨word.span.through e.span, .returnValue e⟩ (word :: ts) := by
  intro semicolon hsemicolon rest _
  have hvalue := he (.of_close (.inr (.inr hsemicolon)) rest)
  obtain ⟨token, us, rfl, hkind⟩ := hbegins
  have hnothing : token.kind ≠ .semicolon := by
    intro h
    rw [h] at hkind
    cases hkind
  refine bind_eq_ok.2 ⟨word, _, peek_eq_ok.2 ⟨rfl, rfl⟩, ?_⟩
  simp only [hword]
  refine closed_yields hsemicolon ?_
  simp only [returned, bind_eq_ok, take_eq_ok]
  refine ⟨word, _, ⟨rfl, hword⟩, false, _, atKind_eq_ok.2 ⟨token, rfl, rfl, ?_⟩, ?_⟩
  · exact (decide_eq_false hnothing).symm
  · simp only [Bool.false_eq_true, if_false, bind_eq_ok, pure_eq_ok]
    exact ⟨e, semicolon :: rest, hvalue, rfl, rfl⟩

/-- The end of a call without a value is read as a statement (`Closed`): the word alone. -/
theorem closed_returnNothing {word : Token} (hword : word.kind = .returnWord) :
    Closed below inner ⟨word.span, .returnNothing⟩ [word] := by
  intro semicolon hsemicolon rest _
  refine bind_eq_ok.2 ⟨word, _, peek_eq_ok.2 ⟨rfl, rfl⟩, ?_⟩
  simp only [hword]
  refine closed_yields hsemicolon ?_
  simp only [returned, bind_eq_ok, take_eq_ok]
  refine ⟨word, _, ⟨rfl, hword⟩, true, _, atKind_eq_ok.2 ⟨semicolon, rfl, rfl, ?_⟩, ?_⟩
  · exact (decide_eq_true hsemicolon).symm
  · exact pure_eq_ok.2 ⟨rfl, rfl⟩

/-- A jump in a loop is read as a statement (`Closed`): one of the two words for jumps. -/
theorem closed_word {word : Token} {form : Form}
    (hword : word.kind = .breakWord ∧ form = .breakLoop ∨
      word.kind = .continueWord ∧ form = .continueLoop) :
    Closed below inner ⟨word.span, form⟩ [word] := by
  intro semicolon hsemicolon rest _
  refine bind_eq_ok.2 ⟨word, _, peek_eq_ok.2 ⟨rfl, rfl⟩, ?_⟩
  rcases hword with ⟨hkind, rfl⟩ | ⟨hkind, rfl⟩
  · simp only [hkind]
    refine closed_yields hsemicolon ?_
    exact bind_eq_ok.2 ⟨word, _, take_eq_ok.2 ⟨rfl, hkind⟩, pure_eq_ok.2 ⟨rfl, rfl⟩⟩
  · simp only [hkind]
    refine closed_yields hsemicolon ?_
    exact bind_eq_ok.2 ⟨word, _, take_eq_ok.2 ⟨rfl, hkind⟩, pure_eq_ok.2 ⟨rfl, rfl⟩⟩

/-- A block among statements is read by `statementWith`, since it begins with a brace. -/
theorem nested_yields {b : Block} {ts : List Token} (hb : Yields inner anything b ts)
    (hbegins : Begins (· == .leftBrace) ts) :
    Yields (statementWith below inner) Apart ⟨b.span, .block b⟩ ts := by
  intro rest _
  have hread := @hb rest trivial
  obtain ⟨token, us, rfl, hkind⟩ := hbegins
  refine bind_eq_ok.2 ⟨token, _, peek_eq_ok.2 ⟨rfl, rfl⟩, ?_⟩
  simp only [eq_of_beq hkind]
  exact bind_eq_ok.2 ⟨b, rest, hread, pure_eq_ok.2 ⟨rfl, rfl⟩⟩

/-- A statement as it stands among others: it begins like one (`Begins`), and is read where nothing
goes on with it. -/
def Item (below : Deeper) (inner : Parser Block) (e : Node) (ts : List Token) : Prop :=
  Begins TokenKind.beginsItem ts ∧ Yields (statementWith below inner) Apart e ts

/-- Statements in a row (`Row`) are read by `untilKind` up to what closes them. -/
theorem items_yield (closes : TokenKind → Bool)
    (hcloses : ∀ kind : TokenKind, kind.beginsItem = true → closes kind = false)
    {es : List Node} {ts : List Token} (h : Row (Item below inner) es ts) {last : Token}
    (hlast : closes last.kind = true) (happart : Apart [last]) (rest : List Token) :
    untilKind closes (statementWith below inner) (ts ++ last :: rest) = .ok (es, last :: rest) := by
  have haccepts : Accepts (statementWith below inner) (Item below inner) Apart :=
    fun _ _ _ he hrest => he.2 hrest
  refine untilKind_accepts haccepts (fun us he => ⟨he.1.apart, ?_⟩) h ?_ rfl hlast
  · obtain ⟨token, ts, rfl, hkind⟩ := he.1
    exact ⟨token, ts, rfl, hcloses _ hkind⟩
  · exact fun token ht => happart token ht

/-- Statements between braces are read by `block` one level higher. -/
theorem block_yields {n : Nat} {es : List Node} {first last : Token} {ts : List Token}
    (hfirst : first.kind = .leftBrace) (hes : Row (Item (deeper n) (block n)) es ts)
    (hlast : last.kind = .rightBrace) :
    Yields (block (n + 1)) anything ⟨first.span.through last.span, es⟩ (first :: ts ++ [last]) := by
  intro rest _
  have hcloses : ∀ kind : TokenKind, kind.beginsItem = true →
      decide (kind = .rightBrace ∨ kind = .endOfText) = false := by
    intro kind hkind
    obtain ⟨hbrace, hend⟩ := TokenKind.ne_close_of_beginsItem hkind
    exact decide_eq_false (not_or_intro hbrace hend)
  have happart : Apart [last] := by
    intro token ht
    cases ht
    rw [hlast]
    decide
  have hread := items_yield _ hcloses hes (decide_eq_true (.inl hlast)) happart rest
  simp only [block, nested_eq_ok, bind_eq_ok, pure_eq_ok, take_eq_ok]
  exact ⟨first, ts ++ last :: rest, ⟨by simp, hfirst⟩, es, last :: rest, hread, last, rest,
    ⟨rfl, hlast⟩, rfl, rfl⟩

end

/-! ## All phrases -/

/-- What the parsers make of the tokens of a phrase in which `n` levels may be opened. -/
def Read (n : Nat) : Phrase → List Token → Prop
  | .atom e => Yields (atom (deeper n)) (Ends 4) e
  | .signed e => Yields (signed (deeper n)) (Ends 4) e
  | .chain tier e => Joined (deeper n) tier e
  | .comparison e => Yields (comparison (deeper n)) (Ends 1) e
  | .expression e => Yields (deeper n).expression (Ends 0) e
  | .arguments es => Arguments (deeper n) es
  | .case c body => Yields (case (deeper n) (block n)) anything (c, body)
  | .others alternatives => Others (deeper n) (block n) alternatives
  | .block b => Yields (block n) anything b
  | .simple e => Closed (deeper n) (block n) e
  | .item e => Yields (statementWith (deeper n) (block n)) Apart e
  | .items es => Row (Item (deeper n) (block n)) es

/-- The operands of a tier are read by the parser for them (`operands`): `Read` says this tier by
tier. -/
theorem Read.operand {n : Nat} {tier : Tier} {e : Node} {ts : List Token}
    (h : Read n (tier.operand e) ts) :
    Yields (operands (deeper n) tier) (Ends (tier.rank + 1)) e ts := by
  cases tier with
  | logic => exact h
  | comparison => exact Joined.yields h
  | sum => exact Joined.yields h
  | product => exact h

/-- What is derived is read: by induction on the derivation, every part of the grammar (`Derives`)
is read by its parser (`Read`). -/
theorem read_of_derives {n : Nat} {p : Phrase} {ts : List Token} (h : Derives n p ts) :
    Read n p ts := by
  induction h with
  | name hname => exact atom_name hname
  | number hnumber => exact atom_number hnumber
  | quantity hmagnitude hampersand hunit => exact atom_quantity hmagnitude hampersand hunit
  | unit hunit => exact atom_unit hunit
  | text hkind => exact atom_literal (by rcases hkind with h | h <;> rw [literal?, h])
  | trueWord hkind => exact atom_literal (by rw [literal?, hkind])
  | falseWord hkind => exact atom_literal (by rw [literal?, hkind])
  | group hfirst _ hlast ih => exact atom_group hfirst ih hlast
  | call hname hfirst _ hlast ih => exact atom_call hname hfirst ih hlast
  | noArguments => exact .inl ⟨rfl, rfl⟩
  | lastArgument he ih => exact .inr ⟨.last ih, he.opens⟩
  | moreArguments he hcomma _ ih ihs =>
    rcases ihs with ⟨hnone, -⟩ | ⟨hargs, -⟩
    · cases hnone
    · obtain ⟨token, us, rfl, hkind⟩ := he.opens
      exact .inr ⟨.more ih hcomma hargs, token, _, rfl, hkind⟩
  | unsigned he ih => exact signed_unsigned ih he.opens
  | sign hop hne _ ih => exact signed_sign hop hne ih.nested
  | @single _ us _ _ _ ih => exact ⟨_, [], us, [], rfl, (List.append_nil us).symm, ih.operand, .nil⟩
  | joined _ hop htier _ ih ihs => exact Joined.snoc ih hop htier ihs.operand
  | compared he ih => exact comparison_compared ih he.opens
  | negated hnot _ ih => exact comparison_negated hnot ih.nested
  | logical he ih => exact (expressionBody_logical ih he.opens).nested
  | assign hname hequal _ ih => exact (expressionBody_assign hname hequal ih).nested
  | declare hword htype hname hequal _ ih =>
    exact (expressionBody_declare hword htype hname hequal ih).nested
  | case hfirst _ hlast _ ih ihs => exact case_yields hfirst ih hlast ihs
  | noOthers => exact ⟨[], .none, [], [], rfl, rfl, .nil, .inl ⟨rfl, rfl⟩⟩
  | otherwise hword _ ih =>
    exact ⟨[], _, [], _, rfl, rfl, .nil, .inr ⟨_, _, _, rfl, rfl, hword, ih⟩⟩
  | elseIf hword _ _ ih ihs => exact Others.cons ihs hword ih
  | block hfirst _ hlast ih => exact block_yields hfirst ih hlast
  | returnValue hword he ih => exact closed_returnValue hword ih he.opens
  | returnNothing hword => exact closed_returnNothing hword
  | breakLoop hword => exact closed_word (.inl ⟨hword, rfl⟩)
  | continueLoop hword => exact closed_word (.inr ⟨hword, rfl⟩)
  | evaluated he ih => exact closed_expression ih he.opens
  | closed _ hsemicolon ih => exact ih hsemicolon
  | ifElse hword _ _ ih ihs => exact ifElse_yields hword ih ihs
  | whileLoop hword _ ih => exact whileLoop_yields hword ih
  | function hword hname hfirst hparams hlast harrow hresult _ ih =>
    exact function_yields hword hname hfirst hparams hlast harrow hresult ih
  | nested hb ih => exact nested_yields ih hb.opens
  | noItems => exact .nil
  | moreItems he _ ih ihs => exact .cons ⟨he.opens, ih⟩ ihs

end Parser

/-- A program is read by `Block.ofTokens` from the tokens that it is derived from
(`Block.DerivedFrom`). -/
theorem Block.ofTokens_of_derivedFrom {tokens : List Token} {program : Block}
    (h : program.DerivedFrom tokens) : Block.ofTokens tokens = .ok program := by
  cases h with
  | @program es ts last first rest hes hlast hfirst =>
    have happart : Apart [last] := by
      intro token ht
      cases ht
      rw [hlast]
      decide
    have hitems := Parser.items_yield (fun kind => decide (kind = .endOfText))
      (fun kind hkind => decide_eq_false (TokenKind.ne_close_of_beginsItem hkind).2)
      (Parser.read_of_derives hes) (decide_eq_true hlast) happart rest
    have hhead : (ts ++ last :: rest).head? = some first := by
      cases ts with
      | nil => exact hfirst
      | cons _ _ => exact hfirst
    have hread : Parser.program (ts ++ last :: rest) =
        .ok (⟨first.span.through last.span, es⟩, rest) := by
      simp only [Parser.program, Parser.bind_eq_ok, Parser.pure_eq_ok, Parser.peek_eq_ok,
        Parser.take_eq_ok]
      exact ⟨first, _, ⟨hhead, rfl⟩, es, last :: rest, hitems, last, rest, ⟨rfl, hlast⟩, rfl, rfl⟩
    rw [Block.ofTokens, Parser.parse, hread]

/-- The parser returns a program exactly where the grammar derives it from the tokens
(`Block.DerivedFrom`). So it accepts no other tokens, and reads no tokens in two ways. -/
theorem Block.ofTokens_eq_ok_iff (tokens : List Token) (program : Block) :
    Block.ofTokens tokens = .ok program ↔ program.DerivedFrom tokens :=
  ⟨Block.derivedFrom_of_ofTokens, Block.ofTokens_of_derivedFrom⟩

end UnitScript
