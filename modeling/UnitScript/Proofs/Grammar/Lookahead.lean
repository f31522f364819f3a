import UnitScript.Proofs.Grammar

/-!
# What phrases begin with and what ends them

The parsers decide between the rules of the grammar by the next token or the next two. What they
rely on are facts about derivations: with which kinds of tokens a phrase begins (`Derives.opens`),
that an expression which assigns nothing at its top does not begin with a name and an equals sign,
and that what stands behind an expression cannot be read as a part of it (`Ends`).
-/

namespace UnitScript

namespace TokenKind

/-- Whether atoms begin with tokens of this kind. -/
def beginsAtom : TokenKind → Bool
  | identifier | intLiteral | doubleLiteral | leftParen | pipe => true
  | stringLiteral | charLiteral | trueWord | falseWord => true
  | _ => false

/-- Whether atoms behind signs begin with tokens of this kind. -/
def beginsSigned : TokenKind → Bool
  | plus | minus => true
  | kind => kind.beginsAtom

/-- Whether expressions that assign nothing at their top begin with tokens of this kind. -/
def beginsLogical : TokenKind → Bool
  | notWord => true
  | kind => kind.beginsSigned

/-- Whether expressions begin with tokens of this kind. -/
def beginsExpression (kind : TokenKind) : Bool := kind.beginsLogical || kind.isType

/-- Whether statements begin with tokens of this kind. -/
def beginsItem : TokenKind → Bool
  | ifWord | whileWord | functionWord | leftBrace => true
  | returnWord | breakWord | continueWord => true
  | kind => kind.beginsExpression

variable {kind : TokenKind}

/-- Atoms may stand behind signs. -/
theorem beginsSigned_of_beginsAtom (h : kind.beginsAtom = true) : kind.beginsSigned = true := by
  cases kind <;> first | rfl | cases h

/-- Atoms behind signs may be negated. -/
theorem beginsLogical_of_beginsSigned (h : kind.beginsSigned = true) :
    kind.beginsLogical = true := by
  cases kind <;> first | rfl | cases h

/-- Atoms do not begin with a sign. -/
theorem sign?_of_beginsAtom (h : kind.beginsAtom = true) :
    (UnaryOp.ofToken? kind).filter (· ≠ .not) = none := by
  cases kind <;> first | rfl | cases h

/-- Atoms behind signs do not begin with `not`. -/
theorem not?_of_beginsSigned (h : kind.beginsSigned = true) :
    (UnaryOp.ofToken? kind).filter (· = .not) = none := by
  cases kind <;> first | rfl | cases h

/-- Expressions that assign nothing at their top do not begin with a type. -/
theorem isType_of_beginsLogical (h : kind.beginsLogical = true) : kind.isType = false := by
  cases kind <;> first | rfl | cases h

/-- No statement goes on with an `if` before it. -/
theorem ne_else_of_beginsItem (h : kind.beginsItem = true) :
    kind ≠ .elseifWord ∧ kind ≠ .elseWord := by
  constructor <;>
  · rintro rfl
    cases h

/-- No statement begins with what closes a block or a text. -/
theorem ne_close_of_beginsItem (h : kind.beginsItem = true) :
    kind ≠ .rightBrace ∧ kind ≠ .endOfText := by
  constructor <;>
  · rintro rfl
    cases h

end TokenKind

/-! ## Beginnings -/

/-- The tokens begin with one of a kind (`TokenKind`) that is allowed there, and not with a name and
an equals sign. -/
inductive Opens (first : TokenKind → Bool) : List Token → Prop
  /-- One token. -/
  | one : first token.kind = true → Opens first [token]
  /-- Two tokens and more. -/
  | more : first token.kind = true → (token.kind = .identifier → second.kind ≠ .equal) →
      Opens first (token :: second :: ts)

/-- The tokens begin with one of a kind that is allowed there. -/
def Begins (first : TokenKind → Bool) (tokens : List Token) : Prop :=
  ∃ token ts, tokens = token :: ts ∧ first token.kind = true

namespace Opens

variable {first other : TokenKind → Bool} {ts us : List Token} {token : Token}

/-- Fewer kinds may be allowed. -/
theorem mono (h : Opens first ts) (hle : ∀ kind, first kind = true → other kind = true) :
    Opens other ts := by
  cases h with
  | one hfirst => exact .one (hle _ hfirst)
  | more hfirst hsecond => exact .more (hle _ hfirst) hsecond

/-- What begins with one token of an allowed kind other than a name. -/
theorem cons (hfirst : first token.kind = true) (hname : token.kind ≠ .identifier) :
    Opens first (token :: ts) := by
  cases ts with
  | nil => exact .one hfirst
  | cons second ts => exact .more hfirst fun h => absurd h hname

/-- More tokens may follow, of which the first is no equals sign. -/
theorem append (h : Opens first ts) (htoken : token.kind ≠ .equal) :
    Opens first (ts ++ token :: us) := by
  cases h with
  | one hfirst => exact .more hfirst fun _ => htoken
  | more hfirst hsecond => exact .more hfirst hsecond

/-- There is a first token, of an allowed kind. -/
theorem begins (h : Opens first ts) : Begins first ts := by
  cases h with
  | one hfirst => exact ⟨_, _, rfl, hfirst⟩
  | more hfirst _ => exact ⟨_, _, rfl, hfirst⟩

/-- A name at the beginning is followed by no equals sign. -/
theorem second (h : Opens first (token :: ts)) (hname : token.kind = .identifier) :
    (token :: ts)[1]?.map Token.kind ≠ some .equal := by
  cases h with
  | one _ => nofun
  | more _ hsecond => exact fun h => hsecond hname (Option.some.inj h)

end Opens

/-- How the tokens of a phrase begin, as far as the parser has to know to choose a rule. -/
def Phrase.Opening : Phrase → List Token → Prop
  | .atom _ => Opens TokenKind.beginsAtom
  | .signed _ | .chain .product _ | .chain .sum _ | .chain .comparison _ =>
    Opens TokenKind.beginsSigned
  | .comparison _ | .chain .logic _ => Opens TokenKind.beginsLogical
  | .expression _ => Begins TokenKind.beginsExpression
  | .simple _ | .item _ => Begins TokenKind.beginsItem
  | .block _ => Begins (· == .leftBrace)
  | _ => fun _ => True

/-- Tokens between operands are no equals signs. -/
theorem BinaryOp.ofToken?_equal {kind : TokenKind} {op : BinaryOp}
    (h : BinaryOp.ofToken? kind = some op) : kind ≠ .equal := by
  rintro rfl
  cases h

/-- Signs are not `not`. -/
theorem UnaryOp.beginsSigned_of_ofToken? {kind : TokenKind} {op : UnaryOp}
    (h : UnaryOp.ofToken? kind = some op) (hop : op ≠ .not) : kind.beginsSigned = true := by
  unfold UnaryOp.ofToken? at h
  split at h
  · rfl
  · rfl
  · cases h
    exact absurd rfl hop
  · cases h

/-- The magnitude of a quantity is a name or a number, and an ampersand follows it. -/
theorem DerivesMagnitude.opens {magnitude : Node} {token ampersand : Token} {ts : List Token}
    (h : DerivesMagnitude magnitude token) (hampersand : ampersand.kind = .ampersand) :
    Opens TokenKind.beginsAtom (token :: ampersand :: ts) := by
  have hsecond : ampersand.kind ≠ .equal := by
    rw [hampersand]
    decide
  refine .more ?_ fun _ => hsecond
  cases h with
  | name hname => rw [hname]; rfl
  | number hnumber =>
    cases hnumber with
    | int hkind _ | double hkind _ => rw [hkind]; rfl

/-- A phrase that is derived begins with a token that is allowed there (`Phrase.Opening`). -/
theorem Derives.opens {n : Nat} {p : Phrase} {ts : List Token} (h : Derives n p ts) :
    p.Opening ts := by
  induction h with
  | name hname => exact .one (by rw [hname]; rfl)
  | number hnumber =>
    cases hnumber with
    | int hkind _ | double hkind _ => exact .one (by rw [hkind]; rfl)
  | quantity hmagnitude hampersand _ => exact hmagnitude.opens hampersand
  | unit hunit =>
    cases hunit with
    | unit hfirst _ _ _ => exact .cons (by rw [hfirst]; rfl) (by rw [hfirst]; decide)
  | text hkind => exact .one (by rcases hkind with hkind | hkind <;> rw [hkind] <;> rfl)
  | trueWord hkind => exact .one (by rw [hkind]; rfl)
  | falseWord hkind => exact .one (by rw [hkind]; rfl)
  | group hfirst _ _ _ => exact .cons (by rw [hfirst]; rfl) (by rw [hfirst]; decide)
  | call hname hfirst _ _ _ => exact .more (by rw [hname]; rfl) fun _ => by rw [hfirst]; decide
  | unsigned _ ih => exact ih.mono fun _ => TokenKind.beginsSigned_of_beginsAtom
  | sign hop hne _ _ =>
    have hkind := UnaryOp.beginsSigned_of_ofToken? hop hne
    refine .cons hkind fun hname => ?_
    rw [hname] at hop
    cases hop
  | @single _ _ tier _ _ ih =>
    cases tier with
    | logic | comparison | sum | product => exact ih
  | @joined _ tier _ _ _ _ _ _ _ hop _ _ ih _ =>
    cases tier with
    | logic | comparison | sum | product => exact ih.append (BinaryOp.ofToken?_equal hop)
  | compared _ ih => exact ih.mono fun _ => TokenKind.beginsLogical_of_beginsSigned
  | negated hnot _ _ => exact .cons (by rw [hnot]; rfl) (by rw [hnot]; decide)
  | logical _ ih =>
    obtain ⟨token, us, rfl, hkind⟩ := ih.begins
    exact ⟨token, us, rfl, by rw [TokenKind.beginsExpression, hkind]; rfl⟩
  | assign hname _ _ _ => exact ⟨_, _, rfl, by rw [hname]; rfl⟩
  | declare hword _ _ _ _ _ =>
    exact ⟨_, _, rfl, by rw [TokenKind.beginsExpression, hword, Bool.or_true]⟩
  | block hfirst _ _ _ => exact ⟨_, _, rfl, by rw [hfirst]; rfl⟩
  | returnValue hword _ _ | returnNothing hword | breakLoop hword | continueLoop hword =>
    exact ⟨_, _, rfl, by rw [hword]; rfl⟩
  | evaluated _ ih =>
    obtain ⟨token, us, rfl, hkind⟩ := ih
    refine ⟨token, us, rfl, ?_⟩
    unfold TokenKind.beginsItem
    split
    all_goals first | rfl | exact hkind
  | closed _ _ ih =>
    obtain ⟨token, us, rfl, hkind⟩ := ih
    exact ⟨token, _, rfl, hkind⟩
  | ifElse hword _ _ _ _ | whileLoop hword _ _ | function hword _ _ _ _ _ _ _ _ =>
    exact ⟨_, _, rfl, by rw [hword]; rfl⟩
  | nested _ ih =>
    obtain ⟨token, us, rfl, hkind⟩ := ih
    exact ⟨token, us, rfl, by rw [eq_of_beq hkind]; rfl⟩
  | noArguments | lastArgument | moreArguments | case | noOthers | otherwise | elseIf | noItems
  | moreItems => trivial

/-! ## Ends -/

/-- How tightly the operators of a tier bind. -/
def Tier.rank : Tier → Nat
  | .logic => 0
  | .comparison => 1
  | .sum => 2
  | .product => 3

/-- Whether tokens of this kind stand behind operands of a rank (`Tier.rank`): they close an
expression, or are operators of a lower rank. -/
def TokenKind.ends (rank : Nat) : TokenKind → Bool
  | rightParen | comma | semicolon => true
  | kind => (BinaryOp.ofToken? kind).any (·.tier.rank < rank)

/-- The tokens begin with one that stands behind operands of a rank. -/
def Ends (rank : Nat) : List Token → Prop := Begins (TokenKind.ends rank)

/-- The tokens do not begin with what goes on with an `if`. -/
def Apart (tokens : List Token) : Prop :=
  ∀ token ∈ tokens.head?, token.kind ≠ .elseifWord ∧ token.kind ≠ .elseWord

namespace Ends

variable {rank : Nat} {tier : Tier} {tokens : List Token} {token : Token}

/-- What ends operands of a tier ends tighter ones. -/
theorem succ (h : Ends tier.rank tokens) : Ends (tier.rank + 1) tokens := by
  obtain ⟨token, ts, rfl, hkind⟩ := h
  refine ⟨token, ts, rfl, ?_⟩
  unfold TokenKind.ends at hkind ⊢
  split
  · rfl
  · rfl
  · rfl
  · simp only [Option.any_eq_true_iff_get, decide_eq_true_eq] at hkind ⊢
    obtain ⟨hop, hlt⟩ := hkind
    exact ⟨hop, Nat.lt_succ_of_lt hlt⟩

/-- An operator of a tier ends the operand before it. -/
theorem of_operator (h : (tier.operator? token.kind).isSome = true) (ts : List Token) :
    Ends (tier.rank + 1) (token :: ts) := by
  refine ⟨token, ts, rfl, ?_⟩
  obtain ⟨op, hop⟩ := Option.isSome_iff_exists.1 h
  obtain ⟨hop, htier⟩ := Option.filter_eq_some_iff.1 hop
  have htier : op.tier = tier := by simpa using htier
  unfold TokenKind.ends
  split
  · rfl
  · rfl
  · rfl
  · rw [hop, Option.any_some, htier]
    exact decide_eq_true (Nat.lt_succ_self _)

/-- What ends operands of a tier is no operator of it. -/
theorem operator?_eq_none (h : Ends tier.rank tokens) :
    ∀ token ∈ tokens.head?, tier.operator? token.kind = none := by
  obtain ⟨first, ts, rfl, hkind⟩ := h
  intro token htoken
  cases htoken
  rw [Tier.operator?, Option.filter_eq_none_iff]
  intro op hop htier
  have htier : op.tier = tier := by simpa using htier
  subst htier
  unfold TokenKind.ends at hkind
  split at hkind
  · next h => rw [h] at hop; cases hop
  · next h => rw [h] at hop; cases hop
  · next h => rw [h] at hop; cases hop
  · rw [hop, Option.any_some] at hkind
    exact Nat.lt_irrefl _ (of_decide_eq_true hkind)

/-- What ends an operand is no part of a call, a quantity or an assignment. -/
theorem ne (h : Ends rank tokens) :
    ∃ token ts, tokens = token :: ts ∧ token.kind ≠ .leftParen ∧ token.kind ≠ .ampersand ∧
      token.kind ≠ .equal := by
  obtain ⟨token, ts, rfl, hkind⟩ := h
  refine ⟨token, ts, rfl, ?_⟩
  refine ⟨?_, ?_, ?_⟩ <;>
  · intro h
    rw [h] at hkind
    cases hkind

/-- A token that closes an expression ends it. -/
theorem of_close (h : token.kind = .rightParen ∨ token.kind = .comma ∨ token.kind = .semicolon)
    (ts : List Token) : Ends rank (token :: ts) := by
  refine ⟨token, ts, rfl, ?_⟩
  rcases h with h | h | h <;> rw [h] <;> rfl

end Ends

/-- No statement goes on with an `if` before it. -/
theorem Begins.apart {ts us : List Token} (h : Begins TokenKind.beginsItem ts) :
    Apart (ts ++ us) := by
  obtain ⟨token, ts, rfl, hkind⟩ := h
  intro first hfirst
  cases hfirst
  exact TokenKind.ne_else_of_beginsItem hkind

end UnitScript
