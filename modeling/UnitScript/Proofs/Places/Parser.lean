import UnitScript.Proofs.Places.Relocate

/-!
# Reading hands places on

The parser does not look at where tokens stand: from tokens that have been moved it reads the tree
that it reads from the others, moved in the same way, and what it refuses it refuses at the same
token for the same reason (`Block.ofTokens_relocate`). An error stands at the token that is
refused, or at the first place of the text where none is left, which therefore has to stay where it
is.
-/

namespace UnitScript

variable {f : Position → Position}

/-- The same error elsewhere. -/
def SyntaxError.relocate (f : Position → Position) (e : SyntaxError) : SyntaxError :=
  { e with position := f e.position }

/-- The same refusal of tokens that have been moved. -/
def Refusal.relocate (f : Position → Position) (refusal : Refusal) : Refusal :=
  { refusal with rest := refusal.rest.map (·.relocate f) }

@[simp] theorem Token.kind_relocate (token : Token) : (token.relocate f).kind = token.kind := rfl

@[simp] theorem Token.span_relocate (token : Token) :
    (token.relocate f).span = token.span.relocate f := rfl

@[simp] theorem Token.lexeme_relocate (token : Token) :
    (token.relocate f).lexeme = token.lexeme := rfl

/-- A refusal is reported at the place of the token that is refused. -/
theorem Refusal.error_relocate (hf : f .origin = .origin) (refusal : Refusal) :
    (refusal.relocate f).error = refusal.error.relocate f := by
  obtain ⟨expected, rest, depth⟩ := refusal
  cases rest with
  | nil => exact congrArg (SyntaxError.mk · _ _) hf.symm
  | cons token rest => rfl

namespace Parser

variable {α β γ δ : Type}

/-- What a parser makes of tokens that have been moved (`Token.relocate`). -/
def relocate (f : Position → Position) (move : α → β) :
    Except Refusal (α × List Token) → Except Refusal (β × List Token)
  | .ok (a, rest) => .ok (move a, rest.map (·.relocate f))
  | .error refusal => .error (refusal.relocate f)

/-- From moved tokens the second parser reads what the first does, moved. -/
def Moves (f : Position → Position) (move : α → β) (p : Parser α) (q : Parser β) : Prop :=
  ∀ tokens : List Token, q (tokens.map (·.relocate f)) = relocate f move (p tokens)

/-- Something that is read together with what leads to it. -/
abbrev behind (move : α → β) : γ × α → γ × β := Prod.map id move

namespace Moves

variable {move : α → β} {shift : γ → δ} {p : Parser α} {q : Parser β}

/-- Something that needs no tokens. -/
theorem pure (a : α) : Moves f move (Pure.pure a : Parser α) (Pure.pure (move a)) := fun _ => rfl

/-- One parser after another. -/
theorem bind {g : α → Parser γ} {h : β → Parser δ} (hpq : Moves f move p q)
    (hgh : ∀ a, Moves f shift (g a) (h (move a))) : Moves f shift (p >>= g) (q >>= h) := by
  intro tokens
  have htokens := hpq tokens
  show (q (tokens.map (·.relocate f)) >>= fun r => h r.1 r.2) =
    relocate f shift (p tokens >>= fun r => g r.1 r.2)
  rw [htokens]
  cases p tokens with
  | error refusal => rfl
  | ok r => exact hgh r.1 r.2

/-- Nothing is read. -/
theorem refuse (expected : Expectation) :
    Moves f move (Parser.refuse expected : Parser α) (Parser.refuse expected) := fun _ => rfl

/-- Something is read one level deeper. -/
theorem nested (h : Moves f move p q) : Moves f move (Parser.nested p) (Parser.nested q) := by
  intro tokens
  unfold Parser.nested
  rw [h tokens]
  cases p tokens with
  | error refusal => rfl
  | ok r => rfl

/-- A token is read. -/
theorem accept {read : Token → Option α} {read' : Token → Option β} (expected : Expectation)
    (h : ∀ token : Token, read' (token.relocate f) = (read token).map move) :
    Moves f move (Parser.accept expected read) (Parser.accept expected read') := by
  intro tokens
  cases tokens with
  | nil => rfl
  | cons token tokens =>
    rw [List.map_cons, Parser.accept, Parser.accept, h]
    cases read token <;> rfl

/-- A token is read if it is of some kind. -/
theorem acceptIf? (read : TokenKind → Option α) :
    Moves f (Option.map (behind (·.relocate f))) (Parser.acceptIf? read)
      (Parser.acceptIf? read) := by
  intro tokens
  cases tokens with
  | nil => rfl
  | cons token tokens =>
    rw [List.map_cons, Parser.acceptIf?, Parser.acceptIf?, Token.kind_relocate]
    cases read token.kind <;> rfl

/-- The first token is looked at. -/
theorem peek : Moves f (·.relocate f) Parser.peek Parser.peek := by
  intro tokens
  cases tokens <;> rfl

/-- The kind of the second token is looked at. -/
theorem peekSecond? : Moves f id Parser.peekSecond? Parser.peekSecond? := by
  intro tokens
  rw [Parser.peekSecond?, List.getElem?_map, Option.map_map]
  rfl

/-- A token of a kind is taken. -/
theorem take (kind : TokenKind) : Moves f (·.relocate f) (Parser.take kind) (Parser.take kind) := by
  refine accept _ fun token => ?_
  rw [Token.kind_relocate]
  split <;> rfl

/-- The kind of the first token is looked at. -/
theorem atKind (kind : TokenKind) : Moves f id (Parser.atKind kind) (Parser.atKind kind) :=
  peek.bind fun token => .pure (decide (token.kind = kind))

/-- A token is taken if it is of a kind. -/
theorem takeIf (kind : TokenKind) : Moves f id (Parser.takeIf kind) (Parser.takeIf kind) := by
  refine (acceptIf? _).bind fun taken => ?_
  rw [Option.isSome_map]
  exact .pure taken.isSome

/-- Items are read behind tokens that lead to them, up to a bound. -/
theorem followingUpTo (lead : TokenKind → Option γ) (hpq : Moves f move p q) (bound : Nat) :
    Moves f (List.map (behind move)) (Parser.followingUpTo lead p bound)
      (Parser.followingUpTo lead q bound) := by
  induction bound with
  | zero => exact .pure []
  | succ bound ih =>
    refine (acceptIf? lead).bind fun taken => ?_
    cases taken with
    | none => exact .pure []
    | some taken => exact hpq.bind fun a => ih.bind fun others => .pure ((taken.1, a) :: others)

/-- Items are read behind tokens that lead to them. -/
theorem following (lead : TokenKind → Option γ) (hpq : Moves f move p q) :
    Moves f (List.map (behind move)) (Parser.following lead p) (Parser.following lead q) := by
  intro tokens
  rw [Parser.following, Parser.following, List.length_map]
  exact followingUpTo lead hpq tokens.length tokens

/-- Items are read that are separated by tokens of a kind. -/
theorem separated (separator : TokenKind) (hpq : Moves f move p q) :
    Moves f (List.map move) (Parser.separated separator p) (Parser.separated separator q) := by
  refine hpq.bind fun a => (following _ hpq).bind fun others => ?_
  have hothers : (others.map (behind move)).map Prod.snd = (others.map Prod.snd).map move := by
    rw [List.map_map, List.map_map]
    rfl
  rw [hothers]
  exact .pure (a :: others.map Prod.snd)

/-- Items are read until a token of a closing kind is next, up to a bound. -/
theorem untilUpTo (closes : TokenKind → Bool) (hpq : Moves f move p q) (bound : Nat) :
    Moves f (List.map move) (Parser.untilUpTo closes p bound)
      (Parser.untilUpTo closes q bound) := by
  induction bound with
  | zero => exact refuse _
  | succ bound ih =>
    refine peek.bind fun token => ?_
    rw [Token.kind_relocate]
    split
    · exact .pure []
    · exact hpq.bind fun a => ih.bind fun others => .pure (a :: others)

/-- Items are read until a token of a closing kind is next. -/
theorem untilKind (closes : TokenKind → Bool) (hpq : Moves f move p q) :
    Moves f (List.map move) (Parser.untilKind closes p) (Parser.untilKind closes q) := by
  intro tokens
  rw [Parser.untilKind, Parser.untilKind, List.length_map]
  exact untilUpTo closes hpq tokens.length tokens

end Moves

/-! ## Expressions -/

theorem ident_moves : Moves f (·.relocate f) ident ident :=
  (Moves.take _).bind fun token => .pure (⟨token.lexeme, token.span⟩ : Ident)

theorem type_moves : Moves f id type type := by
  refine .accept _ fun token => ?_
  rw [Token.kind_relocate, Option.map_id_fun, id]

theorem returnType_moves : Moves f id returnType returnType := by
  refine .accept _ fun token => ?_
  rw [Token.kind_relocate, Option.map_id_fun, id]

theorem number_moves (kind : TokenKind) : Moves f (·.relocate f) (number kind) (number kind) := by
  unfold number
  split
  · refine .accept _ fun token => ?_
    rw [Token.lexeme_relocate, Option.map_map]
    rfl
  · refine .accept _ fun token => ?_
    rw [Token.lexeme_relocate, Option.map_map]
    rfl

theorem literal?_relocate (token : Token) :
    literal? (token.relocate f) = (literal? token).map (·.relocate f) := by
  unfold literal?
  rw [Token.kind_relocate]
  split <;> rfl

theorem factors_moves : Moves f (List.map (·.relocate f)) factors factors :=
  .separated _ ident_moves

theorem numerator_moves : Moves f (List.map (·.relocate f)) numerator numerator := by
  refine Moves.peek.bind fun token => ?_
  rw [Token.kind_relocate]
  split
  · exact factors_moves
  · refine .accept _ fun token => ?_
    rw [Token.kind_relocate, Token.lexeme_relocate]
    split <;> rfl

theorem unit_moves : Moves f (·.relocate f) unit unit := by
  refine (Moves.take _).bind fun first => numerator_moves.bind fun above => ?_
  refine (Moves.takeIf _).bind fun slash => ?_
  have hlast (below : List Ident) :
      Moves f (·.relocate f)
        (do
          let last ← take .pipe
          return ⟨first.span.through last.span, .unit above below⟩ : Parser Node)
        (do
          let last ← take .pipe
          return ⟨(first.relocate f).span.through last.span,
            .unit (above.map (·.relocate f)) (below.map (·.relocate f))⟩) :=
    (Moves.take _).bind fun last =>
      .pure (⟨first.span.through last.span, .unit above below⟩ : Node)
  cases slash with
  | true => exact factors_moves.bind hlast
  | false => exact hlast []

theorem quantity_moves (magnitude : Node) :
    Moves f (·.relocate f) (quantity magnitude) (quantity (magnitude.relocate f)) := by
  refine (Moves.take _).bind fun _ => unit_moves.bind fun unit => ?_
  rw [Node.span_relocate, Node.span_relocate]
  exact .pure (⟨magnitude.span.through unit.span, .phys magnitude unit⟩ : Node)

/-- The parsers for what lies one level deeper read moved tokens as they read others
(`Parser.Moves`). -/
structure Deeper.Moves (f : Position → Position) (below : Deeper) : Prop where
  expression : Parser.Moves f (·.relocate f) below.expression below.expression
  comparison : Parser.Moves f (·.relocate f) below.comparison below.comparison
  sign : Parser.Moves f (·.relocate f) below.sign below.sign

section
variable {below : Deeper}

theorem group_moves (hbelow : below.Moves f) :
    Moves f (·.relocate f) (group below) (group below) := by
  refine (Moves.take _).bind fun first => hbelow.expression.bind fun inner => ?_
  refine (Moves.take _).bind fun last => ?_
  rw [Node.form_relocate]
  exact .pure (⟨first.span.through last.span, inner.form⟩ : Node)

theorem call_moves (hbelow : below.Moves f) : Moves f (·.relocate f) (call below) (call below) := by
  refine ident_moves.bind fun callee => (Moves.take _).bind fun _ => ?_
  refine (Moves.atKind _).bind fun none => ?_
  have hlast (args : List Node) :
      Moves f (·.relocate f)
        (do
          let last ← take .rightParen
          return ⟨callee.span.through last.span, .call callee args⟩ : Parser Node)
        (do
          let last ← take .rightParen
          return ⟨(callee.relocate f).span.through last.span,
            .call (callee.relocate f) (args.map (·.relocate f))⟩) := by
    refine (Moves.take _).bind fun last => ?_
    rw [← Node.relocateAll_eq]
    exact .pure (⟨callee.span.through last.span, .call callee args⟩ : Node)
  cases none with
  | true => exact hlast []
  | false => exact (Moves.separated _ hbelow.expression).bind hlast

theorem atom_moves (hbelow : below.Moves f) : Moves f (·.relocate f) (atom below) (atom below) := by
  refine Moves.peek.bind fun token => ?_
  rw [Token.kind_relocate]
  split
  · refine Moves.peekSecond?.bind fun second => ?_
    have hname : Moves f (·.relocate f)
        (do
          let name ← ident
          let read : Node := ⟨name.span, .variable name⟩
          if second = some .ampersand then quantity read else return read)
        (do
          let name ← ident
          let read : Node := ⟨name.span, .variable name⟩
          if second = some .ampersand then quantity read else return read) := by
      refine ident_moves.bind fun name => ?_
      split
      · exact quantity_moves ⟨name.span, .variable name⟩
      · exact .pure (⟨name.span, .variable name⟩ : Node)
    rw [id]
    split
    · exact call_moves hbelow
    · exact hname
  · exact group_moves hbelow
  · refine (number_moves _).bind fun magnitude => (Moves.atKind _).bind fun ampersand => ?_
    cases ampersand with
    | true => exact quantity_moves magnitude
    | false => exact .pure magnitude
  · refine (number_moves _).bind fun magnitude => (Moves.atKind _).bind fun ampersand => ?_
    cases ampersand with
    | true => exact quantity_moves magnitude
    | false => exact .pure magnitude
  · exact unit_moves
  · exact .accept _ literal?_relocate

theorem unary_relocate (op : UnaryOp) (span : Span) (operand : Node) :
    unary op (span.relocate f) (operand.relocate f) = (unary op span operand).relocate f := by
  rw [unary, Node.span_relocate, Span.through_relocate]
  rfl

theorem binary_relocate (op : BinaryOp) (left right : Node) :
    binary (left.relocate f) op (right.relocate f) = (binary left op right).relocate f := by
  rw [binary, Node.span_relocate, Node.span_relocate, Span.through_relocate]
  rfl

theorem chain_moves (tier : Tier) {operand : Parser Node}
    (h : Moves f (·.relocate f) operand operand) :
    Moves f (·.relocate f) (chain tier operand) (chain tier operand) := by
  refine h.bind fun first => (Moves.following _ h).bind fun others => ?_
  have hfold : (others.map (behind (·.relocate f))).foldl
        (fun left other => binary left other.1 other.2) (first.relocate f) =
      (others.foldl (fun left other => binary left other.1 other.2) first).relocate f := by
    induction others generalizing first with
    | nil => rfl
    | cons other others ih =>
      obtain ⟨op, right⟩ := other
      rw [List.map_cons, List.foldl_cons, List.foldl_cons, ← ih]
      show _ = List.foldl _ ((binary first op right).relocate f) _
      rw [← binary_relocate]
      rfl
  show Moves f _ _ (Pure.pure (List.foldl (fun left other => binary left other.1 other.2)
    (first.relocate f) (others.map (behind (·.relocate f)))))
  rw [hfold]
  exact .pure (others.foldl (fun left other => binary left other.1 other.2) first)

theorem signed_moves (hbelow : below.Moves f) :
    Moves f (·.relocate f) (signed below) (signed below) := by
  refine (Moves.acceptIf? _).bind fun taken => ?_
  cases taken with
  | none => exact atom_moves hbelow
  | some taken =>
    refine hbelow.sign.bind fun operand => ?_
    rw [unary_relocate]
    exact .pure _

theorem comparison_moves (hbelow : below.Moves f) :
    Moves f (·.relocate f) (comparison below) (comparison below) := by
  refine (Moves.acceptIf? _).bind fun taken => ?_
  cases taken with
  | none =>
    exact chain_moves _ (chain_moves _ (chain_moves _ (signed_moves hbelow)))
  | some taken =>
    refine hbelow.comparison.bind fun operand => ?_
    rw [unary_relocate]
    exact .pure _

theorem assignment_moves (hbelow : below.Moves f) :
    Moves f (·.relocate f) (assignment below) (assignment below) := by
  refine Moves.peek.bind fun start => Moves.peek.bind fun token => ?_
  have hrest (type : Option TypeName) :
      Moves f (·.relocate f)
        (do
          let name ← ident
          let _ ← take .equal
          let value ← below.expression
          return ⟨start.span.through value.span, .assign type name value⟩ : Parser Node)
        (do
          let name ← ident
          let _ ← take .equal
          let value ← below.expression
          return ⟨(start.relocate f).span.through value.span, .assign type name value⟩) := by
    refine ident_moves.bind fun name => (Moves.take _).bind fun _ => ?_
    refine hbelow.expression.bind fun value => ?_
    rw [Node.span_relocate]
    exact .pure (⟨start.span.through value.span, .assign type name value⟩ : Node)
  rw [Token.kind_relocate]
  split
  · have htype : Moves f id (some <$> type) (some <$> type) := by
      rw [← bind_pure_comp]
      exact type_moves.bind fun name => .pure (some name)
    exact htype.bind hrest
  · exact hrest none

theorem expressionBody_moves (hbelow : below.Moves f) :
    Moves f (·.relocate f) (expressionBody below) (expressionBody below) := by
  refine Moves.peek.bind fun token => Moves.peekSecond?.bind fun second => ?_
  rw [Token.kind_relocate, id]
  split
  · exact assignment_moves hbelow
  · exact chain_moves _ (comparison_moves hbelow)

end

/-- So do all parsers for expressions, however many levels are left. -/
theorem deeper_moves (n : Nat) : (deeper n).Moves f := by
  induction n with
  | zero => exact ⟨.refuse _, .refuse _, .refuse _⟩
  | succ n ih =>
    exact ⟨.nested (expressionBody_moves ih), .nested (comparison_moves ih),
      .nested (signed_moves ih)⟩

/-! ## Statements -/

section
variable {below : Deeper} {inner : Parser Block}

theorem condition_moves (hbelow : below.Moves f) :
    Moves f (·.relocate f) (condition below) (condition below) :=
  (Moves.take _).bind fun _ => hbelow.expression.bind fun inner =>
    (Moves.take _).bind fun _ => .pure inner

theorem case_moves (hbelow : below.Moves f) (hinner : Moves f (·.relocate f) inner inner) :
    Moves f (Prod.map (·.relocate f) (·.relocate f)) (case below inner) (case below inner) :=
  (condition_moves hbelow).bind fun condition => hinner.bind fun body => .pure (condition, body)

theorem ofCases_relocate (cases : List (Node × Block)) (last : Alternatives) :
    Alternatives.ofCases (cases.map (Prod.map (·.relocate f) (·.relocate f))) (last.relocate f) =
      (Alternatives.ofCases cases last).relocate f := by
  induction cases with
  | nil => rfl
  | cons first cases ih =>
    show Alternatives.case _ _ (Alternatives.ofCases (cases.map _) _) = _
    rw [ih]
    rfl

theorem ifElse_moves (hbelow : below.Moves f) (hinner : Moves f (·.relocate f) inner inner) :
    Moves f (·.relocate f) (ifElse below inner) (ifElse below inner) := by
  have hcase := case_moves hbelow hinner
  refine (Moves.take _).bind fun start => hcase.bind fun first => ?_
  refine (Moves.following _ hcase).bind fun others => ?_
  have hcases : Prod.map (·.relocate f) (·.relocate f) first ::
        (others.map (behind (Prod.map (·.relocate f) (·.relocate f)))).map Prod.snd =
      (first :: others.map Prod.snd).map (Prod.map (·.relocate f) (·.relocate f)) := by
    rw [List.map_cons, List.map_map, List.map_map]
    rfl
  rw [hcases]
  refine (Moves.takeIf _).bind fun otherwise => ?_
  cases otherwise with
  | true =>
    refine hinner.bind fun last => ?_
    have halternatives := ofCases_relocate (f := f) (first :: others.map Prod.snd) (.otherwise last)
    rw [Alternatives.relocate] at halternatives
    rw [Block.span_relocate, halternatives]
    exact .pure (⟨start.span.through last.span,
      .ifElse (.ofCases (first :: others.map Prod.snd) (.otherwise last))⟩ : Node)
  | false =>
    have halternatives := ofCases_relocate (f := f) (first :: others.map Prod.snd) .none
    rw [Alternatives.relocate] at halternatives
    have hlast : ((others.map (behind (Prod.map (·.relocate f) (·.relocate f)))).map
          fun other => other.2.2.span).getLastD (first.2.relocate f).span =
        ((others.map fun other => other.2.2.span).getLastD first.2.span).relocate f := by
      rw [List.map_map, List.getLastD_eq_getLast?, List.getLastD_eq_getLast?, List.getLast?_map,
        List.getLast?_map]
      cases others.getLast? with
      | none => exact first.2.span_relocate f
      | some other => exact other.2.2.span_relocate f
    rw [halternatives]
    show Moves f _ _ (Pure.pure (⟨(start.span.relocate f).through
      (((others.map (behind (Prod.map (·.relocate f) (·.relocate f)))).map
          fun other => other.2.2.span).getLastD (first.2.relocate f).span), _⟩ : Node))
    rw [hlast]
    exact .pure (⟨start.span.through ((others.map fun other => other.2.2.span).getLastD
      first.2.span), .ifElse (.ofCases (first :: others.map Prod.snd) .none)⟩ : Node)

theorem whileLoop_moves (hbelow : below.Moves f) (hinner : Moves f (·.relocate f) inner inner) :
    Moves f (·.relocate f) (whileLoop below inner) (whileLoop below inner) := by
  refine (Moves.take _).bind fun start => (condition_moves hbelow).bind fun condition => ?_
  refine hinner.bind fun body => ?_
  rw [Block.span_relocate]
  exact .pure (⟨start.span.through body.span, .whileLoop condition body⟩ : Node)

theorem param_moves : Moves f (·.relocate f) param param :=
  ident_moves.bind fun name => (Moves.take _).bind fun _ => type_moves.bind fun type =>
    .pure (⟨name, type⟩ : Param)

theorem function_moves (hinner : Moves f (·.relocate f) inner inner) :
    Moves f (·.relocate f) (function inner) (function inner) := by
  refine (Moves.take _).bind fun start => ident_moves.bind fun name => ?_
  refine (Moves.take _).bind fun _ => (Moves.atKind _).bind fun some => ?_
  have hrest (params : List Param) :
      Moves f (·.relocate f)
        (do
          let _ ← take .rightParen
          let _ ← take .arrow
          let returns ← returnType
          let body ← inner
          return ⟨start.span.through body.span, .function name params returns body⟩ : Parser Node)
        (do
          let _ ← take .rightParen
          let _ ← take .arrow
          let returns ← returnType
          let body ← inner
          return ⟨(start.relocate f).span.through body.span,
            .function (name.relocate f) (params.map (·.relocate f)) returns body⟩) := by
    refine (Moves.take _).bind fun _ => (Moves.take _).bind fun _ => ?_
    refine returnType_moves.bind fun returns => hinner.bind fun body => ?_
    rw [Block.span_relocate]
    exact .pure (⟨start.span.through body.span, .function name params returns body⟩ : Node)
  cases some with
  | true => exact (Moves.separated _ param_moves).bind hrest
  | false => exact hrest []

theorem returned_moves (hbelow : below.Moves f) :
    Moves f (·.relocate f) (returned below) (returned below) := by
  refine (Moves.take _).bind fun start => (Moves.atKind _).bind fun none => ?_
  cases none with
  | true => exact .pure (⟨start.span, .returnNothing⟩ : Node)
  | false =>
    refine hbelow.expression.bind fun value => ?_
    rw [Node.span_relocate]
    exact .pure (⟨start.span.through value.span, .returnValue value⟩ : Node)

theorem closed_moves {simple : Parser Node} (h : Moves f (·.relocate f) simple simple) :
    Moves f (·.relocate f) (closed simple) (closed simple) :=
  h.bind fun node => (Moves.take _).bind fun _ => .pure node

theorem statementWith_moves (hbelow : below.Moves f)
    (hinner : Moves f (·.relocate f) inner inner) :
    Moves f (·.relocate f) (statementWith below inner) (statementWith below inner) := by
  refine Moves.peek.bind fun token => ?_
  rw [Token.kind_relocate]
  split
  · exact ifElse_moves hbelow hinner
  · exact whileLoop_moves hbelow hinner
  · exact function_moves hinner
  · refine hinner.bind fun body => ?_
    rw [Block.span_relocate]
    exact .pure (⟨body.span, .block body⟩ : Node)
  · exact closed_moves (returned_moves hbelow)
  · exact closed_moves ((Moves.take _).bind fun word => .pure (⟨word.span, .breakLoop⟩ : Node))
  · exact closed_moves ((Moves.take _).bind fun word => .pure (⟨word.span, .continueLoop⟩ : Node))
  · exact closed_moves hbelow.expression

end

theorem block_moves (n : Nat) : Moves f (·.relocate f) (block n) (block n) := by
  induction n with
  | zero => exact .refuse _
  | succ n ih =>
    refine .nested ((Moves.take _).bind fun first => ?_)
    refine (Moves.untilKind _ (statementWith_moves (deeper_moves n) ih)).bind fun items => ?_
    refine (Moves.take _).bind fun last => ?_
    rw [← Node.relocateAll_eq]
    exact .pure (⟨first.span.through last.span, items⟩ : Block)

theorem program_moves : Moves f (·.relocate f) program program := by
  refine Moves.peek.bind fun start => ?_
  have hstatement : Moves f (·.relocate f) statement statement :=
    statementWith_moves (deeper_moves _) (block_moves _)
  refine (Moves.untilKind _ hstatement).bind fun items => (Moves.take _).bind fun last => ?_
  rw [← Node.relocateAll_eq]
  exact .pure (⟨start.span.through last.span, items⟩ : Block)

end Parser

/-- A program that is read from tokens is read from moved ones too, moved. -/
theorem Block.ofTokens_relocate_of_ok {tokens : List Token} {program : Block}
    (h : Block.ofTokens tokens = .ok program) :
    Block.ofTokens (tokens.map (·.relocate f)) = .ok (program.relocate f) := by
  rw [Block.ofTokens, Parser.parse] at h ⊢
  rw [Parser.program_moves tokens]
  cases hprogram : Parser.program tokens with
  | ok result =>
    rw [hprogram] at h
    cases h
    rfl
  | error refusal =>
    rw [hprogram] at h
    cases h

/-- The program that moved tokens are is the one that the tokens are, moved. -/
theorem Block.ofTokens_relocate (hf : f .origin = .origin) (tokens : List Token) :
    Block.ofTokens (tokens.map (·.relocate f)) =
      ((Block.ofTokens tokens).map (·.relocate f)).mapError (·.relocate f) := by
  rw [Block.ofTokens, Block.ofTokens, Parser.parse, Parser.parse, Parser.program_moves tokens]
  cases Parser.program tokens with
  | ok result => rfl
  | error refusal => exact congrArg Except.error (refusal.error_relocate hf)

end UnitScript
