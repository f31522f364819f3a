import UnitScript.Proofs.Grammar.Complete
import UnitScript.Proofs.Grammar.Writing
import UnitScript.Proofs.Places.Layout

/-!
# Reading what was written

The tokens of a tree that can be written are an instance of the grammar in as many levels as they
are said to open, and what they stand for is the tree itself, at the first place of a text
(`Writable.derived`). So every program that can be written in as many levels as may be nested is
read again from its tokens, wherever they are placed (`Block.ofTokens_written`): there is no
combination of operators, operands and statements that cannot be written down.
-/

namespace UnitScript

/-! ## Literals -/

/-- Digits are read as the number they denote (`Integer.ofText?`), if it is in range. -/
theorem Integer.ofText?_toDigits (n : Nat) :
    Integer.ofText? (Nat.toDigits 10 n) = Integer.ofInt? n := by
  have hdigits : ∀ c ∈ Nat.toDigits 10 n, c.isDigit = true := fun c hc =>
    Nat.isDigit_of_mem_toDigits (by omega) (by omega) hc
  have hread : digits? (Nat.toDigits 10 n) = some n := by
    rw [digits?, if_pos ⟨Nat.toDigits_ne_nil, List.all_eq_true.2 hdigits⟩,
      Nat.ofDigitChars_ten_toDigits]
  unfold ofText?
  split
  · next heq => exact absurd (hdigits '-' (heq ▸ List.mem_cons_self)) (by decide)
  · next heq => exact absurd (hdigits '+' (heq ▸ List.mem_cons_self)) (by decide)
  · rw [hread]
    rfl

/-- An integer that is not negative is read back by `Integer.ofText?` from its digits. -/
theorem Integer.ofText?_text {n : Int64} (h : 0 ≤ n.toInt) :
    Integer.ofText? (Integer.text n).toList = some n := by
  obtain ⟨m, hm⟩ := Int.eq_ofNat_of_zero_le h
  have htext : (Integer.text n).toList = Nat.toDigits 10 m := by
    rw [Integer.text, hm]
    show (toString m).toList = _
    rw [Nat.toString_eq_repr, Nat.toList_repr]
  rw [htext, ofText?_toDigits]
  exact ofInt?_eq_some_iff.2 hm

/-- What stands between two delimiters of one byte each is read back by `Token.enclosed`. -/
theorem Token.enclosed_of_lexeme {token : Token} {first last : Char} {cs : List Char}
    (h : token.lexeme.toList = first :: (cs ++ [last])) (hfirst : first.utf8Size = 1)
    (hlast : last.utf8Size = 1) : token.enclosed = String.ofList cs := by
  rw [enclosed, h]
  simp [hfirst, hlast]

/-- What stands between the quotes of a text is read back by `Token.enclosed`, whatever it is. -/
theorem Token.enclosed_holding (s : String) :
    (Token.holding .stringLiteral ("\"" ++ s ++ "\"")).enclosed = s := by
  have htext : (Token.holding .stringLiteral ("\"" ++ s ++ "\"")).lexeme.toList =
      '"' :: (s.toList ++ ['"']) := by
    simp [Token.holding, Token.lexeme]
  rw [enclosed_of_lexeme htext (by decide) (by decide), String.ofList_toList]

/-- An integer that is not negative is derived (`DerivesNumber`) from the token of its digits. -/
theorem derivesNumber_int {n : Int64} (h : 0 ≤ n.toInt) :
    DerivesNumber ⟨.origin, .int n⟩ (.holding .intLiteral (Integer.text n)) :=
  @DerivesNumber.int _ (.holding .intLiteral (Integer.text n)) rfl (Integer.ofText?_text h)

/-- A double is derived from a text that reads as it (`Double.ofText?`). -/
theorem derivesNumber_double {x : Float} {text : String} (h : Double.ofText? text.toList = some x) :
    DerivesNumber ⟨.origin, .double x⟩ (.holding .doubleLiteral text) :=
  @DerivesNumber.double _ (.holding .doubleLiteral text) rfl h

/-! ## Operators and types -/

theorem Token.kind_bare (kind : TokenKind) : (bare kind).kind = kind := rfl

theorem UnaryOp.ofToken?_kind (op : UnaryOp) : ofToken? op.kind = some op := by
  cases op <;> rfl

theorem BinaryOp.ofToken?_kind (op : BinaryOp) : ofToken? op.kind = some op := by
  cases op <;> rfl

theorem TypeName.ofToken?_kind (type : TypeName) : ofToken? type.kind = some type := by
  cases type <;> rfl

theorem TypeName.isType_kind {type : TypeName} (h : type ≠ .void) : type.kind.isType = true :=
  (isType_iff_ofToken? type.kind).2 ⟨type, type.ofToken?_kind, h⟩

/-! ## From atoms to expressions -/

namespace Derives

variable {n : Nat} {e : Node} {ts : List Token}

/-- Operators of any tier may have an atom as their operand (`Tier.operand`), with no operators in
between. -/
theorem operand_of_atom (tier : Tier) (h : Derives n (.atom e) ts) :
    Derives n (tier.operand e) ts := by
  cases tier with
  | product => exact .unsigned h
  | sum => exact .single (.unsigned h)
  | comparison => exact .single (.single (.unsigned h))
  | logic => exact .compared (.single (.single (.single (.unsigned h))))

/-- What the operators of a tier join is an expression: the tiers above have this as their only
operand (`operand_of_atom`). -/
theorem expression_of_chain {tier : Tier} (h : Derives n (.chain tier e) ts) :
    Derives (n + 1) (.expression e) ts := by
  cases tier with
  | logic => exact .logical h
  | comparison => exact .logical (.single (.compared h))
  | sum => exact .logical (.single (.compared (.single h)))
  | product => exact .logical (.single (.compared (.single (.single h))))

/-- An atom is an expression, with no operator of any tier (`expression_of_chain`). -/
theorem expression_of_atom (h : Derives n (.atom e) ts) : Derives (n + 1) (.expression e) ts := by
  have hchain : Derives n (.chain .product e) ts := .single (.unsigned h)
  exact hchain.expression_of_chain

end Derives

/-! ## Lists -/

/-- Groups of tokens that are written with separators (`Token.separated`) are derived as the
elements of a list, if each of them is. -/
theorem Separated.of_forall {α β : Type} {separator : TokenKind} {element : β → List Token → Prop}
    {f : α → β} {tokens : α → List Token} {as : List α} (hne : as ≠ [])
    (h : ∀ a ∈ as, element (f a) (tokens a)) :
    Separated separator element (as.map f) (Token.separated separator (as.map tokens)) := by
  induction as with
  | nil => exact absurd rfl hne
  | cons a as ih =>
    obtain ⟨ha, has⟩ := List.forall_mem_cons.1 h
    cases as with
    | nil =>
      rw [Token.separated, List.map_singleton, List.map_singleton, List.intercalate_singleton]
      exact .last ha
    | cons b bs =>
      have hrest := ih (List.cons_ne_nil _ _) has
      rw [Token.separated, List.map_cons] at hrest
      rw [Token.separated, List.map_cons, List.map_cons, List.map_cons, List.map_cons,
        List.intercalate_cons_cons, List.append_assoc]
      exact .more ha (Token.kind_bare separator) hrest

/-- Names that are written with stars between them (`Ident.starred`) are derived as a separated
list. -/
theorem Ident.separated_starred {names : List Ident} (hne : names ≠ []) :
    Separated .star DerivesIdent (names.map (·.relocate .forget)) (Ident.starred names) :=
  .of_forall hne fun name _ => @DerivesIdent.name name.token rfl

/-- A unit is read back from its `unitTokens`, all names at the first place of a text. -/
theorem derivesUnit_unitTokens (above below : List Ident) :
    DerivesUnit ⟨.origin, .unit (above.map (·.relocate .forget)) (below.map (·.relocate .forget))⟩
      (unitTokens above below) := by
  have habove : DerivesNumerator (above.map (·.relocate .forget))
      (if above = [] then [.holding .intLiteral "1"] else Ident.starred above) := by
    split
    · next hnone =>
      subst hnone
      exact .one rfl rfl
    · next hne => exact .names (Ident.separated_starred hne)
  have hbelow : DerivesDenominator (below.map (·.relocate .forget))
      (if below = [] then [] else .bare .slash :: Ident.starred below) := by
    split
    · next hnone =>
      subst hnone
      exact .none
    · next hne => exact .names (Token.kind_bare .slash) (Ident.separated_starred hne)
  exact .unit (Token.kind_bare .pipe) habove hbelow (Token.kind_bare .pipe)

/-- Parameters that are written with commas between them are derived (`DerivesParams`), if they are
of types that variables may have. -/
theorem derivesParams_separated {params : List Param}
    (h : ∀ param ∈ params, param.type ≠ .void) :
    DerivesParams (params.map (·.relocate .forget))
      (Token.separated .comma (params.map Param.tokens)) := by
  by_cases hne : params = []
  · subst hne
    exact .none
  · refine .some (.of_forall hne fun param hmem => ?_)
    exact @DerivesParam.param _ param.ident.token (.bare .colon) (.bare param.type.kind) rfl rfl
      (TypeName.isType_kind (h param hmem)) param.type.ofToken?_kind

/-! ## Trees -/

/-- A node that is moved to the first place of a text (`Node.relocate`) stands there. -/
theorem Node.span_forget (e : Node) : (e.relocate .forget).span = .origin := by
  rw [Node.span_relocate]
  rfl

/-- A block that is moved to the first place of a text (`Block.relocate`) stands there. -/
theorem Block.span_forget (b : Block) : (b.relocate .forget).span = .origin := by
  rw [Block.span_relocate]
  rfl

/-- Alternatives that are moved to the first place of a text end there (`Alternatives.lastSpan`). -/
theorem Alternatives.lastSpan_forget (a : Alternatives) :
    (a.relocate .forget).lastSpan .origin = .origin := by
  cases a with
  | none => rfl
  | otherwise b => exact b.span_forget
  | case _ body others =>
    rw [Alternatives.relocate, Alternatives.lastSpan, Block.span_forget]
    exact others.lastSpan_forget

/-- An expression that can be written is none of the statements that are no expressions
(`Form.isStatement`, `Form.endsInBlock`). -/
theorem Writable.isStatement {style : Style} {e : Node} (h : Writable style (.expression e)) :
    e.form.isStatement = false ∧ e.form.endsInBlock = false := by
  cases h <;> exact ⟨rfl, rfl⟩

namespace Derives

variable {n : Nat} {e : Node} {ts : List Token}

/-- An expression in brackets (`Token.bracketed`) is derived as an atom on the same level. -/
theorem bracketed (h : Derives n (.expression (e.relocate .forget)) ts) :
    Derives n (.atom (e.relocate .forget)) (Token.bracketed ts) := by
  obtain ⟨span, form⟩ := e
  exact .group (Token.kind_bare .leftParen) h (Token.kind_bare .rightParen)

end Derives

/-- What the tokens of a part of a tree are an instance of (`Derives`), in as many levels as they
open (`Node.levels`). -/
def Part.Derived (style : Style) : Part → Prop
  | .expression e => ∀ n, e.levels style ≤ n →
    Derives (n + 1) (.expression (e.relocate .forget)) (e.tokens style) ∧
      (e.form.isCompound = false → Derives n (.atom (e.relocate .forget)) (e.tokens style))
  | .arguments es => ∀ n, Node.argumentLevels style es ≤ n →
    Derives n (.arguments (Node.relocateAll .forget es))
      (Token.separated .comma (Node.argumentTokens style es))
  | .statement e => ∀ n, style.statementLevels e (e.levels style) ≤ n →
    Derives n (.item (e.relocate .forget)) (style.statement e (e.tokens style))
  | .items es => ∀ n, Node.itemLevels style es ≤ n →
    Derives n (.items (Node.relocateAll .forget es)) (Node.itemTokens style es)
  | .block b => ∀ n, b.levels style ≤ n → Derives n (.block (b.relocate .forget)) (b.tokens style)
  | .alternatives a => ∀ n, a.levels style ≤ n →
    Derives n (.others (a.relocate .forget)) (a.tokens style .elseifWord)

namespace Part.Derived

variable {style : Style} {e : Node} {n : Nat}

/-- An expression whose tokens are those of an atom, on every level that suffices for it, is derived
(`Part.Derived`). -/
theorem of_atom (h : ∀ n, e.levels style ≤ n →
    Derives n (.atom (e.relocate .forget)) (e.tokens style)) :
    Part.Derived style (.expression e) :=
  fun n hn => ⟨(h n hn).expression_of_atom, fun _ => h n hn⟩

/-- An expression is derived where it stands by itself, as `Style.expression` writes it. -/
theorem expression (h : Part.Derived style (.expression e))
    (hn : style.expressionLevels e (e.levels style) ≤ n) :
    Derives n (.expression (e.relocate .forget)) (style.expression e (e.tokens style)) := by
  rw [Style.expressionLevels] at hn
  rw [Style.expression]
  split at hn
  · next hbrackets =>
    obtain ⟨m, rfl⟩ := Nat.exists_eq_add_of_le' hn
    rw [if_pos hbrackets]
    exact ((h (m + e.levels style) (Nat.le_add_left _ _)).1.bracketed.expression_of_atom :)
  · next hbrackets =>
    obtain ⟨m, rfl⟩ := Nat.exists_eq_add_of_le' hn
    rw [if_neg hbrackets]
    exact ((h (m + e.levels style) (Nat.le_add_left _ _)).1 :)

/-- An expression is derived where it is an operand, as `Style.operand` writes it. -/
theorem operand (h : Part.Derived style (.expression e))
    (hn : style.operandLevels e (e.levels style) ≤ n) :
    Derives n (.atom (e.relocate .forget)) (style.operand e (e.tokens style)) := by
  rw [Style.operandLevels] at hn
  rw [Style.operand]
  split at hn
  · next hbrackets =>
    obtain ⟨m, rfl⟩ := Nat.exists_eq_add_of_le' hn
    rw [if_pos hbrackets]
    exact ((h (m + e.levels style) (Nat.le_add_left _ _)).1.bracketed :)
  · next hbrackets =>
    rw [if_neg hbrackets]
    rw [Style.bracketsOperand, Bool.or_eq_true, not_or] at hbrackets
    exact (h n hn).2 (Bool.eq_false_iff.2 hbrackets.1)

/-- An operator in front of an operand is derived, with the operand as `Style.operand` writes it. -/
theorem unary {span : Span} {op : UnaryOp} (h : Part.Derived style (.expression e)) :
    Part.Derived style (.expression ⟨span, .unary op e⟩) := by
  intro n hn
  refine ⟨?_, nofun⟩
  rw [Node.levels] at hn
  obtain ⟨m, rfl⟩ := Nat.exists_eq_add_of_le' (Nat.le_of_add_left_le hn)
  have hoperand := h.operand (Nat.le_of_add_le_add_right hn)
  have hresult : Node.relocate .forget ⟨span, .unary op e⟩ =
      Parser.unary op (Token.bare op.kind).span (e.relocate .forget) := by
    rw [Parser.unary, Node.span_forget]
    rfl
  rw [hresult, Node.tokens]
  by_cases hop : op = .not
  · subst hop
    exact .logical (.single (.negated (Token.kind_bare .notWord) (hoperand.operand_of_atom .logic)))
  · have hsign := @Derives.sign op _ _ _ (.bare op.kind) op.ofToken?_kind hop
      (hoperand.operand_of_atom .product)
    have hchain : Derives (m + 1) (.chain .product _) _ := .single hsign
    exact hchain.expression_of_chain

/-- An operator between operands is derived as a chain of two, with both of them as `Style.operand`
writes them. -/
theorem binary {span : Span} {op : BinaryOp} {left right : Node}
    (hleft : Part.Derived style (.expression left))
    (hright : Part.Derived style (.expression right)) :
    Part.Derived style (.expression ⟨span, .binary op left right⟩) := by
  intro n hn
  refine ⟨?_, nofun⟩
  rw [Node.levels, Nat.max_le] at hn
  have hresult : Node.relocate .forget ⟨span, .binary op left right⟩ =
      Parser.binary (left.relocate .forget) op (right.relocate .forget) := by
    rw [Parser.binary, Node.span_forget, Node.span_forget]
    rfl
  rw [hresult, Node.tokens]
  have hfirst := (hleft.operand hn.1).operand_of_atom op.tier
  have hsecond := (hright.operand hn.2).operand_of_atom op.tier
  exact Derives.expression_of_chain (.joined (.single hfirst) op.ofToken?_kind rfl hsecond)

/-- An assignment is derived, unless it declares a variable of a type that none has
(`TypeName.void`). -/
theorem assign {span : Span} {type : Option TypeName} {ident : Ident} (htype : type ≠ some .void)
    (h : Part.Derived style (.expression e)) :
    Part.Derived style (.expression ⟨span, .assign type ident e⟩) := by
  intro n hn
  refine ⟨?_, nofun⟩
  rw [Node.levels] at hn
  have hvalue := h.expression hn
  rw [Node.tokens]
  cases type with
  | none =>
    have hassign := @Derives.assign _ _ _ ident.token (.bare .equal) rfl rfl hvalue
    rw [Node.span_forget] at hassign
    exact hassign
  | some type =>
    have hdeclare := @Derives.declare type _ _ _ (.bare type.kind) ident.token (.bare .equal)
      (TypeName.isType_kind (fun hvoid => htype (congrArg some hvoid))) type.ofToken?_kind rfl rfl
      hvalue
    rw [Node.span_forget] at hdeclare
    exact hdeclare

/-- A call is derived from its name and its arguments in brackets (`Part.Derived`). -/
theorem call {span : Span} {ident : Ident} {args : List Node}
    (h : Part.Derived style (.arguments args)) :
    Part.Derived style (.expression ⟨span, .call ident args⟩) := by
  refine of_atom fun n hn => ?_
  rw [Node.levels] at hn
  rw [Node.tokens]
  exact @Derives.call _ _ _ ident.token (.bare .leftParen) (.bare .rightParen) rfl rfl (h n hn) rfl

/-- An argument in front of others is derived (`Part.Derived`), with a comma behind it if there are
others. -/
theorem moreArguments {es : List Node} (he : Part.Derived style (.expression e))
    (hes : Part.Derived style (.arguments es)) : Part.Derived style (.arguments (e :: es)) := by
  intro n hn
  rw [Node.argumentLevels, Nat.max_le] at hn
  have hfirst := he.expression hn.1
  have hothers := hes n hn.2
  cases es with
  | nil =>
    rw [Node.argumentTokens, Node.argumentTokens, Token.separated, List.intercalate_singleton]
    exact .lastArgument hfirst
  | cons e' es =>
    rw [Token.separated, Node.argumentTokens] at hothers
    rw [Node.argumentTokens, Node.argumentTokens, Token.separated, List.intercalate_cons_cons,
      List.append_assoc]
    exact .moreArguments hfirst (Token.kind_bare .comma) hothers

/-- An expression that can be written is derived as a statement, with a semicolon behind it. -/
theorem evaluated (hform : e.form.isStatement = false ∧ e.form.endsInBlock = false)
    (h : Part.Derived style (.expression e)) : Part.Derived style (.statement e) := by
  intro n hn
  rw [Style.statementLevels, hform.1] at hn
  rw [Style.statement, hform.1, hform.2]
  exact .closed (.evaluated (h.expression hn)) (Token.kind_bare .semicolon)

/-- A condition in brackets and the block that depends on it are derived as a case (`Derives`). -/
theorem case {condition : Node} {body : Block}
    (hcondition : Part.Derived style (.expression condition))
    (hbody : Part.Derived style (.block body))
    (hn : max (style.expressionLevels condition (condition.levels style)) (body.levels style) ≤ n) :
    Derives n (.case (condition.relocate .forget) (body.relocate .forget))
      (Token.bracketed (style.expression condition (condition.tokens style)) ++
        body.tokens style) := by
  rw [Nat.max_le] at hn
  have hcase := Derives.case (Token.kind_bare .leftParen) (hcondition.expression hn.1)
    (Token.kind_bare .rightParen) (hbody n hn.2)
  rw [Token.bracketed, List.append_assoc]
  exact hcase

/-- A choice is derived from its first case and its other alternatives (`Part.Derived`). -/
theorem ifElse {span : Span} {condition : Node} {body : Block} {others : Alternatives}
    (hcondition : Part.Derived style (.expression condition))
    (hbody : Part.Derived style (.block body))
    (hothers : Part.Derived style (.alternatives others)) :
    Part.Derived style (.statement ⟨span, .ifElse (.case condition body others)⟩) := by
  intro n hn
  have hn : max (max (style.expressionLevels condition (condition.levels style))
      (body.levels style)) (others.levels style) ≤ n := by
    simpa only [Style.statementLevels, Form.isStatement, if_true, Node.levels, Alternatives.levels]
      using hn
  obtain ⟨hcase, hn⟩ := Nat.max_le.1 hn
  have hif := Derives.ifElse (Token.kind_bare .ifWord) (case hcondition hbody hcase) (hothers n hn)
  rw [Block.span_forget, Alternatives.lastSpan_forget] at hif
  rw [Style.statement, Node.tokens, Alternatives.tokens]
  simp only [Form.isStatement, Form.endsInBlock, if_true, List.append_nil]
  exact hif

/-- A loop is derived from its condition and its body, as a case behind its word. -/
theorem whileLoop {span : Span} {condition : Node} {body : Block}
    (hcondition : Part.Derived style (.expression condition))
    (hbody : Part.Derived style (.block body)) :
    Part.Derived style (.statement ⟨span, .whileLoop condition body⟩) := by
  intro n hn
  have hn : max (style.expressionLevels condition (condition.levels style))
      (body.levels style) ≤ n := by
    simpa only [Style.statementLevels, Form.isStatement, if_true, Node.levels] using hn
  have hwhile := Derives.whileLoop (Token.kind_bare .whileWord) (case hcondition hbody hn)
  rw [Block.span_forget] at hwhile
  rw [Style.statement, Node.tokens]
  simp only [Form.isStatement, Form.endsInBlock, if_true, List.append_nil]
  exact hwhile

/-- A definition of a function is derived from its parameters (`derivesParams_separated`) and its
body. -/
theorem function {span : Span} {ident : Ident} {params : List Param} {returns : TypeName}
    {body : Block} (hparams : ∀ param ∈ params, param.type ≠ .void)
    (hbody : Part.Derived style (.block body)) :
    Part.Derived style (.statement ⟨span, .function ident params returns body⟩) := by
  intro n hn
  have hn : body.levels style ≤ n := by
    simpa only [Style.statementLevels, Form.isStatement, if_true, Node.levels] using hn
  have hfunction := @Derives.function _ _ _ _ _ _ (.bare .functionWord) ident.token
    (.bare .leftParen) (.bare .rightParen) (.bare .arrow) (.bare returns.kind) rfl rfl rfl
    (derivesParams_separated hparams) rfl rfl returns.ofToken?_kind (hbody n hn)
  rw [Block.span_forget] at hfunction
  rw [Style.statement, Node.tokens, Token.bracketed]
  simp only [Form.isStatement, Form.endsInBlock, if_true, List.append_nil, List.cons_append,
    List.append_assoc, List.nil_append] at hfunction ⊢
  exact hfunction

/-- The end of a call with a value is derived, with a semicolon behind it. -/
theorem returnValue {span : Span} (h : Part.Derived style (.expression e)) :
    Part.Derived style (.statement ⟨span, .returnValue e⟩) := by
  intro n hn
  have hn : style.expressionLevels e (e.levels style) ≤ n := by
    simpa only [Style.statementLevels, Form.isStatement, if_true, Node.levels] using hn
  have hreturn := Derives.returnValue (Token.kind_bare .returnWord) (h.expression hn)
  rw [Node.span_forget] at hreturn
  rw [Style.statement, Node.tokens]
  exact .closed hreturn (Token.kind_bare .semicolon)

/-- A block is derived from its statements (`Part.items`) between braces. -/
theorem block {span : Span} {es : List Node} (h : Part.Derived style (.items es)) :
    Part.Derived style (.block ⟨span, es⟩) := by
  intro n hn
  rw [Block.levels] at hn
  obtain ⟨m, rfl⟩ := Nat.exists_eq_add_of_le' (Nat.le_of_add_left_le hn)
  rw [Block.tokens]
  exact .block (Token.kind_bare .leftBrace) (h m (Nat.le_of_add_le_add_right hn))
    (Token.kind_bare .rightBrace)

/-- A block is derived as a statement of its own (`Part.statement`), without a semicolon. -/
theorem nested {span : Span} {b : Block} (h : Part.Derived style (.block b)) :
    Part.Derived style (.statement ⟨span, .block b⟩) := by
  intro n hn
  have hn : b.levels style ≤ n := by
    simpa only [Style.statementLevels, Form.isStatement, if_true, Node.levels] using hn
  have hnested := Derives.nested (h n hn)
  rw [Block.span_forget] at hnested
  rw [Style.statement, Node.tokens]
  simp only [Form.isStatement, Form.endsInBlock, if_true, List.append_nil]
  exact hnested

/-- A statement in front of others is derived (`Part.items`). -/
theorem moreItems {es : List Node} (he : Part.Derived style (.statement e))
    (hes : Part.Derived style (.items es)) : Part.Derived style (.items (e :: es)) := by
  intro n hn
  rw [Node.itemLevels, Nat.max_le] at hn
  rw [Node.itemTokens]
  exact .moreItems (he n hn.1) (hes n hn.2)

/-- A further case is derived in front of the alternatives that are left (`Part.alternatives`). -/
theorem elseIf {condition : Node} {body : Block} {others : Alternatives}
    (hcondition : Part.Derived style (.expression condition))
    (hbody : Part.Derived style (.block body))
    (hothers : Part.Derived style (.alternatives others)) :
    Part.Derived style (.alternatives (.case condition body others)) := by
  intro n hn
  rw [Alternatives.levels, Nat.max_le] at hn
  rw [Alternatives.tokens]
  exact .elseIf (Token.kind_bare .elseifWord) (case hcondition hbody hn.1) (hothers n hn.2)

end Part.Derived

/-- A number or a name that can be written is derived from one token as a magnitude
(`DerivesMagnitude`). -/
theorem Writable.derivesMagnitude {style : Style} {e : Node} (h : Writable style (.expression e))
    (hform : e.form.isMagnitude = true) :
    ∃ token, e.tokens style = [token] ∧ DerivesMagnitude (e.relocate .forget) token := by
  cases h with
  | @int n _ hn => exact ⟨_, rfl, .number (derivesNumber_int hn)⟩
  | double _ hread => exact ⟨_, rfl, .number (derivesNumber_double hread)⟩
  | @name _ ident => exact ⟨_, rfl, @DerivesMagnitude.name ident.token rfl⟩
  | _ => cases hform

/-- What can be written (`Writable`) is derived from its tokens, in as many levels as they open
(`Part.Derived`). There is one lemma above for each way to write a part. -/
theorem Writable.derived {style : Style} {part : Part} (h : Writable style part) :
    part.Derived style := by
  induction h with
  | int hn => exact .of_atom fun _ _ => .number (derivesNumber_int hn)
  | double _ hread => exact .of_atom fun _ _ => .number (derivesNumber_double hread)
  | @string _ s =>
    refine .of_atom fun n _ => ?_
    have htext := @Derives.text n (.holding .stringLiteral ("\"" ++ s ++ "\"")) (.inl rfl)
    rwa [Token.enclosed_holding] at htext
  | @bool _ b =>
    refine .of_atom fun _ _ => ?_
    cases b with
    | true => exact .trueWord (Token.kind_bare .trueWord)
    | false => exact .falseWord (Token.kind_bare .falseWord)
  | unit => exact .of_atom fun _ _ => .unit (derivesUnit_unitTokens _ _)
  | @phys magnitude _ _ above below hform hmagnitude _ =>
    refine .of_atom fun n _ => ?_
    obtain ⟨token, htokens, hderives⟩ := hmagnitude.derivesMagnitude hform
    have hquantity := @Derives.quantity _ _ _ _ n (.bare .ampersand) hderives rfl
      (derivesUnit_unitTokens above below)
    rw [Node.span_forget] at hquantity
    rw [Node.tokens, Node.tokens, htokens]
    exact hquantity
  | @name _ ident => exact .of_atom fun n _ => @Derives.name n ident.token rfl
  | unary _ ih => exact ih.unary
  | binary _ _ ihl ihr => exact ihl.binary ihr
  | assign htype _ ih => exact ih.assign htype
  | call _ ih => exact ih.call
  | noArguments => exact fun _ _ => .noArguments
  | moreArguments _ _ ih ihs => exact ih.moreArguments ihs
  | evaluated he ih => exact ih.evaluated he.isStatement
  | ifElse _ _ _ ihc ihb iho => exact ihc.ifElse ihb iho
  | whileLoop _ _ ihc ihb => exact ihc.whileLoop ihb
  | function hparams _ ih => exact ih.function hparams
  | returnNothing =>
    exact fun _ _ =>
      .closed (.returnNothing (Token.kind_bare .returnWord)) (Token.kind_bare .semicolon)
  | returnValue _ ih => exact ih.returnValue
  | breakLoop =>
    exact fun _ _ => .closed (.breakLoop (Token.kind_bare .breakWord)) (Token.kind_bare .semicolon)
  | continueLoop =>
    exact fun _ _ =>
      .closed (.continueLoop (Token.kind_bare .continueWord)) (Token.kind_bare .semicolon)
  | nested _ ih => exact ih.nested
  | noItems => exact fun _ _ => .noItems
  | moreItems _ _ ih ihs => exact ih.moreItems ihs
  | block _ ih => exact ih.block
  | none => exact fun _ _ => .noOthers
  | otherwise _ ih => exact fun n hn => .otherwise (Token.kind_bare .elseWord) (ih n hn)
  | case _ _ _ ihc ihb iho => exact ihc.elseIf ihb iho

/-! ## Programs -/

/-- Whether the trees of a part are alike themselves (`Node.alike`): they are unless a double in
them is no number. -/
def Part.AlikeSelf : Part → Prop
  | .expression e | .statement e => e.alike e = true
  | .arguments es | .items es => Node.allAlike es es = true
  | .block b => b.alike b = true
  | .alternatives a => a.alike a = true

theorem Ident.alike_self (ident : Ident) : ident.alike ident = true :=
  alike_of_relocate (f := id) rfl

theorem Param.allAlike_self (params : List Param) : Param.allAlike params params = true :=
  allAlike_of_relocate (f := id) rfl

/-- What can be written is alike itself (`Part.AlikeSelf`), since it holds finite doubles only. -/
theorem Writable.alikeSelf {style : Style} {part : Part} (h : Writable style part) :
    part.AlikeSelf := by
  induction h with
  | double hfinite _ =>
    simp only [Part.AlikeSelf, Node.alike, Double.beq_self_of_isFinite hfinite]
  | int | string | bool | returnNothing | breakLoop | continueLoop =>
    simp only [Part.AlikeSelf, Node.alike, beq_self_eq_true]
  | unit => simp only [Part.AlikeSelf, Node.alike, Ident.allAlike, beq_self_eq_true, Bool.and_self]
  | name => simp only [Part.AlikeSelf, Node.alike, Ident.alike_self]
  | phys _ _ ih =>
    simp only [Part.AlikeSelf, Node.alike, Ident.allAlike, beq_self_eq_true, Bool.and_true] at ih ⊢
    exact ih
  | unary _ ih =>
    simp only [Part.AlikeSelf, Node.alike, beq_self_eq_true, Bool.true_and] at ih ⊢
    exact ih
  | binary _ _ ihl ihr =>
    simp only [Part.AlikeSelf, Node.alike, beq_self_eq_true, Bool.true_and, Bool.and_eq_true]
      at ihl ihr ⊢
    exact ⟨ihl, ihr⟩
  | assign _ _ ih =>
    simp only [Part.AlikeSelf, Node.alike, beq_self_eq_true, Ident.alike_self, Bool.true_and]
      at ih ⊢
    exact ih
  | call _ ih =>
    simp only [Part.AlikeSelf, Node.alike, Ident.alike_self, Bool.true_and] at ih ⊢
    exact ih
  | returnValue _ ih | nested _ ih =>
    simp only [Part.AlikeSelf, Node.alike] at ih ⊢
    exact ih
  | ifElse _ _ _ ihc ihb iho =>
    simp only [Part.AlikeSelf, Node.alike, Alternatives.alike, Bool.and_eq_true] at ihc ihb iho ⊢
    exact ⟨⟨ihc, ihb⟩, iho⟩
  | whileLoop _ _ ihc ihb =>
    simp only [Part.AlikeSelf, Node.alike, Bool.and_eq_true] at ihc ihb ⊢
    exact ⟨ihc, ihb⟩
  | function _ _ ih =>
    simp only [Part.AlikeSelf, Node.alike, Ident.alike_self, Param.allAlike_self,
      beq_self_eq_true, Bool.true_and] at ih ⊢
    exact ih
  | noArguments | noItems => simp only [Part.AlikeSelf, Node.allAlike]
  | moreArguments _ _ ih ihs | moreItems _ _ ih ihs =>
    simp only [Part.AlikeSelf, Node.allAlike, Bool.and_eq_true] at ih ihs ⊢
    exact ⟨ih, ihs⟩
  | evaluated _ ih => exact ih
  | block _ ih =>
    simp only [Part.AlikeSelf, Block.alike] at ih ⊢
    exact ih
  | none => simp only [Part.AlikeSelf, Alternatives.alike]
  | otherwise _ ih =>
    simp only [Part.AlikeSelf, Alternatives.alike] at ih ⊢
    exact ih
  | case _ _ _ ihc ihb iho =>
    simp only [Part.AlikeSelf, Alternatives.alike, Bool.and_eq_true] at ihc ihb iho ⊢
    exact ⟨⟨ihc, ihb⟩, iho⟩

/-- The statements of a program that can be written are read from its own tokens (`Block.written`),
moved to the first place of a text. -/
theorem Block.exists_ofTokens_written {style : Style} {program : Block}
    (h : Writable style (.items program.items))
    (hlevels : Node.itemLevels style program.items ≤ nestingLimit) :
    ∃ span, Block.ofTokens (program.written style) =
      .ok ⟨span, Node.relocateAll .forget program.items⟩ := by
  have hitems : Derives nestingLimit (.items (Node.relocateAll .forget program.items))
      (Node.itemTokens style program.items) := h.derived _ hlevels
  obtain ⟨first, hfirst⟩ : ∃ first,
      (Node.itemTokens style program.items ++ [Token.bare .endOfText]).head? = some first := by
    cases Node.itemTokens style program.items with
    | nil => exact ⟨_, rfl⟩
    | cons token tokens => exact ⟨token, rfl⟩
  exact ⟨_, Block.ofTokens_of_derivedFrom (.program hitems (Token.kind_bare .endOfText) hfirst)⟩

/-- A program that can be written (`Writable`) is read from its tokens, wherever they are placed,
unless they open more levels than may be nested (`Parser.nestingLimit`): they are accepted as a tree
that is alike (`Block.alike`). -/
theorem Block.ofTokens_written {style : Style} {program : Block}
    (h : Writable style (.items program.items))
    (hlevels : Node.itemLevels style program.items ≤ nestingLimit) {tokens : List Token}
    (htokens : tokens.map (·.relocate .forget) = program.written style) :
    ∃ read, Block.ofTokens tokens = .ok read ∧ program.alike read = true := by
  obtain ⟨span, hwritten⟩ := Block.exists_ofTokens_written h hlevels
  rw [← htokens, Block.ofTokens_relocate rfl] at hwritten
  cases htokens : Block.ofTokens tokens with
  | error e =>
    rw [htokens] at hwritten
    cases hwritten
  | ok read =>
    rw [htokens] at hwritten
    have hread : read.relocate .forget = ⟨span, Node.relocateAll .forget program.items⟩ :=
      Except.ok.inj hwritten
    have hself : Node.allAlike program.items program.items = true := h.alikeSelf
    obtain ⟨_, items⟩ := program
    obtain ⟨_, others⟩ := read
    refine ⟨_, rfl, ?_⟩
    rw [Block.alike]
    exact Node.allAlike_of_relocate items others (Block.mk.inj hread).2.symm hself

/-- Doubles are spelled as the language shows them (`Double.text`), and no brackets stand where none
are needed. -/
def sparseStyle : Style := ⟨Double.text, fun _ => false⟩

/-- The double of one half, given by its bits (`Float.ofBits`). -/
def half : Float := Float.ofBits 0x3FE0000000000000

/-- A speed that is declared, and a choice that depends on a comparison of sums: a program that is
`Writable`. -/
def speedProgram : Block :=
  let name (text : String) : Ident := ⟨text, .origin⟩
  let node (form : Form) : Node := ⟨.origin, form⟩
  let speed := node (.phys (node (.double half)) (node (.unit [name "m"] [name "s"])))
  let sum := node (.binary .add (node (.variable (name "x"))) (node (.int 1)))
  let condition := node (.unary .not (node (.binary .less sum (node (.unary .negate sum)))))
  ⟨.origin,
    [node (.assign (some .phys) (name "v") speed),
     node (.ifElse (.case condition ⟨.origin, [node (.returnValue (node (.string "\"")))]⟩
       (.otherwise ⟨.origin, [node (.call (name "f") [sum, node (.unit [] [])])]⟩)))]⟩

/-- The tokens of `speedProgram`, at other places than those at which they are written. -/
def speedTokens : List Token :=
  (speedProgram.written sparseStyle).mapIdx fun i token =>
    { token with span := ⟨⟨0, i⟩, ⟨0, i + 1⟩⟩ }

/-- The program `speedProgram` is read from its tokens on a line, `speedTokens`, in six levels. -/
theorem speedProgram_ofTokens_written : Writable sparseStyle (.items speedProgram.items) ∧
    Node.itemLevels sparseStyle speedProgram.items = 6 ∧
    speedTokens.map (·.relocate .forget) = speedProgram.written sparseStyle ∧
    ∃ read, Block.ofTokens speedTokens = .ok read ∧ speedProgram.alike read = true := by
  have hdouble : Double.ofText? (sparseStyle.spell half).toList = some half := by rfl
  have hsum {i : Ident} : Writable sparseStyle
      (.expression ⟨.origin, .binary .add ⟨.origin, .variable i⟩ ⟨.origin, .int 1⟩⟩) :=
    .binary .name (.int (by decide))
  have hwritable : Writable sparseStyle (.items speedProgram.items) := by
    refine .moreItems (.evaluated (.assign (by decide) (.phys rfl ?_)))
      (.moreItems (.ifElse ?_ ?_ ?_) .noItems)
    · exact .double (by decide +kernel) hdouble
    · exact .unary (.binary hsum (.unary hsum))
    · exact .block (.moreItems (.returnValue .string) .noItems)
    · refine .otherwise (.block (.moreItems (.evaluated (.call ?_)) .noItems))
      exact .moreArguments hsum (.moreArguments .unit .noArguments)
  have hlevels : Node.itemLevels sparseStyle speedProgram.items = 6 := by rfl
  have htokens : speedTokens.map (·.relocate .forget) = speedProgram.written sparseStyle := by rfl
  exact ⟨hwritable, hlevels, htokens,
    Block.ofTokens_written hwritable (hlevels ▸ by decide) htokens⟩

end UnitScript
