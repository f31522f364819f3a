import UnitScript.Proofs.Grammar.RoundTrip
import UnitScript.Proofs.Grammar.Single
import UnitScript.Proofs.Parser.Decisions
import UnitScript.Proofs.Units.Algebra

/-!
# Literals as statements

What a literal comes to where it is a whole text, whatever machine it is run on
(`literalsMean`). The decimal digits of a number, behind a minus sign if it is negative, come to
that integer as long as its size is that of a word; the digits of any other are refused where they
stand, since they are no integer in range and nothing else that is expected there. Texts and
characters come to what stands between their quotes.
-/

namespace UnitScript

/-! ## Digits -/

namespace Integer

/-- The digits of a number begin with zero only if there is no other. -/
theorem eq_nil_of_toDigits {n : Nat} {d : Char} {ds : List Char}
    (h : Nat.toDigits 10 n = d :: ds) (hzero : d = '0') : ds = [] := by
  induction n using Nat.strongRecOn generalizing ds with
  | _ n ih =>
    rw [Nat.toDigits_eq_if (by omega)] at h
    split at h
    next => exact (List.cons.inj h).2.symm
    next hlarge =>
      -- A lone zero in front of the last digit would make the number less than ten.
      obtain ⟨first, front, hfront⟩ :=
        List.exists_cons_of_ne_nil (Nat.toDigits_ne_nil (n := n / 10) (b := 10))
      rw [hfront] at h
      obtain ⟨rfl, -⟩ := List.cons.inj h
      have hnil := ih (n / 10) (by omega) hfront
      have hread : Nat.ofDigitChars 10 (Nat.toDigits 10 (n / 10)) 0 = n / 10 :=
        Nat.ofDigitChars_ten_toDigits
      rw [hfront, hnil, hzero] at hread
      have : n / 10 = 0 := hread.symm
      omega

/-- The digits of a number are `Spelled` like an integer: none of them is a zero too many. -/
theorem spelled_toDigits (n : Nat) : Spelled .intLiteral (Nat.toDigits 10 n) := by
  have hdigits : ∀ c ∈ Nat.toDigits 10 n, c.isDigit = true := fun c hc =>
    Nat.isDigit_of_mem_toDigits (by omega) (by omega) hc
  obtain ⟨d, ds, h⟩ := List.exists_cons_of_ne_nil (Nat.toDigits_ne_nil (n := n) (b := 10))
  rw [h] at hdigits ⊢
  exact .integer (eq_nil_of_toDigits h) hdigits

/-- An integer is written as the digits of its size (`Nat.toDigits`), behind a minus sign if it is
negative. -/
theorem toList_toString (n : Int) : (toString n).toList =
    if n < 0 then '-' :: Nat.toDigits 10 n.natAbs else Nat.toDigits 10 n.natAbs := by
  have hdigits (m : Nat) : (toString m).toList = Nat.toDigits 10 m := by
    rw [Nat.toString_eq_repr, Nat.toList_repr]
  cases n with
  | ofNat m => exact hdigits m
  | negSucc m =>
    rw [if_pos (Int.negSucc_lt_zero m)]
    show ("-" ++ toString (m + 1)).toList = _
    rw [String.toList_append, hdigits]
    rfl

/-- There is no newline in an integer. -/
theorem newline_notMem_toString (n : Int) : '\n' ∉ (toString n).toList := by
  have hdigits : '\n' ∉ Nat.toDigits 10 n.natAbs := fun h =>
    absurd (Nat.isDigit_of_mem_toDigits (by omega) (by omega) h) (by decide)
  rw [toList_toString]
  split
  · exact List.not_mem_cons_of_ne_of_not_mem (by decide) hdigits
  · exact hdigits

end Integer

/-! ## Refused tokens -/

namespace Parser

variable {α β : Type} {p : Parser α} {expected : Expectation} {tokens rest : List Token}
  {below : Deeper}

/-- The parser refuses the rest of the tokens for what it expected, at whatever depth. -/
def RefusesAt (p : Parser α) (expected : Expectation) (tokens rest : List Token) : Prop :=
  ∃ depth, p tokens = .error ⟨expected, rest, depth⟩

namespace RefusesAt

/-- Where one parser refuses no other is asked. -/
theorem bind (h : RefusesAt p expected tokens rest) (f : α → Parser β) :
    RefusesAt (p >>= f) expected tokens rest := by
  obtain ⟨depth, h⟩ := h
  refine ⟨depth, ?_⟩
  show StateT.bind p f tokens = _
  rw [StateT.bind, h]
  rfl

/-- Behind what one parser reads the other one refuses. -/
theorem after {f : α → Parser β} {a : α} {mid : List Token} (hp : p tokens = .ok (a, mid))
    (h : RefusesAt (f a) expected mid rest) : RefusesAt (p >>= f) expected tokens rest := by
  rwa [RefusesAt, bind_of_ok hp]

/-- One level deeper the same is refused. -/
theorem nested (h : RefusesAt p expected tokens rest) :
    RefusesAt (Parser.nested p) expected tokens rest := by
  obtain ⟨depth, h⟩ := h
  exact ⟨depth + 1, by rw [Parser.nested, h]; rfl⟩

/-- Operands of a tier are refused with the first of them. -/
theorem chain {p : Parser Node} (tier : Tier) (h : RefusesAt p expected tokens rest) :
    RefusesAt (Parser.chain tier p) expected tokens rest :=
  h.bind _

/-- What is refused behind signs is refused as a comparison. -/
theorem comparison {first : Token} {tail : List Token} (hfirst : first.kind ≠ .notWord)
    (h : RefusesAt (signed below) expected (first :: tail) rest) :
    RefusesAt (Parser.comparison below) expected (first :: tail) rest := by
  have hnot : acceptIf? (fun kind => (UnaryOp.ofToken? kind).filter (· = .not)) (first :: tail) =
      .ok (none, first :: tail) := by
    refine acceptIf?_eq_ok.2 (.inr ⟨fun token htoken => ?_, rfl, rfl⟩)
    cases htoken
    cases hkind : first.kind <;> first | rfl | exact absurd hkind hfirst
  exact after hnot ((h.chain .product).chain .sum |>.chain .comparison)

/-- What is refused as a comparison is refused as an expression, where no assignment begins. -/
theorem expressionBody {first : Token} {tail : List Token} (htype : first.kind.isType = false)
    (hname : first.kind ≠ .identifier)
    (h : RefusesAt (Parser.comparison below) expected (first :: tail) rest) :
    RefusesAt (Parser.expressionBody below) expected (first :: tail) rest := by
  refine after (peek_eq_ok.2 ⟨rfl, rfl⟩) (after (peekSecond?_eq_ok.2 ⟨rfl, rfl⟩) ?_)
  rw [if_neg]
  · exact h.chain .logic
  · rintro (hkind | ⟨hkind, -⟩)
    · cases htype.symm.trans hkind
    · exact hname hkind

end RefusesAt

/-- A number out of range is refused where it stands, if it is read as an operand (`signed`). -/
theorem signed_refuses {token : Token} {tail : List Token} (hkind : token.kind = .intLiteral)
    (hrange : Integer.ofText? token.lexeme.toList = none) :
    RefusesAt (signed below) .integer (token :: tail) (token :: tail) := by
  have hsign : acceptIf? (fun kind => (UnaryOp.ofToken? kind).filter (· ≠ .not)) (token :: tail) =
      .ok (none, token :: tail) := by
    refine acceptIf?_eq_ok.2 (.inr ⟨fun other hother => ?_, rfl, rfl⟩)
    cases hother
    rw [hkind]
    rfl
  have hnumber : RefusesAt (number .intLiteral) .integer (token :: tail) (token :: tail) := by
    refine ⟨0, ?_⟩
    rw [number, if_pos rfl, accept, hrange]
    rfl
  refine .after hsign (.after (peek_eq_ok.2 ⟨rfl, rfl⟩) ?_)
  simp only [hkind]
  exact hnumber.bind _

/-- Behind a minus sign a number out of range is refused where it stands: the sign is no part of the
literal. -/
theorem signed_minus_refuses {n : Nat} {sign token : Token} {tail : List Token}
    (hsign : sign.kind = .minus) (hkind : token.kind = .intLiteral)
    (hrange : Integer.ofText? token.lexeme.toList = none) :
    RefusesAt (signed (deeper (n + 1))) .integer (sign :: token :: tail) (token :: tail) := by
  have htaken : acceptIf? (fun kind => (UnaryOp.ofToken? kind).filter (· ≠ .not))
      (sign :: token :: tail) = .ok (some (.negate, sign.span), token :: tail) :=
    acceptIf?_eq_ok.2 (.inl ⟨sign, .negate, rfl, by rw [hsign]; rfl, rfl⟩)
  exact .after htaken ((signed_refuses hkind hrange).nested.bind _)

/-- What is refused as an expression is refused as a program (`RefusesAt`), if no other statement
begins there. -/
theorem program_refusesAt {first : Token} {tail : List Token}
    (hplain : first.kind = .minus ∨ first.kind = .intLiteral)
    (h : RefusesAt (signed (deeper 255)) expected (first :: tail) rest) :
    RefusesAt program expected (first :: tail) rest := by
  have hexpression : RefusesAt expression expected (first :: tail) rest := by
    refine RefusesAt.nested (.expressionBody ?_ ?_ (.comparison ?_ h)) <;>
      rcases hplain with hkind | hkind <;> rw [hkind] <;> decide
  have hstatement : RefusesAt statement expected (first :: tail) rest := by
    refine .after (peek_eq_ok.2 ⟨rfl, rfl⟩) ?_
    rcases hplain with hkind | hkind <;>
    · simp only [hkind]
      exact hexpression.bind _
  have hend : ¬ decide (first.kind = .endOfText) = true := by
    rcases hplain with hkind | hkind <;> rw [hkind] <;> decide
  have hitems : RefusesAt (untilKind (· = .endOfText) statement) expected (first :: tail) rest := by
    refine .after (peek_eq_ok.2 ⟨rfl, rfl⟩) ?_
    rw [if_neg hend]
    exact hstatement.bind _
  exact .after (peek_eq_ok.2 ⟨rfl, rfl⟩) (hitems.bind _)

end Parser

/-- A line is refused at the token at which its tokens are. -/
theorem Block.ofText_of_refusesAt {cs : List Char} {front rest : List Token} {token : Token}
    {expected : Expectation}
    (h : ∀ tail, Parser.RefusesAt Parser.program expected (front ++ token :: tail)
      (token :: tail)) (hline : '\n' ∉ cs)
    (hread : Token.ofLine .origin cs = .ok (front ++ token :: rest)) :
    Block.ofText cs = .error (.grammatical ⟨token.span.start, expected, token.text⟩) := by
  obtain ⟨row, htokens⟩ := Token.ofText_of_ofLine hline hread
  rw [List.append_assoc] at htokens
  obtain ⟨depth, hrefused⟩ := h (rest ++ [Token.atEnd row])
  have hprogram : Block.ofTokens (front ++ token :: (rest ++ [Token.atEnd row])) =
      .error ⟨token.span.start, expected, token.text⟩ := by
    rw [Block.ofTokens, Parser.parse, hrefused]
    rfl
  rw [Block.ofText, htokens]
  exact congrArg (Except.mapError Failure.grammatical) hprogram

/-! ## Numbers as statements -/

namespace Integer

/-- The token that the digits of a number are read as. -/
def token (n : Nat) (position : Position) : Token :=
  .placed .intLiteral (Nat.toDigits 10 n) position

/-- The digits of a number are what its token keeps. -/
theorem toList_lexeme_token (n : Nat) (position : Position) :
    (token n position).lexeme.toList = Nat.toDigits 10 n :=
  String.toList_ofList

/-- Digits are shown as the number. -/
theorem text_token (n : Nat) (position : Position) : (token n position).text = toString n := by
  rw [Nat.toString_eq_repr, Nat.repr_eq_ofList_toDigits]
  rfl

/-- A number and a semicolon are read as such. -/
theorem ofLine_digits (n : Nat) (position : Position) : ∃ semicolon, semicolon.kind = .semicolon ∧
    Token.ofLine position (Nat.toDigits 10 n ++ [';']) =
      .ok ([token n position] ++ [semicolon]) := by
  refine ⟨_, rfl, Token.ofLine_of_spelled position (spelled_toDigits n) (fun c hc => ?_)
    (Token.ofLine_semicolon _)⟩
  cases hc
  decide

/-- A minus sign in front of a number is read as such. -/
theorem ofLine_minus (n : Nat) : ∃ sign semicolon, sign.kind = .minus ∧
    semicolon.kind = .semicolon ∧
    Token.ofLine .origin ('-' :: Nat.toDigits 10 n ++ [';']) =
      .ok ([sign, token n ⟨0, 1⟩] ++ [semicolon]) := by
  obtain ⟨semicolon, hsemicolon, hread⟩ := ofLine_digits n ⟨0, 1⟩
  refine ⟨_, semicolon, rfl, hsemicolon,
    Token.ofLine_of_mark .minus .origin (by decide) rfl (fun c hc => ?_) hread⟩
  obtain ⟨d, ds, hdigits⟩ := List.exists_cons_of_ne_nil (Nat.toDigits_ne_nil (n := n) (b := 10))
  have hdigit : d.isDigit = true :=
    Nat.isDigit_of_mem_toDigits (by omega) (by omega) (hdigits ▸ List.mem_cons_self)
  rw [hdigits] at hc
  cases hc
  exact TokenKind.goesOn_of_isNamePart (by decide) (Pattern.isNamePart_of_isDigit hdigit)

/-- Digits of an integer in range are an atom. -/
theorem derives_token {n : Nat} {w : Int64} (h : w.toInt = n) (levels : Nat)
    (position : Position) :
    Derives levels (.atom ⟨(token n position).span, .int w⟩) [token n position] := by
  have hread : ofText? (token n position).lexeme.toList = some w := by
    rw [toList_lexeme_token, ofText?_toDigits]
    exact ofInt?_eq_some_iff.2 h
  have hkind : (token n position).kind = .intLiteral := rfl
  exact .number (.int hkind hread)

/-- An integer whose size is in range comes to itself, as a statement of its digits and its sign. -/
theorem runText_toString {n : Int} (hlower : -2 ^ 63 < n) (hupper : n < 2 ^ 63) (fuel : Nat)
    (m : Machine) : ∃ w span, w.toInt = n ∧
      runText fuel ((toString n).toList ++ [';']) m =
        (.value (some ⟨.number (.int w), some span⟩), m) := by
  obtain ⟨w, hw⟩ := inRange_iff.1 (show InRange n.natAbs by rw [InRange]; omega)
  obtain ⟨v, hv⟩ := inRange_iff.1 (show InRange n by rw [InRange]; omega)
  have hline : '\n' ∉ (toString n).toList ++ [';'] := by
    simpa using newline_notMem_toString n
  rw [toList_toString] at hline ⊢
  split at hline
  next hneg =>
    rw [if_pos hneg]
    obtain ⟨sign, semicolon, hsign, hsemicolon, hread⟩ := ofLine_minus n.natAbs
    have hop : UnaryOp.ofToken? sign.kind = some .negate := by rw [hsign]; rfl
    have hchain : Derives 255 (.chain .product (Parser.unary .negate sign.span
        ⟨(token n.natAbs ⟨0, 1⟩).span, .int w⟩)) [sign, token n.natAbs ⟨0, 1⟩] :=
      .single (.sign hop (by decide) (.unsigned (derives_token hw 254 _)))
    obtain ⟨_, hprogram⟩ :=
      Block.ofText_of_expression hline hread hchain.expression_of_chain hsemicolon
    have hnegate : (Number.int w).negate = .ok (.int v) :=
      Number.exact_eq_ok_iff.2 ⟨v, rfl, by rw [hv, hw]; omega⟩
    have hrun : Node.run fuel (Parser.unary .negate sign.span
        ⟨(token n.natAbs ⟨0, 1⟩).span, .int w⟩) m = (.ok (some ⟨.number (.int v),
          some (sign.span.through (token n.natAbs ⟨0, 1⟩).span)⟩), m) := by
      show Eval.bind (Eval.attempt (Except.map Value.number (Number.int w).negate) _) _ m = _
      rw [hnegate]
      rfl
    exact ⟨v, _, hv, runText_of_expression hprogram hrun rfl⟩
  next hneg =>
    rw [if_neg hneg]
    obtain ⟨semicolon, hsemicolon, hread⟩ := ofLine_digits n.natAbs .origin
    have hexpression := (derives_token hw 255 .origin).expression_of_atom
    obtain ⟨_, hprogram⟩ := Block.ofText_of_expression hline hread hexpression hsemicolon
    exact ⟨w, _, by rw [hw]; omega, runText_of_expression hprogram rfl rfl⟩

/-- Any other integer, the least word among them, is refused at its digits. -/
theorem runText_toString_refused {n : Int} (hrange : ¬(-2 ^ 63 < n ∧ n < 2 ^ 63)) (fuel : Nat)
    (m : Machine) : runText fuel ((toString n).toList ++ [';']) m =
      (.failure (.grammatical ⟨⟨0, if n < 0 then 1 else 0⟩, .integer, toString n.natAbs⟩), m) := by
  have hnone (position : Position) :
      ofText? (token n.natAbs position).lexeme.toList = none := by
    rw [toList_lexeme_token, ofText?_toDigits, ofInt?_eq_none_iff]
    omega
  have hline : '\n' ∉ (toString n).toList ++ [';'] := by
    simpa using newline_notMem_toString n
  refine runText_of_error ?_ fuel m
  rw [toList_toString] at hline ⊢
  split at hline
  next hneg =>
    rw [if_pos hneg, if_pos hneg, ← text_token n.natAbs ⟨0, 1⟩]
    obtain ⟨sign, semicolon, hsign, -, hread⟩ := ofLine_minus n.natAbs
    have hrefused (tail : List Token) : Parser.RefusesAt Parser.program .integer
        ([sign] ++ token n.natAbs ⟨0, 1⟩ :: tail) (token n.natAbs ⟨0, 1⟩ :: tail) :=
      Parser.program_refusesAt (.inl hsign) (Parser.signed_minus_refuses hsign rfl (hnone _))
    exact Block.ofText_of_refusesAt hrefused hline hread
  next hneg =>
    rw [if_neg hneg, if_neg hneg, ← text_token n.natAbs .origin]
    obtain ⟨semicolon, -, hread⟩ := ofLine_digits n.natAbs .origin
    have hrefused (tail : List Token) : Parser.RefusesAt Parser.program .integer
        ([] ++ token n.natAbs .origin :: tail) (token n.natAbs .origin :: tail) :=
      Parser.program_refusesAt (.inr rfl) (Parser.signed_refuses rfl (hnone _))
    exact Block.ofText_of_refusesAt hrefused hline hread

end Integer

/-! ## Texts as statements -/

/-- A literal that is enclosed in delimiters comes to what stands between them
(`Token.enclosed`). -/
theorem runText_of_enclosed {kind : TokenKind} {text : List Char} {first last : Char}
    (hkind : kind = .stringLiteral ∨ kind = .charLiteral)
    (hspelled : Spelled kind (first :: (text ++ [last]))) (hfirst : first.utf8Size = 1)
    (hlast : last.utf8Size = 1) (hline : '\n' ∉ first :: (text ++ [last])) (fuel : Nat)
    (m : Machine) : ∃ span, runText fuel (first :: (text ++ [last, ';'])) m =
      (.value (some ⟨.string (String.ofList text), some span⟩), m) := by
  have hcs : first :: (text ++ [last, ';']) = first :: (text ++ [last]) ++ [';'] := by simp
  have hends : ∀ c ∈ [';'].head?, kind.goesOn c = false := by
    intro c hc
    rcases hkind with rfl | rfl <;> rfl
  have hread := Token.ofLine_of_spelled .origin hspelled hends (Token.ofLine_semicolon _)
  have hvalue : (Token.placed kind (first :: (text ++ [last])) .origin).lexeme.toList =
      first :: (text ++ [last]) := by
    rcases hkind with rfl | rfl <;> exact String.toList_ofList
  have hliteral : Derives 255 (.atom ⟨_, .string _⟩) [_] :=
    .text (show (Token.placed kind (first :: (text ++ [last])) .origin).kind = _ ∨ _ from hkind)
  rw [Token.enclosed_of_lexeme hvalue hfirst hlast] at hliteral
  have hnewline : '\n' ∉ first :: (text ++ [last]) ++ [';'] := by simpa using hline
  obtain ⟨_, hprogram⟩ :=
    Block.ofText_of_expression hnewline hread hliteral.expression_of_atom rfl
  rw [hcs]
  exact ⟨_, runText_of_expression hprogram rfl rfl⟩

/-- What literals mean as statements, through the lexer, the parser and the run on a machine
(`runText`), with some fuel. -/
structure LiteralsMean (fuel : Nat) (m : Machine) : Prop where
  /-- An integer comes to itself, and is shown (`Value.text`) as it was written, exactly if its size
  is in range, -/
  integer (n : Int) : (∃ w span, w.toInt = n ∧ (Value.number (.int w)).text = toString n ∧
    runText fuel ((toString n).toList ++ [';']) m =
      (.value (some ⟨.number (.int w), some span⟩), m)) ↔ -2 ^ 63 < n ∧ n < 2 ^ 63
  /-- and otherwise is refused by the parser (`Failure.grammatical`) at its digits, with the digits
  as what was found. -/
  outOfRange (n : Int) : ¬(-2 ^ 63 < n ∧ n < 2 ^ 63) →
    runText fuel ((toString n).toList ++ [';']) m =
      (.failure (.grammatical ⟨⟨0, if n < 0 then 1 else 0⟩, .integer, toString n.natAbs⟩), m)
  /-- A text between double quotes comes to itself (`Value.string`), with whatever stands between
  them but a quote or a newline. -/
  text (s : String) : '"' ∉ s.toList → '\n' ∉ s.toList → ∃ span,
    runText fuel ('"' :: (s.toList ++ ['"', ';'])) m = (.value (some ⟨.string s, some span⟩), m)
  /-- A character between single quotes comes to the text of this character, the quote itself and a
  backslash among these. -/
  character (c : Char) : c ≠ '\n' → ∃ span, runText fuel ['\'', c, '\'', ';'] m =
    (.value (some ⟨.string (String.singleton c), some span⟩), m)

/-- Literals mean what they say (`LiteralsMean`), on every machine and with any amount of fuel. -/
theorem literalsMean (fuel : Nat) (m : Machine) : LiteralsMean fuel m where
  integer n := by
    refine ⟨fun h => Decidable.by_contra fun hrange => ?_, fun ⟨hlower, hupper⟩ => ?_⟩
    · obtain ⟨w, span, -, -, hrun⟩ := h
      rw [Integer.runText_toString_refused hrange] at hrun
      cases hrun
    · obtain ⟨w, span, hw, hrun⟩ := Integer.runText_toString hlower hupper fuel m
      exact ⟨w, span, hw, congrArg toString hw, hrun⟩
  outOfRange n hrange := Integer.runText_toString_refused hrange fuel m
  text s hquote hnewline := by
    have hspelled : Spelled .stringLiteral ('"' :: (s.toList ++ ['"'])) := .quoted hquote
    have hline : '\n' ∉ '"' :: (s.toList ++ ['"']) := by simpa using hnewline
    obtain ⟨span, hrun⟩ :=
      runText_of_enclosed (.inl rfl) hspelled (by decide) (by decide) hline fuel m
    rw [String.ofList_toList] at hrun
    exact ⟨span, hrun⟩
  character c hc := by
    have hspelled : Spelled .charLiteral ('\'' :: ([c] ++ ['\''])) := .character hc
    have hline : '\n' ∉ '\'' :: ([c] ++ ['\'']) := by simpa using Ne.symm hc
    exact runText_of_enclosed (.inr rfl) hspelled (by decide) (by decide) hline fuel m

/-- Between quotes a text that looks like a comment is none, and the digits of the least word are
out of range: the sign in front of a literal is an operator (`Value.unary`), which comes too late
for them. -/
theorem commentText_means : ∀ fuel m,
    (∃ span, runText fuel "\"// 'é'\";".toList m =
      (.value (some ⟨.string "// 'é'", some span⟩), m)) ∧
    runText fuel "-9223372036854775808;".toList m =
      (.failure (.grammatical ⟨⟨0, 1⟩, .integer, "9223372036854775808"⟩), m) := by
  intro fuel m
  have h := literalsMean fuel m
  have hleast : (toString (-9223372036854775808 : Int)).toList ++ [';'] =
      "-9223372036854775808;".toList := rfl
  have hrefused := h.outOfRange (-9223372036854775808) (by decide)
  rw [hleast] at hrefused
  exact ⟨h.text "// 'é'" (by decide) (by decide), hrefused⟩

end UnitScript
