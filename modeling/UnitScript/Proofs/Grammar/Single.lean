import UnitScript.Proofs.Places.Splitting
import UnitScript.Proofs.Token.Relexing

/-!
# Texts of one expression

A text on one line whose tokens derive an expression and end in a semicolon is the program of that
one statement (`Block.ofText_of_expression`), and what the expression comes to is what the text
comes to (`runText_of_expression`). The tokens are read off the line one after the other, each as
it is spelled in front of what does not go on with it (`Token.ofLine_of_spelled`).
-/

namespace UnitScript

/-- What is left out is not spelled like a token. -/
theorem Spelled.ne_blank {kind : TokenKind} {text : List Char} (h : Spelled kind text) :
    kind ≠ .blank := by
  rintro rfl
  cases h with
  | word hmem | mark hmem => exact absurd hmem (by decide)

/-- A name has only characters of names. -/
theorem Spelled.isNamePart {text : List Char} (h : Spelled .identifier text) :
    ∀ c ∈ text, Pattern.isNamePart c = true := by
  generalize hkind : TokenKind.identifier = kind at h
  cases h with
  | word hmem | mark hmem => exact absurd (hkind ▸ hmem) (by decide)
  | name hc hcs _ =>
    exact List.forall_mem_cons.2 ⟨Pattern.isNamePart_of_isNameStart hc, hcs⟩
  | decimal | integer | character | quoted => cases hkind

/-- Marks end in front of names and numbers. -/
theorem TokenKind.goesOn_of_isNamePart {kind : TokenKind} (hkind : kind ∈ marks) {c : Char}
    (hc : Pattern.isNamePart c = true) : kind.goesOn c = false := by
  have hword : ∀ kind ∈ marks, kind ∉ words := by decide
  have hne {d : Char} (hd : Pattern.isNamePart d = false) : (c == d) = false :=
    beq_false_of_ne (Pattern.ne_of_isNamePart hc hd)
  unfold goesOn
  rw [if_neg (hword kind hkind), if_pos hkind, hne (by decide), hne (by decide), hne (by decide)]
  rfl

namespace Token

variable {kind : TokenKind} {text tail : List Char} {tokens : List Token}

/-- Wherever it stands in its line, the text is read as tokens of which something holds. -/
def ReadsAs (holds : List Token → Prop) (cs : List Char) : Prop :=
  ∀ position, ∃ tokens, ofLine position cs = .ok tokens ∧ holds tokens

/-- The token that a text of a kind is read as at a place. -/
def placed (kind : TokenKind) (text : List Char) (position : Position) : Token where
  kind := kind
  value := if kind.bearsValue then some (String.ofList text) else none
  span := ⟨position, ⟨position.row, position.column + text.length⟩⟩

/-- What is spelled like a token is read as it, and then what stands behind it. -/
theorem ofLine_of_spelled (position : Position) (h : Spelled kind text)
    (htail : ∀ c ∈ tail.head?, kind.goesOn c = false)
    (hrest : ofLine ⟨position.row, position.column + text.length⟩ tail = .ok tokens) :
    ofLine position (text ++ tail) = .ok (placed kind text position :: tokens) := by
  obtain ⟨c, cs, rfl, -⟩ := h.head
  rw [ofLine_of_lexeme? (lexeme?_of_spelled h htail) (List.cons_ne_nil _ _), List.drop_left]
  simp only [ofLexeme, List.take_left, hrest, if_neg h.ne_blank]
  rfl

/-- A mark of one character is read in front of what does not go on with it. -/
theorem ofLine_of_mark (kind : TokenKind) (position : Position) {c : Char}
    (hkind : kind ∈ TokenKind.marks) (htext : kind.text.toList = [c])
    (htail : ∀ d ∈ tail.head?, kind.goesOn d = false)
    (hrest : ofLine ⟨position.row, position.column + 1⟩ tail = .ok tokens) :
    ofLine position (c :: tail) = .ok (placed kind [c] position :: tokens) := by
  have hspelled : Spelled kind [c] := htext ▸ .mark hkind
  exact ofLine_of_spelled position hspelled htail hrest

/-- A line ends with its semicolon. -/
theorem ofLine_semicolon (position : Position) :
    ofLine position [';'] = .ok [placed .semicolon [';'] position] := by
  refine ofLine_of_mark .semicolon position (by decide) rfl (fun d hd => ?_) (by rw [ofLine])
  cases hd

end Token

/-! ## Programs of one statement -/

variable {cs : List Char} {front : List Token} {semicolon : Token} {e : Node}

/-- A line that derives an expression and ends in a semicolon is the program of this statement. -/
theorem Block.ofText_of_expression (hline : '\n' ∉ cs)
    (hread : Token.ofLine .origin cs = .ok (front ++ [semicolon]))
    (he : Derives nestingLimit (.expression e) front) (hsemicolon : semicolon.kind = .semicolon) :
    ∃ span, Block.ofText cs = .ok ⟨span, [e]⟩ := by
  obtain ⟨row, htokens⟩ := Token.ofText_of_ofLine hline hread
  have hitem : Derives nestingLimit (.items [e]) (front ++ [semicolon]) := by
    rw [← List.append_nil (front ++ [semicolon])]
    exact .moreItems (.closed (.evaluated he) hsemicolon) .noItems
  have hend : (Token.atEnd row).kind = .endOfText := rfl
  obtain ⟨span, hprogram⟩ := Block.ofTokens_of_items hitem hend
  refine ⟨span, ?_⟩
  rw [Block.ofText, htokens]
  simp only [hprogram]
  rfl

/-- A program of one expression comes to what the expression comes to. -/
theorem runText_of_expression {span : Span} (hread : Block.ofText cs = .ok ⟨span, [e]⟩) {fuel : Nat}
    {m m' : Machine} {result : Option Located} (he : e.run fuel m = (.ok result, m'))
    (hresult : interrupts result = false) : runText fuel cs m = (.value result, m') := by
  have hitems : (⟨span, [e]⟩ : Block).evaluate fuel (callWithin fuel) m = (.ok result, m') := by
    rw [Node.run] at he
    rw [Block.evaluate, Node.evaluateItems]
    show Eval.bind _ _ m = _
    simp only [Eval.bind, he, hresult]
    rfl
  rw [runText_of_ofText hread, Block.run_of_evaluate hitems hresult]
  rfl

end UnitScript
