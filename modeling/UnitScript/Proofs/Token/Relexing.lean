import UnitScript.Proofs.Places.Layout
import UnitScript.Proofs.Token.Lossless

/-!
# Writing tokens and reading them again

The tokens of a text can be written on one line, each as it shows itself and one blank between any
two (`Token.written`). All of them are spelled (`Token.spelled_of_ofText`): where a reserved word
would be taken for a name the text is rejected, so that no name is a reserved word. A blank goes on
with no token, and for that reason the line is read as the same tokens again (`Token.relexing`).
-/

namespace UnitScript

namespace Token

variable {cs : List Char} {tokens : List Token}

/-- A token shows itself (`Token.text`) as it was written. -/
theorem ReadFrom.text_eq {token : Token} {text : List Char} (h : token.ReadFrom text) :
    token.text.toList = text := by
  cases hbears : token.kind.bearsValue with
  | true =>
    simp only [Token.text, h.kept hbears, if_neg h.visible.2, String.toList_ofList]
  | false =>
    obtain ⟨hvalue, htext⟩ := h.fixed hbears
    simp only [Token.text, hvalue, htext]

/-- The tokens of a line are spelled, and made of its characters. -/
theorem spelled_of_ofLine {position : Position} (h : ofLine position cs = .ok tokens) :
    ∀ token ∈ tokens, ∃ text, token.ReadFrom text ∧ Spelled token.kind text ∧ text ⊆ cs := by
  induction cs using line_induction generalizing position tokens with
  | nil =>
    rw [ofLine] at h
    cases h
    exact List.forall_mem_nil _
  | none c rest hnone =>
    rw [ofLine_of_none hnone] at h
    cases h
  | some cs lexeme hcs hlexeme ih =>
    rw [ofLine_of_lexeme? hlexeme hcs] at h
    obtain ⟨others, hothers, h⟩ := Except.bind_eq_ok.1 h
    cases h
    have hrest : ∀ token ∈ others, ∃ text,
        token.ReadFrom text ∧ Spelled token.kind text ∧ text ⊆ cs := fun token hmem => by
      obtain ⟨text, hread, hspelled, hsubset⟩ := ih hothers token hmem
      exact ⟨text, hread, hspelled, fun c hc => List.drop_subset _ _ (hsubset hc)⟩
    split
    · exact hrest
    · next hkind =>
      refine List.forall_mem_cons.2
        ⟨⟨_, readFrom_ofLexeme hlexeme hkind, ?_, List.take_subset _ _⟩, hrest⟩
      rcases spelled_of_lexeme? hlexeme hkind with hspelled | ⟨c, rest, hdrop, hnone⟩
      · exact hspelled
      · rw [hdrop, ofLine_of_none hnone] at hothers
        cases hothers

/-- The tokens of a text but the last one are `Spelled`, and hold no newline. -/
theorem spelled_of_ofText (h : ofText cs = .ok tokens) : ∀ token ∈ tokens.dropLast, ∃ text,
    token.ReadFrom text ∧ Spelled token.kind text ∧ '\n' ∉ text := by
  rw [ofText, ofLines_eq] at h
  obtain ⟨front, hrows, h⟩ := Except.bind_eq_ok.1 h
  cases h
  rw [List.dropLast_concat]
  intro token hmem
  obtain ⟨line, hmem, _, others, hline, hothers⟩ := exists_ofLine_of_mem_ofRows hrows hmem
  obtain ⟨text, hread, hspelled, hsubset⟩ := spelled_of_ofLine hline token hothers
  exact ⟨text, hread, hspelled, fun hnewline => Text.notMem_of_mem_lines hmem (hsubset hnewline)⟩

end Token

/-- A name that is `Spelled` is no reserved word (`Reserved`). -/
theorem Spelled.not_reserved {text : List Char} (h : Spelled .identifier text) :
    ¬ Reserved text := by
  generalize hkind : TokenKind.identifier = kind at h
  cases h with
  | word hmem | mark hmem => exact absurd (hkind ▸ hmem) (by decide)
  | name _ _ hreserved => exact hreserved
  | decimal | integer | character | quoted => cases hkind

/-- A blank goes on with no token. -/
theorem TokenKind.goesOn_blank (kind : TokenKind) : kind.goesOn ' ' = false := by
  cases kind <;> decide

/-! ## One line -/

namespace Token

variable {cs : List Char} {tokens : List Token}

/-- Tokens on one line by their texts (`Token.text`), with a blank between any two and without the
one for the end of the text. -/
def written (tokens : List Token) : List Char :=
  [' '].intercalate (tokens.dropLast.map (·.text.toList))

/-- One blank in front of another character is left out. -/
theorem lexeme?_blank {c : Char} (hc : Pattern.isBlank c = false) :
    lexeme? (' ' :: c :: cs) = some ⟨.blank, 1⟩ := by
  have hstop : ∀ d ∈ (c :: cs).head?, Pattern.isBlank d = false := by
    rintro d hd
    cases hd
    exact hc
  have hrun : Pattern.run Pattern.isBlank ([' '] ++ c :: cs) = [' '].length :=
    Pattern.run_append (List.forall_mem_singleton.2 rfl) hstop
  rw [List.singleton_append] at hrun
  have hrule : Rule.length? ⟨.blanks, .blank, .free⟩ (' ' :: c :: cs) = some 1 :=
    Rule.length?_eq_some_iff.2 ⟨by rw [Pattern.length?, hrun]; rfl, fun _ _ => rfl⟩
  simp only [lexeme?, Rule.all, List.findSome?_cons, hrule, Option.map_some]

/-- A token that is `Spelled` is read again, in front of what does not go on with it
(`TokenKind.goesOn`). -/
theorem ofLine_append (position : Position) {token : Token} {text tail : List Char}
    (hread : token.ReadFrom text) (hspelled : Spelled token.kind text)
    (htail : ∀ c ∈ tail.head?, token.kind.goesOn c = false) {others : List Token}
    (h : ofLine ⟨position.row, position.column + text.length⟩ tail = .ok others) :
    ∃ again, token.alike again = true ∧ ofLine position (text ++ tail) = .ok (again :: others) := by
  obtain ⟨c, cs, rfl, -⟩ := hspelled.head
  have hlexeme := lexeme?_of_spelled hspelled htail
  refine ⟨ofLexeme ⟨token.kind, (c :: cs).length⟩ position (c :: cs ++ tail), ?_, ?_⟩
  · rw [alike, Bool.and_eq_true]
    refine ⟨beq_self_eq_true _, ?_⟩
    cases hbears : token.kind.bearsValue with
    | true =>
      rw [hread.kept hbears, ofLexeme, if_pos hbears, List.take_left]
      exact beq_self_eq_true _
    | false => rfl
  · rw [ofLine_of_lexeme? hlexeme (List.cons_ne_nil _ _), List.drop_left]
    simp only [ofLexeme, h, hread.visible.1, if_false]
    rfl

/-- A blank in front of another character is left out. -/
theorem ofLine_blank {position : Position} {c : Char} (hc : Pattern.isBlank c = false) :
    ofLine position (' ' :: c :: cs) = ofLine ⟨position.row, position.column + 1⟩ (c :: cs) := by
  rw [ofLine_of_lexeme? (lexeme?_blank hc) (List.cons_ne_nil _ _), ofLexeme, List.drop_one,
    List.tail_cons]
  exact bind_pure _

/-- Tokens that are `Spelled` are read again where they are written with one blank between any
two. -/
theorem ofLine_intercalate (position : Position)
    (h : ∀ token ∈ tokens, ∃ text, token.ReadFrom text ∧ Spelled token.kind text) :
    ∃ others, allAlike tokens others = true ∧
      ofLine position ([' '].intercalate (tokens.map (·.text.toList))) = .ok others := by
  induction tokens generalizing position with
  | nil => exact ⟨[], rfl, by rw [List.map_nil, List.intercalate_nil, ofLine]⟩
  | cons token tokens ih =>
    obtain ⟨⟨text, hread, hspelled⟩, htokens⟩ := List.forall_mem_cons.1 h
    cases tokens with
    | nil =>
      have hend : ofLine ⟨position.row, position.column + text.length⟩ [] = .ok [] := by
        rw [ofLine]
      have hnone : ∀ c ∈ ([] : List Char).head?, token.kind.goesOn c = false := by
        intro c hc
        cases hc
      obtain ⟨again, halike, hagain⟩ := ofLine_append position hread hspelled hnone hend
      refine ⟨[again], by rw [allAlike, halike]; rfl, ?_⟩
      rwa [List.map_singleton, List.intercalate_singleton, hread.text_eq, ← List.append_nil text]
    | cons next tokens =>
      obtain ⟨text', hread', hspelled'⟩ := htokens next List.mem_cons_self
      obtain ⟨c, cs, htext', hblank, -⟩ := hspelled'.head
      obtain ⟨others, halikes, hothers⟩ :=
        ih ⟨position.row, position.column + text.length + 1⟩ htokens
      obtain ⟨rest, hrest⟩ : ∃ rest,
          [' '].intercalate ((next :: tokens).map (·.text.toList)) = c :: rest := by
        rw [List.map_cons, hread'.text_eq, htext']
        cases tokens with
        | nil => exact ⟨cs, by rw [List.map_nil, List.intercalate_singleton]⟩
        | cons => exact ⟨_, by rw [List.map_cons, List.intercalate_cons_cons, List.append_assoc,
            List.cons_append]⟩
      have hgoesOn : ∀ d ∈ (' ' :: c :: rest).head?, token.kind.goesOn d = false := by
        rintro d hd
        cases hd
        exact token.kind.goesOn_blank
      obtain ⟨again, halike, hagain⟩ := ofLine_append position hread hspelled hgoesOn
        (by rw [ofLine_blank hblank, ← hrest]; exact hothers)
      refine ⟨again :: others, by rw [allAlike, halike, halikes]; rfl, ?_⟩
      rw [List.map_cons, List.map_cons, List.intercalate_cons_cons, hread.text_eq]
      rw [List.map_cons] at hrest
      rwa [hrest, List.append_assoc, List.singleton_append]

/-- A line of texts without newlines has none. -/
theorem notMem_intercalate {texts : List (List Char)} (h : ∀ text ∈ texts, '\n' ∉ text) :
    '\n' ∉ [' '].intercalate texts := by
  induction texts with
  | nil => exact List.not_mem_nil
  | cons text texts ih =>
    obtain ⟨htext, htexts⟩ := List.forall_mem_cons.1 h
    cases texts with
    | nil => rwa [List.intercalate_singleton]
    | cons next texts =>
      rw [List.intercalate_cons_cons, List.append_assoc, List.mem_append, List.mem_append]
      rintro (hmem | hmem | hmem)
      · exact htext hmem
      · exact absurd hmem (by decide)
      · exact ih htexts hmem

/-- Lists of alike tokens may be put together. -/
theorem allAlike_append {as bs as' bs' : List Token} (h : allAlike as bs = true)
    (h' : allAlike as' bs' = true) : allAlike (as ++ as') (bs ++ bs') = true := by
  induction as generalizing bs with
  | nil =>
    cases bs with
    | nil => exact h'
    | cons => cases h
  | cons a as ih =>
    cases bs with
    | nil => cases h
    | cons b bs =>
      obtain ⟨hab, h⟩ := (Bool.and_eq_true _ _).mp h
      exact (Bool.and_eq_true _ _).mpr ⟨hab, ih h⟩

/-- A line without newlines is a text whose tokens are those of the line. -/
theorem ofText_of_ofLine (hline : '\n' ∉ cs) (h : ofLine .origin cs = .ok tokens) :
    ∃ row, ofText cs = .ok (tokens ++ [atEnd row]) := by
  cases cs with
  | nil =>
    rw [ofLine] at h
    cases h
    exact ⟨0, rfl⟩
  | cons c cs =>
    refine ⟨1, ?_⟩
    rw [ofText, Text.lines_of_notMem (List.cons_ne_nil _ _) hline, ofLines]
    rw [Position.origin] at h
    rw [h]
    rfl

/-- The tokens of a text are read again, apart from their places (`allAlike`), where they are
`written` on one line with a blank between any two. No name among them is a reserved word
(`Reserved`). -/
theorem relexing (h : ofText cs = .ok tokens) :
    (∃ others, ofText (written tokens) = .ok others ∧ allAlike tokens others = true) ∧
      ∀ token ∈ tokens, token.kind = .identifier → ¬ Reserved token.lexeme.toList := by
  have hspelled := spelled_of_ofText h
  obtain ⟨front, row, rfl, -⟩ := exists_of_ofText h
  rw [List.dropLast_concat] at hspelled
  refine ⟨?_, fun token hmem hkind => ?_⟩
  · have hnewline : '\n' ∉ written (front ++ [atEnd row]) := by
      refine notMem_intercalate (List.forall_mem_map.2 fun token hmem => ?_)
      rw [List.dropLast_concat] at hmem
      obtain ⟨text, hread, -, hnewline⟩ := hspelled token hmem
      rwa [hread.text_eq]
    obtain ⟨others, halike, hothers⟩ := ofLine_intercalate .origin fun token hmem => by
      obtain ⟨text, hread, hspelled, -⟩ := hspelled token hmem
      exact ⟨text, hread, hspelled⟩
    rw [written, List.dropLast_concat] at hnewline ⊢
    obtain ⟨row', hrow⟩ := ofText_of_ofLine hnewline hothers
    exact ⟨_, hrow, allAlike_append halike rfl⟩
  · rcases List.mem_append.1 hmem with hmem | hmem
    · obtain ⟨text, hread, hspelled, -⟩ := hspelled token hmem
      rw [hkind] at hspelled
      rw [lexeme, hread.kept (hkind ▸ rfl), Option.getD_some, String.toList_ofList]
      exact hspelled.not_reserved
    · cases List.mem_singleton.1 hmem
      cases hkind

/-- A text whose tokens stand side by side on two lines: words, marks, numbers, and quotes with an
accent in one. -/
def crowdedText : List Char := "if(ifx>=10.5)\n".toList ++ "\x7bx=\"a b\"->'é';\x7d".toList

/-- The tokens of `crowdedText` are read again from one line, and no name among them is a reserved
word. -/
theorem crowdedText_relexing : ∃ tokens, ofText crowdedText = .ok tokens ∧
    (∃ others, ofText (written tokens) = .ok others ∧ allAlike tokens others = true) ∧
      ∀ token ∈ tokens, token.kind = .identifier → ¬ Reserved token.lexeme.toList := by
  have hread : ∃ tokens, ofText crowdedText = .ok tokens := by
    have hlines : Text.lines crowdedText =
        ["if(ifx>=10.5)".toList, "\x7bx=\"a b\"->'é';\x7d".toList] := by decide
    simp only [Token.ofText, hlines, Token.ofLines, Token.ofLine_eq_upTo]
    exact ⟨_, rfl⟩
  obtain ⟨tokens, htokens⟩ := hread
  exact ⟨tokens, htokens, relexing htokens⟩

end Token

end UnitScript
