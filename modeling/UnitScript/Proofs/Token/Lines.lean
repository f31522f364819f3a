import UnitScript.Proofs.Places.Relocate
import UnitScript.Proofs.Token.Lexer

/-!
# Tokens line by line

A text of two parts that a newline separates has the lines of the first part, closed by that
newline, and then those of the second (`Text.lines_append_newline_append`). The newline may close
a line that the first part leaves open, where it can turn a last carriage return into a part of the
line end, or else it makes an empty line (`Text.lines_append_newline`); the tokens are the same
either way. So the tokens of the whole are those of the first part, up to the end of the text, and
those of the second part further down (`Token.ofText_append_newline`).
-/

namespace UnitScript

/-! ## Pieces and lines -/

namespace Text

theorem pieces_cons_newline (cs : List Char) : pieces ('\n' :: cs) = ['\n'] :: pieces cs := by
  rw [pieces, List.foldr_cons, if_pos rfl, ← pieces]

theorem pieces_cons_of_nil {c : Char} {cs : List Char} (hc : c ≠ '\n') (h : pieces cs = []) :
    pieces (c :: cs) = [[c]] := by
  rw [pieces, List.foldr_cons, if_neg hc, ← pieces, h]

theorem pieces_cons_of_cons {c : Char} {cs piece : List Char} {others : List (List Char)}
    (hc : c ≠ '\n') (h : pieces cs = piece :: others) :
    pieces (c :: cs) = (c :: piece) :: others := by
  rw [pieces, List.foldr_cons, if_neg hc, ← pieces, h]

/-- A text that is not empty has a first piece. -/
theorem exists_pieces_eq_cons {cs : List Char} (h : cs ≠ []) :
    ∃ piece others, pieces cs = piece :: others := by
  refine List.exists_cons_of_ne_nil fun hnil => h ?_
  rw [← flatten_pieces cs, hnil, List.flatten_nil]

/-- A newline ends a piece (`pieces`), whatever follows it. -/
theorem pieces_append_newline_append (a b : List Char) :
    pieces (a ++ '\n' :: b) = pieces (a ++ ['\n']) ++ pieces b := by
  induction a with
  | nil => exact pieces_cons_newline b
  | cons c a ih =>
    rw [List.cons_append, List.cons_append]
    by_cases hc : c = '\n'
    · subst hc
      rw [pieces_cons_newline, pieces_cons_newline, ih, List.cons_append]
    · obtain ⟨piece, others, hpieces⟩ :=
        exists_pieces_eq_cons (List.append_ne_nil_of_right_ne_nil a (List.cons_ne_nil '\n' []))
      rw [pieces_cons_of_cons hc hpieces]
      rw [hpieces, List.cons_append] at ih
      rw [pieces_cons_of_cons hc ih, List.cons_append]

/-- A text that a newline closes has as many pieces as newlines. -/
theorem length_pieces_append_newline (a : List Char) :
    (pieces (a ++ ['\n'])).length = a.count '\n' + 1 := by
  induction a with
  | nil => rfl
  | cons c a ih =>
    rw [List.cons_append]
    by_cases hc : c = '\n'
    · subst hc
      rw [pieces_cons_newline, List.length_cons, ih, List.count_cons_self]
    · obtain ⟨piece, others, hpieces⟩ :=
        exists_pieces_eq_cons (List.append_ne_nil_of_right_ne_nil a (List.cons_ne_nil '\n' []))
      rw [hpieces] at ih
      rw [pieces_cons_of_cons hc hpieces, List.count_cons_of_ne hc, ← ih, List.length_cons,
        List.length_cons]

/-- A newline behind a text makes a piece of its own, or ends one that was open. -/
theorem pieces_append_newline (a : List Char) :
    pieces (a ++ ['\n']) = pieces a ++ [['\n']] ∨
      ∃ init last, '\n' ∉ last ∧ pieces a = init ++ [last] ∧
        pieces (a ++ ['\n']) = init ++ [last ++ ['\n']] := by
  induction a with
  | nil => exact .inl rfl
  | cons c a ih =>
    rw [List.cons_append]
    by_cases hc : c = '\n'
    · subst hc
      rw [pieces_cons_newline, pieces_cons_newline]
      rcases ih with h | ⟨init, last, hlast, h, h'⟩
      · exact .inl (by rw [h, List.cons_append])
      · exact .inr ⟨['\n'] :: init, last, hlast, by rw [h, List.cons_append],
          by rw [h', List.cons_append]⟩
    · rcases ih with h | ⟨init, last, hlast, h, h'⟩
      · cases hpieces : pieces a with
        | nil =>
          rw [hpieces, List.nil_append] at h
          rw [pieces_cons_of_nil hc hpieces, pieces_cons_of_cons hc h]
          exact .inr ⟨[], [c], by simpa using Ne.symm hc, rfl, rfl⟩
        | cons piece others =>
          rw [hpieces, List.cons_append] at h
          rw [pieces_cons_of_cons hc hpieces, pieces_cons_of_cons hc h]
          exact .inl rfl
      · cases init with
        | nil =>
          rw [pieces_cons_of_cons hc h, pieces_cons_of_cons hc h']
          exact .inr ⟨[], c :: last, by simpa [Ne.symm hc] using hlast, rfl, rfl⟩
        | cons piece init =>
          rw [pieces_cons_of_cons hc h, pieces_cons_of_cons hc h']
          exact .inr ⟨(c :: piece) :: init, last, hlast, rfl, rfl⟩

/-- A piece without a newline is a line as it is. -/
theorem trimNewline_of_notMem {piece : List Char} (h : '\n' ∉ piece) :
    trimNewline piece = piece :=
  if_neg fun hlast => h (List.mem_of_getLast? hlast)

/-- A text without a newline is one line, unless it is empty. -/
theorem lines_of_notMem {cs : List Char} (hne : cs ≠ []) (h : '\n' ∉ cs) : lines cs = [cs] := by
  have hpieces : pieces cs = [cs] := by
    induction cs with
    | nil => exact absurd rfl hne
    | cons c cs ih =>
      obtain ⟨hc, hcs⟩ := not_or.1 (mt List.mem_cons.2 h)
      cases cs with
      | nil => exact pieces_cons_of_nil (Ne.symm hc) rfl
      | cons d cs => exact pieces_cons_of_cons (Ne.symm hc) (ih (List.cons_ne_nil _ _) hcs)
  rw [lines, hpieces, List.map_singleton, trimNewline_of_notMem h]

/-- A line is what stands in front of the newline, or of a carriage return in front of that. -/
theorem trimNewline_append_newline (line : List Char) :
    trimNewline (line ++ ['\n']) = line ∨
      line = trimNewline (line ++ ['\n']) ++ ['\r'] := by
  have htrim : trimNewline (line ++ ['\n']) =
      if line.getLast? = some '\r' then line.dropLast else line := by
    rw [trimNewline, if_pos List.getLast?_concat, List.dropLast_concat]
  rw [htrim]
  split
  · next hlast =>
    obtain ⟨others, rfl⟩ := List.getLast?_eq_some_iff.1 hlast
    exact .inr (by rw [List.dropLast_concat])
  · exact .inl rfl

/-- A newline closes a line, whatever follows it: `lines` cuts what is behind as a text of its
own. -/
theorem lines_append_newline_append (a b : List Char) :
    lines (a ++ '\n' :: b) = lines (a ++ ['\n']) ++ lines b := by
  rw [lines, lines, lines, pieces_append_newline_append, List.map_append]

/-- A text that a newline closes has as many lines as newlines. -/
theorem length_lines_append_newline (a : List Char) :
    (lines (a ++ ['\n'])).length = a.count '\n' + 1 := by
  rw [lines, List.length_map, length_pieces_append_newline]

/-- A line that a newline closes is one line. -/
theorem lines_append_newline_of_notMem {line : List Char} (h : '\n' ∉ line) :
    lines (line ++ ['\n']) = [trimNewline (line ++ ['\n'])] := by
  have hlength := length_pieces_append_newline line
  rw [List.count_eq_zero_of_not_mem h] at hlength
  obtain ⟨piece, hpiece⟩ := List.length_eq_one_iff.1 hlength
  have hflatten := flatten_pieces (line ++ ['\n'])
  rw [hpiece, List.flatten_singleton] at hflatten
  rw [lines, hpiece, hflatten, List.map_singleton]

/-- The first line of a text. -/
theorem lines_of_first {line : List Char} (h : '\n' ∉ line) (text : List Char) :
    lines (line ++ '\n' :: text) = trimNewline (line ++ ['\n']) :: lines text := by
  rw [lines_append_newline_append, lines_append_newline_of_notMem h, List.singleton_append]

/-- A newline behind a text makes an empty line, or closes the last line, which may lose a carriage
return. -/
theorem lines_append_newline (a : List Char) :
    lines (a ++ ['\n']) = lines a ++ [[]] ∨
      ∃ init last line, lines a = init ++ [last] ∧ lines (a ++ ['\n']) = init ++ [line] ∧
        (line = last ∨ last = line ++ ['\r']) := by
  rcases pieces_append_newline a with h | ⟨init, last, hlast, h, h'⟩
  · refine .inl ?_
    rw [lines, h, List.map_append]
    rfl
  · refine .inr ⟨init.map trimNewline, last, trimNewline (last ++ ['\n']), ?_, ?_,
      trimNewline_append_newline last⟩
    · rw [lines, h, List.map_append, List.map_singleton, trimNewline_of_notMem hlast]
    · rw [lines, h', List.map_append, List.map_singleton]

/-- Pieces have no newline in front of their last character. -/
theorem notMem_dropLast_of_mem_pieces {cs piece : List Char} (h : piece ∈ pieces cs) :
    '\n' ∉ piece.dropLast := by
  induction cs generalizing piece with
  | nil => cases h
  | cons c cs ih =>
    by_cases hc : c = '\n'
    · subst hc
      rw [pieces_cons_newline] at h
      rcases List.mem_cons.1 h with rfl | h
      · exact List.not_mem_nil
      · exact ih h
    · cases hpieces : pieces cs with
      | nil =>
        rw [pieces_cons_of_nil hc hpieces] at h
        cases List.mem_singleton.1 h
        exact List.not_mem_nil
      | cons first others =>
        rw [pieces_cons_of_cons hc hpieces] at h
        rw [hpieces] at ih
        rcases List.mem_cons.1 h with rfl | h
        · intro hmem
          cases first with
          | nil => cases hmem
          | cons d first =>
            rw [List.dropLast_cons_cons] at hmem
            rcases List.mem_cons.1 hmem with heq | hmem
            · exact hc heq.symm
            · exact ih List.mem_cons_self hmem
        · exact ih (List.mem_cons_of_mem _ h)

/-- Lines have no newlines. -/
theorem notMem_of_mem_lines {cs line : List Char} (h : line ∈ lines cs) : '\n' ∉ line := by
  obtain ⟨piece, hpiece, rfl⟩ := List.mem_map.1 h
  have hfront := notMem_dropLast_of_mem_pieces hpiece
  intro hmem
  rw [trimNewline] at hmem
  split at hmem
  · dsimp only at hmem
    split at hmem
    · exact hfront ((List.dropLast_sublist _).subset hmem)
    · exact hfront hmem
  · next hlast =>
    obtain ⟨front, last, rfl⟩ :=
      (List.eq_nil_or_concat piece).resolve_left (List.ne_nil_of_mem hmem)
    rw [List.concat_eq_append] at *
    rw [List.dropLast_concat] at hfront
    rw [List.getLast?_concat] at hlast
    rcases List.mem_append.1 hmem with hmem | hmem
    · exact hfront hmem
    · exact hlast (congrArg some (List.mem_singleton.1 hmem).symm)

end Text

/-! ## Rows of tokens -/

/-- The same lexical error elsewhere: the character stays, its position is moved. -/
def LexError.relocate (f : Position → Position) (e : LexError) : LexError :=
  ⟨e.character, f e.position⟩

namespace Token

/-- The tokens of the lines from a row on, without the one for the end of the text that `ofLines`
puts behind them. -/
def ofRows (row : Nat) : List (List Char) → Except LexError (List Token)
  | [] => .ok []
  | line :: lines => do
    let tokens ← ofLine ⟨row, 0⟩ line
    let others ← ofRows (row + 1) lines
    return tokens ++ others

/-- The token for the end of a text whose lines (`Text.lines`) end in front of a row. -/
def atEnd (row : Nat) : Token := ⟨.endOfText, none, .point ⟨row, 0⟩⟩

/-- Lines are read in two stages. -/
theorem ofLines_append (row : Nat) (as bs : List (List Char)) :
    ofLines row (as ++ bs) = do
      let tokens ← ofRows row as
      let others ← ofLines (row + as.length) bs
      return tokens ++ others := by
  induction as generalizing row with
  | nil => exact (bind_pure (ofLines row bs)).symm
  | cons line as ih =>
    simp only [List.cons_append, ofLines, ofRows, ih, bind_assoc, pure_bind, List.append_assoc,
      List.length_cons, Nat.add_right_comm row 1, Nat.add_assoc]

/-- The rows of a text are closed by the token for its end. -/
theorem ofLines_eq (row : Nat) (lines : List (List Char)) :
    ofLines row lines = do
      let tokens ← ofRows row lines
      return tokens ++ [atEnd (row + lines.length)] := by
  have := ofLines_append row lines []
  rwa [List.append_nil] at this

/-- Rows are read in two stages. -/
theorem ofRows_append (row : Nat) (as bs : List (List Char)) :
    ofRows row (as ++ bs) = do
      let tokens ← ofRows row as
      let others ← ofRows (row + as.length) bs
      return tokens ++ others := by
  induction as generalizing row with
  | nil => exact (bind_pure (ofRows row bs)).symm
  | cons line as ih =>
    simp only [List.cons_append, ofRows, ih, bind_assoc, pure_bind, List.append_assoc,
      List.length_cons, Nat.add_right_comm row 1, Nat.add_assoc]

/-- A token of a row is one of a line. -/
theorem exists_ofLine_of_mem_ofRows {row : Nat} {lines : List (List Char)} {tokens : List Token}
    (h : ofRows row lines = .ok tokens) {token : Token} (hmem : token ∈ tokens) :
    ∃ line ∈ lines, ∃ position others, ofLine position line = .ok others ∧ token ∈ others := by
  induction lines generalizing row tokens with
  | nil =>
    cases h
    cases hmem
  | cons line lines ih =>
    rw [ofRows] at h
    obtain ⟨front, hline, h⟩ := Except.bind_eq_ok.1 h
    obtain ⟨others, hlines, h⟩ := Except.bind_eq_ok.1 h
    cases h
    rcases List.mem_append.1 hmem with hfront | hothers
    · exact ⟨line, List.mem_cons_self, _, _, hline, hfront⟩
    · obtain ⟨other, hmem, hother⟩ := ih hlines hothers
      exact ⟨other, List.mem_cons_of_mem _ hmem, hother⟩

/-- The tokens of a text are made of lexemes, and one more stands for the end of the text. -/
theorem exists_of_ofText {cs : List Char} {tokens : List Token} (h : ofText cs = .ok tokens) :
    ∃ front row, tokens = front ++ [atEnd row] ∧ ∀ token ∈ front,
      ∃ lexeme place rest, lexeme? rest = some lexeme ∧ lexeme.kind ≠ .blank ∧
        token = ofLexeme lexeme place rest := by
  rw [ofText, ofLines_eq] at h
  obtain ⟨front, hrows, h⟩ := Except.bind_eq_ok.1 h
  cases h
  refine ⟨front, _, rfl, fun token hmem => ?_⟩
  obtain ⟨line, -, position, others, hline, hothers⟩ := exists_ofLine_of_mem_ofRows hrows hmem
  exact exists_lexeme_of_mem_ofLine hline hothers

/-- A line has the same tokens once it has been closed. -/
theorem ofLine_trimNewline (position : Position) (line : List Char) :
    ofLine position (Text.trimNewline (line ++ ['\n'])) = ofLine position line := by
  rcases Text.trimNewline_append_newline line with h | h
  · rw [h]
  · have hreturn := ofLine_append_return position (Text.trimNewline (line ++ ['\n']))
    rw [← h] at hreturn
    exact hreturn.symm

/-- A newline behind a text adds no tokens. -/
theorem ofRows_lines_append_newline (row : Nat) (a : List Char) :
    ofRows row (Text.lines (a ++ ['\n'])) = ofRows row (Text.lines a) := by
  rcases Text.lines_append_newline a with h | ⟨init, last, line, h, h', hline⟩
  · have hempty : ofRows (row + (Text.lines a).length) [[]] = .ok [] := by
      rw [ofRows, ofLine]
      rfl
    rw [h, ofRows_append, hempty]
    cases ofRows row (Text.lines a) with
    | error e => rfl
    | ok tokens => exact congrArg Except.ok (List.append_nil tokens)
  · have hsame (position : Position) : ofLine position line = ofLine position last := by
      rcases hline with rfl | rfl
      · rfl
      · exact (ofLine_append_return position line).symm
    simp only [h, h', ofRows_append, ofRows, hsame]

/-! ## Further down -/

/-- The same tokens elsewhere, or the same error. -/
def relocateRead (f : Position → Position) :
    Except LexError (List Token) → Except LexError (List Token)
  | .ok tokens => .ok (tokens.map (·.relocate f))
  | .error e => .error (e.relocate f)

/-- A line has the same tokens wherever it stands. -/
theorem ofLine_down (rows : Nat) (position : Position) (cs : List Char) :
    ofLine (position.down rows) cs =
      relocateRead (Position.down rows) (ofLine position cs) := by
  induction cs using line_induction generalizing position with
  | nil =>
    rw [ofLine, ofLine]
    rfl
  | none c rest hnone =>
    rw [ofLine_of_none hnone, ofLine_of_none hnone]
    rfl
  | some cs lexeme hcs hlexeme ih =>
    have htoken : ofLexeme lexeme (position.down rows) cs =
        (ofLexeme lexeme position cs).relocate (Position.down rows) := rfl
    have hstop : (ofLexeme lexeme (position.down rows) cs).span.stop =
        (ofLexeme lexeme position cs).span.stop.down rows := rfl
    rw [ofLine_of_lexeme? hlexeme hcs, ofLine_of_lexeme? hlexeme hcs, hstop, ih, htoken]
    cases ofLine (ofLexeme lexeme position cs).span.stop (cs.drop lexeme.length) with
    | error e => rfl
    | ok others =>
      show Except.ok _ = Except.ok _
      split <;> rfl

/-- Lines have the same tokens wherever they stand. -/
theorem ofLines_down (rows row : Nat) (lines : List (List Char)) :
    ofLines (row + rows) lines = relocateRead (Position.down rows) (ofLines row lines) := by
  induction lines generalizing row with
  | nil => rfl
  | cons line lines ih =>
    have hline := ofLine_down rows ⟨row, 0⟩ line
    rw [ofLines, ofLines, Nat.add_right_comm, ih]
    rw [Position.down] at hline
    rw [hline]
    cases ofLine ⟨row, 0⟩ line with
    | error e => rfl
    | ok tokens =>
      cases ofLines (row + 1) lines with
      | error e => rfl
      | ok others => exact congrArg Except.ok List.map_append.symm

/-- A text of two parts has the tokens of the first, up to its end, and those of the second further
down (`relocateRead`). It is rejected where the first part that is rejected is. -/
theorem ofText_append_newline (a b : List Char) :
    ofText (a ++ '\n' :: b) = do
      let tokens ← ofText a
      let others ← relocateRead (Position.down (a.count '\n' + 1)) (ofText b)
      return tokens.dropLast ++ others := by
  rw [ofText, ofText, ofText, Text.lines_append_newline_append, ofLines_append,
    ofRows_lines_append_newline, Text.length_lines_append_newline, ofLines_down,
    ofLines_eq 0 (Text.lines a)]
  cases ofRows 0 (Text.lines a) with
  | error e => rfl
  | ok tokens =>
    have hdrop : (tokens ++ [atEnd (0 + (Text.lines a).length)]).dropLast = tokens :=
      List.dropLast_concat
    simp only [Except.bind, Except.pure, pure, bind, hdrop]

end Token

end UnitScript
