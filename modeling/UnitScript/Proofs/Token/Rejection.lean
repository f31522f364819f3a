import UnitScript.Proofs.Token.Linewise
import UnitScript.Proofs.Token.LongestMatch
import UnitScript.Proofs.Token.Relexing

/-!
# Where texts are rejected

A text is rejected for a character at a place, and `RejectedAt` says what this tells about the text.
There is such a character, and no rule applies in front of it; all lines above it can be read, and
so can the text up to it (`Token.rejectedAt`).

The last of these is not plain from how a line is read, since the rest of a line helps to decide
what stands in front of it. Cut off the rest, and a reserved word may become a name, or a number too
short. But what was read can still be read, and if more of it can be taken than before then all
that is left is (`Token.lexeme?_front`).
-/

namespace UnitScript

/-! ## Cutting off the rest of a line -/

namespace Rule

variable {rule : Rule} {text tail : List Char} {n : Nat}

/-- A rule still applies where the rest is cut off behind what it applies to. -/
theorem Applies.of_append (h : rule.Applies (text ++ tail) n) (hn : n ≤ text.length) :
    rule.Applies text n where
  within := hn
  described := by
    rw [← List.take_append_of_le_length hn]
    exact h.described
  follows c hc := by
    refine h.follows c ?_
    rw [List.drop_append_of_le_length hn, List.head?_append, Option.mem_def.1 hc]
    rfl

/-- A rule still applies where a rest is put behind the character that follows. -/
theorem Applies.append (h : rule.Applies text n) (hn : n < text.length) (tail : List Char) :
    rule.Applies (text ++ tail) n where
  within := by
    rw [List.length_append]
    omega
  described := by
    rw [List.take_append_of_le_length h.within]
    exact h.described
  follows c hc := by
    refine h.follows c ?_
    obtain ⟨d, rest, hdrop⟩ := List.exists_cons_of_ne_nil
      (fun hnil => Nat.not_le.2 hn (List.drop_eq_nil_iff.1 hnil) : text.drop n ≠ [])
    rw [List.drop_append_of_le_length h.within, hdrop] at hc
    rwa [hdrop]

end Rule

namespace Token

/-- In front of a text whose rest is cut off behind a lexeme (`lexeme?`), one of the same length
stands, or one that takes all that is left. -/
theorem lexeme?_front {text tail : List Char} {lexeme : Lexeme}
    (h : lexeme? (text ++ tail) = some lexeme) (hle : lexeme.length ≤ text.length) :
    ∃ other, lexeme? text = some other ∧
      (other.length = lexeme.length ∨ other.length = text.length) := by
  obtain ⟨rule, hwins, -⟩ := wins_of_lexeme? h
  have happlies := hwins.applies.of_append hle
  cases hother : lexeme? text with
  | none => exact absurd happlies (lexeme?_eq_none_iff.1 hother rule hwins.mem _)
  | some other =>
    obtain ⟨winner, hwinner, -⟩ := wins_of_lexeme? hother
    have hge := hwinner.longest rule hwins.mem _ happlies
    refine ⟨other, rfl, ?_⟩
    rcases Nat.lt_or_ge other.length text.length with hlt | hall
    · -- What takes less than all that is left applies with the rest too.
      have hle' := hwins.longest winner hwinner.mem _ (hwinner.applies.append hlt tail)
      exact .inl (Nat.le_antisymm hle' hge)
    · exact .inr (Nat.le_antisymm (lexeme?_length_le hother) hall)

/-- A part of a line that begins with a lexeme can be read (`Token.ofLine`) if what is behind that
can. -/
theorem exists_ofLine_of_front {position : Position} {text tail : List Char} {lexeme : Lexeme}
    {tokens : List Token} (h : lexeme? (text ++ tail) = some lexeme)
    (hle : lexeme.length ≤ text.length)
    (hrest : ofLine ⟨position.row, position.column + lexeme.length⟩ (text.drop lexeme.length) =
      .ok tokens) : ∃ others, ofLine position text = .ok others := by
  have hne : text ≠ [] :=
    List.ne_nil_of_length_pos (Nat.lt_of_lt_of_le (lexeme?_length_pos h) hle)
  obtain ⟨other, hother, hlength⟩ := lexeme?_front h hle
  rw [ofLine_of_lexeme? hother hne]
  rcases hlength with hsame | hall
  · have hstop : (ofLexeme other position text).span.stop =
        ⟨position.row, position.column + lexeme.length⟩ := by
      rw [ofLexeme, hsame]
    rw [hstop, hsame, hrest]
    exact ⟨_, rfl⟩
  · rw [hall, List.drop_length, ofLine]
    exact ⟨_, rfl⟩

/-- A line is rejected at a character in front of which there is no lexeme (`lexeme?`), and up to
there it can be read. -/
theorem exists_front_of_ofLine_error {position : Position} {cs : List Char} {e : LexError}
    (h : ofLine position cs = .error e) :
    ∃ front rest, cs = front ++ e.character :: rest ∧
      e.position = ⟨position.row, position.column + front.length⟩ ∧
      lexeme? (e.character :: rest) = none ∧ ∃ tokens, ofLine position front = .ok tokens := by
  induction cs using line_induction generalizing position with
  | nil =>
    rw [ofLine] at h
    cases h
  | none c rest hnone =>
    rw [ofLine_of_none hnone] at h
    cases h
    exact ⟨[], rest, rfl, rfl, hnone, [], by rw [ofLine]⟩
  | some cs lexeme hcs hlexeme ih =>
    rw [ofLine_of_lexeme? hlexeme hcs] at h
    rcases Except.bind_eq_error.1 h with hrest | ⟨tokens, -, h⟩
    · obtain ⟨front, rest, hdrop, hposition, hnone, tokens, htokens⟩ := ih hrest
      have hlength : (cs.take lexeme.length).length = lexeme.length :=
        List.length_take_of_le (lexeme?_length_le hlexeme)
      have hsplit : cs = cs.take lexeme.length ++ front ++ e.character :: rest := by
        rw [List.append_assoc, ← hdrop, List.take_append_drop]
      have hwithin : lexeme.length ≤ (cs.take lexeme.length ++ front).length := by
        rw [List.length_append, hlength]
        exact Nat.le_add_right _ _
      have hbehind : (cs.take lexeme.length ++ front).drop lexeme.length = front :=
        List.drop_left' hlength
      rw [← hbehind] at htokens
      refine ⟨cs.take lexeme.length ++ front, rest, hsplit, ?_, hnone,
        exists_ofLine_of_front (hsplit ▸ hlexeme) hwithin htokens⟩
      rw [hposition, List.length_append, hlength, ← Nat.add_assoc]
      rfl
    · cases h

end Token

/-! ## From lines to texts -/

namespace Position

/-- The place behind a text, counted over it character by character: a newline leads to the next row
(`Position`). -/
def behind (text : List Char) : Position :=
  ⟨text.count '\n', (text.reverse.takeWhile (· != '\n')).length⟩

/-- Behind a part of the first line. -/
theorem behind_of_notMem {text : List Char} (h : '\n' ∉ text) : behind text = ⟨0, text.length⟩ := by
  have hall : ∀ c ∈ text.reverse, (c != '\n') = true := fun c hc =>
    bne_iff_ne.2 fun heq => h (heq ▸ List.mem_reverse.1 hc)
  have hlast : text.reverse.takeWhile (· != '\n') = text.reverse := by
    rw [← List.append_nil text.reverse, List.takeWhile_append_of_pos hall, List.takeWhile_nil]
  rw [behind, List.count_eq_zero.2 h, hlast, List.length_reverse]

/-- Behind a text that stands below a line. -/
theorem behind_append_newline {line : List Char} (h : '\n' ∉ line) (text : List Char) :
    behind (line ++ '\n' :: text) = (behind text).down 1 := by
  have hcount : (line ++ '\n' :: text).count '\n' = text.count '\n' + 1 := by
    rw [List.count_append, List.count_eq_zero.2 h, List.count_cons_self, Nat.zero_add]
  have hlast : (line ++ '\n' :: text).reverse.takeWhile (· != '\n') =
      text.reverse.takeWhile (· != '\n') := by
    rw [List.reverse_append, List.reverse_cons, List.append_assoc, List.takeWhile_append]
    split
    · next hall =>
      rw [(List.takeWhile_sublist _).eq_of_length hall]
      exact List.append_nil _
    · rfl
  rw [behind, hcount, hlast]
  rfl

end Position

/-- A text that can be read: `Token.ofText` gives tokens for it. -/
def Token.Readable (text : List Char) : Prop := ∃ tokens, ofText text = .ok tokens

/-- Where and why a text is rejected, with its lines (`Text.lines`) and with the text in front of
that place (`Position.behind`). -/
structure RejectedAt (text : List Char) (e : LexError) : Prop where
  /-- The character stands at that column of that line, and no rule applies in front of it, in
  either sense (`Rule.length?`, `Rule.Applies`). -/
  character : ∃ chars, (Text.lines text)[e.position.row]? = some chars ∧
    chars[e.position.column]? = some e.character ∧
    ∀ rule ∈ Rule.all, rule.length? (chars.drop e.position.column) = none ∧
      ∀ n, ¬ rule.Applies (chars.drop e.position.column) n
  /-- All lines above can be read as texts of their own (`Token.Readable`), -/
  above : ∀ line ∈ (Text.lines text).take e.position.row, Token.Readable line
  /-- and so can all that stands in front of the place, which is where the character stands in the
  text. -/
  front : ∃ front rest, text = front ++ e.character :: rest ∧ Position.behind front = e.position ∧
    Token.Readable front
  /-- The whole text cannot be read (`Token.Readable`). -/
  unreadable : ¬ Token.Readable text

namespace Token

variable {line text : List Char} {e : LexError}

/-- A line can be read as a text if it can be read as a line. -/
theorem readable_of_ofLine {tokens : List Token} (hline : '\n' ∉ line)
    (h : ofLine .origin line = .ok tokens) : Readable line := by
  obtain ⟨row, hread⟩ := ofText_of_ofLine hline h
  exact ⟨_, hread⟩

/-- A line is rejected as a text (`ofText`) where it is rejected as a line (`Token.ofLine`). -/
theorem ofText_eq_error_iff (hline : '\n' ∉ line) :
    ofText line = .error e ↔ ofLine .origin line = .error e := by
  cases h : ofLine .origin line with
  | ok tokens =>
    obtain ⟨row, hread⟩ := ofText_of_ofLine hline h
    exact iff_of_false (fun he => nomatch hread.symm.trans he) nofun
  | error refused =>
    have hne : line ≠ [] := by
      rintro rfl
      rw [ofLine] at h
      cases h
    rw [Position.origin] at h
    rw [ofText, Text.lines_of_notMem hne hline, ofLines, h]
    rfl

/-- What stands above and what stands below a newline can be read apart, so the whole can be read if
both can. -/
theorem readable_append_newline (hline : Readable line) (htext : Readable text) :
    Readable (line ++ '\n' :: text) := by
  obtain ⟨tokens, hline⟩ := hline
  obtain ⟨others, htext⟩ := htext
  rw [Readable, ofText_append_newline, hline, htext]
  exact ⟨_, rfl⟩

/-- A text whose first line is rejected is `RejectedAt` that place. -/
theorem rejectedAt_of_ofLine {first tail : List Char} {others : List (List Char)}
    (hfirst : '\n' ∉ first) (h : ofLine .origin first = .error e)
    (hlines : Text.lines (first ++ tail) = first :: others)
    (hunreadable : ¬ Readable (first ++ tail)) : RejectedAt (first ++ tail) e := by
  obtain ⟨front, rest, rfl, hposition, hnone, tokens, htokens⟩ := exists_front_of_ofLine_error h
  have hcolumn : e.position = ⟨0, front.length⟩ := by
    rw [hposition]
    exact congrArg (Position.mk 0) (Nat.zero_add _)
  have hfront : '\n' ∉ front := fun hmem => hfirst (List.mem_append_left _ hmem)
  have hdrop : (front ++ e.character :: rest).drop e.position.column = e.character :: rest := by
    rw [hcolumn, List.drop_left]
  refine ⟨⟨front ++ e.character :: rest, ?_, ?_, fun rule hmem => ?_⟩, ?_, ?_, hunreadable⟩
  · rw [hlines, hcolumn]
    rfl
  · rw [← List.head?_drop, hdrop, List.head?_cons]
  · have hnot := lexeme?_eq_none_iff.1 hnone rule hmem
    rw [hdrop]
    refine ⟨Option.eq_none_iff_forall_ne_some.2 fun n hn => ?_, hnot⟩
    exact hnot n (Rule.applies_of_length? hmem hn)
  · rw [hcolumn]
    nofun
  · refine ⟨front, rest ++ tail, by rw [List.append_assoc, List.cons_append], ?_, ?_⟩
    · rw [Position.behind_of_notMem hfront, hcolumn]
    · exact readable_of_ofLine hfront htokens

/-- A text that is rejected below its first line is `RejectedAt` the place further down
(`Position.down`). -/
theorem rejectedAt_append_newline (hline : '\n' ∉ line) (hread : Readable line)
    (h : RejectedAt text e) (hunreadable : ¬ Readable (line ++ '\n' :: text)) :
    RejectedAt (line ++ '\n' :: text) (e.relocate (Position.down 1)) := by
  have hlines := Text.lines_of_first hline text
  have hfirst : '\n' ∉ Text.trimNewline (line ++ ['\n']) := by
    have hmem : Text.trimNewline (line ++ ['\n']) ∈ Text.lines (line ++ '\n' :: text) := by
      rw [hlines]
      exact List.mem_cons_self
    exact Text.notMem_of_mem_lines hmem
  have hreadFirst : Readable (Text.trimNewline (line ++ ['\n'])) := by
    obtain ⟨tokens, hread⟩ := hread
    cases htokens : ofLine .origin line with
    | error refused => exact nomatch hread.symm.trans ((ofText_eq_error_iff hline).2 htokens)
    | ok others =>
      rw [← ofLine_trimNewline] at htokens
      exact readable_of_ofLine hfirst htokens
  obtain ⟨⟨other, hother, hcharacter, hrules⟩, habove, ⟨front, rest, rfl, hplace, hfront⟩, -⟩ := h
  refine ⟨⟨other, ?_, hcharacter, hrules⟩, ?_, ?_, hunreadable⟩
  · rw [hlines]
    exact hother
  · rw [hlines]
    exact List.forall_mem_cons.2 ⟨hreadFirst, habove⟩
  · refine ⟨line ++ '\n' :: front, rest, by rw [List.append_assoc]; rfl, ?_, ?_⟩
    · rw [Position.behind_append_newline hline, hplace]
      rfl
    · exact readable_append_newline hread hfront

/-- Where a text is rejected (`RejectedAt`), all that stands in front of the place can be read and
nothing that begins there can. -/
theorem rejectedAt (h : ofText text = .error e) : RejectedAt text e := by
  have hunreadable {cs : List Char} {refused : LexError} (h : ofText cs = .error refused) :
      ¬ Readable cs := fun ⟨tokens, hread⟩ => nomatch hread.symm.trans h
  induction text using Text.newline_induction generalizing e with
  | line line hline =>
    have hne : line ≠ [] := by
      rintro rfl
      cases h
    have hlines : Text.lines (line ++ []) = [line] := by
      rw [List.append_nil]
      exact Text.lines_of_notMem hne hline
    rw [← List.append_nil line] at h ⊢
    refine rejectedAt_of_ofLine hline ?_ hlines (hunreadable h)
    rwa [List.append_nil, ofText_eq_error_iff hline] at h
  | append line text hline ih =>
    have hwhole := hunreadable h
    rw [ofText_append_newline] at h
    rcases Except.bind_eq_error.1 h with hfirst | ⟨tokens, hread, h⟩
    · have hreject := (ofText_eq_error_iff hline).1 hfirst
      have hlines := Text.lines_of_first hline text
      rcases Text.trimNewline_append_newline line with hsame | hreturn
      · rw [hsame] at hlines
        exact rejectedAt_of_ofLine hline hreject hlines hwhole
      · -- The carriage return belongs to the line end and is blank.
        generalize Text.trimNewline (line ++ ['\n']) = first at hlines hreturn
        subst hreturn
        rw [ofLine_append_return] at hreject
        rw [List.append_assoc] at hlines hwhole ⊢
        exact rejectedAt_of_ofLine (fun hmem => hline (List.mem_append_left _ hmem)) hreject
          hlines hwhole
    · cases hother : ofText text with
      | ok others =>
        rw [hother] at h
        cases h
      | error refused =>
        rw [hother, List.count_eq_zero.2 hline] at h
        cases h
        exact rejectedAt_append_newline hline ⟨tokens, hread⟩ (ih hother) hwhole

end Token

/-- A number that letters go on, below a line that ends in a carriage return and a newline. -/
def malformedNumber : List Char := "n := 1; // é\r\nm = 12ab".toList

/-- The number in `malformedNumber` is rejected at its first digit, and what stands in front of it
can be read. -/
theorem malformedNumber_rejectedAt : Token.ofText malformedNumber = .error ⟨'1', ⟨1, 4⟩⟩ ∧
    RejectedAt malformedNumber ⟨'1', ⟨1, 4⟩⟩ := by
  have hread : Token.ofText malformedNumber = .error ⟨'1', ⟨1, 4⟩⟩ := by
    have hlines : Text.lines malformedNumber = ["n := 1; // é".toList, "m = 12ab".toList] := by
      decide
    simp only [Token.ofText, hlines, Token.ofLines, Token.ofLine_eq_upTo]
    rfl
  exact ⟨hread, Token.rejectedAt hread⟩

end UnitScript
