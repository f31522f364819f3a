import UnitScript.Proofs.Token.Lines
import UnitScript.Proofs.Token.Spelling

/-!
# Texts that are joined by a newline

A newline between two texts makes a text that comes to what the first one comes to and then to what
the second one does, moved below it (`Token.joined`). A carriage return in front of that newline
changes nothing, whatever the first text ends in (`Token.linewise`): it is a part of the line end,
or, where the line ends in another one, that is left as a blank or as a part of a comment.
-/

namespace UnitScript

/-! ## Texts from line to line -/

namespace Text

/-- A text is a line, or a line that a newline closes in front of a text: what holds of these holds
of all texts. -/
theorem newline_induction {motive : List Char → Prop}
    (line : ∀ line, '\n' ∉ line → motive line)
    (append : ∀ line text, '\n' ∉ line → motive text → motive (line ++ '\n' :: text))
    (text : List Char) : motive text := by
  induction hlength : text.length using Nat.strongRecOn generalizing text with
  | ind n ih =>
    obtain ⟨front, rest, rfl, hfront, hrest⟩ := Pattern.exists_run (· != '\n') text
    have hline : '\n' ∉ front := fun hmem => by simpa using hfront _ hmem
    cases rest with
    | nil =>
      rw [List.append_nil]
      exact line front hline
    | cons c rest =>
      have hc : c = '\n' := by simpa using hrest
      subst hc
      refine append front rest hline (ih rest.length ?_ rest rfl)
      rw [← hlength, List.length_append, List.length_cons]
      omega

end Text

/-! ## Joined texts -/

namespace Token

variable {a b : List Char}

/-- What two texts come to as one, where the second one begins so many rows below the first. An
error in the first one hides all of the second, and the first one ends where the second begins
(`Token.relocate`). -/
def joined (rows : Nat) :
    Except LexError (List Token) → Except LexError (List Token) → Except LexError (List Token)
  | .error e, _ => .error e
  | .ok _, .error e => .error (e.relocate (Position.down rows))
  | .ok tokens, .ok others =>
    .ok (tokens.filter (·.kind ≠ .endOfText) ++ others.map (·.relocate (Position.down rows)))

/-- Of the tokens of a text only the last one stands for its end. -/
theorem filter_eq_dropLast {tokens : List Token} (h : ofText a = .ok tokens) :
    tokens.filter (·.kind ≠ .endOfText) = tokens.dropLast := by
  obtain ⟨front, row, rfl, hfront⟩ := exists_of_ofText h
  have hkinds : ∀ token ∈ front, decide (token.kind ≠ .endOfText) = true := by
    intro token hmem
    obtain ⟨lexeme, place, rest, hlexeme, -, rfl⟩ := hfront token hmem
    exact decide_eq_true (lexeme?_kind_ne_endOfText hlexeme)
  rw [List.dropLast_concat, List.filter_append, List.filter_eq_self.2 hkinds]
  exact List.append_nil front

/-- A newline joins two texts: `ofText` comes to what it makes of both, `joined`. -/
theorem ofText_newline (a b : List Char) :
    ofText (a ++ '\n' :: b) = joined (a.count '\n' + 1) (ofText a) (ofText b) := by
  rw [ofText_append_newline]
  cases ha : ofText a with
  | error e => rfl
  | ok tokens =>
    cases ofText b with
    | error e => rfl
    | ok others =>
      rw [joined, filter_eq_dropLast ha]
      rfl

/-- A carriage return in front of a newline makes no difference to `ofText`, in a comment as
anywhere else. -/
theorem ofText_return_newline (a b : List Char) :
    ofText (a ++ '\r' :: '\n' :: b) = ofText (a ++ '\n' :: b) := by
  induction a using Text.newline_induction with
  | line line hline =>
    have hreturn : '\n' ∉ line ++ ['\r'] := by simpa using hline
    have hlines := Text.lines_of_first hreturn b
    rw [List.append_assoc, List.singleton_append] at hlines
    -- Both first lines are the one that is open, with or without carriage returns.
    rw [ofText, ofText, hlines, Text.lines_of_first hline, ofLines, ofLines, ofLine_trimNewline,
      ofLine_trimNewline, ofLine_append_return]
  | append line text hline ih =>
    rw [List.append_assoc, List.append_assoc, List.cons_append, List.cons_append, ofText_newline,
      ofText_newline, ih]

/-- A newline joins two texts, with a carriage return or without: the tokens, or the error, are
those of both `joined`. The rows of the second are counted from the newline on. -/
theorem linewise (a b : List Char) :
    ofText (a ++ '\n' :: b) = joined (a.count '\n' + 1) (ofText a) (ofText b) ∧
      ofText (a ++ '\r' :: '\n' :: b) = joined (a.count '\n' + 1) (ofText a) (ofText b) :=
  ⟨ofText_newline a b, (ofText_return_newline a b).trans (ofText_newline a b)⟩

end Token

end UnitScript
