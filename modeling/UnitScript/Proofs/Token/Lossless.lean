import UnitScript.Proofs.Token.Lines
import UnitScript.Proofs.Token.Spelling

/-!
# Nothing is lost

Tokens tell where in a text they stand, and what stands there is what they say. `Laid` follows one
line from a column on: tokens, blanks, and a comment that takes the rest. The tokens that are read
on a line are laid out on it (`Token.laid_of_ofLine`), and so `Lossless` holds of the tokens of
every text: each of them covers exactly the characters it was read from, one comes after the other,
and between them stand blanks and comments only (`Token.lossless`).
-/

namespace UnitScript

/-! ## Lines -/

namespace Token

/-- A token was read from a text: it keeps the text if its kind bears a value
(`TokenKind.bearsValue`), and otherwise the text is how tokens of its kind are written
(`TokenKind.text`). -/
structure ReadFrom (token : Token) (text : List Char) : Prop where
  visible : token.kind ≠ .blank ∧ token.kind ≠ .endOfText
  kept : token.kind.bearsValue = true → token.value = some (String.ofList text)
  fixed : token.kind.bearsValue = false → token.value = none ∧ text = token.kind.text.toList

/-- A token takes the columns from one to another on a row. -/
def On (token : Token) (row start stop : Nat) : Prop :=
  token.span = ⟨⟨row, start⟩, ⟨row, stop⟩⟩

/-- A token covers a column of a row. -/
def Covers (token : Token) (row column : Nat) : Prop :=
  token.span.start.row = row ∧ token.span.start.column ≤ column ∧ column < token.span.stop.column

/-- A token ends where another one begins, or before that (`Token.span`). -/
def Precedes (a b : Token) : Prop :=
  a.span.stop.row < b.span.start.row ∨
    a.span.stop.row = b.span.start.row ∧ a.span.stop.column ≤ b.span.start.column

/-- What a token on a row covers. -/
theorem On.covers_iff {token : Token} {row start stop : Nat} (h : token.On row start stop)
    {row' column : Nat} :
    token.Covers row' column ↔ row = row' ∧ start ≤ column ∧ column < stop := by
  rw [Covers, h]

end Token

/-- What stands on a row from a column on, as tokens tell it: blanks, comments, and texts that
tokens were read from (`Token.ReadFrom`). -/
inductive Laid (row : Nat) (chars : List Char) : Nat → List Token → Prop
  | done : Laid row chars chars.length []
  /-- A comment reaches to the end of the line. -/
  | comment : column ≤ chars.length → ['/', '/'] <+: chars.drop column → Laid row chars column []
  | blank : chars[column]? = some c → c = ' ' ∨ c = '\t' ∨ c = '\r' →
      Laid row chars (column + 1) tokens → Laid row chars column tokens
  | token : token.On row column stop → column < stop → stop ≤ chars.length →
      token.ReadFrom (chars.extract column stop) → Laid row chars stop tokens →
      Laid row chars column (token :: tokens)

/-- Blanks may stand wherever tokens do: `Laid` goes on behind them as in front of them. -/
theorem Laid.blanks {row : Nat} {tokens : List Token} {front blanks tail : List Char}
    (hblanks : ∀ c ∈ blanks, c = ' ' ∨ c = '\t' ∨ c = '\r')
    (h : Laid row (front ++ (blanks ++ tail)) (front.length + blanks.length) tokens) :
    Laid row (front ++ (blanks ++ tail)) front.length tokens := by
  induction blanks generalizing front with
  | nil => exact h
  | cons c blanks ih =>
    obtain ⟨hc, hblanks⟩ := List.forall_mem_cons.1 hblanks
    have hchar : (front ++ (c :: blanks ++ tail))[front.length]? = some c := by simp
    refine .blank hchar hc ?_
    have hmove : front ++ (c :: blanks ++ tail) = (front ++ [c]) ++ (blanks ++ tail) := by simp
    have hlength : front.length + 1 = (front ++ [c]).length := by simp
    rw [hmove, hlength]
    refine ih hblanks ?_
    rw [← hmove, ← hlength, Nat.add_assoc, Nat.add_comm 1]
    exact h

namespace Rule

variable {cs : List Char} {n : Nat}

/-- Rules for blanks are rules for what is left out. -/
theorem mem_voids_of_kind {rule : Rule} (hmem : rule ∈ all) (hkind : rule.kind = .blank) :
    rule ∈ voids := by
  have hblank : .blank ∉ TokenKind.words ∧ .blank ∉ TokenKind.marks ∧
      ∀ rule ∈ literals, rule.kind ≠ .blank := by decide
  obtain ⟨hwords, hmarks, hliterals⟩ := hblank
  rw [all_eq, List.mem_append, List.mem_append, List.mem_append, List.mem_map,
    List.mem_map] at hmem
  rcases hmem with hmem | ⟨kind, hmem, rfl⟩ | ⟨kind, hmem, rfl⟩ | hmem
  · exact hmem
  · exact absurd (hkind ▸ hmem) hwords
  · exact absurd (hkind ▸ hmem) hmarks
  · exact absurd hkind (hliterals rule hmem)

/-- What a rule finds is how its tokens are written, unless these keep it. -/
theorem take_of_length? {rule : Rule} (hmem : rule ∈ all) (hvoids : rule ∉ voids)
    (h : rule.length? cs = some n) (hkind : rule.kind.bearsValue = false) :
    cs.take n = rule.kind.text.toList := by
  rcases spelled_of_length? hmem hvoids h with hspelled | ⟨rfl, -⟩
  · generalize cs.take n = text, rule.kind = kind at hspelled hkind
    cases hspelled with
    | word | mark => rfl
    | decimal | integer | character | quoted | name => cases hkind
  · cases hkind

end Rule

namespace Token

variable {front cs : List Char}

/-- A token is read from the text of its lexeme (`ReadFrom`), whatever rule has found that. -/
theorem readFrom_ofLexeme {position : Position} {lexeme : Lexeme} (h : lexeme? cs = some lexeme)
    (hkind : lexeme.kind ≠ .blank) :
    (ofLexeme lexeme position cs).ReadFrom (cs.take lexeme.length) := by
  refine ⟨⟨hkind, lexeme?_kind_ne_endOfText h⟩, fun hbears => if_pos hbears, fun hbears =>
    ⟨if_neg (Bool.not_eq_true _ ▸ hbears), ?_⟩⟩
  obtain ⟨rule, hmem, hvoids, hrule, hrulekind⟩ := exists_rule_of_visible h hkind
  exact (Rule.take_of_length? hmem hvoids hrule (hrulekind ▸ hbears)).trans
    (congrArg (·.text.toList) hrulekind)

/-- What is left out on a line are blanks, or a comment that takes the rest of it. -/
theorem front_of_blank {n : Nat} (hline : '\n' ∉ cs) (h : lexeme? cs = some ⟨.blank, n⟩) :
    (∀ c ∈ cs.take n, c = ' ' ∨ c = '\t' ∨ c = '\r') ∨ ['/', '/'] <+: cs ∧ cs.length ≤ n := by
  obtain ⟨rule, hmem, hrule, hkind⟩ := exists_rule_of_lexeme? h
  have hvoid := Rule.mem_voids_of_kind hmem hkind
  have hpattern := (Rule.length?_eq_some_iff.1 hrule).1
  simp only [Rule.voids, List.mem_cons, List.not_mem_nil, or_false] at hvoid
  rcases hvoid with rfl | rfl
  · obtain ⟨c, rest, tail, rfl, hblank, rfl⟩ := Pattern.exists_of_blanks hpattern
    refine .inl fun d hd => ?_
    rw [List.take_left] at hd
    have hd' := hblank d hd
    simp only [Pattern.isBlank, Bool.or_eq_true, beq_iff_eq, or_assoc] at hd'
    rcases hd' with hd' | hd' | hd' | rfl
    · exact .inl hd'
    · exact .inr (.inl hd')
    · exact .inr (.inr hd')
    · exact absurd (List.mem_append_left _ hd) hline
  · obtain ⟨rest, rfl, rfl⟩ := Pattern.exists_of_comment hpattern
    have hpass : ∀ c ∈ rest, (c != '\n') = true := fun c hc =>
      bne_iff_ne.2 fun heq => hline (heq ▸ List.mem_cons_of_mem _ (List.mem_cons_of_mem _ hc))
    have hnone : ∀ c ∈ ([] : List Char).head?, (c != '\n') = false := by
      intro c hc
      cases hc
    have hrun : Pattern.run (· != '\n') (rest ++ []) = rest.length :=
      Pattern.run_append hpass hnone
    rw [List.append_nil] at hrun
    refine .inr ⟨⟨rest, rfl⟩, ?_⟩
    simp only [hrun, List.length_cons]
    omega

/-- The tokens on the rest of a line that `Token.ofLine` gives are laid out on the line (`Laid`). -/
theorem laid_of_ofLine {row : Nat} {tokens : List Token} (hline : '\n' ∉ cs)
    (h : ofLine ⟨row, front.length⟩ cs = .ok tokens) :
    Laid row (front ++ cs) front.length tokens := by
  induction cs using line_induction generalizing front tokens with
  | nil =>
    rw [ofLine] at h
    cases h
    rw [List.append_nil]
    exact .done
  | none c rest hnone =>
    rw [ofLine_of_none hnone] at h
    cases h
  | some cs lexeme hcs hlexeme ih =>
    rw [ofLine_of_lexeme? hlexeme hcs] at h
    obtain ⟨others, hrest, h⟩ := Except.bind_eq_ok.1 h
    cases h
    obtain ⟨kind, n⟩ := lexeme
    have hle : n ≤ cs.length := lexeme?_length_le hlexeme
    have hpos : 0 < n := lexeme?_length_pos hlexeme
    have hlength : (front ++ cs.take n).length = front.length + n := by
      rw [List.length_append, List.length_take, Nat.min_eq_left hle]
    have hothers : Laid row (front ++ cs) (front.length + n) others := by
      have hrest : ofLine ⟨row, (front ++ cs.take n).length⟩ (cs.drop n) = .ok others := by
        rw [hlength]
        exact hrest
      have hlaid := ih (fun hmem => hline (List.mem_of_mem_drop hmem)) hrest
      rwa [hlength, List.append_assoc, List.take_append_drop] at hlaid
    split
    · next hkind =>
      cases hkind
      rcases front_of_blank hline hlexeme with hblanks | ⟨hslashes, hall⟩
      · rw [← List.take_append_drop n cs] at hothers ⊢
        refine .blanks hblanks ?_
        rwa [List.length_take, Nat.min_eq_left hle]
      · rw [List.drop_of_length_le hall, ofLine] at hrest
        cases hrest
        exact .comment (by simp) (by rwa [List.drop_left])
    · next hkind =>
      have hextract : (front ++ cs).extract front.length (front.length + n) = cs.take n := by
        rw [List.extract_eq_take_drop, List.drop_left, Nat.add_sub_cancel_left]
      refine .token rfl ?_ ?_ (hextract ▸ readFrom_ofLexeme hlexeme hkind) hothers
      · exact Nat.lt_add_of_pos_right hpos
      · rw [List.length_append]
        exact Nat.add_le_add_left hle _

end Token

namespace Laid

variable {row column : Nat} {chars : List Char} {tokens : List Token}

/-- Every token takes a part of the line behind the column, and was read from it. -/
theorem placed (h : Laid row chars column tokens) : ∀ token ∈ tokens, ∃ start stop,
    column ≤ start ∧ token.On row start stop ∧ start < stop ∧ stop ≤ chars.length ∧
      token.ReadFrom (chars.extract start stop) := by
  induction h with
  | done | comment => nofun
  | @blank column _ _ _ _ _ ih =>
    intro token hmem
    obtain ⟨start, stop, hstart, hrest⟩ := ih token hmem
    exact ⟨start, stop, Nat.le_of_succ_le hstart, hrest⟩
  | @token column stop others token hon hlt hle hread _ ih =>
    refine List.forall_mem_cons.2
      ⟨⟨column, stop, Nat.le_refl _, hon, hlt, hle, hread⟩, fun other hmem => ?_⟩
    obtain ⟨start, stop', hstart, hrest⟩ := ih other hmem
    exact ⟨start, stop', Nat.le_of_lt (Nat.lt_of_lt_of_le hlt hstart), hrest⟩

/-- A token ends before any later one begins. -/
theorem ordered (h : Laid row chars column tokens) : tokens.Pairwise Token.Precedes := by
  induction h with
  | done | comment => exact .nil
  | blank _ _ _ ih => exact ih
  | token hon _ _ _ hrest ih =>
    refine .cons (fun other hmem => ?_) ih
    obtain ⟨start, stop, hstart, hother, -⟩ := hrest.placed other hmem
    refine .inr ?_
    rw [hon, hother]
    exact ⟨rfl, hstart⟩

/-- What no token covers is blank, or a comment that reaches to the end of the line. -/
theorem leftOut (h : Laid row chars column tokens) : ∃ limit, column ≤ limit ∧
    limit ≤ chars.length ∧ (limit = chars.length ∨ ['/', '/'] <+: chars.drop limit) ∧
      (∀ place c, column ≤ place → place < limit → chars[place]? = some c →
        (∃ token ∈ tokens, token.Covers row place) ∨ c = ' ' ∨ c = '\t' ∨ c = '\r') ∧
      ∀ place ≥ limit, ∀ token ∈ tokens, ¬ token.Covers row place := by
  induction h with
  | done =>
    exact ⟨_, Nat.le_refl _, Nat.le_refl _, .inl rfl, by omega, nofun⟩
  | @comment column hle hslashes =>
    exact ⟨column, Nat.le_refl _, hle, .inr hslashes, by omega, nofun⟩
  | @blank column c _ hchar hblank _ ih =>
    obtain ⟨limit, hle, hlimit, hend, hcovered, hbehind⟩ := ih
    refine ⟨limit, Nat.le_of_succ_le hle, hlimit, hend, fun place d hplace hlt hd => ?_, hbehind⟩
    rcases Nat.eq_or_lt_of_le hplace with rfl | hplace
    · cases hchar.symm.trans hd
      exact .inr hblank
    · exact hcovered place d hplace hlt hd
  | @token column stop others token hon hlt _ _ _ ih =>
    obtain ⟨limit, hle, hlimit, hend, hcovered, hbehind⟩ := ih
    refine ⟨limit, by omega, hlimit, hend, fun place c hplace hplace' hc => ?_, fun place hplace =>
      List.forall_mem_cons.2 ⟨?_, hbehind place hplace⟩⟩
    · rcases Nat.lt_or_ge place stop with hstop | hstop
      · exact .inl ⟨token, List.mem_cons_self, hon.covers_iff.2 ⟨rfl, hplace, hstop⟩⟩
      · refine (hcovered place c hstop hplace' hc).imp_left ?_
        rintro ⟨other, hmem, hother⟩
        exact ⟨other, List.mem_cons_of_mem _ hmem, hother⟩
    · rw [hon.covers_iff]
      omega

end Laid

/-! ## Texts -/

/-- What stands on the rows of a text from one on, as tokens tell it (`Laid`), row by row. -/
inductive LaidOut : Nat → List (List Char) → List Token → Prop
  | nil : LaidOut row [] []
  | cons : Laid row chars 0 tokens → LaidOut (row + 1) lines others →
      LaidOut row (chars :: lines) (tokens ++ others)

/-- The tokens that are read on rows (`ofRows`) are laid out on them (`LaidOut`). -/
theorem Token.laidOut_of_ofRows {row : Nat} {lines : List (List Char)} {tokens : List Token}
    (hlines : ∀ chars ∈ lines, '\n' ∉ chars) (h : ofRows row lines = .ok tokens) :
    LaidOut row lines tokens := by
  induction lines generalizing row tokens with
  | nil =>
    cases h
    exact .nil
  | cons chars lines ih =>
    obtain ⟨hline, hlines⟩ := List.forall_mem_cons.1 hlines
    rw [ofRows] at h
    obtain ⟨front, hfront, h⟩ := Except.bind_eq_ok.1 h
    obtain ⟨others, hothers, h⟩ := Except.bind_eq_ok.1 h
    cases h
    have hlaid : Laid row ([] ++ chars) ([] : List Char).length front :=
      laid_of_ofLine hline hfront
    exact .cons hlaid (ih hlines hothers)

namespace LaidOut

variable {row : Nat} {lines : List (List Char)} {tokens : List Token}

/-- Every token takes a part of one line, and was read from it. -/
theorem placed (h : LaidOut row lines tokens) : ∀ token ∈ tokens, ∃ i chars start stop,
    lines[i]? = some chars ∧ token.On (row + i) start stop ∧ start < stop ∧ stop ≤ chars.length ∧
      token.ReadFrom (chars.extract start stop) := by
  induction h with
  | nil => nofun
  | @cons row chars front lines others hline _ ih =>
    intro token hmem
    rcases List.mem_append.1 hmem with hmem | hmem
    · obtain ⟨start, stop, -, hrest⟩ := hline.placed token hmem
      exact ⟨0, chars, start, stop, rfl, hrest⟩
    · obtain ⟨i, other, start, stop, hother, hon, hrest⟩ := ih token hmem
      rw [Nat.add_assoc, Nat.add_comm 1] at hon
      exact ⟨i + 1, other, start, stop, hother, hon, hrest⟩

/-- A token ends before any later one begins. -/
theorem ordered (h : LaidOut row lines tokens) : tokens.Pairwise Token.Precedes := by
  induction h with
  | nil => exact .nil
  | @cons row chars front lines others hline hlines ih =>
    refine List.pairwise_append.2 ⟨hline.ordered, ih, fun a ha b hb => .inl ?_⟩
    obtain ⟨start, stop, -, hon, -⟩ := hline.placed a ha
    obtain ⟨i, other, start', stop', -, hon', -⟩ := hlines.placed b hb
    rw [hon, hon']
    show row < row + 1 + i
    omega

/-- What no token covers is blank, or a comment that reaches to the end of its line. -/
theorem leftOut (h : LaidOut row lines tokens) : ∀ i chars, lines[i]? = some chars →
    ∃ limit ≤ chars.length, (limit = chars.length ∨ ['/', '/'] <+: chars.drop limit) ∧
      (∀ column c, column < limit → chars[column]? = some c →
        (∃ token ∈ tokens, token.Covers (row + i) column) ∨ c = ' ' ∨ c = '\t' ∨ c = '\r') ∧
      ∀ column ≥ limit, ∀ token ∈ tokens, ¬ token.Covers (row + i) column := by
  induction h with
  | nil => nofun
  | @cons row chars front lines others hline hlines ih =>
    intro i
    cases i with
    | zero =>
      intro chars' heq
      cases heq
      obtain ⟨limit, -, hlimit, hend, hcovered, hbehind⟩ := hline.leftOut
      refine ⟨limit, hlimit, hend, fun column c hlt hc => ?_, fun column hge token hmem => ?_⟩
      · refine (hcovered column c (Nat.zero_le _) hlt hc).imp_left ?_
        rintro ⟨token, hmem, hcovers⟩
        exact ⟨token, List.mem_append_left _ hmem, hcovers⟩
      · rcases List.mem_append.1 hmem with hmem | hmem
        · exact hbehind column hge token hmem
        · obtain ⟨j, _, start, stop, -, hon, -⟩ := hlines.placed token hmem
          rw [hon.covers_iff]
          omega
    | succ i =>
      intro chars' heq
      obtain ⟨limit, hlimit, hend, hcovered, hbehind⟩ := ih i chars' heq
      rw [Nat.add_assoc, Nat.add_comm 1] at hcovered hbehind
      refine ⟨limit, hlimit, hend, fun column c hlt hc => ?_, fun column hge token hmem => ?_⟩
      · refine (hcovered column c hlt hc).imp_left ?_
        rintro ⟨token, hmem, hcovers⟩
        exact ⟨token, List.mem_append_right _ hmem, hcovers⟩
      · rcases List.mem_append.1 hmem with hmem | hmem
        · obtain ⟨start, stop, -, hon, -⟩ := hline.placed token hmem
          rw [hon.covers_iff]
          omega
        · exact hbehind column hge token hmem

end LaidOut

/-- Lines are made of what their tokens say (`Token.lexeme`), blanks and comments: every character
of them is accounted for, in the order in which the tokens come. -/
structure Lossless (lines : List (List Char)) (tokens : List Token) : Prop where
  /-- The token for the end of the text (`Token.atEnd`) stands behind all others, on the row after
  the lines. -/
  closed : tokens = tokens.dropLast ++ [Token.atEnd lines.length]
  /-- Any other token takes a part of one line that is not empty, and was read from it
  (`Token.ReadFrom`). -/
  placed : ∀ token ∈ tokens.dropLast, ∃ row chars start stop, lines[row]? = some chars ∧
    token.On row start stop ∧ start < stop ∧ stop ≤ chars.length ∧
      token.ReadFrom (chars.extract start stop)
  /-- A token ends before any later one begins (`Token.Precedes`), on its row or on one above. -/
  ordered : tokens.Pairwise Token.Precedes
  /-- On every line, up to a comment that reaches to its end if there is one, what no token covers
  (`Token.Covers`) is blank, and from there on no token covers anything. -/
  leftOut : ∀ row chars, lines[row]? = some chars → ∃ limit ≤ chars.length,
    (limit = chars.length ∨ ['/', '/'] <+: chars.drop limit) ∧
      (∀ column c, column < limit → chars[column]? = some c →
        (∃ token ∈ tokens, token.Covers row column) ∨ c = ' ' ∨ c = '\t' ∨ c = '\r') ∧
      ∀ column ≥ limit, ∀ token ∈ tokens, ¬ token.Covers row column

/-- Nothing is lost when a text is read as tokens (`Lossless`): what they cover is what they say,
one comes after the other, and what none of them covers are blanks and comments. -/
theorem Token.lossless {cs : List Char} {tokens : List Token} (h : ofText cs = .ok tokens) :
    Lossless (Text.lines cs) tokens := by
  rw [ofText, ofLines_eq, Nat.zero_add] at h
  obtain ⟨front, hrows, h⟩ := Except.bind_eq_ok.1 h
  cases h
  have hlaid : LaidOut 0 (Text.lines cs) front :=
    laidOut_of_ofRows (fun _ => Text.notMem_of_mem_lines) hrows
  refine ⟨?_, ?_, ?_, ?_⟩
  · rw [List.dropLast_concat]
  · rw [List.dropLast_concat]
    simpa only [Nat.zero_add] using hlaid.placed
  · refine List.pairwise_append.2 ⟨hlaid.ordered, List.pairwise_singleton _ _, fun a ha b hb => ?_⟩
    obtain ⟨row, chars, start, stop, hline, hon, -⟩ := hlaid.placed a ha
    cases List.mem_singleton.1 hb
    obtain ⟨hrow, -⟩ := List.getElem?_eq_some_iff.1 hline
    refine .inl ?_
    rw [hon]
    show 0 + row < (Text.lines cs).length
    omega
  · intro row chars hline
    obtain ⟨limit, hlimit, hend, hcovered, hbehind⟩ := hlaid.leftOut row chars hline
    rw [Nat.zero_add] at hcovered hbehind
    refine ⟨limit, hlimit, hend, fun column c hlt hc => ?_, fun column hge token hmem => ?_⟩
    · refine (hcovered column c hlt hc).imp_left ?_
      rintro ⟨token, hmem, hcovers⟩
      exact ⟨token, List.mem_append_left _ hmem, hcovers⟩
    · rcases List.mem_append.1 hmem with hmem | hmem
      · exact hbehind column hge token hmem
      · cases List.mem_singleton.1 hmem
        rintro ⟨-, -, hlt⟩
        exact Nat.not_lt_zero _ hlt

/-- A text with blanks of all sorts, an accent between quotes and one in a comment. -/
def accentedText : List Char := "x ='é'; // é\r\n\tif\r".toList

/-- Nothing of `accentedText` is lost, where columns are counted in characters and not in bytes. -/
theorem accentedText_lossless : ∃ tokens, Token.ofText accentedText = .ok tokens ∧
    Lossless (Text.lines accentedText) tokens := by
  have hread : Token.ofText accentedText = .ok
      [⟨.identifier, some "x", ⟨⟨0, 0⟩, ⟨0, 1⟩⟩⟩, ⟨.equal, none, ⟨⟨0, 2⟩, ⟨0, 3⟩⟩⟩,
        ⟨.charLiteral, some "'é'", ⟨⟨0, 3⟩, ⟨0, 6⟩⟩⟩, ⟨.semicolon, none, ⟨⟨0, 6⟩, ⟨0, 7⟩⟩⟩,
        ⟨.ifWord, none, ⟨⟨1, 1⟩, ⟨1, 3⟩⟩⟩, Token.atEnd 2] := by
    have hlines : Text.lines accentedText =
        ["x ='é'; // é".toList, "\tif\r".toList] := by decide
    simp only [Token.ofText, hlines, Token.ofLines, Token.ofLine_eq_upTo]
    rfl
  exact ⟨_, hread, Token.lossless hread⟩

end UnitScript
