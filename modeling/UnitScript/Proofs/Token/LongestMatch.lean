import UnitScript.Proofs.Token.Lossless

/-!
# The longest match

The rules are tried in an order, and the first one that applies decides. What this comes to can be
said without the order. `Pattern.Describes` says which texts a pattern stands for, `Rule.Applies`
to which fronts of the characters that are left a rule applies, and `Rule.Wins` that a rule applies
to a longest one, and is that of a reserved word if the rule for names applies to the same one.

Of two rules that find something at the same place the earlier one takes more, unless it is that
of a reserved word and the later one that for names, which then take the same
(`Rule.outdoes_all`). So the first rule that applies wins (`Token.wins_of_lexeme?`), and texts are
read as the same tokens, or rejected at the same place, as by a lexer that always lets the winning
rule decide (`Token.Munched`, `Token.maximalMunch`).
-/

namespace UnitScript

/-- The texts that a pattern stands for, as sets of texts: nothing is said of what `Pattern.length?`
takes in front of other characters. -/
inductive Pattern.Describes : Pattern → List Char → Prop
  | blanks : cs ≠ [] → (∀ c ∈ cs, isBlank c = true) → Describes .blanks cs
  | comment : '\n' ∉ cs → Describes .comment ('/' :: '/' :: cs)
  | fixed : text ≠ [] → Describes (.fixed text) text
  | decimal : ds ≠ [] → (∀ d ∈ ds, d.isDigit = true) → es ≠ [] → (∀ e ∈ es, e.isDigit = true) →
      Describes .decimal (ds ++ '.' :: es)
  | zero : Describes .integer ['0']
  | integer : d ≠ '0' → (∀ e ∈ d :: ds, e.isDigit = true) → Describes .integer (d :: ds)
  | character : c ≠ '\n' → Describes .character ['\'', c, '\'']
  | quoted : '"' ∉ cs → Describes .quoted ('"' :: (cs ++ ['"']))
  | name : isNameStart c = true → (∀ d ∈ cs, isNamePart d = true) → Describes .name (c :: cs)

namespace Rule

/-- The rule for names (`Pattern.name`), the only one that may apply where a reserved word does. -/
def names : Rule := ⟨.name, .identifier, .free⟩

/-- A rule applies to so many characters at the front: its pattern stands for them
(`Pattern.Describes`), and what follows them is not rejected (`Boundary.rejects`). -/
structure Applies (rule : Rule) (cs : List Char) (n : Nat) : Prop where
  within : n ≤ cs.length
  described : rule.pattern.Describes (cs.take n)
  follows : ∀ c ∈ (cs.drop n).head?, rule.boundary.rejects c = false

/-- The first rule is that of a reserved word and the second one that for `names`, over which it is
preferred. -/
def Reserves (rule other : Rule) : Prop :=
  (∃ kind ∈ TokenKind.words, rule = word kind) ∧ other = names

/-- Of all rules this one applies to the longest front (`Applies`). A rule that applies to the same
one is that for `names`, where this one is that of a reserved word. -/
structure Wins (rule : Rule) (cs : List Char) (n : Nat) : Prop where
  mem : rule ∈ all
  applies : rule.Applies cs n
  longest : ∀ other ∈ all, ∀ m, other.Applies cs m → m ≤ n
  first : ∀ other ∈ all, other.Applies cs n → other = rule ∨ rule.Reserves other

end Rule

/-! ## What a rule finds is the longest text that it applies to -/

/-- A run (`Pattern.run`) goes on for as long as all characters pass the test. -/
theorem Pattern.le_run_append {test : Char → Bool} {cs : List Char}
    (hcs : ∀ c ∈ cs, test c = true) (tail : List Char) : cs.length ≤ run test (cs ++ tail) := by
  rw [run, List.takeWhile_append_of_pos hcs, List.length_append]
  exact Nat.le_add_right _ _

namespace Rule

variable {rule : Rule} {cs text tail : List Char} {m n : Nat}

/-- A rule applies to a text that its pattern stands for (`Pattern.Describes`) if what follows is
not rejected. -/
theorem applies_append (h : rule.pattern.Describes text)
    (htail : ∀ c ∈ tail.head?, rule.boundary.rejects c = false) :
    rule.Applies (text ++ tail) text.length where
  within := by simp
  described := by rwa [List.take_left]
  follows := by rwa [List.drop_left]

/-- Where a rule applies, the characters that are left are a text that its pattern stands for
(`Describes`) and a rest that may follow it. -/
theorem Applies.split (h : rule.Applies cs n) : ∃ text tail, cs = text ++ tail ∧ text.length = n ∧
    rule.pattern.Describes text ∧ ∀ c ∈ tail.head?, rule.boundary.rejects c = false :=
  ⟨cs.take n, cs.drop n, (List.take_append_drop n cs).symm, List.length_take_of_le h.within,
    h.described, h.follows⟩

/-- A rule is one of four groups: what is left out, reserved words, marks, and the rest
(`Rule.all_eq`). -/
theorem mem_all_iff : rule ∈ all ↔ rule ∈ voids ∨ (∃ kind ∈ TokenKind.words, word kind = rule) ∨
    (∃ kind ∈ TokenKind.marks, mark kind = rule) ∨ rule ∈ literals := by
  rw [all_eq, List.mem_append, List.mem_append, List.mem_append, List.mem_map, List.mem_map]

/-- The pattern of a literal stands for what is spelled like one (`Spelled`). -/
theorem describes_of_spelled (hmem : rule ∈ literals) (h : Spelled rule.kind text) :
    rule.pattern.Describes text := by
  simp only [literals, List.mem_cons, List.not_mem_nil, or_false] at hmem
  rcases hmem with rfl | rfl | rfl | rfl | rfl
  · cases h with
    | word hkind | mark hkind => exact absurd hkind (by decide)
    | decimal hne hds hne' hes => exact .decimal hne hds hne' hes
  · cases h with
    | word hkind | mark hkind => exact absurd hkind (by decide)
    | @integer d ds hzero hds =>
      by_cases hd : d = '0'
      · rw [hd, hzero hd]
        exact .zero
      · exact .integer hd hds
  · cases h with
    | word hkind | mark hkind => exact absurd hkind (by decide)
    | character hc => exact .character hc
  · cases h with
    | word hkind | mark hkind => exact absurd hkind (by decide)
    | quoted hcs => exact .quoted hcs
  · cases h with
    | word hkind | mark hkind => exact absurd hkind (by decide)
    | name hc hcs => exact .name hc hcs

/-- A rule applies to what it finds: what `Rule.length?` takes is a text that its pattern stands
for. -/
theorem applies_of_length? (hmem : rule ∈ all) (h : rule.length? cs = some n) :
    rule.Applies cs n := by
  obtain ⟨hpattern, hfollows⟩ := length?_eq_some_iff.1 h
  refine ⟨length?_le h, ?_, hfollows⟩
  rcases mem_all_iff.1 hmem with hvoid | ⟨kind, hkind, rfl⟩ | ⟨kind, hkind, rfl⟩ | hliteral
  · simp only [voids, List.mem_cons, List.not_mem_nil, or_false] at hvoid
    rcases hvoid with rfl | rfl
    · obtain ⟨c, front, tail, rfl, hblank, rfl⟩ := Pattern.exists_of_blanks hpattern
      rw [List.take_left]
      exact .blanks (List.cons_ne_nil _ _) hblank
    · obtain ⟨rest, rfl, rfl⟩ := Pattern.exists_of_comment hpattern
      obtain ⟨front, tail, rfl, hfront, htail⟩ := Pattern.exists_run (· != '\n') rest
      rw [Pattern.run_append hfront htail, Nat.add_comm, List.take_succ_cons, List.take_succ_cons,
        List.take_left]
      exact .comment fun hmem => by simpa using hfront _ hmem
  · obtain ⟨hbegins, rfl, -⟩ := (length?_word hkind).1 h
    rw [← List.prefix_iff_eq_take.1 hbegins]
    exact .fixed (TokenKind.text_of_mem_words kind hkind).1
  · obtain ⟨hbegins, rfl⟩ := (length?_mark hkind).1 h
    rw [← List.prefix_iff_eq_take.1 hbegins]
    exact .fixed (TokenKind.text_of_mem_marks kind hkind).1
  · have hkinds : ∀ rule ∈ literals, rule.kind ≠ .blank := by decide
    have hvoids : rule ∉ voids := fun hvoid => hkinds rule hliteral (of_mem_voids hvoid).1
    rcases spelled_of_length? hmem hvoids h with hspelled | ⟨rfl, -⟩
    · exact describes_of_spelled hliteral hspelled
    · obtain ⟨c, ds, tail, rfl, hc, hds, -, rfl⟩ := Pattern.exists_of_name hpattern
      rw [List.take_succ_cons, List.take_left]
      exact .name hc hds

/-- A rule finds (`Rule.length?`) no less than any text that it applies to, since patterns take all
they can. -/
theorem exists_length?_of_applies (hmem : rule ∈ all) (h : rule.Applies cs m) :
    ∃ n, rule.length? cs = some n ∧ m ≤ n := by
  obtain ⟨text, tail, rfl, rfl, hdescribed, htail⟩ := h.split
  have hexact (h : rule.length? (text ++ tail) = some text.length) :
      ∃ n, rule.length? (text ++ tail) = some n ∧ text.length ≤ n := ⟨_, h, Nat.le_refl _⟩
  rcases mem_all_iff.1 hmem with hvoid | ⟨kind, hkind, rfl⟩ | ⟨kind, hkind, rfl⟩ | hliteral
  · simp only [voids, List.mem_cons, List.not_mem_nil, or_false] at hvoid
    rcases hvoid with rfl | rfl
    · cases hdescribed with
      | blanks hne hblank =>
        have hrun := Pattern.le_run_append hblank tail
        have hpos := List.length_pos_iff.2 hne
        exact ⟨_, length?_eq_some_iff.2 ⟨if_neg (by omega), fun _ _ => rfl⟩, hrun⟩
    · cases hdescribed with
      | @comment cs hcs =>
        have hline : ∀ c ∈ cs, (c != '\n') = true :=
          fun c hc => bne_iff_ne.2 fun heq => hcs (heq ▸ hc)
        have hrun := Pattern.le_run_append hline tail
        refine ⟨2 + Pattern.run (· != '\n') (cs ++ tail),
          length?_eq_some_iff.2 ⟨rfl, fun _ _ => rfl⟩, ?_⟩
        simp only [List.length_cons]
        omega
  · cases hdescribed
    exact hexact ((length?_word hkind).2
      ⟨List.prefix_append _ _, rfl, by rwa [List.drop_left]⟩)
  · cases hdescribed
    exact hexact ((length?_mark hkind).2 ⟨List.prefix_append _ _, rfl⟩)
  · simp only [literals, List.mem_cons, List.not_mem_nil, or_false] at hliteral
    rcases hliteral with rfl | rfl | rfl | rfl | rfl
    · cases hdescribed with
      | decimal hne hds hne' hes =>
        exact hexact (Token.length?_decimal_append hne hds hne' hes htail)
    · cases hdescribed with
      | zero =>
        have hzero : ∀ d ∈ ['0'], d.isDigit = true := List.forall_mem_singleton.2 rfl
        exact hexact (Token.length?_integer_append (fun _ => rfl) hzero htail)
      | integer hd hds =>
        exact hexact (Token.length?_integer_append (fun h => absurd h hd) hds htail)
    · cases hdescribed with
      | character hc => exact hexact (Token.length?_character_append hc)
    · cases hdescribed with
      | quoted hcs => exact hexact (Token.length?_quoted_append tail hcs)
    · cases hdescribed with
      | @name c cs hc hcs =>
        have hrun := Pattern.le_run_append hcs tail
        refine ⟨_, length?_eq_some_iff.2 ⟨if_pos hc, fun _ _ => rfl⟩, ?_⟩
        rw [List.length_cons, Nat.add_comm]
        exact Nat.add_le_add_left hrun 1

end Rule

/-! ## The order of the rules -/

/-- Whether a text that a pattern stands for (`Pattern.Describes`) may begin with a character. Most
rules are told apart by this. -/
def Pattern.begins : Pattern → Char → Bool
  | blanks, c => isBlank c
  | comment, c => c == '/'
  | fixed text, c => text.head? == some c
  | decimal, c | integer, c => c.isDigit
  | character, c => c == '\''
  | quoted, c => c == '"'
  | name, c => isNameStart c

/-- What a pattern stands for begins with one of the characters that `Pattern.begins` allows. -/
theorem Pattern.Describes.begins {pattern : Pattern} {text : List Char}
    (h : pattern.Describes text) : ∃ c rest, text = c :: rest ∧ pattern.begins c = true := by
  cases h with
  | blanks hne hblank =>
    obtain ⟨c, rest, rfl⟩ := List.exists_cons_of_ne_nil hne
    exact ⟨c, rest, rfl, hblank c List.mem_cons_self⟩
  | comment => exact ⟨_, _, rfl, rfl⟩
  | fixed hne =>
    obtain ⟨c, rest, rfl⟩ := List.exists_cons_of_ne_nil hne
    exact ⟨c, rest, rfl, beq_self_eq_true _⟩
  | decimal hne hds =>
    obtain ⟨d, ds, rfl⟩ := List.exists_cons_of_ne_nil hne
    exact ⟨d, _, rfl, hds d List.mem_cons_self⟩
  | zero => exact ⟨_, _, rfl, rfl⟩
  | integer _ hds => exact ⟨_, _, rfl, hds _ List.mem_cons_self⟩
  | character | quoted => exact ⟨_, _, rfl, rfl⟩
  | name hc => exact ⟨_, _, rfl, hc⟩

namespace Rule

variable {rule other : Rule} {cs : List Char} {m n : Nat}

/-- Where both rules find something the first one takes more, or it is that of a reserved word and
the second one that for `names`, and they take the same. So the order of the rules agrees with the
longest match. -/
def Outdoes (rule other : Rule) : Prop :=
  ∀ ⦃cs n m⦄, rule.length? cs = some n → other.length? cs = some m →
    m < n ∨ m = n ∧ rule.Reserves other

/-- What a rule finds (`Rule.length?`) begins as its pattern says. -/
theorem begins_of_length? (hmem : rule ∈ all) (h : rule.length? cs = some n) :
    ∃ c rest, cs = c :: rest ∧ rule.pattern.begins c = true := by
  have happlies := applies_of_length? hmem h
  obtain ⟨text, tail, rfl, -, hdescribed, -⟩ := happlies.split
  obtain ⟨c, rest, rfl, hc⟩ := hdescribed.begins
  exact ⟨c, rest ++ tail, rfl, hc⟩

/-- Two rules for texts that begin differently never find something at the same place, so either of
them `Outdoes` the other. -/
theorem outdoes_of_apart (hrule : rule ∈ all) (hother : other ∈ all)
    (h : ∀ c, rule.pattern.begins c = true → other.pattern.begins c = false) :
    rule.Outdoes other := by
  intro cs n m hn hm
  obtain ⟨c, rest, rfl, hc⟩ := begins_of_length? hrule hn
  obtain ⟨d, _, heq, hd⟩ := begins_of_length? hother hm
  cases heq
  exact absurd ((h c hc).symm.trans hd) Bool.false_ne_true

/-- A reserved word begins like a name (`Pattern.isNameStart`). -/
theorem isNameStart_of_begins {kind : TokenKind} (hkind : kind ∈ TokenKind.words) {c : Char}
    (h : (word kind).pattern.begins c = true) : Pattern.isNameStart c = true :=
  (TokenKind.text_of_mem_words kind hkind).2.2 c (beq_iff_eq.1 h)

/-- A mark begins with no blank (`Pattern.isBlank`), and not like a name, a number or a literal
between quotes. -/
theorem of_begins_mark {kind : TokenKind} (hkind : kind ∈ TokenKind.marks) {c : Char}
    (h : (mark kind).pattern.begins c = true) :
    Pattern.isBlank c = false ∧ Pattern.isNamePart c = false ∧ c ≠ '\'' ∧ c ≠ '"' := by
  have hall := (TokenKind.text_of_mem_marks kind hkind).2 c (List.mem_of_head? (beq_iff_eq.1 h))
  exact ⟨hall.1, hall.2.1, hall.2.2.1, hall.2.2.2.1⟩

/-- A literal begins like a name or a number (`Pattern.isNamePart`), or with a quote. -/
theorem of_begins_literal (hmem : rule ∈ literals) {c : Char}
    (h : rule.pattern.begins c = true) :
    Pattern.isNamePart c = true ∨ c = '\'' ∨ c = '"' := by
  simp only [literals, List.mem_cons, List.not_mem_nil, or_false] at hmem
  rcases hmem with rfl | rfl | rfl | rfl | rfl
  · exact .inl (Pattern.isNamePart_of_isDigit h)
  · exact .inl (Pattern.isNamePart_of_isDigit h)
  · exact .inr (.inl (beq_iff_eq.1 h))
  · exact .inr (.inr (beq_iff_eq.1 h))
  · exact .inl (Pattern.isNamePart_of_isNameStart h)

/-- What is left out as blank (`Pattern.isBlank`) begins like nothing else. -/
theorem isBlank_of_begins (hmem : rule ∈ all) (hvoid : rule ∉ voids) {c : Char}
    (h : rule.pattern.begins c = true) : Pattern.isBlank c = false := by
  rcases mem_all_iff.1 hmem with hvoid' | ⟨kind, hkind, rfl⟩ | ⟨kind, hkind, rfl⟩ | hliteral
  · exact absurd hvoid' hvoid
  · exact Pattern.isBlank_of_isNamePart
      (Pattern.isNamePart_of_isNameStart (isNameStart_of_begins hkind h))
  · exact (of_begins_mark hkind h).1
  · rcases of_begins_literal hliteral h with hpart | rfl | rfl
    · exact Pattern.isBlank_of_isNamePart hpart
    · rfl
    · rfl

/-- A comment `Outdoes` any mark that it begins with, such as the one for division: it is longer. -/
theorem outdoes_comment {kind : TokenKind} (hkind : kind ∈ TokenKind.marks) :
    Outdoes ⟨.comment, .blank, .free⟩ (mark kind) := by
  have hslash : ∀ kind ∈ TokenKind.marks, kind.text.toList.head? = some '/' →
      kind.text.toList.length = 1 := by decide
  intro cs n m hn hm
  obtain ⟨rest, rfl, rfl⟩ := Pattern.exists_of_comment (length?_eq_some_iff.1 hn).1
  obtain ⟨hbegins, rfl⟩ := (length?_mark hkind).1 hm
  have hhead := Token.head?_of_prefix (TokenKind.text_of_mem_marks kind hkind).1 hbegins
  have hlength := hslash kind hkind hhead
  exact .inl (by omega)

/-- What is left out (`Rule.voids`) is longer than whatever else is found there. -/
theorem outdoes_void (hvoid : rule ∈ voids) (hmem : other ∈ all) (hother : other ∉ voids) :
    rule.Outdoes other := by
  have hrule : rule ∈ all := mem_all_iff.2 (.inl hvoid)
  simp only [voids, List.mem_cons, List.not_mem_nil, or_false] at hvoid
  rcases hvoid with rfl | rfl
  · refine outdoes_of_apart hrule hmem fun c hc => Bool.eq_false_iff.2 fun hbegins => ?_
    exact Bool.false_ne_true ((isBlank_of_begins hmem hother hbegins).symm.trans hc)
  · rcases mem_all_iff.1 hmem with hvoid | ⟨kind, hkind, rfl⟩ | ⟨kind, hkind, rfl⟩ | hliteral
    · exact absurd hvoid hother
    · refine outdoes_of_apart hrule hmem fun c hc => Bool.eq_false_iff.2 fun hbegins => ?_
      rw [beq_iff_eq.1 hc] at hbegins
      exact absurd (isNameStart_of_begins hkind hbegins) (by decide)
    · exact outdoes_comment hkind
    · refine outdoes_of_apart hrule hmem fun c hc => Bool.eq_false_iff.2 fun hbegins => ?_
      rw [beq_iff_eq.1 hc] at hbegins
      exact absurd (of_begins_literal hliteral hbegins) (by decide)

/-- Of two reserved words only one is found at a place, so each of them `Outdoes` the other. -/
theorem outdoes_words {kind kind' : TokenKind} (hkind : kind ∈ TokenKind.words)
    (hkind' : kind' ∈ TokenKind.words) (hne : kind ≠ kind') :
    (word kind).Outdoes (word kind') := by
  have htexts : ∀ kind ∈ TokenKind.words, ∀ kind' ∈ TokenKind.words,
      kind.text.toList = kind'.text.toList → kind = kind' := by decide
  intro cs n m hn hm
  obtain ⟨⟨tail, rfl⟩, rfl, hfollows⟩ := (length?_word hkind).1 hn
  rw [List.drop_left] at hfollows
  obtain ⟨-, hall, -⟩ := TokenKind.text_of_mem_words kind hkind
  rw [Token.length?_word_append hkind' hall hfollows] at hm
  split at hm
  · next heq => exact absurd (htexts kind' hkind' kind hkind heq).symm hne
  · cases hm

/-- A reserved word is found where the rule for names (`Rule.names`) finds the same. -/
theorem outdoes_names {kind : TokenKind} (hkind : kind ∈ TokenKind.words) :
    (word kind).Outdoes names := by
  intro cs n m hn hm
  obtain ⟨⟨tail, rfl⟩, rfl, hfollows⟩ := (length?_word hkind).1 hn
  rw [List.drop_left] at hfollows
  obtain ⟨hne, hall, hstart⟩ := TokenKind.text_of_mem_words kind hkind
  obtain ⟨c, rest, htext⟩ := List.exists_cons_of_ne_nil hne
  rw [htext] at hm hall hstart ⊢
  rw [names, Token.length?_name_append (hstart c rfl) (List.forall_mem_cons.1 hall).2
    hfollows] at hm
  cases hm
  exact .inr ⟨rfl, ⟨kind, hkind, rfl⟩, rfl⟩

/-- A mark `Outdoes` another one unless its text is how the other one begins: where both are found,
it is the longer one. -/
theorem outdoes_marks {kind kind' : TokenKind} (hkind : kind ∈ TokenKind.marks)
    (hkind' : kind' ∈ TokenKind.marks) (h : ¬ kind.text.toList <+: kind'.text.toList) :
    (mark kind).Outdoes (mark kind') := by
  intro cs n m hn hm
  obtain ⟨hbegins, rfl⟩ := (length?_mark hkind).1 hn
  obtain ⟨hbegins', rfl⟩ := (length?_mark hkind').1 hm
  rcases List.prefix_or_prefix_of_prefix hbegins hbegins' with hfront | hfront
  · exact absurd hfront h
  · refine .inl (Nat.lt_of_le_of_ne hfront.length_le fun hlength => h ?_)
    exact hfront.eq_of_length hlength ▸ List.prefix_rfl

/-- A decimal is found where no integer is, since a point follows its first digits. -/
theorem outdoes_decimal :
    Outdoes ⟨.decimal, .doubleLiteral, .word⟩ ⟨.integer, .intLiteral, .number⟩ := by
  intro cs n m hn hm
  have hmem : ⟨.integer, .intLiteral, .number⟩ ∈ literals := .tail _ (.head _)
  have happlies := applies_of_length? (mem_all_iff.2 (.inr (.inr (.inr hmem)))) hm
  obtain ⟨text, tail, rfl, -, hdescribed, hfollows⟩ := happlies.split
  have hdigits : ∀ d ∈ text, d.isDigit = true := by
    cases hdescribed with
    | zero => exact List.forall_mem_singleton.2 rfl
    | integer _ hds => exact hds
  have hnone := Token.length?_decimal_eq_none hdigits fun c hc => by
    obtain ⟨hword, hpoint⟩ := Boundary.of_number_accepts (hfollows c hc)
    exact ⟨Boundary.isDigit_of_word_accepts hword, hpoint⟩
  cases hnone.symm.trans hn

/-- The texts for literals and names (`Rule.literals`) begin differently, but for the two sorts of
numbers. -/
theorem pairwise_literals : literals.Pairwise Outdoes := by
  have hdigit : ∀ other ∈ literals.drop 2, ∀ c : Char, c.isDigit = true →
      other.pattern.begins c = false := by
    intro other hother c hc
    simp only [literals, List.drop_succ_cons, List.drop_zero, List.mem_cons, List.not_mem_nil,
      or_false] at hother
    have hpart := Pattern.isNamePart_of_isDigit hc
    rcases hother with rfl | rfl | rfl
    · exact beq_false_of_ne (Pattern.ne_of_isNamePart hpart (by decide))
    · exact beq_false_of_ne (Pattern.ne_of_isNamePart hpart (by decide))
    · exact Bool.eq_false_iff.2 fun hstart =>
        Bool.false_ne_true ((Pattern.not_isDigit_of_isNameStart hstart).symm.trans hc)
  have hquote : ∀ other ∈ literals.drop 3, other.pattern.begins '\'' = false := by decide
  have hquotes : ∀ other ∈ literals.drop 4, other.pattern.begins '"' = false := by decide
  have hall {rule : Rule} (n : Nat) (h : rule ∈ literals.drop n) : rule ∈ all :=
    mem_all_iff.2 (.inr (.inr (.inr (List.mem_of_mem_drop h))))
  refine .cons ?_ (.cons ?_ (.cons ?_ (.cons ?_ (List.pairwise_singleton _ _))))
  · refine List.forall_mem_cons.2 ⟨outdoes_decimal, fun other hother => ?_⟩
    exact outdoes_of_apart (hall 0 (.head _)) (hall 2 hother) (hdigit other hother)
  · exact fun other hother =>
      outdoes_of_apart (hall 1 (.head _)) (hall 2 hother) (hdigit other hother)
  · refine fun other hother =>
      outdoes_of_apart (hall 2 (.head _)) (hall 3 hother) fun c hc => ?_
    exact beq_iff_eq.1 hc ▸ hquote other hother
  · refine fun other hother =>
      outdoes_of_apart (hall 3 (.head _)) (hall 4 hother) fun c hc => ?_
    exact beq_iff_eq.1 hc ▸ hquotes other hother

/-- A reserved word is only found where a name is, and there it `Outdoes` the rule for names. -/
theorem outdoes_literal {kind : TokenKind} (hkind : kind ∈ TokenKind.words)
    (hother : other ∈ literals) : (word kind).Outdoes other := by
  have hword : word kind ∈ all := mem_all_iff.2 (.inr (.inl ⟨kind, hkind, rfl⟩))
  have hapart (h : ∀ c, Pattern.isNameStart c = true → other.pattern.begins c = false) :
      (word kind).Outdoes other :=
    outdoes_of_apart hword (mem_all_iff.2 (.inr (.inr (.inr hother)))) fun c hc =>
      h c (isNameStart_of_begins hkind hc)
  simp only [literals, List.mem_cons, List.not_mem_nil, or_false] at hother
  rcases hother with rfl | rfl | rfl | rfl | rfl
  · exact hapart fun c hc => Pattern.not_isDigit_of_isNameStart hc
  · exact hapart fun c hc => Pattern.not_isDigit_of_isNameStart hc
  · exact hapart fun c hc => beq_false_of_ne
      (Pattern.ne_of_isNamePart (Pattern.isNamePart_of_isNameStart hc) (by decide))
  · exact hapart fun c hc => beq_false_of_ne
      (Pattern.ne_of_isNamePart (Pattern.isNamePart_of_isNameStart hc) (by decide))
  · exact outdoes_names hkind

/-- Marks begin differently (`Pattern.begins`) from words and literals. -/
theorem apart_mark {kind : TokenKind} (hkind : kind ∈ TokenKind.marks) {c : Char}
    (hc : Pattern.isNamePart c = true ∨ c = '\'' ∨ c = '"') :
    (mark kind).pattern.begins c = false := by
  refine Bool.eq_false_iff.2 fun hbegins => ?_
  obtain ⟨-, hpart, hquote, hquotes⟩ := of_begins_mark hkind hbegins
  rcases hc with hc | hc | hc
  · exact Bool.false_ne_true (hpart.symm.trans hc)
  · exact hquote hc
  · exact hquotes hc

/-- Of two rules of the table the one that is tried first takes more where both find something, or
it is that of a reserved word and the other one that for `names` (`Outdoes`). -/
theorem outdoes_all : all.Pairwise Outdoes := by
  have hword {kind : TokenKind} (hkind : kind ∈ TokenKind.words) : word kind ∈ all :=
    mem_all_iff.2 (.inr (.inl ⟨kind, hkind, rfl⟩))
  have hmark {kind : TokenKind} (hkind : kind ∈ TokenKind.marks) : mark kind ∈ all :=
    mem_all_iff.2 (.inr (.inr (.inl ⟨kind, hkind, rfl⟩)))
  have hliteral {rule : Rule} (hrule : rule ∈ literals) : rule ∈ all :=
    mem_all_iff.2 (.inr (.inr (.inr hrule)))
  have hvisible : ∀ rule ∈ TokenKind.words.map word ++ (TokenKind.marks.map mark ++ literals),
      rule.kind ≠ .blank := by decide
  have hblanks : Outdoes ⟨.blanks, .blank, .free⟩ ⟨.comment, .blank, .free⟩ := by
    refine outdoes_of_apart (.head _) (.tail _ (.head _)) fun c hc => beq_false_of_ne ?_
    rintro rfl
    cases hc
  have hwords : (TokenKind.words.map word).Pairwise Outdoes := by
    have hnodup : TokenKind.words.Pairwise (· ≠ ·) := by decide
    exact List.pairwise_map.2 (hnodup.imp_of_mem fun ha hb => outdoes_words ha hb)
  have hmarks : (TokenKind.marks.map mark).Pairwise Outdoes := by
    have hlonger : TokenKind.marks.Pairwise fun kind kind' =>
        ¬ kind.text.toList <+: kind'.text.toList := by decide
    exact List.pairwise_map.2 (hlonger.imp_of_mem fun ha hb => outdoes_marks ha hb)
  rw [all_eq]
  have hvoids : voids.Pairwise Outdoes :=
    .cons (List.forall_mem_singleton.2 hblanks) (List.pairwise_singleton _ _)
  refine List.pairwise_append.2 ⟨hvoids,
    List.pairwise_append.2 ⟨hwords, List.pairwise_append.2 ⟨hmarks, pairwise_literals, ?_⟩, ?_⟩, ?_⟩
  · refine List.forall_mem_map.2 fun kind hkind other hother => ?_
    refine outdoes_of_apart (hmark hkind) (hliteral hother) fun c hc => ?_
    refine Bool.eq_false_iff.2 fun hbegins => ?_
    exact Bool.false_ne_true ((apart_mark hkind (of_begins_literal hother hbegins)).symm.trans hc)
  · refine List.forall_mem_map.2 fun kind hkind other hother => ?_
    rcases List.mem_append.1 hother with hother | hother
    · obtain ⟨kind', hkind', rfl⟩ := List.mem_map.1 hother
      exact outdoes_of_apart (hword hkind) (hmark hkind') fun c hc => apart_mark hkind'
        (.inl (Pattern.isNamePart_of_isNameStart (isNameStart_of_begins hkind hc)))
    · exact outdoes_literal hkind hother
  · exact fun void hvoid other hother => outdoes_void hvoid
      (all_eq ▸ List.mem_append_right _ hother) fun hvoid' =>
        hvisible other hother (of_mem_voids hvoid').1

end Rule

namespace Rule

variable {rule other : Rule} {cs : List Char} {m n : Nat}

/-- A rule finds a text that it applies to where nothing follows: at the end of the line the
boundary is kept. -/
theorem Applies.length?_take (hmem : rule ∈ all) (h : rule.Applies cs n) :
    rule.length? (cs.take n) = some n := by
  obtain ⟨text, tail, rfl, rfl, hdescribed, -⟩ := h.split
  have hnone : ∀ c ∈ ([] : List Char).head?, rule.boundary.rejects c = false := by
    intro c hc
    cases hc
  have halone := applies_append hdescribed hnone
  rw [List.append_nil] at halone
  obtain ⟨m, hm, hle⟩ := exists_length?_of_applies hmem halone
  rw [List.take_left, hm, Nat.le_antisymm hle (length?_le hm)]

/-- Of two rules that apply to the same front one is that of a reserved word and the other one that
for `names` (`Reserves`). -/
theorem Applies.eq_or_reserves (hrule : rule ∈ all) (hother : other ∈ all)
    (h : rule.Applies cs n) (h' : other.Applies cs n) :
    other = rule ∨ rule.Reserves other ∨ other.Reserves rule := by
  have hn := h.length?_take hrule
  have hn' := h'.length?_take hother
  have hpair : ∀ a ∈ all, ∀ b ∈ all, b = a ∨ a.Outdoes b ∨ b.Outdoes a :=
    List.Pairwise.forall_of_forall_of_flip (fun _ _ => .inl rfl)
      (outdoes_all.imp fun hab => .inr (.inl hab)) (outdoes_all.imp fun hba => .inr (.inr hba))
  rcases hpair rule hrule other hother with rfl | hab | hba
  · exact .inl rfl
  · rcases hab hn hn' with hlt | ⟨-, hreserves⟩
    · exact absurd hlt (Nat.lt_irrefl n)
    · exact .inr (.inl hreserves)
  · rcases hba hn' hn with hlt | ⟨-, hreserves⟩
    · exact absurd hlt (Nat.lt_irrefl n)
    · exact .inr (.inr hreserves)

/-- No reserved word is the rule for names, so no two rules reserve each other (`Reserves`). -/
theorem Reserves.asymm (h : rule.Reserves other) : ¬ other.Reserves rule := by
  obtain ⟨-, rfl⟩ := h
  rintro ⟨⟨kind, hkind, heq⟩, -⟩
  cases congrArg Rule.kind heq
  exact absurd hkind (by decide)

/-- Only one rule wins (`Wins`), and with one length. -/
theorem Wins.unique (h : rule.Wins cs n) (h' : other.Wins cs m) : rule = other ∧ n = m := by
  obtain rfl : n = m :=
    Nat.le_antisymm (h'.longest rule h.mem n h.applies) (h.longest other h'.mem m h'.applies)
  refine ⟨?_, rfl⟩
  rcases h.first other h'.mem h'.applies with rfl | hreserves
  · rfl
  · rcases h'.first rule h.mem h.applies with rfl | hreserves'
    · rfl
    · exact absurd hreserves' hreserves.asymm

end Rule

namespace Token

variable {cs : List Char}

/-- The rule that decides in `lexeme?`, the first one that finds something, is the one that
`Wins`. -/
theorem wins_of_lexeme? {lexeme : Lexeme} (h : lexeme? cs = some lexeme) :
    ∃ rule : Rule, rule.Wins cs lexeme.length ∧ rule.kind = lexeme.kind := by
  obtain ⟨before, rule, after, hall, hrule, hbefore⟩ := List.findSome?_eq_some_iff.1 h
  obtain ⟨n, hn, rfl⟩ := Option.map_eq_some_iff.1 hrule
  have hmem : rule ∈ Rule.all := hall ▸ List.mem_append_right _ List.mem_cons_self
  have hafter := (List.pairwise_cons.1 (List.pairwise_append.1 (hall ▸ Rule.outdoes_all)).2.1).1
  -- A rule that applies finds something, so it does not stand before the first one that does.
  have hothers : ∀ other ∈ Rule.all, ∀ m, other.Applies cs m →
      ∃ k, m ≤ k ∧ (other = rule ∧ k = n ∨ k < n ∨ k = n ∧ rule.Reserves other) := by
    intro other hother m happlies
    obtain ⟨k, hk, hle⟩ := Rule.exists_length?_of_applies hother happlies
    refine ⟨k, hle, ?_⟩
    rw [hall, List.mem_append, List.mem_cons] at hother
    rcases hother with hother | rfl | hother
    · have hnone := hbefore other hother
      rw [hk] at hnone
      cases hnone
    · exact .inl ⟨rfl, Option.some.inj (hk.symm.trans hn)⟩
    · exact .inr (hafter other hother hn hk)
  refine ⟨rule, ⟨hmem, Rule.applies_of_length? hmem hn, fun other hother m happlies => ?_,
    fun other hother happlies => ?_⟩, rfl⟩
  · obtain ⟨k, hle, h⟩ := hothers other hother m happlies
    show m ≤ n
    omega
  · obtain ⟨k, hle, ⟨rfl, -⟩ | hlt | ⟨-, hreserves⟩⟩ := hothers other hother n happlies
    · exact .inl rfl
    · exact absurd hlt (Nat.not_lt.2 hle)
    · exact .inr hreserves

/-- Nothing is read by `lexeme?` where no rule applies (`Rule.Applies`), and only there. -/
theorem lexeme?_eq_none_iff :
    lexeme? cs = none ↔ ∀ rule ∈ Rule.all, ∀ n, ¬ rule.Applies cs n := by
  refine ⟨fun h rule hmem n happlies => ?_, fun h => ?_⟩
  · obtain ⟨m, hm, -⟩ := Rule.exists_length?_of_applies hmem happlies
    have hnone := List.findSome?_eq_none_iff.1 h rule hmem
    rw [hm] at hnone
    cases hnone
  · refine List.findSome?_eq_none_iff.2 fun rule hmem => Option.map_eq_none_iff.2 ?_
    exact Option.eq_none_iff_forall_ne_some.2 fun n hn =>
      h rule hmem n (Rule.applies_of_length? hmem hn)

/-- What is read by `lexeme?` is told by the rule that wins (`Rule.Wins`), without the order of the
rules. -/
theorem lexeme?_eq_some_iff {lexeme : Lexeme} :
    lexeme? cs = some lexeme ↔
      ∃ rule : Rule, rule.Wins cs lexeme.length ∧ rule.kind = lexeme.kind := by
  refine ⟨wins_of_lexeme?, ?_⟩
  rintro ⟨rule, hwins, hkind⟩
  cases h : lexeme? cs with
  | none => exact absurd hwins.applies (lexeme?_eq_none_iff.1 h rule hwins.mem _)
  | some other =>
    obtain ⟨rule', hwins', hkind'⟩ := wins_of_lexeme? h
    obtain ⟨rfl, hlength⟩ := hwins.unique hwins'
    obtain ⟨kind, n⟩ := lexeme
    obtain ⟨kind', n'⟩ := other
    cases hkind
    cases hkind'
    cases hlength
    rfl

end Token

/-! ## Lexers that let the winning rule decide -/

/-- What a line comes to from a place on where the rule that wins (`Rule.Wins`) always decides: a
lexer without an order of rules. -/
inductive MunchedLine : Position → List Char → Except LexError (List Token) → Prop
  | done : MunchedLine position [] (.ok [])
  /-- No rule applies (`Rule.Applies`), so the character is rejected. -/
  | stuck : (∀ rule ∈ Rule.all, ∀ n, ¬ rule.Applies (c :: cs) n) →
      MunchedLine position (c :: cs) (.error ⟨c, position⟩)
  /-- What is left out has no token. -/
  | blank {rule : Rule} : rule.Wins (c :: cs) n → rule.kind = .blank →
      MunchedLine ⟨position.row, position.column + n⟩ ((c :: cs).drop n) result →
      MunchedLine position (c :: cs) result
  | token {rule : Rule} : rule.Wins (c :: cs) n → rule.kind ≠ .blank →
      MunchedLine ⟨position.row, position.column + n⟩ ((c :: cs).drop n) result →
      MunchedLine position (c :: cs)
        (result.map (Token.ofLexeme ⟨rule.kind, n⟩ position (c :: cs) :: ·))

/-- What the lines from a row on come to (`MunchedLine`). The first line that is rejected is what is
told. -/
inductive MunchedLines : Nat → List (List Char) → Except LexError (List Token) → Prop
  | done : MunchedLines row [] (.ok [Token.atEnd row])
  | stuck : MunchedLine ⟨row, 0⟩ line (.error e) → MunchedLines row (line :: lines) (.error e)
  | line : MunchedLine ⟨row, 0⟩ line (.ok tokens) → MunchedLines (row + 1) lines result →
      MunchedLines row (line :: lines) (result.map (tokens ++ ·))

/-- What a text comes to where the rule that wins always decides (`MunchedLines`). -/
def Munched (text : List Char) (result : Except LexError (List Token)) : Prop :=
  MunchedLines 0 (Text.lines text) result

namespace Token

variable {position : Position} {cs : List Char} {result : Except LexError (List Token)}

/-- A line is read by `Token.ofLine` as the rules that win have it (`MunchedLine`). -/
theorem munchedLine_ofLine (position : Position) (cs : List Char) :
    MunchedLine position cs (ofLine position cs) := by
  induction cs using line_induction generalizing position with
  | nil =>
    rw [ofLine]
    exact .done
  | none c rest hnone =>
    rw [ofLine_of_none hnone]
    exact .stuck (lexeme?_eq_none_iff.1 hnone)
  | some cs lexeme hcs hlexeme ih =>
    obtain ⟨c, rest, rfl⟩ := List.exists_cons_of_ne_nil hcs
    obtain ⟨rule, hwins, hkind⟩ := wins_of_lexeme? hlexeme
    obtain ⟨kind, n⟩ := lexeme
    cases hkind
    have hrest := ih (ofLexeme ⟨rule.kind, n⟩ position (c :: rest)).span.stop
    rw [ofLine_of_lexeme? hlexeme hcs]
    by_cases hblank : rule.kind = .blank
    · simp only [if_pos hblank, bind_pure]
      exact .blank hwins hblank hrest
    · simp only [if_neg hblank, bind_pure_comp]
      exact .token hwins hblank hrest

/-- The rules that win read a line in one way only (`MunchedLine`), which is that of
`Token.ofLine`. -/
theorem ofLine_eq_of_munchedLine (h : MunchedLine position cs result) :
    ofLine position cs = result := by
  induction h with
  | done => rw [ofLine]
  | stuck hnone => exact ofLine_of_none (lexeme?_eq_none_iff.2 hnone)
  | @blank c cs n position result rule hwins hblank _ ih =>
    have hlexeme : lexeme? (c :: cs) = some ⟨rule.kind, n⟩ :=
      lexeme?_eq_some_iff.2 ⟨rule, hwins, rfl⟩
    rw [ofLine_of_lexeme? hlexeme (List.cons_ne_nil c cs)]
    simp only [if_pos hblank, bind_pure]
    exact ih
  | @token c cs n position result rule hwins hblank _ ih =>
    have hlexeme : lexeme? (c :: cs) = some ⟨rule.kind, n⟩ :=
      lexeme?_eq_some_iff.2 ⟨rule, hwins, rfl⟩
    rw [ofLine_of_lexeme? hlexeme (List.cons_ne_nil c cs)]
    simp only [if_neg hblank, bind_pure_comp]
    exact congrArg (Except.map _) ih

/-- Lines are read by `ofLines` as the rules that win have them. -/
theorem munchedLines_ofLines (row : Nat) (lines : List (List Char)) :
    MunchedLines row lines (ofLines row lines) := by
  induction lines generalizing row with
  | nil => exact .done
  | cons line lines ih =>
    have hline := munchedLine_ofLine ⟨row, 0⟩ line
    rw [ofLines]
    cases h : ofLine ⟨row, 0⟩ line with
    | error e => exact .stuck (h ▸ hline)
    | ok tokens =>
      simp only [bind_pure_comp]
      exact .line (h ▸ hline) (ih (row + 1))

/-- The rules that win read lines in one way only, the one of `ofLines`. -/
theorem ofLines_eq_of_munchedLines {row : Nat} {lines : List (List Char)}
    (h : MunchedLines row lines result) : ofLines row lines = result := by
  induction h with
  | done => rfl
  | stuck hline => rw [ofLines, ofLine_eq_of_munchedLine hline]; rfl
  | line hline _ ih =>
    rw [ofLines, ofLine_eq_of_munchedLine hline, ih]
    simp only [bind_pure_comp]
    rfl

/-- A text is read as the rules that win have it (`Munched`), and in no other way. -/
theorem ofText_eq_iff_munched {text : List Char} : ofText text = result ↔ Munched text result :=
  ⟨fun h => h ▸ munchedLines_ofLines 0 (Text.lines text), ofLines_eq_of_munchedLines⟩

end Token

/-! ## The places of a line at which a rule is looked for -/

/-- Reading a line comes to a column at which more of the line is left, lexeme by lexeme
(`Token.lexeme?`) from its beginning. -/
inductive Reached (line : List Char) : Nat → Prop
  | start : line ≠ [] → Reached line 0
  | behind : Reached line column → Token.lexeme? (line.drop column) = some lexeme →
      column + lexeme.length < line.length → Reached line (column + lexeme.length)

/-- There is a character at each column that is reached (`Reached`). -/
theorem Reached.lt {line : List Char} {column : Nat} (h : Reached line column) :
    column < line.length := by
  cases h with
  | start hne => exact List.length_pos_iff.2 hne
  | behind _ _ hlt => exact hlt

/-- The longest match is what is read at a column of a line. All is said by `Rule.Applies`, which
knows neither an order of rules nor how patterns are tried. -/
structure MunchesAt (line : List Char) (column : Nat) : Prop where
  /-- What is read there is what a rule applies to, and no rule applies to more (`Rule.Wins`). -/
  longest : ∀ lexeme, Token.lexeme? (line.drop column) = some lexeme →
    ∃ rule : Rule, rule.Wins (line.drop column) lexeme.length ∧ rule.kind = lexeme.kind
  /-- Two rules that apply to the same characters are a reserved word's and that for `Rule.names`,
  and the reserved word is read. -/
  ties : ∀ rule ∈ Rule.all, ∀ other ∈ Rule.all, ∀ n, rule ≠ other →
    rule.Applies (line.drop column) n → other.Applies (line.drop column) n →
    ∃ kind ∈ TokenKind.words, (rule = .word kind ∧ other = .names ∨
      rule = .names ∧ other = .word kind) ∧
      Token.lexeme? (line.drop column) = some ⟨kind, n⟩
  /-- No rule applies there just if the line is rejected there by `Token.ofLine`, for the character
  that stands there. -/
  rejected : ∀ row, (∀ rule ∈ Rule.all, ∀ n, ¬ rule.Applies (line.drop column) n) ↔
    ∃ c, (line.drop column).head? = some c ∧ Token.ofLine ⟨row, 0⟩ line = .error ⟨c, ⟨row, column⟩⟩

namespace Token

variable {line cs : List Char} {column row : Nat}

/-- Where a reserved word applies, it is what `lexeme?` gives. -/
theorem lexeme?_of_word_applies {kind : TokenKind} {n : Nat} (hkind : kind ∈ TokenKind.words)
    (h : (Rule.word kind).Applies cs n) : lexeme? cs = some ⟨kind, n⟩ := by
  obtain ⟨text, tail, rfl, rfl, hdescribed, htail⟩ := h.split
  cases hdescribed
  exact lexeme?_word hkind htail

/-- What `ofLine` rejects stands where the line begins, or behind. -/
theorem le_of_ofLine_error {position : Position} {e : LexError}
    (h : ofLine position cs = .error e) : position.column ≤ e.position.column := by
  induction cs using line_induction generalizing position with
  | nil =>
    rw [ofLine] at h
    cases h
  | none c rest hnone =>
    rw [ofLine_of_none hnone] at h
    cases h
    exact Nat.le_refl _
  | some cs lexeme hcs hlexeme ih =>
    rw [ofLine_of_lexeme? hlexeme hcs] at h
    rcases Except.bind_eq_error.1 h with hrest | ⟨tokens, -, h⟩
    · exact Nat.le_trans (Nat.le_add_right _ _) (ih hrest)
    · cases h

/-- What is rejected behind a column that is reached (`Reached`) is what the whole line is rejected
for. -/
theorem ofLine_error_iff_of_reached (h : Reached line column) (row : Nat) (e : LexError) :
    ofLine ⟨row, 0⟩ line = .error e ↔
      ofLine ⟨row, column⟩ (line.drop column) = .error e := by
  induction h with
  | start => exact Iff.rfl
  | @behind column lexeme hreached hlexeme hlt ih =>
    have hne : line.drop column ≠ [] := fun hnil => by
      rw [List.drop_eq_nil_iff] at hnil
      omega
    rw [ih, ofLine_of_lexeme? hlexeme hne, List.drop_drop]
    refine Iff.trans Except.bind_eq_error ⟨?_, .inl⟩
    rintro (hrest | ⟨tokens, -, hpure⟩)
    · exact hrest
    · cases hpure

/-- The longest match is read (`MunchesAt`) at each column that is reached. -/
theorem munchesAt_of_reached (h : Reached line column) : MunchesAt line column where
  longest _ hlexeme := wins_of_lexeme? hlexeme
  ties rule hrule other hother n hne happlies happlies' := by
    rcases happlies.eq_or_reserves hrule hother happlies' with
      rfl | ⟨⟨kind, hkind, rfl⟩, rfl⟩ | ⟨⟨kind, hkind, rfl⟩, rfl⟩
    · exact absurd rfl hne
    · exact ⟨kind, hkind, .inl ⟨rfl, rfl⟩, lexeme?_of_word_applies hkind happlies⟩
    · exact ⟨kind, hkind, .inr ⟨rfl, rfl⟩, lexeme?_of_word_applies hkind happlies'⟩
  rejected row := by
    have hne : line.drop column ≠ [] := fun hnil =>
      absurd (List.drop_eq_nil_iff.1 hnil) (Nat.not_le.2 h.lt)
    obtain ⟨c, rest, hdrop⟩ := List.exists_cons_of_ne_nil hne
    rw [← lexeme?_eq_none_iff]
    simp only [ofLine_error_iff_of_reached h, hdrop, List.head?_cons, Option.some.injEq,
      exists_eq_left']
    refine ⟨ofLine_of_none, fun herror => ?_⟩
    · refine Option.eq_none_iff_forall_ne_some.2 fun lexeme hlexeme => ?_
      -- Behind the lexeme what is rejected stands at a later column.
      rw [ofLine_of_lexeme? hlexeme (List.cons_ne_nil c rest)] at herror
      rcases Except.bind_eq_error.1 herror with hrest | ⟨tokens, -, hpure⟩
      · have hle : column + lexeme.length ≤ column := le_of_ofLine_error hrest
        have hpos := lexeme?_length_pos hlexeme
        omega
      · cases hpure

/-- At every place of a line that is reached the longest match is read (`MunchesAt`), a reserved
word before a name, and the line is rejected where there is none. So every text has the tokens, or
is rejected for the character, that it has where the rule that wins always decides (`Munched`). -/
theorem maximalMunch :
    (∀ line column, Reached line column → MunchesAt line column) ∧
      ∀ text result, ofText text = result ↔ Munched text result :=
  ⟨fun _ _ => munchesAt_of_reached, fun _ _ => ofText_eq_iff_munched⟩

end Token

/-- Marks that begin alike, a reserved word that begins like another one, and a comment: in most
places more than one rule `Applies`. -/
def chainedLine : List Char := "x<=elseif//=".toList

/-- In `chainedLine` the longest match is read behind a mark, and everywhere else in the line. -/
theorem chainedLine_munched : Reached chainedLine 3 ∧ MunchesAt chainedLine 3 ∧
    Munched chainedLine (.ok
      [⟨.identifier, some "x", ⟨⟨0, 0⟩, ⟨0, 1⟩⟩⟩, ⟨.lessEqual, none, ⟨⟨0, 1⟩, ⟨0, 3⟩⟩⟩,
        ⟨.elseifWord, none, ⟨⟨0, 3⟩, ⟨0, 9⟩⟩⟩, Token.atEnd 1]) := by
  have hlines : Text.lines chainedLine = [chainedLine] := by decide
  have hname : Token.lexeme? (chainedLine.drop 0) = some ⟨.identifier, 1⟩ := by decide
  have hmark : Token.lexeme? (chainedLine.drop 1) = some ⟨.lessEqual, 2⟩ := by decide
  have hreached : Reached chainedLine 3 :=
    .behind (.behind (.start (by decide)) hname (by decide)) hmark (by decide)
  refine ⟨hreached, Token.maximalMunch.1 _ _ hreached, (Token.maximalMunch.2 _ _).1 ?_⟩
  simp only [Token.ofText, hlines, Token.ofLines, Token.ofLine_eq_upTo]
  rfl

end UnitScript
