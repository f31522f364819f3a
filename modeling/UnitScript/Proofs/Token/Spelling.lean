import UnitScript.Proofs.Token.Lexer

/-!
# How tokens are written

`Spelled kind text` says which texts are tokens of a kind, one form for each sort of rule. Lexemes
are spelled in this way, except where the identifier rule takes a reserved word that the boundary
of its own rule has kept it from, and then no lexeme follows (`Token.spelled_of_lexeme?`).
Conversely, a spelled text in front of anything that does not go on with it is read as a lexeme of
its kind again (`Token.lexeme?_of_spelled`), whatever stood around it before.
-/

namespace UnitScript

namespace TokenKind

/-- The kinds of reserved words, in the order in which their rules are tried (`Rule.all_eq`). -/
def words : List TokenKind :=
  [doubleWord, intWord, charWord, boolWord, stringWord, physWord, unitWord, voidWord, ifWord,
   elseifWord, elseWord, trueWord, falseWord, functionWord, returnWord, whileWord, breakWord,
   continueWord, orWord, andWord, notWord]

/-- The kinds of operators and punctuation marks, in the order in which their rules are tried
(`Rule.all_eq`). -/
def marks : List TokenKind :=
  [arrow, comma, leftBrace, rightBrace, dot, equalEqual, equal, leftParen, rightParen, semicolon,
   colon, plus, minus, star, slash, lessEqual, greaterEqual, less, greater, bangEqual, pipe,
   ampersand]

/-- Whether a character behind a token of a kind makes another token of it, or none. Where it does
not, the token is read as it is spelled (`lexeme?_of_spelled`). -/
def goesOn (kind : TokenKind) (c : Char) : Bool :=
  if kind ∈ words then Boundary.word.rejects c
  else if kind ∈ marks then c == '>' || c == '=' || c == '/'
  else match kind with
    | identifier | doubleLiteral => Boundary.word.rejects c
    | intLiteral => Boundary.number.rejects c
    | _ => false

end TokenKind

/-- The text of a reserved word, as `TokenKind.text` shows it. -/
def Reserved (text : List Char) : Prop :=
  ∃ kind ∈ TokenKind.words, kind.text.toList = text

/-- How tokens of a kind are written. A name must not be that of a reserved word (`Reserved`), and
an integer has no zeros in front. -/
inductive Spelled : TokenKind → List Char → Prop
  | word : kind ∈ TokenKind.words → Spelled kind kind.text.toList
  | mark : kind ∈ TokenKind.marks → Spelled kind kind.text.toList
  /-- Digits on both sides of a point. -/
  | decimal : ds ≠ [] → (∀ d ∈ ds, d.isDigit = true) → es ≠ [] → (∀ e ∈ es, e.isDigit = true) →
      Spelled .doubleLiteral (ds ++ '.' :: es)
  /-- A lone zero, or digits that do not begin with zero. -/
  | integer : (d = '0' → ds = []) → (∀ e ∈ d :: ds, e.isDigit = true) →
      Spelled .intLiteral (d :: ds)
  | character : c ≠ '\n' → Spelled .charLiteral ['\'', c, '\'']
  | quoted : '"' ∉ cs → Spelled .stringLiteral ('"' :: (cs ++ ['"']))
  | name : Pattern.isNameStart c = true → (∀ d ∈ cs, Pattern.isNamePart d = true) →
      ¬ Reserved (c :: cs) → Spelled .identifier (c :: cs)

/-! ## Characters -/

namespace Pattern

variable {c d : Char}

/-- A digit continues a name (`isNamePart`). -/
theorem isNamePart_of_isDigit (h : c.isDigit = true) : isNamePart c = true := by
  simp [isNamePart, Char.isAlphanum, h]

/-- What begins a name (`isNameStart`) continues one. -/
theorem isNamePart_of_isNameStart (h : isNameStart c = true) : isNamePart c = true := by
  rw [isNameStart, Bool.or_eq_true] at h
  rcases h with h | h <;> simp [isNamePart, Char.isAlphanum, h]

/-- The letters of ASCII (`Char.isAlpha`) stand in two ranges of code points. -/
theorem isAlpha_iff_toNat : c.isAlpha = true ↔
    'A'.toNat ≤ c.toNat ∧ c.toNat ≤ 'Z'.toNat ∨ 'a'.toNat ≤ c.toNat ∧ c.toNat ≤ 'z'.toNat := by
  have hupper : c.isUpper = true ↔ 'A'.toNat ≤ c.toNat ∧ c.toNat ≤ 'Z'.toNat :=
    decide_eq_true_iff
  have hlower : c.isLower = true ↔ 'a'.toNat ≤ c.toNat ∧ c.toNat ≤ 'z'.toNat := by
    show (decide _ && decide _) = true ↔ _
    rw [Bool.and_eq_true, decide_eq_true_iff, decide_eq_true_iff]
    exact Iff.rfl
  rw [← hupper, ← hlower, ← Bool.or_eq_true]
  exact Iff.rfl

/-- What begins a name (`isNameStart`) is no digit, so a number is never a name. -/
theorem not_isDigit_of_isNameStart (h : isNameStart c = true) : c.isDigit = false := by
  refine Bool.eq_false_iff.2 fun hdigit => ?_
  rw [isNameStart, Bool.or_eq_true, beq_iff_eq, isAlpha_iff_toNat] at h
  rw [Char.isDigit_iff_toNat] at hdigit
  rcases h with h | rfl
  · simp only [Char.reduceToNat] at h hdigit
    omega
  · exact absurd hdigit (by decide)

/-- A character that continues a name (`isNamePart`) is another one than one that does not. -/
theorem ne_of_isNamePart (h : isNamePart c = true) (hd : isNamePart d = false) : c ≠ d :=
  fun heq => Bool.false_ne_true (hd.symm.trans (heq ▸ h))

/-- A character that continues a name is not blank (`isBlank`), so blanks part words. -/
theorem isBlank_of_isNamePart (h : isNamePart c = true) : isBlank c = false := by
  refine Bool.eq_false_iff.2 fun hblank => ?_
  simp only [isBlank, Bool.or_eq_true, beq_iff_eq] at hblank
  rcases hblank with ((rfl | rfl) | rfl) | rfl <;> exact absurd h (by decide)

/-- The characters of names (`isNamePart`) are ASCII. -/
theorem toNat_lt_of_isNamePart (h : isNamePart c = true) : c.toNat < 128 := by
  rw [isNamePart, Bool.or_eq_true, beq_iff_eq, Char.isAlphanum, Bool.or_eq_true,
    isAlpha_iff_toNat, Char.isDigit_iff_toNat] at h
  rcases h with h | rfl
  · simp only [Char.reduceToNat] at h
    omega
  · decide

end Pattern

namespace TokenKind

/-- Reserved words are written like names, as `TokenKind.text` writes them. -/
theorem text_of_mem_words : ∀ kind ∈ words,
    kind.text.toList ≠ [] ∧ (∀ c ∈ kind.text.toList, Pattern.isNamePart c = true) ∧
      ∀ c ∈ kind.text.toList.head?, Pattern.isNameStart c = true := by
  have hcheck : ∀ kind ∈ words, kind.text.toList ≠ [] ∧
      kind.text.toList.all Pattern.isNamePart = true ∧
        kind.text.toList.head?.all Pattern.isNameStart = true := by decide
  simpa only [List.all_eq_true, Option.all_eq_true, Option.mem_def] using hcheck

/-- Marks (`TokenKind.text`) are not empty, and none of their characters is blank, a quote or one of
a name. -/
theorem text_of_mem_marks : ∀ kind ∈ marks,
    kind.text.toList ≠ [] ∧ ∀ c ∈ kind.text.toList, Pattern.isBlank c = false ∧
      Pattern.isNamePart c = false ∧ c ≠ '\'' ∧ c ≠ '"' ∧ c.toNat < 128 := by
  have hcheck : ∀ kind ∈ marks, kind.text.toList ≠ [] ∧
      kind.text.toList.all (fun c => Pattern.isBlank c = false ∧
        Pattern.isNamePart c = false ∧ c ≠ '\'' ∧ c ≠ '"' ∧ c.toNat < 128) = true := by decide
  simpa only [List.all_eq_true, decide_eq_true_eq] using hcheck

end TokenKind

/-- A token that is `Spelled` begins with a character of ASCII that is not blank. -/
theorem Spelled.head (h : Spelled kind text) :
    ∃ c cs, text = c :: cs ∧ Pattern.isBlank c = false ∧ c.toNat < 128 := by
  have hpart {c : Char} (h : Pattern.isNamePart c = true) :
      Pattern.isBlank c = false ∧ c.toNat < 128 :=
    ⟨Pattern.isBlank_of_isNamePart h, Pattern.toNat_lt_of_isNamePart h⟩
  cases h with
  | word hkind =>
    obtain ⟨hne, hall, -⟩ := TokenKind.text_of_mem_words kind hkind
    obtain ⟨c, cs, htext⟩ := List.exists_cons_of_ne_nil hne
    exact ⟨c, cs, htext, hpart (hall c (htext ▸ List.mem_cons_self))⟩
  | mark hkind =>
    obtain ⟨hne, hall⟩ := TokenKind.text_of_mem_marks kind hkind
    obtain ⟨c, cs, htext⟩ := List.exists_cons_of_ne_nil hne
    obtain ⟨hblank, -, -, -, hascii⟩ := hall c (htext ▸ List.mem_cons_self)
    exact ⟨c, cs, htext, hblank, hascii⟩
  | decimal hne hds =>
    obtain ⟨d, ds, rfl⟩ := List.exists_cons_of_ne_nil hne
    exact ⟨d, _, rfl, hpart (Pattern.isNamePart_of_isDigit (hds d List.mem_cons_self))⟩
  | integer _ hds =>
    exact ⟨_, _, rfl, hpart (Pattern.isNamePart_of_isDigit (hds _ List.mem_cons_self))⟩
  | character | quoted => exact ⟨_, _, rfl, by decide⟩
  | name hc => exact ⟨_, _, rfl, hpart (Pattern.isNamePart_of_isNameStart hc)⟩

/-! ## Runs -/

namespace Pattern

variable {test : Char → Bool} {cs tail : List Char} {n : Nat}

/-- A text is a front whose characters pass a test (`Pattern.run`) and a rest that does not begin
with such. -/
theorem exists_run (test : Char → Bool) (cs : List Char) :
    ∃ front tail, cs = front ++ tail ∧ (∀ c ∈ front, test c = true) ∧
      ∀ c ∈ tail.head?, test c = false := by
  refine ⟨cs.takeWhile test, cs.dropWhile test, List.takeWhile_append_dropWhile.symm,
    fun c hc => List.all_eq_true.1 List.all_takeWhile c hc, fun c hc => ?_⟩
  have hstop := List.head?_dropWhile_not test cs
  rw [Option.mem_def.1 hc] at hstop
  exact hstop

/-- A run (`Pattern.run`) ends in front of a character that fails the test. -/
theorem run_append (hcs : ∀ c ∈ cs, test c = true) (htail : ∀ c ∈ tail.head?, test c = false) :
    run test (cs ++ tail) = cs.length := by
  have hnone : tail.takeWhile test = [] := by
    cases tail with
    | nil => rfl
    | cons c tail => exact List.takeWhile_cons_of_neg (Bool.not_eq_true _ ▸ htail c rfl)
  rw [run, List.takeWhile_append_of_pos hcs, hnone, List.append_nil]

/-! ## What patterns take -/

/-- A fixed text (`Pattern.fixed`) is taken as it is, where it stands in front. -/
theorem length?_fixed {text : List Char} (htext : text ≠ []) :
    (fixed text).length? cs = some n ↔ text <+: cs ∧ n = text.length := by
  rw [length?]
  split
  · next h =>
    have hbegins := List.isPrefixOf_iff_prefix.1 h.2
    simp [hbegins, eq_comm]
  · next h =>
    have hbegins : ¬ text <+: cs := fun hbegins =>
      h ⟨htext, List.isPrefixOf_iff_prefix.2 hbegins⟩
    simp [hbegins]

/-- A comment (`Pattern.comment`) begins with two slashes, and goes on to the end of its line. -/
theorem exists_of_comment (h : comment.length? cs = some n) :
    ∃ rest, cs = '/' :: '/' :: rest ∧ n = 2 + run (· != '\n') rest := by
  unfold length? at h
  split at h
  case h_2 rest _ => exact ⟨rest, rfl, (Option.some.inj h).symm⟩
  all_goals contradiction

/-- Blanks (`Pattern.blanks`) are taken for as long as they last. -/
theorem exists_of_blanks (h : blanks.length? cs = some n) :
    ∃ c front tail, cs = c :: front ++ tail ∧ (∀ d ∈ c :: front, isBlank d = true) ∧
      n = (c :: front).length := by
  obtain ⟨front, tail, rfl, hfront, htail⟩ := exists_run isBlank cs
  rw [length?, run_append hfront htail] at h
  split at h
  · cases h
  · next hne =>
    cases h
    obtain ⟨c, front, rfl⟩ := List.exists_cons_of_ne_nil (mt (congrArg List.length) hne)
    exact ⟨c, front, tail, rfl, hfront, rfl⟩

/-- What `Pattern.decimal` takes is written like a double (`Spelled`). -/
theorem spelled_of_decimal (h : decimal.length? cs = some n) :
    Spelled .doubleLiteral (cs.take n) := by
  obtain ⟨ds, tail, rfl, hds, htail⟩ := exists_run Char.isDigit cs
  rw [length?, run_append hds htail, List.drop_left] at h
  split at h
  · next _ rest =>
    obtain ⟨es, tail, rfl, hes, htail⟩ := exists_run Char.isDigit rest
    rw [run_append hes htail] at h
    split at h
    · cases h
    · next hne =>
      cases h
      obtain ⟨hds', hes'⟩ := not_or.1 hne
      have htake : (ds ++ '.' :: (es ++ tail)).take (ds.length + 1 + es.length) =
          ds ++ '.' :: es := by
        rw [← List.cons_append, ← List.append_assoc]
        exact List.take_left' (by simp; omega)
      rw [htake]
      exact .decimal (mt (congrArg List.length) hds') hds (mt (congrArg List.length) hes') hes
  · cases h

/-- What `Pattern.integer` takes is written like an integer (`Spelled`). -/
theorem spelled_of_integer (h : integer.length? cs = some n) : Spelled .intLiteral (cs.take n) := by
  cases cs with
  | nil => cases h
  | cons c rest =>
    rw [length?] at h
    split at h
    · next hzero =>
      cases h
      cases hzero
      exact .integer (fun _ => rfl) (by simp)
    · next hzero =>
      split at h
      · next hdigit =>
        obtain ⟨ds, tail, rfl, hds, htail⟩ := exists_run Char.isDigit rest
        cases h
        rw [run_append hds htail, Nat.add_comm, List.take_succ_cons, List.take_left]
        exact .integer (fun h => absurd h hzero) (List.forall_mem_cons.2 ⟨hdigit, hds⟩)
      · cases h

/-- What `Pattern.character` takes is written like a character (`Spelled`). -/
theorem spelled_of_character (h : character.length? cs = some n) :
    Spelled .charLiteral (cs.take n) := by
  unfold length? at h
  split at h
  case h_6 c rest _ =>
    split at h
    · cases h
    · next hc =>
      cases h
      exact .character hc
  all_goals contradiction

/-- What `Pattern.quoted` takes is written like a text between double quotes (`Spelled`). -/
theorem spelled_of_quoted (h : quoted.length? cs = some n) :
    Spelled .stringLiteral (cs.take n) := by
  unfold length? at h
  split at h
  case h_7 rest _ =>
    obtain ⟨body, tail, rfl, hbody, htail⟩ := exists_run (· != '"') rest
    rw [run_append hbody htail] at h
    have hnotMem : '"' ∉ body := fun hmem => by simpa using hbody _ hmem
    split at h
    · next hquote =>
      cases h
      cases tail with
      | nil => exact absurd (List.contains_iff_mem.1 hquote) (by simpa using hnotMem)
      | cons c tail =>
        have hc : c = '"' := by simpa using htail c rfl
        subst hc
        have htake : (body ++ '"' :: tail).take (body.length + 1) = body ++ ['"'] := by
          rw [List.append_cons]
          exact List.take_left' List.length_append
        rw [List.take_succ_cons, htake]
        exact .quoted hnotMem
    · cases h
  all_goals contradiction

/-- A name (`Pattern.name`) is taken to the first character that does not continue it. -/
theorem exists_of_name (h : name.length? cs = some n) :
    ∃ c ds tail, cs = c :: (ds ++ tail) ∧ isNameStart c = true ∧
      (∀ d ∈ ds, isNamePart d = true) ∧ (∀ d ∈ tail.head?, isNamePart d = false) ∧
      n = ds.length + 1 := by
  cases cs with
  | nil => cases h
  | cons c rest =>
    obtain ⟨ds, tail, rfl, hds, htail⟩ := exists_run isNamePart rest
    rw [length?, run_append hds htail] at h
    split at h
    · next hc =>
      cases h
      exact ⟨c, ds, tail, rfl, hc, hds, htail, Nat.add_comm _ _⟩
    · cases h

end Pattern

/-! ## Groups of rules -/

namespace Rule

/-- The rules for what is left out, blanks and comments: the first ones of `Rule.all`. -/
def voids : List Rule := [⟨.blanks, .blank, .free⟩, ⟨.comment, .blank, .free⟩]

/-- The rules for tokens of which no two need to be written alike, the last ones of `Rule.all`. -/
def literals : List Rule :=
  [⟨.decimal, .doubleLiteral, .word⟩, ⟨.integer, .intLiteral, .number⟩,
   ⟨.character, .charLiteral, .free⟩, ⟨.quoted, .stringLiteral, .free⟩,
   ⟨.name, .identifier, .free⟩]

/-- The rule for a reserved word that is written as `TokenKind.text` names it. -/
def word (kind : TokenKind) : Rule := ofWord kind.text kind

/-- The rule for an operator or a mark that is written as `TokenKind.text` names it. -/
def mark (kind : TokenKind) : Rule := ofMark kind.text kind

/-- The rules in groups. The texts of the table `Rule.all` are the ones of `TokenKind.text`: every
word and every mark is read as messages show it. -/
theorem all_eq : all =
    voids ++ (TokenKind.words.map word ++ (TokenKind.marks.map mark ++ literals)) := rfl

variable {cs : List Char} {n : Nat}

/-- A rule applies where its pattern does (`Pattern.length?`) and what follows is not rejected
(`Boundary.rejects`). -/
theorem length?_eq_some_iff {rule : Rule} :
    rule.length? cs = some n ↔ rule.pattern.length? cs = some n ∧
      ∀ c ∈ (cs.drop n).head?, rule.boundary.rejects c = false := by
  unfold length?
  cases rule.pattern.length? cs with
  | none => simp
  | some m =>
    cases hany : (cs.drop m).head?.any rule.boundary.rejects with
    | true =>
      obtain ⟨c, hc, hrejects⟩ := (Option.any_eq_true _ _).1 hany
      simp only [hany, if_true, reduceCtorEq, Option.some.injEq, false_iff, not_and]
      rintro rfl hall
      exact Bool.false_ne_true ((hall c hc).symm.trans hrejects)
    | false =>
      simp only [hany, Bool.false_eq_true, if_false, Option.some.injEq, iff_self_and]
      rintro rfl c hc
      exact Bool.eq_false_iff.2 fun hrejects =>
        Bool.false_ne_true (hany.symm.trans ((Option.any_eq_true _ _).2 ⟨c, hc, hrejects⟩))

/-- A rule (`Rule.length?`) applies nowhere that its pattern does not. -/
theorem length?_eq_none {rule : Rule} (h : rule.pattern.length? cs = none) :
    rule.length? cs = none := by
  rw [length?, h]

/-- The rule for a reserved word (`word`) finds it where its text stands and no longer name does. -/
theorem length?_word {kind : TokenKind} (hkind : kind ∈ TokenKind.words) :
    (word kind).length? cs = some n ↔ kind.text.toList <+: cs ∧ n = kind.text.toList.length ∧
      ∀ c ∈ (cs.drop n).head?, Boundary.word.rejects c = false := by
  rw [length?_eq_some_iff, word, ofWord,
    Pattern.length?_fixed (TokenKind.text_of_mem_words kind hkind).1, and_assoc]

/-- A mark (`Rule.mark`) is found where its text stands, whatever follows. -/
theorem length?_mark {kind : TokenKind} (hkind : kind ∈ TokenKind.marks) :
    (mark kind).length? cs = some n ↔ kind.text.toList <+: cs ∧ n = kind.text.toList.length := by
  rw [length?_eq_some_iff, mark, ofMark,
    Pattern.length?_fixed (TokenKind.text_of_mem_marks kind hkind).1]
  exact and_iff_left fun _ _ => rfl

end Rule

namespace Boundary

/-- A character that continues a name may not follow a word (`Boundary.word`). -/
theorem word_rejects_of_isNamePart {c : Char} (h : Pattern.isNamePart c = true) :
    word.rejects c = true := by
  have hascii := Pattern.toNat_lt_of_isNamePart h
  rwa [rejects, Text.isAlphanumeric_of_lt hascii]

/-- Any other character that may not follow a word (`Boundary.word`) is not ASCII. -/
theorem le_toNat_of_word_rejects {c : Char} (h : word.rejects c = true)
    (hpart : Pattern.isNamePart c = false) : 128 ≤ c.toNat := by
  refine Nat.not_lt.1 fun hascii => ?_
  rw [rejects, Text.isAlphanumeric_of_lt hascii] at h
  exact Bool.false_ne_true (hpart.symm.trans h)

/-- A character that may follow a word (`Boundary.word`) does not continue a name. -/
theorem isNamePart_of_word_accepts {c : Char} (h : word.rejects c = false) :
    Pattern.isNamePart c = false :=
  Bool.eq_false_iff.2 (mt word_rejects_of_isNamePart (Bool.eq_false_iff.1 h))

/-- A character that may follow a word (`Boundary.word`) is no digit. -/
theorem isDigit_of_word_accepts {c : Char} (h : word.rejects c = false) : c.isDigit = false :=
  Bool.eq_false_iff.2
    (mt Pattern.isNamePart_of_isDigit (Bool.eq_false_iff.1 (isNamePart_of_word_accepts h)))

/-- A character that may follow a number (`Boundary.number`) may follow a word, and is no point. -/
theorem of_number_accepts {c : Char} (h : number.rejects c = false) :
    word.rejects c = false ∧ c ≠ '.' := by
  rw [rejects, Bool.or_eq_false_iff, beq_eq_false_iff_ne] at h
  exact h

end Boundary

namespace Rule

/-- The rules for what is left out (`Rule.voids`) make blanks, which begin with a blank character or
a slash. -/
theorem of_mem_voids {rule : Rule} (hmem : rule ∈ voids) :
    rule.kind = .blank ∧ ∀ c cs n, rule.length? (c :: cs) = some n →
      Pattern.isBlank c = true ∨ c = '/' ∧ cs.head? = some '/' := by
  simp only [voids, List.mem_cons, List.not_mem_nil, or_false] at hmem
  rcases hmem with rfl | rfl
  · refine ⟨rfl, fun c cs n h => .inl ?_⟩
    obtain ⟨d, front, tail, heq, hblank, -⟩ :=
      Pattern.exists_of_blanks (length?_eq_some_iff.1 h).1
    cases heq
    exact hblank c List.mem_cons_self
  · refine ⟨rfl, fun c cs n h => .inr ?_⟩
    obtain ⟨rest, heq, -⟩ := Pattern.exists_of_comment (length?_eq_some_iff.1 h).1
    cases heq
    exact ⟨rfl, rfl⟩

/-- What a rule finds is `Spelled` like tokens of its kind, unless it takes a reserved word for a
name. -/
theorem spelled_of_length? {rule : Rule} (hmem : rule ∈ all) (hvoids : rule ∉ voids)
    {cs : List Char} {n : Nat} (h : rule.length? cs = some n) :
    Spelled rule.kind (cs.take n) ∨
      rule = ⟨.name, .identifier, .free⟩ ∧ Reserved (cs.take n) := by
  rw [all_eq, List.mem_append, List.mem_append, List.mem_append, List.mem_map,
    List.mem_map] at hmem
  rcases hmem with hvoid | ⟨kind, hmem, rfl⟩ | ⟨kind, hmem, rfl⟩ | hliteral
  · exact absurd hvoid hvoids
  · obtain ⟨hbegins, rfl, -⟩ := (length?_word hmem).1 h
    exact .inl (List.prefix_iff_eq_take.1 hbegins ▸ .word hmem)
  · obtain ⟨hbegins, rfl⟩ := (length?_mark hmem).1 h
    exact .inl (List.prefix_iff_eq_take.1 hbegins ▸ .mark hmem)
  · obtain ⟨hpattern, -⟩ := length?_eq_some_iff.1 h
    simp only [literals, List.mem_cons, List.not_mem_nil, or_false] at hliteral
    rcases hliteral with rfl | rfl | rfl | rfl | rfl
    · exact .inl (Pattern.spelled_of_decimal hpattern)
    · exact .inl (Pattern.spelled_of_integer hpattern)
    · exact .inl (Pattern.spelled_of_character hpattern)
    · exact .inl (Pattern.spelled_of_quoted hpattern)
    · obtain ⟨c, ds, tail, rfl, hc, hds, -, rfl⟩ := Pattern.exists_of_name hpattern
      rw [List.take_succ_cons, List.take_left]
      by_cases hreserved : Reserved (c :: ds)
      · exact .inr ⟨rfl, hreserved⟩
      · exact .inl (.name hc hds hreserved)

/-- Every rule of `Rule.all` finds lexemes that begin with a character of ASCII. -/
theorem toNat_lt_of_length? {rule : Rule} (hmem : rule ∈ all) {c : Char} {cs : List Char} {n : Nat}
    (h : rule.length? (c :: cs) = some n) : c.toNat < 128 := by
  obtain ⟨n, rfl⟩ := Nat.exists_eq_add_one.2 (length?_pos h)
  have hspelled {kind : TokenKind} {text : List Char} (hspelled : Spelled kind text)
      (htext : text = (c :: cs).take (n + 1)) : c.toNat < 128 := by
    obtain ⟨d, ds, rfl, -, hascii⟩ := hspelled.head
    cases htext
    exact hascii
  by_cases hvoid : rule ∈ voids
  · rcases (of_mem_voids hvoid).2 c cs _ h with hblank | ⟨rfl, -⟩
    · simp only [Pattern.isBlank, Bool.or_eq_true, beq_iff_eq] at hblank
      rcases hblank with ((rfl | rfl) | rfl) | rfl <;> decide
    · decide
  · rcases spelled_of_length? hmem hvoid h with hrule | ⟨-, kind, hword, htext⟩
    · exact hspelled hrule rfl
    · exact hspelled (.word hword) htext

end Rule

namespace Token

variable {cs tail : List Char}

/-- The lexeme of the first of some rules that applies; `lexeme?` is this for all of them. -/
def firstOf (rules : List Rule) (cs : List Char) : Option Lexeme :=
  rules.findSome? fun rule => (rule.length? cs).map (Lexeme.mk rule.kind)

/-- The groups of rules (`Rule.all_eq`) are tried one after the other, each in its own order. -/
theorem lexeme?_eq (cs : List Char) : lexeme? cs =
    (firstOf Rule.voids cs).or ((firstOf (TokenKind.words.map Rule.word) cs).or
      ((firstOf (TokenKind.marks.map Rule.mark) cs).or (firstOf Rule.literals cs))) := by
  simp only [lexeme?, firstOf, Rule.all_eq, List.findSome?_append]

/-- A lexeme of one of some rules (`firstOf`) is found by it. -/
theorem exists_of_firstOf {rules : List Rule} {lexeme : Lexeme}
    (h : firstOf rules cs = some lexeme) :
    ∃ rule ∈ rules, rule.length? cs = some lexeme.length ∧ rule.kind = lexeme.kind := by
  obtain ⟨rule, hmem, hrule⟩ := List.exists_of_findSome?_eq_some h
  obtain ⟨n, hn, rfl⟩ := Option.map_eq_some_iff.1 hrule
  exact ⟨rule, hmem, hn, rfl⟩

/-- Some rules find nothing (`firstOf`) where none of them does. -/
theorem firstOf_eq_none_iff {rules : List Rule} :
    firstOf rules cs = none ↔ ∀ rule ∈ rules, rule.length? cs = none := by
  simp [firstOf]

/-! ## Lexemes are spelled -/

/-- Where a character stands that is not ASCII, there is no lexeme: no rule of `Rule.all` begins
with it. -/
theorem lexeme?_eq_none {c : Char} (hc : 128 ≤ c.toNat) : lexeme? (c :: cs) = none := by
  cases h : lexeme? (c :: cs) with
  | none => rfl
  | some lexeme =>
    obtain ⟨rule, hmem, hrule, -⟩ := exists_rule_of_lexeme? h
    exact absurd (Rule.toNat_lt_of_length? hmem hrule) (Nat.not_lt.2 hc)

/-- Where a name is read, there is no reserved word that the rules for these (`Rule.word`) find. -/
theorem length?_word_eq_none {n : Nat} (h : lexeme? cs = some ⟨.identifier, n⟩)
    {kind : TokenKind} (hword : kind ∈ TokenKind.words) : (Rule.word kind).length? cs = none := by
  rw [lexeme?_eq] at h
  cases hvoids : firstOf Rule.voids cs with
  | some lexeme =>
    rw [hvoids] at h
    cases h
    obtain ⟨rule, hmem, -, hkind⟩ := exists_of_firstOf hvoids
    cases hkind.symm.trans (Rule.of_mem_voids hmem).1
  | none =>
    cases hwords : firstOf (TokenKind.words.map Rule.word) cs with
    | some lexeme =>
      rw [hvoids, hwords] at h
      cases h
      obtain ⟨rule, hmem, -, hkind⟩ := exists_of_firstOf hwords
      obtain ⟨other, hother, rfl⟩ := List.mem_map.1 hmem
      cases hkind
      exact absurd hother (by decide)
    | none => exact firstOf_eq_none_iff.1 hwords _ (List.mem_map_of_mem hword)

/-- Behind a reserved word that is taken for a name stands a character that is not ASCII, at which
the lexer stops (`lexeme?_eq_none`). -/
theorem exists_drop_of_reserved {n : Nat} (h : lexeme? cs = some ⟨.identifier, n⟩)
    (hname : Pattern.name.length? cs = some n) (hreserved : Reserved (cs.take n)) :
    ∃ c rest, cs.drop n = c :: rest ∧ 128 ≤ c.toNat := by
  obtain ⟨kind, hword, htext⟩ := hreserved
  have hlength : kind.text.toList.length = n := by
    rw [htext, List.length_take, Nat.min_eq_left (lexeme?_length_le h)]
  -- The rule for the word would have found it, but for the boundary.
  have hrejected : ¬ ∀ c ∈ (cs.drop n).head?, Boundary.word.rejects c = false := fun haccepts => by
    have hfound := (Rule.length?_word hword).2
      ⟨htext ▸ List.take_prefix _ _, hlength.symm, haccepts⟩
    cases (length?_word_eq_none h hword).symm.trans hfound
  obtain ⟨c, ds, tail, rfl, -, -, htail, rfl⟩ := Pattern.exists_of_name hname
  rw [List.drop_succ_cons, List.drop_left] at hrejected ⊢
  cases tail with
  | nil =>
    refine absurd (fun c hc => ?_) hrejected
    cases hc
  | cons d tail =>
    refine ⟨d, tail, rfl, Boundary.le_toNat_of_word_rejects ?_ (htail d rfl)⟩
    refine Bool.of_not_eq_false fun haccepts => hrejected fun c hc => ?_
    cases hc
    exact haccepts

/-- The lexeme of a token is not found by a rule for what is left out (`Rule.voids`). -/
theorem exists_rule_of_visible {lexeme : Lexeme} (h : lexeme? cs = some lexeme)
    (hkind : lexeme.kind ≠ .blank) :
    ∃ rule ∈ Rule.all, rule ∉ Rule.voids ∧ rule.length? cs = some lexeme.length ∧
      rule.kind = lexeme.kind := by
  obtain ⟨rule, hmem, hrule, hrulekind⟩ := exists_rule_of_lexeme? h
  exact ⟨rule, hmem, fun hvoid => hkind (hrulekind.symm.trans (Rule.of_mem_voids hvoid).1), hrule,
    hrulekind⟩

/-- A lexeme is `Spelled` like tokens of its kind. Otherwise it is a reserved word that is taken for
a name, and then the text is rejected behind it. -/
theorem spelled_of_lexeme? {lexeme : Lexeme} (h : lexeme? cs = some lexeme)
    (hkind : lexeme.kind ≠ .blank) :
    Spelled lexeme.kind (cs.take lexeme.length) ∨
      ∃ c rest, cs.drop lexeme.length = c :: rest ∧ lexeme? (c :: rest) = none := by
  obtain ⟨rule, hmem, hvoids, hrule, hrulekind⟩ := exists_rule_of_visible h hkind
  rcases Rule.spelled_of_length? hmem hvoids hrule with hspelled | ⟨rfl, hreserved⟩
  · exact .inl (hrulekind ▸ hspelled)
  · obtain ⟨kind, n⟩ := lexeme
    cases hrulekind
    obtain ⟨c, rest, hdrop, hc⟩ :=
      exists_drop_of_reserved h (Rule.length?_eq_some_iff.1 hrule).1 hreserved
    exact .inr ⟨c, rest, hdrop, lexeme?_eq_none hc⟩

/-! ## What is spelled is a lexeme -/

variable {text : List Char}

/-- What a text begins with begins a text that it is the front of (`List.IsPrefix`). -/
theorem head?_of_prefix {c : Char} (hne : text ≠ []) (h : text <+: c :: cs) :
    text.head? = some c := by
  cases text with
  | nil => exact absurd rfl hne
  | cons d text => rw [(List.cons_prefix_cons.1 h).1, List.head?_cons]

/-- Nothing is left out (`Rule.voids`) in front of a character that is not blank, nor the first of
two slashes. -/
theorem firstOf_voids_eq_none {c : Char} (hblank : Pattern.isBlank c = false)
    (hslash : c = '/' → cs.head? ≠ some '/') : firstOf Rule.voids (c :: cs) = none := by
  refine firstOf_eq_none_iff.2 fun rule hmem => Option.eq_none_iff_forall_ne_some.2 fun n h => ?_
  rcases (Rule.of_mem_voids hmem).2 c cs n h with hc | ⟨hc, hcs⟩
  · exact Bool.false_ne_true (hblank.symm.trans hc)
  · exact hslash hc hcs

/-- No reserved word (`Rule.word`) stands where no name begins. -/
theorem firstOf_words_eq_none {c : Char} (hc : Pattern.isNameStart c = false) :
    firstOf (TokenKind.words.map Rule.word) (c :: cs) = none := by
  refine firstOf_eq_none_iff.2 (List.forall_mem_map.2 fun kind hmem => ?_)
  refine Option.eq_none_iff_forall_ne_some.2 fun n h => ?_
  obtain ⟨hne, -, hstart⟩ := TokenKind.text_of_mem_words kind hmem
  have hhead := head?_of_prefix hne ((Rule.length?_word hmem).1 h).1
  exact Bool.false_ne_true (hc.symm.trans (hstart c hhead))

/-- No mark (`Rule.mark`) stands where a name, a number or a quote does. -/
theorem firstOf_marks_eq_none {c : Char}
    (hc : Pattern.isNamePart c = true ∨ c = '\'' ∨ c = '"') :
    firstOf (TokenKind.marks.map Rule.mark) (c :: cs) = none := by
  refine firstOf_eq_none_iff.2 (List.forall_mem_map.2 fun kind hmem => ?_)
  refine Option.eq_none_iff_forall_ne_some.2 fun n h => ?_
  obtain ⟨hne, hall⟩ := TokenKind.text_of_mem_marks kind hmem
  have hhead := head?_of_prefix hne ((Rule.length?_mark hmem).1 h).1
  obtain ⟨-, hpart, hquote, hquotes, -⟩ := hall c (List.mem_of_head? hhead)
  rcases hc with hc | hc | hc
  · exact Bool.false_ne_true (hpart.symm.trans hc)
  · exact hquote hc
  · exact hquotes hc

/-- Rules that each make a kind are tried kind by kind (`firstOf`). -/
theorem firstOf_map {rule : TokenKind → Rule} (hrule : ∀ kind, (rule kind).kind = kind)
    {kinds : List TokenKind} {length? : TokenKind → Option Nat}
    (h : ∀ kind ∈ kinds, (rule kind).length? cs = length? kind) :
    firstOf (kinds.map rule) cs =
      kinds.findSome? fun kind => (length? kind).map (Lexeme.mk kind) := by
  induction kinds with
  | nil => rfl
  | cons kind kinds ih =>
    obtain ⟨hkind, hkinds⟩ := List.forall_mem_cons.1 h
    rw [firstOf] at ih ⊢
    rw [List.map_cons, List.findSome?_cons, List.findSome?_cons, hkind, hrule, ih hkinds]

/-- In front of what does not go on with a name (`Boundary.word`), a reserved word is found where
the whole name is that word. -/
theorem length?_word_append {kind : TokenKind} (hkind : kind ∈ TokenKind.words)
    (htext : ∀ c ∈ text, Pattern.isNamePart c = true)
    (htail : ∀ c ∈ tail.head?, Boundary.word.rejects c = false) :
    (Rule.word kind).length? (text ++ tail) =
      if kind.text.toList = text then some kind.text.toList.length else none := by
  obtain ⟨-, hall, -⟩ := TokenKind.text_of_mem_words kind hkind
  refine Option.ext fun n => ?_
  rw [Rule.length?_word hkind]
  split
  · next heq =>
    subst heq
    simp only [List.prefix_append, true_and, Option.some.injEq]
    refine ⟨fun h => h.1.symm, ?_⟩
    rintro rfl
    exact ⟨rfl, by rwa [List.drop_left]⟩
  · next hne =>
    simp only [reduceCtorEq, iff_false, not_and]
    rintro hbegins rfl hboundary
    rcases List.prefix_or_prefix_of_prefix hbegins (List.prefix_append text tail) with
      ⟨rest, rfl⟩ | ⟨rest, hrest⟩
    · cases rest with
      | nil => exact hne (List.append_nil _).symm
      | cons c rest =>
        have hc := htext c (List.mem_append_right _ List.mem_cons_self)
        rw [List.append_assoc, List.drop_left] at hboundary
        exact Bool.false_ne_true
          ((hboundary c rfl).symm.trans (Boundary.word_rejects_of_isNamePart hc))
    · cases rest with
      | nil => exact hne (hrest.symm.trans (List.append_nil text))
      | cons c rest =>
        rw [← hrest] at hbegins hall
        have hc := hall c (List.mem_append_right _ List.mem_cons_self)
        obtain ⟨others, rfl⟩ := (List.prefix_append_right_inj text).1 hbegins
        exact Bool.false_ne_true
          ((htail c rfl).symm.trans (Boundary.word_rejects_of_isNamePart hc))

/-- In front of what does not go on with it (`Boundary.word`), a reserved word is read as one. -/
theorem firstOf_words_append {kind : TokenKind} (hkind : kind ∈ TokenKind.words)
    (htail : ∀ c ∈ tail.head?, Boundary.word.rejects c = false) :
    firstOf (TokenKind.words.map Rule.word) (kind.text.toList ++ tail) =
      some ⟨kind, kind.text.toList.length⟩ := by
  have hfirst : ∀ kind ∈ TokenKind.words, (TokenKind.words.findSome? fun other =>
      (if other.text.toList = kind.text.toList then some other.text.toList.length
      else none).map (Lexeme.mk other)) = some ⟨kind, kind.text.toList.length⟩ := by
    decide
  obtain ⟨-, hall, -⟩ := TokenKind.text_of_mem_words kind hkind
  rw [← hfirst kind hkind]
  exact firstOf_map (fun _ => rfl) fun other hother => length?_word_append hother hall htail

/-- In front of what does not go on with it, any other name (`Reserved`) is no reserved word. -/
theorem firstOf_words_append_eq_none (htext : ∀ c ∈ text, Pattern.isNamePart c = true)
    (hreserved : ¬ Reserved text) (htail : ∀ c ∈ tail.head?, Boundary.word.rejects c = false) :
    firstOf (TokenKind.words.map Rule.word) (text ++ tail) = none := by
  refine firstOf_eq_none_iff.2 (List.forall_mem_map.2 fun kind hkind => ?_)
  rw [length?_word_append hkind htext htail, if_neg fun heq => hreserved ⟨kind, hkind, heq⟩]

/-- A mark that stands in front of what does not go on with a mark (`TokenKind.goesOn`) is a front
of that one. -/
theorem length?_mark_append {kind other : TokenKind} (hkind : kind ∈ TokenKind.marks)
    (hother : other ∈ TokenKind.marks) (htail : ∀ c ∈ tail.head?, kind.goesOn c = false) :
    (Rule.mark other).length? (kind.text.toList ++ tail) =
      if other.text.toList.isPrefixOf kind.text.toList then some other.text.toList.length
      else none := by
  have hlonger : ∀ kind ∈ TokenKind.marks, ∀ other ∈ TokenKind.marks,
      kind.text.toList.isPrefixOf other.text.toList = true →
        (other.text.toList.drop kind.text.toList.length).head?.all kind.goesOn = true := by
    decide
  have hbegins : other.text.toList <+: kind.text.toList ++ tail ↔
      other.text.toList <+: kind.text.toList := by
    refine ⟨fun h => ?_, fun h => h.trans (List.prefix_append _ _)⟩
    rcases List.prefix_or_prefix_of_prefix h (List.prefix_append _ tail) with
      hfront | ⟨rest, hrest⟩
    · exact hfront
    · cases rest with
      | nil => exact ⟨[], by simpa using hrest.symm⟩
      | cons c rest =>
        have hgoesOn : kind.goesOn c = true := by
          refine (Option.all_eq_true _ _).1 (hlonger kind hkind other hother ?_) c ?_
          · exact List.isPrefixOf_iff_prefix.2 ⟨_, hrest⟩
          · rw [← hrest, List.drop_left]
            rfl
        rw [← hrest] at h
        obtain ⟨others, rfl⟩ := (List.prefix_append_right_inj _).1 h
        exact absurd hgoesOn (Bool.eq_false_iff.1 (htail c rfl))
  refine Option.ext fun n => ?_
  rw [Rule.length?_mark hother, hbegins, ← List.isPrefixOf_iff_prefix]
  split
  · next h => simp [h, eq_comm]
  · next h => simp [h]

/-- Of marks, the one that is spelled is found in front of what does not go on with it
(`TokenKind.goesOn`). -/
theorem firstOf_marks_append {kind : TokenKind} (hkind : kind ∈ TokenKind.marks)
    (htail : ∀ c ∈ tail.head?, kind.goesOn c = false) :
    firstOf (TokenKind.marks.map Rule.mark) (kind.text.toList ++ tail) =
      some ⟨kind, kind.text.toList.length⟩ := by
  -- Longer marks come first, so the first one that is a front of the mark is the mark itself.
  have hfirst : ∀ kind ∈ TokenKind.marks, (TokenKind.marks.findSome? fun other =>
      (if other.text.toList.isPrefixOf kind.text.toList then some other.text.toList.length
      else none).map (Lexeme.mk other)) = some ⟨kind, kind.text.toList.length⟩ := by
    decide
  rw [← hfirst kind hkind]
  exact firstOf_map (fun _ => rfl) fun other hother => length?_mark_append hkind hother htail

/-- Where no reserved word and no mark begins, a literal or a name is looked for
(`Rule.literals`). -/
theorem lexeme?_eq_firstOf_literals {c : Char} (hblank : Pattern.isBlank c = false)
    (hword : Pattern.isNameStart c = false)
    (hmark : Pattern.isNamePart c = true ∨ c = '\'' ∨ c = '"') :
    lexeme? (c :: cs) = firstOf Rule.literals (c :: cs) := by
  have hslash : c ≠ '/' := by
    rintro rfl
    exact absurd hmark (by decide)
  rw [lexeme?_eq, firstOf_voids_eq_none hblank fun h => absurd h hslash,
    firstOf_words_eq_none hword, firstOf_marks_eq_none hmark]
  rfl

/-- A digit begins neither a name nor a reserved word, so only `Rule.literals` are tried. -/
theorem lexeme?_eq_of_isDigit {c : Char} (hc : c.isDigit = true) :
    lexeme? (c :: cs) = firstOf Rule.literals (c :: cs) := by
  have hpart := Pattern.isNamePart_of_isDigit hc
  refine lexeme?_eq_firstOf_literals (Pattern.isBlank_of_isNamePart hpart) ?_ (.inl hpart)
  exact Bool.eq_false_iff.2 fun hstart =>
    Bool.false_ne_true ((Pattern.not_isDigit_of_isNameStart hstart).symm.trans hc)

/-- A decimal (`Pattern.decimal`) is found in front of what does not go on with it. -/
theorem length?_decimal_append {ds es : List Char} (hne : ds ≠ [])
    (hds : ∀ d ∈ ds, d.isDigit = true) (hne' : es ≠ []) (hes : ∀ e ∈ es, e.isDigit = true)
    (htail : ∀ c ∈ tail.head?, Boundary.word.rejects c = false) :
    Rule.length? ⟨.decimal, .doubleLiteral, .word⟩ (ds ++ '.' :: es ++ tail) =
      some (ds ++ '.' :: es).length := by
  have hdigit : ∀ c ∈ tail.head?, c.isDigit = false := fun c hc =>
    Boundary.isDigit_of_word_accepts (htail c hc)
  have hpoint : ∀ c ∈ ('.' :: (es ++ tail)).head?, c.isDigit = false := by
    rintro c hc
    cases hc
    decide
  refine Rule.length?_eq_some_iff.2 ⟨?_, by rwa [List.drop_left]⟩
  have hds' : ds.length ≠ 0 := mt List.length_eq_zero_iff.1 hne
  have hes' : es.length ≠ 0 := mt List.length_eq_zero_iff.1 hne'
  rw [List.append_assoc, List.cons_append, Pattern.length?, Pattern.run_append hds hpoint,
    List.drop_left]
  simp only [Pattern.run_append hes hdigit, hds', hes', or_self, if_false, List.length_append,
    List.length_cons, Option.some.injEq]
  omega

/-- In front of digits that no point follows, there is no decimal (`Pattern.decimal`). -/
theorem length?_decimal_eq_none {ds : List Char} (hds : ∀ d ∈ ds, d.isDigit = true)
    (htail : ∀ c ∈ tail.head?, c.isDigit = false ∧ c ≠ '.') :
    Rule.length? ⟨.decimal, .doubleLiteral, .word⟩ (ds ++ tail) = none := by
  refine Rule.length?_eq_none ?_
  rw [Pattern.length?, Pattern.run_append hds fun c hc => (htail c hc).1, List.drop_left]
  cases tail with
  | nil => rfl
  | cons c tail => simp [(htail c rfl).2]

/-- Where no number begins, a quoted text or a name is looked for, and the first two of
`Rule.literals` are passed by. -/
theorem firstOf_literals_eq {c : Char} (hdigit : c.isDigit = false) (hpoint : c ≠ '.') :
    firstOf Rule.literals (c :: cs) = firstOf (Rule.literals.drop 2) (c :: cs) := by
  have hdecimal : Rule.length? ⟨.decimal, .doubleLiteral, .word⟩ ([] ++ c :: cs) = none := by
    refine length?_decimal_eq_none nofun ?_
    rintro d hd
    cases hd
    exact ⟨hdigit, hpoint⟩
  have hinteger : Rule.length? ⟨.integer, .intLiteral, .number⟩ (c :: cs) = none := by
    refine Rule.length?_eq_none ?_
    have hzero : c ≠ '0' := by
      rintro rfl
      exact absurd hdigit (by decide)
    rw [Pattern.length?, if_neg hzero, hdigit]
    rfl
  rw [List.nil_append] at hdecimal
  simp only [firstOf, Rule.literals, List.findSome?_cons, hdecimal, hinteger, Option.map_none,
    List.drop_succ_cons, List.drop_zero]

/-- An integer (`Pattern.integer`) is found in front of what does not go on with it. -/
theorem length?_integer_append {d : Char} {ds : List Char} (hzero : d = '0' → ds = [])
    (hds : ∀ e ∈ d :: ds, e.isDigit = true)
    (htail : ∀ c ∈ tail.head?, Boundary.number.rejects c = false) :
    Rule.length? ⟨.integer, .intLiteral, .number⟩ (d :: ds ++ tail) = some (d :: ds).length := by
  have hdigit : ∀ c ∈ tail.head?, c.isDigit = false := fun c hc =>
    Boundary.isDigit_of_word_accepts (Boundary.of_number_accepts (htail c hc)).1
  refine Rule.length?_eq_some_iff.2 ⟨?_, by rwa [List.drop_left]⟩
  obtain ⟨hd, hds⟩ := List.forall_mem_cons.1 hds
  rw [List.cons_append, Pattern.length?, Pattern.run_append hds hdigit, hd, if_pos rfl]
  split
  · next h => rw [hzero h, List.length_singleton]
  · rw [List.length_cons, Nat.add_comm]

/-- A character between quotes (`Pattern.character`) is found, whatever follows it. -/
theorem length?_character_append {c : Char} (hc : c ≠ '\n') :
    Rule.length? ⟨.character, .charLiteral, .free⟩ ('\'' :: c :: '\'' :: tail) = some 3 :=
  Rule.length?_eq_some_iff.2 ⟨if_neg hc, fun _ _ => rfl⟩

/-- No quoted text (`Pattern.character`, `Pattern.quoted`) begins with anything but a quote. -/
theorem length?_quote_eq_none (cs : List Char) {c : Char} (hc : c ≠ '\'' ∧ c ≠ '"') :
    Rule.length? ⟨.character, .charLiteral, .free⟩ (c :: cs) = none ∧
      Rule.length? ⟨.quoted, .stringLiteral, .free⟩ (c :: cs) = none := by
  constructor <;> refine Rule.length?_eq_none ?_ <;> simp [Pattern.length?, hc]

/-- A text between double quotes (`Pattern.quoted`) is found, whatever follows it. -/
theorem length?_quoted_append (tail : List Char) (hcs : '"' ∉ cs) :
    Rule.length? ⟨.quoted, .stringLiteral, .free⟩ ('"' :: (cs ++ ['"']) ++ tail) =
      some ('"' :: (cs ++ ['"'])).length := by
  have hpass : ∀ c ∈ cs, (c != '"') = true := fun c hc =>
    bne_iff_ne.2 fun heq => hcs (heq ▸ hc)
  have hstop : ∀ c ∈ ('"' :: tail).head?, (c != '"') = false := by
    rintro c hc
    cases hc
    rfl
  refine Rule.length?_eq_some_iff.2 ⟨?_, fun _ _ => rfl⟩
  rw [List.cons_append, List.append_assoc, List.singleton_append, Pattern.length?,
    Pattern.run_append hpass hstop]
  simp

/-- A name (`Pattern.name`) is found in front of what does not go on with it. -/
theorem length?_name_append {c : Char} (hc : Pattern.isNameStart c = true)
    (hcs : ∀ c ∈ cs, Pattern.isNamePart c = true)
    (htail : ∀ c ∈ tail.head?, Boundary.word.rejects c = false) :
    Rule.length? ⟨.name, .identifier, .free⟩ (c :: cs ++ tail) = some (c :: cs).length := by
  have hpart : ∀ c ∈ tail.head?, Pattern.isNamePart c = false := fun c hc =>
    Boundary.isNamePart_of_word_accepts (htail c hc)
  refine Rule.length?_eq_some_iff.2 ⟨?_, fun _ _ => rfl⟩
  rw [List.cons_append, Pattern.length?, Pattern.run_append hcs hpart, if_pos hc, List.length_cons,
    Nat.add_comm]

/-! ## Each form -/

/-- A reserved word is read by `lexeme?` in front of what does not go on with it. -/
theorem lexeme?_word {kind : TokenKind} (hkind : kind ∈ TokenKind.words)
    (htail : ∀ c ∈ tail.head?, Boundary.word.rejects c = false) :
    lexeme? (kind.text.toList ++ tail) = some ⟨kind, kind.text.toList.length⟩ := by
  have hspelled : Spelled kind kind.text.toList := .word hkind
  obtain ⟨c, cs, htext, hblank, -⟩ := hspelled.head
  obtain ⟨-, hall, -⟩ := TokenKind.text_of_mem_words kind hkind
  have hc := hall c (htext ▸ List.mem_cons_self)
  rw [lexeme?_eq, firstOf_words_append hkind htail, htext, List.cons_append,
    firstOf_voids_eq_none hblank fun hslash => absurd hc (hslash ▸ by decide)]
  rfl

/-- A mark is read by `lexeme?` in front of what does not go on with it (`TokenKind.goesOn`). -/
theorem lexeme?_mark {kind : TokenKind} (hkind : kind ∈ TokenKind.marks)
    (htail : ∀ c ∈ tail.head?, kind.goesOn c = false) :
    lexeme? (kind.text.toList ++ tail) = some ⟨kind, kind.text.toList.length⟩ := by
  -- A slash is a mark, and begins a comment in front of another slash.
  have hslash : ∀ kind ∈ TokenKind.marks, kind.text.toList.head? = some '/' →
      kind = .slash := by decide
  have hspelled : Spelled kind kind.text.toList := .mark hkind
  obtain ⟨c, cs, htext, hblank, -⟩ := hspelled.head
  obtain ⟨-, hall⟩ := TokenKind.text_of_mem_marks kind hkind
  obtain ⟨-, hpart, -⟩ := hall c (htext ▸ List.mem_cons_self)
  have hvoids : firstOf Rule.voids (c :: (cs ++ tail)) = none := by
    refine firstOf_voids_eq_none hblank fun hc hnext => ?_
    cases hslash kind hkind (htext ▸ congrArg some hc)
    cases htext
    exact Bool.false_ne_true (htail '/' hnext).symm
  have hstart : Pattern.isNameStart c = false :=
    Bool.eq_false_iff.2 (mt Pattern.isNamePart_of_isNameStart (Bool.eq_false_iff.1 hpart))
  rw [lexeme?_eq, firstOf_marks_append hkind htail, htext, List.cons_append, hvoids,
    firstOf_words_eq_none hstart]
  rfl

/-- A decimal is read by `lexeme?` in front of what does not go on with it. -/
theorem lexeme?_decimal {ds es : List Char} (hne : ds ≠ []) (hds : ∀ d ∈ ds, d.isDigit = true)
    (hne' : es ≠ []) (hes : ∀ e ∈ es, e.isDigit = true)
    (htail : ∀ c ∈ tail.head?, Boundary.word.rejects c = false) :
    lexeme? (ds ++ '.' :: es ++ tail) = some ⟨.doubleLiteral, (ds ++ '.' :: es).length⟩ := by
  have hdecimal := length?_decimal_append hne hds hne' hes htail
  obtain ⟨d, ds, rfl⟩ := List.exists_cons_of_ne_nil hne
  rw [List.cons_append, List.cons_append, lexeme?_eq_of_isDigit (hds d List.mem_cons_self)]
  simp only [List.cons_append] at hdecimal ⊢
  simp only [firstOf, Rule.literals, List.findSome?_cons, hdecimal, Option.map_some]

/-- An integer is read by `lexeme?` in front of what does not go on with it. -/
theorem lexeme?_integer {d : Char} {ds : List Char} (hzero : d = '0' → ds = [])
    (hds : ∀ e ∈ d :: ds, e.isDigit = true)
    (htail : ∀ c ∈ tail.head?, Boundary.number.rejects c = false) :
    lexeme? (d :: ds ++ tail) = some ⟨.intLiteral, (d :: ds).length⟩ := by
  have hdecimal : Rule.length? ⟨.decimal, .doubleLiteral, .word⟩ (d :: ds ++ tail) = none := by
    refine length?_decimal_eq_none hds fun c hc => ?_
    obtain ⟨hword, hpoint⟩ := Boundary.of_number_accepts (htail c hc)
    exact ⟨Boundary.isDigit_of_word_accepts hword, hpoint⟩
  have hinteger := length?_integer_append hzero hds htail
  rw [List.cons_append] at hdecimal hinteger ⊢
  rw [lexeme?_eq_of_isDigit (hds d List.mem_cons_self)]
  simp only [firstOf, Rule.literals, List.findSome?_cons, hdecimal, hinteger, Option.map_some,
    Option.map_none]

/-- A character between quotes is read by `lexeme?`, whatever follows it. -/
theorem lexeme?_character (tail : List Char) {c : Char} (hc : c ≠ '\n') :
    lexeme? ('\'' :: c :: '\'' :: tail) = some ⟨.charLiteral, 3⟩ := by
  rw [lexeme?_eq_firstOf_literals (by decide) (by decide) (.inr (.inl rfl)),
    firstOf_literals_eq (by decide) (by decide)]
  simp only [firstOf, Rule.literals, List.drop_succ_cons, List.drop_zero, List.findSome?_cons,
    length?_character_append hc, Option.map_some]

/-- A text between double quotes is read by `lexeme?`, whatever follows it. -/
theorem lexeme?_quoted (tail : List Char) (hcs : '"' ∉ cs) :
    lexeme? ('"' :: (cs ++ ['"']) ++ tail) =
      some ⟨.stringLiteral, ('"' :: (cs ++ ['"'])).length⟩ := by
  have hquoted := length?_quoted_append tail hcs
  have hcharacter : Rule.length? ⟨.character, .charLiteral, .free⟩
      ('"' :: (cs ++ ['"'] ++ tail)) = none := rfl
  rw [List.cons_append] at hquoted ⊢
  rw [lexeme?_eq_firstOf_literals (by decide) (by decide) (.inr (.inr rfl)),
    firstOf_literals_eq (by decide) (by decide)]
  simp only [firstOf, Rule.literals, List.drop_succ_cons, List.drop_zero, List.findSome?_cons,
    hcharacter, hquoted, Option.map_some, Option.map_none]

/-- A name that is no reserved word is read by `lexeme?` in front of what does not go on with it. -/
theorem lexeme?_name {c : Char} (hc : Pattern.isNameStart c = true)
    (hcs : ∀ d ∈ cs, Pattern.isNamePart d = true) (hreserved : ¬ Reserved (c :: cs))
    (htail : ∀ d ∈ tail.head?, Boundary.word.rejects d = false) :
    lexeme? (c :: cs ++ tail) = some ⟨.identifier, (c :: cs).length⟩ := by
  have hpart := Pattern.isNamePart_of_isNameStart hc
  have hne {d : Char} (hd : Pattern.isNamePart d = false) : c ≠ d :=
    Pattern.ne_of_isNamePart hpart hd
  obtain ⟨hcharacter, hquoted⟩ :=
    length?_quote_eq_none (cs ++ tail) ⟨hne (by decide), hne (by decide)⟩
  have hwords :=
    firstOf_words_append_eq_none (List.forall_mem_cons.2 ⟨hpart, hcs⟩) hreserved htail
  have hname := length?_name_append hc hcs htail
  rw [List.cons_append] at hwords hname ⊢
  rw [lexeme?_eq, firstOf_voids_eq_none (Pattern.isBlank_of_isNamePart hpart) fun h =>
      absurd h (hne (by decide)),
    hwords, firstOf_marks_eq_none (.inl hpart),
    firstOf_literals_eq (Pattern.not_isDigit_of_isNameStart hc) (hne (by decide))]
  simp only [firstOf, Rule.literals, List.drop_succ_cons, List.drop_zero, List.findSome?_cons,
    hcharacter, hquoted, hname, Option.map_some, Option.map_none, Option.none_or]

/-- What is `Spelled` like a token of a kind is read as one in front of what does not go on with it
(`TokenKind.goesOn`). -/
theorem lexeme?_of_spelled {kind : TokenKind} (h : Spelled kind text)
    (htail : ∀ c ∈ tail.head?, kind.goesOn c = false) :
    lexeme? (text ++ tail) = some ⟨kind, text.length⟩ := by
  cases h with
  | word hkind =>
    refine lexeme?_word hkind fun c hc => ?_
    have hgoesOn : kind.goesOn c = Boundary.word.rejects c := if_pos hkind
    exact hgoesOn.symm.trans (htail c hc)
  | mark hkind => exact lexeme?_mark hkind htail
  | decimal hne hds hne' hes => exact lexeme?_decimal hne hds hne' hes htail
  | integer hzero hds => exact lexeme?_integer hzero hds htail
  | character hc => exact lexeme?_character tail hc
  | quoted hcs => exact lexeme?_quoted tail hcs
  | name hc hcs hreserved => exact lexeme?_name hc hcs hreserved htail

end Token

end UnitScript
