import UnitScript.Proofs.Grammar.Sound
import UnitScript.Proofs.Places.Alike
import UnitScript.Proofs.Places.Evaluation
import UnitScript.Proofs.Places.Parser
import UnitScript.Proofs.Token.Lines

/-!
# Layout

Texts whose tokens are alike may differ in blanks, comments and line ends only, and so in nothing
but the places of what they say. Forgetting all places makes their tokens equal, and the parser and
the evaluator do the same with things whose places are forgotten. So texts of alike tokens are
refused for the same reason or read as alike programs, and they run alike on machines that differ
in places only (`layoutIndependent`).
-/

namespace UnitScript

/-- Everything at the first place of the text, for what is to be compared apart from its place
(`Block.relocate` and the others). -/
def Position.forget (_ : Position) : Position := .origin

/-! ## Tokens of a text -/

/-- A finite double is equal to itself. -/
theorem Double.beq_self_of_isFinite {x : Float} (h : x.isFinite = true) : (x == x) = true := by
  have hfinite : x.toModel.unpack.isFinite = true := h
  show (x.toModel.unpack.compare x.toModel.unpack == some .eq) = true
  rw [beq_iff_eq]
  cases hx : x.toModel.unpack with
  | infinity sign | notANumber =>
    rw [hx] at hfinite
    cases hfinite
  | zero sign => rfl
  | finite sign mantissa exponent hpos =>
    have hsame : (compare exponent exponent).then (compare mantissa mantissa) = .eq := by simp
    cases sign with
    | positive => exact congrArg some hsame
    | negative => exact congrArg (fun order => some order.swap) hsame

/-- A double that digits begin is read as a finite one. -/
theorem Double.isFinite_of_ofText? {c : Char} {cs : List Char} (hc : c.isDigit = true) {x : Float}
    (h : ofText? (c :: cs) = some x) : x.isFinite = true := by
  have hunsigned : ofText? (c :: cs) = (Decimal.ofText? (c :: cs)).bind (ofDecimal? false) := by
    unfold ofText?
    split
    · next heq =>
      cases heq
      cases hc
    · next heq =>
      cases heq
      cases hc
    · rfl
  obtain ⟨d, -, hd⟩ := Option.bind_eq_some_iff.1 (hunsigned ▸ h)
  rw [ofDecimal?] at hd
  split at hd
  · next hfinite =>
    cases hd
    exact hfinite
  · cases hd

/-- A decimal pattern takes digits first. -/
theorem Pattern.exists_digit_of_decimal {cs : List Char} {n : Nat}
    (h : Pattern.length? .decimal cs = some n) :
    ∃ c rest, cs = c :: rest ∧ c.isDigit = true := by
  rw [length?] at h
  split at h
  · split at h
    · cases h
    · next hrun =>
      cases cs with
      | nil => exact absurd (Or.inl rfl) hrun
      | cons c rest =>
        cases hc : c.isDigit with
        | true => exact ⟨c, rest, rfl, hc⟩
        | false =>
          have hzero : run Char.isDigit (c :: rest) = 0 :=
            congrArg List.length (List.takeWhile_cons_of_neg (Bool.not_eq_true _ ▸ hc))
          exact absurd (Or.inl hzero) hrun
  · cases h

namespace Token

/-- Only one rule makes tokens for doubles. -/
theorem rule_of_doubleLiteral : ∀ rule ∈ Rule.all, rule.kind = .doubleLiteral →
    rule = ⟨.decimal, .doubleLiteral, .word⟩ := by
  simp [Rule.all, Rule.ofWord, Rule.ofMark]

/-- What a lexeme for a double reads as is a number. -/
theorem isExact_ofLexeme {lexeme : Lexeme} {place : Position} {cs : List Char}
    (h : lexeme? cs = some lexeme) : (ofLexeme lexeme place cs).IsExact := by
  rintro (hkind : lexeme.kind = .doubleLiteral) x hx
  obtain ⟨rule, hmem, hlength, hrule⟩ := exists_rule_of_lexeme? h
  have hpos := lexeme?_length_pos h
  rw [rule_of_doubleLiteral rule hmem (hrule.trans hkind), Rule.length?] at hlength
  cases hpattern : Pattern.length? .decimal cs with
  | none =>
    rw [hpattern] at hlength
    cases hlength
  | some m =>
    obtain ⟨c, rest, rfl, hc⟩ := Pattern.exists_digit_of_decimal hpattern
    obtain ⟨n, hn⟩ := Nat.exists_eq_add_one.2 hpos
    have hlexeme : (ofLexeme lexeme place (c :: rest)).lexeme.toList = c :: rest.take n := by
      rw [Token.lexeme, ofLexeme, hkind, hn]
      exact String.toList_ofList
    rw [hlexeme] at hx
    exact Double.beq_self_of_isFinite (Double.isFinite_of_ofText? hc hx)

/-- What is left of a token apart from its place are its kind and its text. -/
theorem relocate_forget_eq {a b : Token} (hkind : a.kind = b.kind) (hvalue : a.value = b.value) :
    a.relocate .forget = b.relocate .forget := by
  rw [relocate, relocate, hkind, hvalue]
  rfl

/-- A token of a text keeps nothing unless its kind bears a value. -/
theorem value_of_mem_ofText {cs : List Char} {tokens : List Token} (h : ofText cs = .ok tokens)
    {token : Token} (hmem : token ∈ tokens) (hkind : token.kind.bearsValue = false) :
    token.value = none := by
  obtain ⟨front, row, rfl, hfront⟩ := exists_of_ofText h
  rcases List.mem_append.1 hmem with hmem | hmem
  · obtain ⟨lexeme, place, rest, -, -, rfl⟩ := hfront token hmem
    exact if_neg (Bool.not_eq_true _ ▸ hkind)
  · cases List.mem_singleton.1 hmem
    cases hkind

/-- What the tokens of a text for doubles read as are numbers. -/
theorem isExact_of_mem_ofText {cs : List Char} {tokens : List Token} (h : ofText cs = .ok tokens)
    {token : Token} (hmem : token ∈ tokens) : token.IsExact := by
  obtain ⟨front, row, rfl, hfront⟩ := exists_of_ofText h
  rcases List.mem_append.1 hmem with hmem | hmem
  · obtain ⟨lexeme, place, rest, hlexeme, -, rfl⟩ := hfront token hmem
    exact isExact_ofLexeme hlexeme
  · cases List.mem_singleton.1 hmem
    rintro ⟨⟩

/-- Whether two lists hold alike tokens (`Token.alike`) one by one: the same kinds and texts, at
whatever places. -/
def allAlike : List Token → List Token → Bool
  | [], [] => true
  | a :: as, b :: bs => a.alike b && allAlike as bs
  | _, _ => false

/-- Alike tokens that keep nothing they need not keep are equal apart from their places. -/
theorem map_relocate_forget_eq {as bs : List Token}
    (has : ∀ token ∈ as, token.kind.bearsValue = false → token.value = none)
    (hbs : ∀ token ∈ bs, token.kind.bearsValue = false → token.value = none)
    (h : allAlike as bs = true) :
    as.map (·.relocate .forget) = bs.map (·.relocate .forget) := by
  induction as generalizing bs with
  | nil =>
    cases bs with
    | nil => rfl
    | cons b bs => cases h
  | cons a as ih =>
    cases bs with
    | nil => cases h
    | cons b bs =>
      obtain ⟨ha, has⟩ := List.forall_mem_cons.1 has
      obtain ⟨hb, hbs⟩ := List.forall_mem_cons.1 hbs
      obtain ⟨hab, h⟩ := (Bool.and_eq_true _ _).mp h
      obtain ⟨hkind, hvalue⟩ := (Bool.and_eq_true _ _).mp hab
      rw [beq_iff_eq] at hkind
      have hvalue : a.value = b.value := by
        cases hbears : a.kind.bearsValue with
        | true => simpa [hbears] using hvalue
        | false => rw [ha hbears, hb (hkind ▸ hbears)]
      rw [List.map_cons, List.map_cons, relocate_forget_eq hkind hvalue, ih has hbs h]

end Token

/-! ## The same apart from places -/

/-- Programs that two lists of tokens are read as: alike ones (`Block.alike`), or none for the same
reason. What was expected and what was found is the same then. -/
inductive ReadAlike : Except SyntaxError Block → Except SyntaxError Block → Prop
  | ok : a.alike b = true → a.relocate .forget = b.relocate .forget → ReadAlike (.ok a) (.ok b)
  | error : e.expected = e'.expected → e.found = e'.found → ReadAlike (.error e) (.error e')

/-- Faults of the same cause in the same functions (`Fault.traceback`), which both have a place or
both none. Where they are, and where calls were made, may differ. -/
structure Fault.Matches (a b : Fault) : Prop where
  cause : a.cause = b.cause
  located : a.position.isSome = b.position.isSome
  names : a.traceback.map Activation.name = b.traceback.map Activation.name

/-- Endings that are the same apart from places: values that are equal once these are forgotten
(`Position.forget`), failures of the same kind, or no end. -/
inductive Ending.Matches : Ending → Ending → Prop
  | value : result.map (·.relocate .forget) = result'.map (·.relocate .forget) →
      Matches (.value result) (.value result')
  | lexical : e.character = e'.character →
      Matches (.failure (.lexical e)) (.failure (.lexical e'))
  | grammatical : e.expected = e'.expected → e.found = e'.found →
      Matches (.failure (.grammatical e)) (.failure (.grammatical e'))
  | runtime : e.Matches e' → Matches (.failure (.runtime e)) (.failure (.runtime e'))
  | outOfFuel : Matches .outOfFuel .outOfFuel

/-- Machines that have printed the same and bind the same apart from places (`Position.forget`). -/
structure Machine.Matches (m n : Machine) : Prop where
  printed : m.printed = n.printed
  context : m.context.relocate .forget = n.context.relocate .forget

/-- Faults match if they are equal once places are forgotten. -/
theorem Fault.matches_of_relocate {a b : Fault} (h : a.relocate .forget = b.relocate .forget) :
    a.Matches b := by
  have hposition : a.position.map Position.forget = b.position.map .forget :=
    (congrArg Fault.position h :)
  have htraceback : a.traceback.map (·.relocate .forget) = b.traceback.map (·.relocate .forget) :=
    (congrArg Fault.traceback h :)
  refine ⟨(congrArg Fault.cause h :), ?_, ?_⟩
  · have hsome := congrArg Option.isSome hposition
    rwa [Option.isSome_map, Option.isSome_map] at hsome
  · have hnames := congrArg (List.map Activation.name) htraceback
    rwa [List.map_map, List.map_map] at hnames

/-- Endings of runs match if these have the same outcome once places are forgotten. -/
theorem Ending.matches_of_relocate {a b : Outcome (Option Located)}
    (h : a.relocate .forget (Located.move .forget) = b.relocate .forget (Located.move .forget)) :
    (Ending.ofOutcome a).Matches (Ending.ofOutcome b) := by
  cases a <;> cases b <;> simp only [Outcome.relocate, reduceCtorEq, Outcome.ok.injEq,
    Outcome.fault.injEq] at h
  · exact .value h
  · exact .runtime (Fault.matches_of_relocate h)
  · exact .outOfFuel

/-- Machines match if they are equal once places are forgotten. -/
theorem Machine.matches_iff {m n : Machine} :
    m.Matches n ↔ m.relocate .forget = n.relocate .forget := by
  obtain ⟨context, printed⟩ := m
  obtain ⟨context', printed'⟩ := n
  constructor
  · rintro ⟨rfl, h⟩
    exact congrArg (Machine.mk · printed) h
  · intro h
    exact ⟨(congrArg Machine.printed h :), (congrArg Machine.context h :)⟩

/-! ## Reading and running -/

/-- Tokens of texts that are alike (`Token.allAlike`) are read alike (`ReadAlike`): the parser looks
at kinds and texts alone. -/
theorem Block.ofTokens_alike {s t : List Char} {ts us : List Token} (hs : Token.ofText s = .ok ts)
    (ht : Token.ofText t = .ok us) (h : Token.allAlike ts us = true) :
    ReadAlike (Block.ofTokens ts) (Block.ofTokens us) := by
  have htokens : ts.map (·.relocate .forget) = us.map (·.relocate .forget) :=
    Token.map_relocate_forget_eq (fun _ hmem => Token.value_of_mem_ofText hs hmem)
      (fun _ hmem => Token.value_of_mem_ofText ht hmem) h
  have hparse := congrArg Block.ofTokens htokens
  rw [Block.ofTokens_relocate rfl, Block.ofTokens_relocate rfl] at hparse
  cases hts : Block.ofTokens ts with
  | error e =>
    cases hus : Block.ofTokens us with
    | error e' =>
      rw [hts, hus] at hparse
      have herror : e.relocate .forget = e'.relocate .forget := Except.error.inj hparse
      exact .error (congrArg SyntaxError.expected herror :) (congrArg SyntaxError.found herror :)
    | ok b =>
      rw [hts, hus] at hparse
      cases hparse
  | ok a =>
    cases hus : Block.ofTokens us with
    | error e' =>
      rw [hts, hus] at hparse
      cases hparse
    | ok b =>
      rw [hts, hus] at hparse
      have hplace : a.relocate .forget = b.relocate .forget := Except.ok.inj hparse
      have hself : a.alike a = true :=
        (Block.derivedFrom_of_ofTokens hts).alike_self
          fun _ hmem => Token.isExact_of_mem_ofText hs hmem
      exact .ok (a.alike_of_relocate b hplace hself) hplace

/-- Programs that are the same apart from places run alike on machines that match
(`Machine.Matches`), by `Block.run_relocate`. -/
theorem Block.run_matches {a b : Block} (h : a.relocate .forget = b.relocate .forget)
    {m n : Machine} (hmn : m.Matches n) (fuel : Nat) :
    (Ending.ofOutcome (a.run fuel m).1).Matches (Ending.ofOutcome (b.run fuel n).1) ∧
      (a.run fuel m).2.Matches (b.run fuel n).2 := by
  have ha := Block.run_relocate (f := .forget) rfl fuel a m
  have hb := Block.run_relocate (f := .forget) rfl fuel b n
  rw [h, Machine.matches_iff.1 hmn] at ha
  obtain ⟨houtcome, hmachine⟩ := Prod.mk.inj (ha.symm.trans hb)
  exact ⟨Ending.matches_of_relocate houtcome, Machine.matches_iff.2 hmachine⟩

/-- Programs that are read alike (`ReadAlike`) run alike on machines that match, with any amount of
fuel. -/
theorem runText_matches {s t : List Char} {ts us : List Token} (hs : Token.ofText s = .ok ts)
    (ht : Token.ofText t = .ok us) (h : ReadAlike (Block.ofTokens ts) (Block.ofTokens us))
    {m n : Machine} (hmn : m.Matches n) (fuel : Nat) :
    (runText fuel s m).1.Matches (runText fuel t n).1 ∧
      (runText fuel s m).2.Matches (runText fuel t n).2 := by
  have hread (text : List Char) (tokens : List Token) (htokens : Token.ofText text = .ok tokens) :
      Block.ofText text = (Block.ofTokens tokens).mapError .grammatical := by
    rw [Block.ofText, htokens]
  have hs := hread s ts hs
  have ht := hread t us ht
  generalize Block.ofTokens ts = a at h hs
  generalize Block.ofTokens us = b at h ht
  cases h with
  | ok _ hplace =>
    rw [runText_of_ofText hs, runText_of_ofText ht]
    exact Block.run_matches hplace hmn fuel
  | error hexpected hfound =>
    rw [runText_of_error hs, runText_of_error ht]
    exact ⟨.grammatical hexpected hfound, hmn⟩

/-- Whether the run of a text on a machine (`runText`) comes to an end, however that is: some fuel
lasts for it. -/
def Terminates (text : List Char) (m : Machine) : Prop :=
  ∃ fuel, (runText fuel text m).1 ≠ .outOfFuel

/-- Endings that match are out of fuel together. -/
theorem Ending.Matches.ne_outOfFuel_iff {a b : Ending} (h : a.Matches b) :
    a ≠ .outOfFuel ↔ b ≠ .outOfFuel := by
  cases h <;> simp

/-- Blanks, comments and line ends change nothing but places. Texts of alike tokens
(`Token.allAlike`) are refused for the same reason or read as alike programs (`ReadAlike`). On
machines that match (`Machine.Matches`) their runs come to an end together, and with any fuel their
endings match, and so do the machines that they leave behind. -/
theorem layoutIndependent {s t : List Char} {ts us : List Token} (hs : Token.ofText s = .ok ts)
    (ht : Token.ofText t = .ok us) (h : Token.allAlike ts us = true) :
    ReadAlike (Block.ofTokens ts) (Block.ofTokens us) ∧
      ∀ m n : Machine, m.Matches n →
        (Terminates s m ↔ Terminates t n) ∧
          ∀ fuel, (runText fuel s m).1.Matches (runText fuel t n).1 ∧
            (runText fuel s m).2.Matches (runText fuel t n).2 := by
  have hread := Block.ofTokens_alike hs ht h
  refine ⟨hread, fun m n hmn => ?_⟩
  have hrun := runText_matches hs ht hread hmn
  exact ⟨exists_congr fun fuel => (hrun fuel).1.ne_outOfFuel_iff, hrun⟩

/-- A call on a line of its own. -/
def denseCall : List Char := "f(1);".toList

/-- The same call on two lines behind a comment. -/
def airyCall : List Char := "//\nf (\r\n\t1);".toList

/-- The two ways to write a call, `denseCall` and `airyCall`, run alike on every machine. -/
theorem airyCall_layoutIndependent :
    ∃ ts us, Token.ofText denseCall = .ok ts ∧ Token.ofText airyCall = .ok us ∧
      Token.allAlike ts us = true ∧ ReadAlike (Block.ofTokens ts) (Block.ofTokens us) ∧
      ∀ m n : Machine, m.Matches n →
        (Terminates denseCall m ↔ Terminates airyCall n) ∧
          ∀ fuel, (runText fuel denseCall m).1.Matches (runText fuel airyCall n).1 ∧
            (runText fuel denseCall m).2.Matches (runText fuel airyCall n).2 := by
  have hdense : Token.ofText denseCall = .ok
      [⟨.identifier, some "f", ⟨⟨0, 0⟩, ⟨0, 1⟩⟩⟩, ⟨.leftParen, none, ⟨⟨0, 1⟩, ⟨0, 2⟩⟩⟩,
        ⟨.intLiteral, some "1", ⟨⟨0, 2⟩, ⟨0, 3⟩⟩⟩, ⟨.rightParen, none, ⟨⟨0, 3⟩, ⟨0, 4⟩⟩⟩,
        ⟨.semicolon, none, ⟨⟨0, 4⟩, ⟨0, 5⟩⟩⟩, Token.atEnd 1] := by
    have hlines : Text.lines denseCall = [['f', '(', '1', ')', ';']] := by decide
    simp only [Token.ofText, hlines, Token.ofLines, Token.ofLine_eq_upTo]
    rfl
  have hairy : Token.ofText airyCall = .ok
      [⟨.identifier, some "f", ⟨⟨1, 0⟩, ⟨1, 1⟩⟩⟩, ⟨.leftParen, none, ⟨⟨1, 2⟩, ⟨1, 3⟩⟩⟩,
        ⟨.intLiteral, some "1", ⟨⟨2, 1⟩, ⟨2, 2⟩⟩⟩, ⟨.rightParen, none, ⟨⟨2, 2⟩, ⟨2, 3⟩⟩⟩,
        ⟨.semicolon, none, ⟨⟨2, 3⟩, ⟨2, 4⟩⟩⟩, Token.atEnd 3] := by
    have hlines : Text.lines airyCall =
        [['/', '/'], ['f', ' ', '('], ['\t', '1', ')', ';']] := by decide
    simp only [Token.ofText, hlines, Token.ofLines, Token.ofLine_eq_upTo]
    rfl
  exact ⟨_, _, hdense, hairy, rfl, layoutIndependent hdense hairy rfl⟩

end UnitScript
