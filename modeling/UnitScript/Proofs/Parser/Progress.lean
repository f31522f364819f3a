import UnitScript.Proofs.Parser.Agreement

/-!
# The parser makes progress

The entry points of the parser, for a text, a statement and an expression, are settled on every
stream of tokens, whether it has an end or not and whatever its literals are (`parserSafety`). With
fuel for the tokens that there are and the levels that are left, they come to a result or a refusal,
never run out of it and never panic. What they leave is a part of the stream, and a smaller one if
they have read something. The counter is back where it was, and was nowhere above the limit.
-/

namespace UnitScript

namespace Parser

/-- The statements of a text up to its end, where so many levels are left. With all of them it is
`Parser.program` (`programWithin_nestingLimit`). -/
def programWithin (levels : Nat) : Parser Block := do
  let start := (← peek).span
  let items ← untilKind (· = .endOfText) (statementWith (deeper levels) (block levels))
  let last ← take .endOfText
  return ⟨start.through last.span, items⟩

/-- All levels are left to a program. -/
theorem programWithin_nestingLimit : programWithin nestingLimit = program := rfl

variable {n : Nat} {tokens rest : List Token}

/-- An expression is not empty. -/
theorem length_lt_of_expression {e : Node} (h : (deeper n).expression tokens = .ok (e, rest)) :
    rest.length < tokens.length := by
  obtain ⟨ts, rfl, hts⟩ := (deeper_sound n).expression h
  obtain ⟨token, us, rfl, -⟩ := hts.opens
  simp only [List.length_append, List.length_cons]
  omega

/-- A program is not empty, since its end is a part of it. -/
theorem length_lt_of_programWithin {b : Block} (h : programWithin n tokens = .ok (b, rest)) :
    rest.length < tokens.length := by
  obtain ⟨start, mid, hpeek, h⟩ := bind_eq_ok.1 h
  obtain ⟨-, rfl⟩ := peek_eq_ok.1 hpeek
  obtain ⟨items, mid, hitems, hclosed⟩ := bind_eq_ok.1 h
  obtain ⟨last, mid', hlast, hresult⟩ := bind_eq_ok.1 hclosed
  obtain ⟨rfl, -⟩ := take_eq_ok.1 hlast
  obtain ⟨-, rfl⟩ := pure_eq_ok.1 hresult
  obtain ⟨ts, rfl, -⟩ :=
    untilKind_reads (statementWith_reads (deeper_sound n) (block_reads n)) hitems
  simp only [List.length_append, List.length_cons]
  omega

end Parser

namespace Reader

variable {α : Type}

/-- With enough fuel a text is read by `Reader.program` as by the parser, from any level within the
limit. -/
theorem program_implements {d n fuel : Nat} (hd : d ≤ nestingLimit)
    (hfuel : n + (nestingLimit - d) < fuel) :
    Implements d n (program fuel) (Parser.programWithin (nestingLimit - d)) :=
  (Implements.peek d n).bind fun _ =>
    ((statement_implements hd hfuel).untilKind Parser.length_lt_of_statementWith (by omega)).bind
      fun _ => (Implements.take d n _).bind fun _ => .pure _

/-- A reader has come to what a parser comes to: it has left a part of the tokens, a smaller one if
it has read something, and it is on the level where it began, without having gone below the limit.
It has neither panicked nor run out of fuel. -/
inductive Settles (s : Reading) : Except Refusal (α × List Token) → Finish α × Reading → Prop
  | done {a : α} {t : Reading} : t.tokens <:+ s.tokens → t.tokens.length < s.tokens.length →
    t.depth = s.depth → t.deepest ≤ nestingLimit → Settles s (.ok (a, t.tokens)) (.done a, t)
  | refused {expected : Expectation} {depth : Nat} {t : Reading} : t.tokens <:+ s.tokens →
    t.depth = s.depth → t.deepest ≤ nestingLimit →
    Settles s (.error ⟨expected, t.tokens, depth⟩) (.refused expected, t)

/-- A reader that agrees (`Matches`) with a parser that reads nothing empty is settled, if it begins
within the limit. -/
theorem Matches.settles {s : Reading} {q : Parser α} {run : Finish α × Reading}
    (h : Matches s (q s.tokens) run) (hdeepest : s.deepest ≤ nestingLimit)
    (hq : ∀ {tokens rest a}, q tokens = .ok (a, rest) → rest.length < tokens.length) :
    Settles s (q s.tokens) run := by
  generalize hread : q s.tokens = read at h
  cases h with
  | done hmoves =>
    exact .done hmoves.tokens (hq hread) hmoves.depth
      (Nat.le_trans hmoves.deepest (Nat.max_le.2 ⟨hdeepest, Nat.le_refl _⟩))
  | refused hmoves =>
    exact .refused hmoves.tokens hmoves.depth
      (Nat.le_trans hmoves.deepest (Nat.max_le.2 ⟨hdeepest, Nat.le_refl _⟩))

end Reader

/-- What is read from a stream of tokens on some level, with any amount of fuel that suffices, is
settled (`Reader.Settles`). On the first level the readers come to what `Parser.program`,
`Parser.statement` and `Parser.expression` come to. -/
structure ParserSafety (tokens : List Token) (depth : Nat) : Prop where
  /-- A whole text: `Reader.program` neither panics nor goes below the limit, leaves the level where
  it began, and comes to what the parser comes to (`Reader.Settles`). -/
  program {fuel : Nat} : tokens.length + 1 + (nestingLimit - depth) < fuel →
    Reader.Settles ⟨tokens, depth, depth⟩ (Parser.programWithin (nestingLimit - depth) tokens)
      (Reader.program fuel ⟨tokens, depth, depth⟩)
  /-- The same holds of `Reader.statement`, which takes a token at least. -/
  statement {fuel : Nat} : tokens.length + 1 + (nestingLimit - depth) < fuel →
    Reader.Settles ⟨tokens, depth, depth⟩
      (Parser.statementWith (Parser.deeper (nestingLimit - depth))
        (Parser.block (nestingLimit - depth)) tokens)
      (Reader.statement fuel ⟨tokens, depth, depth⟩)
  /-- The same holds of `Reader.expression`, with all that is nested in it. -/
  expression {fuel : Nat} : tokens.length + 1 + (nestingLimit - depth) < fuel →
    Reader.Settles ⟨tokens, depth, depth⟩
      ((Parser.deeper (nestingLimit - depth)).expression tokens)
      (Reader.expression fuel ⟨tokens, depth, depth⟩)

/-- Reading is settled (`ParserSafety`) on every stream of tokens, with or without an end, from any
level within the limit on. -/
theorem parserSafety (tokens : List Token) {depth : Nat} (h : depth ≤ nestingLimit) :
    ParserSafety tokens depth where
  program hfuel := (Reader.program_implements h hfuel rfl (Nat.lt_succ_self _)).settles h
    Parser.length_lt_of_programWithin
  statement hfuel := (Reader.statement_implements h hfuel rfl (Nat.lt_succ_self _)).settles h
    Parser.length_lt_of_statementWith
  expression hfuel :=
    ((Reader.deeper_implements h hfuel).expression rfl (Nat.lt_succ_self _)).settles h
      Parser.length_lt_of_expression

/-- The tokens of `--x` without an end. -/
def signTokens : List Token :=
  [⟨.minus, none, .origin⟩, ⟨.minus, none, .origin⟩, ⟨.identifier, some "x", .origin⟩]

/-- On `signTokens`, one level above the limit, the second sign is refused, and the counter goes
back to where it was. -/
theorem signTokens_parserSafety :
    255 ≤ nestingLimit ∧ ParserSafety signTokens 255 ∧
      Reader.statement 6 ⟨signTokens, 255, 255⟩ =
        (.refused .nesting, ⟨signTokens.tail, 255, 256⟩) :=
  ⟨by decide, parserSafety signTokens (by decide), rfl⟩

end UnitScript
