import UnitScript.Proofs.Grammar.Lookahead
import UnitScript.Proofs.Grammar.Sound

/-!
# How far the parsers look

A parser has decided when it has taken some tokens and seen the next one: whatever stands behind
that one, it comes to the same verdict (`Decides`). `Prompt` parsers decide on all tokens, and the
ways of putting parsers together keep them prompt. A refusal that was decided on stands at a token
where what was expected is really missing (`Expectation.Misses`).

Only names need more than one token of lookahead. A parser that has taken a name, whatever it makes
of it, has also seen the token behind it, so `Takes` says of a parser that it takes the name it
stands at; there it may have looked at the second token as well (`Takes.of_second`).
-/

namespace UnitScript

/-- The token is a number that is out of range: `Integer.ofText?` or `Double.ofText?` gives nothing
for it. -/
def Token.OutOfRange (token : Token) : Prop :=
  token.kind = .intLiteral ∧ Integer.ofText? token.lexeme.toList = none ∨
    token.kind = .doubleLiteral ∧ Double.ofText? token.lexeme.toList = none

/-- What was expected is not what a token is. A literal is missed where its number is out of range
(`Token.OutOfRange`), and nothing that is nested too deep could be there. -/
def Expectation.Misses : Expectation → Token → Prop
  | .token kind, found => found.kind ≠ kind
  | .expression, found => found.kind.beginsAtom = false
  | .type, found => found.kind.isType = false
  | .returnType, found => TypeName.ofToken? found.kind = none
  | .numerator, found =>
    found.kind ≠ .identifier ∧ ¬ (found.kind = .intLiteral ∧ found.lexeme = "1")
  | .integer, found => found.kind = .intLiteral ∧ found.OutOfRange
  | .double, found => found.kind = .doubleLiteral ∧ found.OutOfRange
  | .nesting, _ => True

/-- Whether tokens of this kind can be taken whatever their text (`Token.takable_of_isPlain`). -/
def TokenKind.isPlain : TokenKind → Bool
  | intLiteral | doubleLiteral | endOfText => false
  | _ => true

/-- A token that parsers take: it does not end the text, and is no number out of range
(`Token.OutOfRange`). -/
def Token.Takable (token : Token) : Prop := token.kind ≠ .endOfText ∧ ¬ token.OutOfRange

/-- All tokens of a kind that is plain can be taken: only the end of the text and numbers are not
(`TokenKind.isPlain`). -/
theorem Token.takable_of_isPlain {token : Token} (h : token.kind.isPlain = true) :
    token.Takable := by
  refine ⟨fun hkind => ?_, ?_⟩
  · rw [hkind] at h
    cases h
  · rintro (⟨hkind, -⟩ | ⟨hkind, -⟩) <;>
    · rw [hkind] at h
      cases h

namespace Parser

variable {α β : Type}

/-- What a parser makes of tokens, a result or a refusal, without the tokens it leaves
(`Verdict.before`). -/
inductive Verdict (α : Type) where
  | reads (a : α)
  | refuses (expected : Expectation) (depth : Nat)

/-- What a parser returns that comes to a verdict and leaves these tokens. A refusal stands at the
first of them. -/
def Verdict.before (rest : List Token) : Verdict α → Except Refusal (α × List Token)
  | reads a => .ok (a, rest)
  | refuses expected depth => .error ⟨expected, rest, depth⟩

/-- Having taken the tokens `ts` and seen the first of the rest, the parser comes to its verdict
whatever else follows. Neither the end of the text nor a number out of range (`Token.Takable`) is
among the tokens it takes, and where it refuses the next token this is not what was expected
(`Expectation.Misses`). -/
structure Decides (p : Parser α) (ts rest : List Token) (verdict : Verdict α) : Prop where
  steady : ∀ others : List Token, others.head? = rest.head? →
    p (ts ++ others) = verdict.before others
  within : ∀ token ∈ ts, token.Takable
  missing : ∀ expected depth, verdict = .refuses expected depth →
    ∀ token ∈ rest.head?, expected.Misses token

/-- The tokens can be cut in two so that the parser decides there: it takes the first part of them
(`Decides`). -/
def DecidesAt (p : Parser α) (tokens : List Token) : Prop :=
  ∃ ts rest verdict, tokens = ts ++ rest ∧ Decides p ts rest verdict

/-- The parser decides on all tokens (`DecidesAt`): it never looks further than one token behind
those that it takes. -/
def Prompt (p : Parser α) : Prop := ∀ tokens, DecidesAt p tokens

/-- At this name the parser takes the name at least, and decides (`Decides`) with what is behind
it. -/
def Takes (p : Parser α) (name : Token) (tail : List Token) : Prop :=
  ∃ ts rest verdict, tail = ts ++ rest ∧ Decides p (name :: ts) rest verdict

/-! ## Rules -/

section
variable {p q : Parser α} {tokens : List Token}

/-- The first token behind some others is the first of these, if there are any. -/
theorem head?_append_congr {ts others rest : List Token} (h : others.head? = rest.head?) :
    (ts ++ others).head? = (ts ++ rest).head? := by
  cases ts with
  | nil => exact h
  | cons _ _ => rfl

/-- The verdict that was decided on is what the parser returns for these tokens
(`Verdict.before`). -/
theorem Decides.eq {ts rest : List Token} {verdict : Verdict α} (h : Decides p ts rest verdict) :
    p (ts ++ rest) = verdict.before rest :=
  h.steady rest rfl

/-- Parsers that agree on all tokens that begin with the same token decide on the same ones
(`DecidesAt`). -/
theorem DecidesAt.of_head (hq : DecidesAt q tokens)
    (heq : ∀ others : List Token, others.head? = tokens.head? → p others = q others) :
    DecidesAt p tokens := by
  obtain ⟨ts, rest, verdict, rfl, h⟩ := hq
  refine ⟨ts, rest, verdict, rfl, fun others hothers => ?_, h.within, h.missing⟩
  rw [heq _ (head?_append_congr hothers)]
  exact h.steady others hothers

/-- A verdict that depends on the first token only is decided on without taking it: no token is
taken at all. -/
theorem DecidesAt.of_verdict (verdict : Verdict α)
    (heq : ∀ others : List Token, others.head? = tokens.head? → p others = verdict.before others)
    (hmiss : ∀ expected depth, verdict = .refuses expected depth →
      ∀ token ∈ tokens.head?, expected.Misses token) :
    DecidesAt p tokens :=
  ⟨[], tokens, verdict, rfl, heq, nofun, hmiss⟩

/-- A token that can be taken (`Token.Takable`) may be taken whatever follows it. -/
theorem Decides.of_token {token : Token} {tail : List Token} {a : α}
    (heq : ∀ others, p (token :: others) = .ok (a, others)) (htoken : token.Takable) :
    Decides p [token] tail (.reads a) where
  steady others _ := heq others
  within other hother := by
    obtain rfl := List.mem_singleton.1 hother
    exact htoken
  missing := nofun

/-- Two decisions, one where the other leaves off, make up one decision of the two parsers together:
all tokens of both are taken. -/
theorem Decides.bind {f : α → Parser β} {ts us rest : List Token} {a : α} {verdict : Verdict β}
    (hp : Decides p ts (us ++ rest) (.reads a)) (hf : Decides (f a) us rest verdict) :
    Decides (p >>= f) (ts ++ us) rest verdict where
  steady others hothers := by
    have hfirst := hp.steady (us ++ others) (head?_append_congr hothers)
    have hsecond := hf.steady others hothers
    show StateT.bind p f _ = _
    rw [List.append_assoc, StateT.bind, hfirst]
    exact hsecond
  within token htoken := (List.mem_append.1 htoken).elim (hp.within token) (hf.within token)
  missing := hf.missing

/-- Where the first parser decides to refuse, both together do, and the second one takes nothing. -/
theorem Decides.bind_refuses {f : α → Parser β} {ts rest : List Token} {expected : Expectation}
    {depth : Nat} (hp : Decides p ts rest (.refuses expected depth)) :
    Decides (p >>= f) ts rest (.refuses expected depth) where
  steady others hothers := by
    show StateT.bind p f _ = _
    rw [StateT.bind, hp.steady others hothers]
    rfl
  within := hp.within
  missing _ _ h := by
    cases h
    exact hp.missing _ _ rfl

/-- One parser after another decides (`DecidesAt`) if each does, the second where the first one
leaves off. -/
theorem DecidesAt.bind {f : α → Parser β} (hp : DecidesAt p tokens)
    (hf : ∀ a rest, p tokens = .ok (a, rest) → DecidesAt (f a) rest) :
    DecidesAt (p >>= f) tokens := by
  obtain ⟨ts, rest, verdict, rfl, h⟩ := hp
  cases verdict with
  | refuses expected depth => exact ⟨ts, rest, _, rfl, h.bind_refuses⟩
  | reads a =>
    obtain ⟨us, rest, verdict, rfl, hsecond⟩ := hf a rest h.eq
    exact ⟨ts ++ us, rest, verdict, (List.append_assoc ..).symm, h.bind hsecond⟩

namespace Takes

variable {name : Token} {tail : List Token}

/-- A parser that takes a name (`Takes`) decides on the tokens that begin with this name. -/
theorem decidesAt (h : Takes p name tail) : DecidesAt p (name :: tail) := by
  obtain ⟨ts, rest, verdict, rfl, h⟩ := h
  exact ⟨name :: ts, rest, verdict, rfl, h⟩

/-- The name is taken by the first of two parsers, and the second one is prompt whatever that leaves
(`Prompt`). -/
theorem bind {f : α → Parser β} (hp : Takes p name tail) (hf : ∀ a, Prompt (f a)) :
    Takes (p >>= f) name tail := by
  obtain ⟨ts, rest, verdict, rfl, h⟩ := hp
  cases verdict with
  | refuses expected depth => exact ⟨ts, rest, _, rfl, h.bind_refuses⟩
  | reads a =>
    obtain ⟨us, rest, verdict, rfl, hsecond⟩ := hf a rest
    exact ⟨ts ++ us, rest, verdict, (List.append_assoc ..).symm, h.bind hsecond⟩

/-- Parsers that agree wherever the name and the token behind it are the same take the same names
(`Takes`): once the name is taken, the token behind it is seen. -/
theorem of_second (hq : Takes q name tail)
    (heq : ∀ others : List Token, others.head? = tail.head? →
      p (name :: others) = q (name :: others)) :
    Takes p name tail := by
  obtain ⟨ts, rest, verdict, rfl, h⟩ := hq
  refine ⟨ts, rest, verdict, rfl, fun others hothers => ?_, h.within, h.missing⟩
  have := heq (ts ++ others) (head?_append_congr hothers)
  exact this.trans (h.steady others hothers)

end Takes

namespace Prompt

/-- A result that is already there is decided on without a look at the tokens. -/
theorem pure (a : α) : Prompt (Pure.pure a : Parser α) := fun _ =>
  .of_verdict (.reads a) (fun _ _ => rfl) nofun

/-- One parser after another is prompt if each is: `DecidesAt.bind` at all tokens. -/
theorem bind {f : α → Parser β} (hp : Prompt p) (hf : ∀ a, Prompt (f a)) : Prompt (p >>= f) :=
  fun tokens => (hp tokens).bind fun a rest _ => hf a rest

/-- What a prompt parser reads may be changed afterwards (`Prompt.bind`). -/
theorem map (f : α → β) (hp : Prompt p) : Prompt (f <$> p) := by
  rw [← bind_pure_comp]
  exact hp.bind fun _ => .pure _

/-- Either of two prompt parsers is prompt, whichever of them a condition chooses. -/
theorem ite {c : Prop} [Decidable c] (hp : Prompt p) (hq : Prompt q) :
    Prompt (if c then p else q) := by
  split
  · exact hp
  · exact hq

/-- Below the last level everything is refused at once, and nothing has to be missing for that
(`Expectation.Misses`). -/
theorem refuse_nesting : Prompt (refuse .nesting : Parser α) := fun _ =>
  .of_verdict (.refuses .nesting 0) (fun _ _ => rfl) fun _ _ h => by
    cases h
    exact fun _ _ => trivial

/-- One level deeper (`Parser.nested`) the same is decided: only the depth of a refusal is counted
on. -/
theorem nested (hp : Prompt p) : Prompt (Parser.nested p) := by
  intro tokens
  obtain ⟨ts, rest, verdict, rfl, h⟩ := hp tokens
  cases verdict with
  | reads a =>
    refine ⟨ts, rest, .reads a, rfl, fun others hothers => ?_, h.within, nofun⟩
    rw [Parser.nested, h.steady others hothers]
    rfl
  | refuses expected depth =>
    refine ⟨ts, rest, .refuses expected (depth + 1), rfl, fun others hothers => ?_, h.within,
      fun _ _ heq => ?_⟩
    · rw [Parser.nested, h.steady others hothers]
      rfl
    · cases heq
      exact h.missing _ _ rfl

end Prompt

/-- A choice of kinds leaves out numbers and the end of the text, so that whatever it reads is plain
(`Spares.isPlain`). -/
structure Spares (read : TokenKind → Option α) : Prop where
  int : read .intLiteral = none
  double : read .doubleLiteral = none
  text : read .endOfText = none

/-- What is read by such a choice has a plain kind (`TokenKind.isPlain`) and can be taken. -/
theorem Spares.isPlain {read : TokenKind → Option α} (h : Spares read) {kind : TokenKind} {a : α}
    (hread : read kind = some a) : kind.isPlain = true := by
  cases kind <;> first | rfl | skip
  · cases h.int.symm.trans hread
  · cases h.double.symm.trans hread
  · cases h.text.symm.trans hread

/-- The choice of a single plain kind (`only`) spares numbers and the end of the text. -/
theorem spares_only {kind : TokenKind} (h : kind.isPlain = true) : Spares (only kind) := by
  refine ⟨if_neg ?_, if_neg ?_, if_neg ?_⟩ <;>
  · rintro rfl
    cases h

/-- `accept` decides on the first token. -/
theorem DecidesAt.accept {expected : Expectation} {read : Token → Option α}
    (hsome : ∀ token ∈ tokens.head?, (read token).isSome → token.Takable)
    (hnone : ∀ token ∈ tokens.head?, read token = none → expected.Misses token) :
    DecidesAt (accept expected read) tokens := by
  cases tokens with
  | nil =>
    refine .of_verdict (.refuses expected 0) (fun others hothers => ?_) (by simp)
    obtain rfl := List.head?_eq_none_iff.1 hothers
    rfl
  | cons token tail =>
    cases hread : read token with
    | none =>
      refine .of_verdict (.refuses expected 0) (fun others hothers => ?_) ?_
      · obtain ⟨us, rfl⟩ := List.head?_eq_some_iff.1 hothers
        simp only [Parser.accept, hread]
        rfl
      · intro _ _ h
        cases h
        intro other hother
        cases hother
        exact hnone token rfl hread
    | some a =>
      refine ⟨[token], tail, .reads a, rfl, .of_token (fun others => ?_) ?_⟩
      · simp only [Parser.accept, hread]
      · exact hsome token rfl (by rw [hread]; rfl)

namespace Prompt

/-- `accept` is prompt if it reads what can be taken and expects what it reads. -/
theorem accept {expected : Expectation} {read : Token → Option α}
    (hsome : ∀ token, (read token).isSome → token.Takable)
    (hnone : ∀ token, read token = none → expected.Misses token) :
    Prompt (Parser.accept expected read) := fun _ =>
  .accept (fun token _ => hsome token) fun token _ => hnone token

/-- `take` is prompt. -/
theorem take {kind : TokenKind} (hkind : kind.isPlain = true) : Prompt (Parser.take kind) := by
  refine .accept (fun token h => ?_) fun token h => ?_
  · split at h
    · next heq => exact Token.takable_of_isPlain (heq ▸ hkind)
    · cases h
  · split at h
    · cases h
    · next hne => exact hne

/-- `acceptIf?` is prompt if it reads what can be taken. -/
theorem acceptIf? {read : TokenKind → Option α} (hread : Spares read) :
    Prompt (Parser.acceptIf? read) := by
  intro tokens
  cases tokens with
  | nil =>
    refine .of_verdict (.reads none) (fun others hothers => ?_) nofun
    obtain rfl := List.head?_eq_none_iff.1 hothers
    rfl
  | cons token tail =>
    cases h : read token.kind with
    | none =>
      refine .of_verdict (.reads none) (fun others hothers => ?_) nofun
      obtain ⟨us, rfl⟩ := List.head?_eq_some_iff.1 hothers
      simp only [Parser.acceptIf?, h]
      rfl
    | some a =>
      refine ⟨[token], tail, .reads (some (a, token.span)), rfl, .of_token (fun others => ?_) ?_⟩
      · simp only [Parser.acceptIf?, h]
      · exact Token.takable_of_isPlain (hread.isPlain h)

/-- `peek` is prompt. -/
theorem peek : Prompt Parser.peek := by
  intro tokens
  cases tokens with
  | nil =>
    refine .of_verdict (.refuses (.token .endOfText) 0) (fun others hothers => ?_)
      (by simp)
    obtain rfl := List.head?_eq_none_iff.1 hothers
    rfl
  | cons token tail =>
    refine .of_verdict (.reads token) (fun others hothers => ?_) nofun
    obtain ⟨us, rfl⟩ := List.head?_eq_some_iff.1 hothers
    rfl

/-- `atKind` is prompt. -/
theorem atKind (kind : TokenKind) : Prompt (Parser.atKind kind) := peek.bind fun _ => .pure _

/-- `takeIf` is prompt. -/
theorem takeIf {kind : TokenKind} (hkind : kind.isPlain = true) : Prompt (Parser.takeIf kind) :=
  (acceptIf? (spares_only hkind)).bind fun _ => .pure _

end Prompt

end

/-! ## Loops -/

/-- What is left by a parser that decides (`DecidesAt`) is the end of the tokens it was given. -/
theorem DecidesAt.suffix {p : Parser α} {tokens rest : List Token} {a : α} (hp : DecidesAt p tokens)
    (h : p tokens = .ok (a, rest)) : ∃ ts, tokens = ts ++ rest := by
  obtain ⟨ts, left, verdict, rfl, hdecides⟩ := hp
  rw [hdecides.eq] at h
  cases verdict with
  | refuses _ _ => cases h
  | reads _ =>
    cases h
    exact ⟨ts, rfl⟩

/-- Behind the tokens that the first parser reads the second one goes on: this is what `bind` means
for a `Parser`. -/
theorem bind_of_ok {p : Parser α} {f : α → Parser β} {tokens rest : List Token} {a : α}
    (h : p tokens = .ok (a, rest)) : (p >>= f) tokens = f a rest := by
  show StateT.bind p f tokens = _
  rw [StateT.bind, h]
  rfl

/-- Two parsers return the same if their first steps do there, and their second steps where the
first one leaves off. -/
theorem bind_congr_at {p q : Parser α} {f g : α → Parser β} {tokens : List Token}
    (hp : p tokens = q tokens)
    (h : ∀ a rest, p tokens = .ok (a, rest) → f a rest = g a rest) :
    (p >>= f) tokens = (q >>= g) tokens := by
  show StateT.bind p f tokens = StateT.bind q g tokens
  unfold StateT.bind
  rw [← hp]
  rcases hread : p tokens with e | ⟨a, rest⟩
  · rfl
  · exact h a rest hread

section
variable {item : Parser α} {lead : TokenKind → Option β} {closes : TokenKind → Bool}
  {tokens : List Token}

/-- Two bounds that are both no smaller than the number of tokens make no difference to
`followingUpTo`. -/
theorem followingUpTo_congr (hitem : Prompt item) {m n : Nat} (hm : tokens.length ≤ m)
    (hn : tokens.length ≤ n) :
    followingUpTo lead item m tokens = followingUpTo lead item n tokens := by
  induction m generalizing n tokens with
  | zero =>
    obtain rfl := List.eq_nil_of_length_eq_zero (Nat.le_zero.1 hm)
    cases n <;> rfl
  | succ m ih =>
    cases n with
    | zero =>
      obtain rfl := List.eq_nil_of_length_eq_zero (Nat.le_zero.1 hn)
      rfl
    | succ n =>
      refine bind_congr_at rfl fun leader rest hlead => ?_
      rcases acceptIf?_eq_ok.1 hlead with ⟨token, b, rfl, -, rfl⟩ | ⟨-, rfl, rfl⟩
      · refine bind_congr_at rfl fun a left ha => bind_congr_at ?_ fun _ _ _ => rfl
        obtain ⟨ts, rfl⟩ := (hitem rest).suffix ha
        simp only [List.length_cons, List.length_append] at hm hn
        exact ih (by omega) (by omega)
      · rfl

/-- The loop `following` without its bound: another item is read where something leads to it. -/
theorem following_eq (hitem : Prompt item) (tokens : List Token) :
    following lead item tokens = (do
      match ← acceptIf? lead with
      | none => return []
      | some (leader, _) =>
        let first ← item
        let others ← following lead item
        return (leader, first) :: others : Parser (List (β × α))) tokens := by
  cases tokens with
  | nil => rfl
  | cons token tail =>
    refine bind_congr_at rfl fun leader rest hlead => ?_
    rcases acceptIf?_eq_ok.1 hlead with ⟨_, b, heq, -, rfl⟩ | ⟨-, rfl, rfl⟩
    · cases heq
      refine bind_congr_at rfl fun a left ha => bind_congr_at ?_ fun _ _ _ => rfl
      obtain ⟨ts, rfl⟩ := (hitem tail).suffix ha
      exact followingUpTo_congr hitem (by simp) (Nat.le_refl _)
    · rfl

/-- The loop `following` is prompt if its items are and it is led on by plain tokens (`Spares`). -/
theorem Prompt.following (hitem : Prompt item) (hlead : Spares lead) :
    Prompt (Parser.following lead item) := by
  intro tokens
  induction hn : tokens.length using Nat.strongRecOn generalizing tokens with
  | _ n ih =>
    refine DecidesAt.of_head ?_ fun others _ => following_eq hitem others
    refine (Prompt.acceptIf? hlead tokens).bind fun leader rest hread => ?_
    rcases acceptIf?_eq_ok.1 hread with ⟨_, b, rfl, -, rfl⟩ | ⟨-, rfl, rfl⟩
    · refine (hitem rest).bind fun a left ha => ?_
      obtain ⟨ts, rfl⟩ := (hitem rest).suffix ha
      refine DecidesAt.bind (ih left.length ?_ left rfl) fun _ _ _ => Prompt.pure _ _
      simp only [List.length_cons, List.length_append] at hn
      omega
    · exact Prompt.pure _ _

/-- A list that is read by `separated` is prompt if its elements are and the separator is plain. -/
theorem Prompt.separated {separator : TokenKind} (hitem : Prompt item)
    (hseparator : separator.isPlain = true) : Prompt (Parser.separated separator item) :=
  hitem.bind fun _ => (hitem.following (spares_only hseparator)).bind fun _ => .pure _

/-- Two bounds that suffice make no difference to `untilUpTo`, whose items are not empty. -/
theorem untilUpTo_congr
    (hitem : ∀ {tokens rest a}, item tokens = .ok (a, rest) → rest.length < tokens.length)
    {m n : Nat} (hm : tokens.length ≤ m) (hn : tokens.length ≤ n) :
    untilUpTo closes item m tokens = untilUpTo closes item n tokens := by
  induction m generalizing n tokens with
  | zero =>
    obtain rfl := List.eq_nil_of_length_eq_zero (Nat.le_zero.1 hm)
    cases n <;> rfl
  | succ m ih =>
    cases n with
    | zero =>
      obtain rfl := List.eq_nil_of_length_eq_zero (Nat.le_zero.1 hn)
      rfl
    | succ n =>
      refine bind_congr_at rfl fun token rest hpeek => ?_
      obtain ⟨-, rfl⟩ := peek_eq_ok.1 hpeek
      split
      · rfl
      · refine bind_congr_at rfl fun a left ha => bind_congr_at ?_ fun _ _ _ => rfl
        have := hitem ha
        exact ih (by omega) (by omega)

/-- The loop `untilKind` without its bound: items are read until the next token is a closing one. -/
theorem untilKind_eq
    (hitem : ∀ {tokens rest a}, item tokens = .ok (a, rest) → rest.length < tokens.length)
    (tokens : List Token) :
    untilKind closes item tokens = (do
      if closes (← peek).kind then return []
      let first ← item
      let others ← untilKind closes item
      return first :: others : Parser (List α)) tokens := by
  cases tokens with
  | nil => rfl
  | cons token tail =>
    refine bind_congr_at rfl fun token rest hpeek => ?_
    obtain ⟨-, rfl⟩ := peek_eq_ok.1 hpeek
    split
    · rfl
    · refine bind_congr_at rfl fun a left ha => bind_congr_at ?_ fun _ _ _ => rfl
      have := hitem ha
      exact untilUpTo_congr hitem (by simp only [List.length_cons] at this; omega) (Nat.le_refl _)

/-- The loop `untilKind` is prompt if its items are, and these are not empty. -/
theorem Prompt.untilKind (hprompt : Prompt item)
    (hitem : ∀ {tokens rest a}, item tokens = .ok (a, rest) → rest.length < tokens.length) :
    Prompt (Parser.untilKind closes item) := by
  intro tokens
  induction hn : tokens.length using Nat.strongRecOn generalizing tokens with
  | _ n ih =>
    refine DecidesAt.of_head ?_ fun others _ => untilKind_eq hitem others
    refine (Prompt.peek tokens).bind fun token rest hpeek => ?_
    obtain ⟨-, rfl⟩ := peek_eq_ok.1 hpeek
    split
    · exact Prompt.pure _ _
    · refine (hprompt tokens).bind fun a left ha => ?_
      exact DecidesAt.bind (ih left.length (hn ▸ hitem ha) left rfl) fun _ _ _ => Prompt.pure _ _

end

/-! ## Parts of expressions that do not contain expressions -/

/-- `ident` is prompt. -/
theorem ident_prompt : Prompt ident := (Prompt.take (by decide)).bind fun _ => .pure _

/-- A name is taken as one by `ident`, whatever is behind it. -/
theorem ident_takes {name : Token} (hname : name.kind = .identifier) (tail : List Token) :
    Takes ident name tail := by
  have htakable : name.Takable := Token.takable_of_isPlain (by rw [hname]; rfl)
  refine ⟨[], tail, .reads name.ident, rfl, .of_token (fun others => ?_) htakable⟩
  exact ident_eq_ok.2 ⟨name, rfl, hname, rfl⟩

/-- The tokens that name types (`TypeName.ofToken?`) can be taken. -/
theorem takable_of_ofToken? {token : Token} (h : (TypeName.ofToken? token.kind).isSome) :
    token.Takable := by
  refine Token.takable_of_isPlain ?_
  cases hkind : token.kind <;> first | rfl | (rw [hkind] at h; cases h)

/-- `type` is prompt. -/
theorem type_prompt : Prompt Parser.type := by
  refine .accept (fun token h => ?_) fun token h => ?_
  · split at h
    · exact takable_of_ofToken? h
    · cases h
  · split at h
    · next ht =>
      obtain ⟨type, htype, -⟩ := (TypeName.isType_iff_ofToken? token.kind).1 ht
      rw [h] at htype
      cases htype
    · next ht => exact eq_false_of_ne_true ht

/-- `returnType` is prompt. -/
theorem returnType_prompt : Prompt returnType :=
  .accept (fun _ => takable_of_ofToken?) fun _ => id

/-- `factors` is prompt. -/
theorem factors_prompt : Prompt factors := ident_prompt.separated (by decide)

/-- `numerator` is prompt. -/
theorem numerator_prompt : Prompt numerator := by
  intro tokens
  refine (Prompt.peek tokens).bind fun token rest hpeek => ?_
  obtain ⟨hhead, rfl⟩ := peek_eq_ok.1 hpeek
  split
  · exact factors_prompt tokens
  · next hne =>
    refine .accept (fun other hother h => ?_) fun other hother h => ?_
    · split at h
      · next hone =>
        refine ⟨by rw [hone.1]; decide, ?_⟩
        rintro (⟨-, hrange⟩ | ⟨hkind, -⟩)
        · rw [hone.2] at hrange
          cases hrange
        · rw [hone.1] at hkind
          cases hkind
      · cases h
    · split at h
      · cases h
      · next hone =>
        obtain rfl : token = other := Option.some.inj (hhead.symm.trans hother)
        exact ⟨hne, hone⟩

/-- `unit` is prompt. -/
theorem unit_prompt : Prompt unit := by
  refine (Prompt.take (by decide)).bind fun first => numerator_prompt.bind fun above =>
    (Prompt.takeIf (by decide)).bind fun slash => ?_
  cases slash
  · exact (Prompt.pure _).bind fun _ => (Prompt.take (by decide)).bind fun _ => .pure _
  · exact factors_prompt.bind fun _ => (Prompt.take (by decide)).bind fun _ => .pure _

/-- `quantity` is prompt. -/
theorem quantity_prompt (magnitude : Node) : Prompt (quantity magnitude) :=
  (Prompt.take (by decide)).bind fun _ => unit_prompt.bind fun _ => .pure _

/-- `number` decides at a literal of its kind. -/
theorem number_decidesAt {kind : TokenKind} (hkind : kind = .intLiteral ∨ kind = .doubleLiteral)
    {tokens : List Token} (hfirst : ∀ token ∈ tokens.head?, token.kind = kind) :
    DecidesAt (number kind) tokens := by
  have htakable : ∀ token ∈ tokens.head?,
      (token.kind = .intLiteral → (Integer.ofText? token.lexeme.toList).isSome) →
      (token.kind = .doubleLiteral → (Double.ofText? token.lexeme.toList).isSome) →
      token.Takable := by
    intro token htoken hint hdouble
    refine ⟨fun hend => ?_, ?_⟩
    · rw [hfirst token htoken] at hend
      rcases hkind with rfl | rfl <;> cases hend
    · rintro (⟨hkind, hnone⟩ | ⟨hkind, hnone⟩)
      · rw [hnone] at hint
        cases hint hkind
      · rw [hnone] at hdouble
        cases hdouble hkind
  rcases hkind with rfl | rfl
  · rw [number, if_pos rfl]
    refine .accept (fun token ht h => htakable token ht (fun _ => ?_) fun hkind => ?_)
      fun token ht h => ⟨hfirst token ht, .inl ⟨hfirst token ht, Option.map_eq_none_iff.1 h⟩⟩
    · rwa [Option.isSome_map] at h
    · cases (hfirst token ht).symm.trans hkind
  · rw [number, if_neg (by decide)]
    refine .accept (fun token ht h => htakable token ht (fun hkind => ?_) fun _ => ?_)
      fun token ht h => ⟨hfirst token ht, .inr ⟨hfirst token ht, Option.map_eq_none_iff.1 h⟩⟩
    · cases (hfirst token ht).symm.trans hkind
    · rwa [Option.isSome_map] at h

/-! ## Expressions, given those of deeper levels -/

/-- The parsers for deeper levels are prompt (`Parser.Prompt`): they decide by the tokens in front
of them. -/
structure Deeper.Prompt (deeper : Deeper) : Prop where
  expression : Parser.Prompt deeper.expression
  comparison : Parser.Prompt deeper.comparison
  sign : Parser.Prompt deeper.sign

section
variable {below : Deeper}

/-- `group` is prompt. -/
theorem group_prompt (hbelow : below.Prompt) : Prompt (group below) :=
  (Prompt.take (by decide)).bind fun _ => hbelow.expression.bind fun _ =>
    (Prompt.take (by decide)).bind fun _ => .pure _

/-- The parser `call` takes the name of what is called, and goes on with its arguments. -/
theorem call_takes (hbelow : below.Prompt) {name : Token} (hname : name.kind = .identifier)
    (tail : List Token) : Takes (call below) name tail := by
  refine (ident_takes hname tail).bind fun callee => (Prompt.take (by decide)).bind fun _ =>
    (Prompt.atKind _).bind fun closes => ?_
  cases closes
  · exact (hbelow.expression.separated (by decide)).bind fun _ =>
      (Prompt.take (by decide)).bind fun _ => .pure _
  · exact (Prompt.pure _).bind fun _ => (Prompt.take (by decide)).bind fun _ => .pure _

/-- Where the second of all tokens is seen, as `peekSecond?` does, it is the first of those behind
the name. -/
theorem second_of_head? {name : Token} {tail others : List Token} (h : others.head? = tail.head?) :
    (name :: others)[1]?.map Token.kind = tail.head?.map Token.kind := by
  rw [← h, List.getElem?_cons_succ, List.head?_eq_getElem?]

/-- Whether `atom` reads a call, a quantity or a variable depends on the token behind the name, and
on nothing else. -/
theorem atom_of_name {name : Token} {tail others : List Token} (hname : name.kind = .identifier)
    (h : others.head? = tail.head?) :
    atom below (name :: others) = (match tail.head?.map Token.kind with
      | some .leftParen => call below
      | second => do
        let name ← ident
        let read : Node := ⟨name.span, .variable name⟩
        if second = some .ampersand then quantity read else return read : Parser Node)
      (name :: others) := by
  rw [atom, bind_of_ok (peek_eq_ok.2 ⟨rfl, rfl⟩)]
  simp only [hname]
  exact bind_of_ok (peekSecond?_eq_ok.2 ⟨second_of_head? h, rfl⟩)

/-- The parser `atom` takes a name that it stands at, and depends on the token behind it
(`Takes.of_second`). -/
theorem atom_takes (hbelow : below.Prompt) {name : Token} (hname : name.kind = .identifier)
    (tail : List Token) : Takes (atom below) name tail := by
  refine Takes.of_second ?_ fun others hothers => atom_of_name hname hothers
  split
  · exact call_takes hbelow hname tail
  · exact (ident_takes hname tail).bind fun _ => .ite (quantity_prompt _) (.pure _)

/-- An atom that begins with a token that is no name depends on this token. -/
theorem atom_of_head {token : Token} {tail others : List Token}
    (h : others.head? = (token :: tail).head?) :
    atom below others = (match token.kind with
      | .identifier => do
        match ← peekSecond? with
        | some .leftParen => call below
        | second =>
          let name ← ident
          let read : Node := ⟨name.span, .variable name⟩
          if second = some .ampersand then quantity read else return read
      | .leftParen => group below
      | .intLiteral | .doubleLiteral => do
        let magnitude ← number token.kind
        if ← atKind .ampersand then quantity magnitude else return magnitude
      | .pipe => unit
      | _ => accept .expression literal? : Parser Node) others :=
  bind_of_ok (peek_eq_ok.2 ⟨h, rfl⟩)

/-- The token of a text or a truth value (`literal?`) can be taken. -/
theorem takable_of_literal? {token : Token} (h : (literal? token).isSome) : token.Takable := by
  refine Token.takable_of_isPlain ?_
  cases hkind : token.kind <;> first | rfl | (rw [literal?, hkind] at h; cases h)

/-- `atom` is prompt. -/
theorem atom_prompt (hbelow : below.Prompt) : Prompt (atom below) := by
  intro tokens
  cases tokens with
  | nil =>
    refine (Prompt.peek []).bind fun _ _ h => ?_
    cases h
  | cons token tail =>
    have hnumber : ∀ {kind : TokenKind}, kind = .intLiteral ∨ kind = .doubleLiteral →
        token.kind = kind → DecidesAt (do
          let magnitude ← number kind
          if ← atKind .ampersand then quantity magnitude else return magnitude : Parser Node)
          (token :: tail) := by
      intro kind hkind htoken
      refine (number_decidesAt hkind fun other hother => ?_).bind fun magnitude rest _ => ?_
      · cases hother
        exact htoken
      · exact (Prompt.atKind _).bind (fun _ => .ite (quantity_prompt _) (.pure _)) rest
    by_cases hname : token.kind = .identifier
    · exact (atom_takes hbelow hname tail).decidesAt
    · refine DecidesAt.of_head ?_ fun _ => atom_of_head
      cases hk : token.kind <;> simp only
      case identifier => exact absurd hk hname
      case leftParen => exact group_prompt hbelow _
      case intLiteral => exact hnumber (.inl rfl) hk
      case doubleLiteral => exact hnumber (.inr rfl) hk
      case pipe => exact unit_prompt _
      all_goals
        refine .accept (fun _ _ => takable_of_literal?) fun other hother hnone => ?_
        cases hother
        show token.kind.beginsAtom = false
        first
        | rw [hk]; rfl
        | rw [literal?, hk] at hnone; cases hnone

/-- `signed` is prompt. -/
theorem signed_prompt (hbelow : below.Prompt) : Prompt (signed below) := by
  refine (Prompt.acceptIf? ⟨rfl, rfl, rfl⟩).bind fun sign => ?_
  split
  · exact hbelow.sign.bind fun _ => .pure _
  · exact atom_prompt hbelow

/-- A name that no sign stands in front of is taken by `signed`, as `atom` takes it. -/
theorem signed_takes (hbelow : below.Prompt) {name : Token} (hname : name.kind = .identifier)
    (tail : List Token) : Takes (signed below) name tail := by
  refine (atom_takes hbelow hname tail).of_second fun others _ => ?_
  refine bind_of_ok (acceptIf?_eq_ok.2 (.inr ⟨fun token htoken => ?_, rfl, rfl⟩))
  cases htoken
  rw [hname]
  rfl

/-- The operands that a tier joins are prompt as a `chain` if each of them is. -/
theorem chain_prompt {tier : Tier} {operand : Parser Node} (hoperand : Prompt operand) :
    Prompt (chain tier operand) :=
  hoperand.bind fun _ => (hoperand.following ⟨rfl, rfl, rfl⟩).bind fun _ => .pure _

/-- A `chain` takes a name if its first operand does, and is prompt behind that operand. -/
theorem chain_takes {tier : Tier} {operand : Parser Node} (hoperand : Prompt operand)
    {name : Token} {tail : List Token} (hfirst : Takes operand name tail) :
    Takes (chain tier operand) name tail :=
  hfirst.bind fun _ => (hoperand.following ⟨rfl, rfl, rfl⟩).bind fun _ => .pure _

/-- `comparison` is prompt. -/
theorem comparison_prompt (hbelow : below.Prompt) : Prompt (comparison below) := by
  refine (Prompt.acceptIf? ⟨rfl, rfl, rfl⟩).bind fun negation => ?_
  split
  · exact hbelow.comparison.bind fun _ => .pure _
  · exact chain_prompt (chain_prompt (chain_prompt (signed_prompt hbelow)))

/-- A name that nothing negates is taken by `comparison`, as the first operand of its chain. -/
theorem comparison_takes (hbelow : below.Prompt) {name : Token} (hname : name.kind = .identifier)
    (tail : List Token) : Takes (comparison below) name tail := by
  have hproducts : Prompt (chain .product (signed below)) := chain_prompt (signed_prompt hbelow)
  have hsums : Takes (chain .sum (chain .product (signed below))) name tail :=
    chain_takes hproducts (chain_takes (signed_prompt hbelow) (signed_takes hbelow hname tail))
  have hcomparisons : Takes (chain .comparison (chain .sum (chain .product (signed below))))
      name tail := chain_takes (chain_prompt hproducts) hsums
  refine hcomparisons.of_second fun others _ => ?_
  refine bind_of_ok (acceptIf?_eq_ok.2 (.inr ⟨fun token htoken => ?_, rfl, rfl⟩))
  cases htoken
  rw [hname]
  rfl

/-- Behind its type, if there is one, an assignment is prompt: the name, the sign and the value. -/
theorem assigned_prompt (hbelow : below.Prompt) (start : Span) (type : Option TypeName)
    (name : Ident) :
    Prompt (do
      let _ ← take .equal
      let value ← below.expression
      return ⟨start.through value.span, .assign type name value⟩ : Parser Node) :=
  (Prompt.take (by decide)).bind fun _ => hbelow.expression.bind fun _ => .pure _

/-- `assignment` is prompt. -/
theorem assignment_prompt (hbelow : below.Prompt) : Prompt (assignment below) := by
  refine Prompt.peek.bind fun start => Prompt.peek.bind fun first => ?_
  split
  · exact (type_prompt.map some).bind fun type => ident_prompt.bind
      (assigned_prompt hbelow start.span type)
  · exact (Prompt.pure none).bind fun type => ident_prompt.bind
      (assigned_prompt hbelow start.span type)

/-- Without a type, `assignment` takes the name that it assigns to. -/
theorem assignment_takes (hbelow : below.Prompt) {name : Token} (hname : name.kind = .identifier)
    (tail : List Token) : Takes (assignment below) name tail := by
  refine ((ident_takes hname tail).bind (assigned_prompt hbelow name.span none)).of_second
    fun others _ => ?_
  rw [assignment, bind_of_ok (peek_eq_ok.2 ⟨rfl, rfl⟩), bind_of_ok (peek_eq_ok.2 ⟨rfl, rfl⟩),
    if_neg (by rw [hname]; decide)]
  exact bind_of_ok (pure_eq_ok.2 ⟨rfl, rfl⟩)

/-- `expressionBody` is prompt: to see whether it is an assignment that begins with a name it
takes two tokens, and the name is taken in either case. -/
theorem expressionBody_prompt (hbelow : below.Prompt) : Prompt (expressionBody below) := by
  intro tokens
  have hbody : ∀ others : List Token, ∀ token, others.head? = some token →
      expressionBody below others =
        (if token.kind.isType ∨ (token.kind = .identifier ∧
            others[1]?.map Token.kind = some .equal) then assignment below
          else chain .logic (comparison below) : Parser Node) others := by
    intro others token htoken
    rw [expressionBody, bind_of_ok (peek_eq_ok.2 ⟨htoken, rfl⟩)]
    exact bind_of_ok (peekSecond?_eq_ok.2 ⟨rfl, rfl⟩)
  cases tokens with
  | nil =>
    refine (Prompt.peek []).bind fun _ _ h => ?_
    cases h
  | cons token tail =>
    by_cases hname : token.kind = .identifier
    · refine Takes.decidesAt ?_
      refine Takes.of_second ?_ fun others hothers => by
        rw [hbody (token :: others) token rfl, second_of_head? hothers]
      split
      · exact assignment_takes hbelow hname tail
      · exact chain_takes (comparison_prompt hbelow) (comparison_takes hbelow hname tail)
    · have hother : Prompt (if token.kind.isType then assignment below
          else chain .logic (comparison below) : Parser Node) :=
        .ite (assignment_prompt hbelow) (chain_prompt (comparison_prompt hbelow))
      refine DecidesAt.of_head (hother _) fun others hothers => ?_
      rw [hbody others token hothers]
      simp only [hname, false_and, or_false]

end

/-- The parsers for all levels are prompt (`Deeper.Prompt`), by induction on the levels. -/
theorem deeper_prompt (n : Nat) : (deeper n).Prompt := by
  induction n with
  | zero => exact ⟨.refuse_nesting, .refuse_nesting, .refuse_nesting⟩
  | succ n ih =>
    exact ⟨(expressionBody_prompt ih).nested, (comparison_prompt ih).nested,
      (signed_prompt ih).nested⟩

/-! ## Statements, given the blocks in them -/

section
variable {below : Deeper} {inner : Parser Block}

/-- `condition` is prompt. -/
theorem condition_prompt (hbelow : below.Prompt) : Prompt (condition below) :=
  (Prompt.take (by decide)).bind fun _ => hbelow.expression.bind fun _ =>
    (Prompt.take (by decide)).bind fun _ => .pure _

/-- `case` is prompt. -/
theorem case_prompt (hbelow : below.Prompt) (hinner : Prompt inner) :
    Prompt (case below inner) :=
  (condition_prompt hbelow).bind fun _ => hinner.bind fun _ => .pure _

/-- `ifElse` is prompt. -/
theorem ifElse_prompt (hbelow : below.Prompt) (hinner : Prompt inner) :
    Prompt (ifElse below inner) := by
  have hcase := case_prompt hbelow hinner
  refine (Prompt.take (by decide)).bind fun start => hcase.bind fun first =>
    (hcase.following ⟨rfl, rfl, rfl⟩).bind fun others =>
      (Prompt.takeIf (by decide)).bind fun last => ?_
  exact .ite (hinner.bind fun _ => .pure _) (.pure _)

/-- `whileLoop` is prompt. -/
theorem whileLoop_prompt (hbelow : below.Prompt) (hinner : Prompt inner) :
    Prompt (whileLoop below inner) :=
  (Prompt.take (by decide)).bind fun _ => (condition_prompt hbelow).bind fun _ =>
    hinner.bind fun _ => .pure _

/-- `param` is prompt. -/
theorem param_prompt : Prompt param :=
  ident_prompt.bind fun _ => (Prompt.take (by decide)).bind fun _ => type_prompt.bind fun _ =>
    .pure _

/-- `function` is prompt. -/
theorem function_prompt (hinner : Prompt inner) : Prompt (function inner) := by
  refine (Prompt.take (by decide)).bind fun start => ident_prompt.bind fun name =>
    (Prompt.take (by decide)).bind fun _ => (Prompt.atKind _).bind fun named => ?_
  have hrest : ∀ params : List Param, Prompt (do
      let _ ← take .rightParen
      let _ ← take .arrow
      let returns ← returnType
      let body ← inner
      return ⟨start.span.through body.span, .function name params returns body⟩ : Parser Node) :=
    fun params => (Prompt.take (by decide)).bind fun _ => (Prompt.take (by decide)).bind fun _ =>
      returnType_prompt.bind fun _ => hinner.bind fun _ => .pure _
  cases named
  · exact (Prompt.pure []).bind hrest
  · exact (param_prompt.separated (by decide)).bind hrest

/-- `returned` is prompt. -/
theorem returned_prompt (hbelow : below.Prompt) : Prompt (returned below) :=
  (Prompt.take (by decide)).bind fun _ => (Prompt.atKind _).bind fun _ =>
    .ite (.pure _) (hbelow.expression.bind fun _ => .pure _)

/-- What `closed` reads up to a semicolon is prompt if the statement in front of it is. -/
theorem closed_prompt {simple : Parser Node} (hsimple : Prompt simple) : Prompt (closed simple) :=
  hsimple.bind fun _ => (Prompt.take (by decide)).bind fun _ => .pure _

/-- A statement that consists of one word, as jumps in loops do, is prompt. -/
theorem word_prompt {kind : TokenKind} (hkind : kind.isPlain = true) (form : Form) :
    Prompt (do return ⟨(← take kind).span, form⟩ : Parser Node) :=
  (Prompt.take hkind).bind fun _ => .pure _

/-- `statementWith` is prompt. -/
theorem statementWith_prompt (hbelow : below.Prompt) (hinner : Prompt inner) :
    Prompt (statementWith below inner) := by
  refine Prompt.peek.bind fun token => ?_
  split
  · exact ifElse_prompt hbelow hinner
  · exact whileLoop_prompt hbelow hinner
  · exact function_prompt hinner
  · exact hinner.bind fun _ => .pure _
  · exact closed_prompt (returned_prompt hbelow)
  · exact closed_prompt (word_prompt (by decide) _)
  · exact closed_prompt (word_prompt (by decide) _)
  · exact closed_prompt hbelow.expression

end

/-- A statement is not empty: `statementWith` leaves fewer tokens than there were. -/
theorem length_lt_of_statementWith {n : Nat} {tokens rest : List Token} {e : Node}
    (h : statementWith (deeper n) (block n) tokens = .ok (e, rest)) :
    rest.length < tokens.length := by
  obtain ⟨ts, rfl, hts⟩ := statementWith_reads (deeper_sound n) (block_reads n) h
  obtain ⟨token, us, rfl, -⟩ := hts.opens
  simp only [List.length_append, List.length_cons]
  omega

/-- The statements up to a closing token are prompt if `block` is on this level. -/
theorem items_prompt {n : Nat} (hblock : Prompt (block n)) (closes : TokenKind → Bool) :
    Prompt (untilKind closes (statementWith (deeper n) (block n))) :=
  (statementWith_prompt (deeper_prompt n) hblock).untilKind length_lt_of_statementWith

/-- Blocks are prompt, by induction on the level: `block` reads statements with the blocks of the
level below. -/
theorem block_prompt (n : Nat) : Prompt (block n) := by
  induction n with
  | zero => exact .refuse_nesting
  | succ n ih =>
    exact .nested ((Prompt.take (by decide)).bind fun _ => (items_prompt ih _).bind fun _ =>
      (Prompt.take (by decide)).bind fun _ => .pure _)

/-! ## Programs -/

/-- What `untilKind` has read ends in front of a closing token, which it leaves. -/
theorem untilKind_ends {item : Parser α} {closes : TokenKind → Bool} {tokens rest : List Token}
    {as : List α} (h : untilKind closes item tokens = .ok (as, rest)) :
    ∃ last us, rest = last :: us ∧ closes last.kind = true := by
  have key : ∀ (bound : Nat) {tokens as}, untilUpTo closes item bound tokens = .ok (as, rest) →
      ∃ last us, rest = last :: us ∧ closes last.kind = true := by
    intro bound
    induction bound with
    | zero => exact fun h => absurd h refuse_ne_ok
    | succ bound ih =>
      intro tokens as h
      obtain ⟨token, mid, hpeek, h⟩ := bind_eq_ok.1 h
      obtain ⟨hhead, rfl⟩ := peek_eq_ok.1 hpeek
      split at h
      · next hcloses =>
        obtain ⟨-, rfl⟩ := pure_eq_ok.1 h
        obtain ⟨us, rfl⟩ := List.head?_eq_some_iff.1 hhead
        exact ⟨token, us, rfl, hcloses⟩
      · obtain ⟨a, mid, -, h⟩ := bind_eq_ok.1 h
        obtain ⟨others, mid, hothers, h⟩ := bind_eq_ok.1 h
        obtain ⟨-, rfl⟩ := pure_eq_ok.1 h
        exact ih hothers
  exact key _ h

/-- Where a text that has an end is no program, the parser has decided so when it has seen the token
that it refuses: that token is not what was expected (`Expectation.Misses`), and the same is refused
whatever follows it. -/
theorem program_refuses {tokens : List Token} {refusal : Refusal}
    (h : program tokens = .error refusal) (hend : ∃ last ∈ tokens, last.kind = .endOfText) :
    ∃ ts found rest, tokens = ts ++ found :: rest ∧ refusal.rest = found :: rest ∧
      refusal.expected.Misses found ∧ (∀ token ∈ ts, token.Takable) ∧
      ∀ others, program (ts ++ found :: others) =
        .error ⟨refusal.expected, found :: others, refusal.depth⟩ := by
  obtain ⟨last, hlast, hkind⟩ := hend
  obtain ⟨ts, rest, verdict, rfl, hdecides⟩ := items_prompt (block_prompt nestingLimit)
    (fun kind => decide (kind = .endOfText)) tokens
  -- What is read first is only looked at for where it stands.
  have hprogram : ∀ (start : Token) (others : List Token), others.head? = some start →
      program others = (do
        let items ← untilKind (fun kind => decide (kind = .endOfText)) statement
        let last ← take .endOfText
        return ⟨start.span.through last.span, items⟩ : Parser Block) others :=
    fun start others hothers => bind_of_ok (peek_eq_ok.2 ⟨hothers, rfl⟩)
  obtain ⟨start, hstart⟩ : ∃ start, (ts ++ rest).head? = some start := by
    cases hlist : ts ++ rest with
    | nil =>
      rw [hlist] at hlast
      cases hlast
    | cons start _ => exact ⟨start, rfl⟩
  rw [hprogram start _ hstart] at h
  cases verdict with
  | reads items =>
    have hitems := hdecides.eq
    obtain ⟨final, us, rfl, hfinal⟩ := untilKind_ends hitems
    rw [statement, bind_of_ok hitems,
      bind_of_ok (take_eq_ok.2 ⟨rfl, of_decide_eq_true hfinal⟩)] at h
    cases h
  | refuses expected depth =>
    have hrefuses : ∀ start : Token, Decides (do
        let items ← untilKind (fun kind => decide (kind = .endOfText)) statement
        let last ← take .endOfText
        return ⟨start.span.through last.span, items⟩ : Parser Block) ts rest
          (.refuses expected depth) :=
      fun _ => hdecides.bind_refuses
    obtain rfl : (⟨expected, rest, depth⟩ : Refusal) = refusal :=
      Except.error.inj ((hrefuses start).eq.symm.trans h)
    cases rest with
    | nil => exact absurd hkind (hdecides.within last (by simpa using hlast)).1
    | cons found rest =>
      refine ⟨ts, found, rest, rfl, rfl, hdecides.missing _ _ rfl found rfl, hdecides.within,
        fun others => ?_⟩
      rw [hprogram start]
      · exact (hrefuses start).steady (found :: others) rfl
      · rw [← hstart]
        exact head?_append_congr rfl

end Parser

end UnitScript
