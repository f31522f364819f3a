import UnitScript.Proofs.Parser.Counting
import UnitScript.Proofs.Parser.Decisions

/-!
# The counter and the levels that are left

A reader agrees with a parser (`Reader.Matches`) if it comes to the same, leaves the same tokens and
is back on the level where it began, not having gone below the limit. `Reader.Implements d n` says
this of all streams of less than `n` tokens, begun on level `d`. It is shown part by part: one rule
for each way in which readers are put together, and with these one lemma for each part of the
language. The loops need no more rounds than there are tokens, since each round takes one
(`Implements.following`, `Implements.untilKind`), and the levels that are left to a parser are those
up to the limit (`deeper_implements`).

No rule is needed for a reader that panics: where something has to be there, it is
(`Implements.expect`).
-/

namespace UnitScript

/-- A reader has gone on from one place to another: it has left some of the tokens and the levels
that it has entered, none of which was below the limit (`Parser.nestingLimit`). -/
structure Reading.Moves (s s' : Reading) : Prop where
  tokens : s'.tokens <:+ s.tokens
  depth : s'.depth = s.depth
  deepest : s'.deepest ≤ max s.deepest nestingLimit

namespace Reading.Moves

variable {s s' s'' : Reading}

/-- Nothing need be read for `Reading.Moves`. -/
theorem refl (s : Reading) : s.Moves s := ⟨List.suffix_refl _, rfl, Nat.le_max_left ..⟩

/-- A reader goes on from where it has gone to (`Reading.Moves`). -/
theorem trans (h : s.Moves s') (h' : s'.Moves s'') : s.Moves s'' := by
  refine ⟨h'.tokens.trans h.tokens, h'.depth.trans h.depth, ?_⟩
  have := h.deepest
  have := h'.deepest
  omega

/-- No more tokens are left than there were, since those that are left are a part of them. -/
theorem length_le (h : s.Moves s') : s'.tokens.length ≤ s.tokens.length := h.tokens.length_le

end Reading.Moves

namespace Parser

variable {α β : Type}

/-- Whatever a parser comes to, a result or a `Refusal`, it leaves a part of the tokens. -/
structure Recedes (p : Parser α) : Prop where
  read {tokens rest : List Token} {a : α} : p tokens = .ok (a, rest) → rest <:+ tokens
  refused {tokens : List Token} {refusal : Refusal} : p tokens = .error refusal →
    refusal.rest <:+ tokens

/-- A parser that decides (`Parser.Prompt`) leaves what it has not taken. -/
theorem Prompt.recedes {p : Parser α} (h : Prompt p) : Recedes p := by
  refine ⟨fun {tokens rest a} hread => ?_, fun {tokens refusal} hrefused => ?_⟩
  · obtain ⟨ts, rfl⟩ := (h tokens).suffix hread
    exact List.suffix_append ..
  · obtain ⟨ts, rest, verdict, rfl, hdecides⟩ := h tokens
    rw [hdecides.eq] at hrefused
    cases verdict with
    | reads => cases hrefused
    | refuses =>
      cases hrefused
      exact List.suffix_append ..

/-- A parser for one token (`accept`) leaves the others. -/
theorem accept_recedes (expected : Expectation) (read : Token → Option α) :
    Recedes (accept expected read) := by
  refine ⟨fun {tokens rest a} hread => ?_, fun {tokens refusal} hrefused => ?_⟩
  · obtain ⟨token, rfl, -⟩ := accept_eq_ok.1 hread
    exact List.suffix_cons ..
  · cases tokens with
    | nil =>
      cases hrefused
      exact List.suffix_refl _
    | cons token tokens =>
      simp only [accept] at hrefused
      split at hrefused
      · cases hrefused
      · cases hrefused
        exact List.suffix_refl _

/-- Looking at the second token (`peekSecond?`) leaves all. -/
theorem peekSecond?_recedes : Recedes peekSecond? := by
  refine ⟨fun h => ?_, fun h => ?_⟩
  · cases h
    exact List.suffix_refl _
  · cases h

end Parser

namespace Reader

variable {α β : Type} {p : Reader α} {s s' : Reading}

/-- Where the first reader has a result (`Finish.done`), the second goes on with it. -/
theorem bind_of_done {f : α → Reader β} {a : α} (h : p s = (.done a, s')) :
    (p >>= f) s = f a s' := by
  show Reader.bind p f s = _
  rw [Reader.bind, h]

/-- Where the first reader is refused (`Finish.refused`), both are. -/
theorem bind_of_refused {f : α → Reader β} {expected : Expectation}
    (h : p s = (.refused expected, s')) : (p >>= f) s = (.refused expected, s') := by
  show Reader.bind p f s = _
  rw [Reader.bind, h]

/-- A reader agrees with a parser: it comes to what that comes to, leaves the same tokens, and has
only moved on (`Reading.Moves`). There is no case for a panic or for the end of the fuel. -/
inductive Matches (s : Reading) : Except Refusal (α × List Token) → Finish α × Reading → Prop
  | done {a : α} {t : Reading} : s.Moves t → Matches s (.ok (a, t.tokens)) (.done a, t)
  | refused {expected : Expectation} {depth : Nat} {t : Reading} : s.Moves t →
    Matches s (.error ⟨expected, t.tokens, depth⟩) (.refused expected, t)

/-- What agrees from a place that a reader has gone to (`Reading.Moves`) agrees from where it has
come from. -/
theorem Matches.of_moves {read : Except Refusal (α × List Token)} {run : Finish α × Reading}
    (h : Matches s' read run) (hmoves : s.Moves s') : Matches s read run := by
  cases h with
  | done h => exact .done (hmoves.trans h)
  | refused h => exact .refused (hmoves.trans h)

/-- Begun on this level, a reader agrees with a parser (`Matches`) on all streams of less than so
many tokens. -/
def Implements (d n : Nat) (p : Reader α) (q : Parser α) : Prop :=
  ∀ ⦃s : Reading⦄, s.depth = d → s.tokens.length < n → Matches s (q s.tokens) (p s)

namespace Implements

variable {d n : Nat} {q : Parser α}

/-- On fewer tokens the same holds, as `Implements` speaks of all streams below a length. -/
theorem mono {m : Nat} (h : Implements d n p q) (hle : m ≤ n) : Implements d m p q :=
  fun _ hdepth hlength => h hdepth (Nat.lt_of_lt_of_le hlength hle)

/-- There are streams of no fewer than no tokens only, so `Implements` asks nothing at zero. -/
theorem zero : Implements d 0 p q := fun _ _ h => absurd h (Nat.not_lt_zero _)

/-- A result that is already there agrees with itself (`Pure.pure`). -/
theorem pure (a : α) : Implements d n (Pure.pure a) (Pure.pure a) :=
  fun s _ _ => .done (.refl s)

/-- What has to be there is (`Reader.expect`), so there is no panic. -/
theorem expect {result : Option α} {a : α} (h : result = some a) :
    Implements d n (expect result) (Pure.pure a) := by
  subst h
  exact pure a

/-- What a parser does without a loop and on one level is what `Reader.step` does. -/
theorem step (h : q.Recedes) : Implements d n (step q) q := by
  intro s _ _
  unfold Reader.step
  cases hq : q s.tokens with
  | ok r =>
    obtain ⟨a, rest⟩ := r
    exact .done (t := { s with tokens := rest }) ⟨h.read hq, rfl, Nat.le_max_left ..⟩
  | error refusal =>
    exact .refused (t := { s with tokens := refusal.rest })
      ⟨h.refused hq, rfl, Nat.le_max_left ..⟩

/-- A parser may be written in another way, if it comes to the same on all tokens. -/
theorem of_eq {q' : Parser α} (h : Implements d n p q') (heq : ∀ tokens, q tokens = q' tokens) :
    Implements d n p q := by
  intro s hdepth hlength
  rw [heq]
  exact h hdepth hlength

/-- One reader after another, where the second is asked what it comes to behind the first only
(`Reading.Moves`). -/
theorem bind_at {f : α → Reader β} {g : α → Parser β} (hp : Implements d n p q)
    (hf : ∀ (a : α) (s s' : Reading), s.tokens.length < n → s.depth = d → s.Moves s' →
      q s.tokens = .ok (a, s'.tokens) → Matches s' (g a s'.tokens) (f a s')) :
    Implements d n (p >>= f) (q >>= g) := by
  intro s hdepth hlength
  have hfirst := hp hdepth hlength
  generalize hq : q s.tokens = read at hfirst
  generalize hrun : p s = run at hfirst
  cases hfirst with
  | done hmoves =>
    rw [bind_of_done hrun, Parser.bind_of_ok hq]
    exact (hf _ _ _ hlength hdepth hmoves hq).of_moves hmoves
  | @refused expected depth s' hmoves =>
    have hrefused : (q >>= g) s.tokens = .error ⟨expected, s'.tokens, depth⟩ := by
      show StateT.bind q g _ = _
      rw [StateT.bind, hq]
      rfl
    rw [bind_of_refused hrun, hrefused]
    exact .refused hmoves

/-- One reader after another agrees with one parser after another, whatever the first comes to. -/
theorem bind {f : α → Reader β} {g : α → Parser β} (hp : Implements d n p q)
    (hf : ∀ a, Implements d n (f a) (g a)) : Implements d n (p >>= f) (q >>= g) :=
  hp.bind_at fun a _ _ hlength hdepth hmoves _ =>
    hf a (hmoves.depth.trans hdepth) (Nat.lt_of_le_of_lt hmoves.length_le hlength)

/-- Behind a reader that takes a token at least there are fewer, which is what the bound of loops
and levels lives on. -/
theorem bind_shorter {f : α → Reader β} {g : α → Parser β}
    (hq : ∀ {tokens rest a}, q tokens = .ok (a, rest) → rest.length < tokens.length)
    (hp : Implements d (n + 1) p q) (hf : ∀ a, Implements d n (f a) (g a)) :
    Implements d (n + 1) (p >>= f) (q >>= g) :=
  hp.bind_at fun a _ _ hlength hdepth hmoves hread =>
    hf a (hmoves.depth.trans hdepth) (Nat.lt_of_lt_of_le (hq hread) (Nat.le_of_lt_succ hlength))

/-- Either of two readers, as the same condition decides on both sides. -/
theorem ite {c : Prop} [Decidable c] {p' : Reader α} {q' : Parser α} (hp : Implements d n p q)
    (hp' : Implements d n p' q') :
    Implements d n (if c then p else p') (if c then q else q') := by
  split
  · exact hp
  · exact hp'

/-! ## Loops and levels -/

/-- A token is taken where the parser takes it (`Parser.acceptIf?`), or none is. -/
theorem takeKind? {γ : Type} {accepts : TokenKind → Bool} {read : TokenKind → Option β}
    {f : Option (TokenKind × Span) → Reader γ} {g : Option (β × Span) → Parser γ}
    (hread : ∀ kind, (read kind).isSome = accepts kind)
    (hsome : ∀ kind b span, read kind = some b →
      Implements d n (f (some (kind, span))) (g (some (b, span))))
    (hnone : Implements d (n + 1) (f none) (g none)) :
    Implements d (n + 1) (takeKind? accepts >>= f) (Parser.acceptIf? read >>= g) := by
  rintro ⟨tokens, depth, deepest⟩ hdepth hlength
  cases tokens with
  | nil => exact hnone hdepth hlength
  | cons token tokens =>
    have haccepts := hread token.kind
    cases hb : read token.kind with
    | none =>
      rw [hb] at haccepts
      have hrun : Reader.takeKind? accepts ⟨token :: tokens, depth, deepest⟩ =
          (.done none, ⟨token :: tokens, depth, deepest⟩) := by
        simp [Reader.takeKind?, Reader.step, Parser.acceptIf?, ← haccepts]
      have hparse : Parser.acceptIf? read (token :: tokens) = .ok (none, token :: tokens) := by
        simp only [Parser.acceptIf?, hb]
      rw [bind_of_done hrun, Parser.bind_of_ok hparse]
      exact hnone hdepth hlength
    | some b =>
      rw [hb] at haccepts
      have hrun : Reader.takeKind? accepts ⟨token :: tokens, depth, deepest⟩ =
          (.done (some (token.kind, token.span)), ⟨tokens, depth, deepest⟩) := by
        simp [Reader.takeKind?, Reader.step, Parser.acceptIf?, ← haccepts]
      have hparse : Parser.acceptIf? read (token :: tokens) =
          .ok (some (b, token.span), tokens) := by
        simp only [Parser.acceptIf?, hb]
      rw [bind_of_done hrun, Parser.bind_of_ok hparse]
      have hbehind := hsome token.kind b token.span hb (s := ⟨tokens, depth, deepest⟩) hdepth
        (Nat.lt_of_succ_lt_succ hlength)
      exact hbehind.of_moves ⟨List.suffix_cons .., rfl, Nat.le_max_left ..⟩

/-- A loop (`Parser.following`), if what leads to its items stands for what the parser takes it for.
There are no more rounds than tokens. -/
theorem following {accepts : TokenKind → Bool} {leader lead : TokenKind → Option β}
    (hlead : ∀ kind, (lead kind).isSome = accepts kind)
    (hleader : ∀ kind b, lead kind = some b → leader kind = some b)
    (hp : Implements d n p q) (hprompt : Parser.Prompt q) {rounds : Nat} (hrounds : n ≤ rounds) :
    Implements d n (following accepts leader p rounds) (Parser.following lead q) := by
  induction n generalizing rounds with
  | zero => exact .zero
  | succ n ih =>
    obtain ⟨rounds, rfl⟩ := Nat.exists_eq_add_of_le' (Nat.zero_lt_of_lt hrounds)
    refine of_eq ?_ (Parser.following_eq hprompt)
    refine takeKind? hlead (fun kind b span hb => ?_) (.pure [])
    have hitem : Implements d n p q := hp.mono (Nat.le_succ n)
    have hothers := ih hitem (Nat.le_of_succ_le_succ hrounds)
    simp only [hleader kind b hb]
    exact hitem.bind fun first => hothers.bind fun others => .pure _

/-- A separated list (`Parser.separated`): one item, and a loop behind separators. -/
theorem separated (separator : TokenKind) (hp : Implements d n p q) (hprompt : Parser.Prompt q)
    {rounds : Nat} (hrounds : n ≤ rounds) :
    Implements d n (separated separator p rounds) (Parser.separated separator q) := by
  refine hp.bind fun first =>
    (following (fun kind => ?_) (fun _ _ _ => rfl) hp hprompt hrounds).bind fun others => .pure _
  by_cases hkind : kind = separator <;> simp [hkind]

/-- A loop up to a closing token (`Parser.untilKind`), whose items are not empty. -/
theorem untilKind {closes : TokenKind → Bool} (hp : Implements d n p q)
    (hq : ∀ {tokens rest a}, q tokens = .ok (a, rest) → rest.length < tokens.length)
    {rounds : Nat} (hrounds : n ≤ rounds) :
    Implements d n (untilKind closes p rounds) (Parser.untilKind closes q) := by
  induction n generalizing rounds with
  | zero => exact .zero
  | succ n ih =>
    obtain ⟨rounds, rfl⟩ := Nat.exists_eq_add_of_le' (Nat.zero_lt_of_lt hrounds)
    refine of_eq ?_ (Parser.untilKind_eq hq)
    refine (step Parser.Prompt.peek.recedes).bind fun token => ?_
    have hothers := ih (hp.mono (Nat.le_succ n)) (Nat.le_of_succ_le_succ hrounds)
    exact .ite (.pure []) (bind_shorter hq hp fun first => hothers.bind fun others => .pure _)

/-- Above the limit one more level may be entered (`Reader.nested`), and it is left again. -/
theorem nested (hd : d < nestingLimit) (hp : Implements (d + 1) n p q) :
    Implements d n (nested p) (Parser.nested q) := by
  rintro ⟨tokens, depth, deepest⟩ rfl hlength
  have hinner := hp (s := ⟨tokens, depth + 1, max deepest (depth + 1)⟩) rfl hlength
  unfold Reader.nested Parser.nested
  rw [if_neg (Nat.not_le.2 hd)]
  generalize p ⟨tokens, depth + 1, max deepest (depth + 1)⟩ = run at hinner
  generalize q tokens = read at hinner
  cases hinner with
  | @done a s' hmoves =>
    obtain ⟨tokens', depth', deepest'⟩ := s'
    obtain ⟨htokens, rfl, hdeepest⟩ := hmoves
    refine .done (t := ⟨tokens', depth, deepest'⟩) ⟨htokens, rfl, ?_⟩
    dsimp only at hd hdeepest ⊢
    omega
  | @refused expected levels s' hmoves =>
    obtain ⟨tokens', depth', deepest'⟩ := s'
    obtain ⟨htokens, rfl, hdeepest⟩ := hmoves
    refine .refused (t := ⟨tokens', depth, deepest'⟩) ⟨htokens, rfl, ?_⟩
    dsimp only at hd hdeepest ⊢
    omega

/-- At the limit none may: `Reader.nested` is refused there as the parser without levels is. -/
theorem nested_limit : Implements nestingLimit n (Reader.nested p) (Parser.refuse .nesting) := by
  intro s hdepth _
  rw [Reader.nested, if_pos (Nat.le_of_eq hdepth.symm)]
  exact .refused (.refl s)

/-! ## Single tokens -/

section
variable (d n : Nat)

/-- A token of a kind (`Parser.take`). -/
theorem take (kind : TokenKind) :
    Implements d n (Reader.step (Parser.take kind)) (Parser.take kind) :=
  .step (Parser.accept_recedes _ _)

/-- A look at the first token (`Parser.peek`). -/
theorem peek : Implements d n (Reader.step Parser.peek) Parser.peek :=
  .step Parser.Prompt.peek.recedes

/-- A look at the second token (`Parser.peekSecond?`). -/
theorem peekSecond? : Implements d n (Reader.step Parser.peekSecond?) Parser.peekSecond? :=
  .step Parser.peekSecond?_recedes

/-- A look at the kind of the first token (`Parser.atKind`). -/
theorem atKind (kind : TokenKind) :
    Implements d n (Reader.step (Parser.atKind kind)) (Parser.atKind kind) :=
  .step (Parser.Prompt.atKind kind).recedes

/-- A token that may be taken (`Parser.takeIf`). -/
theorem takeIf {kind : TokenKind} (hkind : kind.isPlain = true) :
    Implements d n (Reader.step (Parser.takeIf kind)) (Parser.takeIf kind) :=
  .step (Parser.Prompt.takeIf hkind).recedes

/-- A name (`Parser.ident`), which is one token. -/
theorem ident : Implements d n (Reader.step Parser.ident) Parser.ident :=
  .step Parser.ident_prompt.recedes

end

end Implements

/-! ## Expressions -/

/-- What leads to another operand of a tier (`leads`) stands for an operator of it. -/
theorem operator?_isSome (tier : Tier) (kind : TokenKind) :
    (tier.operator? kind).isSome = leads tier kind := by
  cases tier <;> cases kind <;> rfl

/-- What stands for an operator of a tier stands for an operator (`BinaryOp.ofToken?`), so the
reader does not panic there. -/
theorem ofToken?_of_operator? {tier : Tier} {kind : TokenKind} {op : BinaryOp}
    (h : tier.operator? kind = some op) : BinaryOp.ofToken? kind = some op :=
  (Option.filter_eq_some_iff.1 h).1

/-- The readers for what lies deeper agree with the parsers for it (`Deeper`). -/
structure Deeper.Implements (d n : Nat) (below : Deeper) (levels : Parser.Deeper) : Prop where
  expression : Reader.Implements d n below.expression levels.expression
  comparison : Reader.Implements d n below.comparison levels.comparison
  sign : Reader.Implements d n below.sign levels.sign

section
variable {d n rounds : Nat} {below : Deeper} {levels : Parser.Deeper}

/-- Names joined by multiplication signs (`Parser.factors`). -/
theorem factors_implements (hrounds : n ≤ rounds) :
    Implements d n (factors rounds) Parser.factors :=
  .separated .star (.ident d n) Parser.ident_prompt hrounds

/-- What stands above the fraction bar of a unit (`Parser.numerator`). -/
theorem numerator_implements (hrounds : n ≤ rounds) :
    Implements d n (numerator rounds) Parser.numerator :=
  (Implements.peek d n).bind fun _ =>
    .ite (factors_implements hrounds) (.step (Parser.accept_recedes _ _))

/-- A unit between two bars (`Parser.unit`). -/
theorem unit_implements (hrounds : n ≤ rounds) : Implements d n (unit rounds) Parser.unit := by
  refine (Implements.take d n _).bind fun first => (numerator_implements hrounds).bind fun above =>
    (Implements.takeIf d n (by decide)).bind fun slash => ?_
  cases slash
  · exact (Implements.pure _).bind fun _ => (Implements.take d n _).bind fun _ => .pure _
  · exact (factors_implements hrounds).bind fun _ => (Implements.take d n _).bind fun _ => .pure _

/-- A unit behind its magnitude (`Parser.quantity`). -/
theorem quantity_implements (hrounds : n ≤ rounds) (magnitude : Node) :
    Implements d n (quantity rounds magnitude) (Parser.quantity magnitude) :=
  (Implements.take d n _).bind fun _ => (unit_implements hrounds).bind fun _ => .pure _

/-- An expression in brackets (`Parser.group`), one level deeper. -/
theorem group_implements (hbelow : below.Implements d n levels) :
    Implements d n (group below) (Parser.group levels) :=
  (Implements.take d n _).bind fun _ => hbelow.expression.bind fun _ =>
    (Implements.take d n _).bind fun _ => .pure _

/-- A call (`Parser.call`), whose arguments are read in a loop. -/
theorem call_implements (hbelow : below.Implements d n levels) (hprompt : levels.Prompt)
    (hrounds : n ≤ rounds) : Implements d n (call rounds below) (Parser.call levels) := by
  refine (Implements.ident d n).bind fun callee => (Implements.take d n _).bind fun _ =>
    (Implements.atKind d n _).bind fun closes => ?_
  cases closes
  · exact (hbelow.expression.separated .comma hprompt.expression hrounds).bind fun _ =>
      (Implements.take d n _).bind fun _ => .pure _
  · exact (Implements.pure _).bind fun _ => (Implements.take d n _).bind fun _ => .pure _

/-- A number takes one token (`Parser.number`). -/
theorem number_implements (kind : TokenKind) :
    Implements d n (step (Parser.number kind)) (Parser.number kind) := by
  refine .step ?_
  unfold Parser.number
  split
  · exact Parser.accept_recedes _ _
  · exact Parser.accept_recedes _ _

/-- A name behind which no call begins: a variable, or the magnitude of a `quantity`. -/
theorem variable_implements (hrounds : n ≤ rounds) (second : Option TokenKind) :
    Implements d n
      (do
        let name ← step Parser.ident
        let read : Node := ⟨name.span, .variable name⟩
        if second = some .ampersand then quantity rounds read else return read)
      (do
        let name ← Parser.ident
        let read : Node := ⟨name.span, .variable name⟩
        if second = some .ampersand then Parser.quantity read else return read) :=
  (Implements.ident d n).bind fun _ => .ite (quantity_implements hrounds _) (.pure _)

/-- A number, which may be the magnitude of a `quantity`. -/
theorem magnitude_implements (hrounds : n ≤ rounds) (kind : TokenKind) :
    Implements d n
      (do
        let magnitude ← step (Parser.number kind)
        if ← step (Parser.atKind .ampersand) then quantity rounds magnitude else return magnitude)
      (do
        let magnitude ← Parser.number kind
        if ← Parser.atKind .ampersand then Parser.quantity magnitude else return magnitude) :=
  (number_implements kind).bind fun magnitude => (Implements.atKind d n _).bind fun _ =>
    .ite (quantity_implements hrounds magnitude) (.pure _)

/-- What operators do not take apart (`Parser.atom`). -/
theorem atom_implements (hbelow : below.Implements d n levels) (hprompt : levels.Prompt)
    (hrounds : n ≤ rounds) : Implements d n (atom rounds below) (Parser.atom levels) := by
  refine (Implements.peek d n).bind fun token => ?_
  generalize token.kind = kind
  cases kind with
  | identifier =>
    refine (Implements.peekSecond? d n).bind fun second => ?_
    cases second with
    | none => exact variable_implements hrounds none
    | some second =>
      cases second with
      | leftParen => exact call_implements hbelow hprompt hrounds
      | _ => exact variable_implements hrounds (some _)
  | leftParen => exact group_implements hbelow
  | intLiteral => exact magnitude_implements hrounds _
  | doubleLiteral => exact magnitude_implements hrounds _
  | pipe => exact unit_implements hrounds
  | _ => exact .step (Parser.accept_recedes _ _)

/-- Operands of a tier (`Parser.chain`), joined from the left on both sides. -/
theorem chain_implements (tier : Tier) {operand : Reader Node} {parser : Parser Node}
    (hoperand : Implements d n operand parser) (hprompt : Parser.Prompt parser)
    (hrounds : n ≤ rounds) :
    Implements d n (chain tier operand rounds) (Parser.chain tier parser) :=
  hoperand.bind fun _ => (hoperand.following (operator?_isSome tier)
    (fun _ _ => ofToken?_of_operator?) hprompt hrounds).bind fun _ => .pure _

/-- An atom behind signs (`Parser.signed`), each of which opens a level. -/
theorem signed_implements (hbelow : below.Implements d n levels) (hprompt : levels.Prompt)
    (hrounds : n ≤ rounds) : Implements d n (signed rounds below) (Parser.signed levels) := by
  cases n with
  | zero => exact .zero
  | succ n =>
    refine .takeKind? (fun kind => ?_) (fun kind op span hop => ?_)
      (atom_implements hbelow hprompt hrounds)
    · cases kind <;> rfl
    · refine (hbelow.sign.mono (Nat.le_succ n)).bind fun operand => ?_
      have hexpect : UnaryOp.ofToken? kind = some op := (Option.filter_eq_some_iff.1 hop).1
      exact (Implements.expect hexpect).bind fun _ => .pure _

/-- A comparison, or the negation of one (`Parser.comparison`). -/
theorem comparison_implements (hbelow : below.Implements d n levels) (hprompt : levels.Prompt)
    (hrounds : n ≤ rounds) :
    Implements d n (comparison rounds below) (Parser.comparison levels) := by
  have hsigned := signed_implements hbelow hprompt hrounds
  have hproduct := chain_implements .product hsigned (Parser.signed_prompt hprompt) hrounds
  have hsum := chain_implements .sum hproduct
    (Parser.chain_prompt (Parser.signed_prompt hprompt)) hrounds
  have hcomparison := chain_implements .comparison hsum
    (Parser.chain_prompt (Parser.chain_prompt (Parser.signed_prompt hprompt))) hrounds
  cases n with
  | zero => exact .zero
  | succ n =>
    refine .takeKind? (fun kind => ?_) (fun kind op span hop => ?_) hcomparison
    · cases kind <;> rfl
    · obtain rfl : op = .not := of_decide_eq_true (Option.filter_eq_some_iff.1 hop).2
      exact (hbelow.comparison.mono (Nat.le_succ n)).bind fun _ => .pure _

/-- An assignment (`Parser.assignment`), to an expression one level deeper. -/
theorem assignment_implements (hbelow : below.Implements d n levels) :
    Implements d n (assignment below) (Parser.assignment levels) := by
  refine (Implements.peek d n).bind fun start => (Implements.peek d n).bind fun first => ?_
  have hrest (type : Option TypeName) := (Implements.ident d n).bind fun name =>
    (Implements.take d n .equal).bind fun _ => hbelow.expression.bind fun value =>
      .pure (⟨start.span.through value.span, .assign type name value⟩ : Node)
  split
  · exact (Implements.step (Parser.type_prompt.map some).recedes).bind hrest
  · exact (Implements.pure none).bind hrest

/-- An expression, once its level has been entered (`Parser.expressionBody`). -/
theorem expressionBody_implements (hbelow : below.Implements d n levels)
    (hprompt : levels.Prompt) (hrounds : n ≤ rounds) :
    Implements d n (expressionBody rounds below) (Parser.expressionBody levels) :=
  (Implements.peek d n).bind fun _ => (Implements.peekSecond? d n).bind fun _ =>
    .ite (assignment_implements hbelow) (chain_implements .logic
      (comparison_implements hbelow hprompt hrounds) (Parser.comparison_prompt hprompt) hrounds)

end

/-- With enough fuel for the tokens and for the levels that are left, the readers for what lies
deeper agree with the parsers that are told how many these are (`Parser.deeper`). -/
theorem deeper_implements {d n fuel : Nat} (hd : d ≤ nestingLimit)
    (hfuel : n + (nestingLimit - d) < fuel) :
    (deeper fuel).Implements d n (Parser.deeper (nestingLimit - d)) := by
  induction fuel generalizing d with
  | zero => exact absurd hfuel (Nat.not_lt_zero _)
  | succ fuel ih =>
    rcases Nat.lt_or_eq_of_le hd with hlt | rfl
    · obtain ⟨levels, hlevels⟩ := Nat.exists_eq_add_of_le' (Nat.sub_pos_of_lt hlt)
      have hnext : nestingLimit - (d + 1) = levels := by omega
      have hbelow := ih hlt (by omega)
      rw [hlevels]
      rw [hnext] at hbelow
      have hprompt := Parser.deeper_prompt levels
      exact ⟨.nested hlt (expressionBody_implements hbelow hprompt (by omega)),
        .nested hlt (comparison_implements hbelow hprompt (by omega)),
        .nested hlt (signed_implements hbelow hprompt (by omega))⟩
    · rw [Nat.sub_self]
      exact ⟨.nested_limit, .nested_limit, .nested_limit⟩

/-! ## Statements -/

section
variable {d n rounds : Nat} {below : Deeper} {levels : Parser.Deeper} {block : Reader Block}
  {parser : Parser Block}

/-- A condition in brackets (`Parser.condition`). -/
theorem condition_implements (hbelow : below.Implements d n levels) :
    Implements d n (condition below) (Parser.condition levels) :=
  (Implements.take d n _).bind fun _ => hbelow.expression.bind fun _ =>
    (Implements.take d n _).bind fun _ => .pure _

/-- A condition and its block (`Parser.case`). -/
theorem case_implements (hbelow : below.Implements d n levels)
    (hblock : Implements d n block parser) :
    Implements d n (case below block) (Parser.case levels parser) :=
  (condition_implements hbelow).bind fun _ => hblock.bind fun _ => .pure _

/-- Alternatives (`Parser.ifElse`): the cases behind the first one are read in a loop. -/
theorem ifElse_implements (hbelow : below.Implements d n levels) (hprompt : levels.Prompt)
    (hblock : Implements d n block parser) (hparser : Parser.Prompt parser)
    (hrounds : n ≤ rounds) :
    Implements d n (ifElse rounds below block) (Parser.ifElse levels parser) := by
  have hcase := case_implements hbelow hblock
  have hothers : Implements d n
      (following (· = .elseifWord) (fun _ => some ()) (case below block) rounds)
      (Parser.following (fun kind => if kind = .elseifWord then some () else none)
        (Parser.case levels parser)) :=
    hcase.following (fun kind => by cases kind <;> rfl) (fun _ _ _ => rfl)
      (Parser.case_prompt hprompt hparser) hrounds
  refine (Implements.take d n _).bind fun start => hcase.bind fun first =>
    hothers.bind fun others => (Implements.takeIf d n (by decide)).bind fun last => ?_
  exact .ite (hblock.bind fun _ => .pure _) (.pure _)

/-- A loop (`Parser.whileLoop`). -/
theorem whileLoop_implements (hbelow : below.Implements d n levels)
    (hblock : Implements d n block parser) :
    Implements d n (whileLoop below block) (Parser.whileLoop levels parser) :=
  (Implements.take d n _).bind fun _ => (condition_implements hbelow).bind fun _ =>
    hblock.bind fun _ => .pure _

/-- A definition (`Parser.function`), whose parameters are read in a loop. -/
theorem function_implements (hblock : Implements d n block parser) (hrounds : n ≤ rounds) :
    Implements d n (function rounds block) (Parser.function parser) := by
  refine (Implements.take d n _).bind fun start => (Implements.ident d n).bind fun name =>
    (Implements.take d n _).bind fun _ => (Implements.atKind d n _).bind fun named => ?_
  have hparam : Implements d n (step Parser.param) Parser.param :=
    .step Parser.param_prompt.recedes
  have hreturns : Implements d n (step Parser.returnType) Parser.returnType :=
    .step Parser.returnType_prompt.recedes
  have hrest (params : List Param) := (Implements.take d n .rightParen).bind fun _ =>
    (Implements.take d n .arrow).bind fun _ => hreturns.bind fun returns =>
      hblock.bind fun body =>
        .pure (⟨start.span.through body.span, .function name params returns body⟩ : Node)
  cases named
  · exact (Implements.pure []).bind hrest
  · exact (hparam.separated .comma Parser.param_prompt hrounds).bind hrest

/-- The end of a call (`Parser.returned`). -/
theorem returned_implements (hbelow : below.Implements d n levels) :
    Implements d n (returned below) (Parser.returned levels) :=
  (Implements.take d n _).bind fun _ => (Implements.atKind d n _).bind fun _ =>
    .ite (.pure _) (hbelow.expression.bind fun _ => .pure _)

/-- What is closed by a semicolon (`Parser.closed`). -/
theorem closed_implements {inner : Reader Node} {simple : Parser Node}
    (h : Implements d n inner simple) : Implements d n (closed inner) (Parser.closed simple) :=
  h.bind fun _ => (Implements.take d n _).bind fun _ => .pure _

/-- A statement (`Parser.statementWith`), by the kind of its first token on both sides. -/
theorem statementWith_implements (hbelow : below.Implements d n levels)
    (hprompt : levels.Prompt) (hblock : Implements d n block parser)
    (hparser : Parser.Prompt parser) (hrounds : n ≤ rounds) :
    Implements d n (statementWith rounds below block) (Parser.statementWith levels parser) := by
  refine (Implements.peek d n).bind fun token => ?_
  generalize token.kind = kind
  cases kind with
  | ifWord => exact ifElse_implements hbelow hprompt hblock hparser hrounds
  | whileWord => exact whileLoop_implements hbelow hblock
  | functionWord => exact function_implements hblock hrounds
  | leftBrace => exact hblock.bind fun _ => .pure _
  | returnWord => exact closed_implements (returned_implements hbelow)
  | breakWord => exact closed_implements ((Implements.take d n _).bind fun _ => .pure _)
  | continueWord => exact closed_implements ((Implements.take d n _).bind fun _ => .pure _)
  | _ => exact closed_implements hbelow.expression

end

/-- With enough fuel a block is read as by the parser that is told how many levels are left
(`Parser.block`). -/
theorem block_implements {d n fuel : Nat} (hd : d ≤ nestingLimit)
    (hfuel : n + (nestingLimit - d) < fuel) :
    Implements d n (block fuel) (Parser.block (nestingLimit - d)) := by
  induction fuel generalizing d with
  | zero => exact absurd hfuel (Nat.not_lt_zero _)
  | succ fuel ih =>
    rcases Nat.lt_or_eq_of_le hd with hlt | rfl
    · obtain ⟨levels, hlevels⟩ := Nat.exists_eq_add_of_le' (Nat.sub_pos_of_lt hlt)
      have hnext : nestingLimit - (d + 1) = levels := by omega
      have hbelow : (deeper fuel).Implements (d + 1) n (Parser.deeper levels) :=
        hnext ▸ deeper_implements hlt (by omega)
      have hblock : Implements (d + 1) n (block fuel) (Parser.block levels) :=
        hnext ▸ ih hlt (by omega)
      have hrounds : n ≤ fuel := by omega
      have hitem := statementWith_implements hbelow (Parser.deeper_prompt levels) hblock
        (Parser.block_prompt levels) hrounds
      rw [hlevels]
      refine .nested hlt ((Implements.take _ n _).bind fun first => ?_)
      exact (hitem.untilKind Parser.length_lt_of_statementWith hrounds).bind fun _ =>
        (Implements.take _ n _).bind fun _ => .pure _
    · rw [Nat.sub_self]
      exact .nested_limit

/-- With enough fuel a statement is read as by the parser with so many levels
(`Parser.statementWith`). -/
theorem statement_implements {d n fuel : Nat} (hd : d ≤ nestingLimit)
    (hfuel : n + (nestingLimit - d) < fuel) :
    Implements d n (statement fuel)
      (Parser.statementWith (Parser.deeper (nestingLimit - d))
        (Parser.block (nestingLimit - d))) :=
  statementWith_implements (deeper_implements hd hfuel) (Parser.deeper_prompt _)
    (block_implements hd hfuel) (Parser.block_prompt _) (by omega)

end Reader

end UnitScript
