import Mathlib.Control.Monad.Basic
import UnitScript.Proofs.Grammar.RoundTrip
import UnitScript.Proofs.Parser.Decisions

/-!
# Where syntax errors stand

A parser that refuses a token has read something that can still become an instance of the grammar:
`Completes n p element` says that the tokens which `p` has taken where it refuses, less than `n`
levels deep, can be completed to an `element`. Like soundness this is shown parser by parser, for
parsers that may open `n` further levels; a level that is still free is enough to complete anything
with the shortest of expressions and blocks.

Together with what parsers decide on, this places the errors of a text
(`refused_at_first_impossible`): they stand at the first token that no program can have there.
-/

namespace UnitScript

namespace Parser

variable {α β : Type} {n : Nat}

/-- Where the parser refuses these tokens, less than `n` levels deep, those that it has taken begin
an element: they are a front of the tokens of one. -/
def CompletesAt (n : Nat) (p : Parser α) (element : α → List Token → Prop)
    (tokens : List Token) : Prop :=
  ∀ refusal, p tokens = .error refusal → refusal.depth < n →
    ∃ ts more a, tokens = ts ++ refusal.rest ∧ element a (ts ++ more)

/-- There are elements where `n` is not zero, and what the parser takes before it refuses a token
less than `n` levels deep begins one (`CompletesAt`). -/
structure Completes (n : Nat) (p : Parser α) (element : α → List Token → Prop) : Prop where
  possible : 0 < n → ∃ a ts, element a ts
  begun : ∀ tokens, CompletesAt n p element tokens

/-! ## Rules -/

/-- One parser after another refuses what either of them refuses in turn, with the same
`Refusal`. -/
theorem bind_eq_error {p : Parser α} {f : α → Parser β} {tokens : List Token} {refusal : Refusal} :
    (p >>= f) tokens = .error refusal ↔
      p tokens = .error refusal ∨ ∃ a mid, p tokens = .ok (a, mid) ∧ f a mid = .error refusal := by
  show StateT.bind p f tokens = _ ↔ _
  unfold StateT.bind
  rcases p tokens with e | ⟨a, mid⟩
  · simp [bind, Except.bind]
  · refine ⟨fun h => .inr ⟨a, mid, rfl, h⟩, ?_⟩
    rintro (h | ⟨_, _, h, hf⟩)
    · cases h
    · cases h
      exact hf

/-- `accept` refuses all tokens that are left. -/
theorem rest_of_accept {expected : Expectation} {read : Token → Option α} {tokens : List Token}
    {refusal : Refusal} (h : accept expected read tokens = .error refusal) :
    refusal.rest = tokens := by
  unfold accept at h
  split at h
  · cases h
    rfl
  · split at h
    · cases h
    · cases h
      rfl

section
variable {p : Parser α} {f : α → Parser β} {element : α → List Token → Prop}
  {whole : β → List Token → Prop} {tokens : List Token}

/-- What is refused at once (`Refusal.rest`) can be completed if there are elements at all. -/
theorem CompletesAt.of_rest (hpossible : 0 < n → ∃ a ts, element a ts)
    (h : ∀ refusal, p tokens = .error refusal → refusal.rest = tokens) :
    CompletesAt n p element tokens := by
  intro refusal hrefusal hdepth
  obtain ⟨a, ts, hts⟩ := hpossible (by omega)
  exact ⟨[], ts, a, (h refusal hrefusal).symm, hts⟩

/-- Parsers that agree on the tokens complete the same (`CompletesAt`). -/
theorem CompletesAt.of_eq {q : Parser α} (h : p tokens = q tokens)
    (hq : CompletesAt n q element tokens) : CompletesAt n p element tokens := by
  intro refusal hrefusal
  rw [h] at hrefusal
  exact hq refusal hrefusal

/-- What one parser has read or begun is completed by what the other one reads or begins
(`Completes`). -/
theorem CompletesAt.bind (hp : CompletesAt n p element tokens)
    (hreads : ∀ a rest, p tokens = .ok (a, rest) → ∃ ts, tokens = ts ++ rest ∧ element a ts)
    (hf : ∀ a ts, element a ts → Completes n (f a) fun b us => whole b (ts ++ us)) :
    CompletesAt n (p >>= f) whole tokens := by
  intro refusal hrefusal hdepth
  rcases bind_eq_error.1 hrefusal with hfirst | ⟨a, mid, ha, hsecond⟩
  · obtain ⟨ts, more, a, htokens, hts⟩ := hp refusal hfirst hdepth
    obtain ⟨b, us, hus⟩ := (hf a _ hts).possible (by omega)
    exact ⟨ts, more ++ us, b, htokens, by rwa [← List.append_assoc]⟩
  · obtain ⟨ts, rfl, hts⟩ := hreads a mid ha
    obtain ⟨us, more, b, rfl, hus⟩ := (hf a ts hts).begun mid refusal hsecond hdepth
    exact ⟨ts ++ us, more, b, (List.append_assoc ..).symm, by rwa [List.append_assoc]⟩

namespace Completes

/-- What is completed may be called something else, if an `element` of the one sort is one of the
other. -/
theorem mono {other : α → List Token → Prop} (hp : Completes n p element)
    (h : ∀ a ts, element a ts → ∃ b, other b ts) : Completes n p other where
  possible hn := by
    obtain ⟨a, ts, hts⟩ := hp.possible hn
    obtain ⟨b, hb⟩ := h a ts hts
    exact ⟨b, ts, hb⟩
  begun tokens refusal hrefusal hdepth := by
    obtain ⟨ts, more, a, htokens, hts⟩ := hp.begun tokens refusal hrefusal hdepth
    obtain ⟨b, hb⟩ := h a _ hts
    exact ⟨ts, more, b, htokens, hb⟩

/-- Nothing is left to be completed behind `Pure.pure`. -/
theorem pure {a : α} (h : element a []) : Completes n (Pure.pure a : Parser α) element :=
  ⟨fun _ => ⟨a, [], h⟩, nofun⟩

/-- One parser after another completes what each of them does in turn, if the first one reads
elements (`Reads`). -/
theorem bind (hp : Completes n p element) (hreads : Reads p element)
    (hf : ∀ a ts, element a ts → Completes n (f a) fun b us => whole b (ts ++ us)) :
    Completes n (p >>= f) whole where
  possible hn := by
    obtain ⟨a, ts, hts⟩ := hp.possible hn
    obtain ⟨b, us, hus⟩ := (hf a ts hts).possible hn
    exact ⟨b, ts ++ us, hus⟩
  begun tokens := (hp.begun tokens).bind (fun _ _ h => hreads h) hf

/-- `accept` takes nothing where it refuses a token. -/
theorem accept {expected : Expectation} {read : Token → Option α} (h : ∃ a ts, element a ts) :
    Completes n (Parser.accept expected read) element :=
  ⟨fun _ => h, fun _ => .of_rest (fun _ => h) fun _ => rest_of_accept⟩

/-- Behind a token of a kind (`take`) the whole is completed by what comes next. -/
theorem take_bind {kind : TokenKind} {f : Token → Parser β}
    (hf : ∀ token : Token, token.kind = kind →
      Completes n (f token) fun b us => whole b (token :: us)) :
    Completes n (take kind >>= f) whole := by
  have hp : Completes n (take kind) fun (token : Token) ts => token.kind = kind ∧ ts = [token] :=
    accept ⟨.bare kind, [.bare kind], rfl, rfl⟩
  refine hp.bind (fun tokens rest token h => ?_) ?_
  · obtain ⟨rfl, hkind⟩ := take_eq_ok.1 h
    exact ⟨[token], rfl, hkind, rfl⟩
  · rintro token _ ⟨hkind, rfl⟩
    exact hf token hkind

/-- Behind a name (`ident`) the whole is completed by what comes next. -/
theorem ident_bind {f : Ident → Parser β}
    (hf : ∀ token : Token, token.kind = .identifier →
      Completes n (f token.ident) fun b us => whole b (token :: us)) :
    Completes n (ident >>= f) whole := by
  have hp : Completes n ident DerivesIdent :=
    take_bind fun token hkind => .pure (.name hkind)
  refine hp.bind ident_reads ?_
  rintro _ _ ⟨hkind⟩
  exact hf _ hkind

/-- Behind a token that is taken if it can be read (`acceptIf?`), whether it is or not. -/
theorem acceptIf?_bind {read : TokenKind → Option α} {f : Option (α × Span) → Parser β}
    (hsome : ∀ (token : Token) (a : α), read token.kind = some a →
      Completes n (f (some (a, token.span))) fun b us => whole b (token :: us))
    (hnone : Completes n (f none) whole) :
    Completes n (acceptIf? read >>= f) whole := by
  have hp : Completes n (acceptIf? read) fun result ts =>
      (∃ (token : Token) (a : α), ts = [token] ∧ read token.kind = some a ∧
        result = some (a, token.span)) ∨ ts = [] ∧ result = none := by
    refine ⟨fun _ => ⟨none, [], .inr ⟨rfl, rfl⟩⟩, fun tokens refusal h => ?_⟩
    unfold acceptIf? at h
    split at h
    · cases h
    · split at h <;> cases h
  refine hp.bind (fun tokens rest result h => ?_) ?_
  · rcases acceptIf?_eq_ok.1 h with ⟨token, a, rfl, ha, rfl⟩ | ⟨-, rfl, rfl⟩
    · exact ⟨[token], rfl, .inl ⟨token, a, rfl, ha, rfl⟩⟩
    · exact ⟨[], rfl, .inr ⟨rfl, rfl⟩⟩
  · rintro _ _ (⟨token, a, rfl, ha, rfl⟩ | ⟨rfl, rfl⟩)
    · exact hsome token a ha
    · exact hnone

/-- Behind a token that is taken if it is of a kind (`takeIf`), whether it is or not. -/
theorem takeIf_bind {kind : TokenKind} {f : Bool → Parser β}
    (htrue : ∀ token : Token, token.kind = kind →
      Completes n (f true) fun b us => whole b (token :: us))
    (hfalse : Completes n (f false) whole) :
    Completes n (takeIf kind >>= f) whole := by
  rw [takeIf, bind_assoc]
  refine acceptIf?_bind (fun token _ h => ?_) hfalse
  by_cases hkind : token.kind = kind
  · exact htrue token hkind
  · rw [if_neg hkind] at h
    cases h

/-- Either of two parsers `Completes` what it has begun. -/
theorem ite {c : Prop} [Decidable c] {q : Parser α} (hp : Completes n p element)
    (hq : Completes n q element) : Completes n (if c then p else q) element := by
  split
  · exact hp
  · exact hq

end Completes

/-- At the first token, if there is one (`peek`). If there is none, nothing has been begun. -/
theorem CompletesAt.peek_bind {f : Token → Parser β} (hpossible : 0 < n → ∃ b ts, whole b ts)
    (hf : ∀ token, tokens.head? = some token → CompletesAt n (f token) whole tokens) :
    CompletesAt n (peek >>= f) whole tokens := by
  intro refusal hrefusal hdepth
  rcases bind_eq_error.1 hrefusal with h | ⟨token, rest, hpeek, h⟩
  · cases tokens with
    | nil =>
      cases h
      obtain ⟨b, ts, hts⟩ := hpossible hdepth
      exact ⟨[], ts, b, rfl, hts⟩
    | cons _ _ => cases h
  · obtain ⟨hhead, rfl⟩ := peek_eq_ok.1 hpeek
    exact hf token hhead refusal h hdepth

namespace Completes

/-- Whatever the first token is that `peek` looks at. -/
theorem peek_bind {f : Token → Parser β} (hf : ∀ token, Completes n (f token) whole) :
    Completes n (peek >>= f) whole :=
  ⟨(hf default).possible, fun tokens =>
    .peek_bind (hf default).possible fun token _ => (hf token).begun tokens⟩

/-- Whatever kind the first token is of (`atKind`). -/
theorem atKind_bind {kind : TokenKind} {f : Bool → Parser β}
    (hf : ∀ b, Completes n (f b) whole) : Completes n (atKind kind >>= f) whole := by
  rw [atKind, bind_assoc]
  exact peek_bind fun token => hf _

/-! ## Loops -/

/-- A loop (`Parser.following`) completes its last item, behind those that it has read. -/
theorem following {lead : TokenKind → Option β} (hp : Completes n p element)
    (hreads : Reads p element) : Completes n (following lead p) (Trail lead element) := by
  have key : ∀ bound, Completes n (followingUpTo lead p bound) (Trail lead element) := by
    intro bound
    induction bound with
    | zero => exact .pure .nil
    | succ bound ih =>
      refine .acceptIf?_bind (fun token b hb => ?_) (.pure .nil)
      refine hp.bind hreads fun a ts ha => ih.bind (followingUpTo_reads hreads bound) ?_
      exact fun others us hothers => .pure (by simpa using Trail.cons hb ha hothers)
  exact ⟨(key 0).possible, fun tokens => (key tokens.length).begun tokens⟩

/-- A separated list (`Parser.separated`) is completed with its last element. -/
theorem separated {separator : TokenKind} (hp : Completes n p element) (hreads : Reads p element) :
    Completes n (separated separator p) (Separated separator element) :=
  hp.bind hreads fun _ _ ha => (hp.following hreads).bind (following_reads hreads)
    fun _ _ hothers => .pure (by simpa using hothers.separated ha)

/-- A loop up to a closing token (`Parser.untilKind`) completes its last item. -/
theorem untilKind {closes : TokenKind → Bool} (hp : Completes n p element)
    (hreads : Reads p element) : Completes n (untilKind closes p) (Row element) := by
  have key : ∀ bound, Completes n (untilUpTo closes p bound) (Row element) := by
    intro bound
    induction bound with
    | zero =>
      refine ⟨fun _ => ⟨[], [], .nil⟩, fun tokens => .of_rest (fun _ => ⟨[], [], .nil⟩) ?_⟩
      intro refusal h
      cases h
      rfl
    | succ bound ih =>
      refine .peek_bind fun token => .ite (.pure .nil) ?_
      refine hp.bind hreads fun a ts ha => ih.bind (untilUpTo_reads hreads bound) ?_
      exact fun others us hothers => .pure (by simpa using Row.cons ha hothers)
  exact ⟨(key 0).possible, fun tokens => (key tokens.length).begun tokens⟩

/-- What is read one level deeper (`Parser.nested`) may be refused one level deeper, so one level
more is needed to complete it. -/
theorem nested (hp : ∀ tokens, CompletesAt n p element tokens) (hpossible : ∃ a ts, element a ts) :
    Completes (n + 1) (nested p) element := by
  refine ⟨fun _ => hpossible, fun tokens refusal h hdepth => ?_⟩
  unfold Parser.nested at h
  cases hread : p tokens with
  | ok r =>
    rw [hread] at h
    cases h
  | error inner =>
    rw [hread] at h
    cases h
    exact hp tokens inner hread (Nat.lt_of_succ_lt_succ hdepth)

end Completes

end

/-! ## Parts of expressions that do not contain expressions -/

/-- A name can be completed (`DerivesIdent`): nothing of it is begun without being there. -/
theorem ident_completes : Completes n ident DerivesIdent :=
  .take_bind fun _ hkind => .pure (.name hkind)

/-- The numerator of a unit can be completed (`DerivesNumerator`). -/
theorem numerator_completes : Completes n numerator DerivesNumerator := by
  refine .peek_bind fun token => .ite ?_ ?_
  · exact (ident_completes.separated ident_reads).mono fun names ts h => ⟨names, .names h⟩
  · exact .accept ⟨_, _, @DerivesNumerator.one (.holding .intLiteral "1") rfl rfl⟩

/-- A unit can be completed (`DerivesUnit`), by a name or by its closing bar. -/
theorem unit_completes : Completes n unit DerivesUnit := by
  have hnames : Completes n factors (Separated .star DerivesIdent) :=
    ident_completes.separated ident_reads
  refine .take_bind fun first hfirst => numerator_completes.bind numerator_reads fun above ts hts =>
    .takeIf_bind (fun bar hbar => ?_) ?_
  · refine hnames.bind (separated_reads ident_reads) fun below us hus =>
      .take_bind fun last hlast => .pure ?_
    simpa using DerivesUnit.unit hfirst hts (.names hbar hus) hlast
  · simp only [Bool.false_eq_true, if_false, pure_bind]
    refine .take_bind fun last hlast => .pure ?_
    simpa using DerivesUnit.unit hfirst hts .none hlast

/-- A number is derived (`DerivesNumber`), such as zero. -/
theorem exists_derivesNumber : ∃ e token, DerivesNumber e token :=
  ⟨_, _, derivesNumber_int (n := 1) (by decide)⟩

/-- A quantity can be completed behind its magnitude, by a unit (`unit_completes`). -/
theorem quantity_completes {magnitude : Node} {token : Token}
    (hmagnitude : DerivesMagnitude magnitude token) :
    Completes n (quantity magnitude) fun e ts => Derives n (.atom e) (token :: ts) := by
  refine .take_bind fun ampersand hampersand => unit_completes.bind unit_reads fun u ts hts =>
    .pure ?_
  simpa using Derives.quantity hmagnitude hampersand hts

/-! ## Expressions, given those of deeper levels -/

/-- `true` is an atom. -/
theorem derives_true (n : Nat) : Derives n (.atom ⟨.origin, .bool true⟩) [.bare .trueWord] :=
  @Derives.trueWord _ (.bare .trueWord) rfl

/-- The parsers for deeper levels complete what is derived with `n` levels (`Parser.Completes`). -/
structure Deeper.Completes (deeper : Deeper) (n : Nat) : Prop where
  expression : Parser.Completes n deeper.expression fun e ts => Derives n (.expression e) ts
  comparison : Parser.Completes n deeper.comparison fun e ts =>
    ∃ k, n = k + 1 ∧ Derives k (.comparison e) ts
  sign : Parser.Completes n deeper.sign fun e ts => ∃ k, n = k + 1 ∧ Derives k (.signed e) ts

section
variable {below : Deeper}

/-- An expression in brackets can be completed, by the closing one or inside
(`Deeper.Completes`). -/
theorem group_completes (hsound : below.Sound n) (hbelow : below.Completes n) :
    Completes n (group below) fun e ts => Derives n (.atom e) ts :=
  .take_bind fun _ hfirst => hbelow.expression.bind hsound.expression fun _ _ hts =>
    .take_bind fun _ hlast => .pure (.group hfirst hts hlast)

/-- A call can be completed, in its arguments or behind them (`Completes.separated`). -/
theorem call_completes (hsound : below.Sound n) (hbelow : below.Completes n) :
    Completes n (call below) fun e ts => Derives n (.atom e) ts := by
  refine .ident_bind fun name hname => .take_bind fun first hfirst => .atKind_bind fun closes => ?_
  have hlast : ∀ {args : List Node} {ts : List Token}, Derives n (.arguments args) ts →
      Completes n (do
        let last ← take .rightParen
        return ⟨name.ident.span.through last.span, .call name.ident args⟩ : Parser Node)
        fun e us => Derives n (.atom e) (name :: first :: (ts ++ us)) :=
    fun hargs => .take_bind fun last hlast => .pure (.call hname hfirst hargs hlast)
  cases closes
  · exact (hbelow.expression.separated hsound.expression).bind (separated_reads hsound.expression)
      fun args ts hts => hlast (derives_arguments hts)
  · exact hlast .noArguments

/-- An atom can be completed (`Parser.atom`), whichever token begins it. -/
theorem atom_completes (hsound : below.Sound n) (hbelow : below.Completes n) :
    Completes n (atom below) fun e ts => Derives n (.atom e) ts := by
  have hpossible : ∃ e ts, Derives n (.atom e) ts := ⟨_, _, derives_true n⟩
  refine ⟨fun _ => hpossible, fun tokens => .peek_bind (fun _ => hpossible) fun token hhead => ?_⟩
  have hnumber : ∀ {kind : TokenKind}, kind = .intLiteral ∨ kind = .doubleLiteral →
      token.kind = kind → CompletesAt n (do
        let magnitude ← number kind
        if ← atKind .ampersand then quantity magnitude else return magnitude : Parser Node)
        (fun e ts => Derives n (.atom e) ts) tokens := by
    intro kind hkind htoken
    have hfirst : ∀ t ∈ tokens.head?, t.kind = kind := by
      intro t ht
      obtain rfl : token = t := Option.some.inj (hhead.symm.trans ht)
      exact htoken
    have hread : CompletesAt n (number kind) (fun e ts => ∃ t, ts = [t] ∧ DerivesNumber e t)
        tokens := by
      obtain ⟨e, t, ht⟩ := exists_derivesNumber
      refine .of_rest (fun _ => ⟨e, [t], t, rfl, ht⟩) fun refusal h => ?_
      rcases hkind with rfl | rfl
      · rw [number, if_pos rfl] at h
        exact rest_of_accept h
      · rw [number, if_neg (by decide)] at h
        exact rest_of_accept h
    refine hread.bind ?_ ?_
    · intro e rest h
      obtain ⟨t, rfl, ht⟩ := number_reads hkind h hfirst
      exact ⟨[t], rfl, t, rfl, ht⟩
    · rintro magnitude _ ⟨t, rfl, ht⟩
      exact .atKind_bind fun ampersand => .ite (quantity_completes (.number ht))
        (.pure (.number ht))
  cases hk : token.kind <;> simp only
  case identifier =>
    refine CompletesAt.of_eq (bind_of_ok (peekSecond?_eq_ok.2 ⟨rfl, rfl⟩)) ?_
    split
    · exact (call_completes hsound hbelow).begun tokens
    · refine Completes.begun (.ident_bind fun name hname => ?_) tokens
      exact .ite (quantity_completes (.name hname)) (.pure (.name hname))
  case leftParen => exact (group_completes hsound hbelow).begun tokens
  case intLiteral => exact hnumber (.inl rfl) hk
  case doubleLiteral => exact hnumber (.inr rfl) hk
  case pipe => exact (unit_completes.mono fun e ts h => ⟨e, .unit h⟩).begun tokens
  all_goals exact (Completes.accept hpossible).begun tokens

/-- An atom behind signs can be completed (`Parser.signed`). -/
theorem signed_completes (hsound : below.Sound n) (hbelow : below.Completes n) :
    Completes n (signed below) fun e ts => Derives n (.signed e) ts := by
  refine .acceptIf?_bind (fun token op hop => ?_) ?_
  · obtain ⟨hop, hne⟩ := Option.filter_eq_some_iff.1 hop
    refine hbelow.sign.bind hsound.sign ?_
    rintro e ts ⟨k, rfl, hts⟩
    refine .pure ?_
    simpa using Derives.sign hop (by simpa using hne) hts
  · exact (atom_completes hsound hbelow).mono fun e ts h => ⟨e, .unsigned h⟩

/-- Operands of a tier can be completed if one of them can (`Parser.chain`). -/
theorem chain_completes (tier : Tier) {operand : Parser Node}
    (hreads : Reads operand fun e ts => Derives n (tier.operand e) ts)
    (hoperand : Completes n operand fun e ts => Derives n (tier.operand e) ts) :
    Completes n (chain tier operand) fun e ts => Derives n (.chain tier e) ts := by
  refine hoperand.bind hreads fun first ts hts =>
    (hoperand.following hreads).bind (following_reads hreads) fun others us hus => .pure ?_
  simpa using derives_foldl hus (.single hts)

/-- A comparison can be completed (`Parser.comparison`), also behind a negation. -/
theorem comparison_completes (hsound : below.Sound n) (hbelow : below.Completes n) :
    Completes n (comparison below) fun e ts => Derives n (.comparison e) ts := by
  refine .acceptIf?_bind (fun token op hop => ?_) ?_
  · refine hbelow.comparison.bind hsound.comparison ?_
    rintro e ts ⟨k, rfl, hts⟩
    obtain ⟨hop, hnot⟩ := Option.filter_eq_some_iff.1 hop
    obtain rfl : op = .not := by simpa using hnot
    refine .pure ?_
    simpa using Derives.negated (UnaryOp.kind_eq_notWord hop) hts
  · have hproducts := chain_reads .product (signed_reads hsound)
    have hchain := chain_completes .comparison (chain_reads .sum hproducts)
      (chain_completes .sum hproducts
        (chain_completes .product (signed_reads hsound) (signed_completes hsound hbelow)))
    exact hchain.mono fun e ts h => ⟨e, .compared h⟩

/-- Behind its type, if there is one, an assignment can be completed (`Parser.assignment`). -/
theorem assigned_completes (hsound : below.Sound n) (hbelow : below.Completes n) {start : Span}
    {type : Option TypeName} {whole : Node → List Token → Prop}
    (hwhole : ∀ {name equal : Token} {value : Node} {ts : List Token}, name.kind = .identifier →
      equal.kind = .equal → Derives n (.expression value) ts →
      ∃ e, whole e (name :: equal :: ts)) :
    Completes n (do let name ← ident
                    let _ ← take .equal
                    let value ← below.expression
                    return ⟨start.through value.span, .assign type name value⟩ : Parser Node)
      whole := by
  have h : Completes n (do let name ← ident
                           let _ ← take .equal
                           let value ← below.expression
                           return ⟨start.through value.span, .assign type name value⟩ :
        Parser Node) fun _ ts => ∃ e, whole e ts :=
    .ident_bind fun name hname => .take_bind fun equal hequal =>
      hbelow.expression.bind hsound.expression fun value ts hts =>
        .pure (by simpa using hwhole hname hequal hts)
  exact h.mono fun _ _ h => h

/-- An assignment can be completed (`Parser.assignment`), with or without a type. -/
theorem assignment_completes (hsound : below.Sound n) (hbelow : below.Completes n) :
    Completes n (assignment below) fun e ts => Derives (n + 1) (.expression e) ts := by
  refine .peek_bind fun start => .peek_bind fun first => ?_
  split
  · have htype : Completes n Parser.type fun type ts => ∃ word : Token, ts = [word] ∧
        word.kind.isType = true ∧ TypeName.ofToken? word.kind = some type :=
      .accept ⟨_, _, .bare .intWord, rfl, rfl, rfl⟩
    rw [bind_map_left]
    refine htype.bind (fun tokens rest type h => ?_) ?_
    · obtain ⟨word, rfl, hword, hname⟩ := type_eq_ok.1 h
      exact ⟨[word], rfl, word, rfl, hword, hname⟩
    · rintro type _ ⟨word, rfl, hword, htype⟩
      exact assigned_completes hsound hbelow fun hname hequal hvalue =>
        ⟨_, .declare hword htype hname hequal hvalue⟩
  · rw [pure_bind]
    exact assigned_completes hsound hbelow fun hname hequal hvalue =>
      ⟨_, .assign hname hequal hvalue⟩

/-- An expression can be completed (`Parser.expressionBody`), as an assignment or as a
comparison. -/
theorem expressionBody_completes (hsound : below.Sound n) (hbelow : below.Completes n) :
    Completes n (expressionBody below) fun e ts => Derives (n + 1) (.expression e) ts := by
  have hchain := (chain_completes .logic (comparison_reads hsound)
    (comparison_completes hsound hbelow)).mono fun e ts h =>
      (⟨e, .logical h⟩ : ∃ e, Derives (n + 1) (.expression e) ts)
  refine .peek_bind fun token => ⟨hchain.possible, fun tokens => ?_⟩
  refine CompletesAt.of_eq (bind_of_ok (peekSecond?_eq_ok.2 ⟨rfl, rfl⟩)) ?_
  exact (Completes.ite (assignment_completes hsound hbelow) hchain).begun tokens

end

/-- The parsers for `n` deeper levels complete what is derived with as many (`Deeper.Completes`), by
induction on the levels. -/
theorem deeper_completes (n : Nat) : (deeper n).Completes n := by
  have hnone : ∀ {p : Parser Node} {element : Node → List Token → Prop}, Completes 0 p element :=
    ⟨fun h => absurd h (Nat.lt_irrefl 0), fun _ _ _ h => absurd h (Nat.not_lt_zero _)⟩
  induction n with
  | zero => exact ⟨hnone, hnone, hnone⟩
  | succ n ih =>
    have hsound := deeper_sound n
    have hatom := derives_true n
    refine ⟨.nested (expressionBody_completes hsound ih).begun ⟨_, _, .expression_of_atom hatom⟩,
      .nested (fun tokens => ?_) ⟨_, _, n, rfl, hatom.operand_of_atom .logic⟩,
      .nested (fun tokens => ?_) ⟨_, _, n, rfl, hatom.operand_of_atom .product⟩⟩
    · exact ((comparison_completes hsound ih).mono fun e ts h => ⟨e, n, rfl, h⟩).begun tokens
    · exact ((signed_completes hsound ih).mono fun e ts h => ⟨e, n, rfl, h⟩).begun tokens

/-! ## Statements, given the blocks in them -/

section
variable {below : Deeper} {inner : Parser Block}

/-- A condition in brackets can be completed by itself (`Parser.condition`), and then by what comes
behind it. -/
theorem condition_bind (hsound : below.Sound n) (hbelow : below.Completes n) {f : Node → Parser β}
    {whole : β → List Token → Prop}
    (hf : ∀ (first : Token) (c : Node) (ts : List Token) (last : Token), first.kind = .leftParen →
      Derives n (.expression c) ts → last.kind = .rightParen →
      Completes n (f c) fun b us => whole b (first :: ts ++ last :: us)) :
    Completes n (condition below >>= f) whole := by
  rw [condition, bind_assoc]
  refine .take_bind fun first hfirst => ?_
  rw [bind_assoc]
  refine hbelow.expression.bind hsound.expression fun c ts hts => ?_
  rw [bind_assoc]
  refine .take_bind fun last hlast => ?_
  rw [pure_bind]
  exact hf first c ts last hfirst hts hlast

/-- A condition and a block can be completed (`Parser.case`). -/
theorem case_completes (hsound : below.Sound n) (hbelow : below.Completes n)
    (hreads : Reads inner fun b ts => Derives n (.block b) ts)
    (hinner : Completes n inner fun b ts => Derives n (.block b) ts) :
    Completes n (case below inner) fun c ts => Derives n (.case c.1 c.2) ts :=
  condition_bind hsound hbelow fun _ _ _ _ hfirst hts hlast =>
    hinner.bind hreads fun _ _ hus => .pure (by simpa using Derives.case hfirst hts hlast hus)

/-- An `if` can be completed. -/
theorem ifElse_completes (hsound : below.Sound n) (hbelow : below.Completes n)
    (hreads : Reads inner fun b ts => Derives n (.block b) ts)
    (hinner : Completes n inner fun b ts => Derives n (.block b) ts) :
    Completes n (ifElse below inner) fun e ts => Derives n (.item e) ts := by
  have hcases := case_reads hsound hreads
  have hcase := case_completes hsound hbelow hreads hinner
  have h : Completes n (ifElse below inner) fun _ ts => ∃ e, Derives n (.item e) ts := by
    refine .take_bind fun word hword => hcase.bind hcases fun first ts hts =>
      (hcase.following hcases).bind (following_reads hcases) fun others us hus =>
        .takeIf_bind (fun final hfinal => ?_) (.pure ?_)
    · refine hinner.bind hreads fun b vs hvs => .pure ?_
      have := Derives.ifElse hword hts (derives_others hus (.otherwise hfinal hvs))
      exact ⟨_, by simpa using this⟩
    · have := Derives.ifElse hword hts (derives_others hus .noOthers)
      exact ⟨_, by simpa using this⟩
  exact h.mono fun _ _ h => h

/-- A loop can be completed (`Parser.whileLoop`). -/
theorem whileLoop_completes (hsound : below.Sound n) (hbelow : below.Completes n)
    (hreads : Reads inner fun b ts => Derives n (.block b) ts)
    (hinner : Completes n inner fun b ts => Derives n (.block b) ts) :
    Completes n (whileLoop below inner) fun e ts => Derives n (.item e) ts :=
  .take_bind fun _ hword => condition_bind hsound hbelow fun _ _ _ _ hfirst hts hlast =>
    hinner.bind hreads fun _ _ hus =>
      .pure (by simpa using Derives.whileLoop hword (.case hfirst hts hlast hus))

/-- A parameter can be completed (`Parser.param`): any type fits behind its colon. -/
theorem param_completes : Completes n param DerivesParam := by
  have htype : Completes n Parser.type fun type ts => ∃ word : Token, ts = [word] ∧
      word.kind.isType = true ∧ TypeName.ofToken? word.kind = some type :=
    .accept ⟨_, _, .bare .intWord, rfl, rfl, rfl⟩
  refine .ident_bind fun name hname => .take_bind fun colon hcolon => htype.bind
    (fun tokens rest type h => ?_) ?_
  · obtain ⟨word, rfl, hword, hread⟩ := type_eq_ok.1 h
    exact ⟨[word], rfl, word, rfl, hword, hread⟩
  · rintro type _ ⟨word, rfl, hword, hread⟩
    exact .pure (.param hname hcolon hword hread)

/-- A definition of a function can be completed (`Parser.function`), also where its parameters are
begun. -/
theorem function_completes (hreads : Reads inner fun b ts => Derives n (.block b) ts)
    (hinner : Completes n inner fun b ts => Derives n (.block b) ts) :
    Completes n (function inner) fun e ts => Derives n (.item e) ts := by
  refine .take_bind fun word hword => .ident_bind fun name hname => .take_bind fun first hfirst =>
    .atKind_bind fun named => ?_
  have hrest : ∀ {params : List Param} {ts : List Token}, DerivesParams params ts →
      Completes n (do
        let _ ← take .rightParen
        let _ ← take .arrow
        let returns ← returnType
        let body ← inner
        return ⟨word.span.through body.span, .function name.ident params returns body⟩ :
          Parser Node)
        fun e us => Derives n (.item e) (word :: name :: first :: (ts ++ us)) := by
    intro params ts hparams
    have hreturns : Completes n returnType fun type us => ∃ result : Token, us = [result] ∧
        TypeName.ofToken? result.kind = some type :=
      .accept ⟨_, _, .bare .intWord, rfl, rfl⟩
    refine .take_bind fun last hlast => .take_bind fun arrow harrow => hreturns.bind
      (fun tokens rest type h => ?_) ?_
    · obtain ⟨result, rfl, hresult⟩ := accept_eq_ok.1 h
      exact ⟨[result], rfl, result, rfl, hresult⟩
    · rintro type _ ⟨result, rfl, hresult⟩
      refine hinner.bind hreads fun body us hus => .pure ?_
      simpa using Derives.function hword hname hfirst hparams hlast harrow hresult hus
  cases named
  · exact hrest .none
  · exact (param_completes.separated param_reads).bind (separated_reads param_reads)
      fun params ts hts => hrest (.some hts)

/-- The end of a call can be completed (`Parser.returned`). -/
theorem returned_completes (hsound : below.Sound n) (hbelow : below.Completes n) :
    Completes n (returned below) fun e ts => Derives n (.simple e) ts := by
  refine .take_bind fun word hword => .atKind_bind fun nothing => .ite ?_ ?_
  · exact .pure (.returnNothing hword)
  · exact hbelow.expression.bind hsound.expression fun value ts hts =>
      .pure (by simpa using Derives.returnValue hword hts)

/-- What a semicolon closes can be completed (`Parser.closed`). -/
theorem closed_completes {simple : Parser Node}
    (hreads : Reads simple fun e ts => Derives n (.simple e) ts)
    (hsimple : Completes n simple fun e ts => Derives n (.simple e) ts) :
    Completes n (closed simple) fun e ts => Derives n (.item e) ts :=
  hsimple.bind hreads fun _ _ hts => .take_bind fun _ hsemicolon => .pure (.closed hts hsemicolon)

/-- A statement that is one word can be completed, since `take` refuses nothing that is begun. -/
theorem word_completes {kind : TokenKind} {form : Form}
    (hform : ∀ {word : Token}, word.kind = kind → Derives n (.simple ⟨word.span, form⟩) [word]) :
    Completes n (do return ⟨(← take kind).span, form⟩ : Parser Node)
      fun e ts => Derives n (.simple e) ts :=
  .take_bind fun _ hword => .pure (hform hword)

/-- A statement can be completed (`Parser.statementWith`), whichever token begins it. -/
theorem statementWith_completes (hsound : below.Sound n) (hbelow : below.Completes n)
    (hreads : Reads inner fun b ts => Derives n (.block b) ts)
    (hinner : Completes n inner fun b ts => Derives n (.block b) ts) :
    Completes n (statementWith below inner) fun e ts => Derives n (.item e) ts := by
  refine .peek_bind fun token => ?_
  split
  · exact ifElse_completes hsound hbelow hreads hinner
  · exact whileLoop_completes hsound hbelow hreads hinner
  · exact function_completes hreads hinner
  · exact hinner.bind hreads fun b ts hts => .pure (by simpa using Derives.nested hts)
  · exact closed_completes (returned_reads hsound) (returned_completes hsound hbelow)
  · exact closed_completes (word_reads .breakLoop) (word_completes .breakLoop)
  · exact closed_completes (word_reads .continueLoop) (word_completes .continueLoop)
  · refine closed_completes (fun _ _ _ h => ?_)
      (hbelow.expression.mono fun e ts h => ⟨e, .evaluated h⟩)
    obtain ⟨ts, rfl, hts⟩ := hsound.expression h
    exact ⟨ts, rfl, .evaluated hts⟩

end

/-- Statements up to a closing token can be completed (`Parser.untilKind`) if the blocks in them
can. -/
theorem items_completes
    (hblock : Completes n (block n) fun b ts => Derives n (.block b) ts)
    (closes : TokenKind → Bool) :
    Completes n (untilKind closes (statementWith (deeper n) (block n)))
      fun es ts => Derives n (.items es) ts := by
  have hsound := deeper_sound n
  have hitem := statementWith_completes hsound (deeper_completes n) (block_reads n) hblock
  exact (hitem.untilKind (statementWith_reads hsound (block_reads n))).mono fun es ts h =>
    ⟨es, derives_items h⟩

/-- A block can be completed (`Parser.block`), by induction on the levels. -/
theorem block_completes (n : Nat) : Completes n (block n) fun b ts => Derives n (.block b) ts := by
  induction n with
  | zero => exact ⟨fun h => absurd h (Nat.lt_irrefl 0), fun _ _ _ h => absurd h (Nat.not_lt_zero _)⟩
  | succ n ih =>
    have hbody : Completes n (do
        let first ← take .leftBrace
        let items ← untilKind (fun kind => kind = .rightBrace ∨ kind = .endOfText)
          (statementWith (deeper n) (block n))
        let last ← take .rightBrace
        return ⟨first.span.through last.span, items⟩ : Parser Block)
        fun b ts => Derives (n + 1) (.block b) ts :=
      .take_bind fun first hfirst => (items_completes ih _).bind (items_reads n _) fun es ts hts =>
        .take_bind fun last hlast => .pure (.block hfirst hts hlast)
    refine .nested hbody.begun ?_
    exact ⟨_, _, @Derives.block _ _ _ (.bare .leftBrace) (.bare .rightBrace) rfl .noItems rfl⟩

/-- What was read of a text where it is refused less than 256 levels deep can be completed to the
tokens of a program, which `Block.ofTokens` accepts. -/
theorem program_completes {tokens : List Token} {refusal : Refusal}
    (h : program tokens = .error refusal) (hdepth : refusal.depth < nestingLimit) :
    ∃ ts more program, tokens = ts ++ refusal.rest ∧
      Block.ofTokens (ts ++ more) = .ok program := by
  -- What completes the statements is the end of the text.
  have hprogram : Completes nestingLimit program fun _ ts => ∃ es front last, ts = front ++ [last] ∧
      Derives nestingLimit (.items es) front ∧ last.kind = .endOfText :=
    .peek_bind fun start => (items_completes (block_completes _) _).bind (items_reads _ _)
      fun es ts hts => .take_bind fun last hlast => .pure ⟨es, ts, last, rfl, hts, hlast⟩
  obtain ⟨ts, more, -, htokens, es, front, last, hmore, hes, hlast⟩ :=
    hprogram.begun tokens refusal h hdepth
  obtain ⟨first, hfirst⟩ : ∃ first, (front ++ [last]).head? = some first := by
    cases front with
    | nil => exact ⟨last, rfl⟩
    | cons first _ => exact ⟨first, rfl⟩
  have hread := Block.ofTokens_of_derivedFrom
    (@Block.DerivedFrom.program es front last first [] hes hlast hfirst)
  rw [← hmore] at hread
  exact ⟨ts, more, _, htokens, hread⟩

end Parser

/-! ## The first impossible token -/

/-- An error stands at the first token that is impossible behind the tokens in front of it, where it
was found so many levels deep (`Refusal.depth`). Numbers out of range and levels are spoken of
separately, since no grammar without them knows these refusals. -/
structure SyntaxError.AtFirstImpossible (e : SyntaxError) (before : List Token) (found : Token)
    (depth : Nat) : Prop where
  /-- The error says where the token stands and what it is (`Token.text`). -/
  place : e.position = found.span.start ∧ e.found = found.text
  /-- The token is not what was expected there (`Expectation.Misses`). -/
  missing : e.expected.Misses found
  /-- What follows the token is of no account: `Block.ofTokens` refuses it in the same way. -/
  impossible : ∀ others, Block.ofTokens (before ++ found :: others) = .error e
  /-- The tokens in front begin a program that `Block.ofTokens` accepts, unless the error lies too
  deep to be sure of that. -/
  first : depth ≤ 254 → ∃ more program, Block.ofTokens (before ++ more) = .ok program
  /-- A number that is refused because it is out of range (`Token.OutOfRange`) is refused itself,
  and not something behind it. -/
  literal : e.expected = .integer ∨ e.expected = .double → found.OutOfRange
  /-- No number in front is out of range: the first one that is is where the error stands. -/
  inRange : ∀ token ∈ before, ¬ token.OutOfRange

/-- Where the tokens of a text are no program, the error stands at the first token that is
impossible (`SyntaxError.AtFirstImpossible`), so many levels deep as `Parser.program` has
counted. -/
theorem refused_at_first_impossible {text : List Char} {tokens : List Token} {e : SyntaxError}
    (htext : Token.ofText text = .ok tokens) (h : Block.ofTokens tokens = .error e) :
    ∃ before found after depth, tokens = before ++ found :: after ∧
      Parser.program tokens = .error ⟨e.expected, found :: after, depth⟩ ∧
      e.AtFirstImpossible before found depth := by
  obtain ⟨refusal, hrefusal, rfl⟩ : ∃ refusal, Parser.program tokens = .error refusal ∧
      refusal.error = e := by
    unfold Block.ofTokens Parser.parse at h
    split at h
    · cases h
    · next refusal hread => exact ⟨refusal, hread, Except.error.inj h⟩
  have hend : ∃ last ∈ tokens, last.kind = .endOfText := by
    obtain ⟨front, row, rfl, -⟩ := Token.exists_of_ofText htext
    exact ⟨.atEnd row, by simp, rfl⟩
  obtain ⟨before, found, after, htokens, hrest, hmisses, hbefore, hothers⟩ :=
    Parser.program_refuses hrefusal hend
  obtain ⟨expected, rest, depth⟩ := refusal
  dsimp only at hrest hmisses hothers
  subst hrest
  refine ⟨before, found, after, depth, htokens, hrefusal, ⟨rfl, rfl⟩, hmisses, fun others => ?_,
    fun hdepth => ?_, ?_, fun token htoken => (hbefore token htoken).2⟩
  · rw [Block.ofTokens, Parser.parse, hothers others]
    rfl
  · have hlimit : depth < nestingLimit := by
      rw [nestingLimit]
      omega
    obtain ⟨ts, more, program, heq, hread⟩ := Parser.program_completes hrefusal hlimit
    rw [htokens] at heq
    obtain rfl := List.append_cancel_right heq
    exact ⟨more, program, hread⟩
  · show expected = .integer ∨ expected = .double → found.OutOfRange
    rintro (rfl | rfl)
    · exact hmisses.2
    · exact hmisses.2

/-- A call with a number that is one too large for `Integer.ofText?`. -/
def tooLargeText : List Char := "f(-9223372036854775808;".toList

set_option maxRecDepth 2048 in
/-- The number in `tooLargeText` is refused, and not the semicolon behind it, though a bracket is
missing there. -/
theorem tooLargeText_refused : ∃ tokens e, Token.ofText tooLargeText = .ok tokens ∧
    Block.ofTokens tokens = .error e ∧ e.expected = .integer ∧
    ∃ before found after depth, tokens = before ++ found :: after ∧
      Parser.program tokens = .error ⟨e.expected, found :: after, depth⟩ ∧
      e.AtFirstImpossible before found depth := by
  let tokens : List Token :=
    [⟨.identifier, some "f", ⟨⟨0, 0⟩, ⟨0, 1⟩⟩⟩, ⟨.leftParen, none, ⟨⟨0, 1⟩, ⟨0, 2⟩⟩⟩,
      ⟨.minus, none, ⟨⟨0, 2⟩, ⟨0, 3⟩⟩⟩,
      ⟨.intLiteral, some "9223372036854775808", ⟨⟨0, 3⟩, ⟨0, 22⟩⟩⟩,
      ⟨.semicolon, none, ⟨⟨0, 22⟩, ⟨0, 23⟩⟩⟩, Token.atEnd 1]
  have hread : Token.ofText tooLargeText = .ok tokens := by
    have hlines : Text.lines tooLargeText = ["f(-9223372036854775808;".toList] := by decide
    simp only [Token.ofText, hlines, Token.ofLines, Token.ofLine_eq_upTo]
    rfl
  have hrefused : Block.ofTokens tokens = .error ⟨⟨0, 3⟩, .integer, "9223372036854775808"⟩ := by
    -- Only the refusal is compared, since trees have no decidable equality.
    have hmap : (Block.ofTokens tokens).map (fun _ => ()) =
        .error ⟨⟨0, 3⟩, .integer, "9223372036854775808"⟩ := by decide +kernel
    exact Except.map_eq_error.1 hmap
  exact ⟨_, _, hread, hrefused, rfl, refused_at_first_impossible hread hrefused⟩

end UnitScript
