import UnitScript.Proofs.Parser.Steps

/-!
# What is read is derived

Every parser of the language reads nothing but instances of its phrase (`expressionBody_reads`,
`statementWith_reads`, `derivedFrom_of_ofTokens`). There is one lemma for each parser; those of the
parsers that call deeper levels assume the statement for these (`Deeper.Sound`), and the levels are
put together by induction on their number.
-/

namespace UnitScript

/-- `not` is written in one way. -/
theorem UnaryOp.kind_eq_notWord {kind : TokenKind}
    (h : UnaryOp.ofToken? kind = some .not) : kind = .notWord := by
  unfold UnaryOp.ofToken? at h
  split at h <;> first | rfl | cases h

namespace Parser

/-! ## Parts of expressions that do not contain expressions -/

/-- What `ident` reads is a name of the grammar (`DerivesIdent`). -/
theorem ident_reads : Reads ident DerivesIdent := by
  intro tokens rest name h
  obtain ⟨token, rfl, hk, rfl⟩ := ident_eq_ok.1 h
  exact ⟨[token], rfl, .name hk⟩

/-- What `numerator` reads is a numerator of the grammar (`DerivesNumerator`). -/
theorem numerator_reads : Reads numerator DerivesNumerator := by
  intro tokens rest names h
  obtain ⟨token, mid, hpeek, h⟩ := bind_eq_ok.1 h
  obtain ⟨-, rfl⟩ := peek_eq_ok.1 hpeek
  split at h
  · obtain ⟨ts, rfl, hts⟩ := separated_reads ident_reads h
    exact ⟨ts, rfl, .names hts⟩
  · obtain ⟨number, rfl, hnumber⟩ := accept_eq_ok.1 h
    split at hnumber
    · next hone =>
      cases hnumber
      exact ⟨[number], rfl, .one hone.1 hone.2⟩
    · cases hnumber

/-- What `unit` reads is a unit of the grammar (`DerivesUnit`). -/
theorem unit_reads : Reads unit DerivesUnit := by
  intro tokens rest e h
  simp only [unit, bind_eq_ok, take_eq_ok] at h
  obtain ⟨first, _, ⟨rfl, hfirst⟩, above, _, habove, slash, _, hslash, h⟩ := h
  obtain ⟨ts, rfl, hts⟩ := numerator_reads habove
  rcases takeIf_eq_ok.1 hslash with ⟨bar, rfl, hbar, rfl⟩ | ⟨-, rfl, rfl⟩
  · simp only [if_true, bind_eq_ok, pure_eq_ok, take_eq_ok] at h
    obtain ⟨below, _, hbelow, last, _, ⟨rfl, hlast⟩, rfl, rfl⟩ := h
    obtain ⟨us, rfl, hus⟩ := separated_reads ident_reads hbelow
    exact ⟨_, by simp, .unit hfirst hts (.names hbar hus) hlast⟩
  · simp only [Bool.false_eq_true, if_false, bind_eq_ok, pure_eq_ok, take_eq_ok] at h
    obtain ⟨_, _, ⟨rfl, rfl⟩, last, _, ⟨rfl, hlast⟩, rfl, rfl⟩ := h
    exact ⟨_, by simp, .unit hfirst hts .none hlast⟩

/-- What `number` reads where it stands at a number is this number (`DerivesNumber`). -/
theorem number_reads {kind : TokenKind} (hkind : kind = .intLiteral ∨ kind = .doubleLiteral)
    {tokens rest : List Token} {e : Node} (h : number kind tokens = .ok (e, rest))
    (hfirst : ∀ token ∈ tokens.head?, token.kind = kind) :
    ∃ token, tokens = token :: rest ∧ DerivesNumber e token := by
  rcases hkind with rfl | rfl
  · rw [number, if_pos rfl] at h
    obtain ⟨token, rfl, hread⟩ := accept_eq_ok.1 h
    obtain ⟨value, hvalue, rfl⟩ := Option.map_eq_some_iff.1 hread
    exact ⟨token, rfl, .int (hfirst token rfl) hvalue⟩
  · rw [number, if_neg (by decide)] at h
    obtain ⟨token, rfl, hread⟩ := accept_eq_ok.1 h
    obtain ⟨value, hvalue, rfl⟩ := Option.map_eq_some_iff.1 hread
    exact ⟨token, rfl, .double (hfirst token rfl) hvalue⟩

/-- The node of a text or a truth value (`literal?`) is an atom. -/
theorem derives_of_literal? {n : Nat} {token : Token} {e : Node} (h : literal? token = some e) :
    Derives n (.atom e) [token] := by
  unfold literal? at h
  split at h
  · next hk => cases h; exact .text (.inl hk)
  · next hk => cases h; exact .text (.inr hk)
  · next hk => cases h; exact .trueWord hk
  · next hk => cases h; exact .falseWord hk
  · cases h

/-- A quantity is its magnitude with what `quantity` reads behind it. -/
theorem quantity_reads {n : Nat} {token : Token} {magnitude : Node}
    (hmagnitude : DerivesMagnitude magnitude token) {tokens rest : List Token} {e : Node}
    (h : quantity magnitude tokens = .ok (e, rest)) :
    ∃ ts, token :: tokens = ts ++ rest ∧ Derives n (.atom e) ts := by
  simp only [quantity, bind_eq_ok, pure_eq_ok, take_eq_ok] at h
  obtain ⟨ampersand, _, ⟨rfl, hampersand⟩, u, _, hu, rfl, rfl⟩ := h
  obtain ⟨ts, rfl, hts⟩ := unit_reads hu
  exact ⟨token :: ampersand :: ts, rfl, .quantity hmagnitude hampersand hts⟩

/-- A number, or the quantity that it is the magnitude of, is an atom: whether an ampersand follows
decides which. -/
theorem numberAtom_reads {n : Nat} {kind : TokenKind}
    (hkind : kind = .intLiteral ∨ kind = .doubleLiteral) {tokens rest : List Token} {e : Node}
    (hfirst : ∀ token ∈ tokens.head?, token.kind = kind)
    (h : (do let magnitude ← number kind
             if ← atKind .ampersand then quantity magnitude else return magnitude : Parser Node)
      tokens = .ok (e, rest)) :
    ∃ ts, tokens = ts ++ rest ∧ Derives n (.atom e) ts := by
  simp only [bind_eq_ok, atKind_eq_ok] at h
  obtain ⟨magnitude, mid, hmagnitude, ampersand, _, ⟨-, -, rfl, -⟩, h⟩ := h
  obtain ⟨token, rfl, htoken⟩ := number_reads hkind hmagnitude hfirst
  split at h
  · exact quantity_reads (.number htoken) h
  · obtain ⟨rfl, rfl⟩ := pure_eq_ok.1 h
    exact ⟨[token], rfl, .number htoken⟩

/-- A name, or the quantity that it is the magnitude of, is an atom: whether an ampersand follows
decides which. -/
theorem nameAtom_reads {n : Nat} {second : Option TokenKind} {tokens rest : List Token} {e : Node}
    (h : (do let name ← ident
             if second = some .ampersand then quantity ⟨name.span, .variable name⟩
             else return ⟨name.span, .variable name⟩ : Parser Node) tokens = .ok (e, rest)) :
    ∃ ts, tokens = ts ++ rest ∧ Derives n (.atom e) ts := by
  simp only [bind_eq_ok, ident_eq_ok] at h
  obtain ⟨_, _, ⟨name, rfl, hname, rfl⟩, h⟩ := h
  split at h
  · exact quantity_reads (.name hname) h
  · obtain ⟨rfl, rfl⟩ := pure_eq_ok.1 h
    exact ⟨[name], rfl, .name hname⟩

/-! ## Expressions, given those of deeper levels -/

/-- The parsers for deeper levels read what is derived with `n` levels (`Derives`). -/
structure Deeper.Sound (deeper : Deeper) (n : Nat) : Prop where
  expression : Reads deeper.expression fun e ts => Derives n (.expression e) ts
  comparison : Reads deeper.comparison fun e ts =>
    ∃ k, n = k + 1 ∧ Derives k (.comparison e) ts
  sign : Reads deeper.sign fun e ts => ∃ k, n = k + 1 ∧ Derives k (.signed e) ts

section
variable {n : Nat} {below : Deeper}

/-- The arguments of a call are a list with commas (`Separated`). -/
theorem derives_arguments {es : List Node} {ts : List Token}
    (h : Separated .comma (fun e ts => Derives n (.expression e) ts) es ts) :
    Derives n (.arguments es) ts := by
  induction h with
  | last he => exact .lastArgument he
  | more he hcomma hes ih =>
    cases hes with
    | last => exact .moreArguments he hcomma ih
    | more => exact .moreArguments he hcomma ih

/-- What `group` reads is an expression in brackets, and an atom. -/
theorem group_reads (hbelow : below.Sound n) :
    Reads (group below) fun e ts => Derives n (.atom e) ts := by
  intro tokens rest e h
  simp only [group, bind_eq_ok, pure_eq_ok, take_eq_ok] at h
  obtain ⟨first, _, ⟨rfl, hfirst⟩, inner, _, hinner, last, _, ⟨rfl, hlast⟩, rfl, rfl⟩ := h
  obtain ⟨ts, rfl, hts⟩ := hbelow.expression hinner
  exact ⟨_, by simp, .group hfirst hts hlast⟩

/-- What `call` reads is a call of the grammar, and an atom. -/
theorem call_reads (hbelow : below.Sound n) :
    Reads (call below) fun e ts => Derives n (.atom e) ts := by
  intro tokens rest e h
  simp only [call, bind_eq_ok, ident_eq_ok, take_eq_ok, atKind_eq_ok] at h
  obtain ⟨_, _, ⟨name, rfl, hname, rfl⟩, first, mid, ⟨rfl, hfirst⟩, closes, _,
    ⟨-, -, rfl, -⟩, h⟩ := h
  have key : ∃ args mid' last, Derives n (.arguments args) mid' ∧ mid = mid' ++ last :: rest ∧
      last.kind = .rightParen ∧ e = ⟨name.span.through last.span, .call name.ident args⟩ := by
    split at h
    · simp only [bind_eq_ok, pure_eq_ok, take_eq_ok] at h
      obtain ⟨_, _, ⟨rfl, rfl⟩, last, _, ⟨rfl, hlast⟩, rfl, rfl⟩ := h
      exact ⟨[], [], last, .noArguments, rfl, hlast, rfl⟩
    · simp only [bind_eq_ok, pure_eq_ok, take_eq_ok] at h
      obtain ⟨args, _, hargs, last, _, ⟨rfl, hlast⟩, rfl, rfl⟩ := h
      obtain ⟨ts, rfl, hts⟩ := separated_reads hbelow.expression hargs
      exact ⟨args, ts, last, derives_arguments hts, rfl, hlast, rfl⟩
  obtain ⟨args, ts, last, hts, rfl, hlast, rfl⟩ := key
  exact ⟨_, by simp, .call hname hfirst hts hlast⟩

/-- What `atom` reads is an atom of the grammar, in whichever of its ways. -/
theorem atom_reads (hbelow : below.Sound n) :
    Reads (atom below) fun e ts => Derives n (.atom e) ts := by
  intro tokens rest e h
  obtain ⟨token, mid, hpeek, h⟩ := bind_eq_ok.1 h
  obtain ⟨hhead, rfl⟩ := peek_eq_ok.1 hpeek
  have hfirst : ∀ {kind}, token.kind = kind → ∀ t ∈ tokens.head?, t.kind = kind := by
    intro kind hkind t ht
    obtain rfl : token = t := Option.some.inj (hhead.symm.trans ht)
    exact hkind
  cases hk : token.kind <;> simp only [hk] at h
  case identifier =>
    obtain ⟨second, mid, hsecond, h⟩ := bind_eq_ok.1 h
    obtain ⟨-, rfl⟩ := peekSecond?_eq_ok.1 hsecond
    split at h
    · exact call_reads hbelow h
    · exact nameAtom_reads h
  case leftParen => exact group_reads hbelow h
  case intLiteral => exact numberAtom_reads (.inl rfl) (hfirst hk) h
  case doubleLiteral => exact numberAtom_reads (.inr rfl) (hfirst hk) h
  case pipe =>
    obtain ⟨ts, rfl, hts⟩ := unit_reads h
    exact ⟨ts, rfl, .unit hts⟩
  all_goals
    obtain ⟨literal, rfl, hliteral⟩ := accept_eq_ok.1 h
    exact ⟨[literal], rfl, derives_of_literal? hliteral⟩

/-- What `signed` reads is an atom behind any number of signs. -/
theorem signed_reads (hbelow : below.Sound n) :
    Reads (signed below) fun e ts => Derives n (.signed e) ts := by
  intro tokens rest e h
  obtain ⟨_, mid, hsign, h⟩ := bind_eq_ok.1 h
  rcases acceptIf?_eq_ok.1 hsign with ⟨token, op, rfl, hop, rfl⟩ | ⟨-, rfl, rfl⟩
  · obtain ⟨operand, mid, hoperand, h⟩ := bind_eq_ok.1 h
    obtain ⟨rfl, rfl⟩ := pure_eq_ok.1 h
    obtain ⟨ts, rfl, k, rfl, hts⟩ := hbelow.sign hoperand
    obtain ⟨hop, hne⟩ := Option.filter_eq_some_iff.1 hop
    exact ⟨token :: ts, rfl, .sign hop (by simpa using hne) hts⟩
  · obtain ⟨ts, rfl, hts⟩ := atom_reads hbelow h
    exact ⟨ts, rfl, .unsigned hts⟩

/-- A trail of operands (`Trail`) that is joined to the operands before it makes a chain of all of
them. -/
theorem derives_foldl {tier : Tier} {others : List (BinaryOp × Node)} {us : List Token}
    (h : Trail tier.operator? (fun e ts => Derives n (tier.operand e) ts) others us)
    {left : Node} {ts : List Token} (hleft : Derives n (.chain tier left) ts) :
    Derives n (.chain tier (others.foldl (fun left (op, right) => binary left op right) left))
      (ts ++ us) := by
  induction h generalizing left ts with
  | nil => simpa using hleft
  | cons hop he _ ih =>
    obtain ⟨hop, htier⟩ := Option.filter_eq_some_iff.1 hop
    simpa using ih (.joined hleft hop (by simpa using htier) he)

/-- What `chain` reads is a chain of the tier, if its operands are read as such. -/
theorem chain_reads (tier : Tier) {operand : Parser Node}
    (hoperand : Reads operand fun e ts => Derives n (tier.operand e) ts) :
    Reads (chain tier operand) fun e ts => Derives n (.chain tier e) ts := by
  intro tokens rest e h
  simp only [chain, bind_eq_ok, pure_eq_ok] at h
  obtain ⟨first, mid, hfirst, others, mid, hothers, rfl, rfl⟩ := h
  obtain ⟨ts, rfl, hts⟩ := hoperand hfirst
  obtain ⟨us, rfl, hus⟩ := following_reads hoperand hothers
  exact ⟨ts ++ us, (List.append_assoc ..).symm, derives_foldl hus (.single hts)⟩

/-- What `comparison` reads is a comparison of the grammar, or the negation of one. -/
theorem comparison_reads (hbelow : below.Sound n) :
    Reads (comparison below) fun e ts => Derives n (.comparison e) ts := by
  intro tokens rest e h
  obtain ⟨_, mid, hnot, h⟩ := bind_eq_ok.1 h
  rcases acceptIf?_eq_ok.1 hnot with ⟨token, op, rfl, hop, rfl⟩ | ⟨-, rfl, rfl⟩
  · obtain ⟨operand, mid, hoperand, h⟩ := bind_eq_ok.1 h
    obtain ⟨rfl, rfl⟩ := pure_eq_ok.1 h
    obtain ⟨ts, rfl, k, rfl, hts⟩ := hbelow.comparison hoperand
    obtain ⟨hop, hnot⟩ := Option.filter_eq_some_iff.1 hop
    obtain rfl : op = .not := by simpa using hnot
    exact ⟨token :: ts, rfl, .negated (UnaryOp.kind_eq_notWord hop) hts⟩
  · have hsums := chain_reads .comparison
      (chain_reads .sum (chain_reads .product (signed_reads hbelow)))
    obtain ⟨ts, rfl, hts⟩ := hsums h
    exact ⟨ts, rfl, .compared hts⟩

/-- A type of variables is one token. -/
theorem type_eq_ok {tokens rest : List Token} {type : TypeName} :
    Parser.type tokens = .ok (type, rest) ↔
      ∃ word, tokens = word :: rest ∧ word.kind.isType = true ∧
        TypeName.ofToken? word.kind = some type := by
  rw [Parser.type, accept_eq_ok]
  refine ⟨?_, ?_⟩
  · rintro ⟨word, rfl, hword⟩
    split at hword
    · next ht => exact ⟨word, rfl, ht, hword⟩
    · cases hword
  · rintro ⟨word, rfl, ht, hword⟩
    exact ⟨word, rfl, by rw [if_pos ht]; exact hword⟩

/-- Behind its type, if there is one, an assignment is a name, an equals sign and a value
(`Derives`). -/
theorem assigned_reads (hbelow : below.Sound n) {start : Span} {type : Option TypeName}
    {tokens rest : List Token} {e : Node}
    (h : (do let name ← ident
             let _ ← take .equal
             let value ← below.expression
             return ⟨start.through value.span, .assign type name value⟩ : Parser Node) tokens =
      .ok (e, rest)) :
    ∃ name equal value ts, tokens = name :: equal :: ts ++ rest ∧ name.kind = .identifier ∧
      equal.kind = .equal ∧ Derives n (.expression value) ts ∧
      e = ⟨start.through value.span, .assign type name.ident value⟩ := by
  simp only [bind_eq_ok, pure_eq_ok, ident_eq_ok, take_eq_ok] at h
  obtain ⟨_, _, ⟨name, rfl, hname, rfl⟩, equal, _, ⟨rfl, hequal⟩, value, _, hvalue, rfl, rfl⟩ := h
  obtain ⟨ts, rfl, hts⟩ := hbelow.expression hvalue
  exact ⟨name, equal, value, ts, rfl, hname, hequal, hts, rfl⟩

/-- What `assignment` reads is an expression of the grammar, one level higher than its value. -/
theorem assignment_reads (hbelow : below.Sound n) :
    Reads (assignment below) fun e ts => Derives (n + 1) (.expression e) ts := by
  intro tokens rest e h
  obtain ⟨start, mid, hstart, h⟩ := bind_eq_ok.1 h
  obtain ⟨hhead, rfl⟩ := peek_eq_ok.1 hstart
  obtain ⟨second, mid, hsecond, h⟩ := bind_eq_ok.1 h
  obtain ⟨hhead', rfl⟩ := peek_eq_ok.1 hsecond
  obtain rfl : start = second := Option.some.inj (hhead.symm.trans hhead')
  split at h
  · obtain ⟨_, mid, htype, hassigned⟩ := bind_eq_ok.1 h
    obtain ⟨type, hread, rfl⟩ := map_eq_ok.1 htype
    obtain ⟨word, rfl, hword, hname⟩ := type_eq_ok.1 hread
    obtain ⟨name, equal, value, ts, rfl, hident, hequal, hts, rfl⟩ :=
      assigned_reads hbelow hassigned
    cases hhead
    exact ⟨_ :: name :: equal :: ts, rfl, .declare hword hname hident hequal hts⟩
  · obtain ⟨_, mid, hnone, hassigned⟩ := bind_eq_ok.1 h
    obtain ⟨rfl, rfl⟩ := pure_eq_ok.1 hnone
    obtain ⟨name, equal, value, ts, rfl, hident, hequal, hts, rfl⟩ :=
      assigned_reads hbelow hassigned
    cases hhead
    exact ⟨_ :: equal :: ts, rfl, .assign hident hequal hts⟩

/-- What `expressionBody` reads is an expression of the grammar: an assignment or a chain of
logic. -/
theorem expressionBody_reads (hbelow : below.Sound n) :
    Reads (expressionBody below) fun e ts => Derives (n + 1) (.expression e) ts := by
  intro tokens rest e h
  simp only [expressionBody, bind_eq_ok] at h
  obtain ⟨token, mid, hpeek, second, mid, hsecond, h⟩ := h
  obtain ⟨-, rfl⟩ := peek_eq_ok.1 hpeek
  obtain ⟨-, rfl⟩ := peekSecond?_eq_ok.1 hsecond
  split at h
  · exact assignment_reads hbelow h
  · obtain ⟨ts, rfl, hts⟩ := chain_reads .logic (comparison_reads hbelow) h
    exact ⟨ts, rfl, .logical hts⟩

end

/-- The parsers for `n` deeper levels read what is derived with as many (`Deeper.Sound`), by
induction on the levels. -/
theorem deeper_sound (n : Nat) : (deeper n).Sound n := by
  induction n with
  | zero => exact ⟨nofun, nofun, nofun⟩
  | succ n ih =>
    refine ⟨fun _ _ _ h => ?_, fun _ _ _ h => ?_, fun _ _ _ h => ?_⟩
    · exact expressionBody_reads ih (nested_eq_ok.1 h)
    · obtain ⟨ts, rfl, hts⟩ := comparison_reads ih (nested_eq_ok.1 h)
      exact ⟨ts, rfl, n, rfl, hts⟩
    · obtain ⟨ts, rfl, hts⟩ := signed_reads ih (nested_eq_ok.1 h)
      exact ⟨ts, rfl, n, rfl, hts⟩

/-! ## Statements, given the blocks in them -/

section
variable {n : Nat} {below : Deeper} {inner : Parser Block}

/-- What `case` reads is a condition in brackets and a block. -/
theorem case_reads (hbelow : below.Sound n)
    (hinner : Reads inner fun b ts => Derives n (.block b) ts) :
    Reads (case below inner) fun c ts => Derives n (.case c.1 c.2) ts := by
  intro tokens rest c h
  simp only [case, condition, bind_eq_ok, pure_eq_ok, take_eq_ok] at h
  obtain ⟨e, _, ⟨first, _, ⟨rfl, hfirst⟩, _, _, he, last, _, ⟨rfl, hlast⟩, rfl, rfl⟩,
    body, _, hbody, rfl, rfl⟩ := h
  obtain ⟨ts, rfl, hts⟩ := hbelow.expression he
  obtain ⟨us, rfl, hus⟩ := hinner hbody
  exact ⟨first :: ts ++ last :: us, by simp, .case hfirst hts hlast hus⟩

/-- A trail of further cases stands behind the first case of an `if`, in front of what ends it. -/
theorem derives_others {cases : List (Unit × Node × Block)} {us : List Token}
    (h : Trail (only .elseifWord) (fun c ts => Derives n (.case c.1 c.2) ts) cases us)
    {last : Alternatives} {vs : List Token} (hlast : Derives n (.others last) vs) :
    Derives n (.others (.ofCases (cases.map Prod.snd) last)) (us ++ vs) := by
  induction h with
  | nil => exact hlast
  | cons hword hcase _ ih =>
    dsimp only [only] at hword
    split at hword
    · next hkind => simpa [Alternatives.ofCases] using Derives.elseIf hkind hcase ih
    · cases hword

/-- The last block of cases without `else`. -/
theorem lastSpan_ofCases_none (cases : List (Node × Block)) (before : Span) :
    (Alternatives.ofCases cases .none).lastSpan before =
      (cases.map fun c => c.2.span).getLastD before := by
  induction cases generalizing before with
  | nil => rfl
  | cons c cases ih =>
    rw [List.map_cons, List.getLastD_cons]
    exact ih c.2.span

/-- The last block of cases with `else`. -/
theorem lastSpan_ofCases_otherwise (cases : List (Node × Block)) (b : Block) (before : Span) :
    (Alternatives.ofCases cases (.otherwise b)).lastSpan before = b.span := by
  induction cases generalizing before with
  | nil => rfl
  | cons c cases ih => exact ih c.2.span

/-- An `if` is read as one. -/
theorem ifElse_reads (hbelow : below.Sound n)
    (hinner : Reads inner fun b ts => Derives n (.block b) ts) :
    Reads (ifElse below inner) fun e ts => Derives n (.item e) ts := by
  intro tokens rest e h
  simp only [ifElse, bind_eq_ok, take_eq_ok] at h
  obtain ⟨word, _, ⟨rfl, hword⟩, first, _, hfirst, others, _, hothers, final, _, hfinal, h⟩ := h
  obtain ⟨ts, rfl, hts⟩ := case_reads hbelow hinner hfirst
  obtain ⟨us, rfl, hus⟩ := following_reads (case_reads hbelow hinner) hothers
  rcases takeIf_eq_ok.1 hfinal with ⟨elseWord, rfl, helse, rfl⟩ | ⟨-, rfl, rfl⟩
  · simp only [if_true, bind_eq_ok, pure_eq_ok] at h
    obtain ⟨b, _, hb, rfl, rfl⟩ := h
    obtain ⟨vs, rfl, hvs⟩ := hinner hb
    have := Derives.ifElse hword hts (derives_others hus (.otherwise helse hvs))
    rw [lastSpan_ofCases_otherwise] at this
    exact ⟨_, by simp, this⟩
  · simp only [Bool.false_eq_true, if_false, pure_eq_ok] at h
    obtain ⟨rfl, rfl⟩ := h
    have := Derives.ifElse hword hts (derives_others hus .noOthers)
    rw [lastSpan_ofCases_none, List.map_map, List.append_nil] at this
    exact ⟨_, by simp, this⟩

/-- What `whileLoop` reads is a loop of the grammar, and an item among statements. -/
theorem whileLoop_reads (hbelow : below.Sound n)
    (hinner : Reads inner fun b ts => Derives n (.block b) ts) :
    Reads (whileLoop below inner) fun e ts => Derives n (.item e) ts := by
  intro tokens rest e h
  simp only [whileLoop, bind_eq_ok, pure_eq_ok, take_eq_ok] at h
  obtain ⟨word, _, ⟨rfl, hword⟩, c, mid, hc, body, left, hbody, rfl, rfl⟩ := h
  have hcase : case below inner _ = .ok ((c, body), left) :=
    bind_eq_ok.2 ⟨c, mid, hc, bind_eq_ok.2 ⟨body, _, hbody, pure_eq_ok.2 ⟨rfl, rfl⟩⟩⟩
  obtain ⟨ts, rfl, hts⟩ := case_reads hbelow hinner hcase
  exact ⟨word :: ts, rfl, .whileLoop hword hts⟩

/-- What `param` reads is a parameter of the grammar (`DerivesParam`). -/
theorem param_reads : Reads param DerivesParam := by
  intro tokens rest p h
  simp only [param, bind_eq_ok, pure_eq_ok, take_eq_ok, ident_eq_ok, type_eq_ok] at h
  obtain ⟨_, _, ⟨name, rfl, hname, rfl⟩, colon, _, ⟨rfl, hcolon⟩, type, _,
    ⟨word, rfl, hword, htype⟩, rfl, rfl⟩ := h
  exact ⟨[name, colon, word], rfl, .param hname hcolon hword htype⟩

/-- What `function` reads is a definition of a function, and an item among statements. -/
theorem function_reads (hinner : Reads inner fun b ts => Derives n (.block b) ts) :
    Reads (function inner) fun e ts => Derives n (.item e) ts := by
  intro tokens rest e h
  simp only [function, bind_eq_ok, take_eq_ok, ident_eq_ok, atKind_eq_ok] at h
  obtain ⟨word, _, ⟨rfl, hword⟩, _, _, ⟨name, rfl, hname, rfl⟩, first, mid, ⟨rfl, hfirst⟩,
    named, _, ⟨-, -, rfl, -⟩, h⟩ := h
  have key : ∃ params ts last arrow result returns body us, DerivesParams params ts ∧
      mid = ts ++ last :: arrow :: result :: us ++ rest ∧ last.kind = .rightParen ∧
      arrow.kind = .arrow ∧ TypeName.ofToken? result.kind = some returns ∧
      Derives n (.block body) us ∧
      e = ⟨word.span.through body.span, .function name.ident params returns body⟩ := by
    split at h
    · simp only [bind_eq_ok, pure_eq_ok, take_eq_ok, returnType, accept_eq_ok] at h
      obtain ⟨params, _, hparams, last, _, ⟨rfl, hlast⟩, arrow, _, ⟨rfl, harrow⟩, returns, _,
        ⟨result, rfl, hresult⟩, body, _, hbody, rfl, rfl⟩ := h
      obtain ⟨ts, rfl, hts⟩ := separated_reads param_reads hparams
      obtain ⟨us, rfl, hus⟩ := hinner hbody
      exact ⟨params, ts, last, arrow, result, returns, body, us, .some hts, by simp, hlast,
        harrow, hresult, hus, rfl⟩
    · simp only [bind_eq_ok, pure_eq_ok, take_eq_ok, returnType, accept_eq_ok] at h
      obtain ⟨_, _, ⟨rfl, rfl⟩, last, _, ⟨rfl, hlast⟩, arrow, _, ⟨rfl, harrow⟩, returns, _,
        ⟨result, rfl, hresult⟩, body, _, hbody, rfl, rfl⟩ := h
      obtain ⟨us, rfl, hus⟩ := hinner hbody
      exact ⟨[], [], last, arrow, result, returns, body, us, .none, by simp, hlast, harrow,
        hresult, hus, rfl⟩
  obtain ⟨params, ts, last, arrow, result, returns, body, us, hts, rfl, hlast, harrow, hresult,
    hus, rfl⟩ := key
  exact ⟨_, by simp, .function hword hname hfirst hts hlast harrow hresult hus⟩

/-- What `returned` reads is the end of a call, with or without a value. -/
theorem returned_reads (hbelow : below.Sound n) :
    Reads (returned below) fun e ts => Derives n (.simple e) ts := by
  intro tokens rest e h
  simp only [returned, bind_eq_ok, take_eq_ok, atKind_eq_ok] at h
  obtain ⟨word, _, ⟨rfl, hword⟩, nothing, _, ⟨-, -, rfl, -⟩, h⟩ := h
  split at h
  · obtain ⟨rfl, rfl⟩ := pure_eq_ok.1 h
    exact ⟨[word], rfl, .returnNothing hword⟩
  · simp only [bind_eq_ok, pure_eq_ok] at h
    obtain ⟨value, _, hvalue, rfl, rfl⟩ := h
    obtain ⟨ts, rfl, hts⟩ := hbelow.expression hvalue
    exact ⟨word :: ts, rfl, .returnValue hword hts⟩

/-- What is closed by a semicolon (`closed`) is an item among statements. -/
theorem closed_reads {simple : Parser Node}
    (hsimple : Reads simple fun e ts => Derives n (.simple e) ts) :
    Reads (closed simple) fun e ts => Derives n (.item e) ts := by
  intro tokens rest e h
  simp only [closed, bind_eq_ok, pure_eq_ok, take_eq_ok] at h
  obtain ⟨_, _, he, semicolon, _, ⟨rfl, hsemicolon⟩, rfl, rfl⟩ := h
  obtain ⟨ts, rfl, hts⟩ := hsimple he
  exact ⟨ts ++ [semicolon], by simp, .closed hts hsemicolon⟩

/-- A statement that is one word is read as the form that this word stands for. -/
theorem word_reads {kind : TokenKind} {form : Form}
    (hform : ∀ {word : Token}, word.kind = kind →
      Derives n (.simple ⟨word.span, form⟩) [word]) :
    Reads (do return ⟨(← take kind).span, form⟩ : Parser Node)
      fun e ts => Derives n (.simple e) ts := by
  intro tokens rest e h
  simp only [bind_eq_ok, pure_eq_ok, take_eq_ok] at h
  obtain ⟨word, _, ⟨rfl, hword⟩, rfl, rfl⟩ := h
  exact ⟨[word], rfl, hform hword⟩

/-- What `statementWith` reads is an item among statements, whatever it begins with. -/
theorem statementWith_reads (hbelow : below.Sound n)
    (hinner : Reads inner fun b ts => Derives n (.block b) ts) :
    Reads (statementWith below inner) fun e ts => Derives n (.item e) ts := by
  intro tokens rest e h
  obtain ⟨token, mid, hpeek, h⟩ := bind_eq_ok.1 h
  obtain ⟨-, rfl⟩ := peek_eq_ok.1 hpeek
  cases hk : token.kind <;> simp only [hk] at h
  case ifWord => exact ifElse_reads hbelow hinner h
  case whileWord => exact whileLoop_reads hbelow hinner h
  case functionWord => exact function_reads hinner h
  case leftBrace =>
    simp only [bind_eq_ok, pure_eq_ok] at h
    obtain ⟨b, _, hb, rfl, rfl⟩ := h
    obtain ⟨ts, rfl, hts⟩ := hinner hb
    exact ⟨ts, rfl, .nested hts⟩
  case returnWord => exact closed_reads (returned_reads hbelow) h
  case breakWord => exact closed_reads (word_reads .breakLoop) h
  case continueWord => exact closed_reads (word_reads .continueLoop) h
  all_goals
    refine closed_reads (fun _ _ _ he => ?_) h
    obtain ⟨ts, rfl, hts⟩ := hbelow.expression he
    exact ⟨ts, rfl, .evaluated hts⟩

/-- Statements in a row (`Row`) are items of the grammar. -/
theorem derives_items {es : List Node} {ts : List Token}
    (h : Row (fun e ts => Derives n (.item e) ts) es ts) : Derives n (.items es) ts := by
  induction h with
  | nil => exact .noItems
  | cons he _ ih => exact .moreItems he ih

end

/-- What `block` reads is a block of the grammar, by induction on the levels that are left. -/
theorem block_reads (n : Nat) : Reads (block n) fun b ts => Derives n (.block b) ts := by
  induction n with
  | zero => nofun
  | succ n ih =>
    intro tokens rest b h
    simp only [block, nested_eq_ok, bind_eq_ok, pure_eq_ok, take_eq_ok] at h
    obtain ⟨first, _, ⟨rfl, hfirst⟩, es, _, hes, last, _, ⟨rfl, hlast⟩, rfl, rfl⟩ := h
    obtain ⟨ts, rfl, hts⟩ := untilKind_reads (statementWith_reads (deeper_sound n) ih) hes
    exact ⟨_, by simp, .block hfirst (derives_items hts) hlast⟩

/-- The statements that `untilKind` reads up to a closing token are items of the grammar. -/
theorem items_reads (n : Nat) (closes : TokenKind → Bool) :
    Reads (untilKind closes (statementWith (deeper n) (block n)))
      fun es ts => Derives n (.items es) ts := by
  intro tokens rest es h
  obtain ⟨ts, rfl, hts⟩ := untilKind_reads (statementWith_reads (deeper_sound n) (block_reads n)) h
  exact ⟨ts, rfl, derives_items hts⟩

end Parser

/-- A program is derived (`Block.DerivedFrom`) from the tokens that `Block.ofTokens` reads it
from. -/
theorem Block.derivedFrom_of_ofTokens {tokens : List Token} {program : Block}
    (h : Block.ofTokens tokens = .ok program) : program.DerivedFrom tokens := by
  unfold Block.ofTokens Parser.parse at h
  split at h
  · next result rest hread =>
    cases h
    simp only [Parser.program, Parser.bind_eq_ok, Parser.pure_eq_ok, Parser.peek_eq_ok,
      Parser.take_eq_ok] at hread
    obtain ⟨first, _, ⟨hfirst, rfl⟩, es, _, hes, last, _, ⟨rfl, hlast⟩, rfl, rfl⟩ := hread
    obtain ⟨ts, rfl, hts⟩ := Parser.items_reads _ _ hes
    refine .program hts hlast ?_
    cases ts with
    | nil => exact hfirst
    | cons _ _ => exact hfirst
  · cases h

end UnitScript
