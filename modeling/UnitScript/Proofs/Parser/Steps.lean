import UnitScript.Proofs.Grammar

/-!
# What the parsers read

`p tokens = .ok (a, rest)` says that the parser `p` reads `a` off the front of the tokens and
leaves the rest. For each of the few parsers that all others are put together from, one equivalence
says when it does. `Reads p element` is soundness for a parser: whatever it reads is an `element`
of exactly the tokens that it takes. The loops `following`, `separated` and `untilKind` are sound
where their items are, and conversely they read the items one after the other for as long as each
item is read and is followed by something that leads on; `Trail` is the list of items a loop walks.
-/

namespace UnitScript.Parser

variable {α β : Type}

/-! ## Single steps -/

/-- One parser after another reads what each of them reads in turn: this takes every `do` block of a
parser apart. -/
theorem bind_eq_ok {p : Parser α} {f : α → Parser β} {tokens rest : List Token} {b : β} :
    (p >>= f) tokens = .ok (b, rest) ↔
      ∃ a mid, p tokens = .ok (a, mid) ∧ f a mid = .ok (b, rest) := by
  show StateT.bind p f tokens = _ ↔ _
  unfold StateT.bind
  rcases p tokens with e | ⟨a, mid⟩
  · simp [bind, Except.bind]
  · refine ⟨?_, ?_⟩
    · exact fun h => ⟨a, mid, rfl, h⟩
    · rintro ⟨_, _, h, hf⟩
      cases h
      exact hf

/-- A result that is already there is read without taking a token. -/
theorem pure_eq_ok {a b : α} {tokens rest : List Token} :
    (pure a : Parser α) tokens = .ok (b, rest) ↔ a = b ∧ tokens = rest := by
  show Except.ok (a, tokens) = _ ↔ _
  simp

/-- What is read may be changed afterwards. -/
theorem map_eq_ok {p : Parser α} {f : α → β} {tokens rest : List Token} {b : β} :
    (f <$> p) tokens = .ok (b, rest) ↔ ∃ a, p tokens = .ok (a, rest) ∧ f a = b := by
  rw [← bind_pure_comp, bind_eq_ok]
  simp [pure_eq_ok]

/-- Nothing is read where the tokens are refused. -/
theorem refuse_ne_ok {expected : Expectation} {tokens rest : List Token} {a : α} :
    refuse expected tokens ≠ .ok (a, rest) := nofun

/-- One level deeper the same is read. -/
theorem nested_eq_ok {p : Parser α} {tokens rest : List Token} {a : α} :
    nested p tokens = .ok (a, rest) ↔ p tokens = .ok (a, rest) := by
  unfold nested
  cases p tokens with
  | error refusal => constructor <;> intro h <;> cases h
  | ok r => exact Iff.rfl

/-- `accept` reads one token. -/
theorem accept_eq_ok {expected : Expectation} {read : Token → Option α}
    {tokens rest : List Token} {a : α} :
    accept expected read tokens = .ok (a, rest) ↔
      ∃ token, tokens = token :: rest ∧ read token = some a := by
  cases tokens with
  | nil => simp [accept]
  | cons token tokens =>
    cases h : read token with
    | none =>
      simp only [accept, h]
      refine ⟨?_, ?_⟩
      · nofun
      · rintro ⟨_, ht, ha⟩
        cases ht
        rw [h] at ha
        cases ha
    | some b =>
      simp only [accept, h]
      refine ⟨fun hb => ?_, ?_⟩
      · cases hb
        exact ⟨token, rfl, h⟩
      · rintro ⟨_, ht, ha⟩
        cases ht
        rw [h] at ha
        cases ha
        rfl

/-- `take` reads one token of its kind. -/
theorem take_eq_ok {kind : TokenKind} {tokens rest : List Token} {token : Token} :
    take kind tokens = .ok (token, rest) ↔ tokens = token :: rest ∧ token.kind = kind := by
  rw [take, accept_eq_ok]
  refine ⟨?_, ?_⟩
  · rintro ⟨t, rfl, ht⟩
    split at ht
    · next hk => cases ht; exact ⟨rfl, hk⟩
    · cases ht
  · rintro ⟨rfl, hk⟩
    exact ⟨token, rfl, if_pos hk⟩

/-- `acceptIf?` reads one token or none, and none only where it may not read the first one. -/
theorem acceptIf?_eq_ok {read : TokenKind → Option α} {tokens rest : List Token}
    {result : Option (α × Span)} :
    acceptIf? read tokens = .ok (result, rest) ↔
      (∃ token a, tokens = token :: rest ∧ read token.kind = some a ∧
        result = some (a, token.span)) ∨
      (∀ token ∈ tokens.head?, read token.kind = none) ∧ tokens = rest ∧ result = none := by
  cases tokens with
  | nil => simp [acceptIf?, and_comm, eq_comm]
  | cons token tokens =>
    cases h : read token.kind with
    | none =>
      simp only [acceptIf?, h]
      refine ⟨fun ha => ?_, ?_⟩
      · cases ha
        exact .inr ⟨fun _ ht => by cases ht; exact h, rfl, rfl⟩
      · rintro (⟨_, _, ht, ha, rfl⟩ | ⟨-, rfl, rfl⟩)
        · cases ht
          rw [h] at ha
          cases ha
        · rfl
    | some a =>
      simp only [acceptIf?, h]
      refine ⟨fun ha => ?_, ?_⟩
      · cases ha
        exact .inl ⟨token, a, rfl, h, rfl⟩
      · rintro (⟨_, _, ht, ha, rfl⟩ | ⟨hn, -⟩)
        · cases ht
          rw [h] at ha
          cases ha
          rfl
        · rw [hn token rfl] at h
          cases h

/-- `takeIf` says whether the first token is of its kind, and takes it if it is. -/
theorem takeIf_eq_ok {kind : TokenKind} {tokens rest : List Token} {taken : Bool} :
    takeIf kind tokens = .ok (taken, rest) ↔
      (∃ token, tokens = token :: rest ∧ token.kind = kind ∧ taken = true) ∨
      (∀ token ∈ tokens.head?, token.kind ≠ kind) ∧ tokens = rest ∧ taken = false := by
  simp only [takeIf, bind_eq_ok, pure_eq_ok, acceptIf?_eq_ok]
  refine ⟨?_, ?_⟩
  · rintro ⟨_, _, ⟨token, _, rfl, hk, rfl⟩ | ⟨hn, rfl, rfl⟩, rfl, rfl⟩
    · split at hk
      · next hkind => exact .inl ⟨token, rfl, hkind, rfl⟩
      · cases hk
    · refine .inr ⟨fun token ht hk => ?_, rfl, rfl⟩
      have := hn token ht
      rw [if_pos hk] at this
      cases this
  · rintro (⟨token, rfl, hk, rfl⟩ | ⟨hn, rfl, rfl⟩)
    · exact ⟨_, _, .inl ⟨token, (), rfl, if_pos hk, rfl⟩, rfl, rfl⟩
    · exact ⟨_, _, .inr ⟨fun token ht => if_neg (hn token ht), rfl, rfl⟩, rfl, rfl⟩

/-- `peek` looks at the first token and leaves all of them. -/
theorem peek_eq_ok {tokens rest : List Token} {token : Token} :
    peek tokens = .ok (token, rest) ↔ tokens.head? = some token ∧ tokens = rest := by
  cases tokens with
  | nil => simp [peek]
  | cons first tokens => simp [peek]

/-- `atKind` looks at the kind of the first token, of which there has to be one. -/
theorem atKind_eq_ok {kind : TokenKind} {tokens rest : List Token} {b : Bool} :
    atKind kind tokens = .ok (b, rest) ↔
      ∃ token, tokens.head? = some token ∧ tokens = rest ∧ b = decide (token.kind = kind) := by
  simp only [atKind, bind_eq_ok, pure_eq_ok, peek_eq_ok]
  refine ⟨?_, ?_⟩
  · rintro ⟨token, _, ⟨ht, rfl⟩, rfl, rfl⟩
    exact ⟨token, ht, rfl, rfl⟩
  · rintro ⟨token, ht, rfl, rfl⟩
    exact ⟨token, _, ⟨ht, rfl⟩, rfl, rfl⟩

/-- `peekSecond?` looks at the kind of the second token, if there is one. -/
theorem peekSecond?_eq_ok {tokens rest : List Token} {kind : Option TokenKind} :
    peekSecond? tokens = .ok (kind, rest) ↔ tokens[1]?.map Token.kind = kind ∧ tokens = rest := by
  simp [peekSecond?]

/-- `ident` reads a name. -/
theorem ident_eq_ok {tokens rest : List Token} {name : Ident} :
    ident tokens = .ok (name, rest) ↔
      ∃ token, tokens = token :: rest ∧ token.kind = .identifier ∧ token.ident = name := by
  simp only [ident, bind_eq_ok, pure_eq_ok, take_eq_ok]
  refine ⟨?_, ?_⟩
  · rintro ⟨token, _, ⟨rfl, hk⟩, rfl, rfl⟩
    exact ⟨token, rfl, hk, rfl⟩
  · rintro ⟨token, rfl, hk, rfl⟩
    exact ⟨token, _, ⟨rfl, hk⟩, rfl, rfl⟩

/-! ## What is read is what was there -/

/-- Whatever a parser reads is an `element` of exactly the tokens that it takes. This is soundness
of a single parser. -/
def Reads (p : Parser α) (element : α → List Token → Prop) : Prop :=
  ∀ ⦃tokens rest : List Token⦄ ⦃a : α⦄, p tokens = .ok (a, rest) →
    ∃ ts, tokens = ts ++ rest ∧ element a ts

/-- Elements that each stand behind a token that leads to them, as `following` reads them. -/
inductive Trail (lead : TokenKind → Option β) (element : α → List Token → Prop) :
    List (β × α) → List Token → Prop
  /-- No element. -/
  | nil : Trail lead element [] []
  /-- An element in front of others. -/
  | cons {token : Token} {b : β} {a : α} {ts us : List Token} {others : List (β × α)} :
      lead token.kind = some b → element a ts → Trail lead element others us →
      Trail lead element ((b, a) :: others) (token :: ts ++ us)

/-- Elements one after the other, as `untilKind` reads them. -/
inductive Row (element : α → List Token → Prop) : List α → List Token → Prop
  /-- No element. -/
  | nil : Row element [] []
  /-- An element in front of others. -/
  | cons {a : α} {ts us : List Token} {as : List α} :
      element a ts → Row element as us → Row element (a :: as) (ts ++ us)

/-- What leads to the elements of a separated list. -/
abbrev only (separator : TokenKind) : TokenKind → Option Unit :=
  fun kind => if kind = separator then some () else none

section
variable {p : Parser α} {element : α → List Token → Prop}

/-- A bounded loop reads a trail. -/
theorem followingUpTo_reads {lead : TokenKind → Option β} (hp : Reads p element) (bound : Nat) :
    Reads (followingUpTo lead p bound) (Trail lead element) := by
  intro tokens rest others h
  induction bound generalizing tokens others with
  | zero =>
    obtain ⟨rfl, rfl⟩ := pure_eq_ok.1 h
    exact ⟨[], rfl, .nil⟩
  | succ bound ih =>
    obtain ⟨_, mid, hlead, h⟩ := bind_eq_ok.1 h
    rcases acceptIf?_eq_ok.1 hlead with ⟨token, b, rfl, hb, rfl⟩ | ⟨-, rfl, rfl⟩
    · obtain ⟨a, mid, ha, h⟩ := bind_eq_ok.1 h
      obtain ⟨others, mid, hothers, h⟩ := bind_eq_ok.1 h
      obtain ⟨rfl, rfl⟩ := pure_eq_ok.1 h
      obtain ⟨ts, rfl, hts⟩ := hp ha
      obtain ⟨us, rfl, hus⟩ := ih hothers
      exact ⟨token :: ts ++ us, by simp, .cons hb hts hus⟩
    · obtain ⟨rfl, rfl⟩ := pure_eq_ok.1 h
      exact ⟨[], rfl, .nil⟩

/-- A loop reads a trail. -/
theorem following_reads {lead : TokenKind → Option β} (hp : Reads p element) :
    Reads (following lead p) (Trail lead element) :=
  fun tokens _ _ h => followingUpTo_reads hp tokens.length h

/-- An element and a trail behind separators are a separated list. -/
theorem Trail.separated {separator : TokenKind} {others : List (Unit × α)} {us : List Token}
    (h : Trail (only separator) element others us) {a : α} {ts : List Token} (ha : element a ts) :
    Separated separator element (a :: others.map Prod.snd) (ts ++ us) := by
  induction h generalizing a ts with
  | nil => simpa using Separated.last ha
  | cons hlead hb _ ih =>
    dsimp only [only] at hlead
    split at hlead
    · next hkind => exact .more ha hkind (ih hb)
    · cases hlead

/-- A separated list is read where its elements are. -/
theorem separated_reads {separator : TokenKind} (hp : Reads p element) :
    Reads (separated separator p) (Separated separator element) := by
  intro tokens rest as h
  obtain ⟨a, mid, ha, h⟩ := bind_eq_ok.1 h
  obtain ⟨others, mid, hothers, h⟩ := bind_eq_ok.1 h
  obtain ⟨rfl, rfl⟩ := pure_eq_ok.1 h
  obtain ⟨ts, rfl, hts⟩ := hp ha
  obtain ⟨us, rfl, hus⟩ := following_reads hp hothers
  exact ⟨ts ++ us, (List.append_assoc ..).symm, hus.separated hts⟩

/-- A bounded loop up to a closing token reads a row. -/
theorem untilUpTo_reads {closes : TokenKind → Bool} (hp : Reads p element) (bound : Nat) :
    Reads (untilUpTo closes p bound) (Row element) := by
  intro tokens rest as h
  induction bound generalizing tokens as with
  | zero => exact absurd h refuse_ne_ok
  | succ bound ih =>
    obtain ⟨token, mid, hpeek, h⟩ := bind_eq_ok.1 h
    obtain ⟨-, rfl⟩ := peek_eq_ok.1 hpeek
    split at h
    · obtain ⟨rfl, rfl⟩ := pure_eq_ok.1 h
      exact ⟨[], rfl, .nil⟩
    · obtain ⟨a, mid, ha, h⟩ := bind_eq_ok.1 h
      obtain ⟨as, mid, has, h⟩ := bind_eq_ok.1 h
      obtain ⟨rfl, rfl⟩ := pure_eq_ok.1 h
      obtain ⟨ts, rfl, hts⟩ := hp ha
      obtain ⟨us, rfl, hus⟩ := ih has
      exact ⟨ts ++ us, (List.append_assoc ..).symm, .cons hts hus⟩

/-- A loop up to a closing token reads a row. -/
theorem untilKind_reads {closes : TokenKind → Bool} (hp : Reads p element) :
    Reads (untilKind closes p) (Row element) :=
  fun tokens _ _ h => untilUpTo_reads hp tokens.length h

/-! ## What is there is read -/

/-- Whatever tokens are an `element`, the parser reads it off them, provided that what follows is as
expected. This is completeness of a single parser. -/
def Accepts (p : Parser α) (element : α → List Token → Prop) (follows : List Token → Prop) :
    Prop :=
  ∀ ⦃a : α⦄ ⦃ts rest : List Token⦄, element a ts → follows rest → p (ts ++ rest) = .ok (a, rest)

variable {follows : List Token → Prop}

/-- A trail has no more elements than tokens. -/
theorem Trail.length_le {lead : TokenKind → Option β} {others : List (β × α)} {ts : List Token}
    (h : Trail lead element others ts) : others.length ≤ ts.length := by
  induction h with
  | nil => exact Nat.le_refl _
  | cons _ _ _ ih =>
    simp only [List.length_cons, List.length_append, List.cons_append]
    omega

/-- One trail behind another is a trail. -/
theorem Trail.append {lead : TokenKind → Option β} {as bs : List (β × α)} {ts us : List Token}
    (has : Trail lead element as ts) (hbs : Trail lead element bs us) :
    Trail lead element (as ++ bs) (ts ++ us) := by
  induction has with
  | nil => exact hbs
  | cons hb ha _ ih => simpa using Trail.cons hb ha ih

/-- A loop with a sufficient bound reads a trail to its end, where nothing leads on. -/
theorem followingUpTo_accepts {lead : TokenKind → Option β} (hp : Accepts p element follows)
    (hlead : ∀ token us, (lead token.kind).isSome → follows (token :: us))
    {others : List (β × α)} {ts rest : List Token} {bound : Nat}
    (h : Trail lead element others ts) (hrest : follows rest)
    (hstop : ∀ token ∈ rest.head?, lead token.kind = none) (hbound : others.length ≤ bound) :
    followingUpTo lead p bound (ts ++ rest) = .ok (others, rest) := by
  -- What follows an element is the next leading token or the rest.
  have hnext : ∀ {others us}, Trail lead element others us → follows (us ++ rest) := by
    intro others us hus
    cases hus with
    | nil => exact hrest
    | cons hb _ _ => exact hlead _ _ (by rw [hb]; rfl)
  induction h generalizing bound with
  | nil =>
    cases bound with
    | zero => exact pure_eq_ok.2 ⟨rfl, rfl⟩
    | succ bound =>
      exact bind_eq_ok.2 ⟨_, _, acceptIf?_eq_ok.2 (.inr ⟨hstop, rfl, rfl⟩),
        pure_eq_ok.2 ⟨rfl, rfl⟩⟩
  | @cons token b a ts us others hb ha htrail ih =>
    obtain ⟨bound, rfl⟩ : ∃ k, bound = k + 1 :=
      ⟨bound - 1, by simp only [List.length_cons] at hbound; omega⟩
    have hothers := ih (Nat.le_of_succ_le_succ hbound)
    refine bind_eq_ok.2 ⟨_, ts ++ (us ++ rest),
      acceptIf?_eq_ok.2 (.inl ⟨token, b, by simp, hb, rfl⟩), ?_⟩
    exact bind_eq_ok.2 ⟨a, _, hp ha (hnext htrail),
      bind_eq_ok.2 ⟨_, _, hothers, pure_eq_ok.2 ⟨rfl, rfl⟩⟩⟩

/-- A loop reads a trail to its end, where nothing leads on. -/
theorem following_accepts {lead : TokenKind → Option β} (hp : Accepts p element follows)
    (hlead : ∀ token us, (lead token.kind).isSome → follows (token :: us))
    {others : List (β × α)} {ts rest : List Token}
    (h : Trail lead element others ts) (hrest : follows rest)
    (hstop : ∀ token ∈ rest.head?, lead token.kind = none) :
    following lead p (ts ++ rest) = .ok (others, rest) := by
  refine followingUpTo_accepts hp hlead h hrest hstop ?_
  have := h.length_le
  simp only [List.length_append]
  omega

/-- A separated list is an element and a trail behind separators. -/
theorem exists_trail {separator : TokenKind} {as : List α} {ts : List Token}
    (h : Separated separator element as ts) :
    ∃ a others us vs, as = a :: others.map Prod.snd ∧ ts = us ++ vs ∧ element a us ∧
      Trail (only separator) element others vs := by
  induction h with
  | last ha => exact ⟨_, [], _, [], rfl, by simp, ha, .nil⟩
  | more ha hsep _ ih =>
    obtain ⟨b, others, us, vs, rfl, rfl, hb, hvs⟩ := ih
    exact ⟨_, ((), b) :: others, _, _ :: us ++ vs, rfl, by simp, ha,
      .cons (if_pos hsep) hb hvs⟩

/-- A separated list is read to its end, where no separator follows. -/
theorem separated_accepts {separator : TokenKind} (hp : Accepts p element follows)
    (hlead : ∀ token us, token.kind = separator → follows (token :: us))
    {as : List α} {ts rest : List Token} (h : Separated separator element as ts)
    (hrest : follows rest) (hstop : ∀ token ∈ rest.head?, token.kind ≠ separator) :
    separated separator p (ts ++ rest) = .ok (as, rest) := by
  obtain ⟨a, others, us, vs, rfl, rfl, ha, hvs⟩ := exists_trail h
  have hlead' : ∀ token us, (only separator token.kind).isSome → follows (token :: us) := by
    intro token us ht
    refine hlead token us ?_
    by_cases hk : token.kind = separator
    · exact hk
    · simp [only, hk] at ht
  have hfollows : follows (vs ++ rest) := by
    cases hvs with
    | nil => exact hrest
    | cons hb _ _ => exact hlead' _ _ (by rw [hb]; rfl)
  have hothers := following_accepts hp hlead' hvs hrest
    fun token ht => if_neg (hstop token ht)
  rw [List.append_assoc]
  exact bind_eq_ok.2 ⟨a, _, hp ha hfollows,
    bind_eq_ok.2 ⟨others, _, hothers, pure_eq_ok.2 ⟨rfl, rfl⟩⟩⟩

/-- A row is read up to its closing token. Elements are not empty and do not begin with a token
that closes, so the bound suffices. -/
theorem untilKind_accepts {closes : TokenKind → Bool} (hp : Accepts p element follows)
    (hstart : ∀ {a ts} us, element a ts → follows (ts ++ us) ∧
      ∃ token ts', ts = token :: ts' ∧ closes token.kind = false)
    {as : List α} {ts rest : List Token} (h : Row element as ts) (hrest : follows rest)
    {last : Token} (hlast : rest.head? = some last) (hcloses : closes last.kind = true) :
    untilKind closes p (ts ++ rest) = .ok (as, rest) := by
  have key : ∀ {as ts}, Row element as ts → ∀ bound, (ts ++ rest).length ≤ bound →
      untilUpTo closes p bound (ts ++ rest) = .ok (as, rest) := by
    intro as ts h
    induction h with
    | nil =>
      intro bound hbound
      obtain ⟨bound, rfl⟩ : ∃ k, bound = k + 1 := by
        cases rest with
        | nil => cases hlast
        | cons _ _ =>
          simp only [List.nil_append, List.length_cons] at hbound
          exact ⟨bound - 1, by omega⟩
      refine bind_eq_ok.2 ⟨last, _, peek_eq_ok.2 ⟨hlast, rfl⟩, ?_⟩
      rw [if_pos hcloses]
      exact pure_eq_ok.2 ⟨rfl, rfl⟩
    | @cons a ts us as ha has ih =>
      intro bound hbound
      obtain ⟨-, token, ts', rfl, htoken⟩ := hstart [] ha
      simp only [List.append_assoc, List.cons_append, List.length_cons,
        List.length_append] at hbound ih
      obtain ⟨bound, rfl⟩ : ∃ k, bound = k + 1 := ⟨bound - 1, by omega⟩
      have hfollows : follows (us ++ rest) := by
        cases has with
        | nil => exact hrest
        | cons hb _ => simpa using (hstart _ hb).1
      refine bind_eq_ok.2 ⟨token, _, peek_eq_ok.2 ⟨rfl, rfl⟩, ?_⟩
      rw [if_neg (by simp [htoken]), List.append_assoc]
      exact bind_eq_ok.2 ⟨a, _, hp ha hfollows,
        bind_eq_ok.2 ⟨as, _, ih bound (by omega), pure_eq_ok.2 ⟨rfl, rfl⟩⟩⟩
  exact key h _ (Nat.le_refl _)

end

end UnitScript.Parser
