import UnitScript.Proofs.Grammar.RoundTrip
import UnitScript.Proofs.Grammar.Single
import UnitScript.Proofs.Units.Algebra

/-!
# Units as literals

The unit of lists of names counts how often each name stands above the bar, less how often it
stands below. Where both lists are shorter than the range of exponents no step on the way leaves
that range (`Units.exists_ofFactors`), so only these counts matter: neither the order of the names
nor a name that stands on both sides (`Units.ofFactors_congr`). A unit that is written out between
bars is read as the names it was written with and comes to their unit (`Units.runText_literal`).
-/

namespace UnitScript

open Integer (InRange)

namespace Units

/-! ## Counting factors -/

section
variable {op : Int → Int → Int} {sign : Int} {names above below above' below' : List String}
  {a : Units}

/-- Dimensions can be taken in one after the other where their exponents stay in range
(`Integer.InRange`) all the way. -/
theorem exists_foldlM_dimension (hop : ∀ m n, op m n = m + sign * n)
    (h : ∀ name, ∀ k ≤ names.count name, InRange (a.powers name + sign * (k : Nat))) :
    ∃ c, names.foldlM (fun units name => combine op units (dimension name)) a = .ok c := by
  induction names generalizing a with
  | nil => exact ⟨a, rfl⟩
  | cons first names ih =>
    have hzero (n : Int) : op n 0 = n := by rw [hop, Int.mul_zero, Int.add_zero]
    have hfirst : ∀ name, InRange (op (a.powers name) ((dimension first).powers name)) := by
      intro name
      rw [hop, powers_dimension]
      split
      next hname => exact h name 1 (List.count_pos_iff.2 (hname ▸ List.mem_cons_self))
      next => exact h name 0 (Nat.zero_le _)
    obtain ⟨b, hb⟩ := (exists_combine_eq_ok_iff hzero).2 hfirst
    have hrest : ∀ name, ∀ k ≤ names.count name, InRange (b.powers name + sign * (k : Nat)) := by
      intro name k hk
      rw [powers_combine hzero hb, hop, powers_dimension]
      split
      next hname =>
        have hstep := h name (k + 1) (by rw [hname] at hk ⊢; rw [List.count_cons_self]; omega)
        rwa [Int.natCast_add, Int.mul_add, Int.add_comm (sign * k), ← Int.add_assoc] at hstep
      next hname =>
        rw [Int.mul_zero, Int.add_zero]
        exact h name k (Nat.le_trans hk (List.count_le_count_cons))
    obtain ⟨c, hc⟩ := ih hrest
    exact ⟨c, by rw [List.foldlM_cons, hb]; exact hc⟩

/-- Fewer names than there are exponents have a unit (`ofFactors`): no name can occur too often
among them. -/
theorem exists_ofFactors (habove : above.length < 2 ^ 63) (hbelow : below.length < 2 ^ 63) :
    ∃ units, ofFactors above below = .ok units := by
  have hadd (m n : Int) : m + n = m + 1 * n := by rw [Int.one_mul]
  have hsub (m n : Int) : m - n = m + -1 * n := by rw [Int.neg_one_mul, Int.sub_eq_add_neg]
  obtain ⟨units, hunits⟩ : ∃ units,
      above.foldlM (fun units name => units.multiply (dimension name)) one = .ok units := by
    refine exists_foldlM_dimension hadd fun name k hk => ?_
    have hcount : above.count name ≤ above.length := List.count_le_length
    rw [powers_one, Pi.zero_apply, InRange]
    omega
  have hpowers := powers_foldl_dimension hadd hunits
  obtain ⟨result, hresult⟩ : ∃ result,
      below.foldlM (fun units name => units.divide (dimension name)) units = .ok result := by
    -- The exponents come down from the counts above the bar, which are not negative.
    refine exists_foldlM_dimension hsub fun name k hk => ?_
    have hcount : above.count name ≤ above.length := List.count_le_length
    have hcount' : below.count name ≤ below.length := List.count_le_length
    rw [hpowers, powers_one, Pi.zero_apply, tally, InRange]
    omega
  refine ⟨result, ?_⟩
  unfold ofFactors
  rw [hunits]
  exact hresult

/-- Only how often each name occurs above and below the bar (`tally`) matters for `ofFactors`. -/
theorem ofFactors_congr (habove : above.length < 2 ^ 63) (hbelow : below.length < 2 ^ 63)
    (habove' : above'.length < 2 ^ 63) (hbelow' : below'.length < 2 ^ 63)
    (h : tally above - tally below = tally above' - tally below') :
    ofFactors above below = ofFactors above' below' := by
  obtain ⟨units, hunits⟩ := exists_ofFactors habove hbelow
  obtain ⟨units', hunits'⟩ := exists_ofFactors habove' hbelow'
  have hpowers : units.powers = units'.powers := by
    rw [powers_ofFactors hunits, powers_ofFactors hunits', h]
  rw [hunits, hunits', powers_injective hpowers]

/-- The order of names is of no account to their number (`tally`). -/
theorem tally_perm (h : above.Perm above') : tally above = tally above' :=
  funext fun name => congrArg Int.ofNat (h.count_eq name)

/-- One name more is counted. -/
theorem tally_cons (name : String) (names : List String) :
    tally (name :: names) = tally names + fun other => if other = name then 1 else 0 := by
  funext other
  rw [Pi.add_apply, tally, tally, List.count_cons]
  by_cases h : other = name
  · simp [h]
  · simp [h, Ne.symm h]

end

/-! ## Written units -/

/-- Names joined by stars, as they stand above or below the bar of a unit. -/
def starred (names : List String) : List Char := ['*'].intercalate (names.map String.toList)

/-- What stands above the bar, a lone `1` for no names. -/
def literalAbove (names : List String) : List Char :=
  if names = [] then ['1'] else starred names

/-- What stands below the bar, with the bar, and nothing for no names. -/
def literalBelow (names : List String) : List Char :=
  if names = [] then [] else '/' :: starred names

/-- The text of a unit, as a statement: the bars, the names `literalAbove` and `literalBelow`, and a
semicolon. -/
def literal (above below : List String) : List Char :=
  '|' :: (literalAbove above ++ (literalBelow below ++ ['|', ';']))

section
variable {names above below : List String} {tail : List Char} {holds : List Token → Prop}

/-- Joined names begin with the first of them, and more of them follow behind a star. -/
theorem starred_cons (name : String) (names : List String) :
    starred (name :: names) = name.toList ++ if names = [] then [] else '*' :: starred names := by
  cases names with
  | nil => rw [starred, List.map_singleton, List.intercalate_singleton, if_pos rfl, List.append_nil]
  | cons next names =>
    rw [starred, List.map_cons, List.map_cons, List.intercalate_cons_cons,
      if_neg (List.cons_ne_nil _ _), List.append_assoc]
    rfl

/-- Joined names begin like a name. -/
theorem isNamePart_of_head?_starred (hne : names ≠ [])
    (hnames : ∀ name ∈ names, Spelled .identifier name.toList) :
    ∀ c ∈ (starred names ++ tail).head?, Pattern.isNamePart c = true := by
  obtain ⟨name, names, rfl⟩ := List.exists_cons_of_ne_nil hne
  have hname := hnames name List.mem_cons_self
  obtain ⟨c, cs, htext, -⟩ := hname.head
  intro d hd
  rw [starred_cons, htext] at hd
  cases hd
  exact hname.isNamePart c (htext ▸ List.mem_cons_self)

/-- Joined names (`starred`) are read by the lexer as such: identifiers, with a star between any two
of them. -/
theorem starred_reads (hne : names ≠ []) (hnames : ∀ name ∈ names, Spelled .identifier name.toList)
    (htail : ∀ c ∈ tail.head?, TokenKind.identifier.goesOn c = false)
    (h : Token.ReadsAs holds tail) :
    Token.ReadsAs (fun tokens => ∃ idents ts us, tokens = ts ++ us ∧
      idents.map Ident.name = names ∧ Separated .star DerivesIdent idents ts ∧ holds us)
      (starred names ++ tail) := by
  induction names with
  | nil => exact absurd rfl hne
  | cons name names ih =>
    obtain ⟨hname, hothers⟩ := List.forall_mem_cons.1 hnames
    intro position
    have hident {position : Position} :
        (Token.placed .identifier name.toList position).ident.name = name :=
      String.ofList_toList
    rw [starred_cons]
    split
    next hnil =>
      subst hnil
      obtain ⟨us, hus, hholds⟩ := h ⟨position.row, position.column + name.toList.length⟩
      rw [List.append_nil]
      refine ⟨_, Token.ofLine_of_spelled position hname htail hus, ?_⟩
      refine ⟨[Token.ident _], [_], us, rfl, ?_, .last (.name rfl), hholds⟩
      rw [List.map_singleton, hident]
    next hmore =>
      obtain ⟨us, hus, idents, ts, us, rfl, hidents, hts, hholds⟩ :=
        ih hmore hothers ⟨position.row, position.column + name.toList.length + 1⟩
      have hstar := Token.ofLine_of_mark .star
        ⟨position.row, position.column + name.toList.length⟩ (by decide) rfl
        (fun c hc => TokenKind.goesOn_of_isNamePart (by decide)
          (isNamePart_of_head?_starred hmore hothers c hc)) hus
      rw [List.append_assoc]
      refine ⟨_, Token.ofLine_of_spelled position hname (fun c hc => ?_) hstar, ?_⟩
      · cases hc
        decide
      · refine ⟨Token.ident _ :: idents, [_] ++ _ :: ts, us, rfl, ?_, .more (.name rfl) rfl hts,
          hholds⟩
        rw [List.map_cons, hident, hidents]

/-- What stands below the bar is read as it was written. -/
theorem below_reads (hnames : ∀ name ∈ names, Spelled .identifier name.toList)
    (htail : ∀ c ∈ tail.head?, TokenKind.identifier.goesOn c = false)
    (h : Token.ReadsAs holds tail) :
    Token.ReadsAs (fun tokens => ∃ idents ts us, tokens = ts ++ us ∧
      idents.map Ident.name = names ∧ DerivesDenominator idents ts ∧ holds us)
      (literalBelow names ++ tail) := by
  intro position
  unfold literalBelow
  split
  next hnil =>
    obtain ⟨us, hus, hholds⟩ := h position
    exact ⟨us, hus, [], [], us, rfl, hnil.symm, .none, hholds⟩
  next hne =>
    obtain ⟨_, hus, idents, ts, us, rfl, hidents, hts, hholds⟩ :=
      starred_reads hne hnames htail h ⟨position.row, position.column + 1⟩
    refine ⟨_, Token.ofLine_of_mark .slash position (by decide) rfl
      (fun c hc => TokenKind.goesOn_of_isNamePart (by decide)
        (isNamePart_of_head?_starred hne hnames c hc)) hus, ?_⟩
    exact ⟨idents, _ :: ts, us, rfl, hidents, .names rfl hts, hholds⟩

/-- What stands above the bar is read as it was written. -/
theorem above_reads (hnames : ∀ name ∈ names, Spelled .identifier name.toList)
    (htail : ∀ c ∈ tail.head?, TokenKind.identifier.goesOn c = false ∧
      TokenKind.intLiteral.goesOn c = false)
    (h : Token.ReadsAs holds tail) :
    Token.ReadsAs (fun tokens => ∃ idents ts us, tokens = ts ++ us ∧
      idents.map Ident.name = names ∧ DerivesNumerator idents ts ∧ holds us)
      (literalAbove names ++ tail) := by
  intro position
  unfold literalAbove
  split
  next hnil =>
    have hone : Spelled .intLiteral ['1'] := .integer nofun (List.forall_mem_singleton.2 rfl)
    obtain ⟨us, hus, hholds⟩ := h ⟨position.row, position.column + 1⟩
    refine ⟨_, Token.ofLine_of_spelled position hone (fun c hc => (htail c hc).2) hus, ?_⟩
    exact ⟨[], [_], us, rfl, hnil.symm, .one rfl rfl, hholds⟩
  next hne =>
    obtain ⟨_, hus, idents, ts, us, rfl, hidents, hts, hholds⟩ :=
      starred_reads hne hnames (fun c hc => (htail c hc).1) h position
    exact ⟨_, hus, idents, ts, us, rfl, hidents, .names hts, hholds⟩

/-- The bars around a unit, and a semicolon behind it, are read as a unit (`DerivesUnit`) of these
names. -/
theorem literal_reads (habove : ∀ name ∈ above, Spelled .identifier name.toList)
    (hbelow : ∀ name ∈ below, Spelled .identifier name.toList) :
    Token.ReadsAs (fun tokens => ∃ e idents idents' ts semicolon, tokens = ts ++ [semicolon] ∧
      idents.map Ident.name = above ∧ idents'.map Ident.name = below ∧ DerivesUnit e ts ∧
      e.form = .unit idents idents' ∧ semicolon.kind = .semicolon)
      (literal above below) := by
  have hclosed : Token.ReadsAs (fun tokens => ∃ last semicolon, tokens = [last, semicolon] ∧
      last.kind = .pipe ∧ semicolon.kind = .semicolon) ['|', ';'] := by
    intro position
    refine ⟨_, Token.ofLine_of_mark .pipe position (by decide) rfl (fun c hc => ?_)
      (Token.ofLine_semicolon _), _, _, rfl, rfl, rfl⟩
    cases hc
    decide
  have hlast : ∀ c ∈ ['|', ';'].head?, TokenKind.identifier.goesOn c = false := by
    intro c hc
    cases hc
    decide
  have hbar : ∀ c ∈ (literalBelow below ++ ['|', ';']).head?, c = '/' ∨ c = '|' := by
    intro c hc
    unfold literalBelow at hc
    split at hc
    · cases hc
      exact .inr rfl
    · cases hc
      exact .inl rfl
  have hfirst : ∀ c ∈ (literalAbove above ++ (literalBelow below ++ ['|', ';'])).head?,
      Pattern.isNamePart c = true := by
    unfold literalAbove
    split
    · intro c hc
      cases hc
      decide
    next hne => exact isNamePart_of_head?_starred hne habove
  have hends : ∀ c ∈ (literalBelow below ++ ['|', ';']).head?,
      TokenKind.identifier.goesOn c = false ∧ TokenKind.intLiteral.goesOn c = false := by
    intro c hc
    rcases hbar c hc with rfl | rfl <;> decide
  intro position
  obtain ⟨_, hread, idents, ts, _, rfl, hidents, hts, idents', us, _, rfl, hidents', hus, last,
      semicolon, rfl, hlast, hsemicolon⟩ :=
    above_reads habove hends (below_reads hbelow hlast hclosed)
      ⟨position.row, position.column + 1⟩
  refine ⟨_, Token.ofLine_of_mark .pipe position (by decide) rfl
    (fun c hc => TokenKind.goesOn_of_isNamePart (by decide) (hfirst c hc)) hread, ?_⟩
  have hkind : (Token.placed .pipe ['|'] position).kind = .pipe := rfl
  refine ⟨_, idents, idents', _, semicolon, ?_, hidents, hidents', .unit hkind hts hus hlast, rfl,
    hsemicolon⟩
  simp only [List.cons_append, List.append_assoc, List.nil_append]

end

/-- There is no newline in what is written with names. -/
theorem newline_notMem_literal {above below : List String}
    (habove : ∀ name ∈ above, Spelled .identifier name.toList)
    (hbelow : ∀ name ∈ below, Spelled .identifier name.toList) :
    '\n' ∉ literal above below := by
  have hstarred {names : List String} (h : ∀ name ∈ names, Spelled .identifier name.toList) :
      '\n' ∉ starred names := by
    induction names with
    | nil => decide
    | cons name names ih =>
      obtain ⟨hname, hnames⟩ := List.forall_mem_cons.1 h
      rw [starred_cons, List.mem_append]
      rintro (hmem | hmem)
      · exact absurd (hname.isNamePart _ hmem) (by decide)
      · split at hmem
        · cases hmem
        · exact ih hnames ((List.mem_cons.1 hmem).resolve_left (by decide))
  have habove : '\n' ∉ literalAbove above := by
    unfold literalAbove
    split
    · decide
    · exact hstarred habove
  have hbelow : '\n' ∉ literalBelow below := by
    unfold literalBelow
    split
    · decide
    · exact List.not_mem_cons_of_ne_of_not_mem (by decide) (hstarred hbelow)
  simp [literal, habove, hbelow]

/-- A unit that is written out (`literal`) comes to the unit of its names, whatever the machine, and
leaves that as it was. -/
theorem runText_literal {above below : List String} {units : Units}
    (habove : ∀ name ∈ above, Spelled .identifier name.toList)
    (hbelow : ∀ name ∈ below, Spelled .identifier name.toList)
    (hunits : ofFactors above below = .ok units) (fuel : Nat) (m : Machine) :
    ∃ span, runText fuel (literal above below) m = (.value (some ⟨.unit units, some span⟩), m) := by
  obtain ⟨_, hread, ⟨span, _⟩, idents, idents', ts, semicolon, rfl, rfl, rfl, hts, rfl,
      hsemicolon⟩ := literal_reads habove hbelow .origin
  have hexpression : Derives nestingLimit (.expression ⟨span, .unit idents idents'⟩) ts :=
    (Derives.unit hts).expression_of_atom
  obtain ⟨_, hprogram⟩ := Block.ofText_of_expression (newline_notMem_literal habove hbelow) hread
    hexpression hsemicolon
  have hrun : Node.run fuel ⟨span, .unit idents idents'⟩ m =
      (.ok (some ⟨.unit units, some span⟩), m) := by
    rw [Node.run, Node.evaluate, hunits]
    rfl
  exact ⟨span, runText_of_expression hprogram hrun rfl⟩

/-! ## The whole -/

/-- What the unit of lists of names is (`ofFactors`): a count of them, in which nothing but the
counts matters, and what the text of the unit comes to. -/
structure CountsFactors (above below : List String) : Prop where
  /-- There is a unit, and it has every dimension (`Units.powers`) as often as the name stands above
  the bar, less how often it stands below. -/
  counted : ∃ units, ofFactors above below = .ok units ∧
    ∀ name, units.powers name = (above.count name : Int) - (below.count name : Int)
  /-- The order of the names, above and below the bar, is of no account: `ofFactors` makes the same
  unit. -/
  reordered {above' below' : List String} : above'.Perm above → below'.Perm below →
    ofFactors above' below' = ofFactors above below
  /-- A name that is put in on both sides, wherever it is put, makes no difference: the same unit is
  made. -/
  cancelled {name : String} {above' below' : List String} : above'.Perm (name :: above) →
    below'.Perm (name :: below) → above'.length < 2 ^ 63 → below'.length < 2 ^ 63 →
    ofFactors above' below' = ofFactors above below
  /-- The unit is what its text (`literal`) comes to on every machine, if the names are identifiers
  of the language (`Spelled`). -/
  read : (∀ name ∈ above, Spelled .identifier name.toList) →
    (∀ name ∈ below, Spelled .identifier name.toList) → ∀ fuel m, ∃ units span,
      ofFactors above below = .ok units ∧
        runText fuel (literal above below) m = (.value (some ⟨.unit units, some span⟩), m)

/-- The unit of lists of names counts them (`CountsFactors`), as long as both lists are shorter than
the range of exponents. -/
theorem countsFactors (above below : List String) (habove : above.length < 2 ^ 63)
    (hbelow : below.length < 2 ^ 63) : CountsFactors above below where
  counted := by
    obtain ⟨units, hunits⟩ := exists_ofFactors habove hbelow
    exact ⟨units, hunits, congrFun (powers_ofFactors hunits)⟩
  reordered ha hb := by
    refine ofFactors_congr (ha.length_eq ▸ habove) (hb.length_eq ▸ hbelow) habove hbelow ?_
    rw [tally_perm ha, tally_perm hb]
  cancelled ha hb hlength hlength' := by
    refine ofFactors_congr hlength hlength' habove hbelow ?_
    rw [tally_perm ha, tally_perm hb, tally_cons, tally_cons, add_sub_add_right_eq_sub]
  read ha hb fuel m := by
    obtain ⟨units, hunits⟩ := exists_ofFactors habove hbelow
    obtain ⟨span, hrun⟩ := runText_literal ha hb hunits fuel m
    exact ⟨units, span, hunits, hrun⟩

/-- A newton is read from its text, and made by `ofFactors` in another order with a second too many
on both sides. -/
theorem newton_countsFactors :
    literal ["kg", "m"] ["s", "s"] = "|kg*m/s*s|;".toList ∧
      ofFactors ["s", "m", "kg"] ["s", "s", "s"] = ofFactors ["kg", "m"] ["s", "s"] ∧
      ∀ fuel m, ∃ units span, ofFactors ["kg", "m"] ["s", "s"] = .ok units ∧
        runText fuel (literal ["kg", "m"] ["s", "s"]) m =
          (.value (some ⟨.unit units, some span⟩), m) := by
  have h := countsFactors ["kg", "m"] ["s", "s"] (by decide) (by decide)
  have hfree : ∀ kind ∈ TokenKind.words,
      kind.text.toList ≠ ['k', 'g'] ∧ kind.text.toList.length ≠ 1 := by decide
  have hletter (c : Char) (hc : Pattern.isNameStart c = true) : Spelled .identifier [c] :=
    .name hc nofun fun ⟨kind, hkind, h⟩ => (hfree kind hkind).2 (congrArg List.length h)
  have hkilogram : Spelled .identifier ['k', 'g'] :=
    .name rfl (List.forall_mem_singleton.2 rfl) fun ⟨kind, hkind, h⟩ => (hfree kind hkind).1 h
  have habove : ["s", "m", "kg"].Perm ("s" :: ["kg", "m"]) := by decide
  refine ⟨by decide, h.cancelled habove (.refl _) (by decide) (by decide), h.read ?_ ?_⟩
  · exact List.forall_mem_cons.2 ⟨hkilogram, List.forall_mem_singleton.2 (hletter 'm' rfl)⟩
  · exact List.forall_mem_cons.2 ⟨hletter 's' rfl, List.forall_mem_singleton.2 (hletter 's' rfl)⟩

end Units

end UnitScript
