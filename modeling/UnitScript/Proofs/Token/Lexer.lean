import UnitScript.Proofs.Except
import UnitScript.Token.Lexer

/-!
# Tokens of a line

Every token of a line is made of a lexeme that is found at some place of it
(`Token.exists_lexeme_of_mem_ofLine`), and so it keeps a text only if its kind bears one. A carriage
return at the end of a line is blank, or part of a comment, and makes no difference to its tokens
(`Token.ofLine_append_return`).
-/

namespace UnitScript

/-! ## Lexemes -/

namespace Token

/-- A lexeme (`lexeme?`) is found by one of the rules of the table, with its length and its kind. -/
theorem exists_rule_of_lexeme? {cs : List Char} {lexeme : Lexeme} (h : lexeme? cs = some lexeme) :
    ∃ rule ∈ Rule.all, rule.length? cs = some lexeme.length ∧ rule.kind = lexeme.kind := by
  obtain ⟨rule, hmem, hrule⟩ := List.exists_of_findSome?_eq_some h
  obtain ⟨n, hn, rfl⟩ := Option.map_eq_some_iff.1 hrule
  exact ⟨rule, hmem, hn, rfl⟩

/-- No lexeme stands for the end of the text. -/
theorem lexeme?_kind_ne_endOfText {cs : List Char} {lexeme : Lexeme}
    (h : lexeme? cs = some lexeme) : lexeme.kind ≠ .endOfText := by
  have hrules : ∀ rule ∈ Rule.all, rule.kind ≠ .endOfText := by decide
  obtain ⟨rule, hmem, -, hkind⟩ := exists_rule_of_lexeme? h
  exact hkind ▸ hrules rule hmem

/-- A line is read lexeme by lexeme. -/
theorem ofLine_of_lexeme? {position : Position} {cs : List Char} {lexeme : Lexeme}
    (h : lexeme? cs = some lexeme) (hcs : cs ≠ []) :
    ofLine position cs = (do
      let tokens ← ofLine (ofLexeme lexeme position cs).span.stop (cs.drop lexeme.length)
      return if lexeme.kind = .blank then tokens else ofLexeme lexeme position cs :: tokens) := by
  obtain ⟨c, rest, rfl⟩ := List.exists_cons_of_ne_nil hcs
  rw [ofLine]
  split
  · next hnone => cases hnone.symm.trans h
  · next other hother =>
    cases hother.symm.trans h
    rfl

/-- A line that is blank to its end has no tokens. -/
theorem ofLine_of_blank {position : Position} {cs : List Char} {n : Nat}
    (h : lexeme? cs = some ⟨.blank, n⟩) (hcs : cs ≠ []) (hn : cs.length ≤ n) :
    ofLine position cs = .ok [] := by
  rw [ofLine_of_lexeme? h hcs, List.drop_of_length_le hn, ofLine]
  rfl

/-- A line is rejected where no lexeme is. -/
theorem ofLine_of_none {position : Position} {c : Char} {rest : List Char}
    (h : lexeme? (c :: rest) = none) : ofLine position (c :: rest) = .error ⟨c, position⟩ := by
  rw [ofLine]
  split
  · rfl
  · next lexeme hlexeme => cases hlexeme.symm.trans h

/-- What holds of the end of a line, and in front of every lexeme if it holds behind that, holds of
every line. This is the recursion of `Token.ofLine` as a principle of induction. -/
theorem line_induction {motive : List Char → Prop} (nil : motive [])
    (none : ∀ c rest, lexeme? (c :: rest) = none → motive (c :: rest))
    (some : ∀ cs lexeme, cs ≠ [] → lexeme? cs = some lexeme → motive (cs.drop lexeme.length) →
      motive cs) (cs : List Char) : motive cs := by
  induction hlength : cs.length using Nat.strongRecOn generalizing cs with
  | ind n ih =>
    cases cs with
    | nil => exact nil
    | cons c rest =>
      cases h : lexeme? (c :: rest) with
      | none => exact none c rest h
      | some lexeme =>
        refine some _ lexeme (List.cons_ne_nil c rest) h (ih _ ?_ _ rfl)
        have hpos := lexeme?_length_pos h
        rw [List.length_drop, ← hlength, List.length_cons]
        omega

/-- The tokens on the rest of a line, read in a bounded number of steps: a definition that can be
evaluated, while `ofLine` recurs on the length that is left. -/
def ofLineUpTo : Nat → Position → List Char → Except LexError (List Token)
  | _, _, [] => .ok []
  | 0, position, c :: _ => .error ⟨c, position⟩
  | n + 1, position, c :: rest =>
    match lexeme? (c :: rest) with
    | none => .error ⟨c, position⟩
    | some lexeme => do
      let token := ofLexeme lexeme position (c :: rest)
      let tokens ← ofLineUpTo n token.span.stop ((c :: rest).drop lexeme.length)
      return if lexeme.kind = .blank then tokens else token :: tokens

/-- As many steps as there are characters are enough for `ofLineUpTo` to read a line. -/
theorem ofLine_eq_upTo (position : Position) (cs : List Char) :
    ofLine position cs = ofLineUpTo cs.length position cs := by
  have hbound (n : Nat) (hn : cs.length ≤ n) : ofLine position cs = ofLineUpTo n position cs := by
    induction cs using line_induction generalizing position n with
    | nil => rw [ofLine, ofLineUpTo]
    | none c rest hnone =>
      obtain ⟨n, rfl⟩ := Nat.exists_eq_add_one.2 (Nat.lt_of_lt_of_le (Nat.succ_pos _) hn)
      rw [ofLine_of_none hnone, ofLineUpTo, hnone]
    | some cs lexeme hcs hlexeme ih =>
      obtain ⟨c, rest, rfl⟩ := List.exists_cons_of_ne_nil hcs
      obtain ⟨n, rfl⟩ := Nat.exists_eq_add_one.2 (Nat.lt_of_lt_of_le (Nat.succ_pos _) hn)
      have hpos := lexeme?_length_pos hlexeme
      have hdrop : ((c :: rest).drop lexeme.length).length ≤ n := by
        rw [List.length_drop]
        omega
      rw [ofLine_of_lexeme? hlexeme hcs, ofLineUpTo, hlexeme, ih _ n hdrop]
  exact hbound _ (Nat.le_refl _)

/-- A token of a line is made of a lexeme. -/
theorem exists_lexeme_of_mem_ofLine {position : Position} {cs : List Char} {tokens : List Token}
    (h : ofLine position cs = .ok tokens) {token : Token} (hmem : token ∈ tokens) :
    ∃ lexeme place rest, lexeme? rest = some lexeme ∧ lexeme.kind ≠ .blank ∧
      token = ofLexeme lexeme place rest := by
  induction cs using line_induction generalizing position tokens with
  | nil =>
    rw [ofLine] at h
    cases h
    cases hmem
  | none c rest hnone =>
    rw [ofLine_of_none hnone] at h
    cases h
  | some cs lexeme hcs hlexeme ih =>
    rw [ofLine_of_lexeme? hlexeme hcs] at h
    obtain ⟨others, hrest, h⟩ := Except.bind_eq_ok.1 h
    cases h
    split at hmem
    · exact ih hrest hmem
    · next hkind =>
      rcases List.mem_cons.1 hmem with rfl | hmem
      · exact ⟨lexeme, position, cs, hlexeme, hkind, rfl⟩
      · exact ih hrest hmem

end Token

/-! ## Carriage returns -/

namespace Pattern

/-- A run is no longer than the text. -/
theorem run_le (test : Char → Bool) (cs : List Char) : run test cs ≤ cs.length :=
  (List.takeWhile_sublist test).length_le

/-- A run is shorter than the text if something in it fails the test. -/
theorem run_lt {test : Char → Bool} {cs : List Char} {c : Char} (hmem : c ∈ cs)
    (hc : test c = false) : run test cs < cs.length := by
  refine Nat.lt_of_le_of_ne (run_le test cs) fun hlength => ?_
  have hall := (List.takeWhile_sublist test).eq_of_length hlength
  have htest : cs.all test = true := hall ▸ List.all_takeWhile
  exact Bool.false_ne_true (hc.symm.trans (List.all_eq_true.1 htest c hmem))

/-- A character that fails the test does not extend a run. -/
theorem run_append_of_false {test : Char → Bool} {last : Char} (h : test last = false)
    (cs : List Char) : run test (cs ++ [last]) = run test cs := by
  have hlast : [last].takeWhile test = [] := List.takeWhile_cons_of_neg (Bool.not_eq_true _ ▸ h)
  rw [run, run, List.takeWhile_append, hlast, List.append_nil]
  split
  · next hall => exact hall.symm
  · rfl

/-- A character that passes the test extends a run that reaches it. -/
theorem run_append_of_true {test : Char → Bool} {last : Char} (h : test last = true)
    (cs : List Char) :
    run test (cs ++ [last]) = if run test cs = cs.length then cs.length + 1 else run test cs := by
  have hlast : [last].takeWhile test = [last] := List.takeWhile_cons_of_pos h
  rw [run, run, List.takeWhile_append, hlast]
  split
  · exact List.length_append
  · rfl

/-- Whether a pattern takes what is left out. -/
def isVoid : Pattern → Bool
  | blanks | comment => true
  | _ => false

/-- Whether a pattern takes no carriage return at the end of a text. -/
def avoidsReturn : Pattern → Bool
  | blanks | comment => false
  | fixed text => !text.contains '\r'
  | _ => true

/-- A pattern takes no more than is there. -/
theorem length?_le {pattern : Pattern} {cs : List Char} {n : Nat}
    (h : pattern.length? cs = some n) : n ≤ cs.length := by
  unfold length? at h
  split at h
  case h_1 cs =>
    split at h
    · cases h
    · cases h
      exact run_le _ _
  case h_2 cs =>
    cases h
    have := run_le (· != '\n') cs
    simp only [List.length_cons]
    omega
  case h_3 text cs =>
    split at h
    · next hprefix =>
      cases h
      exact (List.isPrefixOf_iff_prefix.1 hprefix.2).length_le
    · cases h
  case h_4 cs =>
    split at h
    · next rest hdrop =>
      split at h
      · cases h
      · cases h
        have := run_le Char.isDigit rest
        have hlength := congrArg List.length hdrop
        rw [List.length_drop, List.length_cons] at hlength
        omega
    · cases h
  case h_5 c cs =>
    have := run_le Char.isDigit cs
    split at h
    · cases h
      simp
    · split at h
      · cases h
        simp only [List.length_cons]
        omega
      · cases h
  case h_6 =>
    split at h
    · cases h
    · cases h
      simp
  case h_7 cs =>
    split at h
    · next hquote =>
      cases h
      have hrun : run (· != '"') cs < cs.length := run_lt (List.contains_iff_mem.1 hquote) rfl
      simp only [List.length_cons]
      omega
    · cases h
  case h_8 c cs =>
    have := run_le isNamePart cs
    split at h
    · cases h
      simp only [List.length_cons]
      omega
    · cases h
  case h_9 => cases h

/-- Behind a carriage return that ends the text, a pattern that takes what is left out takes that
too. -/
theorem length?_append_return_of_isVoid {pattern : Pattern} (h : pattern.isVoid = true)
    {cs : List Char} (hcs : cs ≠ []) :
    pattern.length? (cs ++ ['\r']) =
      (pattern.length? cs).map fun n => if n = cs.length then n + 1 else n := by
  cases pattern with
  | blanks =>
    have hpos : 0 < cs.length := List.length_pos_iff.2 hcs
    have hrun : run isBlank (cs ++ ['\r']) =
        if run isBlank cs = cs.length then cs.length + 1 else run isBlank cs :=
      run_append_of_true rfl cs
    simp only [length?, hrun]
    by_cases hall : run isBlank cs = cs.length
    · rw [if_pos hall, if_neg (Nat.succ_ne_zero _), hall, if_neg (Nat.ne_of_gt hpos)]
      simp
    · rw [if_neg hall]
      split
      · rfl
      · rw [Option.map_some, if_neg hall]
  | comment =>
    match cs with
    | [c] => simp [length?]
    | c :: d :: rest =>
      by_cases hc : c = '/'
      · by_cases hd : d = '/'
        · subst hc hd
          show some (2 + run (· != '\n') (rest ++ ['\r'])) = _
          rw [run_append_of_true (by decide)]
          simp only [length?, Option.map_some, List.length_cons]
          congr 1
          split <;> split <;> omega
        · simp [length?, hd]
      · simp [length?, hc]
  | _ => cases h

/-- Any other pattern does not see it. -/
theorem length?_append_return {pattern : Pattern} (h : pattern.avoidsReturn = true)
    (cs : List Char) : pattern.length? (cs ++ ['\r']) = pattern.length? cs := by
  have hdigit (cs : List Char) : run Char.isDigit (cs ++ ['\r']) = run Char.isDigit cs :=
    run_append_of_false (by decide) cs
  have hpart (cs : List Char) : run isNamePart (cs ++ ['\r']) = run isNamePart cs :=
    run_append_of_false (by decide) cs
  cases pattern with
  | blanks | comment => cases h
  | fixed text =>
    have hreturn : '\r' ∉ text := by simpa [avoidsReturn] using h
    have hprefix : text.isPrefixOf (cs ++ ['\r']) = text.isPrefixOf cs := by
      rw [Bool.eq_iff_iff, List.isPrefixOf_iff_prefix, List.isPrefixOf_iff_prefix,
        List.prefix_concat_iff]
      refine ⟨?_, .inr⟩
      rintro (rfl | hprefix)
      · exact absurd (List.mem_append_right _ List.mem_cons_self) hreturn
      · exact hprefix
    simp only [length?, hprefix]
  | decimal =>
    have hdrop : (cs ++ ['\r']).drop (run Char.isDigit cs) =
        cs.drop (run Char.isDigit cs) ++ ['\r'] :=
      List.drop_append_of_le_length (run_le _ _)
    simp only [length?, hdigit, hdrop]
    cases cs.drop (run Char.isDigit cs) with
    | nil => rfl
    | cons c rest =>
      by_cases hc : c = '.'
      · subst hc
        simp only [List.cons_append, hdigit]
      · simp [hc]
  | integer =>
    cases cs with
    | nil => decide
    | cons c rest =>
      rw [List.cons_append, length?, length?, hdigit]
  | character =>
    match cs with
    | [] => decide
    | [a] => simp [length?]
    | [a, b] => simp [length?]
    | a :: b :: c :: rest =>
      by_cases ha : a = '\''
      · by_cases hc : c = '\''
        · subst ha hc
          rfl
        · simp [length?, hc]
      · simp [length?, ha]
  | quoted =>
    cases cs with
    | nil => decide
    | cons c rest =>
      by_cases hc : c = '"'
      · subst hc
        show (if (rest ++ ['\r']).contains '"' then
          some (run (· != '"') (rest ++ ['\r']) + 2) else none) = _
        have hcontains : (rest ++ ['\r']).contains '"' = rest.contains '"' := by simp
        rw [hcontains, run_append_of_true (by decide)]
        show _ = if rest.contains '"' then some (run (· != '"') rest + 2) else none
        split
        · next hmem =>
          have hrun : run (· != '"') rest < rest.length :=
            run_lt (List.contains_iff_mem.1 hmem) rfl
          rw [if_neg (Nat.ne_of_lt hrun)]
        · rfl
      · simp [length?, hc]
  | name =>
    cases cs with
    | nil => decide
    | cons c rest =>
      rw [List.cons_append, length?, length?, hpart]

end Pattern

namespace Rule

/-- What rules find is no longer than the text. -/
theorem length?_le {rule : Rule} {cs : List Char} {n : Nat} (h : rule.length? cs = some n) :
    n ≤ cs.length := by
  unfold length? at h
  split at h
  · cases h
  · next m hm =>
    split at h
    · cases h
    · cases h
      exact Pattern.length?_le hm

/-- Rules for blanks take what is left out, and all others avoid carriage returns. -/
theorem isVoid_or_avoidsReturn : ∀ rule ∈ all,
    (rule.kind = .blank ∧ rule.pattern.isVoid = true ∧ rule.boundary = .free) ∨
      (rule.kind ≠ .blank ∧ rule.pattern.avoidsReturn = true) := by
  decide

/-- Any text may end in a carriage return. -/
theorem rejects_return (boundary : Boundary) : boundary.rejects '\r' = false := by
  cases boundary <;> decide

/-- A rule takes the carriage return behind a text if it takes all of that as blank, and otherwise
what it takes without one. -/
theorem length?_append_return {rule : Rule} (hmem : rule ∈ all) {cs : List Char} (hcs : cs ≠ []) :
    rule.length? (cs ++ ['\r']) =
      (rule.length? cs).map fun n => if rule.kind = .blank ∧ n = cs.length then n + 1 else n := by
  rcases isVoid_or_avoidsReturn rule hmem with ⟨hkind, hvoid, hfree⟩ | ⟨hkind, havoids⟩
  · have hlength (cs : List Char) : rule.length? cs = rule.pattern.length? cs := by
      unfold length?
      cases rule.pattern.length? cs with
      | none => rfl
      | some n =>
        have hany : (cs.drop n).head?.any rule.boundary.rejects = false := by
          rw [hfree]
          cases (cs.drop n).head? <;> rfl
        simp only [hany]
        rfl
    rw [hlength, hlength, Pattern.length?_append_return_of_isVoid hvoid hcs]
    simp [hkind]
  · have hmap : (rule.length? cs).map
        (fun n => if rule.kind = .blank ∧ n = cs.length then n + 1 else n) = rule.length? cs := by
      simp [hkind]
    rw [hmap]
    unfold length?
    rw [Pattern.length?_append_return havoids]
    cases hn : rule.pattern.length? cs with
    | none => rfl
    | some n =>
      have hany : ((cs ++ ['\r']).drop n).head?.any rule.boundary.rejects =
          (cs.drop n).head?.any rule.boundary.rejects := by
        rw [List.drop_append_of_le_length (Pattern.length?_le hn)]
        cases cs.drop n with
        | nil => exact rejects_return _
        | cons c rest => rfl
      simp only [hany]

end Rule

namespace Token

/-- A lexeme is no longer than the text. -/
theorem lexeme?_length_le {cs : List Char} {lexeme : Lexeme} (h : lexeme? cs = some lexeme) :
    lexeme.length ≤ cs.length := by
  obtain ⟨rule, -, hrule, -⟩ := exists_rule_of_lexeme? h
  exact Rule.length?_le hrule

/-- In front of a text with a carriage return behind it stands the lexeme that stands there without
one, or if that is all of the text and blank, one that is longer by one. -/
theorem lexeme?_append_return {cs : List Char} (hcs : cs ≠ []) :
    lexeme? (cs ++ ['\r']) = (lexeme? cs).map fun lexeme =>
      if lexeme.kind = .blank ∧ lexeme.length = cs.length then ⟨.blank, cs.length + 1⟩
      else lexeme := by
  unfold lexeme?
  rw [List.map_findSome?]
  have hrules (rules : List Rule) (hrules : ∀ rule ∈ rules, rule ∈ Rule.all) :
      (rules.findSome? fun rule => (rule.length? (cs ++ ['\r'])).map (Lexeme.mk rule.kind)) =
        rules.findSome? (Option.map (fun lexeme =>
          if lexeme.kind = .blank ∧ lexeme.length = cs.length then ⟨.blank, cs.length + 1⟩
          else lexeme) ∘ fun rule => (rule.length? cs).map (Lexeme.mk rule.kind)) := by
    induction rules with
    | nil => rfl
    | cons rule rules ih =>
      obtain ⟨hrule, hrest⟩ := List.forall_mem_cons.1 hrules
      rw [List.findSome?_cons, List.findSome?_cons, ih hrest, Rule.length?_append_return hrule hcs]
      rw [Function.comp_apply]
      cases rule.length? cs with
      | none => rfl
      | some n =>
        simp only [Option.map_some]
        split
        · next h =>
          obtain ⟨hkind, rfl⟩ := h
          rw [hkind]
        · rfl
  exact hrules _ fun _ h => h

/-- A carriage return at the end of a line makes no difference to its tokens: it is left out as
blank, or taken into the comment that ends the line. -/
theorem ofLine_append_return (position : Position) (cs : List Char) :
    ofLine position (cs ++ ['\r']) = ofLine position cs := by
  induction cs using line_induction generalizing position with
  | nil =>
    have hblank : lexeme? ['\r'] = some ⟨.blank, 1⟩ := by decide
    rw [List.nil_append, ofLine_of_blank hblank (List.cons_ne_nil _ _) (Nat.le_refl 1), ofLine]
  | none c rest hnone =>
    have hreturn : lexeme? (c :: (rest ++ ['\r'])) = none := by
      have := lexeme?_append_return (List.cons_ne_nil c rest)
      rwa [hnone] at this
    rw [ofLine_of_none hnone, List.cons_append, ofLine_of_none hreturn]
  | some cs lexeme hcs hlexeme ih =>
    have hreturn := lexeme?_append_return hcs
    have hne : cs ++ ['\r'] ≠ [] := List.append_ne_nil_of_left_ne_nil hcs _
    rw [hlexeme, Option.map_some] at hreturn
    by_cases hall : lexeme.kind = .blank ∧ lexeme.length = cs.length
    · obtain ⟨kind, n⟩ := lexeme
      obtain ⟨rfl, rfl⟩ := hall
      rw [if_pos ⟨rfl, rfl⟩] at hreturn
      rw [ofLine_of_blank hreturn hne (by simp), ofLine_of_blank hlexeme hcs (Nat.le_refl _)]
    · have hle := lexeme?_length_le hlexeme
      have htoken : ofLexeme lexeme position (cs ++ ['\r']) = ofLexeme lexeme position cs := by
        rw [ofLexeme, ofLexeme, List.take_append_of_le_length hle]
      rw [if_neg hall] at hreturn
      rw [ofLine_of_lexeme? hreturn hne, ofLine_of_lexeme? hlexeme hcs,
        List.drop_append_of_le_length hle, htoken, ih]

end Token

end UnitScript
