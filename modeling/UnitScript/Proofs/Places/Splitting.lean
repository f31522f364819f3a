import UnitScript.Proofs.Grammar.Complete
import UnitScript.Proofs.Machine
import UnitScript.Proofs.Places.Evaluation
import UnitScript.Proofs.Places.Parser
import UnitScript.Proofs.Token.Lines

/-!
# Splitting programs

Two texts that are programs are one program if a newline joins them, and that program has the
statements of both. To run it is to run the first and then, unless that fails or returns, the
second on the machine that the first leaves behind, except that what the second text says stands
further down (`splitting`).

Where something comes from is told by marks. A place is marked by making its column even, if it was
known before the second text was read, and odd if it is in that text; `Position.settle` takes the
marks off. The evaluator hands places on as they are, so a run that begins with marked places ends
with marked places.
-/

namespace UnitScript

/-! ## Reading two texts as one -/

/-- Statements can be put behind others: a derivation of each (`Derives`) makes one of both. -/
theorem Derives.items_append {n : Nat} {as bs : List Node} {ts us : List Token}
    (has : Derives n (.items as) ts) (hbs : Derives n (.items bs) us) :
    Derives n (.items (as ++ bs)) (ts ++ us) := by
  induction as generalizing ts with
  | nil =>
    cases has
    exact hbs
  | cons a as ih =>
    cases has with
    | moreItems ha has =>
      rw [List.append_assoc]
      exact .moreItems ha (ih has)

/-- Where a list is cut at the only place of a kind, that is its end. -/
theorem Token.cut_at_end {front ts rest : List Token} {last final : Token}
    (h : ts ++ last :: rest = front ++ [final]) (hlast : last.kind = .endOfText)
    (hfront : ∀ token ∈ front, token.kind ≠ .endOfText) : ts = front := by
  rcases List.append_eq_append_iff.1 h with ⟨others, rfl, hothers⟩ | ⟨others, rfl, hothers⟩
  · cases others with
    | nil => exact (List.append_nil ts).symm
    | cons token others =>
      obtain ⟨rfl, -⟩ := List.cons_eq_cons.1 hothers
      exact absurd hlast (hfront last (List.mem_append_right ts List.mem_cons_self))
  · cases others with
    | nil => exact List.append_nil front
    | cons token others =>
      obtain ⟨-, hnil⟩ := List.cons_eq_cons.1 hothers
      exact absurd hnil.symm (by simp)

/-- The tokens in front of the end of a text are its statements (`Derives`), with all levels
left. -/
theorem Block.items_of_ofTokens {program : Block} {front : List Token} {final : Token}
    (h : Block.ofTokens (front ++ [final]) = .ok program)
    (hfront : ∀ token ∈ front, token.kind ≠ .endOfText) :
    Derives nestingLimit (.items program.items) front := by
  generalize htokens : front ++ [final] = tokens at h
  cases Block.derivedFrom_of_ofTokens h with
  | program hes hlast hfirst =>
    rw [← Token.cut_at_end htokens.symm hlast hfront]
    exact hes

/-- Statements in front of the end of a text are a program, which `Block.ofTokens` reads. -/
theorem Block.ofTokens_of_items {items : List Node} {front : List Token} {final : Token}
    (h : Derives nestingLimit (.items items) front) (hfinal : final.kind = .endOfText) :
    ∃ span, Block.ofTokens (front ++ [final]) = .ok ⟨span, items⟩ := by
  obtain ⟨first, others, hhead⟩ := List.exists_cons_of_ne_nil
    (List.append_ne_nil_of_right_ne_nil front (List.cons_ne_nil final []))
  exact ⟨_, Block.ofTokens_of_derivedFrom (.program h hfinal (congrArg List.head? hhead))⟩

/-- A text that is a program is read as tokens for its statements and for its end. -/
theorem Block.tokens_of_ofText {text : List Char} {program : Block}
    (h : Block.ofText text = .ok program) :
    ∃ front row, Token.ofText text = .ok (front ++ [Token.atEnd row]) ∧
      Block.ofTokens (front ++ [Token.atEnd row]) = .ok program ∧
      ∀ token ∈ front, token.kind ≠ .endOfText := by
  rw [Block.ofText] at h
  cases htokens : Token.ofText text with
  | error e =>
    rw [htokens] at h
    cases h
  | ok tokens =>
    obtain ⟨front, row, rfl, hfront⟩ := Token.exists_of_ofText htokens
    refine ⟨front, row, rfl, ?_, fun token hmem => ?_⟩
    · rw [htokens] at h
      cases hprogram : Block.ofTokens (front ++ [Token.atEnd row]) with
      | error e =>
        simp only [hprogram] at h
        cases h
      | ok other =>
        simp only [hprogram] at h
        cases h
        rfl
    · obtain ⟨lexeme, place, rest, hlexeme, -, rfl⟩ := hfront token hmem
      exact Token.lexeme?_kind_ne_endOfText hlexeme

/-- A newline joins programs: the tree has the statements of both, those of the second further down
(`Node.relocate`). -/
theorem Block.ofText_append_newline {p q : List Char} {P Q : Block}
    (hp : Block.ofText p = .ok P) (hq : Block.ofText q = .ok Q) :
    ∃ span, Block.ofText (p ++ '\n' :: q) =
      .ok ⟨span, P.items ++ Q.items.map (·.relocate (.down (p.count '\n' + 1)))⟩ := by
  obtain ⟨front, row, hptokens, hpread, hpkinds⟩ := Block.tokens_of_ofText hp
  obtain ⟨back, row', hqtokens, hqread, hqkinds⟩ := Block.tokens_of_ofText hq
  generalize hdown : Position.down (p.count '\n' + 1) = down
  have htokens : Token.ofText (p ++ '\n' :: q) =
      .ok (front ++ (back.map (·.relocate down) ++ [(Token.atEnd row').relocate down])) := by
    rw [Token.ofText_append_newline, hptokens, hqtokens, hdown]
    show Except.ok _ = Except.ok _
    rw [List.dropLast_concat, List.map_append, List.map_singleton]
  have hback : Derives nestingLimit (.items (Q.items.map (·.relocate down)))
      (back.map (·.relocate down)) := by
    have hmoved := Block.ofTokens_relocate_of_ok (f := down) hqread
    rw [List.map_append, List.map_singleton] at hmoved
    have hkinds : ∀ token ∈ back.map (·.relocate down), token.kind ≠ .endOfText := by
      intro token hmem
      obtain ⟨other, hother, rfl⟩ := List.mem_map.1 hmem
      exact hqkinds other hother
    rw [← Block.items_relocate]
    exact Block.items_of_ofTokens hmoved hkinds
  have hend : ((Token.atEnd row').relocate down).kind = .endOfText := rfl
  obtain ⟨span, hread⟩ := Block.ofTokens_of_items
    ((Block.items_of_ofTokens hpread hpkinds).items_append hback) hend
  rw [List.append_assoc] at hread
  refine ⟨span, ?_⟩
  rw [Block.ofText, htokens]
  simp only [hread]
  rfl

/-! ## Running one program after another -/

/-- Statements are run after others unless those come to a signal (`interrupts`), which ends the
whole row. -/
theorem Node.evaluateItems_append {rounds : Nat} {run : Caller} (as bs : List Node)
    {last : Option Located} (hlast : interrupts last = false) :
    Node.evaluateItems rounds run last (as ++ bs) = (do
      let result ← Node.evaluateItems rounds run last as
      if interrupts result then return result
      else Node.evaluateItems rounds run result bs) := by
  induction as generalizing last with
  | nil =>
    rw [List.nil_append, Node.evaluateItems, pure_bind, hlast]
    rfl
  | cons a as ih =>
    rw [List.cons_append, Node.evaluateItems, Node.evaluateItems, bind_assoc]
    refine congrArg (_ >>= ·) (funext fun result => ?_)
    cases hresult : interrupts result with
    | true =>
      simp only [if_true, pure_bind, hresult]
    | false =>
      simp only [Bool.false_eq_true, if_false]
      exact ih hresult

namespace Block

variable {P : Block} {bs : List Node} {span : Span} {fuel : Nat} {m m' : Machine}
  {result : Option Located}

/-- Whether the statements of a program come to a return (`Value.returning`), which ends the program
with what is returned. -/
def Returns (program : Block) (fuel : Nat) (m : Machine) : Prop :=
  ∃ payload span, (program.evaluate fuel (callWithin fuel) m).1 =
    .ok (some ⟨.returning payload, span⟩)

/-- Programs of the same statements run alike. -/
theorem run_congr {a b : Block} (h : a.items = b.items) : a.run fuel = b.run fuel := by
  obtain ⟨_, items⟩ := a
  obtain ⟨_, items'⟩ := b
  cases h
  rfl

/-- The statements of one program and then those of another. -/
theorem evaluate_append :
    (⟨span, P.items ++ bs⟩ : Block).evaluate fuel (callWithin fuel) = (do
      let result ← P.evaluate fuel (callWithin fuel)
      if interrupts result then return result
      else Node.evaluateItems fuel (callWithin fuel) result bs) := by
  obtain ⟨_, as⟩ := P
  exact Node.evaluateItems_append as bs rfl

/-- A program whose statements come to no signal gives back what the last of them came to. -/
theorem run_of_evaluate (h : P.evaluate fuel (callWithin fuel) m = (.ok result, m'))
    (hresult : interrupts result = false) : P.run fuel m = (.ok result, m') := by
  have hgive : Eval.ofBody (fun result => return result) result m' = (.ok result, m') := by
    cases result with
    | none => rfl
    | some v =>
      have hsignal : v.value.isSignal = false := hresult
      have hkind : v.value.kind ≠ .returning := fun hkind => by
        rw [Value.isSignal, hkind] at hsignal
        cases hsignal
      rw [Eval.ofBody_some hkind, hsignal]
      rfl
  rw [run_eq]
  unfold Eval.traced
  rw [Eval.bind_of_ok h, hgive]

/-- A program that has a result but does not return gives back what the last of its statements
came to. -/
theorem evaluate_of_run (h : P.run fuel m = (.ok result, m')) (hreturns : ¬ P.Returns fuel m) :
    P.evaluate fuel (callWithin fuel) m = (.ok result, m') ∧ interrupts result = false := by
  rw [run_eq, Eval.traced_eq_ok, Eval.bind_eq_ok] at h
  obtain ⟨other, mid, hevaluate, hgive⟩ := h
  cases other with
  | none =>
    cases hgive
    exact ⟨hevaluate, rfl⟩
  | some v =>
    have hkind : v.value.kind ≠ .returning := by
      obtain ⟨value, site⟩ := v
      intro hkind
      cases value with
      | returning payload => exact hreturns ⟨payload, site, congrArg Prod.fst hevaluate⟩
      | number n => cases n <;> cases hkind
      | _ => cases hkind
    rw [Eval.ofBody_some hkind] at hgive
    split at hgive
    · cases hgive
    · next hsignal =>
      cases hgive
      exact ⟨hevaluate, Bool.not_eq_true _ ▸ hsignal⟩

/-- What follows a program that has no result, or one that interrupts it (`interrupts`), is not
run. -/
theorem run_append_of_interrupted
    (h : ∀ result m', P.evaluate fuel (callWithin fuel) m = (.ok result, m') →
      interrupts result = true) :
    (⟨span, P.items ++ bs⟩ : Block).run fuel m = P.run fuel m := by
  rw [run_eq, run_eq]
  refine Eval.traced_congr (Eval.bind_congr_at ?_ fun _ _ _ => rfl)
  rw [evaluate_append]
  rcases hevaluate : P.evaluate fuel (callWithin fuel) m with ⟨result | e | _, m'⟩
  · rw [Eval.bind_of_ok hevaluate, if_pos (h result m' hevaluate)]
    rfl
  · exact Eval.bind_of_fault hevaluate
  · exact Eval.bind_of_outOfFuel hevaluate

/-- What follows a program that has no result is not run. -/
theorem run_append_of_ne_ok (h : ∀ v, (P.run fuel m).1 ≠ .ok v) :
    (⟨span, P.items ++ bs⟩ : Block).run fuel m = P.run fuel m := by
  refine run_append_of_interrupted fun result m' hevaluate => ?_
  cases hresult : interrupts result with
  | true => rfl
  | false => exact absurd (congrArg Prod.fst (run_of_evaluate hevaluate hresult)) (h result)

/-- What follows a program that returns is not run. -/
theorem run_append_of_returns (h : P.Returns fuel m) :
    (⟨span, P.items ++ bs⟩ : Block).run fuel m = P.run fuel m := by
  refine run_append_of_interrupted fun result m' hevaluate => ?_
  obtain ⟨payload, site, hreturn⟩ := h
  rw [hevaluate] at hreturn
  cases hreturn
  rfl

/-- What follows a program that has a result is run on the machine that it leaves behind, as a
program of its own. -/
theorem run_append_of_evaluate {Q : Block}
    (h : P.evaluate fuel (callWithin fuel) m = (.ok result, m'))
    (hresult : interrupts result = false) (hitems : Q.items ≠ []) :
    (⟨span, P.items ++ Q.items⟩ : Block).run fuel m = Q.run fuel m' := by
  have hlast : Node.evaluateItems fuel (callWithin fuel) result Q.items =
      Q.evaluate fuel (callWithin fuel) := by
    obtain ⟨_, items⟩ := Q
    obtain ⟨b, bs, rfl⟩ := List.exists_cons_of_ne_nil hitems
    rfl
  rw [run_eq, run_eq]
  refine Eval.traced_congr ?_
  rw [evaluate_append, bind_assoc, Eval.bind_of_ok h, hresult, ← hlast]
  rfl

end Block

/-! ## Places of two texts -/

namespace Position

/-- A place that was known before a further text was read, as one in an even column. `settle` takes
the mark off again. -/
def early (p : Position) : Position := ⟨p.row, 2 * p.column⟩

/-- A place in a further text, as one in an odd column. `settle` takes the mark off again and moves
the place down. -/
def late (p : Position) : Position := ⟨p.row, 2 * p.column + 1⟩

/-- A marked place (`early`, `late`) without its mark, where the further text stands so many rows
down. -/
def settle (rows : Nat) (p : Position) : Position :=
  ⟨if p.column % 2 = 0 then p.row else p.row + rows, p.column / 2⟩

theorem settle_early (rows : Nat) (p : Position) : p.early.settle rows = p := by
  obtain ⟨row, column⟩ := p
  simp [early, settle]

theorem settle_late (rows : Nat) (p : Position) : p.late.settle rows = p.down rows := by
  obtain ⟨row, column⟩ := p
  have hodd : (2 * column + 1) % 2 = 1 := by omega
  have hhalf : (2 * column + 1) / 2 = column := by omega
  simp [late, settle, down, hodd, hhalf]

theorem down_zero (p : Position) : p.down 0 = p := rfl

end Position

/-- The run of a program on a machine, where the places in the program are told apart from those
that the machine knows: the former are `Position.late`, the latter `Position.early`. -/
def Block.runMarked (program : Block) (fuel : Nat) (m : Machine) :
    Outcome (Option Located) × Machine :=
  (program.relocate .late).run fuel (m.relocate .early)

/-- What a marked run comes to where its program stands so many rows down (`Position.settle`). -/
def settled (rows : Nat) (run : Outcome (Option Located) × Machine) : Ending × Machine :=
  (Ending.ofOutcome (run.1.relocate (.settle rows) (Located.move (.settle rows))),
    run.2.relocate (.settle rows))

/-- The run of a program that stands further down is its marked run (`Block.runMarked`),
`settled`. -/
theorem Block.settled_runMarked (rows : Nat) (program : Block) (fuel : Nat) (m : Machine) :
    settled rows (program.runMarked fuel m) =
      (Ending.ofOutcome ((program.relocate (.down rows)).run fuel m).1,
        ((program.relocate (.down rows)).run fuel m).2) := by
  have horigin : Position.origin.settle rows = .origin := rfl
  have hrun := Block.run_relocate horigin fuel (program.relocate .late) (m.relocate .early)
  rw [Block.relocate_relocate (Position.settle_late rows),
    Machine.relocate_relocate (h := id) (Position.settle_early rows),
    Machine.relocate_id (f := id) fun _ => rfl] at hrun
  rw [hrun]
  rfl

/-! ## Running two texts as one -/

/-- How a text of two programs runs on a machine, by how the first of them runs there (`runText`).
The second one, if it is run at all, is spoken of by `Block.runMarked`, so that its own places can
be moved and others not. -/
structure Splits (p q : List Char) (P Q : Block) (fuel : Nat) (m : Machine) : Prop where
  /-- Where the first has no value, that is all: the whole text fails, or goes on, as the first one
  does. -/
  failing : (∀ v, (runText fuel p m).1 ≠ .value v) →
    runText fuel (p ++ '\n' :: q) m = runText fuel p m
  /-- Where the first comes to a return (`Block.Returns`), that is all, even though it has a
  value. -/
  returning : P.Returns fuel m → runText fuel (p ++ '\n' :: q) m = runText fuel p m
  /-- Where the second has no statements, it does nothing and the value is that of the first, while
  by itself it has none. -/
  closing : Q.items = [] → runText fuel (p ++ '\n' :: q) m = runText fuel p m ∧
    ∀ n, runText fuel q n = (.value none, n)
  /-- Otherwise the second goes on with the machine that the first leaves behind. It does what it
  does on that machine as a text of its own, but for its places, which are further down
  (`settled`). -/
  following : ∀ v, (runText fuel p m).1 = .value v → ¬ P.Returns fuel m → Q.items ≠ [] →
    runText fuel q (runText fuel p m).2 =
        settled 0 (Q.runMarked fuel (runText fuel p m).2) ∧
      runText fuel (p ++ '\n' :: q) m =
        settled (p.count '\n' + 1) (Q.runMarked fuel (runText fuel p m).2)

/-- A text that has a value has that of its program. -/
theorem Block.run_of_runText {text : List Char} {program : Block}
    (h : Block.ofText text = .ok program) {fuel : Nat} {m : Machine} {v : Option Located}
    (hv : (runText fuel text m).1 = .value v) :
    program.run fuel m = (.ok v, (runText fuel text m).2) := by
  rw [runText_of_ofText h] at hv ⊢
  rcases hrun : program.run fuel m with ⟨_ | _ | _, m'⟩ <;> rw [hrun] at hv <;> cases hv
  rfl

/-- A text of two programs runs as the first does and then, if that comes to its end without a
return, as the second (`Splits`). -/
theorem Block.splits {p q : List Char} {P Q : Block} (hp : Block.ofText p = .ok P)
    (hq : Block.ofText q = .ok Q) (fuel : Nat) (m : Machine) : Splits p q P Q fuel m := by
  obtain ⟨span, hpq⟩ := Block.ofText_append_newline hp hq
  refine ⟨fun hfail => ?_, fun hreturns => ?_, fun hnil => ⟨?_, fun n => ?_⟩,
    fun v hv hreturns hitems => ⟨?_, ?_⟩⟩
  · have hrun : ∀ v, (P.run fuel m).1 ≠ .ok v := fun v hv =>
      hfail v (by rw [runText_of_ofText hp, hv, Ending.ofOutcome])
    rw [runText_of_ofText hpq, runText_of_ofText hp, run_append_of_ne_ok hrun]
  · rw [runText_of_ofText hpq, runText_of_ofText hp, run_append_of_returns hreturns]
  · rw [runText_of_ofText hpq, runText_of_ofText hp, hnil, List.map_nil, List.append_nil,
      run_congr (a := ⟨span, P.items⟩) (b := P) rfl]
  · rw [runText_of_ofText hq, run_congr (b := ⟨Q.span, []⟩) hnil]
    rfl
  · rw [runText_of_ofText hq, settled_runMarked, relocate_id Position.down_zero]
  · obtain ⟨hevaluate, hresult⟩ := evaluate_of_run (run_of_runText hp hv) hreturns
    have hmoved : (Q.relocate (.down (p.count '\n' + 1))).items ≠ [] := by
      rw [items_relocate]
      exact fun hnil => hitems (List.map_eq_nil_iff.1 hnil)
    rw [runText_of_ofText hpq, settled_runMarked, ← items_relocate,
      run_append_of_evaluate hevaluate hresult hmoved]

/-- Two programs that a newline joins are one program, which has the statements of both, those of
the second further down. It runs as the first does and then, unless that fails or returns, as the
second does on the machine that the first leaves behind (`Splits`). -/
theorem splitting {p q : List Char} {P Q : Block} (hp : Block.ofText p = .ok P)
    (hq : Block.ofText q = .ok Q) :
    (∃ span, Block.ofText (p ++ '\n' :: q) =
        .ok ⟨span, P.items ++ Q.items.map (·.relocate (.down (p.count '\n' + 1)))⟩) ∧
      ∀ fuel m, Splits p q P Q fuel m :=
  ⟨Block.ofText_append_newline hp hq, Block.splits hp hq⟩

/-- The declaration of a variable. -/
def declaring : List Char := "int x = 1;".toList

/-- A statement that reads the variable. -/
def reading : List Char := "x;".toList

/-- The declaration of a variable in `declaring` and the statement that reads it in `reading` may be
one text or two. -/
theorem declaring_splitting :
    ∃ P Q, Block.ofText declaring = .ok P ∧ Block.ofText reading = .ok Q ∧
      (∃ span, Block.ofText (declaring ++ '\n' :: reading) =
        .ok ⟨span, P.items ++ Q.items.map (·.relocate (.down (declaring.count '\n' + 1)))⟩) ∧
      ∀ fuel m, Splits declaring reading P Q fuel m := by
  have hdeclaring : Block.ofText declaring = .ok ⟨⟨⟨0, 0⟩, ⟨1, 0⟩⟩,
      [⟨⟨⟨0, 0⟩, ⟨0, 9⟩⟩, .assign (some .int) ⟨"x", ⟨⟨0, 4⟩, ⟨0, 5⟩⟩⟩
        ⟨⟨⟨0, 8⟩, ⟨0, 9⟩⟩, .int 1⟩⟩]⟩ := by
    have hlines : Text.lines declaring =
        [['i', 'n', 't', ' ', 'x', ' ', '=', ' ', '1', ';']] := by decide
    simp only [Block.ofText, Token.ofText, hlines, Token.ofLines, Token.ofLine_eq_upTo]
    rfl
  have hreading : Block.ofText reading = .ok ⟨⟨⟨0, 0⟩, ⟨1, 0⟩⟩,
      [⟨⟨⟨0, 0⟩, ⟨0, 1⟩⟩, .variable ⟨"x", ⟨⟨0, 0⟩, ⟨0, 1⟩⟩⟩⟩]⟩ := by
    have hlines : Text.lines reading = [['x', ';']] := by decide
    simp only [Block.ofText, Token.ofText, hlines, Token.ofLines, Token.ofLine_eq_upTo]
    rfl
  exact ⟨_, _, hdeclaring, hreading, splitting hdeclaring hreading⟩

end UnitScript
