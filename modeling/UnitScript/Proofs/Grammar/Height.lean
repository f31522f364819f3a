import Mathlib.Order.MinMax
import UnitScript.Proofs.Grammar.RoundTrip
import UnitScript.Proofs.Places.Splitting
import UnitScript.Proofs.Token.Relexing

/-!
# The height of programs

Every walk through a program recurses as deep as its tree is high. `nestingLimit` counts the levels
that brackets, blocks, signs and the like open, and where `n` levels are left these alone can make
a tree no higher than a multiple of `n`. Besides them, an operator lies above all operators to the
left of it in its chain, for which the parser opens no level. So the height of a program is bounded
by the limit and the longest of its chains together (`Block.height_of_ofText`), and not by the limit
alone: a sum is as high as it is long (`sumText_read`).
-/

namespace UnitScript

/-! ## Measures of trees -/

mutual

/-- How many nodes and blocks lie one inside the other in a tree, which is what recursion over it
goes through, such as `Node.evaluate`. -/
def Node.height : Node → Nat
  | ⟨_, form⟩ => form.height + 1

/-- The height of what a form is made of: that of the highest part, or zero for a leaf
(`Node.height`). -/
def Form.height : Form → Nat
  | .int _ | .double _ | .string _ | .bool _ | .unit .. | .variable _
  | .returnNothing | .breakLoop | .continueLoop => 0
  | .phys magnitude unit => max magnitude.height unit.height
  | .unary _ operand => operand.height
  | .binary _ left right => max left.height right.height
  | .assign _ _ value => value.height
  | .ifElse alternatives => alternatives.height
  | .whileLoop condition body => max condition.height body.height
  | .function _ _ _ body => body.height
  | .call _ args => Node.maxHeight args
  | .returnValue value => value.height
  | .block block => block.height

/-- The height (`Node.height`) of the highest of several nodes, and zero if there are none. -/
def Node.maxHeight : List Node → Nat
  | [] => 0
  | node :: nodes => max node.height (Node.maxHeight nodes)

/-- The height of a block with its statements (`Node.maxHeight`). -/
def Block.height : Block → Nat
  | ⟨_, items⟩ => Node.maxHeight items + 1

/-- The height of the highest of the alternatives, conditions and blocks alike (`Block.height`). -/
def Alternatives.height : Alternatives → Nat
  | .none => 0
  | .otherwise block => block.height
  | .case condition body others => max (max condition.height body.height) others.height

end

/-- How many binary operators come one after the other down the left side of a tree, where
`Parser.chain` has joined operands in a loop. -/
def Node.chain : Node → Nat
  | ⟨_, .binary _ left _⟩ => left.chain + 1
  | _ => 0

mutual

/-- The longest chain of binary operators (`Node.chain`) in a tree, at whatever depth. -/
def Node.longestChain : Node → Nat
  | ⟨span, form⟩ => max (Node.chain ⟨span, form⟩) form.longestChain

/-- The longest chain (`Node.chain`) inside a form. -/
def Form.longestChain : Form → Nat
  | .int _ | .double _ | .string _ | .bool _ | .unit .. | .variable _
  | .returnNothing | .breakLoop | .continueLoop => 0
  | .phys magnitude unit => max magnitude.longestChain unit.longestChain
  | .unary _ operand => operand.longestChain
  | .binary _ left right => max left.longestChain right.longestChain
  | .assign _ _ value => value.longestChain
  | .ifElse alternatives => alternatives.longestChain
  | .whileLoop condition body => max condition.longestChain body.longestChain
  | .function _ _ _ body => body.longestChain
  | .call _ args => Node.maxChain args
  | .returnValue value => value.longestChain
  | .block block => block.longestChain

/-- The longest chain in several nodes (`Node.longestChain`). -/
def Node.maxChain : List Node → Nat
  | [] => 0
  | node :: nodes => max node.longestChain (Node.maxChain nodes)

/-- The longest chain in the statements of a block (`Node.longestChain`). -/
def Block.longestChain : Block → Nat
  | ⟨_, items⟩ => Node.maxChain items

/-- The longest chain in alternatives, conditions and blocks alike (`Block.longestChain`). -/
def Alternatives.longestChain : Alternatives → Nat
  | .none => 0
  | .otherwise block => block.longestChain
  | .case condition body others =>
    max (max condition.longestChain body.longestChain) others.longestChain

end

/-- The chain at the root of a tree (`Node.chain`) is one of its chains. -/
theorem Node.chain_le_longestChain (e : Node) : e.chain ≤ e.longestChain := by
  obtain ⟨span, form⟩ := e
  rw [Node.longestChain]
  exact Nat.le_max_left _ _

/-- Where a node stands does not count for its height (`Node.height`). -/
theorem Node.height_moved (e : Node) (span : Span) : Node.height ⟨span, e.form⟩ = e.height := by
  cases e
  rfl

/-- Where a node stands does not count for its chains (`Node.longestChain`). -/
theorem Node.longestChain_moved (e : Node) (span : Span) :
    Node.longestChain ⟨span, e.form⟩ = e.longestChain := by
  cases e with
  | mk _ form => cases form <;> rfl

/-- All operators of a chain (`Node.chain`) lie above its first operand. -/
theorem Node.chain_lt_height (e : Node) : e.chain < e.height := by
  fun_induction Node.chain e with
  | case1 span op left right ih =>
    simp only [Node.height, Form.height]
    omega
  | case2 e =>
    obtain ⟨span, form⟩ := e
    exact Nat.succ_pos form.height

mutual

/-- A tree is no lower than its chains: by induction on the tree, with `Node.chain_lt_height` at its
root. -/
theorem Node.longestChain_le_height : (e : Node) → e.longestChain ≤ e.height
  | ⟨span, form⟩ => Nat.max_le.2 ⟨Nat.le_of_lt (Node.chain_lt_height ⟨span, form⟩),
    Nat.le_succ_of_le form.longestChain_le_height⟩

/-- A form is no lower than the chains inside it (`Form.height`). -/
theorem Form.longestChain_le_height : (form : Form) → form.longestChain ≤ form.height
  | .int _ | .double _ | .string _ | .bool _ | .unit .. | .variable _
  | .returnNothing | .breakLoop | .continueLoop => Nat.le_refl 0
  | .phys magnitude unit =>
    max_le_max magnitude.longestChain_le_height unit.longestChain_le_height
  | .binary _ left right => max_le_max left.longestChain_le_height right.longestChain_le_height
  | .unary _ e | .assign _ _ e | .returnValue e => e.longestChain_le_height
  | .ifElse alternatives => alternatives.longestChain_le_height
  | .whileLoop condition body =>
    max_le_max condition.longestChain_le_height (Nat.le_of_lt body.longestChain_lt_height)
  | .function _ _ _ body | .block body => Nat.le_of_lt body.longestChain_lt_height
  | .call _ args => Node.maxChain_le_maxHeight args

/-- The highest of several nodes (`Node.maxHeight`) is no lower than their chains. -/
theorem Node.maxChain_le_maxHeight : (es : List Node) → Node.maxChain es ≤ Node.maxHeight es
  | [] => Nat.le_refl 0
  | e :: es => max_le_max e.longestChain_le_height (Node.maxChain_le_maxHeight es)

/-- A block is higher than its chains, as it is one higher than its statements (`Block.height`). -/
theorem Block.longestChain_lt_height : (b : Block) → b.longestChain < b.height
  | ⟨_, items⟩ => Nat.lt_succ_of_le (Node.maxChain_le_maxHeight items)

/-- Alternatives are no lower than their chains (`Alternatives.height`). -/
theorem Alternatives.longestChain_le_height : (as : Alternatives) → as.longestChain ≤ as.height
  | .none => Nat.le_refl 0
  | .otherwise block => Nat.le_of_lt block.longestChain_lt_height
  | .case condition body others =>
    max_le_max
      (max_le_max condition.longestChain_le_height (Nat.le_of_lt body.longestChain_lt_height))
      others.longestChain_le_height

end

/-! ## Measures of phrases -/

namespace Phrase

/-- The height of the trees of a phrase (`Node.height`). -/
def height : Phrase → Nat
  | atom e | signed e | chain _ e | comparison e | expression e | simple e | item e => e.height
  | arguments es | items es => Node.maxHeight es
  | case condition body => max condition.height body.height
  | others alternatives => alternatives.height
  | block b => b.height

/-- The longest chain in the trees of a phrase (`Node.longestChain`). -/
def longestChain : Phrase → Nat
  | atom e | signed e | chain _ e | comparison e | expression e | simple e | item e =>
    e.longestChain
  | arguments es | items es => Node.maxChain es
  | case condition body => max condition.longestChain body.longestChain
  | others alternatives => alternatives.longestChain
  | block b => b.longestChain

end Phrase

/-- How many tiers bind their operands more tightly (`BinaryOp.tier`). -/
def Tier.below : Tier → Nat
  | .logic => 3
  | .comparison => 2
  | .sum => 1
  | .product => 0

/-- The height that expressions and blocks may have where `n` levels are left and no chain is longer
than `c`: each level adds the chains of four tiers, and two for what opens it. -/
def levelHeight (c n : Nat) : Nat := n * (4 * c + 2)

/-- One more level allows for a chain of each of the four tiers more (`levelHeight`). -/
theorem levelHeight_succ (c n : Nat) : levelHeight c (n + 1) = levelHeight c n + (4 * c + 2) :=
  Nat.succ_mul n (4 * c + 2)

/-- The height that the trees of a phrase may have where `n` levels are left and no chain is longer
than `c`, in terms of `levelHeight` and of what the phrase itself may add. -/
def Phrase.heightBound (c n : Nat) : Phrase → Nat
  | atom _ | signed _ => levelHeight c n + 2
  | chain tier e => levelHeight c n + 2 + tier.below * c + e.chain
  | comparison _ => levelHeight c n + 2 + 3 * c
  | expression _ | arguments _ | case .. | others _ | block _ => levelHeight c n
  | simple _ | item _ | items _ => levelHeight c n + 1

/-- The operand of a tier (`Tier.operand`), as a phrase, is one tree, so it has the height of this
tree. -/
theorem Tier.height_operand (tier : Tier) (e : Node) : (tier.operand e).height = e.height := by
  cases tier <;> rfl

/-- The operand of a tier (`Tier.operand`), as a phrase, has the chains of its tree. -/
theorem Tier.longestChain_operand (tier : Tier) (e : Node) :
    (tier.operand e).longestChain = e.longestChain := by
  cases tier <;> rfl

/-- The operands of a tier may have the chains of all tiers that bind more tightly
(`Tier.below`). -/
theorem Tier.heightBound_operand {c : Nat} (n : Nat) (tier : Tier) {e : Node} (he : e.chain ≤ c) :
    (tier.operand e).heightBound c n ≤ levelHeight c n + 2 + tier.below * c := by
  cases tier <;> simp only [Tier.operand, Phrase.heightBound, Tier.below] <;> omega

/-! ## Heights of derived trees -/

/-- A number is a leaf, of `Node.height` one. -/
theorem DerivesNumber.height_eq {e : Node} {token : Token} (h : DerivesNumber e token) :
    e.height = 1 := by
  cases h <;> rfl

/-- A magnitude is a leaf, of `Node.height` one. -/
theorem DerivesMagnitude.height_eq {e : Node} {token : Token} (h : DerivesMagnitude e token) :
    e.height = 1 := by
  cases h with
  | name _ => rfl
  | number h => exact h.height_eq

/-- A unit is a leaf, of `Node.height` one. -/
theorem DerivesUnit.height_eq {e : Node} {ts : List Token} (h : DerivesUnit e ts) :
    e.height = 1 := by
  cases h
  rfl

namespace Derives

variable {c n : Nat} {tier : Tier} {e : Node}

/-- An operand of a tier is no higher than its phrase may be (`Phrase.heightBound`). -/
theorem operand_height_le (hc : e.longestChain ≤ c)
    (h : (tier.operand e).longestChain ≤ c →
      (tier.operand e).height ≤ (tier.operand e).heightBound c n) :
    e.height ≤ levelHeight c n + 2 + tier.below * c := by
  rw [Tier.longestChain_operand, Tier.height_operand] at h
  exact Nat.le_trans (h hc)
    (tier.heightBound_operand n (Nat.le_trans e.chain_le_longestChain hc))

/-- Where `n` levels are left and no chain is longer than `c`, trees are no higher than the bound of
their phrase (`Phrase.heightBound`), by induction on the derivation. -/
theorem height_le {phrase : Phrase} {ts : List Token} (h : Derives n phrase ts)
    (hc : phrase.longestChain ≤ c) : phrase.height ≤ phrase.heightBound c n := by
  induction h with
  -- Atoms. What stands in brackets keeps its height.
  | name | text | trueWord | falseWord =>
    exact Nat.le_add_left 1 (levelHeight c _ + 1)
  | number hnumber =>
    rw [Phrase.height, hnumber.height_eq]
    exact Nat.le_add_left 1 (levelHeight c _ + 1)
  | unit hunit =>
    rw [Phrase.height, hunit.height_eq]
    exact Nat.le_add_left 1 (levelHeight c _ + 1)
  | quantity hmagnitude _ hunit =>
    simp only [Phrase.height, Phrase.heightBound, Node.height, Form.height, hmagnitude.height_eq,
      hunit.height_eq]
    omega
  | group _ _ _ ih =>
    simp only [Phrase.height, Phrase.longestChain, Phrase.heightBound, Node.height_moved,
      Node.longestChain_moved] at *
    omega
  | call _ _ _ _ ih | noArguments | lastArgument _ ih | moreArguments _ _ _ ihfirst ihothers =>
    simp only [Phrase.height, Phrase.longestChain, Phrase.heightBound, Node.height, Form.height,
      Node.longestChain, Form.longestChain, Node.maxHeight, Node.maxChain] at *
    omega
  -- Operators, from the tightest to the loosest.
  | unsigned _ ih => exact ih hc
  | sign _ _ _ ih | negated _ _ ih =>
    simp only [Phrase.height, Phrase.longestChain, Phrase.heightBound, Parser.unary, Node.height,
      Form.height, Node.longestChain, Form.longestChain, levelHeight_succ] at *
    omega
  | single _ ih => exact Nat.le_add_right_of_le (operand_height_le hc ih)
  | joined _ _ _ _ ihleft ihright =>
    simp only [Phrase.height, Phrase.longestChain, Phrase.heightBound, Parser.binary, Node.height,
      Form.height, Node.longestChain, Form.longestChain, Node.chain] at *
    have hright := operand_height_le (by omega) ihright
    omega
  | @compared _ e _ _ ih | @logical _ e _ _ ih =>
    have hchain : e.chain ≤ c := Nat.le_trans e.chain_le_longestChain hc
    simp only [Phrase.height, Phrase.longestChain, Phrase.heightBound, Tier.below, levelHeight_succ]
      at *
    omega
  | assign _ _ _ ih | declare _ _ _ _ _ ih =>
    simp only [Phrase.height, Phrase.longestChain, Phrase.heightBound, Node.height, Form.height,
      Node.longestChain, Form.longestChain, levelHeight_succ] at *
    omega
  -- Blocks and statements.
  | case _ _ _ _ ihcondition ihbody | noOthers | otherwise _ _ ih
  | elseIf _ _ _ ihcase ihothers =>
    simp only [Phrase.height, Phrase.longestChain, Phrase.heightBound, Alternatives.height,
      Alternatives.longestChain] at *
    omega
  | block _ _ _ ih =>
    simp only [Phrase.height, Phrase.longestChain, Phrase.heightBound, Block.height,
      Block.longestChain, levelHeight_succ] at *
    omega
  | returnNothing | breakLoop | continueLoop => exact Nat.le_add_left 1 (levelHeight c _)
  | evaluated _ ih => exact Nat.le_succ_of_le (ih hc)
  | closed _ _ ih => exact ih hc
  | returnValue _ _ ih | ifElse _ _ _ ihcase ihothers | whileLoop _ _ ih
  | function _ _ _ _ _ _ _ _ ih | nested _ ih =>
    simp only [Phrase.height, Phrase.longestChain, Phrase.heightBound, Node.height, Form.height,
      Alternatives.height, Alternatives.longestChain, Node.longestChain, Form.longestChain] at *
    omega
  | noItems => exact Nat.zero_le _
  | moreItems _ _ ihfirst ihothers =>
    simp only [Phrase.height, Phrase.longestChain, Phrase.heightBound, Node.maxHeight,
      Node.maxChain] at *
    omega

end Derives

/-- A program is higher than the longest of its chains (`Block.longestChain`), and no higher than
this chain and the limit of levels (`Parser.nestingLimit`) allow. -/
theorem Block.height_of_ofText {text : List Char} {program : Block}
    (h : Block.ofText text = .ok program) :
    program.longestChain < program.height ∧
      program.height ≤ nestingLimit * (4 * program.longestChain + 2) + 2 := by
  refine ⟨program.longestChain_lt_height, ?_⟩
  obtain ⟨front, row, -, hread, hfront⟩ := Block.tokens_of_ofText h
  have hitems := Block.items_of_ofTokens hread hfront
  obtain ⟨span, items⟩ := program
  have hheight : Node.maxHeight items ≤ levelHeight (Node.maxChain items) nestingLimit + 1 :=
    hitems.height_le (Nat.le_refl _)
  exact Nat.succ_le_succ hheight

/-- A product of a sum in brackets and of a number: the brackets leave no node, so both operators
are in one chain (`Node.chain`). -/
def productText : List Char := "(1+2)*3;".toList

set_option maxRecDepth 2048 in
/-- In `productText`, a product and the sum to the left of it are one chain of two operators. -/
theorem productText_height : ∃ program, Block.ofText productText = .ok program ∧
    program.height = 4 ∧ program.longestChain = 2 ∧ program.longestChain < program.height ∧
      program.height ≤ nestingLimit * (4 * program.longestChain + 2) + 2 := by
  have hread : Block.ofText productText = .ok ⟨⟨⟨0, 0⟩, ⟨1, 0⟩⟩,
      [⟨⟨⟨0, 0⟩, ⟨0, 7⟩⟩, .binary .multiply
        ⟨⟨⟨0, 0⟩, ⟨0, 5⟩⟩, .binary .add ⟨⟨⟨0, 1⟩, ⟨0, 2⟩⟩, .int 1⟩ ⟨⟨⟨0, 3⟩, ⟨0, 4⟩⟩, .int 2⟩⟩
        ⟨⟨⟨0, 6⟩, ⟨0, 7⟩⟩, .int 3⟩⟩]⟩ := by
    have htokens : Token.ofText productText = .ok
        [⟨.leftParen, none, ⟨⟨0, 0⟩, ⟨0, 1⟩⟩⟩, ⟨.intLiteral, some "1", ⟨⟨0, 1⟩, ⟨0, 2⟩⟩⟩,
          ⟨.plus, none, ⟨⟨0, 2⟩, ⟨0, 3⟩⟩⟩, ⟨.intLiteral, some "2", ⟨⟨0, 3⟩, ⟨0, 4⟩⟩⟩,
          ⟨.rightParen, none, ⟨⟨0, 4⟩, ⟨0, 5⟩⟩⟩, ⟨.star, none, ⟨⟨0, 5⟩, ⟨0, 6⟩⟩⟩,
          ⟨.intLiteral, some "3", ⟨⟨0, 6⟩, ⟨0, 7⟩⟩⟩, ⟨.semicolon, none, ⟨⟨0, 7⟩, ⟨0, 8⟩⟩⟩,
          Token.atEnd 1] := by
      have hlines : Text.lines productText = ["(1+2)*3;".toList] := by decide
      simp only [Token.ofText, hlines, Token.ofLines, Token.ofLine_eq_upTo]
      rfl
    rw [Block.ofText, htokens]
    rfl
  exact ⟨_, hread, rfl, rfl, Block.height_of_ofText hread⟩

/-! ## Sums -/

namespace Token

variable {tail : List Char} {tokens : List Token}

/-- A token that is `alike` to another one is of its kind. -/
theorem kind_of_alike {a b : Token} (h : a.alike b = true) : b.kind = a.kind := by
  rw [alike, Bool.and_eq_true] at h
  exact (beq_iff_eq.1 h.1).symm

/-- A mark of one character is read by `ofLine` in front of what does not go on with it. -/
theorem ofLine_mark (position : Position) {kind : TokenKind} {c : Char}
    (hkind : kind ∈ TokenKind.marks) (htext : kind.text.toList = [c])
    (htail : ∀ d ∈ tail.head?, kind.goesOn d = false)
    (h : ofLine ⟨position.row, position.column + 1⟩ tail = .ok tokens) :
    ∃ token, token.kind = kind ∧ ofLine position (c :: tail) = .ok (token :: tokens) := by
  have hplain : ∀ kind ∈ TokenKind.marks,
      kind ≠ .blank ∧ kind ≠ .endOfText ∧ kind.bearsValue = false := by decide
  obtain ⟨hblank, hend, hvalue⟩ := hplain kind hkind
  have hread : (bare kind).ReadFrom [c] :=
    ⟨⟨hblank, hend⟩, fun h => (nomatch hvalue.symm.trans h), fun _ => ⟨rfl, htext.symm⟩⟩
  have hspelled : Spelled kind [c] := htext ▸ .mark hkind
  obtain ⟨token, halike, hline⟩ := ofLine_append position hread hspelled htail h
  exact ⟨token, kind_of_alike halike, hline⟩

/-- A lone one is read by `ofLine` in front of what does not go on with a number. -/
theorem ofLine_one (position : Position)
    (htail : ∀ d ∈ tail.head?, TokenKind.intLiteral.goesOn d = false)
    (h : ofLine ⟨position.row, position.column + 1⟩ tail = .ok tokens) :
    ∃ token, (∀ n, Derives n (.atom ⟨token.span, .int 1⟩) [token]) ∧
      ofLine position ('1' :: tail) = .ok (token :: tokens) := by
  have hread : (holding .intLiteral "1").ReadFrom ['1'] := ⟨by decide, fun _ => rfl, nofun⟩
  have hspelled : Spelled .intLiteral ['1'] := .integer nofun (List.forall_mem_singleton.2 rfl)
  obtain ⟨⟨kind, value, span⟩, halike, hline⟩ := ofLine_append position hread hspelled htail h
  cases kind_of_alike halike
  rw [alike, Bool.and_eq_true] at halike
  have hvalue : some "1" = value := beq_iff_eq.1 halike.2
  subst hvalue
  have hone : Integer.ofText? "1".toList = some 1 := by decide
  exact ⟨_, fun n => .number (@DerivesNumber.int _ ⟨.intLiteral, some "1", span⟩ rfl hone), hline⟩

end Token

/-- The text of a sum behind its first number: `k` ones, each behind its operator. -/
def summands : Nat → List Char
  | 0 => [';']
  | k + 1 => '+' :: '1' :: summands k

/-- The text of a sum of ones with `k` operators. -/
def sumText (k : Nat) : List Char := '1' :: summands k

/-- Numbers end in front of `summands`, which begin with a sign if there are any. -/
theorem goesOn_summands (k : Nat) :
    ∀ c ∈ (summands k).head?, TokenKind.intLiteral.goesOn c = false := by
  intro c hc
  cases k <;> cases hc <;> decide

/-- There are no newlines in `summands`, so they are part of one line. -/
theorem newline_notMem_summands (k : Nat) : '\n' ∉ summands k := by
  induction k with
  | zero => decide
  | succ k ih => simpa [summands] using ih

/-- Each of the `summands` puts one more operator on top of what stands to the left of it, on the
same level. -/
theorem summands_read (k : Nat) (position : Position) : ∃ ts last, last.kind = .semicolon ∧
    Token.ofLine position (summands k) = .ok (ts ++ [last]) ∧
    ∀ {n left us}, Derives n (.chain .sum left) us →
      ∃ e, Derives n (.chain .sum e) (us ++ ts) ∧ left.height + k ≤ e.height := by
  induction k generalizing position with
  | zero =>
    have hend : Token.ofLine ⟨position.row, position.column + 1⟩ [] = .ok [] := by
      rw [Token.ofLine]
    have hnone : ∀ d ∈ ([] : List Char).head?, TokenKind.semicolon.goesOn d = false := by
      intro d hd
      cases hd
    obtain ⟨last, hkind, hline⟩ := Token.ofLine_mark position (by decide) rfl hnone hend
    refine ⟨[], last, hkind, hline, fun {n left us} hleft => ⟨left, ?_, Nat.le_refl _⟩⟩
    rwa [List.append_nil]
  | succ k ih =>
    obtain ⟨ts, last, hlast, hline, hsum⟩ := ih ⟨position.row, position.column + 1 + 1⟩
    obtain ⟨one, hone, hline⟩ :=
      Token.ofLine_one ⟨position.row, position.column + 1⟩ (goesOn_summands k) hline
    have hplusEnds : ∀ d ∈ ('1' :: summands k).head?, TokenKind.plus.goesOn d = false := by
      intro d hd
      cases hd
      decide
    obtain ⟨plus, hplus, hline⟩ := Token.ofLine_mark position (by decide) rfl hplusEnds hline
    refine ⟨plus :: one :: ts, last, hlast, hline, fun {n left us} hleft => ?_⟩
    have hop : BinaryOp.ofToken? plus.kind = some .add := congrArg BinaryOp.ofToken? hplus
    obtain ⟨e, he, hheight⟩ := hsum (hleft.joined hop rfl ((hone n).operand_of_atom .sum))
    refine ⟨e, by simpa using he, ?_⟩
    simp only [Parser.binary, Node.height, Form.height] at hheight
    omega

/-- The text `sumText` is a program with all its operators one above the other: nothing limits their
number. -/
theorem sumText_read (k : Nat) :
    ∃ program, Block.ofText (sumText k) = .ok program ∧ k < program.height := by
  obtain ⟨ts, last, hlast, hline, hsum⟩ := summands_read k ⟨0, 1⟩
  obtain ⟨one, hone, hline⟩ := Token.ofLine_one .origin (goesOn_summands k) hline
  have hnewline : '\n' ∉ sumText k :=
    List.not_mem_cons_of_ne_of_not_mem (by decide) (newline_notMem_summands k)
  obtain ⟨row, htokens⟩ := Token.ofText_of_ofLine hnewline hline
  obtain ⟨e, he, hheight⟩ := hsum (.single ((hone 255).operand_of_atom .sum))
  have hitem : Derives nestingLimit (.item e) (one :: (ts ++ [last])) :=
    .closed (.evaluated he.expression_of_chain) hlast
  have hitems : Derives nestingLimit (.items [e]) (one :: (ts ++ [last])) :=
    List.append_nil (one :: (ts ++ [last])) ▸ .moreItems hitem .noItems
  have hend : (Token.atEnd row).kind = .endOfText := rfl
  obtain ⟨span, hread⟩ := Block.ofTokens_of_items hitems hend
  refine ⟨⟨span, [e]⟩, ?_, ?_⟩
  · rw [Block.ofText, htokens]
    simp only [hread]
    rfl
  · simp only [Block.height, Node.maxHeight]
    omega

/-- No height is enough for all programs that are accepted (`Block.ofText`): a sum of ones
(`sumText`) of any length is one of them. -/
theorem height_unbounded : ¬ ∃ bound, ∀ text program,
    Block.ofText text = .ok program → program.height ≤ bound := by
  rintro ⟨bound, hbound⟩
  obtain ⟨program, hread, hheight⟩ := sumText_read bound
  exact Nat.not_le.2 hheight (hbound (sumText bound) program hread)

end UnitScript
