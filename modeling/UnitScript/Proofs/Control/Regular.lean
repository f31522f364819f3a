import UnitScript.Proofs.Grammar.Sound

/-!
# Where statements stand

In the trees of programs that are read from a text, jumps and other statements stand in blocks
only, never where a value is needed. `Regular` says so for any tree; it holds for whatever the
grammar derives (`regular_of_ofTokens`). Trees that are put together by hand need not be regular.
-/

namespace UnitScript

/-- The parts of a tree that contain one another, for statements about all of them at once
(`Regular`). An expression has a value that is used, a statement need not have one. -/
inductive Part where
  | expression (e : Node)
  | arguments (es : List Node)
  | statement (e : Node)
  | items (es : List Node)
  | block (b : Block)
  | alternatives (a : Alternatives)

/-- Statements stand where they may stand: no jump (`Form.isJump`), conditional, loop, definition or
block is an operand, an argument or a condition. Hand-built trees may break this, trees from
`Block.ofTokens` do not. -/
inductive Regular : Part → Prop
  | int : Regular (.expression ⟨span, .int n⟩)
  | double : Regular (.expression ⟨span, .double x⟩)
  | string : Regular (.expression ⟨span, .string s⟩)
  | bool : Regular (.expression ⟨span, .bool b⟩)
  | unit : Regular (.expression ⟨span, .unit numerator denominator⟩)
  | phys : Regular (.expression magnitude) → Regular (.expression unit) →
      Regular (.expression ⟨span, .phys magnitude unit⟩)
  | unary : Regular (.expression e) → Regular (.expression ⟨span, .unary op e⟩)
  | binary : Regular (.expression left) → Regular (.expression right) →
      Regular (.expression ⟨span, .binary op left right⟩)
  | name : Regular (.expression ⟨span, .variable ident⟩)
  | assign : Regular (.expression e) → Regular (.expression ⟨span, .assign type ident e⟩)
  | call : Regular (.arguments es) → Regular (.expression ⟨span, .call ident es⟩)
  | noArguments : Regular (.arguments [])
  | moreArguments : Regular (.expression e) → Regular (.arguments es) →
      Regular (.arguments (e :: es))
  /-- An expression may stand for its effects. -/
  | evaluated : Regular (.expression e) → Regular (.statement e)
  | ifElse : Regular (.alternatives a) → Regular (.statement ⟨span, .ifElse a⟩)
  | whileLoop : Regular (.expression condition) → Regular (.block body) →
      Regular (.statement ⟨span, .whileLoop condition body⟩)
  | function : Regular (.block body) →
      Regular (.statement ⟨span, .function ident params returns body⟩)
  | returnNothing : Regular (.statement ⟨span, .returnNothing⟩)
  | returnValue : Regular (.expression e) → Regular (.statement ⟨span, .returnValue e⟩)
  | breakLoop : Regular (.statement ⟨span, .breakLoop⟩)
  | continueLoop : Regular (.statement ⟨span, .continueLoop⟩)
  | nested : Regular (.block b) → Regular (.statement ⟨span, .block b⟩)
  | noItems : Regular (.items [])
  | moreItems : Regular (.statement e) → Regular (.items es) → Regular (.items (e :: es))
  | block : Regular (.items es) → Regular (.block ⟨span, es⟩)
  | none : Regular (.alternatives .none)
  | otherwise : Regular (.block b) → Regular (.alternatives (.otherwise b))
  | case : Regular (.expression condition) → Regular (.block body) →
      Regular (.alternatives others) → Regular (.alternatives (.case condition body others))

/-! ## Parts of regular trees -/

namespace Regular

variable {span : Span} {e : Node} {es : List Node} {b : Block}

/-- The magnitude and the unit of a quantity are expressions (`Part.expression`). -/
theorem phys_parts {u : Node} (h : Regular (.statement ⟨span, .phys e u⟩)) :
    Regular (.expression e) ∧ Regular (.expression u) := by
  cases h with
  | evaluated h =>
    cases h with
    | phys he hu => exact ⟨he, hu⟩

/-- An operand of a `UnaryOp` is an expression, -/
theorem unary_part {op : UnaryOp} (h : Regular (.statement ⟨span, .unary op e⟩)) :
    Regular (.expression e) := by
  cases h with
  | evaluated h =>
    cases h with
    | unary he => exact he

/-- and so are two of a `BinaryOp`. -/
theorem binary_parts {op : BinaryOp} {l r : Node}
    (h : Regular (.statement ⟨span, .binary op l r⟩)) :
    Regular (.expression l) ∧ Regular (.expression r) := by
  cases h with
  | evaluated h =>
    cases h with
    | binary hl hr => exact ⟨hl, hr⟩

/-- What is assigned is an expression, -/
theorem assign_part {type : Option TypeName} {ident : Ident}
    (h : Regular (.statement ⟨span, .assign type ident e⟩)) : Regular (.expression e) := by
  cases h with
  | evaluated h =>
    cases h with
    | assign he => exact he

/-- and so are arguments, -/
theorem call_parts {ident : Ident} (h : Regular (.statement ⟨span, .call ident es⟩)) :
    Regular (.arguments es) := by
  cases h with
  | evaluated h =>
    cases h with
    | call hes => exact hes

/-- and what is returned. -/
theorem returnValue_part (h : Regular (.statement ⟨span, .returnValue e⟩)) :
    Regular (.expression e) := by
  cases h with
  | evaluated h => cases h
  | returnValue he => exact he

/-- The alternatives of an `if` are regular (`Part.alternatives`). -/
theorem ifElse_part {a : Alternatives} (h : Regular (.statement ⟨span, .ifElse a⟩)) :
    Regular (.alternatives a) := by
  cases h with
  | evaluated h => cases h
  | ifElse ha => exact ha

/-- The condition of a loop is an expression, and its body a regular block (`Part.block`). -/
theorem whileLoop_parts {condition : Node}
    (h : Regular (.statement ⟨span, .whileLoop condition b⟩)) :
    Regular (.expression condition) ∧ Regular (.block b) := by
  cases h with
  | evaluated h => cases h
  | whileLoop hc hb => exact ⟨hc, hb⟩

/-- A block inside another one is regular. -/
theorem nested_part (h : Regular (.statement ⟨span, .block b⟩)) : Regular (.block b) := by
  cases h with
  | evaluated h => cases h
  | nested hb => exact hb

/-- Each argument is an expression: arguments are where a `break` must not stand. -/
theorem arguments_parts (h : Regular (.arguments (e :: es))) :
    Regular (.expression e) ∧ Regular (.arguments es) := by
  cases h with
  | moreArguments he hes => exact ⟨he, hes⟩

/-- Each statement is regular (`Part.statement`), on its own. -/
theorem items_parts (h : Regular (.items (e :: es))) :
    Regular (.statement e) ∧ Regular (.items es) := by
  cases h with
  | moreItems he hes => exact ⟨he, hes⟩

/-- The statements of a block are regular, -/
theorem block_part (h : Regular (.block b)) : Regular (.items b.items) := by
  cases h with
  | block hes => exact hes

/-- and so is the block of an `else`. -/
theorem otherwise_part (h : Regular (.alternatives (.otherwise b))) : Regular (.block b) := by
  cases h with
  | otherwise hb => exact hb

/-- The condition of a case is an expression, and what follows it is regular. -/
theorem case_parts {condition : Node} {others : Alternatives}
    (h : Regular (.alternatives (.case condition b others))) :
    Regular (.expression condition) ∧ Regular (.block b) ∧ Regular (.alternatives others) := by
  cases h with
  | case hc hb ho => exact ⟨hc, hb, ho⟩

end Regular

/-! ## Derived trees -/

/-- The trees of a phrase of the grammar (`Phrase`) are regular. -/
def Phrase.Regular : Phrase → Prop
  | .atom e | .signed e | .chain _ e | .comparison e | .expression e =>
    UnitScript.Regular (.expression e)
  | .arguments es => UnitScript.Regular (.arguments es)
  | .case condition body =>
    UnitScript.Regular (.expression condition) ∧ UnitScript.Regular (.block body)
  | .others alternatives => UnitScript.Regular (.alternatives alternatives)
  | .block b => UnitScript.Regular (.block b)
  | .simple e | .item e => UnitScript.Regular (.statement e)
  | .items es => UnitScript.Regular (.items es)

/-- A regular expression stays regular at another place: `Regular` does not look at spans. -/
theorem Regular.replace {e : Node} (h : Regular (.expression e)) (span : Span) :
    Regular (.expression ⟨span, e.form⟩) := by
  cases h with
  | int => exact .int
  | double => exact .double
  | string => exact .string
  | bool => exact .bool
  | unit => exact .unit
  | phys hm hu => exact .phys hm hu
  | unary he => exact .unary he
  | binary hl hr => exact .binary hl hr
  | name => exact .name
  | assign he => exact .assign he
  | call hes => exact .call hes

/-- A number (`DerivesNumber`) is a regular expression. -/
theorem DerivesNumber.regular {e : Node} {token : Token} (h : DerivesNumber e token) :
    Regular (.expression e) := by
  cases h with
  | int => exact .int
  | double => exact .double

/-- A magnitude (`DerivesMagnitude`) is a regular expression, a number or a name. -/
theorem DerivesMagnitude.regular {e : Node} {token : Token} (h : DerivesMagnitude e token) :
    Regular (.expression e) := by
  cases h with
  | name => exact .name
  | number hnumber => exact hnumber.regular

/-- A unit (`DerivesUnit`) is a regular expression without parts. -/
theorem DerivesUnit.regular {e : Node} {ts : List Token} (h : DerivesUnit e ts) :
    Regular (.expression e) := by
  cases h with
  | unit => exact .unit

/-- What is derived (`Derives`) is regular, by induction on the derivation. -/
theorem Derives.regular {n : Nat} {p : Phrase} {ts : List Token} (h : Derives n p ts) :
    p.Regular := by
  induction h with
  | name => exact .name
  | number hnumber => exact hnumber.regular
  | quantity hmagnitude _ hunit => exact .phys hmagnitude.regular hunit.regular
  | unit hunit => exact hunit.regular
  | text => exact .string
  | trueWord | falseWord => exact .bool
  | group _ _ _ ih => exact Regular.replace ih _
  | call _ _ _ _ ih => exact .call ih
  | noArguments => exact .noArguments
  | lastArgument _ ih => exact .moreArguments ih .noArguments
  | moreArguments _ _ _ ih ihs => exact .moreArguments ih ihs
  | unsigned _ ih | compared _ ih | logical _ ih => exact ih
  | sign _ _ _ ih | negated _ _ ih => exact .unary ih
  | @single _ _ tier _ _ ih =>
    cases tier with
    | logic | comparison | sum | product => exact ih
  | @joined _ tier _ _ _ _ _ _ _ _ _ _ ih ihs =>
    cases tier with
    | logic | comparison | sum | product => exact .binary ih ihs
  | assign _ _ _ ih | declare _ _ _ _ _ ih => exact .assign ih
  | case _ _ _ _ ih ihs => exact ⟨ih, ihs⟩
  | noOthers => exact .none
  | otherwise _ _ ih => exact .otherwise ih
  | elseIf _ _ _ ih ihs => exact .case ih.1 ih.2 ihs
  | block _ _ _ ih => exact .block ih
  | returnValue _ _ ih => exact .returnValue ih
  | returnNothing => exact .returnNothing
  | breakLoop => exact .breakLoop
  | continueLoop => exact .continueLoop
  | evaluated _ ih => exact .evaluated ih
  | closed _ _ ih => exact ih
  | ifElse _ _ _ ih ihs => exact .ifElse (.case ih.1 ih.2 ihs)
  | whileLoop _ _ ih => exact .whileLoop ih.1 ih.2
  | function _ _ _ _ _ _ _ _ ih => exact .function ih
  | nested _ ih => exact .nested ih
  | noItems => exact .noItems
  | moreItems _ _ ih ihs => exact .moreItems ih ihs

/-- Programs that are read from tokens are regular, since they are derived
(`Block.ofTokens_eq_ok_iff`). -/
theorem Block.regular_of_ofTokens {tokens : List Token} {program : Block}
    (h : Block.ofTokens tokens = .ok program) : Regular (.block program) := by
  cases Block.derivedFrom_of_ofTokens h with
  | program hes _ _ => exact .block hes.regular

end UnitScript
