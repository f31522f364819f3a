import Mathlib.Logic.Relation
import UnitScript.Proofs.Grammar.Writing
import UnitScript.Proofs.Places.Splitting
import UnitScript.Proofs.Token.Lossless

/-!
# What spans cover

A span claims a stretch of a text for a piece of the tree. `Piece.slots` is the concrete syntax of
a piece: the tokens it is written with and, between them, the smaller pieces it is made of. A
piece has an extent in a list of tokens (`Piece.Extent`) if its span runs from the start of the
first of them to the end of the last, and the tokens fill its concrete syntax, where each smaller
piece takes the tokens that its own span covers; brackets may stand around a node.

All pieces of a program that is read from a text have an extent among its tokens
(`Block.extents_of_ofText`). Since tokens come one after the other, it follows that spans are
nested as the pieces are, and that the parts of a piece are disjoint and in order.
-/

namespace UnitScript

open Relation

/-! ## The concrete syntax of trees -/

/-- One place is not behind another one. -/
instance : LE Position :=
  ⟨fun p q => p.row < q.row ∨ p.row = q.row ∧ p.column ≤ q.column⟩

/-- What has a span in a tree: names (`Ident`), nodes and blocks. -/
inductive Piece where
  | ident (name : Ident)
  | node (e : Node)
  | block (b : Block)

/-- Where a piece is written. -/
def Piece.span : Piece → Span
  | ident name => name.span
  | node e => e.span
  | block b => b.span

/-- A place in the concrete syntax of a piece, for a token or for a smaller piece. `Form.slots`
lists the places of every form. -/
inductive Slot where
  | token (test : Token → Prop)
  | piece (part : Piece)

namespace Slot

/-- A place for a token of a kind. -/
def kind (kind : TokenKind) : Slot := token (·.kind = kind)

/-- A place for a name. -/
def ident (name : Ident) : Slot := piece (.ident name)

/-- A place for a node. -/
def node (e : Node) : Slot := piece (.node e)

/-- A place for a block. -/
def block (b : Block) : Slot := piece (.block b)

/-- A place for a type. -/
def type (type : TypeName) : Slot := token fun t => TypeName.ofToken? t.kind = some type

/-- The `Piece` that has its place here, if it is not one for a token. -/
def piece? : Slot → Option Piece
  | token _ => none
  | piece part => some part

/-- Groups of places with one for a token of a kind (`TokenKind`) between any two. -/
def separated (separator : TokenKind) (groups : List (List Slot)) : List Slot :=
  [kind separator].intercalate groups

/-- Names joined by stars. -/
def factors (names : List Ident) : List Slot := separated .star (names.map fun name => [ident name])

end Slot

/-- A parameter with its type: a name, a colon and a `TypeName`. -/
def Param.slots (param : Param) : List Slot := [.ident param.ident, .kind .colon, .type param.type]

/-- The alternatives of an `if`, where a given word leads to the next case. -/
def Alternatives.slots (word : TokenKind) : Alternatives → List Slot
  | none => []
  | otherwise b => [.kind .elseWord, .block b]
  | case condition body others =>
    [.kind word, .kind .leftParen, .node condition, .kind .rightParen, .block body] ++
      others.slots .elseifWord

/-- The concrete syntax of a form: its tokens and its parts (`Slot`), in the order in which they are
written, without brackets around it. -/
def Form.slots : Form → List Slot
  | .int value => [.token fun t =>
      t.kind = .intLiteral ∧ Integer.ofText? t.lexeme.toList = some value]
  | .double value => [.token fun t =>
      t.kind = .doubleLiteral ∧ Double.ofText? t.lexeme.toList = some value]
  | .string value => [.token fun t =>
      (t.kind = .stringLiteral ∨ t.kind = .charLiteral) ∧ t.enclosed = value]
  | .bool value => [.kind (if value then .trueWord else .falseWord)]
  | .unit above below =>
    [.kind .pipe] ++ (if above = [] then [.kind .intLiteral] else Slot.factors above) ++
      (if below = [] then [] else [.kind .slash] ++ Slot.factors below) ++ [.kind .pipe]
  | .phys magnitude scale => [.node magnitude, .kind .ampersand, .node scale]
  | .unary op operand => [.token fun t => UnaryOp.ofToken? t.kind = some op, .node operand]
  | .binary op left right =>
    [.node left, .token fun t => BinaryOp.ofToken? t.kind = some op, .node right]
  | .variable name => [.ident name]
  | .assign (some type) name value => [.type type, .ident name, .kind .equal, .node value]
  | .assign none name value => [.ident name, .kind .equal, .node value]
  | .ifElse alternatives => alternatives.slots .ifWord
  | .whileLoop condition body =>
    [.kind .whileWord, .kind .leftParen, .node condition, .kind .rightParen, .block body]
  | .function name params returns body =>
    [.kind .functionWord, .ident name, .kind .leftParen] ++
      Slot.separated .comma (params.map Param.slots) ++
      [.kind .rightParen, .kind .arrow, .type returns, .block body]
  | .call callee args =>
    [.ident callee, .kind .leftParen] ++ Slot.separated .comma (args.map fun e => [.node e]) ++
      [.kind .rightParen]
  | .returnNothing => [.kind .returnWord]
  | .returnValue value => [.kind .returnWord, .node value]
  | .breakLoop => [.kind .breakWord]
  | .continueLoop => [.kind .continueWord]
  | .block b => [.block b]

/-- A statement with the semicolon that closes it, which is no part of it; there is none behind a
block (`Form.endsInBlock`). -/
def Node.itemSlots (e : Node) : List Slot :=
  .node e :: if e.form.endsInBlock then [] else [.kind .semicolon]

/-- Statements between braces, which belong to the `Block`. -/
def Block.slots (b : Block) : List Slot :=
  [.kind .leftBrace] ++ b.items.flatMap Node.itemSlots ++ [.kind .rightBrace]

/-- Statements up to the end of a text, whose token (`Token.atEnd`) belongs to the program. -/
def Block.textSlots (program : Block) : List Slot :=
  program.items.flatMap Node.itemSlots ++ [.kind .endOfText]

/-- The concrete syntax of a piece: that of its form (`Form.slots`), of its block, or a single
name. -/
def Piece.slots : Piece → List Slot
  | ident name => [.token fun t => t.kind = .identifier ∧ t.ident = name]
  | node e => e.form.slots
  | block b => b.slots

/-- The pieces that a piece is made of, in the order in which they are written (`Piece.slots`). -/
def Piece.parts (piece : Piece) : List Piece := piece.slots.filterMap Slot.piece?

/-- One piece is a part of another one (`Piece.parts`); the parts of parts are reached by
`Relation.ReflTransGen`. -/
def Piece.Holds (piece part : Piece) : Prop := part ∈ piece.parts

/-! ## Extents -/

/-- A span runs from the start of the first of some tokens to the end of the last one
(`Span.through`). -/
def Span.Spans (span : Span) (ts : List Token) : Prop :=
  ∃ first last, ts.head? = some first ∧ ts.getLast? = some last ∧
    span = first.span.through last.span

/-- Tokens fill places one after the other, where a piece takes tokens of which something holds. No
token is left over. -/
inductive Fills (holds : Piece → List Token → Prop) : List Slot → List Token → Prop
  | nil : Fills holds [] []
  | token : test token → Fills holds slots ts → Fills holds (.token test :: slots) (token :: ts)
  | piece : holds part ts → Fills holds slots us → Fills holds (.piece part :: slots) (ts ++ us)

/-- Tokens with any number of brackets around them. -/
inductive Bracketed (inner : List Token → Prop) : List Token → Prop
  | bare : inner ts → Bracketed inner ts
  | brackets : first.kind = .leftParen → Bracketed inner ts → last.kind = .rightParen →
      Bracketed inner (first :: ts ++ [last])

/-- The tokens fill the concrete syntax of a piece (`Piece.slots`), where its parts take what their
spans cover (`Span.Spans`). -/
def Piece.Filled (piece : Piece) (ts : List Token) : Prop :=
  Fills (fun part us => part.span.Spans us) piece.slots ts

/-- The span of a piece covers exactly the tokens that the piece is written with (`Piece.Filled`).
Brackets around a node are a part of it (`Bracketed`). -/
structure Piece.Extent (piece : Piece) (ts : List Token) : Prop where
  spans : piece.span.Spans ts
  filled : match piece with
    | .node _ => Bracketed piece.Filled ts
    | .ident _ | .block _ => piece.Filled ts

/-- Where all pieces of a program stand among the tokens it is read from: every `Piece` of the tree,
at whatever depth, is spoken of. -/
structure Block.Extents (program : Block) (tokens : List Token) : Prop where
  /-- The program runs from the first token to the one for the end of the text, with its statements
  in between (`Block.textSlots`). -/
  whole : program.span.Spans tokens ∧
    Fills (fun part us => part.span.Spans us) program.textSlots tokens
  /-- The span of each piece covers exactly the tokens it is written with (`Piece.Extent`), next to
  each other in the text. -/
  exact : ∀ item ∈ program.items, ∀ piece, ReflTransGen Piece.Holds (.node item) piece →
    ∃ before ts after, tokens = before ++ ts ++ after ∧ piece.Extent ts
  /-- The span of a part (`Piece.Holds`) lies within that of the whole. -/
  nested : ∀ piece part, ReflTransGen Piece.Holds (.block program) piece → piece.Holds part →
    piece.span.start ≤ part.span.start ∧ part.span.stop ≤ piece.span.stop
  /-- Of the parts of a piece (`Piece.parts`) one ends before the next one begins. -/
  ordered : ∀ piece, ReflTransGen Piece.Holds (.block program) piece →
    piece.parts.Pairwise fun a b => a.span.stop ≤ b.span.start

/-! ## Filling places -/

section
variable {span first last : Span} {ts us vs : List Token}

namespace Span.Spans

/-- A token is covered by its own span (`Token.span`). -/
theorem token (token : Token) : token.span.Spans [token] := ⟨token, token, rfl, rfl, rfl⟩

/-- From the start of some tokens to the end of later ones, whatever stands between them
(`Span.through`). -/
theorem through (hfirst : first.Spans ts) (hlast : last.Spans us) (vs : List Token) :
    (first.through last).Spans (ts ++ (vs ++ us)) := by
  obtain ⟨a, b, ha, -, rfl⟩ := hfirst
  obtain ⟨c, d, -, hd, rfl⟩ := hlast
  obtain ⟨ts, rfl⟩ := List.head?_eq_some_iff.1 ha
  refine ⟨a, d, rfl, ?_, rfl⟩
  rw [List.getLast?_append, List.getLast?_append, hd]
  rfl

/-- From the start of some tokens to the end of those right behind them (`Span.through`). -/
theorem append (hfirst : first.Spans ts) (hlast : last.Spans us) :
    (first.through last).Spans (ts ++ us) :=
  hfirst.through hlast []

/-- From one token to the end of those right behind it (`Span.through`). -/
theorem cons (first : Token) (hlast : last.Spans us) :
    (first.span.through last).Spans (first :: us) :=
  (token first).append hlast

/-- From one token to another one behind it, such as from bracket to bracket. -/
theorem between (first last : Token) (ts : List Token) :
    (first.span.through last.span).Spans (first :: ts ++ [last]) :=
  (token first).through (token last) ts

end Span.Spans

end

section
variable {holds : Piece → List Token → Prop} {slots others : List Slot} {ts us : List Token}

namespace Fills

/-- Places are filled one after the other (`Fills`). -/
theorem append (h : Fills holds slots ts) (hothers : Fills holds others us) :
    Fills holds (slots ++ others) (ts ++ us) := by
  induction h with
  | nil => exact hothers
  | token htest _ ih => exact .token htest ih
  | piece hpart _ ih =>
    rw [List.append_assoc]
    exact .piece hpart ih

/-- Less may hold of the pieces that fill places (`Fills`). -/
theorem mono {other : Piece → List Token → Prop} (h : Fills holds slots ts)
    (hle : ∀ part ts, holds part ts → other part ts) : Fills other slots ts := by
  induction h with
  | nil => exact .nil
  | token htest _ ih => exact .token htest ih
  | piece hpart _ ih => exact .piece (hle _ _ hpart) ih

/-- A token that passes the test of a place fills it (`Slot.token`). -/
theorem one {test : Token → Prop} {token : Token} (h : test token) :
    Fills holds [.token test] [token] := .token h .nil

/-- A piece takes the place of the last (`Slot.piece`). -/
theorem last {part : Piece} (h : holds part ts) : Fills holds [.piece part] ts := by
  simpa using Fills.piece h .nil

/-- A token of a kind fills a place. -/
theorem kind {token : Token} {kind : TokenKind} (hkind : token.kind = kind)
    (h : Fills holds slots ts) : Fills holds (.kind kind :: slots) (token :: ts) := .token hkind h

/-- A token of a kind fills the last place, if that is for one (`Slot.kind`). -/
theorem lastKind {token : Token} {kind : TokenKind} (hkind : token.kind = kind) :
    Fills holds [.kind kind] [token] := .kind hkind .nil

/-- Every piece that fills one of the places (`Fills`) takes some of the tokens. -/
theorem part (h : Fills holds slots ts) {part : Piece}
    (hpart : part ∈ slots.filterMap Slot.piece?) :
    ∃ before us after, ts = before ++ us ++ after ∧ holds part us := by
  induction h with
  | nil => cases hpart
  | token _ _ ih =>
    obtain ⟨before, us, after, rfl, hus⟩ := ih hpart
    exact ⟨_ :: before, us, after, rfl, hus⟩
  | @piece first ts slots us hfirst _ ih =>
    rcases List.mem_cons.1 hpart with rfl | hpart
    · exact ⟨[], ts, us, rfl, hfirst⟩
    · obtain ⟨before, vs, after, rfl, hvs⟩ := ih hpart
      exact ⟨ts ++ before, vs, after, by simp, hvs⟩

/-- What fills some places and others behind them (`Fills`) is cut between these. -/
theorem split (h : Fills holds (slots ++ others) ts) :
    ∃ us vs, ts = us ++ vs ∧ Fills holds slots us ∧ Fills holds others vs := by
  induction slots generalizing ts with
  | nil => exact ⟨[], ts, rfl, .nil, h⟩
  | cons slot slots ih =>
    cases h with
    | token htest h =>
      obtain ⟨us, vs, rfl, hslots, hothers⟩ := ih h
      exact ⟨_ :: us, vs, rfl, .token htest hslots, hothers⟩
    | piece hpart h =>
      obtain ⟨us, vs, rfl, hslots, hothers⟩ := ih h
      exact ⟨_ ++ us, vs, by simp, .piece hpart hslots, hothers⟩

/-- What fills the places of a list of separated groups. -/
theorem separated {α : Type} {separator : TokenKind} {element : α → List Token → Prop}
    {group : α → List Slot} {as : List α} (h : Separated separator element as ts)
    (hgroup : ∀ a ts, element a ts → Fills holds (group a) ts) :
    Fills holds (Slot.separated separator (as.map group)) ts := by
  rw [Slot.separated]
  induction h with
  | last ha => simpa using hgroup _ _ ha
  | @more a ts as us sep ha hsep has ih =>
    obtain ⟨b, bs, rfl⟩ : ∃ b bs, as = b :: bs := by cases has <;> exact ⟨_, _, rfl⟩
    rw [List.map_cons, List.map_cons, List.intercalate_cons_cons, List.append_assoc]
    exact (hgroup _ _ ha).append (.token hsep ih)

end Fills

end

/-- Names joined by stars fill their places (`Slot.factors`). -/
theorem fills_factors {holds : Piece → List Token → Prop} {names : List Ident} {ts : List Token}
    (h : Separated .star DerivesIdent names ts)
    (hident : ∀ name ts, DerivesIdent name ts → holds (.ident name) ts) :
    names ≠ [] ∧ Fills holds (Slot.factors names) ts := by
  refine ⟨by cases h <;> nofun, Fills.separated h fun name ts hname => .last (hident name ts hname)⟩

/-! ## Pieces whose parts have extents -/

/-- The piece has an extent in these tokens (`Piece.Extent`), and so have all pieces in it, each in
some of them. -/
structure Piece.Settled (piece : Piece) (ts : List Token) : Prop where
  extent : piece.Extent ts
  parts : ∀ part, piece.Holds part → ∀ inner, ReflTransGen Piece.Holds part inner →
    ∃ before us after, ts = before ++ us ++ after ∧ inner.Extent us

namespace Piece.Settled

variable {piece : Piece} {slots : List Slot} {ts : List Token}

/-- All pieces in a piece (`Piece.Holds`) have extents, which lie among its tokens. -/
theorem inner (h : Settled piece ts) {inner : Piece}
    (hinner : ReflTransGen Piece.Holds piece inner) :
    ∃ before us after, ts = before ++ us ++ after ∧ inner.Extent us := by
  rcases hinner.cases_head with rfl | ⟨part, hpart, hinner⟩
  · exact ⟨[], ts, [], by simp, h.extent⟩
  · exact h.parts part hpart inner hinner

/-- All pieces in what fills some places (`Fills`) have extents. -/
theorem of_fills (h : Fills Settled slots ts) : ∀ part ∈ slots.filterMap Slot.piece?,
    ∀ inner, ReflTransGen Piece.Holds part inner →
      ∃ before us after, ts = before ++ us ++ after ∧ inner.Extent us := by
  intro part hpart inner hinner
  obtain ⟨before, us, after, rfl, hus⟩ := h.part hpart
  obtain ⟨front, vs, back, rfl, hvs⟩ := hus.inner hinner
  exact ⟨before ++ front, vs, back ++ after, by simp, hvs⟩

/-- The spans of pieces that fill some places cover the tokens they take (`Span.Spans`). -/
theorem spans_of_fills (h : Fills Settled slots ts) :
    Fills (fun part us => part.span.Spans us) slots ts :=
  h.mono fun _ _ h => h.extent.spans

/-- A name has an extent. -/
theorem ident {name : Ident} (h : DerivesIdent name ts) : Settled (.ident name) ts := by
  cases h with
  | name hkind => exact ⟨⟨.token _, .one ⟨hkind, rfl⟩⟩, nofun⟩

/-- A node has an extent if its parts fill its places. -/
theorem node {e : Node} (h : Fills Settled e.form.slots ts) (hspan : e.span.Spans ts) :
    Settled (.node e) ts :=
  ⟨⟨hspan, .bare (spans_of_fills h)⟩, of_fills h⟩

/-- A block has an extent if its parts fill its places. -/
theorem block {b : Block} (h : Fills Settled b.slots ts) (hspan : b.span.Spans ts) :
    Settled (.block b) ts :=
  ⟨⟨hspan, spans_of_fills h⟩, of_fills h⟩

/-- Brackets are a part of the node between them (`Bracketed`). -/
theorem brackets {e : Node} {first last : Token} (h : Settled (.node e) ts)
    (hfirst : first.kind = .leftParen) (hlast : last.kind = .rightParen) :
    Settled (.node ⟨first.span.through last.span, e.form⟩) (first :: ts ++ [last]) := by
  refine ⟨⟨.between first last ts, .brackets hfirst h.extent.filled hlast⟩, ?_⟩
  intro part hpart inner hinner
  obtain ⟨before, us, after, rfl, hus⟩ := h.parts part hpart inner hinner
  exact ⟨first :: before, us, after ++ [last], by simp, hus⟩

end Piece.Settled

/-- The last of some tokens ends at a place (`Span.stop`). -/
def EndsAt (stop : Position) (ts : List Token) : Prop :=
  ∃ last, ts.getLast? = some last ∧ stop = last.span.stop

/-- Whatever stands in front of them, tokens end where their last one does (`EndsAt`). -/
theorem EndsAt.append_left {stop : Position} {ts : List Token} (h : EndsAt stop ts)
    (us : List Token) : EndsAt stop (us ++ ts) := by
  obtain ⟨last, hlast, hstop⟩ := h
  refine ⟨last, ?_, hstop⟩
  rw [List.getLast?_append, hlast]
  rfl

/-- A span that begins with the first token covers all of them if it ends with the last
(`Span.Spans`). -/
theorem EndsAt.spans {span : Span} {token : Token} {ts : List Token}
    (h : EndsAt span.stop (token :: ts)) : (token.span.through span).Spans (token :: ts) := by
  obtain ⟨last, hlast, hstop⟩ := h
  exact ⟨token, last, rfl, hlast, by rw [Span.through, hstop, Span.through]⟩

/-- Places end with the piece in the last one (`EndsAt`). -/
theorem Fills.endsAt (slots : List Slot) {part : Piece} {ts : List Token}
    (h : Fills Piece.Settled (slots ++ [.piece part]) ts) : EndsAt part.span.stop ts := by
  obtain ⟨us, vs, rfl, -, hlast⟩ := h.split
  cases hlast with
  | @piece _ vs _ ws hpart hnil =>
    cases hnil
    obtain ⟨_, last, -, hlast, hspan⟩ := hpart.extent.spans
    refine EndsAt.append_left ⟨last, by simpa using hlast, ?_⟩ us
    rw [hspan, Span.through]

/-! ## Derivations -/

/-- A node has an extent (`Piece.Settled`), and a semicolon closes it where it is a statement. -/
def Node.Simple (e : Node) (ts : List Token) : Prop :=
  Piece.Settled (.node e) ts ∧ e.form.endsInBlock = false

/-- All pieces in the tree of a phrase have extents (`Piece.Settled`): what a derivation is shown to
give, rule by rule. -/
def Phrase.Settled : Phrase → List Token → Prop
  | .atom e | .signed e | .chain _ e | .comparison e | .expression e | .simple e => e.Simple
  | .block b => Piece.Settled (.block b)
  | .arguments es => Fills Piece.Settled (Slot.separated .comma (es.map fun e => [.node e]))
  | .case condition body => Fills Piece.Settled
      [.kind .leftParen, .node condition, .kind .rightParen, .block body]
  | .others alternatives => Fills Piece.Settled (alternatives.slots .elseifWord)
  | .item e => Fills Piece.Settled e.itemSlots
  | .items es => Fills Piece.Settled (es.flatMap Node.itemSlots)

section
variable {e : Node} {ts : List Token}

namespace Node.Simple

/-- The span of a simple node covers its tokens (`Span.Spans`). -/
theorem spans (h : e.Simple ts) : e.span.Spans ts := h.1.extent.spans

/-- An expression has an extent if its parts fill its places. -/
theorem of_fills (h : Fills Piece.Settled e.form.slots ts) (hspan : e.span.Spans ts)
    (hform : e.form.endsInBlock = false) : e.Simple ts :=
  ⟨.node h hspan, hform⟩

/-- A semicolon makes it a statement (`Node.itemSlots`). -/
theorem item (h : e.Simple ts) {semicolon : Token} (hsemicolon : semicolon.kind = .semicolon) :
    Fills Piece.Settled e.itemSlots (ts ++ [semicolon]) := by
  rw [Node.itemSlots, h.2]
  exact .piece h.1 (.lastKind hsemicolon)

end Node.Simple

/-- What ends in a block (`Form.endsInBlock`) is a statement as it is. -/
theorem Node.fills_item (h : Piece.Settled (.node e) ts) (hform : e.form.endsInBlock = true) :
    Fills Piece.Settled e.itemSlots ts := by
  rw [Node.itemSlots, if_pos hform]
  exact .last h

/-- A number (`DerivesNumber`) has an extent, which is its one token. -/
theorem DerivesNumber.simple {token : Token} (h : DerivesNumber e token) : e.Simple [token] := by
  cases h with
  | int hkind hvalue => exact .of_fills (.one ⟨hkind, hvalue⟩) (.token token) rfl
  | double hkind hvalue => exact .of_fills (.one ⟨hkind, hvalue⟩) (.token token) rfl

/-- A variable has an extent (`Node.Simple`), which is that of its name. -/
theorem simple_variable {name : Token} (hname : name.kind = .identifier) :
    Node.Simple ⟨name.span, .variable name.ident⟩ [name] :=
  .of_fills (.last (.ident (.name hname))) (.token name) rfl

/-- The magnitude of a quantity (`DerivesMagnitude`) has an extent. -/
theorem DerivesMagnitude.simple {token : Token} (h : DerivesMagnitude e token) :
    e.Simple [token] := by
  cases h with
  | name hname => exact simple_variable hname
  | number hnumber => exact hnumber.simple

/-- A unit (`DerivesUnit`) has an extent, from bar to bar. -/
theorem DerivesUnit.simple (h : DerivesUnit e ts) : e.Simple ts := by
  cases h with
  | unit hfirst habove hbelow hlast =>
    refine .of_fills ?_ (.between _ _ _) rfl
    refine .append (.append (.append (.lastKind hfirst) ?_) ?_) (.lastKind hlast)
    · cases habove with
      | names hnames =>
        obtain ⟨hne, hfills⟩ := fills_factors hnames fun _ _ => Piece.Settled.ident
        rwa [if_neg hne]
      | one hkind _ =>
        rw [if_pos rfl]
        exact .lastKind hkind
    · cases hbelow with
      | names hbar hnames =>
        obtain ⟨hne, hfills⟩ := fills_factors hnames fun _ _ => Piece.Settled.ident
        rw [if_neg hne]
        exact .kind hbar hfills
      | none =>
        rw [if_pos rfl]
        exact .nil

/-- A parameter (`DerivesParam`) fills its places. -/
theorem DerivesParam.fills {param : Param} (h : DerivesParam param ts) :
    Fills Piece.Settled param.slots ts := by
  cases h with
  | param hname hcolon _ htype =>
    have hident := Piece.Settled.ident (.name hname)
    exact .piece hident (.kind hcolon (.one htype))

/-- Parameters (`DerivesParams`) fill their places, with commas between them. -/
theorem DerivesParams.fills {params : List Param} (h : DerivesParams params ts) :
    Fills Piece.Settled (Slot.separated .comma (params.map Param.slots)) ts := by
  cases h with
  | none => exact .nil
  | some hparams => exact .separated hparams fun _ _ => DerivesParam.fills

end

/-- Behind an argument there is one more (`Slot.separated`). -/
theorem fills_arguments {e e' : Node} {es : List Node} {ts us : List Token} {comma : Token}
    (he : Piece.Settled (.node e) ts) (hcomma : comma.kind = .comma)
    (hes : Fills Piece.Settled (Slot.separated .comma ((e' :: es).map fun e => [.node e])) us) :
    Fills Piece.Settled (Slot.separated .comma ((e :: e' :: es).map fun e => [.node e]))
      (ts ++ comma :: us) := by
  rw [Slot.separated, List.map_cons] at hes
  rw [Slot.separated, List.map_cons, List.map_cons, List.intercalate_cons_cons]
  exact .piece he (.kind hcomma hes)

/-- The last block of alternatives ends where they do (`Alternatives.lastSpan`). -/
theorem Alternatives.endsAt_lastSpan : ∀ {alternatives : Alternatives} {word : TokenKind}
    {before : Span} {ts us : List Token}, EndsAt before.stop ts →
      Fills Piece.Settled (alternatives.slots word) us →
      EndsAt (alternatives.lastSpan before).stop (ts ++ us)
  | .none, _, _, ts, _, hbefore, .nil => by
    rw [List.append_nil]
    exact hbefore
  | .otherwise _, _, _, ts, _, _, h => (Fills.endsAt [_] h).append_left ts
  | .case _ body others, _, _, ts, _, _, h => by
    obtain ⟨vs, ws, rfl, hcase, hothers⟩ := Fills.split h
    have hbody : EndsAt body.span.stop vs := Fills.endsAt [_, _, _, _] hcase
    show EndsAt (others.lastSpan body.span).stop _
    rw [← List.append_assoc]
    exact endsAt_lastSpan (hbody.append_left ts) hothers

/-- All pieces in what is derived have extents (`Phrase.Settled`), by induction on the
derivation. -/
theorem Derives.settled {n : Nat} {p : Phrase} {ts : List Token} (h : Derives n p ts) :
    p.Settled ts := by
  induction h with
  | name hname => exact simple_variable hname
  | number hnumber => exact hnumber.simple
  | quantity hmagnitude hampersand hunit =>
    have hmagnitude := hmagnitude.simple
    have hunit := hunit.simple
    refine .of_fills (.piece hmagnitude.1 (.kind hampersand (.last hunit.1))) ?_ rfl
    exact hmagnitude.spans.through hunit.spans [_]
  | unit hunit => exact hunit.simple
  | text hkind => exact .of_fills (.one ⟨hkind, rfl⟩) (.token _) rfl
  | trueWord hkind => exact .of_fills (.lastKind hkind) (.token _) rfl
  | falseWord hkind => exact .of_fills (.lastKind hkind) (.token _) rfl
  | group hfirst _ hlast ih => exact ⟨ih.1.brackets hfirst hlast, ih.2⟩
  | call hname hfirst _ hlast ih =>
    refine .of_fills ?_ (.between _ _ _) rfl
    have hcallee := Piece.Settled.ident (.name hname)
    exact .append (.piece hcallee (.kind hfirst ih)) (.lastKind hlast)
  | noArguments => exact .nil
  | lastArgument _ ih => exact .last ih.1
  | moreArguments _ hcomma _ ih ihs => exact fills_arguments ih.1 hcomma ihs
  | unsigned _ ih => exact ih
  | sign hop _ _ ih => exact .of_fills (.token hop (.last ih.1)) (.cons _ ih.spans) rfl
  | @single _ _ tier _ _ ih =>
    cases tier with
    | logic | comparison | sum | product => exact ih
  | @joined _ tier _ _ _ right us _ _ hop _ _ ih ihs =>
    have ihs : right.Simple us := by
      cases tier with
      | logic | comparison | sum | product => exact ihs
    exact .of_fills (.piece ih.1 (.token hop (.last ihs.1))) (ih.spans.through ihs.spans [_]) rfl
  | compared _ ih => exact ih
  | negated hnot _ ih =>
    have hop : UnaryOp.ofToken? _ = some UnaryOp.not := congrArg UnaryOp.ofToken? hnot
    exact .of_fills (.token hop (.last ih.1)) (.cons _ ih.spans) rfl
  | logical _ ih => exact ih
  | assign hname hequal _ ih =>
    have hident := Piece.Settled.ident (.name hname)
    exact .of_fills (.piece hident (.kind hequal (.last ih.1)))
      ((Span.Spans.token _).through ih.spans [_]) rfl
  | declare hword htype hname hequal _ ih =>
    have hident := Piece.Settled.ident (.name hname)
    exact .of_fills (.token htype (.piece hident (.kind hequal (.last ih.1))))
      ((Span.Spans.token _).through ih.spans [_, _]) rfl
  | case hfirst _ hlast _ ih ihs => exact .kind hfirst (.piece ih.1 (.kind hlast (.last ihs)))
  | noOthers => exact .nil
  | otherwise hword _ ih => exact .kind hword (.last ih)
  | elseIf hword _ _ ih ihs => exact .append (.kind hword ih) ihs
  | block hfirst _ hlast ih =>
    exact .block (.append (.kind hfirst ih) (.lastKind hlast)) (.between _ _ _)
  | returnValue hword _ ih =>
    exact .of_fills (.kind hword (.last ih.1)) (.cons _ ih.spans) rfl
  | returnNothing hword => exact .of_fills (.lastKind hword) (.token _) rfl
  | breakLoop hword => exact .of_fills (.lastKind hword) (.token _) rfl
  | continueLoop hword => exact .of_fills (.lastKind hword) (.token _) rfl
  | evaluated _ ih => exact ih
  | closed _ hsemicolon ih => exact ih.item hsemicolon
  | ifElse hword _ _ ih ihs =>
    refine Node.fills_item (.node (.append (.kind hword ih) ihs) ?_) rfl
    have hbody := Fills.endsAt [_, _, _] ih
    exact (Alternatives.endsAt_lastSpan (hbody.append_left [_]) ihs).spans
  | whileLoop hword _ ih =>
    have hbody := Fills.endsAt [_, _, _] ih
    exact Node.fills_item (.node (.kind hword ih) (hbody.append_left [_]).spans) rfl
  | function hword hname hfirst hparams hlast harrow hresult _ ih =>
    have hident := Piece.Settled.ident (.name hname)
    refine Node.fills_item (.node ?_ ?_) rfl
    · exact .append (.append (.kind hword (.piece hident (.lastKind hfirst))) hparams.fills)
        (.kind hlast (.kind harrow (.token hresult (.last ih))))
    · have hbody := Fills.endsAt [] (.last ih)
      exact ((hbody.append_left [_, _, _]).append_left (_ :: _ :: _ :: _)).spans
  | nested _ ih => exact Node.fills_item (.node (.last ih) ih.extent.spans) rfl
  | noItems => exact .nil
  | moreItems _ _ ih ihs => exact ih.append ihs

/-! ## Places one after the other -/

namespace Position

/-- No place is behind itself, in the order of a `Position`. -/
theorem le_refl (p : Position) : p ≤ p := .inr ⟨rfl, Nat.le_refl _⟩

/-- One place behind another one (`Position`), row by row. -/
theorem le_trans {p q r : Position} (h : p ≤ q) (h' : q ≤ r) : p ≤ r := by
  rcases h with h | ⟨h, hc⟩ <;> rcases h' with h' | ⟨h', hc'⟩
  · exact .inl (by omega)
  · exact .inl (by omega)
  · exact .inl (by omega)
  · exact .inr ⟨by omega, by omega⟩

end Position

/-- Tokens that stand one after the other, none of them backwards, as the lexer gives them. -/
structure InOrder (tokens : List Token) : Prop where
  apart : tokens.Pairwise fun a b => a.span.stop ≤ b.span.start
  proper : ∀ token ∈ tokens, token.span.start ≤ token.span.stop

namespace InOrder

variable {ts us vs : List Token}

/-- Tokens in order (`InOrder`) that are next to each other are in order by themselves. -/
theorem between (h : InOrder (ts ++ us ++ vs)) : InOrder us where
  apart := h.apart.sublist ((List.sublist_append_right ts us).trans (List.sublist_append_left _ vs))
  proper token htoken := h.proper token (by simp [htoken])

/-- So are all but some in front (`InOrder.between`). -/
theorem append_right (h : InOrder (ts ++ us)) : InOrder us :=
  @between ts us [] (by simpa using h)

/-- No token begins before the first one (`InOrder`). -/
theorem head_le (h : InOrder ts) {first token : Token} (hfirst : ts.head? = some first)
    (htoken : token ∈ ts) : first.span.start ≤ token.span.start := by
  obtain ⟨ts, rfl⟩ := List.head?_eq_some_iff.1 hfirst
  rcases List.mem_cons.1 htoken with rfl | htoken
  · exact Position.le_refl _
  · exact Position.le_trans (h.proper first List.mem_cons_self)
      ((List.pairwise_cons.1 h.apart).1 token htoken)

/-- No token ends behind the last one (`InOrder`). -/
theorem le_last (h : InOrder ts) {last token : Token} (hlast : ts.getLast? = some last)
    (htoken : token ∈ ts) : token.span.stop ≤ last.span.stop := by
  obtain ⟨ts, rfl⟩ := List.getLast?_eq_some_iff.1 hlast
  rcases List.mem_append.1 htoken with htoken | htoken
  · exact Position.le_trans
      ((List.pairwise_append.1 h.apart).2.2 token htoken last (List.mem_singleton_self last))
      (h.proper last (by simp))
  · obtain rfl := List.mem_singleton.1 htoken
    exact Position.le_refl _

/-- What is covered by some of the tokens lies within what all of them cover, since they are
`InOrder`. -/
theorem within (h : InOrder (ts ++ us ++ vs)) {outer inner : Span}
    (houter : outer.Spans (ts ++ us ++ vs)) (hinner : inner.Spans us) :
    outer.start ≤ inner.start ∧ inner.stop ≤ outer.stop := by
  obtain ⟨first, last, hfirst, hlast, rfl⟩ := houter
  obtain ⟨a, b, ha, hb, rfl⟩ := hinner
  have ha : a ∈ us := List.mem_of_head? ha
  have hb : b ∈ us := List.mem_of_getLast? hb
  exact ⟨h.head_le hfirst (by simp [ha]), h.le_last hlast (by simp [hb])⟩

end InOrder

/-- Pieces that fill places one after the other (`Fills`) stand one after the other, since the
tokens are `InOrder`. -/
theorem Fills.ordered {slots : List Slot} {ts : List Token}
    (h : Fills (fun part us => part.span.Spans us) slots ts) (horder : InOrder ts) :
    (slots.filterMap Slot.piece?).Pairwise fun a b => a.span.stop ≤ b.span.start := by
  induction h with
  | nil => exact .nil
  | token _ _ ih => exact ih (@InOrder.append_right [_] _ horder)
  | piece hpart hslots ih =>
    have hbehind := horder.append_right
    refine List.pairwise_cons.2 ⟨fun other hother => ?_, ih hbehind⟩
    obtain ⟨before, vs, after, rfl, hvs⟩ := hslots.part hother
    obtain ⟨_, last, -, hlast, hspan⟩ := hpart
    obtain ⟨first, _, hfirst, -, hother⟩ := hvs
    rw [hspan, hother]
    refine (List.pairwise_append.1 horder.apart).2.2 last (List.mem_of_getLast? hlast) first ?_
    simp [List.mem_of_head? hfirst]

/-- Inside of brackets (`Bracketed`) there is what stands in them. -/
theorem Bracketed.exists_inner {inner : List Token → Prop} {ts : List Token}
    (h : Bracketed inner ts) : ∃ before us after, ts = before ++ us ++ after ∧ inner us := by
  induction h with
  | bare h => exact ⟨[], _, [], by simp, h⟩
  | @brackets _ first last _ _ _ ih =>
    obtain ⟨before, us, after, rfl, hus⟩ := ih
    exact ⟨first :: before, us, after ++ [last], by simp, hus⟩

namespace Piece.Extent

variable {piece part : Piece} {ts : List Token}

/-- Some of the tokens fill the concrete syntax of the piece (`Piece.Filled`), and the others are
brackets. -/
theorem exists_filled (h : piece.Extent ts) :
    ∃ before us after, ts = before ++ us ++ after ∧ piece.Filled us := by
  cases piece with
  | ident _ | block _ => exact ⟨[], ts, [], by simp, h.filled⟩
  | node _ => exact h.filled.exists_inner

/-- The span of a part lies within that of the whole, since it covers some of the same tokens
(`InOrder`). -/
theorem nested (h : piece.Extent ts) (horder : InOrder ts) (hpart : piece.Holds part) :
    piece.span.start ≤ part.span.start ∧ part.span.stop ≤ piece.span.stop := by
  have hspans := h.spans
  obtain ⟨before, us, after, rfl, hfilled⟩ := h.exists_filled
  obtain ⟨front, vs, back, rfl, hvs⟩ := hfilled.part hpart
  have hlist : before ++ (front ++ vs ++ back) ++ after =
      (before ++ front) ++ vs ++ (back ++ after) := by simp
  rw [hlist] at horder hspans
  exact horder.within hspans hvs

/-- Of the parts one ends before the next one begins, as the tokens they take do (`InOrder`). -/
theorem ordered (h : piece.Extent ts) (horder : InOrder ts) :
    piece.parts.Pairwise fun a b => a.span.stop ≤ b.span.start := by
  obtain ⟨before, us, after, rfl, hfilled⟩ := h.exists_filled
  exact Fills.ordered hfilled horder.between

end Piece.Extent

/-- The tokens of a text (`Token.ofText`) stand one after the other. -/
theorem inOrder_of_ofText {text : List Char} {tokens : List Token}
    (h : Token.ofText text = .ok tokens) : InOrder tokens := by
  have hlossless := Token.lossless h
  refine ⟨hlossless.ordered, fun token htoken => ?_⟩
  rw [hlossless.closed] at htoken
  rcases List.mem_append.1 htoken with htoken | htoken
  · obtain ⟨row, _, start, stop, -, hon, hlt, -⟩ := hlossless.placed token htoken
    rw [hon]
    exact .inr ⟨rfl, Nat.le_of_lt hlt⟩
  · obtain rfl := List.mem_singleton.1 htoken
    exact Position.le_refl _

/-! ## Programs -/

/-- The parts of statements in a row are the statements, since semicolons are no pieces
(`Slot.piece?`). -/
theorem filterMap_itemSlots (es : List Node) :
    (es.flatMap Node.itemSlots).filterMap Slot.piece? = es.map .node := by
  induction es with
  | nil => rfl
  | cons e es ih =>
    rw [List.flatMap_cons, List.filterMap_append, ih, Node.itemSlots]
    split <;> rfl

/-- The parts of a block (`Piece.parts`) are its statements. -/
theorem parts_block (b : Block) : (Piece.block b).parts = b.items.map .node := by
  rw [Piece.parts, Piece.slots, Block.slots, List.filterMap_append, List.filterMap_append,
    filterMap_itemSlots]
  exact List.append_nil _

/-- A program runs from its first token to the end of the text (`Span.Spans`). -/
theorem Block.spans_of_ofTokens {program : Block} {front : List Token} {final : Token}
    (h : Block.ofTokens (front ++ [final]) = .ok program)
    (hfront : ∀ token ∈ front, token.kind ≠ .endOfText) :
    program.span.Spans (front ++ [final]) := by
  generalize htokens : front ++ [final] = tokens at h
  cases Block.derivedFrom_of_ofTokens h with
  | program hes hlast hfirst =>
    obtain rfl := Token.cut_at_end htokens.symm hlast hfront
    obtain ⟨rfl, rfl⟩ := List.cons_eq_cons.1 (List.append_cancel_left htokens)
    exact ⟨_, final, hfirst, by simp, rfl⟩

/-- The spans in the tree of a text (`Block.ofText`) are exact and nested: each covers the tokens
that its piece is written with, those of parts lie within that of the whole, and those of successive
parts follow each other. -/
theorem Block.extents_of_ofText {text : List Char} {program : Block}
    (h : Block.ofText text = .ok program) :
    ∃ tokens, Token.ofText text = .ok tokens ∧ program.Extents tokens := by
  obtain ⟨front, row, htokens, hprogram, hfront⟩ := Block.tokens_of_ofText h
  have horder := inOrder_of_ofText htokens
  have hspans := Block.spans_of_ofTokens hprogram hfront
  have hitems : Fills Piece.Settled program.textSlots (front ++ [Token.atEnd row]) :=
    (Block.items_of_ofTokens hprogram hfront).settled.append (.lastKind rfl)
  have hparts : program.textSlots.filterMap Slot.piece? = (Piece.block program).parts := by
    rw [Block.textSlots, List.filterMap_append, filterMap_itemSlots, parts_block]
    exact List.append_nil _
  have hexact : ∀ part ∈ (Piece.block program).parts, ∀ piece,
      ReflTransGen Piece.Holds part piece →
      ∃ before ts after, front ++ [Token.atEnd row] = before ++ ts ++ after ∧ piece.Extent ts := by
    intro part hpart
    exact Piece.Settled.of_fills hitems part (hparts ▸ hpart)
  refine ⟨_, htokens, ⟨hspans, Piece.Settled.spans_of_fills hitems⟩, ?_, ?_, ?_⟩
  · intro item hitem
    exact hexact _ (by rw [parts_block]; exact List.mem_map_of_mem hitem)
  · intro piece part hpiece hpart
    rcases hpiece.cases_head with rfl | ⟨first, hfirst, hpiece⟩
    · rw [Piece.Holds, ← hparts] at hpart
      obtain ⟨before, us, after, heq, hus⟩ := hitems.part hpart
      rw [heq] at horder hspans
      exact horder.within hspans hus.extent.spans
    · obtain ⟨before, us, after, heq, hus⟩ := hexact first hfirst piece hpiece
      rw [heq] at horder
      exact hus.nested horder.between hpart
  · intro piece hpiece
    rcases hpiece.cases_head with rfl | ⟨first, hfirst, hpiece⟩
    · rw [← hparts]
      exact Fills.ordered (Piece.Settled.spans_of_fills hitems) horder
    · obtain ⟨before, us, after, heq, hus⟩ := hexact first hfirst piece hpiece
      rw [heq] at horder
      exact hus.ordered horder.between

/-- A sum in brackets on two lines. -/
def bracketsText : List Char := "y = (1\n + x);".toList

set_option maxRecDepth 2048 in
/-- The spans in the tree of a sum in brackets are exact and nested (`Block.Extents`): the brackets
belong to the sum, and the semicolon to nothing. -/
theorem bracketsText_extents : ∃ program, Block.ofText bracketsText = .ok program ∧
    ∃ tokens, Token.ofText bracketsText = .ok tokens ∧ program.Extents tokens := by
  have hread : Block.ofText bracketsText = .ok ⟨⟨⟨0, 0⟩, ⟨2, 0⟩⟩,
      [⟨⟨⟨0, 0⟩, ⟨1, 5⟩⟩, .assign none ⟨"y", ⟨⟨0, 0⟩, ⟨0, 1⟩⟩⟩
        ⟨⟨⟨0, 4⟩, ⟨1, 5⟩⟩, .binary .add ⟨⟨⟨0, 5⟩, ⟨0, 6⟩⟩, .int 1⟩
          ⟨⟨⟨1, 3⟩, ⟨1, 4⟩⟩, .variable ⟨"x", ⟨⟨1, 3⟩, ⟨1, 4⟩⟩⟩⟩⟩⟩]⟩ := by
    have htokens : Token.ofText bracketsText = .ok
        [⟨.identifier, some "y", ⟨⟨0, 0⟩, ⟨0, 1⟩⟩⟩, ⟨.equal, none, ⟨⟨0, 2⟩, ⟨0, 3⟩⟩⟩,
          ⟨.leftParen, none, ⟨⟨0, 4⟩, ⟨0, 5⟩⟩⟩, ⟨.intLiteral, some "1", ⟨⟨0, 5⟩, ⟨0, 6⟩⟩⟩,
          ⟨.plus, none, ⟨⟨1, 1⟩, ⟨1, 2⟩⟩⟩, ⟨.identifier, some "x", ⟨⟨1, 3⟩, ⟨1, 4⟩⟩⟩,
          ⟨.rightParen, none, ⟨⟨1, 4⟩, ⟨1, 5⟩⟩⟩, ⟨.semicolon, none, ⟨⟨1, 5⟩, ⟨1, 6⟩⟩⟩,
          Token.atEnd 2] := by
      have hlines : Text.lines bracketsText = ["y = (1".toList, " + x);".toList] := by decide
      simp only [Token.ofText, hlines, Token.ofLines, Token.ofLine_eq_upTo]
      rfl
    rw [Block.ofText, htokens]
    rfl
  exact ⟨_, hread, Block.extents_of_ofText hread⟩

end UnitScript
