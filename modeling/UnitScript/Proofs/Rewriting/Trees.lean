import UnitScript.Proofs.Places.Splitting

/-!
# Rewriting statements

Two rewrites change a tree and not what it does: the cases of an `if` behind the first one may be
put into an `else` block of their own, and a block with at least one statement may be replaced by
its statements in the list in which it stands. `Rewrites` applies them in any number of places of a
tree, inside the bodies of functions as well or outside of these only.

Outside of functions a rewritten tree is the same computation as before (`Rewrites.same`),
whatever machine it is run on and however calls are run. Both rewrites rest on blocks handing on
whatever their statements come to, since they have no bindings of their own.
-/

namespace UnitScript

/-- The trees that contain one another, for rewriting in any position (`Rewrites`). -/
inductive Subtree where
  | node (e : Node)
  | arguments (es : List Node)
  | items (es : List Node)
  | block (b : Block)
  | alternatives (a : Alternatives)

/-- Whether a form contains no other trees. -/
def Form.isLeaf : Form → Bool
  | .int _ | .double _ | .string _ | .bool _ | .unit .. | .variable _ | .returnNothing | .breakLoop
  | .continueLoop => true
  | _ => false

/-- A tree is rewritten in some places, in two ways (`elseBlock`, `splice`). Statements and
expressions stay where they are written, so places of faults can be compared. The bodies of
functions are rewritten only if `inside` holds. -/
inductive Rewrites (inside : Bool) : Subtree → Subtree → Prop
  | leaf : form.isLeaf = true → Rewrites inside (.node ⟨span, form⟩) (.node ⟨span, form⟩)
  | phys : Rewrites inside (.node magnitude) (.node magnitude') →
      Rewrites inside (.node unit) (.node unit') →
      Rewrites inside (.node ⟨span, .phys magnitude unit⟩) (.node ⟨span, .phys magnitude' unit'⟩)
  | unary : Rewrites inside (.node e) (.node e') →
      Rewrites inside (.node ⟨span, .unary op e⟩) (.node ⟨span, .unary op e'⟩)
  | binary : Rewrites inside (.node left) (.node left') →
      Rewrites inside (.node right) (.node right') →
      Rewrites inside (.node ⟨span, .binary op left right⟩) (.node ⟨span, .binary op left' right'⟩)
  | assign : Rewrites inside (.node e) (.node e') →
      Rewrites inside (.node ⟨span, .assign type ident e⟩) (.node ⟨span, .assign type ident e'⟩)
  | ifElse : Rewrites inside (.alternatives a) (.alternatives a') →
      Rewrites inside (.node ⟨span, .ifElse a⟩) (.node ⟨span, .ifElse a'⟩)
  | whileLoop : Rewrites inside (.node condition) (.node condition') →
      Rewrites inside (.block body) (.block body') →
      Rewrites inside (.node ⟨span, .whileLoop condition body⟩)
        (.node ⟨span, .whileLoop condition' body'⟩)
  /-- The body of a function is rewritten only if this is allowed. -/
  | function : inside = true → Rewrites inside (.block body) (.block body') →
      Rewrites inside (.node ⟨span, .function ident params returns body⟩)
        (.node ⟨span, .function ident params returns body'⟩)
  | sameFunction : Rewrites inside (.node ⟨span, .function ident params returns body⟩)
      (.node ⟨span, .function ident params returns body⟩)
  | call : Rewrites inside (.arguments es) (.arguments es') →
      Rewrites inside (.node ⟨span, .call ident es⟩) (.node ⟨span, .call ident es'⟩)
  | returnValue : Rewrites inside (.node e) (.node e') →
      Rewrites inside (.node ⟨span, .returnValue e⟩) (.node ⟨span, .returnValue e'⟩)
  | nested : Rewrites inside (.block b) (.block b') →
      Rewrites inside (.node ⟨span, .block b⟩) (.node ⟨span, .block b'⟩)
  | noArguments : Rewrites inside (.arguments []) (.arguments [])
  | moreArguments : Rewrites inside (.node e) (.node e') →
      Rewrites inside (.arguments es) (.arguments es') →
      Rewrites inside (.arguments (e :: es)) (.arguments (e' :: es'))
  | noItems : Rewrites inside (.items []) (.items [])
  | moreItems : Rewrites inside (.node e) (.node e') → Rewrites inside (.items es) (.items es') →
      Rewrites inside (.items (e :: es)) (.items (e' :: es'))
  | block : Rewrites inside (.items es) (.items es') →
      Rewrites inside (.block ⟨span, es⟩) (.block ⟨span', es'⟩)
  | none : Rewrites inside (.alternatives .none) (.alternatives .none)
  | otherwise : Rewrites inside (.block b) (.block b') →
      Rewrites inside (.alternatives (.otherwise b)) (.alternatives (.otherwise b'))
  | case : Rewrites inside (.node condition) (.node condition') →
      Rewrites inside (.block body) (.block body') →
      Rewrites inside (.alternatives others) (.alternatives others') →
      Rewrites inside (.alternatives (.case condition body others))
        (.alternatives (.case condition' body' others'))
  /-- What an `if` has behind its first case is put into an `else` block. -/
  | elseBlock : Rewrites inside (.node condition) (.node condition') →
      Rewrites inside (.block body) (.block body') →
      Rewrites inside (.alternatives others) (.alternatives others') →
      Rewrites inside (.alternatives (.case condition body others))
        (.alternatives (.case condition' body' (.otherwise ⟨span, [⟨span', .ifElse others'⟩]⟩)))
  /-- A block that is not empty is replaced by its statements. -/
  | splice : bs ≠ [] → Rewrites inside (.items bs) (.items bs') →
      Rewrites inside (.items cs) (.items cs') →
      Rewrites inside (.items (⟨span, .block ⟨span', bs⟩⟩ :: cs)) (.items (bs' ++ cs'))

/-! ## Trees as they are -/

mutual

/-- A tree may stay as it is, whatever it is. -/
theorem Node.rewrites_self {inside : Bool} : (e : Node) → Rewrites inside (.node e) (.node e)
  | ⟨_, .int _⟩ | ⟨_, .double _⟩ | ⟨_, .string _⟩ | ⟨_, .bool _⟩ | ⟨_, .unit ..⟩
  | ⟨_, .variable _⟩ | ⟨_, .returnNothing⟩ | ⟨_, .breakLoop⟩ | ⟨_, .continueLoop⟩ => .leaf rfl
  | ⟨_, .phys magnitude unit⟩ => .phys magnitude.rewrites_self unit.rewrites_self
  | ⟨_, .unary _ operand⟩ => .unary operand.rewrites_self
  | ⟨_, .binary _ left right⟩ => .binary left.rewrites_self right.rewrites_self
  | ⟨_, .assign _ _ value⟩ => .assign value.rewrites_self
  | ⟨_, .ifElse alternatives⟩ => .ifElse alternatives.rewrites_self
  | ⟨_, .whileLoop condition body⟩ => .whileLoop condition.rewrites_self body.rewrites_self
  | ⟨_, .function ..⟩ => .sameFunction
  | ⟨_, .call _ args⟩ => .call (Node.arguments_rewrites_self args)
  | ⟨_, .returnValue value⟩ => .returnValue value.rewrites_self
  | ⟨_, .block block⟩ => .nested block.rewrites_self

/-- So may arguments, -/
theorem Node.arguments_rewrites_self {inside : Bool} :
    (es : List Node) → Rewrites inside (.arguments es) (.arguments es)
  | [] => .noArguments
  | e :: es => .moreArguments e.rewrites_self (Node.arguments_rewrites_self es)

/-- statements in a row, -/
theorem Node.items_rewrites_self {inside : Bool} :
    (es : List Node) → Rewrites inside (.items es) (.items es)
  | [] => .noItems
  | e :: es => .moreItems e.rewrites_self (Node.items_rewrites_self es)

/-- blocks -/
theorem Block.rewrites_self {inside : Bool} : (b : Block) → Rewrites inside (.block b) (.block b)
  | ⟨_, es⟩ => .block (Node.items_rewrites_self es)

/-- and alternatives. -/
theorem Alternatives.rewrites_self {inside : Bool} :
    (a : Alternatives) → Rewrites inside (.alternatives a) (.alternatives a)
  | .none => .none
  | .otherwise block => .otherwise block.rewrites_self
  | .case condition body others =>
    .case condition.rewrites_self body.rewrites_self others.rewrites_self

end

/-! ## The two rewrites -/

section
variable {rounds : Nat} {run : Caller}

/-- A block of one statement comes to what the statement comes to. -/
theorem Block.evaluate_singleton (span : Span) (e : Node) :
    (⟨span, [e]⟩ : Block).evaluate rounds run = e.evaluate rounds run := by
  rw [Block.evaluate, Node.evaluateItems]
  refine (congrArg (_ >>= ·) (funext fun result => ?_)).trans (bind_pure _)
  rw [Node.evaluateItems, ite_self]

/-- What an `if` has behind its first case does the same in an `else` block, as the one statement of
that. -/
theorem Alternatives.evaluate_elseBlock (span span' : Span) (others : Alternatives) :
    (Alternatives.otherwise ⟨span, [⟨span', .ifElse others⟩]⟩).evaluate rounds run =
      others.evaluate rounds run := by
  rw [Alternatives.evaluate, Block.evaluate_singleton, Node.evaluate]

/-- Where there are statements, it makes no difference what came before them. -/
theorem Node.evaluateItems_of_ne_nil {bs : List Node} (h : bs ≠ []) (last : Option Located) :
    Node.evaluateItems rounds run last bs = Node.evaluateItems rounds run none bs := by
  obtain ⟨b, bs, rfl⟩ := List.exists_cons_of_ne_nil h
  rw [Node.evaluateItems, Node.evaluateItems]

/-- A block with statements does the same as these in its place: blocks have no scope of their own.
An empty block is left out, which comes to nothing and hides what came before. -/
theorem Node.evaluateItems_splice (span span' : Span) {bs : List Node} (h : bs ≠ [])
    (cs : List Node) (last : Option Located) :
    Node.evaluateItems rounds run last (⟨span, .block ⟨span', bs⟩⟩ :: cs) =
      Node.evaluateItems rounds run last (bs ++ cs) := by
  rw [Node.evaluateItems_of_ne_nil (List.append_ne_nil_of_left_ne_nil h cs),
    Node.evaluateItems_append bs cs rfl, Node.evaluateItems, Node.evaluate, Block.evaluate]

/-- Statements that do the same, in front of others that do the same. -/
theorem Node.evaluateItems_append_congr {bs bs' cs cs' : List Node} (hbs : bs ≠ [])
    (hbs' : bs' ≠ [])
    (h : Node.evaluateItems rounds run none bs = Node.evaluateItems rounds run none bs')
    (hcs : ∀ last, Node.evaluateItems rounds run last cs = Node.evaluateItems rounds run last cs')
    (last : Option Located) :
    Node.evaluateItems rounds run last (bs ++ cs) =
      Node.evaluateItems rounds run last (bs' ++ cs') := by
  rw [Node.evaluateItems_of_ne_nil (List.append_ne_nil_of_left_ne_nil hbs cs),
    Node.evaluateItems_of_ne_nil (List.append_ne_nil_of_left_ne_nil hbs' cs'),
    Node.evaluateItems_append bs cs rfl, Node.evaluateItems_append bs' cs' rfl, h]
  simp only [hcs]

end

/-- Statements do not vanish. -/
theorem Rewrites.ne_nil {inside : Bool} {bs bs' : List Node}
    (h : Rewrites inside (.items bs) (.items bs')) (hbs : bs ≠ []) : bs' ≠ [] := by
  generalize hp : Subtree.items bs = p at h
  generalize hq : Subtree.items bs' = q at h
  induction h generalizing bs bs' with
  | noItems =>
    cases hp
    exact absurd rfl hbs
  | moreItems =>
    cases hq
    exact List.cons_ne_nil _ _
  | splice hne _ _ ih =>
    cases hq
    exact List.append_ne_nil_of_left_ne_nil (ih hne rfl rfl) _
  | _ => cases hp

/-- Statements are rewritten behind others. -/
theorem Rewrites.append_left {inside : Bool} {bs cs : List Node}
    (h : Rewrites inside (.items bs) (.items cs)) (as : List Node) :
    Rewrites inside (.items (as ++ bs)) (.items (as ++ cs)) := by
  induction as with
  | nil => exact h
  | cons a as ih => exact .moreItems a.rewrites_self ih

/-! ## Outside of functions -/

/-- Two trees are the same computation, however calls are run (`Caller`), on all machines at
once. -/
def Subtree.Same (rounds : Nat) (run : Caller) : Subtree → Subtree → Prop
  | .node e, .node e' => e.evaluate rounds run = e'.evaluate rounds run ∧ e.span = e'.span
  | .arguments es, .arguments es' =>
    Node.evaluateArgs rounds run es = Node.evaluateArgs rounds run es'
  | .items es, .items es' => ∀ last,
    Node.evaluateItems rounds run last es = Node.evaluateItems rounds run last es'
  | .block b, .block b' => b.evaluate rounds run = b'.evaluate rounds run
  | .alternatives a, .alternatives a' => a.evaluate rounds run = a'.evaluate rounds run
  | _, _ => False

section
variable {rounds : Nat} {run : Caller} {e e' : Node}

/-- Of a node that has to have a value only its place is seen, -/
theorem Node.demand_eq_of_span (h : e.span = e'.span) (x : Eval (Option Located)) :
    e.demand x = e'.demand x := by
  rw [Node.demand, Node.demand, h]

/-- and so it is with a condition. -/
theorem Node.holds_eq_of_span (h : e.span = e'.span) (x : Eval (Option Located)) :
    e.holds x = e'.holds x := by
  rw [Node.holds, Node.holds, Node.demand_eq_of_span h]

/-- A tree that is rewritten outside of functions (`Rewrites false`) is the same computation
(`Subtree.Same`), however calls are run. -/
theorem Rewrites.same {p q : Subtree} (h : Rewrites false p q) : p.Same rounds run q := by
  induction h with
  | leaf => exact ⟨rfl, rfl⟩
  | sameFunction => exact ⟨rfl, rfl⟩
  | function hinside => cases hinside
  | phys _ _ ih ih' | binary _ _ ih ih' =>
    obtain ⟨he, hspan⟩ := ih
    obtain ⟨he', hspan'⟩ := ih'
    refine ⟨?_, rfl⟩
    simp only [Node.evaluate, he, he', Node.demand_eq_of_span hspan, Node.demand_eq_of_span hspan']
  | unary _ ih | assign _ ih | returnValue _ ih =>
    obtain ⟨he, hspan⟩ := ih
    refine ⟨?_, rfl⟩
    simp only [Node.evaluate, he, Node.demand_eq_of_span hspan]
  | ifElse _ ih | nested _ ih | call _ ih =>
    refine ⟨?_, rfl⟩
    rw [Node.evaluate, Node.evaluate, ih]
  | whileLoop _ _ ih ihbody =>
    obtain ⟨he, hspan⟩ := ih
    refine ⟨?_, rfl⟩
    simp only [Node.evaluate, he, Node.holds_eq_of_span hspan]
    rw [ihbody]
  | noArguments | none => exact rfl
  | noItems => exact fun _ => rfl
  | moreArguments _ _ ih ihs =>
    obtain ⟨he, hspan⟩ := ih
    show Node.evaluateArgs rounds run _ = Node.evaluateArgs rounds run _
    rw [Node.evaluateArgs, Node.evaluateArgs, he, Node.demand_eq_of_span hspan, ihs]
  | moreItems _ _ ih ihs =>
    intro last
    rw [Node.evaluateItems, Node.evaluateItems, ih.1]
    refine congrArg (_ >>= ·) (funext fun result => ?_)
    rw [ihs result]
  | block _ ih =>
    show Block.evaluate rounds run _ = Block.evaluate rounds run _
    exact ih Option.none
  | otherwise _ ih =>
    show Alternatives.evaluate rounds run _ = Alternatives.evaluate rounds run _
    rw [Alternatives.evaluate, Alternatives.evaluate, ih]
  | case _ _ _ ih ihbody ihothers =>
    obtain ⟨he, hspan⟩ := ih
    show Alternatives.evaluate rounds run _ = Alternatives.evaluate rounds run _
    rw [Alternatives.evaluate, Alternatives.evaluate, he, Node.holds_eq_of_span hspan, ihbody,
      ihothers]
  | elseBlock _ _ _ ih ihbody ihothers =>
    obtain ⟨he, hspan⟩ := ih
    show Alternatives.evaluate rounds run _ = Alternatives.evaluate rounds run _
    rw [Alternatives.evaluate, Alternatives.evaluate, Alternatives.evaluate_elseBlock, he,
      Node.holds_eq_of_span hspan, ihbody, ihothers]
  | splice hne hbs _ ih ihs =>
    intro last
    rw [Node.evaluateItems_splice _ _ hne]
    exact Node.evaluateItems_append_congr hne (hbs.ne_nil hne) (ih Option.none) ihs last

end

end UnitScript
