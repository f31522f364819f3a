import UnitScript.Program

/-!
# Moving positions

Everything that knows where in a text it stands can be moved: tokens, trees, values, machines and
the ways in which a run ends. `relocate f` applies `f` to all positions in something and changes
nothing else. Whatever is done with trees and values is done regardless of their places, except
that these are handed on; what follows from this is said of the evaluator and of the parser
elsewhere.
-/

namespace UnitScript

variable (f : Position → Position)

/-! ## Trees -/

/-- The same stretch elsewhere. -/
def Span.relocate (span : Span) : Span := ⟨f span.start, f span.stop⟩

/-- The same name elsewhere. -/
def Ident.relocate (ident : Ident) : Ident := ⟨ident.name, ident.span.relocate f⟩

/-- The same parameter elsewhere. -/
def Param.relocate (param : Param) : Param := ⟨param.ident.relocate f, param.type⟩

/-- The same token elsewhere. -/
def Token.relocate (token : Token) : Token := { token with span := token.span.relocate f }

mutual

/-- The same statement or expression elsewhere: every `Span` in it is moved, and nothing else. -/
def Node.relocate : Node → Node
  | ⟨span, form⟩ => ⟨span.relocate f, form.relocate⟩

/-- The same form, where its parts stand elsewhere. -/
def Form.relocate : Form → Form
  | .int n => .int n
  | .double x => .double x
  | .string s => .string s
  | .bool b => .bool b
  | .unit numerator denominator =>
    .unit (numerator.map (·.relocate f)) (denominator.map (·.relocate f))
  | .phys magnitude unit => .phys magnitude.relocate unit.relocate
  | .unary op operand => .unary op operand.relocate
  | .binary op left right => .binary op left.relocate right.relocate
  | .variable ident => .variable (ident.relocate f)
  | .assign type ident value => .assign type (ident.relocate f) value.relocate
  | .ifElse alternatives => .ifElse alternatives.relocate
  | .whileLoop condition body => .whileLoop condition.relocate body.relocate
  | .function ident params returns body =>
    .function (ident.relocate f) (params.map (·.relocate f)) returns body.relocate
  | .call ident args => .call (ident.relocate f) (Node.relocateAll args)
  | .returnNothing => .returnNothing
  | .returnValue value => .returnValue value.relocate
  | .breakLoop => .breakLoop
  | .continueLoop => .continueLoop
  | .block block => .block block.relocate

/-- The same statements or arguments elsewhere. -/
def Node.relocateAll : List Node → List Node
  | [] => []
  | node :: nodes => node.relocate :: Node.relocateAll nodes

/-- The same block elsewhere. -/
def Block.relocate : Block → Block
  | ⟨span, items⟩ => ⟨span.relocate f, Node.relocateAll items⟩

/-- The same alternatives elsewhere. -/
def Alternatives.relocate : Alternatives → Alternatives
  | .none => .none
  | .otherwise block => .otherwise block.relocate
  | .case condition body others => .case condition.relocate body.relocate others.relocate

end

/-! ## Values -/

/-- The same definition elsewhere. -/
def Declaration.relocate (declaration : Declaration) : Declaration where
  ident := declaration.ident.relocate f
  params := declaration.params.map (·.relocate f)
  returns := declaration.returns
  body := declaration.body.relocate f

mutual

/-- The same value, where what it comes from stands elsewhere. -/
def Value.relocate : Value → Value
  | .function callee => .function callee.relocate
  | .returning payload => .returning (Located.relocate? payload)
  | .number n => .number n
  | .bool b => .bool b
  | .string s => .string s
  | .unit u => .unit u
  | .quantity q => .quantity q
  | .native callee => .native callee
  | .breaking => .breaking
  | .continuing => .continuing

/-- The same value from elsewhere. -/
def Located.relocate : Located → Located
  | ⟨value, span⟩ => ⟨value.relocate, span.map (·.relocate f)⟩

/-- The same payload from elsewhere, if there is one. -/
def Located.relocate? : Option Located → Option Located
  | none => none
  | some v => some v.relocate

/-- The same function, where it and all that it has captured come from elsewhere. -/
def Closure.relocate : Closure → Closure
  | ⟨declaration, captured⟩ => ⟨declaration.relocate f, Bindings.relocate captured⟩

/-- The same bindings from elsewhere. -/
def Bindings.relocate : List (String × Located) → List (String × Located)
  | [] => []
  | (name, v) :: bindings => (name, v.relocate) :: Bindings.relocate bindings

end

/-! ## Machines -/

/-- The same call made elsewhere. -/
def Activation.relocate (activation : Activation) : Activation :=
  ⟨activation.name, f activation.site⟩

/-- The same call in progress, made elsewhere. -/
def Frame.relocate (frame : Frame) : Frame :=
  ⟨frame.activation.relocate f, Bindings.relocate f frame.bindings⟩

/-- The same context, where all it knows comes from elsewhere (`Bindings.relocate`,
`Frame.relocate`). -/
def Context.relocate (context : Context) : Context where
  globals := Bindings.relocate f context.globals
  frames := context.frames.map (·.relocate f)
  maxDepth := context.maxDepth

/-- The same machine, where all it knows comes from elsewhere (`Context.relocate`). What it has
printed has no places. -/
def Machine.relocate (machine : Machine) : Machine :=
  { machine with context := machine.context.relocate f }

/-- The same fault elsewhere. -/
def Fault.relocate (fault : Fault) : Fault :=
  ⟨fault.cause, fault.position.map f, fault.traceback.map (·.relocate f)⟩

/-- The same outcome, where its fault stands elsewhere (`Fault.relocate`) and its result is moved
somehow. -/
def Outcome.relocate {α β : Type} (move : α → β) : Outcome α → Outcome β
  | .ok result => .ok (move result)
  | .fault e => .fault (e.relocate f)
  | .outOfFuel => .outOfFuel

/-- What there is to be called, where it is defined elsewhere. -/
def Callable.relocate : Callable → Callable
  | .closure callee => .closure (callee.relocate f)
  | .native callee => .native callee

/-! ## Parts -/

@[simp] theorem Node.span_relocate (node : Node) :
    (node.relocate f).span = node.span.relocate f := by
  obtain ⟨span, form⟩ := node
  rfl

@[simp] theorem Node.form_relocate (node : Node) :
    (node.relocate f).form = node.form.relocate f := by
  obtain ⟨span, form⟩ := node
  rfl

@[simp] theorem Block.span_relocate (block : Block) :
    (block.relocate f).span = block.span.relocate f := by
  obtain ⟨span, items⟩ := block
  rfl

/-- From the first thing to the second, both moved. -/
@[simp] theorem Span.through_relocate (first last : Span) :
    (first.relocate f).through (last.relocate f) = (first.through last).relocate f := rfl

/-! ## Lists -/

/-- Nodes in a list are moved one by one. -/
@[simp] theorem Node.relocateAll_eq (nodes : List Node) :
    Node.relocateAll f nodes = nodes.map (·.relocate f) := by
  induction nodes with
  | nil => rfl
  | cons node nodes ih => rw [Node.relocateAll, ih, List.map_cons]

/-- The statements of a block are moved one by one. -/
@[simp] theorem Block.items_relocate (block : Block) :
    (block.relocate f).items = block.items.map (·.relocate f) := by
  obtain ⟨_, items⟩ := block
  exact Node.relocateAll_eq f items

/-- A payload is moved if there is one. -/
@[simp] theorem Located.relocate?_eq (payload : Option Located) :
    Located.relocate? f payload = payload.map (·.relocate f) := by
  cases payload with
  | none => rfl
  | some v => rfl

/-! ## Moving twice

Moving by `g` and then by `f` is moving by `h`, where `h` is what both come to. -/

section
variable {f g h : Position → Position}

theorem Span.relocate_relocate (hfg : ∀ p, f (g p) = h p) (span : Span) :
    (span.relocate g).relocate f = span.relocate h := by
  rw [relocate, relocate, relocate, hfg, hfg]

theorem Ident.relocate_relocate (hfg : ∀ p, f (g p) = h p) (ident : Ident) :
    (ident.relocate g).relocate f = ident.relocate h := by
  rw [relocate, relocate, relocate, Span.relocate_relocate hfg]

theorem Ident.map_relocate_relocate (hfg : ∀ p, f (g p) = h p) (idents : List Ident) :
    (idents.map (·.relocate g)).map (·.relocate f) = idents.map (·.relocate h) := by
  rw [List.map_map]
  exact List.map_congr_left fun ident _ => Ident.relocate_relocate hfg ident

theorem Param.map_relocate_relocate (hfg : ∀ p, f (g p) = h p) (params : List Param) :
    (params.map (·.relocate g)).map (·.relocate f) = params.map (·.relocate h) := by
  rw [List.map_map]
  refine List.map_congr_left fun param _ => ?_
  show Param.mk ((param.ident.relocate g).relocate f) param.type = _
  rw [Ident.relocate_relocate hfg]
  rfl

mutual

theorem Node.relocate_relocate (hfg : ∀ p, f (g p) = h p) :
    (node : Node) → (node.relocate g).relocate f = node.relocate h
  | ⟨span, form⟩ => by
    rw [Node.relocate, Node.relocate, Node.relocate, Span.relocate_relocate hfg,
      Form.relocate_relocate hfg form]

theorem Form.relocate_relocate (hfg : ∀ p, f (g p) = h p) :
    (form : Form) → (form.relocate g).relocate f = form.relocate h
  | .int _ | .double _ | .string _ | .bool _ | .returnNothing | .breakLoop | .continueLoop => rfl
  | .unit numerator denominator => by
    simp only [Form.relocate, Ident.map_relocate_relocate hfg]
  | .phys magnitude unit => by
    simp only [Form.relocate, Node.relocate_relocate hfg magnitude,
      Node.relocate_relocate hfg unit]
  | .unary _ operand => by
    simp only [Form.relocate, Node.relocate_relocate hfg operand]
  | .binary _ left right => by
    simp only [Form.relocate, Node.relocate_relocate hfg left, Node.relocate_relocate hfg right]
  | .variable ident => by
    simp only [Form.relocate, Ident.relocate_relocate hfg]
  | .assign _ ident value => by
    simp only [Form.relocate, Ident.relocate_relocate hfg, Node.relocate_relocate hfg value]
  | .ifElse alternatives => by
    simp only [Form.relocate, Alternatives.relocate_relocate hfg alternatives]
  | .whileLoop condition body => by
    simp only [Form.relocate, Node.relocate_relocate hfg condition,
      Block.relocate_relocate hfg body]
  | .function ident params _ body => by
    simp only [Form.relocate, Ident.relocate_relocate hfg, Param.map_relocate_relocate hfg,
      Block.relocate_relocate hfg body]
  | .call ident args => by
    simp only [Form.relocate, Ident.relocate_relocate hfg, Node.relocateAll_relocateAll hfg args]
  | .returnValue value => by
    simp only [Form.relocate, Node.relocate_relocate hfg value]
  | .block block => by
    simp only [Form.relocate, Block.relocate_relocate hfg block]

theorem Node.relocateAll_relocateAll (hfg : ∀ p, f (g p) = h p) :
    (nodes : List Node) →
      Node.relocateAll f (Node.relocateAll g nodes) = Node.relocateAll h nodes
  | [] => rfl
  | node :: nodes => by
    rw [Node.relocateAll, Node.relocateAll, Node.relocateAll, Node.relocate_relocate hfg node,
      Node.relocateAll_relocateAll hfg nodes]

theorem Block.relocate_relocate (hfg : ∀ p, f (g p) = h p) :
    (block : Block) → (block.relocate g).relocate f = block.relocate h
  | ⟨span, items⟩ => by
    rw [Block.relocate, Block.relocate, Block.relocate, Span.relocate_relocate hfg,
      Node.relocateAll_relocateAll hfg items]

theorem Alternatives.relocate_relocate (hfg : ∀ p, f (g p) = h p) :
    (alternatives : Alternatives) →
      (alternatives.relocate g).relocate f = alternatives.relocate h
  | .none => rfl
  | .otherwise block => by
    simp only [Alternatives.relocate, Block.relocate_relocate hfg block]
  | .case condition body others => by
    simp only [Alternatives.relocate, Node.relocate_relocate hfg condition,
      Block.relocate_relocate hfg body, Alternatives.relocate_relocate hfg others]

end

theorem Declaration.relocate_relocate (hfg : ∀ p, f (g p) = h p) (declaration : Declaration) :
    (declaration.relocate g).relocate f = declaration.relocate h := by
  simp only [relocate, Ident.relocate_relocate hfg, Param.map_relocate_relocate hfg,
    Block.relocate_relocate hfg]

mutual

theorem Value.relocate_relocate (hfg : ∀ p, f (g p) = h p) :
    (v : Value) → (v.relocate g).relocate f = v.relocate h
  | .number _ | .bool _ | .string _ | .unit _ | .quantity _ | .native _ | .breaking
  | .continuing => rfl
  | .function closure => by
    simp only [Value.relocate, Closure.relocate_relocate hfg closure]
  | .returning none => rfl
  | .returning (some v) => by
    simp only [Value.relocate, Located.relocate?, Located.relocate_relocate hfg v]

theorem Located.relocate_relocate (hfg : ∀ p, f (g p) = h p) :
    (v : Located) → (v.relocate g).relocate f = v.relocate h
  | ⟨value, span⟩ => by
    have hspan : (span.map (·.relocate g)).map (·.relocate f) = span.map (·.relocate h) := by
      cases span with
      | none => rfl
      | some span => exact congrArg some (Span.relocate_relocate hfg span)
    simp only [Located.relocate, Value.relocate_relocate hfg value, hspan]

theorem Closure.relocate_relocate (hfg : ∀ p, f (g p) = h p) :
    (closure : Closure) → (closure.relocate g).relocate f = closure.relocate h
  | ⟨declaration, captured⟩ => by
    simp only [Closure.relocate, Declaration.relocate_relocate hfg,
      Bindings.relocate_relocate hfg captured]

theorem Bindings.relocate_relocate (hfg : ∀ p, f (g p) = h p) :
    (bindings : List (String × Located)) →
      Bindings.relocate f (Bindings.relocate g bindings) = Bindings.relocate h bindings
  | [] => rfl
  | (name, v) :: bindings => by
    simp only [Bindings.relocate, Located.relocate_relocate hfg v,
      Bindings.relocate_relocate hfg bindings]

end

theorem Activation.relocate_relocate (hfg : ∀ p, f (g p) = h p) (activation : Activation) :
    (activation.relocate g).relocate f = activation.relocate h := by
  rw [relocate, relocate, relocate, hfg]

theorem Frame.relocate_relocate (hfg : ∀ p, f (g p) = h p) (frame : Frame) :
    (frame.relocate g).relocate f = frame.relocate h := by
  simp only [relocate, Activation.relocate_relocate hfg, Bindings.relocate_relocate hfg]

theorem Context.relocate_relocate (hfg : ∀ p, f (g p) = h p) (context : Context) :
    (context.relocate g).relocate f = context.relocate h := by
  have hframes : (context.frames.map (·.relocate g)).map (·.relocate f) =
      context.frames.map (·.relocate h) := by
    rw [List.map_map]
    exact List.map_congr_left fun frame _ => Frame.relocate_relocate hfg frame
  simp only [relocate, Bindings.relocate_relocate hfg, hframes]

theorem Machine.relocate_relocate (hfg : ∀ p, f (g p) = h p) (machine : Machine) :
    (machine.relocate g).relocate f = machine.relocate h := by
  simp only [relocate, Context.relocate_relocate hfg]

end

/-! ## Moving nowhere -/

section
variable {f : Position → Position}

theorem Span.relocate_id (hf : ∀ p, f p = p) (span : Span) : span.relocate f = span := by
  rw [relocate, hf, hf]

theorem Ident.relocate_id (hf : ∀ p, f p = p) (ident : Ident) : ident.relocate f = ident := by
  rw [relocate, Span.relocate_id hf]

theorem Ident.map_relocate_id (hf : ∀ p, f p = p) (idents : List Ident) :
    idents.map (·.relocate f) = idents :=
  List.map_id'' (Ident.relocate_id hf) idents

theorem Param.map_relocate_id (hf : ∀ p, f p = p) (params : List Param) :
    params.map (·.relocate f) = params := by
  refine List.map_id'' (fun param => ?_) params
  rw [relocate, Ident.relocate_id hf]

mutual

theorem Node.relocate_id (hf : ∀ p, f p = p) : (node : Node) → node.relocate f = node
  | ⟨span, form⟩ => by
    rw [Node.relocate, Span.relocate_id hf, Form.relocate_id hf form]

theorem Form.relocate_id (hf : ∀ p, f p = p) : (form : Form) → form.relocate f = form
  | .int _ | .double _ | .string _ | .bool _ | .returnNothing | .breakLoop | .continueLoop => rfl
  | .unit numerator denominator => by
    simp only [Form.relocate, Ident.map_relocate_id hf]
  | .phys magnitude unit => by
    simp only [Form.relocate, Node.relocate_id hf magnitude, Node.relocate_id hf unit]
  | .unary _ operand => by
    simp only [Form.relocate, Node.relocate_id hf operand]
  | .binary _ left right => by
    simp only [Form.relocate, Node.relocate_id hf left, Node.relocate_id hf right]
  | .variable ident => by
    simp only [Form.relocate, Ident.relocate_id hf]
  | .assign _ ident value => by
    simp only [Form.relocate, Ident.relocate_id hf, Node.relocate_id hf value]
  | .ifElse alternatives => by
    simp only [Form.relocate, Alternatives.relocate_id hf alternatives]
  | .whileLoop condition body => by
    simp only [Form.relocate, Node.relocate_id hf condition, Block.relocate_id hf body]
  | .function ident params _ body => by
    simp only [Form.relocate, Ident.relocate_id hf, Param.map_relocate_id hf,
      Block.relocate_id hf body]
  | .call ident args => by
    simp only [Form.relocate, Ident.relocate_id hf, Node.relocateAll_id hf args]
  | .returnValue value => by
    simp only [Form.relocate, Node.relocate_id hf value]
  | .block block => by
    simp only [Form.relocate, Block.relocate_id hf block]

theorem Node.relocateAll_id (hf : ∀ p, f p = p) :
    (nodes : List Node) → Node.relocateAll f nodes = nodes
  | [] => rfl
  | node :: nodes => by
    rw [Node.relocateAll, Node.relocate_id hf node, Node.relocateAll_id hf nodes]

theorem Block.relocate_id (hf : ∀ p, f p = p) : (block : Block) → block.relocate f = block
  | ⟨span, items⟩ => by
    rw [Block.relocate, Span.relocate_id hf, Node.relocateAll_id hf items]

theorem Alternatives.relocate_id (hf : ∀ p, f p = p) :
    (alternatives : Alternatives) → alternatives.relocate f = alternatives
  | .none => rfl
  | .otherwise block => by
    simp only [Alternatives.relocate, Block.relocate_id hf block]
  | .case condition body others => by
    simp only [Alternatives.relocate, Node.relocate_id hf condition, Block.relocate_id hf body,
      Alternatives.relocate_id hf others]

end

theorem Declaration.relocate_id (hf : ∀ p, f p = p) (declaration : Declaration) :
    declaration.relocate f = declaration := by
  simp only [relocate, Ident.relocate_id hf, Param.map_relocate_id hf, Block.relocate_id hf]

mutual

theorem Value.relocate_id (hf : ∀ p, f p = p) : (v : Value) → v.relocate f = v
  | .number _ | .bool _ | .string _ | .unit _ | .quantity _ | .native _ | .breaking
  | .continuing => rfl
  | .function closure => by
    simp only [Value.relocate, Closure.relocate_id hf closure]
  | .returning none => rfl
  | .returning (some v) => by
    simp only [Value.relocate, Located.relocate?, Located.relocate_id hf v]

theorem Located.relocate_id (hf : ∀ p, f p = p) : (v : Located) → v.relocate f = v
  | ⟨value, span⟩ => by
    have hspan : span.map (·.relocate f) = span := by
      cases span with
      | none => rfl
      | some span => exact congrArg some (Span.relocate_id hf span)
    simp only [Located.relocate, Value.relocate_id hf value, hspan]

theorem Closure.relocate_id (hf : ∀ p, f p = p) :
    (closure : Closure) → closure.relocate f = closure
  | ⟨declaration, captured⟩ => by
    simp only [Closure.relocate, Declaration.relocate_id hf, Bindings.relocate_id hf captured]

theorem Bindings.relocate_id (hf : ∀ p, f p = p) :
    (bindings : List (String × Located)) → Bindings.relocate f bindings = bindings
  | [] => rfl
  | (name, v) :: bindings => by
    simp only [Bindings.relocate, Located.relocate_id hf v, Bindings.relocate_id hf bindings]

end

theorem Activation.relocate_id (hf : ∀ p, f p = p) (activation : Activation) :
    activation.relocate f = activation := by
  rw [relocate, hf]

theorem Frame.relocate_id (hf : ∀ p, f p = p) (frame : Frame) : frame.relocate f = frame := by
  simp only [relocate, Activation.relocate_id hf, Bindings.relocate_id hf]

theorem Context.relocate_id (hf : ∀ p, f p = p) (context : Context) :
    context.relocate f = context := by
  simp only [relocate, Bindings.relocate_id hf, List.map_id'' (Frame.relocate_id hf)]

theorem Machine.relocate_id (hf : ∀ p, f p = p) (machine : Machine) :
    machine.relocate f = machine := by
  simp only [relocate, Context.relocate_id hf]

end

end UnitScript
