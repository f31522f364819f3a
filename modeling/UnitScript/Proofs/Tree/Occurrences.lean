import UnitScript.Tree

/-!
# What occurs in trees

The forms that occur in a tree, each with whether it is inside the body of a loop
(`Block.occurrences`). The bodies of functions that are defined in the tree do not count: what
occurs there is run by calls only, and begins outside of all loops again. Whatever is in a program
at all, in such bodies too, is what the program contains (`Block.Contains`).
-/

namespace UnitScript

/-- A `Form` where it stands in a program or in the body of a function, inside of a loop there or
not. -/
structure Occurrence where
  form : Form
  /-- Whether it is inside the body of a loop. -/
  looped : Bool

mutual

/-- The forms of a node and of all nodes inside it, where the node stands inside the body of a loop
or not. The bodies of functions are left out (`Block.bodies`). -/
def Node.occurrences (looped : Bool) : Node → List Occurrence
  | ⟨_, form⟩ => ⟨form, looped⟩ :: form.occurrences looped

/-- The forms inside a form (`Occurrence`): the body of a loop is looked through as being inside of
one. -/
def Form.occurrences (looped : Bool) : Form → List Occurrence
  | .int _ | .double _ | .string _ | .bool _ | .unit .. | .variable _ | .function ..
  | .returnNothing | .breakLoop | .continueLoop => []
  | .phys magnitude unit => magnitude.occurrences looped ++ unit.occurrences looped
  | .unary _ operand => operand.occurrences looped
  | .binary _ left right => left.occurrences looped ++ right.occurrences looped
  | .assign _ _ value => value.occurrences looped
  | .ifElse alternatives => alternatives.occurrences looped
  | .whileLoop condition body => condition.occurrences looped ++ body.occurrences true
  | .call _ args => Node.allOccurrences looped args
  | .returnValue value => value.occurrences looped
  | .block block => block.occurrences looped

/-- The forms of several nodes. -/
def Node.allOccurrences (looped : Bool) : List Node → List Occurrence
  | [] => []
  | node :: nodes => node.occurrences looped ++ Node.allOccurrences looped nodes

/-- The forms inside a block. -/
def Block.occurrences (looped : Bool) : Block → List Occurrence
  | ⟨_, items⟩ => Node.allOccurrences looped items

/-- The forms inside alternatives. -/
def Alternatives.occurrences (looped : Bool) : Alternatives → List Occurrence
  | .none => []
  | .otherwise block => block.occurrences looped
  | .case condition body others =>
    condition.occurrences looped ++ (body.occurrences looped ++ others.occurrences looped)

end

/-! ## Forms -/

namespace Form

/-- The body of the function that is defined, if one is. -/
def body? : Form → Option Block
  | .function _ _ _ body => some body
  | _ => none

/-- Whether a function of that name is defined. -/
def defines (name : String) : Form → Bool
  | .function ident _ _ _ => ident.name = name
  | _ => false

/-- The type that a variable of that name is declared with, if it is. -/
def declared? (name : String) : Form → Option TypeName
  | .assign type ident _ => if ident.name = name then type else none
  | _ => none

/-- Whether the form is a loop. -/
def isLoop : Form → Bool
  | .whileLoop .. => true
  | _ => false

/-- Whether the form leaves a loop, or a round of one. -/
def isJump : Form → Bool
  | .breakLoop | .continueLoop => true
  | _ => false

end Form

/-! ## Programs with all that is in them -/

/-- The bodies of the functions that are defined in a block (`Form.body?`), but not of those inside
these bodies. -/
def Block.bodies (b : Block) : List Block := (b.occurrences false).filterMap (·.form.body?)

/-- A form occurs in a program or, at any depth, in the body of a function that is defined in it
(`Block.bodies`). -/
inductive Block.Contains : Block → Occurrence → Prop
  | own {b : Block} {o : Occurrence} : o ∈ b.occurrences false → b.Contains o
  | inBody {b body : Block} {o : Occurrence} : body ∈ b.bodies → body.Contains o → b.Contains o

/-- All that a program contains (`Block.Contains`) has a property. -/
def Block.Throughout (good : Occurrence → Prop) (b : Block) : Prop := ∀ o, b.Contains o → good o

/-- A `Form` has a property where it stands and, if it defines a function, so has all that is in the
body. -/
structure Occurrence.Throughout (good : Occurrence → Prop) (o : Occurrence) : Prop where
  here : good o
  body {b : Block} : o.form.body? = some b → b.Throughout good

namespace Block.Throughout

variable {good : Occurrence → Prop} {b : Block}

/-- A property of all that occurs, and of all that is in the bodies of functions. -/
theorem of_bodies (h : ∀ o ∈ b.occurrences false, good o)
    (hbodies : ∀ body ∈ b.bodies, body.Throughout good) : b.Throughout good := by
  intro o ho
  cases ho with
  | own ho => exact h o ho
  | inBody hbody hin => exact hbodies _ hbody o hin

/-- What a program contains throughout is true of each form that occurs in it, throughout. -/
theorem occurrences (h : b.Throughout good) : ∀ o ∈ b.occurrences false, o.Throughout good :=
  fun o ho => ⟨h o (.own ho), fun hbody o' ho' =>
    h o' (.inBody (List.mem_filterMap.2 ⟨o, ho, hbody⟩) ho')⟩

end Block.Throughout

end UnitScript
