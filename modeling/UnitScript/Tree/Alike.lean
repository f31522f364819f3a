import UnitScript.Tree

/-!
# Trees apart from their places

Two trees are alike if they are built in the same way from the same names and values, wherever
their parts stand in a text. Doubles count as the same if they are equal as numbers.
-/

namespace UnitScript

/-- Whether two names are spelled alike. -/
def Ident.alike (a b : Ident) : Bool :=
  a.name == b.name

/-- Whether two lists of names are spelled alike. -/
def Ident.allAlike (as bs : List Ident) : Bool :=
  as.map Ident.name == bs.map Ident.name

/-- Whether two parameters agree in name and type. -/
def Param.alike (a b : Param) : Bool :=
  a.ident.alike b.ident && a.type == b.type

/-- Whether two parameter lists agree one by one. -/
def Param.allAlike : List Param → List Param → Bool
  | [], [] => true
  | a :: as, b :: bs => a.alike b && allAlike as bs
  | _, _ => false

mutual

/-- Whether two nodes have the same form. -/
def Node.alike : Node → Node → Bool
  | ⟨_, .int a⟩, ⟨_, .int b⟩ => a == b
  | ⟨_, .double a⟩, ⟨_, .double b⟩ => a == b
  | ⟨_, .string a⟩, ⟨_, .string b⟩ => a == b
  | ⟨_, .bool a⟩, ⟨_, .bool b⟩ => a == b
  | ⟨_, .unit m d⟩, ⟨_, .unit n e⟩ => Ident.allAlike m n && Ident.allAlike d e
  | ⟨_, .phys m u⟩, ⟨_, .phys n v⟩ => m.alike n && u.alike v
  | ⟨_, .unary f a⟩, ⟨_, .unary g b⟩ => f == g && a.alike b
  | ⟨_, .binary f a b⟩, ⟨_, .binary g c d⟩ => f == g && a.alike c && b.alike d
  | ⟨_, .variable a⟩, ⟨_, .variable b⟩ => a.alike b
  | ⟨_, .assign s a v⟩, ⟨_, .assign t b w⟩ => s == t && a.alike b && v.alike w
  | ⟨_, .ifElse a⟩, ⟨_, .ifElse b⟩ => a.alike b
  | ⟨_, .whileLoop c a⟩, ⟨_, .whileLoop d b⟩ => c.alike d && a.alike b
  | ⟨_, .function f p s a⟩, ⟨_, .function g q t b⟩ =>
    f.alike g && Param.allAlike p q && s == t && a.alike b
  | ⟨_, .call f as⟩, ⟨_, .call g bs⟩ => f.alike g && Node.allAlike as bs
  | ⟨_, .returnNothing⟩, ⟨_, .returnNothing⟩ => true
  | ⟨_, .returnValue a⟩, ⟨_, .returnValue b⟩ => a.alike b
  | ⟨_, .breakLoop⟩, ⟨_, .breakLoop⟩ => true
  | ⟨_, .continueLoop⟩, ⟨_, .continueLoop⟩ => true
  | ⟨_, .block a⟩, ⟨_, .block b⟩ => a.alike b
  | _, _ => false

/-- Whether two lists of nodes agree one by one. -/
def Node.allAlike : List Node → List Node → Bool
  | [], [] => true
  | a :: as, b :: bs => a.alike b && Node.allAlike as bs
  | _, _ => false

/-- Whether two blocks hold the same statements. -/
def Block.alike : Block → Block → Bool
  | ⟨_, as⟩, ⟨_, bs⟩ => Node.allAlike as bs

/-- Whether two lists of alternatives agree one by one. -/
def Alternatives.alike : Alternatives → Alternatives → Bool
  | .none, .none => true
  | .otherwise a, .otherwise b => a.alike b
  | .case c a as, .case d b bs => c.alike d && a.alike b && as.alike bs
  | _, _ => false

end

end UnitScript
