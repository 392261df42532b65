/-
Construction trees: what to build, without a word on how.  A node names a type and assigns its
members; an assignment holds a literal or the nodes of the objects that the member receives.  No
nodes at all is the empty collection, which is no literal.
-/
import ObjectMarkup.Member

namespace ObjectMarkup

mutual

/-- An object to build. -/
inductive Tree where
  | node (type : TypeName) (name : Option String) (arguments : List String)
      (assignments : List Assignment)

/-- A member and what it receives. -/
inductive Assignment where
  | literal (member : Member) (text : String)
  | children (member : Member) (trees : List Tree)

end

namespace Tree

def type : Tree → TypeName
  | node type _ _ _ => type

def name : Tree → Option String
  | node _ name _ _ => name

def arguments : Tree → List String
  | node _ _ arguments _ => arguments

def assignments : Tree → List Assignment
  | node _ _ _ assignments => assignments

end Tree

namespace Assignment

def member : Assignment → Member
  | literal m _ => m
  | children m _ => m

def isLiteral : Assignment → Bool
  | literal .. => true
  | children .. => false

end Assignment

/-! ## Size -/

mutual

/-- The number of objects that a tree describes. -/
def Tree.size : Tree → Nat
  | .node _ _ _ assignments => 1 + Assignment.sizeAll assignments

def Assignment.size : Assignment → Nat
  | .literal _ _ => 0
  | .children _ trees => Tree.sizeAll trees

def Assignment.sizeAll : List Assignment → Nat
  | [] => 0
  | a :: as => a.size + Assignment.sizeAll as

def Tree.sizeAll : List Tree → Nat
  | [] => 0
  | t :: ts => t.size + Tree.sizeAll ts

end

end ObjectMarkup
