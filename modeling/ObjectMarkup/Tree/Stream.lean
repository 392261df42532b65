/-
A tree as a stream of instructions.  `Tree.instructions` writes the assignments where they stand;
`Tree.write` puts them into their order first, and fails when a node has none.
-/
import ObjectMarkup.Instruction
import ObjectMarkup.Tree
import ObjectMarkup.Tree.Order

namespace ObjectMarkup

mutual

def Tree.instructions : Tree → List Instruction
  | .node type name arguments assignments =>
    .startObject { type, name, arguments } :: (Assignment.instructionsAll assignments ++ [.endObject])

def Assignment.instructions : Assignment → List Instruction
  | .literal m s => [.startMember m, .value s, .endMember]
  | .children m trees => .startMember m :: (Tree.instructionsAll trees ++ [.endMember])

def Assignment.instructionsAll : List Assignment → List Instruction
  | [] => []
  | a :: as => a.instructions ++ Assignment.instructionsAll as

def Tree.instructionsAll : List Tree → List Instruction
  | [] => []
  | t :: ts => t.instructions ++ Tree.instructionsAll ts

end

/-- The stream of a tree, the assignments of every node in the order in which they are made. -/
def Tree.write (t : Tree) : Except Error (List Instruction) :=
  t.sort.map Tree.instructions

theorem Assignment.instructionsAll_append (as bs : List Assignment) :
    Assignment.instructionsAll (as ++ bs) =
      Assignment.instructionsAll as ++ Assignment.instructionsAll bs := by
  induction as with
  | nil => rfl
  | cons a as ih => simp [Assignment.instructionsAll, ih]

theorem Tree.instructionsAll_append (ts us : List Tree) :
    Tree.instructionsAll (ts ++ us) = Tree.instructionsAll ts ++ Tree.instructionsAll us := by
  induction ts with
  | nil => rfl
  | cons t ts ih => simp [Tree.instructionsAll, ih]

end ObjectMarkup
