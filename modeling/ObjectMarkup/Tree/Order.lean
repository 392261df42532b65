/-
The order in which the members of one object are assigned.  A member comes after the members it
depends on, which it names by their simple name; among the members that could come next, the one
written first does.  `arrange` puts anything that carries a member into this order.

The members are the nodes of a graph.  Positions in the list of members stand for them: a name may
occur twice.  When members depend on each other in a circle there is no order, and the first
strongly connected component that holds a circle is reported.  Else a position is taken when the
number of those it waits for has come down to nothing.
-/
import ObjectMarkup.Error
import ObjectMarkup.Tree

namespace ObjectMarkup

/-- Whether `m` has to come after `other`. -/
def Member.requires (m other : Member) : Bool :=
  m.dependencies.contains other.name

namespace Order

/-- The positions that have to come after position `i`, ascending. -/
def followers (members : List Member) (i : Nat) : List Nat :=
  match members[i]? with
  | none => []
  | some m => (members.zipIdx.filter fun e => e.1.requires m).map (·.2)

/-- The positions that have to come before position `i`, ascending. -/
def prerequisites (members : List Member) (i : Nat) : List Nat :=
  match members[i]? with
  | none => []
  | some m => (members.zipIdx.filter fun e => m.requires e.1).map (·.2)

/-- Puts a number into an ascending list. -/
def enqueue (i : Nat) : List Nat → List Nat
  | [] => [i]
  | j :: js => if i ≤ j then i :: j :: js else j :: enqueue i js

/-- The numbers in ascending order. -/
def ascending (is : List Nat) : List Nat :=
  is.foldr enqueue []

/-! ## Strongly connected components

A graph has the nodes below `n`, and `next` gives those that an edge leads to. -/

/-- A depth-first search under way: the nodes it has met, and those it has left, latest first. -/
structure Search where
  met : List Nat := []
  finished : List Nat := []

/-- Searches from `v` along `next`, to a depth of at most `fuel`. -/
def visit (next : Nat → List Nat) : Nat → Search → Nat → Search
  | 0, s, _ => s
  | fuel + 1, s, v =>
    if s.met.contains v then s
    else
      let s := (next v).foldl (visit next fuel) { s with met := v :: s.met }
      { s with finished := v :: s.finished }

/-- What can be reached from `i` in one step or more. -/
def reachable (n : Nat) (next : Nat → List Nat) (i : Nat) : List Nat :=
  ((next i).foldl (visit next n) {}).met

/-- For every node, what can be reached from it. -/
def reachTable (n : Nat) (next : Nat → List Nat) : List (List Nat) :=
  (List.range n).map (reachable n next)

/-- Whether two nodes reach each other; of a node and itself, whether it lies on a circle.  Row `i`
of the table holds what can be reached from `i`. -/
def onCircle (table : List (List Nat)) (i j : Nat) : Bool :=
  (table[i]?.getD []).contains j && (table[j]?.getD []).contains i

/-- The nodes from which no later one is on a circle with them. -/
def lastLeft (together : Nat → Nat → Bool) : List Nat → List Nat
  | [] => []
  | v :: rest =>
    if rest.all fun u => !together v u then v :: lastLeft together rest
    else lastLeft together rest

/-- The strongly connected component of a node, ascending. -/
def componentOf (n : Nat) (table : List (List Nat)) (v : Nat) : List Nat :=
  (List.range n).filter fun u => u == v || onCircle table v u

/-- The strongly connected components, in the order in which a depth-first search leaves them. -/
def components (n : Nat) (next : Nat → List Nat) : List (List Nat) :=
  let search := (List.range n).foldl (visit next n) {}
  let table := reachTable n next
  (lastLeft (onCircle table) search.finished.reverse).map (componentOf n table)

/-- Whether there is a circle in a component: it has two nodes, or one with an edge to itself. -/
def holdsCircle (next : Nat → List Nat) (component : List Nat) : Bool :=
  1 < component.length || component.head?.any fun i => (next i).contains i

/-! ## Taking positions -/

/-- How many positions each position waits for, and the ones that wait for none and were not taken
yet, ascending. -/
structure Queue where
  degrees : List Nat
  ready : List Nat

namespace Queue

/-- Every position waits for those that have to come before it. -/
def start (members : List Member) : Queue :=
  let degrees := (List.range members.length).map fun i => (prerequisites members i).length
  { degrees, ready := (degrees.zipIdx.filter (·.1 == 0)).map (·.2) }

/-- Position `i` has one less to wait for. -/
def release (q : Queue) (i : Nat) : Queue :=
  let degree := q.degrees[i]?.getD 0 - 1
  { degrees := q.degrees.set i degree,
    ready := if degree == 0 then enqueue i q.ready else q.ready }

/-- Takes the least of what is ready, and what follows it has one less to wait for, until nothing is
ready.  These are the positions in the order in which they are taken, at most `fuel` of them. -/
def take (next : Nat → List Nat) : Nat → Queue → List Nat
  | 0, _ => []
  | fuel + 1, q =>
    match q.ready with
    | [] => []
    | i :: ready => i :: take next fuel ((next i).foldl release { q with ready })

end Queue

end Order

open ObjectMarkup.Order in
/-- The positions of the members in the order in which they are assigned; one exists unless some
members of `owner` depend on each other in a circle.  The strongly connected components of a graph
are those that `components` finds. -/
def dependencyOrderBy (components : Nat → (Nat → List Nat) → List (List Nat)) (owner : TypeName)
    (members : List Member) : Except Error (List Nat) :=
  let next := followers members
  match (components members.length next).find? (holdsCircle next) with
  | some found =>
    .error (.dependencyCycle owner
      ((ascending found).filterMap fun i => members[i]?.map (·.name)))
  | none => .ok ((Queue.start members).take next members.length)

/-- The positions of the members in the order in which they are assigned. -/
def dependencyOrder (owner : TypeName) (members : List Member) : Except Error (List Nat) :=
  dependencyOrderBy Order.components owner members

/-- Puts the elements into the order of their members. -/
def arrange {α : Type} (owner : TypeName) (key : α → Member) (xs : List α) :
    Except Error (List α) :=
  (dependencyOrder owner (xs.map key)).map fun order => order.filterMap (xs[·]?)

/-! ## Whole trees -/

mutual

/-- The tree with the assignments of every node in the order in which they are made. -/
def Tree.sort : Tree → Except Error Tree
  | .node type name arguments assignments => do
    let order ← arrange type Prod.fst (Assignment.sortEach assignments)
    let sorted ← order.mapM Prod.snd
    return .node type name arguments sorted

def Assignment.sort : Assignment → Except Error Assignment
  | .literal m s => .ok (.literal m s)
  | .children m trees => do return .children m (← Tree.sortAll trees)

/-- The assignments one by one, each beside the member that decides its place. -/
def Assignment.sortEach : List Assignment → List (Member × Except Error Assignment)
  | [] => []
  | a :: as => (a.member, a.sort) :: Assignment.sortEach as

def Tree.sortAll : List Tree → Except Error (List Tree)
  | [] => .ok []
  | t :: ts => do
    let t ← t.sort
    let ts ← Tree.sortAll ts
    return t :: ts

end
end ObjectMarkup
