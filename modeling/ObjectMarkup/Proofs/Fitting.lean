/-
Trees whose assignments fit the members they are to.

A fact about nodes is one of a whole tree when it holds of every node (`Tree.Forall`).  Of a node
that fits, the type is known, and a member that takes one object is assigned one (`Tree.Fits`).
-/
import ObjectMarkup.Proofs.Action
import ObjectMarkup.Schema
import ObjectMarkup.Tree

namespace ObjectMarkup

/-! ## Nodes of trees -/

def Assignment.trees : Assignment → List Tree
  | .literal _ _ => []
  | .children _ trees => trees

/-- Every node of the tree, itself included, satisfies `p`. -/
inductive Tree.Forall (p : Tree → Prop) : Tree → Prop
  | node {t : Tree} : p t → (∀ a ∈ t.assignments, ∀ u ∈ a.trees, Forall p u) → Forall p t

theorem Tree.Forall.self {p : Tree → Prop} {t : Tree} (h : t.Forall p) : p t := by
  cases h with
  | node h _ => exact h

theorem Tree.Forall.inside {p : Tree → Prop} {t : Tree} (h : t.Forall p) :
    ∀ a ∈ t.assignments, ∀ u ∈ a.trees, u.Forall p := by
  cases h with
  | node _ h => exact h

/-- A member that takes one object is assigned one; items are appended and any number will do. -/
def Assignment.Fits (schema : Schema) : Assignment → Prop
  | .literal _ _ => True
  | .children m trees => m.isItems = true ∨ schema.takesMany m = true ∨ trees.length = 1

/-- A member of one value is assigned one object, and a member of many any number of them. -/
def Assignment.Counts (schema : Schema) : Assignment → Prop
  | .literal _ _ => True
  | .children m trees => schema.takesMany m = true ∨ trees.length = 1

theorem Assignment.Counts.fits {schema : Schema} {a : Assignment} (h : a.Counts schema) :
    a.Fits schema := by
  cases a with
  | literal m s => trivial
  | children m trees => exact .inr h

structure Tree.Fits (schema : Schema) (t : Tree) : Prop where
  type : (schema.resolve t.type).isSome = true
  assignments : ∀ a ∈ t.assignments, a.Fits schema

end ObjectMarkup
