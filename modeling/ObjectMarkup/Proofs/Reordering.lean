/-
Trees that differ in the order of assignments.

`Tree.Exchange` puts the assignments of one node into another order, and `Tree.Reordered` does so
for any number of nodes, each in its own way.  What a node is of, and which members it assigns,
stays as it is (`Tree.Reordered.outlines`): two such trees have as many nodes and assignments, and
members that depend on each other in a circle in the one do so in the other.
-/
import Mathlib.Data.Multiset.Basic
import ObjectMarkup.Proofs.Order

namespace ObjectMarkup

open Relation (ReflTransGen TransGen)
open ObjectMarkup.Order

/-! ## Nodes -/

mutual

/-- The tree and all trees inside it, each before those inside it. -/
def Tree.nodes : Tree → List Tree
  | .node type name arguments assignments =>
    .node type name arguments assignments :: Assignment.nodesAll assignments

def Assignment.nodes : Assignment → List Tree
  | .literal _ _ => []
  | .children _ trees => Tree.nodesAll trees

def Assignment.nodesAll : List Assignment → List Tree
  | [] => []
  | a :: as => a.nodes ++ Assignment.nodesAll as

def Tree.nodesAll : List Tree → List Tree
  | [] => []
  | t :: ts => t.nodes ++ Tree.nodesAll ts

end

theorem Assignment.nodesAll_eq_flatMap (as : List Assignment) :
    Assignment.nodesAll as = as.flatMap Assignment.nodes := by
  induction as with
  | nil => rfl
  | cons a as ih => rw [nodesAll, ih, List.flatMap_cons]

theorem Assignment.nodesAll_append (as bs : List Assignment) :
    Assignment.nodesAll (as ++ bs) = Assignment.nodesAll as ++ Assignment.nodesAll bs := by
  simp [nodesAll_eq_flatMap]

theorem Tree.nodesAll_eq_flatMap (ts : List Tree) :
    Tree.nodesAll ts = ts.flatMap Tree.nodes := by
  induction ts with
  | nil => rfl
  | cons t ts ih => rw [nodesAll, ih, List.flatMap_cons]

theorem Tree.self_mem_nodes (t : Tree) : t ∈ t.nodes := by
  obtain ⟨type, name, arguments, assignments⟩ := t
  exact List.mem_cons_self

mutual

/-- What holds of every node holds of the whole tree. -/
theorem Tree.forall_of_nodes {p : Tree → Prop} : (t : Tree) → (∀ u ∈ t.nodes, p u) → t.Forall p
  | .node type name arguments assignments => by
    intro h
    rw [Tree.nodes, List.forall_mem_cons] at h
    exact .node h.1 (Assignment.forall_of_nodesAll assignments h.2)

theorem Assignment.forall_of_nodes {p : Tree → Prop} :
    (a : Assignment) → (∀ u ∈ a.nodes, p u) → ∀ t ∈ a.trees, t.Forall p
  | .literal _ _ => by simp [Assignment.trees]
  | .children _ trees => Tree.forall_of_nodesAll trees

theorem Assignment.forall_of_nodesAll {p : Tree → Prop} :
    (as : List Assignment) → (∀ u ∈ Assignment.nodesAll as, p u) →
      ∀ a ∈ as, ∀ t ∈ a.trees, t.Forall p
  | [] => by simp
  | a :: as => by
    intro h
    rw [Assignment.nodesAll, List.forall_mem_append] at h
    exact List.forall_mem_cons.2
      ⟨Assignment.forall_of_nodes a h.1, Assignment.forall_of_nodesAll as h.2⟩

theorem Tree.forall_of_nodesAll {p : Tree → Prop} :
    (ts : List Tree) → (∀ u ∈ Tree.nodesAll ts, p u) → ∀ t ∈ ts, t.Forall p
  | [] => by simp
  | t :: ts => by
    intro h
    rw [Tree.nodesAll, List.forall_mem_append] at h
    exact List.forall_mem_cons.2 ⟨Tree.forall_of_nodes t h.1, Tree.forall_of_nodesAll ts h.2⟩

end

mutual

theorem Tree.length_nodes : (t : Tree) → t.nodes.length = t.size
  | .node type name arguments assignments => by
    rw [Tree.nodes, List.length_cons, Assignment.length_nodesAll assignments, Tree.size,
      Nat.add_comm]

theorem Assignment.length_nodes : (a : Assignment) → a.nodes.length = a.size
  | .literal _ _ => rfl
  | .children _ trees => Tree.length_nodesAll trees

theorem Assignment.length_nodesAll :
    (as : List Assignment) → (Assignment.nodesAll as).length = Assignment.sizeAll as
  | [] => rfl
  | a :: as => by
    rw [Assignment.nodesAll, List.length_append, Assignment.length_nodes a,
      Assignment.length_nodesAll as, Assignment.sizeAll]

theorem Tree.length_nodesAll : (ts : List Tree) → (Tree.nodesAll ts).length = Tree.sizeAll ts
  | [] => rfl
  | t :: ts => by
    rw [Tree.nodesAll, List.length_append, Tree.length_nodes t, Tree.length_nodesAll ts,
      Tree.sizeAll]

end

namespace Tree

/-- The members that the assignments of a node are to. -/
def members (t : Tree) : List Member :=
  t.assignments.map Assignment.member

/-- Some members of the node depend on each other in a circle. -/
def HasCircle (t : Tree) : Prop :=
  ∃ i, TransGen (Precedes t.members) i i

/-- What a node is of, and the members it assigns, in no order. -/
def outline (t : Tree) : TypeName × Multiset Member :=
  (t.type, t.members)

theorem hasCircle_iff {t : Tree} : t.HasCircle ↔ Circular Assignment.member t.assignments := by
  rw [HasCircle, ← circular_iff, members, circular_map, Function.id_comp]

theorem outline_eq_iff {t u : Tree} :
    t.outline = u.outline ↔ t.type = u.type ∧ t.members.Perm u.members := by
  rw [outline, outline, Prod.mk.injEq, Multiset.coe_eq_coe]

theorem hasCircle_congr {t u : Tree} (h : t.outline = u.outline) :
    t.HasCircle ↔ u.HasCircle := by
  rw [HasCircle, HasCircle, ← circular_iff, ← circular_iff, circular_perm (outline_eq_iff.1 h).2]

/-! ## Reordering -/

/-- The assignments of one node stand in another order: of the tree itself, or of one inside it. -/
inductive Exchange : Tree → Tree → Prop
  | here {type : TypeName} {name : Option String} {arguments : List String}
      {as bs : List Assignment} :
      as.Perm bs → Exchange (.node type name arguments as) (.node type name arguments bs)
  | inside {type : TypeName} {name : Option String} {arguments : List String}
      {pre post : List Assignment} {m : Member} {ts us : List Tree} {t t' : Tree} :
      Exchange t t' →
        Exchange (.node type name arguments (pre ++ .children m (ts ++ t :: us) :: post))
          (.node type name arguments (pre ++ .children m (ts ++ t' :: us) :: post))

/-- The same tree, the assignments of every node in any order. -/
def Reordered : Tree → Tree → Prop :=
  ReflTransGen Exchange

theorem Exchange.symm {t u : Tree} (h : t.Exchange u) : u.Exchange t := by
  induction h with
  | here h => exact .here h.symm
  | inside _ ih => exact .inside ih

instance : Std.Symm Exchange :=
  ⟨fun _ _ => Exchange.symm⟩

namespace Reordered

variable {t u v : Tree}

theorem refl (t : Tree) : t.Reordered t := ReflTransGen.refl

theorem trans (htu : t.Reordered u) (huv : u.Reordered v) : t.Reordered v :=
  ReflTransGen.trans htu huv

instance : Std.Symm Reordered :=
  Relation.ReflTransGen.stdSymm

theorem symm (h : t.Reordered u) : u.Reordered t :=
  Std.Symm.symm t u h

theorem inside {type : TypeName} {name : Option String} {arguments : List String}
    {pre post : List Assignment} {m : Member} {ts us : List Tree} (h : t.Reordered u) :
    Tree.Reordered (.node type name arguments (pre ++ .children m (ts ++ t :: us) :: post))
      (.node type name arguments (pre ++ .children m (ts ++ u :: us) :: post)) := by
  induction h with
  | refl => exact refl _
  | tail _ h ih => exact ih.tail (.inside h)

end Reordered

/-! ## What stays -/

theorem Exchange.outlines {t u : Tree} (h : t.Exchange u) :
    (t.nodes.map outline).Perm (u.nodes.map outline) := by
  induction h with
  | @here type name arguments as bs h =>
    have houtline : (Tree.node type name arguments as).outline =
        (Tree.node type name arguments bs).outline :=
      outline_eq_iff.2 ⟨rfl, h.map _⟩
    rw [nodes, nodes, List.map_cons, List.map_cons, houtline, Assignment.nodesAll_eq_flatMap,
      Assignment.nodesAll_eq_flatMap]
    exact ((h.flatMap_right _).map _).cons _
  | @inside type name arguments pre post m ts us t t' _ ih =>
    have houtline : (Tree.node type name arguments
          (pre ++ .children m (ts ++ t :: us) :: post)).outline =
        (Tree.node type name arguments (pre ++ .children m (ts ++ t' :: us) :: post)).outline :=
      outline_eq_iff.2 ⟨rfl, by simp [members, assignments, Assignment.member]⟩
    rw [nodes, nodes, List.map_cons, List.map_cons, houtline]
    simp only [Assignment.nodesAll_eq_flatMap, List.flatMap_append, List.flatMap_cons,
      Assignment.nodes, nodesAll_eq_flatMap, List.map_append]
    exact (((ih.append_right _).append_left _).append_right _ |>.append_left _).cons _

/-- Reordered trees have nodes of the same types that assign the same members. -/
theorem Reordered.outlines {t u : Tree} (h : t.Reordered u) :
    (t.nodes.map outline).Perm (u.nodes.map outline) := by
  induction h with
  | refl => exact .refl _
  | tail _ h ih => exact ih.trans h.outlines

/-- A node of a reordered tree is one of the tree but for the order of its members. -/
theorem Reordered.exists_node {t u : Tree} (h : t.Reordered u) {n : Tree} (hn : n ∈ u.nodes) :
    ∃ k ∈ t.nodes, k.outline = n.outline := by
  have hmem := h.outlines.mem_iff.2 (List.mem_map_of_mem (f := outline) hn)
  exact List.mem_map.1 hmem

theorem Reordered.size_eq {t u : Tree} (h : t.Reordered u) : t.size = u.size := by
  simpa [length_nodes] using h.outlines.length_eq

/-- The number of assignments of all nodes. -/
def assignmentCount (t : Tree) : Nat :=
  (t.nodes.flatMap assignments).length

theorem Reordered.assignmentCount_eq {t u : Tree} (h : t.Reordered u) :
    t.assignmentCount = u.assignmentCount := by
  have hcard : (fun n : Tree => n.assignments.length) = (·.2.card) ∘ outline := by
    funext n
    simp [outline, members]
  rw [assignmentCount, assignmentCount, List.length_flatMap, List.length_flatMap, hcard,
    ← List.map_map, ← List.map_map]
  exact (h.outlines.map _).sum_nat

theorem Reordered.hasCircle_iff {t u : Tree} (h : t.Reordered u) :
    (∃ n ∈ t.nodes, n.HasCircle) ↔ ∃ n ∈ u.nodes, n.HasCircle := by
  constructor
  · rintro ⟨n, hn, hcircle⟩
    obtain ⟨k, hk, houtline⟩ := h.symm.exists_node hn
    exact ⟨k, hk, (hasCircle_congr houtline).2 hcircle⟩
  · rintro ⟨n, hn, hcircle⟩
    obtain ⟨k, hk, houtline⟩ := h.exists_node hn
    exact ⟨k, hk, (hasCircle_congr houtline).2 hcircle⟩

end Tree
end ObjectMarkup
