/-
What sorting makes of a tree, and when it fails.

`Tree.arranged` is the tree with the assignments of every node in dependency order, whether or not
there is one: a node whose members depend on each other in a circle keeps them as they stand.
Sorting looks at the nodes of this tree one after the other, each before those inside it, and ends
at the first that has no order; else the tree is the result (`Tree.sort_eq`).  So writing a tree
fails just when one of its nodes has a circle (`Tree.write_error_iff`), and the failure is that of
the first (`Tree.write_eq_error_iff`).
-/
import ObjectMarkup.Proofs.Reordering

namespace ObjectMarkup

open ObjectMarkup.Order

/-! ## Dependency order -/

section

variable {α β : Type} {owner : TypeName} {key : α → Member} {xs ys : List α}

/-- The elements in the order of their members, or as they stand where there is none. -/
def inDependencyOrder (owner : TypeName) (key : α → Member) (xs : List α) : List α :=
  match dependencyOrder owner (xs.map key) with
  | .ok order => order.filterMap (xs[·]?)
  | .error _ => xs

theorem dependencyOrder_of_error {e : Error} (h : arrange owner key xs = .error e) :
    dependencyOrder owner (xs.map key) = .error e := by
  rw [arrange] at h
  cases horder : dependencyOrder owner (xs.map key) with
  | error e' =>
    rw [horder] at h
    exact congrArg _ (Except.error.inj h)
  | ok order =>
    rw [horder] at h
    cases h

theorem dependencyOrder_of_ok (h : arrange owner key xs = .ok ys) :
    ∃ order, dependencyOrder owner (xs.map key) = .ok order ∧ order.filterMap (xs[·]?) = ys := by
  rw [arrange] at h
  cases horder : dependencyOrder owner (xs.map key) with
  | error e =>
    rw [horder] at h
    cases h
  | ok order =>
    rw [horder] at h
    exact ⟨order, rfl, Except.ok.inj h⟩

theorem inDependencyOrder_of_ok (h : arrange owner key xs = .ok ys) :
    inDependencyOrder owner key xs = ys := by
  obtain ⟨order, horder, hys⟩ := dependencyOrder_of_ok h
  rw [inDependencyOrder, horder, ← hys]

theorem inDependencyOrder_of_error {e : Error} (h : arrange owner key xs = .error e) :
    inDependencyOrder owner key xs = xs := by
  rw [inDependencyOrder, dependencyOrder_of_error h]

theorem inDependencyOrder_perm (owner : TypeName) (key : α → Member) (xs : List α) :
    (inDependencyOrder owner key xs).Perm xs := by
  cases h : arrange owner key xs with
  | ok ys => exact inDependencyOrder_of_ok h ▸ arrange_perm h
  | error e => rw [inDependencyOrder_of_error h]

theorem inDependencyOrder_inOrder (h : ¬ Circular key xs) :
    InOrder key (inDependencyOrder owner key xs) := by
  cases harrange : arrange owner key xs with
  | ok ys => exact inDependencyOrder_of_ok harrange ▸ arrange_inOrder harrange
  | error e => exact absurd ((arrange_error_iff owner key xs).1 ⟨e, harrange⟩) h

/-- A chain comes into the same order from wherever its elements stand. -/
theorem inDependencyOrder_of_chain (hchain : Chain key xs) (h : ¬ Circular key xs)
    (hperm : xs.Perm ys) : inDependencyOrder owner key xs = inDependencyOrder owner key ys := by
  have hxs := inDependencyOrder_perm owner key xs
  have hys := inDependencyOrder_perm owner key ys
  exact Chain.eq_of_perm ((chain_perm hxs).2 hchain) (inDependencyOrder_inOrder h)
    (inDependencyOrder_inOrder fun hys => h ((circular_perm hperm).2 hys))
    ((hxs.trans hperm).trans hys.symm)

theorem inDependencyOrder_map (f : α → β) (key : β → Member) (xs : List α) :
    inDependencyOrder owner key (xs.map f) = (inDependencyOrder owner (key ∘ f) xs).map f := by
  have hmap := arrange_map owner f key xs
  cases h : arrange owner (key ∘ f) xs with
  | ok ys =>
    rw [h] at hmap
    rw [inDependencyOrder_of_ok h, inDependencyOrder_of_ok hmap]
  | error e =>
    rw [h] at hmap
    rw [inDependencyOrder_of_error h, inDependencyOrder_of_error hmap]

end

/-! ## Trees in order -/

mutual

/-- The tree with the assignments of every node in dependency order; where there is none, they
stand as they are written. -/
def Tree.arranged : Tree → Tree
  | .node type name arguments assignments =>
    .node type name arguments
      (inDependencyOrder type Assignment.member (Assignment.arrangedAll assignments))

def Assignment.arranged : Assignment → Assignment
  | .literal m s => .literal m s
  | .children m trees => .children m (Tree.arrangedAll trees)

def Assignment.arrangedAll : List Assignment → List Assignment
  | [] => []
  | a :: as => a.arranged :: Assignment.arrangedAll as

def Tree.arrangedAll : List Tree → List Tree
  | [] => []
  | t :: ts => t.arranged :: Tree.arrangedAll ts

end

theorem Assignment.arrangedAll_eq_map (as : List Assignment) :
    Assignment.arrangedAll as = as.map Assignment.arranged := by
  induction as with
  | nil => rfl
  | cons a as ih => rw [arrangedAll, ih, List.map_cons]

theorem Tree.arrangedAll_eq_map (ts : List Tree) :
    Tree.arrangedAll ts = ts.map Tree.arranged := by
  induction ts with
  | nil => rfl
  | cons t ts ih => rw [arrangedAll, ih, List.map_cons]

theorem Assignment.member_arranged (a : Assignment) : a.arranged.member = a.member := by
  cases a <;> rfl

/-- The assignments of a node in order, those inside them in order too. -/
theorem Tree.arranged_node (type : TypeName) (name : Option String) (arguments : List String)
    (assignments : List Assignment) :
    (Tree.node type name arguments assignments).arranged = .node type name arguments
      ((inDependencyOrder type Assignment.member assignments).map Assignment.arranged) := by
  have hkey : Assignment.member ∘ Assignment.arranged = Assignment.member :=
    funext Assignment.member_arranged
  rw [arranged, Assignment.arrangedAll_eq_map, inDependencyOrder_map, hkey]

mutual

/-- A tree and what sorting makes of it differ in the order of assignments. -/
theorem Tree.reordered_arranged : (t : Tree) → t.Reordered t.arranged
  | .node type name arguments assignments => by
    have hinside : Tree.Reordered (.node type name arguments ([] ++ assignments)) _ :=
      Assignment.reordered_arrangedAll assignments
    rw [Tree.arranged]
    exact hinside.tail (.here (inDependencyOrder_perm _ _ _).symm)

theorem Assignment.reordered_arranged : (a : Assignment) → {type : TypeName} →
    {name : Option String} → {arguments : List String} → {pre post : List Assignment} →
      Tree.Reordered (.node type name arguments (pre ++ a :: post))
        (.node type name arguments (pre ++ a.arranged :: post))
  | .literal _ _, _, _, _, _, _ => .refl _
  | .children _ trees, _, _, _, _, _ => Tree.reordered_arrangedAll [] trees

theorem Assignment.reordered_arrangedAll : (as : List Assignment) → {type : TypeName} →
    {name : Option String} → {arguments : List String} → {pre : List Assignment} →
      Tree.Reordered (.node type name arguments (pre ++ as))
        (.node type name arguments (pre ++ Assignment.arrangedAll as))
  | [], _, _, _, _ => .refl _
  | a :: as, type, name, arguments, pre => by
    have hrest : Tree.Reordered (.node type name arguments ((pre ++ [a.arranged]) ++ as)) _ :=
      Assignment.reordered_arrangedAll as
    rw [List.append_assoc, List.append_assoc] at hrest
    exact (Assignment.reordered_arranged a).trans hrest

theorem Tree.reordered_arrangedAll : (before ts : List Tree) → {type : TypeName} →
    {name : Option String} → {arguments : List String} → {pre post : List Assignment} →
    {m : Member} →
      Tree.Reordered (.node type name arguments (pre ++ .children m (before ++ ts) :: post))
        (.node type name arguments
          (pre ++ .children m (before ++ Tree.arrangedAll ts) :: post))
  | _, [], _, _, _, _, _, _ => .refl _
  | before, t :: ts, type, name, arguments, pre, post, m => by
    have hrest : Tree.Reordered (.node type name arguments
        (pre ++ .children m ((before ++ [t.arranged]) ++ ts) :: post)) _ :=
      Tree.reordered_arrangedAll (before ++ [t.arranged]) ts
    rw [List.append_assoc, List.append_assoc] at hrest
    exact (Tree.reordered_arranged t).inside.trans hrest

end

/-! ## Sorting -/

/-- The order of the members of a node. -/
def Tree.memberOrder (n : Tree) : Except Error (List Nat) :=
  dependencyOrder n.type n.members

theorem Tree.memberOrder_error_iff {n : Tree} : (∃ e, n.memberOrder = .error e) ↔ n.HasCircle := by
  rw [memberOrder, dependencyOrder_error_iff, HasCircle]

/-- An assignment after the other is sorted, if what each looks at has an order. -/
theorem mapM_sort {as : List Assignment}
    (h : ∀ a ∈ as, a.sort = (a.arranged.nodes.mapM Tree.memberOrder).map fun _ => a.arranged) :
    as.mapM Assignment.sort =
      ((Assignment.nodesAll (as.map Assignment.arranged)).mapM Tree.memberOrder).map fun _ =>
        as.map Assignment.arranged := by
  induction as with
  | nil => rfl
  | cons a as ih =>
    rw [List.mapM_cons, h a List.mem_cons_self,
      ih fun b hb => h b (List.mem_cons_of_mem a hb), List.map_cons, Assignment.nodesAll,
      List.mapM_append]
    cases a.arranged.nodes.mapM Tree.memberOrder with
    | error e => rfl
    | ok orders =>
      cases (Assignment.nodesAll (as.map Assignment.arranged)).mapM Tree.memberOrder <;> rfl

mutual

/-- Sorting finds the order of one node after the other, those of the tree in order. -/
theorem Tree.sort_eq : (t : Tree) →
    t.sort = (t.arranged.nodes.mapM Tree.memberOrder).map fun _ => t.arranged
  | .node type name arguments assignments => by
    have hmap := arrange_map type (fun a : Assignment => (a.member, a.sort)) Prod.fst assignments
    have hkey : Prod.fst ∘ (fun a : Assignment => (a.member, a.sort)) = Assignment.member := rfl
    rw [hkey] at hmap
    rw [Tree.sort, Assignment.sortEach_eq_map, hmap, Tree.arranged_node, Tree.nodes,
      List.mapM_cons]
    have hmembers : ∀ as : List Assignment, Tree.members (.node type name arguments
        (as.map Assignment.arranged)) = as.map Assignment.member := fun as => by
      simp [Tree.members, Tree.assignments, Function.comp_def, Assignment.member_arranged]
    cases harrange : arrange type Assignment.member assignments with
    | error e =>
      rw [inDependencyOrder_of_error harrange]
      have horder := dependencyOrder_of_error harrange
      rw [Tree.memberOrder, hmembers, Tree.type, horder]
      rfl
    | ok order =>
      rw [inDependencyOrder_of_ok harrange]
      have hagain := arrange_of_inOrder type (arrange_inOrder harrange)
      obtain ⟨positions, hpositions, -⟩ := dependencyOrder_of_ok hagain
      rw [Tree.memberOrder, hmembers, Tree.type, hpositions]
      have hsorted : order.mapM Assignment.sort = _ := mapM_sort fun a ha =>
        Assignment.sortEach_sort_eq assignments a ((arrange_perm harrange).mem_iff.1 ha)
      change ((order.map fun a => (a.member, a.sort)).mapM Prod.snd >>= fun sorted =>
        pure (Tree.node type name arguments sorted)) = _
      rw [List.mapM_map, Function.comp_def, hsorted]
      cases (Assignment.nodesAll (order.map Assignment.arranged)).mapM Tree.memberOrder <;> rfl

theorem Assignment.sort_eq : (a : Assignment) →
    a.sort = (a.arranged.nodes.mapM Tree.memberOrder).map fun _ => a.arranged
  | .literal m s => rfl
  | .children m trees => by
    rw [Assignment.sort, Tree.sortAll_eq trees, Assignment.arranged, Assignment.nodes]
    cases (Tree.nodesAll (Tree.arrangedAll trees)).mapM Tree.memberOrder <;> rfl

theorem Assignment.sortEach_sort_eq : (as : List Assignment) → (a : Assignment) → a ∈ as →
    a.sort = (a.arranged.nodes.mapM Tree.memberOrder).map fun _ => a.arranged
  | [], _, ha => absurd ha List.not_mem_nil
  | b :: bs, a, ha => by
    rcases List.mem_cons.1 ha with heq | ha
    · exact heq ▸ Assignment.sort_eq b
    · exact Assignment.sortEach_sort_eq bs a ha

theorem Tree.sortAll_eq : (ts : List Tree) → Tree.sortAll ts =
    ((Tree.nodesAll (Tree.arrangedAll ts)).mapM Tree.memberOrder).map fun _ => Tree.arrangedAll ts
  | [] => rfl
  | t :: ts => by
    rw [Tree.sortAll, Tree.sort_eq t, Tree.sortAll_eq ts, Tree.arrangedAll, Tree.nodesAll,
      List.mapM_append]
    cases t.arranged.nodes.mapM Tree.memberOrder with
    | error e => rfl
    | ok orders =>
      cases (Tree.nodesAll (Tree.arrangedAll ts)).mapM Tree.memberOrder <;> rfl

end

/-! ## Writing -/

theorem mapM_eq_error_iff {ε α β : Type} {f : α → Except ε β} {xs : List α} {e : ε} :
    xs.mapM f = .error e ↔
      ∃ pre x post, xs = pre ++ x :: post ∧ (∀ y ∈ pre, ¬ ∃ e, f y = .error e) ∧
        f x = .error e := by
  constructor
  · intro h
    induction xs with
    | nil => cases h
    | cons x xs ih =>
      rw [List.mapM_cons] at h
      rcases Answer.bind_eq_error.1 h with hx | ⟨y, hy, h⟩
      · exact ⟨[], x, xs, rfl, fun _ hy => absurd hy List.not_mem_nil, hx⟩
      · rcases Answer.bind_eq_error.1 h with hrest | ⟨rest, -, h⟩
        · obtain ⟨pre, z, post, rfl, hpre, hz⟩ := ih hrest
          refine ⟨x :: pre, z, post, rfl, fun u hu => ?_, hz⟩
          rcases List.mem_cons.1 hu with rfl | hu
          · rintro ⟨e, he⟩
            rw [hy] at he
            cases he
          · exact hpre u hu
        · cases h
  · rintro ⟨pre, x, post, rfl, hpre, hx⟩
    induction pre with
    | nil =>
      rw [List.nil_append, List.mapM_cons, hx]
      rfl
    | cons y pre ih =>
      rw [List.cons_append, List.mapM_cons, ih fun u hu => hpre u (List.mem_cons_of_mem y hu)]
      cases hy : f y with
      | error e' => exact absurd ⟨e', hy⟩ (hpre y List.mem_cons_self)
      | ok z => rfl

theorem exists_mapM_error {ε α β : Type} {f : α → Except ε β} {xs : List α} {x : α} {e : ε}
    (hx : x ∈ xs) (h : f x = .error e) : ∃ e, xs.mapM f = .error e := by
  induction xs with
  | nil => cases hx
  | cons y ys ih =>
    rw [List.mapM_cons]
    cases hy : f y with
    | error e' => exact ⟨e', rfl⟩
    | ok z =>
      rcases List.mem_cons.1 hx with rfl | hx
      · rw [h] at hy
        cases hy
      · obtain ⟨e', he'⟩ := ih hx
        exact ⟨e', by rw [he']; rfl⟩

namespace Tree

/-- Writing looks at one node after the other, those of the tree in order. -/
theorem write_eq (t : Tree) :
    t.write = (t.arranged.nodes.mapM memberOrder).map fun _ => t.arranged.instructions := by
  rw [write, sort_eq]
  cases t.arranged.nodes.mapM memberOrder <;> rfl

theorem write_eq_error {t : Tree} {e : Error} :
    t.write = .error e ↔ t.arranged.nodes.mapM memberOrder = .error e := by
  rw [write_eq]
  cases t.arranged.nodes.mapM memberOrder <;> simp [Except.map]

theorem write_ok {t : Tree} {stream : List Instruction} (h : t.write = .ok stream) :
    stream = t.arranged.instructions := by
  rw [write_eq] at h
  obtain ⟨-, -, rfl⟩ := Answer.map_eq_ok.1 h
  rfl

/-- The failure of writing is that of the first node that has a circle. -/
theorem write_eq_error_iff {t : Tree} {e : Error} :
    t.write = .error e ↔ ∃ pre n post, t.arranged.nodes = pre ++ n :: post ∧
      (∀ k ∈ pre, ¬ k.HasCircle) ∧ n.memberOrder = .error e := by
  rw [write_eq_error, mapM_eq_error_iff]
  simp only [memberOrder_error_iff]

/-- Writing fails just when a node has a circle, in whatever order its assignments stand. -/
theorem write_error_iff {t : Tree} :
    (∃ e, t.write = .error e) ↔ ∃ n ∈ t.nodes, n.HasCircle := by
  rw [t.reordered_arranged.hasCircle_iff]
  simp only [write_eq_error, ← memberOrder_error_iff]
  constructor
  · rintro ⟨e, h⟩
    obtain ⟨n, hn, he⟩ := mem_of_mapM_error h
    exact ⟨n, hn, e, he⟩
  · rintro ⟨n, hn, e, he⟩
    exact exists_mapM_error hn he

theorem write_dependencyCycle_iff {t : Tree} :
    (∃ owner names, t.write = .error (.dependencyCycle owner names)) ↔
      ∃ n ∈ t.nodes, n.HasCircle := by
  rw [← write_error_iff]
  constructor
  · rintro ⟨owner, names, h⟩
    exact ⟨_, h⟩
  · rintro ⟨e, h⟩
    obtain ⟨owner, names, rfl⟩ := write_error h
    exact ⟨owner, names, h⟩

theorem sort_of_not_hasCircle {t : Tree} (h : ∀ n ∈ t.nodes, ¬ n.HasCircle) :
    t.sort = .ok t.arranged := by
  cases hsort : t.sort with
  | error e =>
    obtain ⟨n, hn, hcircle⟩ := write_error_iff.1 ⟨e, by rw [write, hsort]; rfl⟩
    exact absurd hcircle (h n hn)
  | ok u =>
    rw [sort_eq] at hsort
    obtain ⟨-, -, rfl⟩ := Answer.map_eq_ok.1 hsort
    rfl

end Tree
end ObjectMarkup
