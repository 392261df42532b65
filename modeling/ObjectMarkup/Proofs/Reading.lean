/-
Reading a written stream back.

`Reader` goes through a stream once, from left to right, and keeps the objects that are open; where
an object ends is told by the nesting alone.  It gives a tree just for the stream of this tree
(`read_eq_some_iff`), so that a stream determines its tree and a written one the tree in dependency
order.  `Nested` says that objects and members start and end in pairs; the stream of a tree is
nested, and no beginning of it is.

Streams are also compared with members told apart by owner and name only.  Such a comparison is the
one of trees whose members are reduced to these (`Tree.bare`).

The main theorem is `Tree.write_determines`.
-/
import ObjectMarkup.Proofs.Arrangement
import ObjectMarkup.Proofs.Templates

namespace ObjectMarkup

/-! ## Reading -/

/-- An object that is being read: the assignments that are complete, and the one under way. -/
structure Draft where
  start : ObjectStart
  complete : List Assignment := []
  current : Option Assignment := none

def Draft.tree (d : Draft) : Tree :=
  .node d.start.type d.start.name d.start.arguments d.complete

/-- Where a reader stands: before the first object, inside open ones, or behind it. -/
inductive Reader where
  | start
  | inside (top : Draft) (around : List Draft)
  | done (t : Tree)

namespace Reader

/-- An object is complete, and goes into the assignment under way around it. -/
def leave (t : Tree) : List Draft → Option Reader
  | [] => some (.done t)
  | outer :: around =>
    match outer.current with
    | some (.children m ts) =>
      some (.inside { outer with current := some (.children m (ts ++ [t])) } around)
    | _ => none

/-- Reads the next instruction inside an object.  A member has received no objects until it receives
anything. -/
def nextInside (top : Draft) (around : List Draft) (i : Instruction) : Option Reader :=
  match i, top.current with
  | .startObject s, some (.children _ _) => some (.inside { start := s } (top :: around))
  | .startMember m, none => some (.inside { top with current := some (.children m []) } around)
  | .value s, some (.children m []) =>
    some (.inside { top with current := some (.literal m s) } around)
  | .endMember, some a =>
    some (.inside { top with complete := top.complete ++ [a], current := none } around)
  | .endObject, none => leave top.tree around
  | _, _ => none

/-- Reads the next instruction. -/
def next : Reader → Instruction → Option Reader
  | .start, .startObject s => some (.inside { start := s } [])
  | .start, _ => none
  | .inside top around, i => nextInside top around i
  | .done _, _ => none

def after (r : Reader) : List Instruction → Option Reader
  | [] => some r
  | i :: is => (r.next i).bind fun r => r.after is

theorem after_append (r : Reader) (is js : List Instruction) :
    r.after (is ++ js) = (r.after is).bind fun r => r.after js := by
  induction is generalizing r with
  | nil => rfl
  | cons i is ih =>
    rw [List.cons_append, after, after, Option.bind_assoc]
    exact congrArg _ (funext ih)

end Reader

/-- The tree that a stream is read as. -/
def read (stream : List Instruction) : Option Tree :=
  match Reader.start.after stream with
  | some (.done t) => some t
  | _ => none

/-! ## What was read is what is written -/

/-- The stream of what was read of an object so far. -/
def Draft.written (d : Draft) : List Instruction :=
  .startObject d.start :: (Assignment.instructionsAll d.complete ++
    match d.current with
    | none => []
    | some a => .startMember a.member :: a.contents)

def Reader.written : Reader → List Instruction
  | .start => []
  | .inside top around => around.reverse.flatMap Draft.written ++ top.written
  | .done t => t.instructions

theorem Draft.written_receive {d : Draft} {m : Member} {ts : List Tree}
    (h : d.current = some (.children m ts)) (t : Tree) :
    Draft.written { d with current := some (.children m (ts ++ [t])) } =
      d.written ++ t.instructions := by
  simp [written, h, Assignment.contents, Assignment.member, Tree.instructionsAll_append,
    Tree.instructionsAll]

theorem Reader.written_leave {t : Tree} {around : List Draft} {r : Reader}
    (h : leave t around = some r) :
    r.written = around.reverse.flatMap Draft.written ++ t.instructions := by
  cases around with
  | nil =>
    obtain rfl := Option.some.inj h
    rfl
  | cons outer around =>
    rw [leave] at h
    split at h
    · next m ts hcurrent =>
      obtain rfl := Option.some.inj h
      simp [written, Draft.written_receive hcurrent]
    · cases h

/-- An instruction that is read is written behind what was read before. -/
theorem Reader.written_next {r r' : Reader} {i : Instruction} (h : r.next i = some r') :
    r'.written = r.written ++ [i] := by
  cases r with
  | done t => cases h
  | start =>
    cases i with
    | startObject s =>
      obtain rfl := Option.some.inj h
      rfl
    | getObject | startMember m | value s | endMember | endObject => cases h
  | inside top around =>
    rw [next, nextInside.eq_def] at h
    split at h
    · next s m ts hcurrent =>
      obtain rfl := Option.some.inj h
      simp [written, Draft.written, Assignment.instructionsAll]
    · next m hcurrent =>
      obtain rfl := Option.some.inj h
      simp [written, Draft.written, hcurrent, Assignment.contents, Assignment.member,
        Tree.instructionsAll]
    · next s m hcurrent =>
      obtain rfl := Option.some.inj h
      simp [written, Draft.written, hcurrent, Assignment.contents, Assignment.member,
        Tree.instructionsAll]
    · next a hcurrent =>
      obtain rfl := Option.some.inj h
      simp [written, Draft.written, hcurrent, Assignment.instructionsAll_append,
        Assignment.instructionsAll, Assignment.instructions_eq]
    · next hcurrent =>
      rw [written_leave h]
      simp [written, Draft.written, hcurrent, Draft.tree, Tree.instructions]
    · cases h

theorem Reader.written_after {is : List Instruction} {r r' : Reader} (h : r.after is = some r') :
    r'.written = r.written ++ is := by
  induction is generalizing r with
  | nil =>
    obtain rfl := Option.some.inj h
    rw [List.append_nil]
  | cons i is ih =>
    obtain ⟨r₁, hi, h⟩ := Option.bind_eq_some_iff.1 h
    rw [ih h, written_next hi, List.append_assoc, List.singleton_append]

/-! ## What is written is read -/

namespace Reader

variable {top : Draft} {around : List Draft}

mutual

/-- A tree that is read goes into the assignment under way. -/
theorem after_tree : (t : Tree) → {top : Draft} → {around : List Draft} → {m : Member} →
    {ts : List Tree} → top.current = some (.children m ts) →
      (inside top around).after t.instructions =
        some (.inside { top with current := some (.children m (ts ++ [t])) } around)
  | .node type name arguments assignments, top, around, m, ts, h => by
    rw [Tree.instructions, after, next, nextInside.eq_def, h, Option.bind_some, after_append,
      after_assignments assignments rfl, Option.bind_some, after, next, nextInside.eq_def, leave, h]
    rfl

theorem after_assignment : (a : Assignment) → {top : Draft} → {around : List Draft} →
    top.current = none → (inside top around).after a.instructions =
      some (.inside { top with complete := top.complete ++ [a], current := none } around)
  | .literal m s, top, around, h => by
    rw [Assignment.instructions, after, next, nextInside.eq_def, h]
    rfl
  | .children m trees, top, around, h => by
    rw [Assignment.instructions, after, next, nextInside.eq_def, h, Option.bind_some, after_append,
      after_trees trees rfl]
    rfl

theorem after_assignments : (as : List Assignment) → {top : Draft} → {around : List Draft} →
    top.current = none → (inside top around).after (Assignment.instructionsAll as) =
      some (.inside { top with complete := top.complete ++ as, current := none } around)
  | [], top, around, h => by
    rw [Assignment.instructionsAll, after, List.append_nil, ← h]
  | a :: as, top, around, h => by
    rw [Assignment.instructionsAll, after_append, after_assignment a h, Option.bind_some,
      after_assignments as rfl, List.append_assoc, List.singleton_append]

theorem after_trees : (us : List Tree) → {top : Draft} → {around : List Draft} → {m : Member} →
    {ts : List Tree} → top.current = some (.children m ts) →
      (inside top around).after (Tree.instructionsAll us) =
        some (.inside { top with current := some (.children m (ts ++ us)) } around)
  | [], top, around, m, ts, h => by
    rw [Tree.instructionsAll, after, List.append_nil, ← h]
  | u :: us, top, around, m, ts, h => by
    rw [Tree.instructionsAll, after_append, after_tree u h, Option.bind_some,
      after_trees us rfl, List.append_assoc, List.singleton_append]

end

end Reader

theorem read_instructions (t : Tree) : read t.instructions = some t := by
  obtain ⟨type, name, arguments, assignments⟩ := t
  rw [read, Tree.instructions, Reader.after, Reader.next, Option.bind_some, Reader.after_append,
    Reader.after_assignments assignments rfl]
  rfl

/-- A stream is read as a tree just when it is the stream of the tree. -/
theorem read_eq_some_iff {stream : List Instruction} {t : Tree} :
    read stream = some t ↔ stream = t.instructions := by
  constructor
  · intro h
    rw [read] at h
    split at h
    · next u hafter =>
      obtain rfl := Option.some.inj h
      exact (Reader.written_after hafter).symm
    · cases h
  · rintro rfl
    exact read_instructions t

theorem Tree.instructions_injective {t u : Tree} (h : t.instructions = u.instructions) : t = u :=
  Option.some.inj ((read_instructions t).symm.trans (h ▸ read_instructions u))

/-! ## Nesting -/

namespace Instruction

/-- Objects and members start and end in pairs. -/
inductive Nested : List Instruction → Prop
  | nil : Nested []
  | value {s : String} {rest : List Instruction} : Nested rest → Nested (.value s :: rest)
  | object {start : ObjectStart} {body rest : List Instruction} :
      Nested body → Nested rest → Nested (.startObject start :: (body ++ .endObject :: rest))
  | placeholder {body rest : List Instruction} :
      Nested body → Nested rest → Nested (.getObject :: (body ++ .endObject :: rest))
  | member {m : Member} {body rest : List Instruction} :
      Nested body → Nested rest → Nested (.startMember m :: (body ++ .endMember :: rest))

def isStartObject : Instruction → Bool
  | startObject _ => true
  | _ => false

def isStartMember : Instruction → Bool
  | startMember _ => true
  | _ => false

def isEndMember : Instruction → Bool
  | endMember => true
  | _ => false

/-- Starts an object or a member, or enters an object. -/
def isOpening : Instruction → Bool
  | startObject _ | getObject | startMember _ => true
  | _ => false

/-- Ends an object or a member. -/
def isClosing : Instruction → Bool
  | endObject | endMember => true
  | _ => false

namespace Nested

theorem append {is js : List Instruction} (hi : Nested is) (hj : Nested js) : Nested (is ++ js) := by
  induction hi with
  | nil => exact hj
  | value _ ih => exact .value ih
  | object hbody _ _ ih => simpa using Nested.object hbody ih
  | placeholder hbody _ _ ih => simpa using Nested.placeholder hbody ih
  | member hbody _ _ ih => simpa using Nested.member hbody ih

theorem countP_eq {is : List Instruction} (h : Nested is) :
    is.countP isClosing = is.countP isOpening := by
  induction h with
  | nil => rfl
  | value _ ih => simpa [isClosing, isOpening] using ih
  | object _ _ ihbody ihrest | placeholder _ _ ihbody ihrest | member _ _ ihbody ihrest =>
    simp only [List.countP_cons, List.countP_append, isClosing, isOpening, reduceIte,
      Bool.false_eq_true, ihbody, ihrest]
    omega

/-- A beginning of two streams in a row ends in the first or holds the first. -/
theorem prefix_append_cases {pre is js : List Instruction} (h : pre <+: is ++ js) :
    pre <+: is ∨ ∃ rest, pre = is ++ rest ∧ rest <+: js := by
  rcases List.prefix_or_prefix_of_prefix h (List.prefix_append is js) with hpre | ⟨rest, rfl⟩
  · exact .inl hpre
  · exact .inr ⟨rest, rfl, (List.prefix_append_right_inj is).1 h⟩

/-- Nothing ends before it has started. -/
theorem countP_le_of_prefix {is pre : List Instruction} (h : Nested is) (hpre : pre <+: is) :
    pre.countP isClosing ≤ pre.countP isOpening := by
  induction h generalizing pre with
  | nil =>
    obtain rfl := List.prefix_nil.1 hpre
    exact Nat.le_refl 0
  | value _ ih =>
    rcases List.prefix_cons_iff.1 hpre with rfl | ⟨tail, rfl, htail⟩
    · exact Nat.le_refl 0
    · simpa [isClosing, isOpening] using ih htail
  | object hbody _ ihbody ihrest | placeholder hbody _ ihbody ihrest
  | member hbody _ ihbody ihrest =>
    rcases List.prefix_cons_iff.1 hpre with rfl | ⟨tail, rfl, htail⟩
    · exact Nat.le_refl 0
    simp only [List.countP_cons, isClosing, isOpening, reduceIte, Bool.false_eq_true]
    rcases prefix_append_cases htail with hinside | ⟨last, rfl, hlast⟩
    · have hle := ihbody hinside
      omega
    have heq := hbody.countP_eq
    rcases List.prefix_cons_iff.1 hlast with rfl | ⟨behind, rfl, hbehind⟩
    · rw [List.append_nil]
      omega
    · have hle := ihrest hbehind
      simp only [List.countP_append, List.countP_cons, isClosing, isOpening, reduceIte,
        Bool.false_eq_true]
      omega

/-- No beginning of an object is nested. -/
theorem eq_of_prefix {start : ObjectStart} {body pre : List Instruction} (hbody : Nested body)
    (hpre : pre <+: .startObject start :: (body ++ [.endObject])) (hne : pre ≠ [])
    (h : Nested pre) : pre = .startObject start :: (body ++ [.endObject]) := by
  have heq := h.countP_eq
  rcases List.prefix_cons_iff.1 hpre with rfl | ⟨tail, rfl, htail⟩
  · exact absurd rfl hne
  -- as long as the object has not ended, more has started than ended
  simp only [List.countP_cons, isClosing, isOpening, reduceIte, Bool.false_eq_true] at heq
  rcases prefix_append_cases htail with hinside | ⟨last, rfl, hlast⟩
  · have hle := hbody.countP_le_of_prefix hinside
    omega
  rcases List.prefix_cons_iff.1 hlast with rfl | ⟨behind, rfl, hbehind⟩
  · have hbody := hbody.countP_eq
    rw [List.append_nil] at heq
    omega
  · rw [List.prefix_nil.1 hbehind]

end Nested

end Instruction

open Instruction (Nested isStartObject isStartMember isEndMember)

mutual

theorem Tree.instructions_nested : (t : Tree) → Nested t.instructions
  | .node _ _ _ assignments => .object (Assignment.instructionsAll_nested assignments) .nil

theorem Assignment.instructions_nested : (a : Assignment) → Nested a.instructions
  | .literal _ _ => .member (.value .nil) .nil
  | .children _ trees => .member (Tree.instructionsAll_nested trees) .nil

theorem Assignment.instructionsAll_nested :
    (as : List Assignment) → Nested (Assignment.instructionsAll as)
  | [] => .nil
  | a :: as => (Assignment.instructions_nested a).append (Assignment.instructionsAll_nested as)

theorem Tree.instructionsAll_nested : (ts : List Tree) → Nested (Tree.instructionsAll ts)
  | [] => .nil
  | t :: ts => (Tree.instructions_nested t).append (Tree.instructionsAll_nested ts)

end

/-! ## What a stream holds -/

/-- The instructions of an assignment, those of the trees in it left out. -/
def Assignment.brackets : Assignment → List Instruction
  | .literal m s => [.startMember m, .value s, .endMember]
  | .children m _ => [.startMember m, .endMember]

/-- The instructions of a node, those of the trees inside it left out. -/
def Tree.brackets (n : Tree) : List Instruction :=
  .startObject { type := n.type, name := n.name, arguments := n.arguments } ::
    (n.assignments.flatMap Assignment.brackets ++ [.endObject])

section

variable (p : Instruction → Bool)

mutual

/-- A stream holds the instructions of all nodes of its tree. -/
theorem Tree.countP_instructions : (t : Tree) →
    t.instructions.countP p = (t.nodes.flatMap Tree.brackets).countP p
  | .node type name arguments assignments => by
    have h := Assignment.countP_instructionsAll assignments
    have hself : (Tree.node type name arguments assignments).brackets =
        .startObject { type, name, arguments } ::
          (assignments.flatMap Assignment.brackets ++ [.endObject]) := rfl
    rw [Tree.instructions, Tree.nodes, List.flatMap_cons, hself]
    simp only [List.cons_append, List.countP_cons, List.countP_append]
    omega

theorem Assignment.countP_instructions : (a : Assignment) → a.instructions.countP p =
    a.brackets.countP p + (a.nodes.flatMap Tree.brackets).countP p
  | .literal _ _ => rfl
  | .children m trees => by
    have h := Tree.countP_instructionsAll trees
    simp only [Assignment.instructions, Assignment.brackets, Assignment.nodes, List.countP_cons,
      List.countP_append, List.countP_nil]
    omega

theorem Assignment.countP_instructionsAll : (as : List Assignment) →
    (Assignment.instructionsAll as).countP p = (as.flatMap Assignment.brackets).countP p +
      ((Assignment.nodesAll as).flatMap Tree.brackets).countP p
  | [] => rfl
  | a :: as => by
    have ha := Assignment.countP_instructions a
    have has := Assignment.countP_instructionsAll as
    simp only [Assignment.instructionsAll, Assignment.nodesAll, List.flatMap_cons,
      List.flatMap_append, List.countP_append]
    omega

theorem Tree.countP_instructionsAll : (ts : List Tree) → (Tree.instructionsAll ts).countP p =
    ((Tree.nodesAll ts).flatMap Tree.brackets).countP p
  | [] => rfl
  | t :: ts => by
    rw [Tree.instructionsAll, Tree.nodesAll, List.countP_append, List.flatMap_append,
      List.countP_append, Tree.countP_instructions t, Tree.countP_instructionsAll ts]

end

end

theorem Tree.countP_startObject (t : Tree) : t.instructions.countP isStartObject = t.size := by
  have hnode : ∀ n : Tree, n.brackets.countP isStartObject = 1 := by
    intro n
    have hnone : ∀ a : Assignment, a.brackets.countP isStartObject = 0 := by
      rintro (⟨m, s⟩ | ⟨m, ts⟩) <;> rfl
    simp [brackets, List.countP_cons, List.countP_flatMap, isStartObject, hnone, Function.comp_def]
  rw [countP_instructions, ← length_nodes]
  simp [List.countP_flatMap, hnode, Function.comp_def]

theorem Tree.countP_startMember (t : Tree) :
    t.instructions.countP isStartMember = t.assignmentCount := by
  have hnode : ∀ n : Tree, n.brackets.countP isStartMember = n.assignments.length := by
    intro n
    have hone : ∀ a : Assignment, a.brackets.countP isStartMember = 1 := by
      rintro (⟨m, s⟩ | ⟨m, ts⟩) <;> rfl
    simp [brackets, List.countP_flatMap, isStartMember, hone, Function.comp_def]
  rw [countP_instructions, assignmentCount]
  simp [List.countP_flatMap, List.length_flatMap, hnode, Function.comp_def]

theorem Instruction.Nested.countP_members {is : List Instruction} (h : Nested is) :
    is.countP isEndMember = is.countP isStartMember := by
  induction h with
  | nil => rfl
  | value _ ih => simpa [isEndMember, isStartMember] using ih
  | object _ _ ihbody ihrest | placeholder _ _ ihbody ihrest | member _ _ ihbody ihrest =>
    simp only [List.countP_cons, List.countP_append, isEndMember, isStartMember, reduceIte,
      Bool.false_eq_true, ihbody, ihrest, Nat.add_zero, Nat.add_assoc]

/-! ## Members told apart by owner and name -/

/-- The member with nothing but what tells it apart. -/
def Member.bare (m : Member) : Member :=
  { owner := m.owner, name := m.name }

theorem Member.same_iff_bare {a b : Member} : a.same b = true ↔ a.bare = b.bare := by
  rw [same_iff]
  simp [bare]

def Instruction.bare : Instruction → Instruction
  | .startMember m => .startMember m.bare
  | i => i

theorem Instruction.same_iff_bare {i j : Instruction} : i.same j = true ↔ i.bare = j.bare := by
  cases i <;> cases j <;> simp [same, bare, Member.same_iff_bare]

theorem Instruction.sameAll_iff_bare {is js : List Instruction} :
    sameAll is js = true ↔ is.map bare = js.map bare := by
  induction is generalizing js with
  | nil => cases js <;> simp [sameAll]
  | cons i is ih => cases js <;> simp [sameAll, same_iff_bare, ih]

mutual

/-- The tree with its members bare. -/
def Tree.bare : Tree → Tree
  | .node type name arguments assignments =>
    .node type name arguments (Assignment.bareAll assignments)

def Assignment.bare : Assignment → Assignment
  | .literal m s => .literal m.bare s
  | .children m trees => .children m.bare (Tree.bareAll trees)

def Assignment.bareAll : List Assignment → List Assignment
  | [] => []
  | a :: as => a.bare :: Assignment.bareAll as

def Tree.bareAll : List Tree → List Tree
  | [] => []
  | t :: ts => t.bare :: Tree.bareAll ts

end

theorem Assignment.bareAll_eq_map (as : List Assignment) :
    Assignment.bareAll as = as.map Assignment.bare := by
  induction as with
  | nil => rfl
  | cons a as ih => rw [bareAll, ih, List.map_cons]

theorem Tree.bareAll_eq_map (ts : List Tree) : Tree.bareAll ts = ts.map Tree.bare := by
  induction ts with
  | nil => rfl
  | cons t ts ih => rw [bareAll, ih, List.map_cons]

mutual

theorem Tree.instructions_bare : (t : Tree) →
    t.bare.instructions = t.instructions.map Instruction.bare
  | .node type name arguments assignments => by
    rw [Tree.bare, Tree.instructions, Tree.instructions,
      Assignment.instructionsAll_bare assignments]
    simp [Instruction.bare]

theorem Assignment.instructions_bare : (a : Assignment) →
    a.bare.instructions = a.instructions.map Instruction.bare
  | .literal m s => rfl
  | .children m trees => by
    rw [Assignment.bare, Assignment.instructions, Assignment.instructions,
      Tree.instructionsAll_bare trees]
    simp [Instruction.bare]

theorem Assignment.instructionsAll_bare : (as : List Assignment) →
    Assignment.instructionsAll (Assignment.bareAll as) =
      (Assignment.instructionsAll as).map Instruction.bare
  | [] => rfl
  | a :: as => by
    rw [Assignment.bareAll, Assignment.instructionsAll, Assignment.instructionsAll, List.map_append,
      Assignment.instructions_bare a, Assignment.instructionsAll_bare as]

theorem Tree.instructionsAll_bare : (ts : List Tree) →
    Tree.instructionsAll (Tree.bareAll ts) = (Tree.instructionsAll ts).map Instruction.bare
  | [] => rfl
  | t :: ts => by
    rw [Tree.bareAll, Tree.instructionsAll, Tree.instructionsAll, List.map_append,
      Tree.instructions_bare t, Tree.instructionsAll_bare ts]

end

theorem Tree.Exchange.bare {t u : Tree} (h : t.Exchange u) : t.bare.Exchange u.bare := by
  induction h with
  | here h =>
    rw [Tree.bare, Tree.bare, Assignment.bareAll_eq_map, Assignment.bareAll_eq_map]
    exact .here (h.map _)
  | inside _ ih =>
    simpa [Tree.bare, Assignment.bareAll_eq_map, Assignment.bare, Tree.bareAll_eq_map]
      using Exchange.inside ih

theorem Tree.Reordered.bare {t u : Tree} (h : t.Reordered u) : t.bare.Reordered u.bare := by
  induction h with
  | refl => exact .refl _
  | tail _ h ih => exact ih.trans (.single h.bare)

/-! ## Written streams -/

/-- A tree is written unless the members of one of its nodes depend on each other in a circle, and
then the failure is that of the first such node in order.  The stream is one object, nested and
closed by its last instruction only; it is read as the tree in dependency order, so that trees with
equal streams differ in the order of assignments, and so they do, up to what tells members apart,
if only the members that start in the streams are the same. -/
theorem Tree.write_determines (t : Tree) :
    ((∃ e, t.write = .error e) ↔ ∃ n ∈ t.nodes, n.HasCircle) ∧
    (∀ e, t.write = .error e ↔ ∃ pre n post, t.arranged.nodes = pre ++ n :: post ∧
      (∀ k ∈ pre, ¬ k.HasCircle) ∧ n.HasCircle ∧ n.memberOrder = .error e) ∧
    (∀ stream, t.write = .ok stream →
      read stream = some t.arranged ∧ t.Reordered t.arranged ∧
      (∃ start body, stream = .startObject start :: (body ++ [.endObject]) ∧ Nested body) ∧
      (∀ pre, pre <+: stream → pre ≠ [] → Nested pre → pre = stream) ∧
      stream.countP isStartObject = t.size ∧
      stream.countP isStartMember = t.assignmentCount ∧
      stream.countP isEndMember = t.assignmentCount) ∧
    (∀ (u : Tree) (stream : List Instruction), t.write = .ok stream → u.write = .ok stream →
      t.Reordered u) ∧
    (∀ (u : Tree) (stream stream' : List Instruction), t.write = .ok stream →
      u.write = .ok stream' → Instruction.sameAll stream stream' = true → t.bare.Reordered u.bare) := by
  refine ⟨write_error_iff, fun e => ?_, fun stream h => ?_, fun u stream ht hu => ?_,
    fun u stream stream' ht hu hsame => ?_⟩
  · rw [write_eq_error_iff]
    constructor
    · rintro ⟨pre, n, post, hnodes, hpre, hn⟩
      exact ⟨pre, n, post, hnodes, hpre, memberOrder_error_iff.1 ⟨e, hn⟩, hn⟩
    · rintro ⟨pre, n, post, hnodes, hpre, -, hn⟩
      exact ⟨pre, n, post, hnodes, hpre, hn⟩
  · have hreordered := t.reordered_arranged
    obtain rfl := write_ok h
    have hnested := Tree.instructions_nested t.arranged
    refine ⟨read_instructions _, hreordered, ?_, ?_, ?_, ?_, ?_⟩
    · obtain ⟨type, name, arguments, assignments⟩ := t
      exact ⟨_, _, rfl, Assignment.instructionsAll_nested _⟩
    · obtain ⟨type, name, arguments, assignments⟩ := t
      exact fun pre hpre hne => Nested.eq_of_prefix (Assignment.instructionsAll_nested _) hpre hne
    · rw [countP_startObject, hreordered.size_eq]
    · rw [countP_startMember, hreordered.assignmentCount_eq]
    · rw [hnested.countP_members, countP_startMember, hreordered.assignmentCount_eq]
  · have harranged : t.arranged = u.arranged :=
      Tree.instructions_injective ((write_ok ht).symm.trans (write_ok hu))
    exact t.reordered_arranged.trans (harranged ▸ u.reordered_arranged.symm)
  · obtain rfl := write_ok ht
    obtain rfl := write_ok hu
    rw [Instruction.sameAll_iff_bare, ← instructions_bare, ← instructions_bare] at hsame
    have harranged := Tree.instructions_injective hsame
    exact t.reordered_arranged.bare.trans (harranged ▸ u.reordered_arranged.bare.symm)

end ObjectMarkup
