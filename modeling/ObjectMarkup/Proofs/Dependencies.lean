/-
What members that depend on each other come to: an order, or a circle.

The components of the graph are looked at first, and whatever finds them, there is an order unless
one of them holds a circle, which is then reported (`dependencyOrderBy_cases`).  The order is that
of `schedule`, and the circle, for the components that a depth-first search leaves, is that of
`circle` (`dependencyOrder_eq`).  Elements are arranged as their positions are (`arrange_eq`).  The
main theorem is `dependencyOrder_least`.
-/
import ObjectMarkup.Proofs.Circles

namespace ObjectMarkup

open Relation (ReflTransGen TransGen)
open ObjectMarkup.Order

/-! ## Positions -/

section

variable {find : Nat → (Nat → List Nat) → List (List Nat)} {owner : TypeName}
  {members : List Member}

theorem take_start (members : List Member) :
    (Queue.start members).take (followers members) members.length =
      (schedule (memberAt members) members.length (List.range members.length)).1 :=
  (Queue.Counts.start members).take_eq_schedule (.start members) members.length

theorem schedule_range_left (members : List Member) :
    (schedule (memberAt members) members.length (List.range members.length)).2 = [] ↔
      ¬ ∃ i, TransGen (Precedes members) i i := by
  have h := schedule_left_eq_nil (memberAt members) (List.range members.length)
  rwa [List.length_range, Circular, before_memberAt] at h

/-- There is an order, which is that of `schedule`, or a component that holds a circle. -/
theorem dependencyOrderBy_cases (hfind : FindsComponents find) (owner : TypeName)
    (members : List Member) :
    (∃ order, schedule (memberAt members) members.length (List.range members.length) =
        (order, []) ∧ dependencyOrderBy find owner members = .ok order) ∨
    (∃ i, TransGen (Precedes members) i i) ∧
      ∃ found, (find members.length (followers members)).find? (holdsCircle (followers members)) =
          some found ∧
        dependencyOrderBy find owner members = .error (.dependencyCycle owner
          ((ascending found).filterMap fun i => members[i]?.map (·.name))) := by
  have hnone := hfind.find?_eq_none (followers_lt members)
  rw [edge_followers] at hnone
  rw [dependencyOrderBy]
  cases hfound : (find members.length (followers members)).find?
      (holdsCircle (followers members)) with
  | none =>
    have hleft := (schedule_range_left members).2 (hnone.1 hfound)
    exact .inl ⟨_, Prod.ext rfl hleft, congrArg _ (take_start members)⟩
  | some found =>
    refine .inr ⟨?_, found, rfl, rfl⟩
    by_contra hcircle
    rw [hnone.2 hcircle] at hfound
    cases hfound

theorem dependencyOrderBy_ok (hfind : FindsComponents find) {order : List Nat}
    (h : dependencyOrderBy find owner members = .ok order) :
    Scheduled (memberAt members) (List.range members.length) order [] := by
  have hscheduled : Scheduled (memberAt members) (List.range members.length) _ _ :=
    schedule_scheduled (Nat.le_of_eq List.length_range)
  rcases dependencyOrderBy_cases hfind owner members with ⟨order', hschedule, h'⟩ | ⟨-, _, -, h'⟩
  · rw [h, Except.ok.injEq] at h'
    rwa [hschedule, ← h'] at hscheduled
  · rw [h] at h'
    cases h'

theorem dependencyOrderBy_error_iff (hfind : FindsComponents find) (owner : TypeName)
    (members : List Member) :
    (∃ e, dependencyOrderBy find owner members = .error e) ↔
      ∃ i, TransGen (Precedes members) i i := by
  rcases dependencyOrderBy_cases hfind owner members with
    ⟨order, hschedule, h⟩ | ⟨hcircle, found, -, h⟩
  · have hnone := (schedule_range_left members).1 (congrArg Prod.snd hschedule)
    refine iff_of_false ?_ hnone
    rintro ⟨e, he⟩
    rw [h] at he
    cases he
  · exact iff_of_true ⟨_, h⟩ hcircle

/-- What is reported is a circle. -/
theorem dependencyOrderBy_error (hfind : FindsComponents find) {e : Error}
    (h : dependencyOrderBy find owner members = .error e) :
    ∃ positions names, IsCircle members positions ∧ e = .dependencyCycle owner names ∧
      names.map some = positions.map fun i => members[i]?.map (·.name) := by
  rcases dependencyOrderBy_cases hfind owner members with
    ⟨order, -, h'⟩ | ⟨-, found, hfound, h'⟩
  · rw [h] at h'
    cases h'
  · have hcircle := hfind.isCircle hfound
    rw [h, Except.error.injEq] at h'
    refine ⟨_, _, hcircle, h', ?_⟩
    rw [filterMap_name hcircle.lt, List.map_map]
    refine List.map_congr_left fun i hi => ?_
    simp [memberAt, List.getElem?_eq_getElem (hcircle.lt i hi)]

end

/-- The order is that of `schedule`, and the circle is that of `circle`. -/
theorem dependencyOrder_eq (owner : TypeName) (members : List Member) :
    dependencyOrder owner members =
      match schedule (memberAt members) members.length (List.range members.length) with
      | (order, []) => .ok order
      | (_, _ :: _) => .error (.dependencyCycle owner (circle members)) := by
  rcases dependencyOrderBy_cases components_finds owner members with
    ⟨order, hschedule, h⟩ | ⟨hcircle, found, hfound, h⟩
  · rw [hschedule, dependencyOrder, h]
  · have hleft : _ ≠ [] := fun hnil => (schedule_range_left members).1 hnil hcircle
    rw [dependencyOrder, h, circle_eq hfound]
    cases hschedule : schedule (memberAt members) members.length (List.range members.length) with
    | mk order left =>
      rw [hschedule] at hleft
      cases left with
      | nil => exact absurd rfl hleft
      | cons i left => rfl

theorem dependencyOrder_error_iff (owner : TypeName) (members : List Member) :
    (∃ e, dependencyOrder owner members = .error e) ↔ ∃ i, TransGen (Precedes members) i i :=
  dependencyOrderBy_error_iff components_finds owner members

/-! ## The order -/

/-- Every member comes after those it depends on. -/
def Respects (members : List Member) (order : List Nat) : Prop :=
  ∀ i j, Precedes members i j → order.idxOf i < order.idxOf j

theorem respects_iff {members : List Member} {order : List Nat}
    (hperm : order.Perm (List.range members.length)) :
    Respects members order ↔ InOrder (memberAt members) order := by
  have hbefore : Before (memberAt members) order = Precedes members :=
    (Before.congr fun _ => hperm.mem_iff).trans (before_memberAt members)
  constructor
  · intro h
    exact inOrder_of_idxOf_lt (hperm.nodup_iff.2 List.nodup_range) fun i j hij =>
      h i j (hbefore ▸ hij)
  · intro h i j hij
    exact h.idxOf_lt (hbefore ▸ hij)

/-- The least of the orders of `n` positions in which `i` stands before `j` wherever `r i j`. -/
structure LeastOrder (r : Nat → Nat → Prop) (n : Nat) (order : List Nat) : Prop where
  perm : order.Perm (List.range n)
  follows : ∀ i j, r i j → order.idxOf i < order.idxOf j
  least : ∀ other : List Nat, other.Perm (List.range n) →
    (∀ i j, r i j → other.idxOf i < other.idxOf j) → order = other ∨ List.Lex (· < ·) order other

theorem leastOrder_of_scheduled {members : List Member} {order : List Nat}
    (h : Scheduled (memberAt members) (List.range members.length) order []) :
    LeastOrder (Precedes members) members.length order := by
  have hperm : order.Perm (List.range members.length) := by
    simpa using h.perm
  refine ⟨hperm, (respects_iff hperm).2 h.inOrder, fun other hother hrespects => ?_⟩
  exact h.lex rfl List.pairwise_lt_range hother ((respects_iff hother).1 hrespects)

/-- Members have an order unless some of them depend on each other in a circle, and then the names
on one such circle are reported.  The order is the least of those in which each member comes after
those it depends on, so that members that are written in such an order stay as they are. -/
theorem dependencyOrder_least (owner : TypeName) (members : List Member) :
    ((∃ e, dependencyOrder owner members = .error e) ↔
      ∃ i, TransGen (Precedes members) i i) ∧
    (∀ e, dependencyOrder owner members = .error e →
      ∃ positions names, IsCircle members positions ∧ e = .dependencyCycle owner names ∧
        names.map some = positions.map fun i => members[i]?.map (·.name)) ∧
    (∀ order, dependencyOrder owner members = .ok order →
      order.Perm (List.range members.length) ∧ Respects members order ∧
      (∀ other : List Nat, other.Perm (List.range members.length) → Respects members other →
        order = other ∨ List.Lex (· < ·) order other) ∧
      (Respects members (List.range members.length) → order = List.range members.length)) := by
  refine ⟨dependencyOrder_error_iff owner members, fun e he => ?_, fun order horder => ?_⟩
  · exact dependencyOrderBy_error components_finds he
  · have hleast := leastOrder_of_scheduled (dependencyOrderBy_ok components_finds horder)
    refine ⟨hleast.perm, hleast.follows, hleast.least, fun hwritten => ?_⟩
    have hwritten := schedule_of_inOrder ((respects_iff (.refl _)).1 hwritten)
    rw [List.length_range] at hwritten
    rw [dependencyOrder_eq, hwritten] at horder
    exact (Except.ok.inj horder).symm

/-! ## Arranging -/

section

variable {α β : Type} {owner : TypeName} {key : α → Member} {xs ys : List α}

theorem arrange_map (owner : TypeName) (f : α → β) (key : β → Member) (xs : List α) :
    arrange owner key (xs.map f) = (arrange owner (key ∘ f) xs).map (List.map f) := by
  rw [arrange, arrange, List.map_map]
  cases dependencyOrder owner (xs.map (key ∘ f)) with
  | error e => rfl
  | ok order =>
    have hat : ∀ i : Nat, (xs.map f)[i]? = xs[i]?.map f := fun i => List.getElem?_map
    simp only [Except.map, hat, List.map_filterMap]

/-- Elements are arranged as the members at their positions are. -/
theorem schedule_positions (key : α → Member) (xs : List α) :
    let positions := schedule (memberAt (xs.map key)) xs.length (List.range xs.length)
    positions.1.map (xs[·]?) = (schedule key xs.length xs).1.map some ∧
      positions.2.map (xs[·]?) = (schedule key xs.length xs).2.map some := by
  have hsome : (List.range xs.length).map (xs[·]?) = xs.map some := by
    refine List.ext_getElem (by simp) fun i hi _ => ?_
    have hi : i < xs.length := by simpa using hi
    simp [List.getElem?_eq_getElem hi]
  let keyOf : Option α → Member := fun x => (x.map key).getD { owner := "", name := "" }
  have hkey : keyOf ∘ some = key := rfl
  have hat : keyOf ∘ (xs[·]?) = memberAt (xs.map key) := by
    funext i
    simp [keyOf, memberAt]
  have h := schedule_map (xs[·]?) keyOf xs.length (List.range xs.length)
  rw [hsome, schedule_map, hkey, hat] at h
  exact ⟨(congrArg Prod.fst h).symm, (congrArg Prod.snd h).symm⟩

theorem arrange_eq (owner : TypeName) (key : α → Member) (xs : List α) :
    arrange owner key xs =
      match schedule key xs.length xs with
      | (order, []) => .ok order
      | (_, _ :: _) => .error (.dependencyCycle owner (circle (xs.map key))) := by
  obtain ⟨horder, hleft⟩ := schedule_positions key xs
  rw [arrange, dependencyOrder_eq, List.length_map]
  generalize schedule (memberAt (xs.map key)) xs.length (List.range xs.length) = positions at *
  generalize schedule key xs.length xs = r at *
  obtain ⟨order, left⟩ := r
  obtain ⟨positions, leftPositions⟩ := positions
  cases left with
  | nil =>
    obtain rfl := List.map_eq_nil_iff.1 hleft
    have hfilterMap : positions.filterMap (xs[·]?) = order :=
      calc positions.filterMap (xs[·]?)
          = (positions.map (xs[·]?)).filterMap id := by simp [List.filterMap_map]
        _ = (order.map some).filterMap id := by rw [horder]
        _ = order := by simp [List.filterMap_map]
    exact congrArg Except.ok hfilterMap
  | cons x left =>
    cases leftPositions with
    | nil => cases hleft
    | cons i leftPositions => rfl

theorem arrange_ok (h : arrange owner key xs = .ok ys) : Scheduled key xs ys [] := by
  have hscheduled : Scheduled key xs _ _ := schedule_scheduled (Nat.le_refl xs.length)
  rw [arrange_eq] at h
  generalize schedule key xs.length xs = r at h hscheduled
  obtain ⟨order, left⟩ := r
  cases left with
  | nil =>
    obtain rfl := Except.ok.inj h
    exact hscheduled
  | cons x left => cases h

theorem arrange_perm (h : arrange owner key xs = .ok ys) : ys.Perm xs := by
  simpa using (arrange_ok h).perm

theorem arrange_inOrder (h : arrange owner key xs = .ok ys) : InOrder key ys :=
  (arrange_ok h).inOrder

/-- Elements that are in order stay as they are. -/
theorem arrange_of_inOrder (owner : TypeName) (h : InOrder key xs) :
    arrange owner key xs = .ok xs := by
  rw [arrange_eq, schedule_of_inOrder h]

/-- Elements that have no order depend on each other in a circle. -/
theorem arrange_error {e : Error} (h : arrange owner key xs = .error e) :
    ∃ names, e = .dependencyCycle owner names := by
  rw [arrange_eq] at h
  split at h
  · cases h
  · cases h
    exact ⟨_, rfl⟩

theorem arrange_error_iff (owner : TypeName) (key : α → Member) (xs : List α) :
    (∃ e, arrange owner key xs = .error e) ↔ Circular key xs := by
  have hcircle := (dependencyOrder_error_iff owner (xs.map key)).trans
    (circular_iff (xs.map key)).symm
  rw [circular_map, Function.id_comp] at hcircle
  rw [← hcircle, arrange]
  cases dependencyOrder owner (xs.map key) <;> simp [Except.map]

end

end ObjectMarkup
