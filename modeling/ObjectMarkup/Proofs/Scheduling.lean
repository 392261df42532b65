/-
Taking members in an order in which each comes after those it requires.

`Order.schedule` is the plain account of such an order.  It takes the first element that requires
none of those that are left, itself included, until there is none (`Scheduled`).  What it has taken
is in order (`Scheduled.inOrder`), and of the orders of the same elements it is the one that takes
early elements first (`Scheduled.lex`).  What it cannot take holds a circle (`Scheduled.circular`),
and no element of a circle is ever taken (`InOrder.not_circular`).

`Before` relates two elements of a list when the second requires the first.  It says nothing of
their places, so that a list and its permutations have the same circles; `circular_map` brings it to
other elements with the same members.
-/
import Mathlib.Data.Fintype.Card
import Mathlib.Data.Set.Finite.Basic
import Mathlib.Logic.Relation
import ObjectMarkup.Tree.Order

namespace ObjectMarkup

open Relation (TransGen)

/-- What has no first element under a relation goes round in a circle. -/
theorem exists_transGen_self {α : Type} {r : α → α → Prop} {xs : List α} (hne : xs ≠ [])
    (h : ∀ x ∈ xs, ∃ y ∈ xs, r y x) : ∃ x, TransGen r x x := by
  by_contra hnone
  have hfinite : Finite { x // x ∈ xs } := (List.finite_toSet xs).to_subtype
  have hirrefl : Std.Irrefl fun x y : { x // x ∈ xs } => TransGen r x y :=
    ⟨fun x hx => hnone ⟨x, hx⟩⟩
  have htrans : IsTrans { x // x ∈ xs } fun x y => TransGen r x y :=
    ⟨fun _ _ _ hxy hyz => hxy.trans hyz⟩
  have hwf := Finite.wellFounded_of_trans_of_irrefl fun x y : { x // x ∈ xs } => TransGen r x y
  obtain ⟨first, hfirst⟩ := List.exists_mem_of_ne_nil xs hne
  -- down from any element there is another one, for ever
  refine hwf.induction (C := fun _ => False) ⟨first, hfirst⟩ fun x ih => ?_
  obtain ⟨y, hy, hyx⟩ := h x x.2
  exact ih ⟨y, hy⟩ (.single hyx)

namespace Order

variable {α β : Type} {key : α → Member}

/-! ## Orders and circles -/

/-- Two elements of the list, the second of which requires the first. -/
def Before (key : α → Member) (xs : List α) (x y : α) : Prop :=
  x ∈ xs ∧ y ∈ xs ∧ (key y).requires (key x) = true

/-- Some elements of the list require each other in a circle. -/
def Circular (key : α → Member) (xs : List α) : Prop :=
  ∃ x, TransGen (Before key xs) x x

/-- No element requires itself or a later one. -/
def InOrder (key : α → Member) : List α → Prop
  | [] => True
  | x :: xs => (∀ y ∈ x :: xs, (key x).requires (key y) = false) ∧ InOrder key xs

theorem Before.congr {xs ys : List α} (h : ∀ x, x ∈ xs ↔ x ∈ ys) :
    Before key xs = Before key ys := by
  funext x y
  simp only [Before, h]

theorem transGen_mem {xs : List α} {x y : α} (h : TransGen (Before key xs) x y) :
    x ∈ xs ∧ y ∈ xs := by
  induction h with
  | single h => exact ⟨h.1, h.2.1⟩
  | tail _ h ih => exact ⟨ih.1, h.2.1⟩

theorem transGen_map_iff (f : α → β) (key : β → Member) {xs : List α} {x y : α}
    (hx : x ∈ xs) (hy : y ∈ xs) :
    TransGen (Before key (xs.map f)) (f x) (f y) ↔ TransGen (Before (key ∘ f) xs) x y := by
  constructor
  · intro h
    -- every element on the way is that of an element of `xs`, the last one that of `y`
    have hway : ∀ b, TransGen (Before key (xs.map f)) (f x) b →
        ∀ z ∈ xs, f z = b → TransGen (Before (key ∘ f) xs) x z := by
      intro b hb
      induction hb with
      | single hb =>
        rintro z hz rfl
        exact .single ⟨hx, hz, hb.2.2⟩
      | tail _ hb ih =>
        rintro z hz rfl
        obtain ⟨u, hu, rfl⟩ := List.mem_map.1 hb.1
        exact (ih u hu rfl).tail ⟨hu, hz, hb.2.2⟩
    exact hway (f y) h y hy rfl
  · intro h
    exact h.lift f fun a b hab =>
      ⟨List.mem_map_of_mem hab.1, List.mem_map_of_mem hab.2.1, hab.2.2⟩

theorem circular_map (f : α → β) (key : β → Member) (xs : List α) :
    Circular key (xs.map f) ↔ Circular (key ∘ f) xs := by
  constructor
  · rintro ⟨y, h⟩
    obtain ⟨x, hx, rfl⟩ := List.mem_map.1 (transGen_mem h).1
    exact ⟨x, (transGen_map_iff f key hx hx).1 h⟩
  · rintro ⟨x, h⟩
    have hx := (transGen_mem h).1
    exact ⟨f x, (transGen_map_iff f key hx hx).2 h⟩

theorem circular_perm {xs ys : List α} (h : xs.Perm ys) : Circular key xs ↔ Circular key ys := by
  rw [Circular, Circular, Before.congr fun _ => h.mem_iff]

theorem InOrder.idxOf_lt [BEq α] [LawfulBEq α] {xs : List α} (h : InOrder key xs) {x y : α}
    (hxy : Before key xs x y) : xs.idxOf x < xs.idxOf y := by
  obtain ⟨hx, hy, hreq⟩ := hxy
  induction xs with
  | nil => cases hx
  | cons z xs ih =>
    obtain ⟨hz, hrest⟩ := h
    -- what stands first requires nothing
    have hyz : y ≠ z := by
      rintro rfl
      rw [hz x hx] at hreq
      cases hreq
    have hyxs := (List.mem_cons.1 hy).resolve_left hyz
    rw [List.idxOf_cons_ne xs hyz.symm]
    by_cases hxz : x = z
    · rw [List.idxOf_cons_eq xs hxz.symm]
      exact Nat.succ_pos _
    · have hxxs := (List.mem_cons.1 hx).resolve_left hxz
      rw [List.idxOf_cons_ne xs (Ne.symm hxz)]
      exact Nat.succ_lt_succ (ih hrest hxxs hyxs)

theorem InOrder.idxOf_lt_of_transGen [BEq α] [LawfulBEq α] {xs : List α} (h : InOrder key xs)
    {x y : α} (hxy : TransGen (Before key xs) x y) : xs.idxOf x < xs.idxOf y := by
  induction hxy with
  | single hxy => exact h.idxOf_lt hxy
  | tail _ hyz ih => exact Nat.lt_trans ih (h.idxOf_lt hyz)

theorem inOrder_of_idxOf_lt [BEq α] [LawfulBEq α] {xs : List α} (hnodup : xs.Nodup)
    (h : ∀ x y, Before key xs x y → xs.idxOf x < xs.idxOf y) : InOrder key xs := by
  induction xs with
  | nil => trivial
  | cons z xs ih =>
    obtain ⟨hz, hrest⟩ := List.nodup_cons.1 hnodup
    refine ⟨fun y hy => ?_, ih hrest fun x y hxy => ?_⟩
    · by_contra hreq
      have hlt := h y z ⟨hy, List.mem_cons_self, by simpa using hreq⟩
      rw [List.idxOf_cons_self] at hlt
      exact Nat.not_lt_zero _ hlt
    · have hlt := h x y ⟨List.mem_cons_of_mem z hxy.1, List.mem_cons_of_mem z hxy.2.1, hxy.2.2⟩
      have hne : ∀ u ∈ xs, z ≠ u := fun u hu heq => hz (heq ▸ hu)
      rw [List.idxOf_cons_ne xs (hne x hxy.1), List.idxOf_cons_ne xs (hne y hxy.2.1)] at hlt
      exact Nat.lt_of_succ_lt_succ hlt

/-- What is in order has no circle. -/
theorem InOrder.not_circular {xs : List α} (h : InOrder key xs) : ¬ Circular key xs := by
  classical
  rintro ⟨x, hx⟩
  exact Nat.lt_irrefl _ (h.idxOf_lt_of_transGen hx)

/-! ## Chains -/

/-- Of any two elements of the list, one requires the other, directly or through others. -/
def Chain (key : α → Member) (xs : List α) : Prop :=
  xs.Pairwise fun x y => TransGen (Before key xs) x y ∨ TransGen (Before key xs) y x

theorem chain_perm {xs ys : List α} (h : xs.Perm ys) : Chain key xs ↔ Chain key ys := by
  rw [Chain, Chain, Before.congr fun _ => h.mem_iff]
  exact h.pairwise_iff Or.symm

theorem chain_map (f : α → β) (key : β → Member) (xs : List α) :
    Chain key (xs.map f) ↔ Chain (key ∘ f) xs := by
  rw [Chain, List.pairwise_map]
  constructor
  · refine List.Pairwise.imp_of_mem fun hx hy h => ?_
    rwa [transGen_map_iff f key hx hy, transGen_map_iff f key hy hx] at h
  · refine List.Pairwise.imp_of_mem fun hx hy h => ?_
    rwa [transGen_map_iff f key hx hy, transGen_map_iff f key hy hx]

theorem Chain.nodup {xs : List α} (h : Chain key xs) (hnone : ¬ Circular key xs) : xs.Nodup := by
  refine List.Pairwise.imp (fun {x y} hxy => ?_) h
  rintro rfl
  exact hnone ⟨x, hxy.elim id id⟩

/-- A chain in order goes from each element to all later ones. -/
theorem InOrder.pairwise {xs : List α} (h : InOrder key xs) (hchain : Chain key xs) :
    xs.Pairwise (TransGen (Before key xs)) := by
  classical
  have hnodup := hchain.nodup h.not_circular
  rw [Chain, List.pairwise_iff_getElem] at hchain
  refine List.pairwise_iff_getElem.2 fun i j hi hj hij => ?_
  refine (hchain i j hi hj hij).resolve_right fun hback => ?_
  have hlt := h.idxOf_lt_of_transGen hback
  rw [hnodup.idxOf_getElem, hnodup.idxOf_getElem] at hlt
  exact Nat.lt_asymm hij hlt

/-- A chain has one order only. -/
theorem Chain.eq_of_perm {xs ys : List α} (h : Chain key xs) (hxs : InOrder key xs)
    (hys : InOrder key ys) (hperm : xs.Perm ys) : xs = ys := by
  have hback := hys.pairwise ((chain_perm hperm).1 h)
  rw [Before.congr fun _ => hperm.mem_iff.symm] at hback
  refine hperm.eq_of_pairwise (fun x y _ _ hxy hyx => ?_) (hxs.pairwise h) hback
  exact absurd ⟨x, hxy.trans hyx⟩ hxs.not_circular

/-! ## Taking what is ready -/

/-- The first of the elements that requires none of `waiting`, and the elements around it. -/
def splitReady (key : α → Member) (waiting : List α) : List α → Option (α × List α)
  | [] => none
  | x :: xs =>
    if waiting.all fun y => !(key x).requires (key y) then some (x, xs)
    else (splitReady key waiting xs).map fun r => (r.1, x :: r.2)

/-- Takes ready elements away one by one, at most `fuel` of them: those taken, and those that are
left. -/
def schedule (key : α → Member) : Nat → List α → List α × List α
  | 0, waiting => ([], waiting)
  | fuel + 1, waiting =>
    match splitReady key waiting waiting with
    | none => ([], waiting)
    | some (x, rest) =>
      let r := schedule key fuel rest
      (x :: r.1, r.2)

/-- The first element that requires none of those waiting is taken, until there is none. -/
inductive Scheduled (key : α → Member) : List α → List α → List α → Prop
  | stuck {waiting : List α} :
      (∀ x ∈ waiting, ∃ y ∈ waiting, (key x).requires (key y) = true) →
      Scheduled key waiting [] waiting
  | take {pre post order left : List α} {x : α} :
      (∀ y ∈ pre, ∃ z ∈ pre ++ x :: post, (key y).requires (key z) = true) →
      (∀ y ∈ pre ++ x :: post, (key x).requires (key y) = false) →
      Scheduled key (pre ++ post) order left → Scheduled key (pre ++ x :: post) (x :: order) left

theorem splitReady_some {waiting xs rest : List α} {x : α}
    (h : splitReady key waiting xs = some (x, rest)) :
    ∃ pre post, xs = pre ++ x :: post ∧ rest = pre ++ post ∧
      (∀ y ∈ pre, ∃ z ∈ waiting, (key y).requires (key z) = true) ∧
      ∀ y ∈ waiting, (key x).requires (key y) = false := by
  induction xs generalizing rest with
  | nil => cases h
  | cons y ys ih =>
    rw [splitReady] at h
    split at h
    · next hready =>
      obtain ⟨rfl, rfl⟩ := Prod.mk.inj (Option.some.inj h)
      exact ⟨[], ys, rfl, rfl, fun _ hz => absurd hz List.not_mem_nil, by simpa using hready⟩
    · next hready =>
      obtain ⟨⟨z, zs⟩, hsplit, h⟩ := Option.map_eq_some_iff.1 h
      obtain ⟨rfl, rfl⟩ := Prod.mk.inj h
      obtain ⟨pre, post, rfl, rfl, hpre, hz⟩ := ih hsplit
      refine ⟨y :: pre, post, rfl, rfl, fun u hu => ?_, hz⟩
      rcases List.mem_cons.1 hu with rfl | hu
      · simpa using hready
      · exact hpre u hu

theorem splitReady_append {waiting pre post : List α} {x : α}
    (hpre : ∀ y ∈ pre, ∃ z ∈ waiting, (key y).requires (key z) = true)
    (hx : ∀ y ∈ waiting, (key x).requires (key y) = false) :
    splitReady key waiting (pre ++ x :: post) = some (x, pre ++ post) := by
  induction pre with
  | nil =>
    have hready : (waiting.all fun y => !(key x).requires (key y)) = true := by simpa using hx
    rw [List.nil_append, splitReady, if_pos hready, List.nil_append]
  | cons y pre ih =>
    have hwaits : ¬ (waiting.all fun z => !(key y).requires (key z)) = true := by
      simpa using hpre y List.mem_cons_self
    rw [List.cons_append, splitReady, if_neg hwaits,
      ih fun z hz => hpre z (List.mem_cons_of_mem y hz), Option.map_some, List.cons_append]

theorem splitReady_eq_none {waiting xs : List α} :
    splitReady key waiting xs = none ↔
      ∀ x ∈ xs, ∃ y ∈ waiting, (key x).requires (key y) = true := by
  induction xs with
  | nil => simp [splitReady]
  | cons x xs ih =>
    rw [splitReady, List.forall_mem_cons, ← ih]
    split
    · next hready =>
      have hnone : ¬ ∃ y ∈ waiting, (key x).requires (key y) = true := by simpa using hready
      simp [hnone]
    · next hwaits =>
      have hsome : ∃ y ∈ waiting, (key x).requires (key y) = true := by simpa using hwaits
      rw [Option.map_eq_none_iff, and_iff_right hsome]

theorem schedule_scheduled {fuel : Nat} {waiting : List α} (h : waiting.length ≤ fuel) :
    Scheduled key waiting (schedule key fuel waiting).1 (schedule key fuel waiting).2 := by
  induction fuel generalizing waiting with
  | zero =>
    obtain rfl := List.eq_nil_of_length_eq_zero (Nat.le_zero.1 h)
    exact .stuck fun _ hx => absurd hx List.not_mem_nil
  | succ fuel ih =>
    rw [schedule]
    cases hsplit : splitReady key waiting waiting with
    | none => exact .stuck (splitReady_eq_none.1 hsplit)
    | some r =>
      obtain ⟨x, rest⟩ := r
      obtain ⟨pre, post, rfl, rfl, hpre, hx⟩ := splitReady_some hsplit
      refine .take hpre hx (ih ?_)
      simp only [List.length_append, List.length_cons] at h ⊢
      omega

namespace Scheduled

variable {waiting order left : List α}

theorem perm (h : Scheduled key waiting order left) : (order ++ left).Perm waiting := by
  induction h with
  | stuck _ => exact .refl _
  | take _ _ _ ih => exact (ih.cons _).trans List.perm_middle.symm

theorem inOrder (h : Scheduled key waiting order left) : InOrder key order := by
  induction h with
  | stuck _ => trivial
  | @take pre post order left x _ hx hrest ih =>
    refine ⟨fun y hy => hx y ?_, ih⟩
    have hmem : y ∈ x :: (pre ++ post) := by
      rcases List.mem_cons.1 hy with rfl | hy
      · exact List.mem_cons_self
      · exact List.mem_cons_of_mem x (hrest.perm.mem_iff.1 (List.mem_append_left left hy))
    exact List.perm_middle.mem_iff.2 hmem

theorem requires_left (h : Scheduled key waiting order left) :
    ∀ x ∈ left, ∃ y ∈ left, (key x).requires (key y) = true := by
  induction h with
  | stuck h => exact h
  | take _ _ _ ih => exact ih

/-- Where elements are left over, some of them require each other in a circle. -/
theorem circular (h : Scheduled key waiting order left) (hleft : left ≠ []) :
    Circular key waiting := by
  have hmem : ∀ x ∈ left, x ∈ waiting := fun x hx =>
    h.perm.mem_iff.1 (List.mem_append_right order hx)
  refine exists_transGen_self hleft fun x hx => ?_
  obtain ⟨y, hy, hreq⟩ := h.requires_left x hx
  exact ⟨y, hy, hmem y hy, hmem x hx, hreq⟩

/-- Of all orders of the same numbers, the one that takes the first ready number is the least. -/
theorem lex {key : Nat → Member} {waiting order left : List Nat}
    (h : Scheduled key waiting order left) (hleft : left = [])
    (hsorted : waiting.Pairwise (· < ·)) {other : List Nat} (hperm : other.Perm waiting)
    (hother : InOrder key other) : order = other ∨ List.Lex (· < ·) order other := by
  induction h generalizing other with
  | stuck _ =>
    subst hleft
    exact .inl hperm.eq_nil.symm
  | @take pre post order left x hpre hx _ ih =>
    cases other with
    | nil => exact absurd hperm.symm.eq_nil (by simp)
    | cons y other =>
      obtain ⟨hready, hrest⟩ := hother
      -- the other order starts with an element that is ready too, and `x` is the first of these
      have hy : y ∈ x :: post := by
        have hmem : y ∈ pre ++ x :: post := hperm.mem_iff.1 List.mem_cons_self
        refine (List.mem_append.1 hmem).resolve_left fun hy => ?_
        obtain ⟨z, hz, hreq⟩ := hpre y hy
        rw [hready z (hperm.mem_iff.2 hz)] at hreq
        cases hreq
      rcases List.mem_cons.1 hy with rfl | hy
      · have hperm' : other.Perm (pre ++ post) :=
          (hperm.trans List.perm_middle).cons_inv
        have hsorted' : (pre ++ post).Pairwise (· < ·) :=
          hsorted.sublist ((List.Sublist.refl pre).append (List.sublist_cons_self y post))
        rcases ih hleft hsorted' hperm' hrest with rfl | hlex
        · exact .inl rfl
        · exact .inr (.cons hlex)
      · have hlt : x < y :=
          List.rel_of_pairwise_cons (List.pairwise_append.1 hsorted).2.1 hy
        exact .inr (.rel hlt)

end Scheduled

/-- Nothing is left over just when there is no circle. -/
theorem schedule_left_eq_nil (key : α → Member) (xs : List α) :
    (schedule key xs.length xs).2 = [] ↔ ¬ Circular key xs := by
  have hscheduled : Scheduled key xs _ _ := schedule_scheduled (Nat.le_refl xs.length)
  constructor
  · intro hleft
    have hperm := hscheduled.perm
    rw [hleft, List.append_nil] at hperm
    exact fun hcircle => hscheduled.inOrder.not_circular ((circular_perm hperm).2 hcircle)
  · intro hnone
    by_contra hleft
    exact hnone (hscheduled.circular hleft)

/-- Elements that are in order are taken as they stand. -/
theorem schedule_of_inOrder {xs : List α} (h : InOrder key xs) :
    schedule key xs.length xs = (xs, []) := by
  induction xs with
  | nil => rfl
  | cons x xs ih =>
    have hready : ((x :: xs).all fun y => !(key x).requires (key y)) = true := by
      simpa using h.1
    rw [List.length_cons, schedule, splitReady, if_pos hready]
    simp only [ih h.2]

/-! ## Elements with the same members -/

theorem splitReady_map (f : α → β) (key : β → Member) (waiting xs : List α) :
    splitReady key (waiting.map f) (xs.map f) =
      (splitReady (key ∘ f) waiting xs).map fun r => (f r.1, r.2.map f) := by
  induction xs with
  | nil => rfl
  | cons x xs ih =>
    have hall : ((waiting.map f).all fun y => !(key (f x)).requires (key y)) =
        waiting.all fun y => !((key ∘ f) x).requires ((key ∘ f) y) := by
      rw [List.all_map]
      rfl
    rw [List.map_cons, splitReady, splitReady, hall, ih]
    split
    · rfl
    · cases splitReady (key ∘ f) waiting xs <;> rfl

theorem schedule_map (f : α → β) (key : β → Member) (fuel : Nat) (xs : List α) :
    schedule key fuel (xs.map f) =
      ((schedule (key ∘ f) fuel xs).1.map f, (schedule (key ∘ f) fuel xs).2.map f) := by
  induction fuel generalizing xs with
  | zero => rfl
  | succ fuel ih =>
    rw [schedule, schedule, splitReady_map]
    cases splitReady (key ∘ f) xs xs with
    | none => rfl
    | some r => simp [ih]

end Order

open ObjectMarkup.Order

/-! ## Positions -/

/-- The member at a position.  Beyond the list it does not matter which. -/
def memberAt (members : List Member) (i : Nat) : Member :=
  members[i]?.getD { owner := "", name := "" }

/-- The member at `j` depends on the one at `i`. -/
def Precedes (members : List Member) (i j : Nat) : Prop :=
  ∃ a b, members[i]? = some a ∧ members[j]? = some b ∧ a.name ∈ b.dependencies

theorem map_memberAt (members : List Member) :
    (List.range members.length).map (memberAt members) = members := by
  refine List.ext_getElem (by simp) fun i _ hi => ?_
  simp [memberAt, List.getElem?_eq_getElem hi]

theorem zipIdx_map_range {α : Type} (f : Nat → α) (n : Nat) :
    ((List.range n).map f).zipIdx = (List.range n).map fun i => (f i, i) := by
  refine List.ext_getElem (by simp) fun i _ _ => ?_
  simp

theorem zipIdx_eq_map (members : List Member) :
    members.zipIdx = (List.range members.length).map fun i => (memberAt members i, i) := by
  rw [← zipIdx_map_range, map_memberAt]

theorem before_memberAt (members : List Member) :
    Before (memberAt members) (List.range members.length) = Precedes members := by
  funext i j
  refine propext ⟨?_, ?_⟩
  · rintro ⟨hi, hj, hreq⟩
    have hi := List.getElem?_eq_getElem (List.mem_range.1 hi)
    have hj := List.getElem?_eq_getElem (List.mem_range.1 hj)
    refine ⟨_, _, hi, hj, ?_⟩
    simpa [memberAt, hi, hj, Member.requires] using hreq
  · rintro ⟨a, b, ha, hb, hdep⟩
    refine ⟨List.mem_range.2 (List.getElem?_eq_some_iff.1 ha).1,
      List.mem_range.2 (List.getElem?_eq_some_iff.1 hb).1, ?_⟩
    simpa [memberAt, ha, hb, Member.requires] using hdep

/-- Members that require each other in a circle depend on each other in a circle of positions. -/
theorem circular_iff (members : List Member) :
    Circular id members ↔ ∃ i, TransGen (Precedes members) i i := by
  have hcircle := circular_map (memberAt members) id (List.range members.length)
  rw [map_memberAt, Function.id_comp] at hcircle
  rw [hcircle, Circular, before_memberAt]

theorem precedes_iff_requires {members : List Member} {i j : Nat} (hi : i < members.length)
    (hj : j < members.length) :
    Precedes members i j ↔ (memberAt members j).requires (memberAt members i) = true := by
  rw [← before_memberAt, Before, and_iff_right (List.mem_range.2 hi),
    and_iff_right (List.mem_range.2 hj)]

theorem Precedes.lt {members : List Member} {i j : Nat} (h : Precedes members i j) :
    i < members.length ∧ j < members.length := by
  obtain ⟨a, b, ha, hb, -⟩ := h
  exact ⟨(List.getElem?_eq_some_iff.1 ha).1, (List.getElem?_eq_some_iff.1 hb).1⟩

theorem Precedes.lt_of_transGen {members : List Member} {i j : Nat}
    (h : TransGen (Precedes members) i j) : i < members.length ∧ j < members.length := by
  induction h with
  | single h => exact h.lt
  | tail _ h ih => exact ⟨ih.1, h.lt.2⟩

theorem Order.mem_followers {members : List Member} {i j : Nat} :
    j ∈ followers members i ↔ Precedes members i j := by
  rw [followers]
  cases hi : members[i]? with
  | none => simp [Precedes, hi]
  | some m =>
    simp only [List.mem_map, List.mem_filter, Prod.exists, List.mem_zipIdx_iff_getElem?]
    constructor
    · rintro ⟨b, j, ⟨hj, hreq⟩, rfl⟩
      exact ⟨m, b, hi, hj, by simpa [Member.requires] using hreq⟩
    · rintro ⟨a, b, ha, hb, hdep⟩
      obtain rfl : m = a := Option.some.inj (hi.symm.trans ha)
      exact ⟨b, j, ⟨hb, by simpa [Member.requires] using hdep⟩, rfl⟩

theorem Order.followers_pairwise (members : List Member) (i : Nat) :
    (followers members i).Pairwise (· < ·) := by
  rw [followers]
  cases members[i]? with
  | none => exact .nil
  | some m =>
    have hmap : ((·.2) ∘ fun j => (memberAt members j, j)) = id := rfl
    simp only [zipIdx_eq_map, List.filter_map, List.map_map, hmap, List.map_id]
    exact List.pairwise_lt_range.filter _

theorem Order.length_prerequisites {members : List Member} {i : Nat} (hi : i < members.length) :
    (prerequisites members i).length = (List.range members.length).countP fun j =>
      (memberAt members i).requires (memberAt members j) := by
  have hat : members[i]? = some (memberAt members i) := by
    rw [memberAt, List.getElem?_eq_getElem hi, Option.getD_some]
  rw [prerequisites, hat]
  simp only [List.length_map, ← List.countP_eq_length_filter, zipIdx_eq_map, List.countP_map]
  rfl

end ObjectMarkup
