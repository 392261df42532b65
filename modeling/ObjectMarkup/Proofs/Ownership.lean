/-
Dependencies between members of one type, and what becomes of the order of members where types mix.

A member names those it depends on by their simple names, and means members of its own type: that is
`Declares`.  An order is made from simple names alone (`Precedes`), so that members of other types
count as well.  There is one least order for each of the two relations at most
(`LeastOrder.unique`).  The one of `Declares` is what is found when every name is spelled with its
owner (`dependencyOrder_spelled`), and it is the answer just when it also puts members of other
types first whose simple names are depended on (`dependencyOrder_declared`).
-/
import Mathlib.Data.List.Lex
import ObjectMarkup.Proofs.Dependencies

namespace ObjectMarkup

open Relation (TransGen)
open ObjectMarkup.Order

/-! ## Least orders -/

namespace LeastOrder

variable {r r' : Nat → Nat → Prop} {n : Nat} {order order' : List Nat}

theorem unique (h : LeastOrder r n order) (h' : LeastOrder r n order') : order = order' := by
  rcases h.least order' h'.perm h'.follows with heq | hlt
  · exact heq
  · rcases h'.least order h.perm h.follows with heq | hgt
    · exact heq.symm
    · exact absurd hgt (Std.Asymm.asymm _ _ hlt)

/-- An order that is least among more orders is least among fewer, if it is one of them. -/
theorem of_follows (h : LeastOrder r n order) (hle : ∀ i j, r i j → r' i j)
    (hfollows : ∀ i j, r' i j → order.idxOf i < order.idxOf j) : LeastOrder r' n order where
  perm := h.perm
  follows := hfollows
  least other hperm hother := h.least other hperm fun i j hij => hother i j (hle i j hij)

end LeastOrder

/-- An order is found just when there is a least one, which it is. -/
theorem dependencyOrder_eq_ok_iff (owner : TypeName) (members : List Member) (order : List Nat) :
    dependencyOrder owner members = .ok order ↔
      LeastOrder (Precedes members) members.length order := by
  have hfound : ∀ found, dependencyOrder owner members = .ok found →
      LeastOrder (Precedes members) members.length found := fun found h =>
    leastOrder_of_scheduled (dependencyOrderBy_ok components_finds h)
  refine ⟨hfound order, fun h => ?_⟩
  cases hfind : dependencyOrder owner members with
  | ok found => rw [(hfound found hfind).unique h]
  | error e =>
    -- what has an order has no circle
    have hcircle : Circular (memberAt members) (List.range members.length) := by
      rw [Circular, before_memberAt]
      exact (dependencyOrder_error_iff owner members).1 ⟨e, hfind⟩
    have hin := ((respects_iff h.perm).1 h.follows).not_circular
    exact absurd ((circular_perm h.perm).2 hcircle) hin

/-! ## Names with their owners -/

/-- The member at `j` depends on the one at `i`, and both are members of one type. -/
def Declares (members : List Member) (i j : Nat) : Prop :=
  ∃ a b, members[i]? = some a ∧ members[j]? = some b ∧ a.owner = b.owner ∧
    a.name ∈ b.dependencies

theorem Declares.precedes {members : List Member} {i j : Nat} (h : Declares members i j) :
    Precedes members i j := by
  obtain ⟨a, b, ha, hb, -, hdep⟩ := h
  exact ⟨a, b, ha, hb, hdep⟩

/-- A name behind its owner.  Each character of the owner has a mark before it, so that it is clear
where the owner ends. -/
def spell (owner name : String) : String :=
  String.ofList (owner.toList.flatMap (fun c => ['*', c]) ++ '.' :: name.toList)

theorem spelling_inj {as bs ns ms : List Char}
    (h : as.flatMap (fun c => ['*', c]) ++ '.' :: ns =
      bs.flatMap (fun c => ['*', c]) ++ '.' :: ms) :
    as = bs ∧ ns = ms := by
  induction as generalizing bs with
  | nil => cases bs <;> simp_all
  | cons a as ih =>
    cases bs with
    | nil => simp at h
    | cons b bs =>
      simp only [List.flatMap_cons, List.cons_append, List.nil_append, List.cons.injEq,
        true_and] at h
      obtain ⟨rfl, h⟩ := h
      obtain ⟨rfl, rfl⟩ := ih h
      exact ⟨rfl, rfl⟩

theorem spell_inj {owner owner' name name' : String} :
    spell owner name = spell owner' name' ↔ owner = owner' ∧ name = name' := by
  constructor
  · intro h
    obtain ⟨howner, hname⟩ := spelling_inj (String.ofList_injective h)
    exact ⟨String.toList_injective howner, String.toList_injective hname⟩
  · rintro ⟨rfl, rfl⟩
    rfl

/-- The member with its owner spelled in its name and in the names of those it depends on. -/
def Member.spelled (m : Member) : Member :=
  { m with name := spell m.owner m.name, dependencies := m.dependencies.map (spell m.owner) }

theorem precedes_spelled (members : List Member) :
    Precedes (members.map Member.spelled) = Declares members := by
  funext i j
  refine propext ⟨?_, ?_⟩
  · rintro ⟨a, b, ha, hb, hdep⟩
    rw [List.getElem?_map, Option.map_eq_some_iff] at ha hb
    obtain ⟨a, ha, rfl⟩ := ha
    obtain ⟨b, hb, rfl⟩ := hb
    obtain ⟨name, hname, hspell⟩ := List.mem_map.1 hdep
    obtain ⟨howner, rfl⟩ := spell_inj.1 hspell
    exact ⟨a, b, ha, hb, howner.symm, hname⟩
  · rintro ⟨a, b, ha, hb, howner, hdep⟩
    refine ⟨a.spelled, b.spelled, by simp [ha], by simp [hb], ?_⟩
    exact List.mem_map.2 ⟨a.name, hdep, spell_inj.2 ⟨howner.symm, rfl⟩⟩

/-- With owners spelled in the names, only members of one type depend on each other. -/
theorem dependencyOrder_spelled (owner : TypeName) (members : List Member) (order : List Nat) :
    dependencyOrder owner (members.map Member.spelled) = .ok order ↔
      LeastOrder (Declares members) members.length order := by
  rw [dependencyOrder_eq_ok_iff, precedes_spelled, List.length_map]

/-- Members of one type that do not depend on each other in a circle have a least order. -/
theorem exists_leastOrder {members : List Member}
    (h : ¬ ∃ i, TransGen (Declares members) i i) :
    ∃ order, LeastOrder (Declares members) members.length order := by
  cases hfind : dependencyOrder "" (members.map Member.spelled) with
  | ok order => exact ⟨order, (dependencyOrder_spelled "" members order).1 hfind⟩
  | error e =>
    have hcircle := (dependencyOrder_error_iff "" _).1 ⟨e, hfind⟩
    rw [precedes_spelled] at hcircle
    exact absurd hcircle h

/-! ## Orders of mixed types -/

/-- Members of one type that depend on each other in a circle have no order.  Without such a circle
they have one least order, and it is the answer just when it puts each member also after those of
other types whose simple names it depends on.  So where a dependency is never the simple name of a
member of another type, an order is refused for circles among members of one type only and the
answer is their least order. -/
theorem dependencyOrder_declared (owner : TypeName) (members : List Member) :
    ((∃ i, TransGen (Declares members) i i) →
      ∃ e, dependencyOrder owner members = .error e) ∧
    ((¬ ∃ i, TransGen (Declares members) i i) →
      ∃ order, LeastOrder (Declares members) members.length order ∧
        (dependencyOrder owner members = .ok order ↔ Respects members order)) ∧
    ((∀ i j, Precedes members i j → Declares members i j) →
      ((∃ e, dependencyOrder owner members = .error e) ↔
        ∃ i, TransGen (Declares members) i i) ∧
      ∀ order, dependencyOrder owner members = .ok order ↔
        LeastOrder (Declares members) members.length order) := by
  refine ⟨fun hcircle => ?_, fun hnone => ?_, fun hsame => ?_⟩
  · obtain ⟨i, hi⟩ := hcircle
    refine (dependencyOrder_error_iff owner members).2 ⟨i, ?_⟩
    exact hi.lift id fun _ _ => Declares.precedes
  · obtain ⟨order, horder⟩ := exists_leastOrder hnone
    refine ⟨order, horder, fun hfind => ?_, fun hrespects => ?_⟩
    · exact ((dependencyOrder_eq_ok_iff owner members order).1 hfind).follows
    · refine (dependencyOrder_eq_ok_iff owner members order).2 ?_
      exact horder.of_follows (fun _ _ => Declares.precedes) hrespects
  · have heq : Precedes members = Declares members :=
      funext fun i => funext fun j => propext ⟨hsame i j, Declares.precedes⟩
    refine ⟨?_, fun order => ?_⟩
    · rw [dependencyOrder_error_iff, heq]
    · rw [dependencyOrder_eq_ok_iff, heq]

/-- The height of a panel, which waits for a row of the panel. -/
def panelHeight : Member := { owner := "Panel", name := "Height", dependencies := ["Row"] }

/-- The row that a grid attaches to what is in it. -/
def gridRow : Member := { owner := "Grid", name := "Row", kind := .attached }

/-- The row of a grid comes before the height of a panel, though the height depends on a row of the
panel only; and if the row depends on a height of the grid, there is no order at all. -/
theorem declared_apart_gridRow :
    LeastOrder (Declares [panelHeight, gridRow]) 2 [0, 1] ∧
    dependencyOrder "Panel" [panelHeight, gridRow] = .ok [1, 0] ∧
    LeastOrder (Declares [panelHeight, { gridRow with dependencies := ["Height"] }]) 2 [0, 1] ∧
    dependencyOrder "Panel" [panelHeight, { gridRow with dependencies := ["Height"] }] =
      .error (.dependencyCycle "Panel" ["Height", "Row"]) :=
  ⟨(dependencyOrder_spelled "Panel" [panelHeight, gridRow] [0, 1]).1 (by decide +kernel),
    by decide +kernel,
    (dependencyOrder_spelled "Panel" [panelHeight, { gridRow with dependencies := ["Height"] }]
      [0, 1]).1 (by decide +kernel),
    by decide +kernel⟩

end ObjectMarkup
