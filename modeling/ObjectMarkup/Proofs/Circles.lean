/-
The strongly connected components of a graph, and the circle that is reported when members have no
order.

A search leaves a node when all that can be reached from it has been met.  `Explores` says what a
visit adds to a search: fuel is enough as long as it bounds the nodes that have not been met.  What
is reachable is then the transitive closure of the edges (`mem_reachable`), and the nodes that are
reached from each other are the strongly connected components (`components_finds`).

`FindsComponents` is what is relied on when components are looked for, and no more than that is
needed for what is reported to be a circle (`FindsComponents.isCircle`).  Which one it is depends on
the order of the components: for those that the search leaves it is `circle` (`circle_eq`).
-/
import ObjectMarkup.Proofs.Queue

namespace ObjectMarkup

open Relation (ReflTransGen TransGen)

namespace Order

/-- There is an edge from `a` to `b`. -/
abbrev Edge (next : Nat → List Nat) (a b : Nat) : Prop :=
  b ∈ next a

/-! ## Searching -/

/-- What was met is under way, or it was left and what follows it was met. -/
def Search.Closed (next : Nat → List Nat) (underway : List Nat) (s : Search) : Prop :=
  ∀ u ∈ s.met, u ∈ underway ∨ (u ∈ s.finished ∧ ∀ w ∈ next u, w ∈ s.met)

/-- A search went on from `vs`, with `underway` not left yet. -/
structure Search.Explores (next : Nat → List Nat) (underway vs : List Nat) (s s' : Search) :
    Prop where
  met : ∀ u ∈ s.met, u ∈ s'.met
  finished : ∀ u ∈ s.finished, u ∈ s'.finished
  found : ∀ v ∈ vs, v ∈ s'.met
  closed : s'.Closed next underway
  reached : ∀ u ∈ s'.met, u ∈ s.met ∨ ∃ v ∈ vs, ReflTransGen (Edge next) v u

/-- The number of positions below `n` that the search has not met. -/
def Search.unmet (n : Nat) (s : Search) : Nat :=
  ((Finset.range n).filter (· ∉ s.met)).card

section

open Search (Closed Explores unmet)

variable {next : Nat → List Nat} {underway : List Nat} {n fuel v : Nat} {s s' : Search}

theorem unmet_le (h : ∀ u ∈ s.met, u ∈ s'.met) : unmet n s' ≤ unmet n s :=
  Finset.card_le_card (Finset.monotone_filter_right _ fun u _ hu hmem => hu (h u hmem))

theorem unmet_lt (hv : v < n) (hnew : v ∉ s.met) (hmem : v ∈ s'.met)
    (h : ∀ u ∈ s.met, u ∈ s'.met) : unmet n s' < unmet n s := by
  refine Finset.card_lt_card (Finset.ssubset_iff_of_subset ?_ |>.2 ⟨v, ?_, ?_⟩)
  · exact Finset.monotone_filter_right _ fun u _ hu hmem => hu (h u hmem)
  · exact Finset.mem_filter.2 ⟨Finset.mem_range.2 hv, hnew⟩
  · exact fun hv' => (Finset.mem_filter.1 hv').2 hmem

theorem unmet_start (n : Nat) : unmet n {} ≤ n := by
  refine (Finset.card_filter_le _ _).trans ?_
  rw [Finset.card_range]

theorem Search.Closed.start (next : Nat → List Nat) : ({} : Search).Closed next [] :=
  fun _ hu => absurd hu List.not_mem_nil

theorem foldl_explores
    (hvisit : ∀ {s : Search} {v : Nat}, v < n → unmet n s ≤ fuel → s.Closed next underway →
      s.Explores next underway [v] (visit next fuel s v))
    {vs : List Nat} (hvs : ∀ v ∈ vs, v < n) (hfuel : unmet n s ≤ fuel)
    (hs : s.Closed next underway) :
    s.Explores next underway vs (vs.foldl (visit next fuel) s) := by
  induction vs generalizing s with
  | nil =>
    exact ⟨fun _ h => h, fun _ h => h, fun _ h => absurd h List.not_mem_nil, hs, fun _ h => .inl h⟩
  | cons v vs ih =>
    have hfirst := hvisit (hvs v List.mem_cons_self) hfuel hs
    have hrest := ih (fun u hu => hvs u (List.mem_cons_of_mem v hu))
      ((unmet_le hfirst.met).trans hfuel) hfirst.closed
    refine ⟨fun u hu => hrest.met u (hfirst.met u hu),
      fun u hu => hrest.finished u (hfirst.finished u hu), fun u hu => ?_, hrest.closed,
      fun u hu => ?_⟩
    · rcases List.mem_cons.1 hu with rfl | hu
      · exact hrest.met u (hfirst.found u (List.mem_singleton_self u))
      · exact hrest.found u hu
    · rcases hrest.reached u hu with hu | ⟨w, hw, hwu⟩
      · rcases hfirst.reached u hu with hu | ⟨w, hw, hwu⟩
        · exact .inl hu
        · exact .inr ⟨w, List.mem_cons.2 (.inl (List.mem_singleton.1 hw)), hwu⟩
      · exact .inr ⟨w, List.mem_cons_of_mem v hw, hwu⟩

/-- With fuel for all positions that were not met, a visit meets what can be reached. -/
theorem visit_explores (hnext : ∀ u, ∀ w ∈ next u, w < n) (hv : v < n)
    (hfuel : unmet n s ≤ fuel) (hs : s.Closed next underway) :
    s.Explores next underway [v] (visit next fuel s v) := by
  induction fuel generalizing s v underway with
  | zero =>
    have hmem : v ∈ s.met := by
      by_contra hnew
      have hmem : v ∈ (Finset.range n).filter (· ∉ s.met) :=
        Finset.mem_filter.2 ⟨Finset.mem_range.2 hv, hnew⟩
      exact Nat.not_lt.2 hfuel (Finset.card_pos.2 ⟨v, hmem⟩)
    exact ⟨fun _ h => h, fun _ h => h, fun u hu => List.mem_singleton.1 hu ▸ hmem, hs,
      fun _ h => .inl h⟩
  | succ fuel ih =>
    rw [visit]
    by_cases hmem : v ∈ s.met
    · rw [if_pos (List.contains_iff_mem.2 hmem)]
      exact ⟨fun _ h => h, fun _ h => h, fun u hu => List.mem_singleton.1 hu ▸ hmem, hs,
        fun _ h => .inl h⟩
    · rw [if_neg (fun h => hmem (List.contains_iff_mem.1 h))]
      have hin : Closed next (v :: underway) { s with met := v :: s.met } := by
        intro u hu
        rcases List.mem_cons.1 hu with rfl | hu
        · exact .inl List.mem_cons_self
        · rcases hs u hu with hu | ⟨hleft, hclosed⟩
          · exact .inl (List.mem_cons_of_mem v hu)
          · exact .inr ⟨hleft, fun w hw => List.mem_cons_of_mem v (hclosed w hw)⟩
      have hless : unmet n { s with met := v :: s.met } < unmet n s :=
        unmet_lt hv hmem List.mem_cons_self fun u hu => List.mem_cons_of_mem v hu
      have hbelow : Explores next (v :: underway) (next v) { s with met := v :: s.met } _ :=
        foldl_explores (fun hv hfuel hs => ih hv hfuel hs) (hnext v) (by omega) hin
      refine ⟨fun u hu => hbelow.met u (List.mem_cons_of_mem v hu),
        fun u hu => List.mem_cons_of_mem v (hbelow.finished u hu),
        fun u hu => hbelow.met u (List.mem_cons.2 (.inl (List.mem_singleton.1 hu))),
        fun u hu => ?_, fun u hu => ?_⟩
      · rcases hbelow.closed u hu with hu | ⟨hleft, hclosed⟩
        · rcases List.mem_cons.1 hu with rfl | hu
          · exact .inr ⟨List.mem_cons_self, hbelow.found⟩
          · exact .inl hu
        · exact .inr ⟨List.mem_cons_of_mem v hleft, hclosed⟩
      · rcases hbelow.reached u hu with hu | ⟨w, hw, hwu⟩
        · rcases List.mem_cons.1 hu with rfl | hu
          · exact .inr ⟨u, List.mem_singleton_self u, .refl⟩
          · exact .inl hu
        · exact .inr ⟨v, List.mem_singleton_self v, hwu.head hw⟩

end

/-! ## Components -/

section

variable {n : Nat} {next : Nat → List Nat} {i j v : Nat} {c : List Nat}

theorem foldl_visit_explores (hnext : ∀ u, ∀ w ∈ next u, w < n) {vs : List Nat}
    (hvs : ∀ v ∈ vs, v < n) : Search.Explores next [] vs {} (vs.foldl (visit next n) {}) :=
  foldl_explores (fun hv hfuel hs => visit_explores hnext hv hfuel hs) hvs (unmet_start n)
    (.start next)

theorem mem_reachable (hnext : ∀ u, ∀ w ∈ next u, w < n) :
    j ∈ reachable n next i ↔ TransGen (Edge next) i j := by
  have hexplores := foldl_visit_explores hnext (hnext i)
  rw [reachable]
  constructor
  · intro hj
    rcases hexplores.reached j hj with hj | ⟨v, hv, hvj⟩
    · cases hj
    · exact .head' hv hvj
  · intro h
    induction h with
    | single h => exact hexplores.found _ h
    | tail _ h ih =>
      obtain hunder | ⟨-, hclosed⟩ := hexplores.closed _ ih
      · cases hunder
      · exact hclosed _ h

theorem lt_of_transGen (hnext : ∀ u, ∀ w ∈ next u, w < n) (h : TransGen (Edge next) i j) :
    j < n := by
  cases h with
  | single h => exact hnext _ _ h
  | tail _ h => exact hnext _ _ h

/-- The nodes stand on a circle: each is reached from the other. -/
theorem onCircle_iff (hnext : ∀ u, ∀ w ∈ next u, w < n) :
    onCircle (reachTable n next) i j = true ↔
      TransGen (Edge next) i j ∧ TransGen (Edge next) j i := by
  have hrow : ∀ {i j}, j ∈ (reachTable n next)[i]?.getD [] ↔
      i < n ∧ TransGen (Edge next) i j := by
    intro i j
    by_cases hi : i < n
    · simp [reachTable, hi, mem_reachable hnext]
    · simp [reachTable, hi]
  rw [onCircle, Bool.and_eq_true, List.contains_iff_mem, List.contains_iff_mem, hrow, hrow]
  constructor
  · rintro ⟨⟨-, hij⟩, -, hji⟩
    exact ⟨hij, hji⟩
  · rintro ⟨hij, hji⟩
    exact ⟨⟨lt_of_transGen hnext hji, hij⟩, lt_of_transGen hnext hij, hji⟩

/-- A strongly connected component, as the nodes that are reached from each other. -/
def IsComponent (next : Nat → List Nat) (c : List Nat) : Prop :=
  ∀ i ∈ c, ∀ j, j ∈ c ↔ ReflTransGen (Edge next) i j ∧ ReflTransGen (Edge next) j i

/-- What is relied on when components are looked for: those that are found are strongly connected
components, each node is in one of them, and it is listed there once. -/
structure FindsComponents (find : Nat → (Nat → List Nat) → List (List Nat)) : Prop where
  nodup : ∀ n next, ∀ c ∈ find n next, c.Nodup
  isComponent : ∀ n next, (∀ u, ∀ w ∈ next u, w < n) → ∀ c ∈ find n next, IsComponent next c
  covers : ∀ n next, (∀ u, ∀ w ∈ next u, w < n) → ∀ i < n, ∃ c ∈ find n next, i ∈ c

theorem mem_componentOf (hnext : ∀ u, ∀ w ∈ next u, w < n) :
    i ∈ componentOf n (reachTable n next) v ↔
      i < n ∧ ReflTransGen (Edge next) v i ∧ ReflTransGen (Edge next) i v := by
  rw [componentOf, List.mem_filter, List.mem_range, Bool.or_eq_true, onCircle_iff hnext,
    beq_iff_eq]
  refine and_congr_right fun _ => ⟨?_, ?_⟩
  · rintro (rfl | ⟨hvi, hiv⟩)
    · exact ⟨.refl, .refl⟩
    · exact ⟨hvi.to_reflTransGen, hiv.to_reflTransGen⟩
  · rintro ⟨hvi, hiv⟩
    rcases Relation.reflTransGen_iff_eq_or_transGen.1 hvi with rfl | htrans
    · exact .inl rfl
    · rcases Relation.reflTransGen_iff_eq_or_transGen.1 hiv with rfl | hback
      · exact .inl rfl
      · exact .inr ⟨htrans, hback⟩

theorem nodup_componentOf (n : Nat) (table : List (List Nat)) (v : Nat) :
    (componentOf n table v).Nodup :=
  List.nodup_range.filter _

theorem isComponent_componentOf (hnext : ∀ u, ∀ w ∈ next u, w < n) (v : Nat) :
    IsComponent next (componentOf n (reachTable n next) v) := by
  intro i hi j
  obtain ⟨hlt, hvi, hiv⟩ := (mem_componentOf hnext).1 hi
  rw [mem_componentOf hnext]
  constructor
  · rintro ⟨-, hvj, hjv⟩
    exact ⟨hiv.trans hvj, hjv.trans hvi⟩
  · rintro ⟨hij, hji⟩
    refine ⟨?_, hvi.trans hij, hji.trans hiv⟩
    rcases Relation.reflTransGen_iff_eq_or_transGen.1 hij with rfl | htrans
    · exact hlt
    · exact lt_of_transGen hnext htrans

/-- Of every node, the last one on a circle with it is found. -/
theorem exists_mem_lastLeft (together : Nat → Nat → Bool)
    (hsymm : ∀ v u, together v u = true → together u v = true)
    (htrans : ∀ v u w, together v u = true → together u w = true → together v w = true)
    {vs : List Nat} (hv : v ∈ vs) :
    ∃ r ∈ lastLeft together vs, v = r ∨ together r v = true := by
  induction vs generalizing v with
  | nil => cases hv
  | cons x vs ih =>
    have hlater : ∀ w ∈ vs, ∃ r ∈ lastLeft together (x :: vs), w = r ∨ together r w = true := by
      intro w hw
      obtain ⟨r, hr, hrw⟩ := ih hw
      refine ⟨r, ?_, hrw⟩
      rw [lastLeft]
      split
      · exact List.mem_cons_of_mem x hr
      · exact hr
    rcases List.mem_cons.1 hv with rfl | hv
    · by_cases hlast : (vs.all fun u => !together v u) = true
      · refine ⟨v, ?_, .inl rfl⟩
        rw [lastLeft, if_pos hlast]
        exact List.mem_cons_self
      · -- a later node is on a circle with this one
        have hsome : ∃ u ∈ vs, together v u = true := by simpa using hlast
        obtain ⟨u, hu, hvu⟩ := hsome
        obtain ⟨r, hr, hru⟩ := hlater u hu
        refine ⟨r, hr, .inr ?_⟩
        rcases hru with rfl | hru
        · exact hsymm v u hvu
        · exact htrans r u v hru (hsymm v u hvu)
    · exact hlater v hv

/-- The components that a depth-first search leaves are those of the graph. -/
theorem components_finds : FindsComponents components where
  nodup n next c hc := by
    obtain ⟨v, -, rfl⟩ := List.mem_map.1 hc
    exact nodup_componentOf n _ v
  isComponent n next hnext c hc := by
    obtain ⟨v, -, rfl⟩ := List.mem_map.1 hc
    exact isComponent_componentOf hnext v
  covers n next hnext i hi := by
    have hsearch : Search.Explores next [] (List.range n) {} _ :=
      foldl_visit_explores hnext fun v hv => List.mem_range.1 hv
    have hleft : i ∈ ((List.range n).foldl (visit next n) {}).finished := by
      obtain hunder | ⟨hleft, -⟩ := hsearch.closed i (hsearch.found i (List.mem_range.2 hi))
      · cases hunder
      · exact hleft
    obtain ⟨r, hr, hri⟩ := exists_mem_lastLeft (onCircle (reachTable n next))
      (fun v u h => (onCircle_iff hnext).2 ((onCircle_iff hnext).1 h).symm)
      (fun v u w hvu huw => (onCircle_iff hnext).2
        ⟨((onCircle_iff hnext).1 hvu).1.trans ((onCircle_iff hnext).1 huw).1,
          ((onCircle_iff hnext).1 huw).2.trans ((onCircle_iff hnext).1 hvu).2⟩)
      (List.mem_reverse.2 hleft)
    refine ⟨_, List.mem_map_of_mem hr, ?_⟩
    rw [componentOf, List.mem_filter, List.mem_range, Bool.or_eq_true, beq_iff_eq]
    exact ⟨hi, hri⟩

/-! ## Components with a circle -/

theorem holdsCircle_iff (hnodup : c.Nodup) (hc : IsComponent next c) :
    holdsCircle next c = true ↔ ∃ i ∈ c, TransGen (Edge next) i i := by
  match c with
  | [] => simp [holdsCircle]
  | [i] =>
    have hedge : holdsCircle next [i] = true ↔ Edge next i i := by simp [holdsCircle]
    rw [hedge]
    constructor
    · intro h
      exact ⟨i, List.mem_singleton_self i, .single h⟩
    · rintro ⟨j, hj, hcircle⟩
      obtain rfl := List.mem_singleton.1 hj
      -- the first step of the circle stays in the component
      obtain ⟨k, hjk, hkj⟩ := Relation.TransGen.head'_iff.1 hcircle
      have hk := (hc j hj k).2 ⟨.single hjk, hkj⟩
      obtain rfl := List.mem_singleton.1 hk
      exact hjk
  | i :: j :: c =>
    have hne : i ≠ j := fun heq => (List.nodup_cons.1 hnodup).1 (heq ▸ List.mem_cons_self)
    have hi : i ∈ i :: j :: c := List.mem_cons_self
    obtain ⟨hij, hji⟩ := (hc i hi j).1 (List.mem_cons_of_mem i List.mem_cons_self)
    have hstep := (Relation.reflTransGen_iff_eq_or_transGen.1 hij).resolve_left (Ne.symm hne)
    have htrue : holdsCircle next (i :: j :: c) = true := by simp [holdsCircle]
    exact iff_of_true htrue ⟨i, hi, hstep.trans_left hji⟩

theorem holdsCircle_componentOf (hnext : ∀ u, ∀ w ∈ next u, w < n) (v : Nat) :
    holdsCircle next (componentOf n (reachTable n next) v) =
      onCircle (reachTable n next) v v := by
  rw [Bool.eq_iff_iff, onCircle_iff hnext, and_self,
    holdsCircle_iff (nodup_componentOf n _ v) (isComponent_componentOf hnext v)]
  constructor
  · rintro ⟨i, hi, hcircle⟩
    obtain ⟨-, hvi, hiv⟩ := (mem_componentOf hnext).1 hi
    exact TransGen.trans_right hvi (TransGen.trans_left hcircle hiv)
  · intro hcircle
    exact ⟨v, (mem_componentOf hnext).2 ⟨lt_of_transGen hnext hcircle, .refl, .refl⟩, hcircle⟩

namespace FindsComponents

variable {find : Nat → (Nat → List Nat) → List (List Nat)}

theorem holdsCircle_found (h : FindsComponents find) (hnext : ∀ u, ∀ w ∈ next u, w < n)
    (hc : c ∈ find n next) : holdsCircle next c = true ↔ ∃ i ∈ c, TransGen (Edge next) i i :=
  holdsCircle_iff (h.nodup n next c hc) (h.isComponent n next hnext c hc)

theorem find?_eq_none (h : FindsComponents find) (hnext : ∀ u, ∀ w ∈ next u, w < n) :
    (find n next).find? (holdsCircle next) = none ↔ ¬ ∃ i, TransGen (Edge next) i i := by
  rw [List.find?_eq_none]
  constructor
  · rintro hnone ⟨i, hi⟩
    obtain ⟨c, hc, hic⟩ := h.covers n next hnext i (lt_of_transGen hnext hi)
    exact hnone c hc ((h.holdsCircle_found hnext hc).2 ⟨i, hic, hi⟩)
  · intro hnone c hc hholds
    obtain ⟨i, -, hi⟩ := (h.holdsCircle_found hnext hc).1 hholds
    exact hnone ⟨i, hi⟩

theorem of_find?_eq_some (h : FindsComponents find) (hnext : ∀ u, ∀ w ∈ next u, w < n)
    (hfind : (find n next).find? (holdsCircle next) = some c) :
    c.Nodup ∧ ∃ i, TransGen (Edge next) i i ∧
      ∀ j, j ∈ c ↔ ReflTransGen (Edge next) i j ∧ ReflTransGen (Edge next) j i := by
  have hc := List.mem_of_find?_eq_some hfind
  obtain ⟨i, hi, hcircle⟩ := (h.holdsCircle_found hnext hc).1 (List.find?_some hfind)
  exact ⟨h.nodup n next c hc, i, hcircle, h.isComponent n next hnext c hc i hi⟩

end FindsComponents

end

/-! ## The circle that is reported -/

section

variable {members : List Member} {c : List Nat}

theorem edge_followers (members : List Member) : Edge (followers members) = Precedes members :=
  funext fun _ => funext fun _ => propext mem_followers

theorem followers_lt (members : List Member) :
    ∀ i, ∀ j ∈ followers members i, j < members.length :=
  fun _ _ hj => (mem_followers.1 hj).lt.2

/-- The positions of a strongly connected component that holds a circle, in ascending order. -/
structure IsCircle (members : List Member) (positions : List Nat) : Prop where
  ascending : positions.Pairwise (· < ·)
  component : ∃ i, TransGen (Precedes members) i i ∧ ∀ j, j ∈ positions ↔
    ReflTransGen (Precedes members) i j ∧ ReflTransGen (Precedes members) j i

theorem FindsComponents.isCircle {find : Nat → (Nat → List Nat) → List (List Nat)}
    (h : FindsComponents find) (hfind : (find members.length (followers members)).find?
      (holdsCircle (followers members)) = some c) : IsCircle members (ascending c) := by
  obtain ⟨hnodup, i, hi, hc⟩ := h.of_find?_eq_some (followers_lt members) hfind
  rw [edge_followers] at hi hc
  exact ⟨ascending_pairwise hnodup, i, hi, fun j => mem_ascending.trans (hc j)⟩

theorem IsCircle.lt {positions : List Nat} (h : IsCircle members positions) :
    ∀ j ∈ positions, j < members.length := by
  intro j hj
  obtain ⟨i, hi, hpositions⟩ := h.component
  obtain ⟨hij, hji⟩ := (hpositions j).1 hj
  exact (Precedes.lt_of_transGen (TransGen.trans_left hi hij)).2

/-- The first node from which no later one is on a circle with it, while it is on one. -/
def firstLeft (together : Nat → Nat → Bool) : List Nat → Option Nat
  | [] => none
  | v :: rest =>
    if together v v && rest.all fun u => !together v u then some v else firstLeft together rest

/-- The names on the circle that a depth-first search leaves first, as they are written. -/
def circle (members : List Member) : List String :=
  let next := followers members
  let search := (List.range members.length).foldl (visit next members.length) {}
  let together := onCircle (reachTable members.length next)
  match firstLeft together search.finished.reverse with
  | none => []
  | some v => (members.zipIdx.filter fun e => together v e.2).map (·.1.name)

theorem find?_lastLeft (together : Nat → Nat → Bool) (vs : List Nat) :
    (lastLeft together vs).find? (fun v => together v v) = firstLeft together vs := by
  induction vs with
  | nil => rfl
  | cons v vs ih =>
    rw [lastLeft, firstLeft]
    by_cases hlast : (vs.all fun u => !together v u) = true
    · rw [if_pos hlast, List.find?_cons, hlast, Bool.and_true]
      cases together v v with
      | true => rfl
      | false => exact ih
    · rw [if_neg hlast, Bool.eq_false_iff.2 hlast, Bool.and_false]
      exact ih

theorem filterMap_name {positions : List Nat} (h : ∀ i ∈ positions, i < members.length) :
    positions.filterMap (fun i => members[i]?.map (·.name)) =
      positions.map fun i => (memberAt members i).name := by
  rw [← List.filterMap_eq_map]
  refine List.filterMap_congr fun i hi => ?_
  simp [memberAt, List.getElem?_eq_getElem (h i hi)]

/-- The first component that holds a circle is the one whose names are reported. -/
theorem circle_eq (hfind : (components members.length (followers members)).find?
      (holdsCircle (followers members)) = some c) :
    (ascending c).filterMap (fun i => members[i]?.map (·.name)) = circle members := by
  have hholds := funext (holdsCircle_componentOf (followers_lt members))
  rw [components, List.find?_map, Function.comp_def, hholds, Option.map_eq_some_iff] at hfind
  obtain ⟨v, hfind, rfl⟩ := hfind
  have hv := List.find?_some hfind
  have hfilter : componentOf members.length
      (reachTable members.length (followers members)) v =
      (List.range members.length).filter
        (onCircle (reachTable members.length (followers members)) v) := by
    refine List.filter_congr fun u _ => ?_
    by_cases huv : u = v
    · subst huv
      rw [beq_self_eq_true, Bool.true_or, hv]
    · rw [beq_false_of_ne huv, Bool.false_or]
  rw [hfilter, ascending_of_pairwise (List.pairwise_lt_range.filter _),
    filterMap_name fun i hi => List.mem_range.1 (List.mem_filter.1 hi).1, circle]
  simp only [← find?_lastLeft, hfind]
  rw [zipIdx_eq_map, List.filter_map, List.map_map]
  rfl

end

end Order
end ObjectMarkup
