/-
The two ways in which a member of many values is filled.

Where the object holds a collection already, the values are appended to it one by one, a list item
by item.  Where it holds nothing, the member is set as a whole to one list (`wholeItems`), which is
the list that was received, if that is all, and else has the values themselves as its items.
`endMember_fills` says what each way leaves, and when the two leave the same: when one value was
received, or no list among several.
-/
import ObjectMarkup.Proofs.Renaming
import ObjectMarkup.Proofs.Routes

namespace ObjectMarkup

open ObjectMarkup.Action (success? of_success?)

variable {σ : Type}

/-! ## Lists among values -/

namespace Value

def isList : Value → Bool
  | list _ => true
  | _ => false

theorem items_of_not_list {v : Value} (h : v.isList = false) : v.items = [v] := by
  cases v <;> first | rfl | cases h

/-- Values of which none is a list are appended as they are. -/
theorem flatMap_items_eq_self {vs : List Value} (h : ∀ v ∈ vs, v.isList = false) :
    vs.flatMap items = vs := by
  induction vs with
  | nil => rfl
  | cons v vs ih =>
    rw [List.flatMap_cons, items_of_not_list (h v List.mem_cons_self),
      ih fun v' hv' => h v' (List.mem_cons_of_mem v hv')]
    rfl

/-- A list is larger than its items together. -/
theorem sizeOf_items_append_le (v : Value) (vs : List Value) :
    sizeOf (v.items ++ vs) ≤ sizeOf (v :: vs) ∧
      (v.isList = true → sizeOf (v.items ++ vs) < sizeOf (v :: vs)) := by
  have happend : ∀ us : List Value, sizeOf (us ++ vs) + 1 = sizeOf us + sizeOf vs := by
    intro us
    induction us with
    | nil => simp [Nat.add_comm]
    | cons u us ih => simp; omega
  cases v with
  | list us =>
    have := happend us
    simp only [items, List.cons.sizeOf_spec, list.sizeOf_spec]
    omega
  | _ => simp [items, isList]

/-- Values among which is a list are larger together than what is appended of them. -/
theorem sizeOf_flatMap_items_le (vs : List Value) :
    sizeOf (vs.flatMap items) ≤ sizeOf vs ∧
      ((∃ v ∈ vs, v.isList = true) → sizeOf (vs.flatMap items) < sizeOf vs) := by
  induction vs with
  | nil => simp
  | cons v vs ih =>
    have hitems := sizeOf_items_append_le v (vs.flatMap items)
    simp only [List.flatMap_cons, List.cons.sizeOf_spec, List.exists_mem_cons_iff] at hitems ⊢
    refine ⟨by omega, ?_⟩
    rintro (hv | hvs)
    · have := hitems.2 hv
      omega
    · have := ih.2 hvs
      omega

/-- Values are appended as they are just when no list is among them. -/
theorem flatMap_items_eq_self_iff {vs : List Value} :
    vs.flatMap items = vs ↔ ∀ v ∈ vs, v.isList = false := by
  refine ⟨fun h v hv => ?_, flatMap_items_eq_self⟩
  by_contra hlist
  have hsmaller := (sizeOf_flatMap_items_le vs).2 ⟨v, hv, eq_true_of_ne_false hlist⟩
  rw [h] at hsmaller
  exact Nat.lt_irrefl _ hsmaller

end Value

namespace Services

/-- The items of the list that a member is set to as a whole. -/
def wholeItems (values : List Value) : List Value := (wholeList values).items

theorem wholeList_eq (values : List Value) : wholeList values = .list (wholeItems values) := by
  unfold wholeItems
  unfold wholeList
  split <;> rfl

/-- The list has the items that are appended, where there is one value or no list among several. -/
theorem wholeItems_eq_iff (values : List Value) :
    wholeItems values = values.flatMap Value.items ↔
      values.length = 1 ∨ ∀ v ∈ values, v.isList = false := by
  have hwhole : values.length ≠ 1 → wholeItems values = values := by
    intro hlength
    unfold wholeItems wholeList
    split
    · simp at hlength
    · rfl
  by_cases hlength : values.length = 1
  · obtain ⟨v, rfl⟩ := List.length_eq_one_iff.1 hlength
    refine iff_of_true ?_ (.inl rfl)
    cases v <;> simp [wholeItems, wholeList, Value.items]
  · rw [hwhole hlength, eq_comm, Value.flatMap_items_eq_self_iff]
    exact ⟨.inr, fun h => h.resolve_left hlength⟩

variable (services : Services σ)

/-- As long as the object has items, one can be appended, and stands at their end then. -/
structure TakesItems (c : ObjectId) (items : σ → Option (List Value)) : Prop where
  append : ∀ heap vs v, items heap = some vs →
    ∃ heap', services.host.append c v heap = .ok () heap' ∧ items heap' = some (vs ++ [v])

/-- As long as the member has items, it can be set to a list, and has its items then. -/
structure TakesList (target : ObjectId) (member : Member) (items : σ → Option (List Value)) :
    Prop where
  set : ∀ heap vs vs', items heap = some vs →
    ∃ heap', services.host.setMember target member (.list vs') heap = .ok () heap' ∧
      items heap' = some vs'

variable {services}

theorem TakesItems.appendEach {c : ObjectId} {items : σ → Option (List Value)}
    (h : services.TakesItems c items) (vs : List Value) {heap : σ} {before : List Value}
    (hbefore : items heap = some before) :
    ∃ heap', services.appendEach c vs heap = .ok () heap' ∧
      items heap' = some (before ++ vs) := by
  induction vs generalizing heap before with
  | nil => exact ⟨heap, rfl, by simpa using hbefore⟩
  | cons v vs ih =>
    obtain ⟨heap₁, happend, hitems⟩ := h.append heap before v hbefore
    obtain ⟨heap', hrest, hall⟩ := ih hitems
    refine ⟨heap', ?_, by simpa using hall⟩
    rw [Services.appendEach, Action.bind_apply, happend]
    exact hrest

variable (services) in
/-- What the end of a member of many values leaves.  A collection without items that the member
holds has the values as its items, with those of a list in the place of the list.  A member that
holds nothing is set to the values, or to the one list that was received.  The items are the same in
the one case and in the other just when there is one value, or no list among several. -/
theorem endMember_fills {m : Machine σ} {top : Frame} {rest : List Frame} {member : Member}
    {site : Site} (hr : m.recording = none) (hs : m.stack = top :: rest)
    (ht : top.member = some member) (hsite : top.site = some site)
    (hitems : member.isItems = false) (hattached : member.isAttached = false)
    (hmany : services.schema.takesMany member = true) :
    (∀ c items, services.TakesItems c items → items m.world.heap = some [] →
      services.host.getMember m.world.heap site.object member = some (.object c) →
      services.host.collects m.world.heap c = true →
      ∃ m', services.step .endMember m = .ok () m' ∧
        items m'.world.heap = some (top.pending.flatMap Value.items)) ∧
    (∀ items, services.TakesList site.object member items → items m.world.heap = some [] →
      services.host.getMember m.world.heap site.object member = none →
      ∃ m', services.step .endMember m = .ok () m' ∧
        items m'.world.heap = some (wholeItems top.pending)) ∧
    (wholeItems top.pending = top.pending.flatMap Value.items ↔
      top.pending.length = 1 ∨ ∀ v ∈ top.pending, v.isList = false) := by
  have hstep : services.step .endMember m = services.endMember m := step_of_idle services hr _
  rw [hstep, services.endMember_follows hs ht hsite]
  refine ⟨fun c items htakes hempty hget hcollects => ?_, fun items htakes hempty hget => ?_,
    wholeItems_eq_iff top.pending⟩
  · have hlive := liveCollection_eq_some.2 ⟨hget, hcollects⟩
    obtain ⟨heap, happend, hall⟩ := htakes.appendEach (top.pending.flatMap Value.items) hempty
    have hroute : services.routeOf m top member site =
        .appends c (if top.pending.isEmpty then .object c else summary top.pending) := by
      simp [routeOf, route, hitems, hmany, hlive]
    rw [hroute, follow, Action.bind_apply, happend]
    exact ⟨_, rfl, hall⟩
  · have hlive : services.liveCollection m.world.heap site.object member = none := by
      simp [liveCollection, hget]
    obtain ⟨heap, hset, hall⟩ := htakes.set m.world.heap [] (wholeItems top.pending) hempty
    have hroute : services.routeOf m top member site =
        .assigns (.list (wholeItems top.pending)) := by
      simp [routeOf, route, hitems, hmany, hlive, wholeList_eq]
    rw [hroute, follow, Action.bind_apply, assign, if_neg (by simp [hattached]), hset]
    exact ⟨_, rfl, hall⟩

end Services

/-! ## An items control and a grid -/

namespace Heap

/-- The items of a collection. -/
def collected (c : ObjectId) (h : Heap) : Option (List Value) :=
  match h.find? c with
  | some (.itemCollection w) => some w.items
  | _ => none

/-- The children of a grid. -/
def children (id : ObjectId) (h : Heap) : Option (List Value) :=
  match h.find? id with
  | some (.grid w) => some w.children
  | _ => none

theorem find?_of_collected {c : ObjectId} {h : Heap} {vs : List Value}
    (hvs : h.collected c = some vs) : h.find? c = some (.itemCollection ⟨vs⟩) := by
  unfold collected at hvs
  split at hvs
  · next w hfind =>
    obtain rfl : w.items = vs := Option.some.inj hvs
    exact hfind
  · cases hvs

theorem find?_of_children {id : ObjectId} {h : Heap} {vs : List Value}
    (hvs : h.children id = some vs) : h.find? id = some (.grid ⟨vs⟩) := by
  unfold children at hvs
  split at hvs
  · next w hfind =>
    obtain rfl : w.children = vs := Option.some.inj hvs
    exact hfind
  · cases hvs

end Heap

namespace Widget

/-- The children of a grid, which it keeps itself. -/
def gridChildren : Member :=
  { owner := "Grid", name := "Children", content := true, collection := true }

/-- The items of a control, which are an object that is made with it. -/
def controlItems : Member :=
  { owner := "ItemsControl", name := "Items", content := true, collection := true }

theorem takesItems_collected (settings : Settings) (c : ObjectId) :
    (catalogue.services Heap.host settings).TakesItems c (Heap.collected c) where
  append heap vs v h := by
    have hfind := Heap.find?_of_collected h
    refine ⟨heap.put c (.itemCollection ⟨vs ++ [v]⟩), ?_, ?_⟩
    · simp [Catalogue.services, Heap.host, Heap.act, hfind, append]
    · simp [Heap.collected, Heap.find?_put_self (Heap.lt_of_find? hfind)]

theorem takesList_children (settings : Settings) (id : ObjectId) :
    (catalogue.services Heap.host settings).TakesList id gridChildren (Heap.children id) where
  set heap vs vs' h := by
    have hfind := Heap.find?_of_children h
    refine ⟨heap.put id (.grid ⟨vs'⟩), ?_, ?_⟩
    · simp [Catalogue.services, Heap.host, Heap.act, hfind, setMember, withMember, gridChildren,
        Value.items]
    · simp [Heap.children, Heap.find?_put_self (Heap.lt_of_find? hfind)]

/-- A list of three and a text, in a member of many values. -/
def listAndText (owner : TypeName) (member : Member) : List Instruction :=
  [.startObject { type := owner }, .startMember member,
    .startObject { type := "CollectionExtension" }, .endObject,
    .startObject { type := "TextBlock" }, .endObject]

end Widget

namespace Services

/-- The items of the control are what is appended of the values, and the children of the grid what
was received. -/
theorem endMember_fills_listAndText :
    (∃ m top rest m', (Widget.catalogue.services Heap.host {}).steps
        (Widget.listAndText "ItemsControl" Widget.controlItems)
        (Machine.blank { heap := {} } none none) = .ok () m ∧ m.stack = top :: rest ∧
      (Widget.catalogue.services Heap.host {}).step .endMember m = .ok () m' ∧
      m'.world.heap.collected ⟨0⟩ = some (top.pending.flatMap Value.items)) ∧
    ∃ m top rest m', (Widget.catalogue.services Heap.host {}).steps
        (Widget.listAndText "Grid" Widget.gridChildren)
        (Machine.blank { heap := {} } none none) = .ok () m ∧ m.stack = top :: rest ∧
      (Widget.catalogue.services Heap.host {}).step .endMember m = .ok () m' ∧
      m'.world.heap.children ⟨0⟩ = some (wholeItems top.pending) := by
  constructor
  · have hok : (success? ((Widget.catalogue.services Heap.host {}).steps
          (Widget.listAndText "ItemsControl" Widget.controlItems)
          (Machine.blank { heap := {} } none none))).any (fun m => m.recording.isNone &&
        m.stack.head?.any (fun top => decide (top.member = some Widget.controlItems ∧
          top.object = some ⟨1⟩)) &&
        (m.world.heap.collected ⟨0⟩).any List.isEmpty &&
        decide ((Widget.catalogue.services Heap.host {}).liveCollection m.world.heap ⟨1⟩
          Widget.controlItems = some ⟨0⟩)) = true := by decide +kernel
    obtain ⟨m, hsteps, hok⟩ := of_success? hok
    simp only [Bool.and_eq_true, Option.isNone_iff_eq_none, Option.any_eq_true,
      decide_eq_true_eq] at hok
    obtain ⟨⟨⟨hr, top, hhead, ht, hobject⟩, vs, hempty, hvs⟩, hlive⟩ := hok
    obtain ⟨rest, hs⟩ := List.head?_eq_some_iff.1 hhead
    obtain ⟨site, hsite, hid⟩ := Option.map_eq_some_iff.1 hobject
    obtain rfl := List.isEmpty_iff.1 hvs
    obtain ⟨hget, hcollects⟩ := liveCollection_eq_some.1 hlive
    obtain ⟨hfills, -, -⟩ := (Widget.catalogue.services Heap.host {}).endMember_fills hr hs ht
      hsite rfl rfl rfl
    obtain ⟨m', hend, hitems⟩ := hfills ⟨0⟩ _ (Widget.takesItems_collected {} ⟨0⟩) hempty
      (hid ▸ hget) hcollects
    exact ⟨m, top, rest, m', hsteps, hs, hend, hitems⟩
  · have hok : (success? ((Widget.catalogue.services Heap.host {}).steps
          (Widget.listAndText "Grid" Widget.gridChildren)
          (Machine.blank { heap := {} } none none))).any (fun m => m.recording.isNone &&
        m.stack.head?.any (fun top => decide (top.member = some Widget.gridChildren ∧
          top.object = some ⟨0⟩)) &&
        (m.world.heap.children ⟨0⟩).any List.isEmpty &&
        (Heap.host.getMember m.world.heap ⟨0⟩ Widget.gridChildren).isNone) = true := by
      decide +kernel
    obtain ⟨m, hsteps, hok⟩ := of_success? hok
    simp only [Bool.and_eq_true, Option.isNone_iff_eq_none, Option.any_eq_true,
      decide_eq_true_eq] at hok
    obtain ⟨⟨⟨hr, top, hhead, ht, hobject⟩, vs, hempty, hvs⟩, hget⟩ := hok
    obtain ⟨rest, hs⟩ := List.head?_eq_some_iff.1 hhead
    obtain ⟨site, hsite, hid⟩ := Option.map_eq_some_iff.1 hobject
    obtain rfl := List.isEmpty_iff.1 hvs
    obtain ⟨-, hfills, -⟩ := (Widget.catalogue.services Heap.host {}).endMember_fills hr hs ht
      hsite rfl rfl rfl
    obtain ⟨m', hend, hitems⟩ := hfills _ (hid ▸ Widget.takesList_children {} ⟨0⟩) hempty
      (hid ▸ hget)
    exact ⟨m, top, rest, m', hsteps, hs, hend, hitems⟩

/-- The same values make four items of a control, and two children of a grid. -/
theorem endMember_fills_apart :
    (success? ((Widget.catalogue.services Heap.host {}).steps
        (Widget.listAndText "ItemsControl" Widget.controlItems ++ [.endMember])
        (Machine.blank { heap := {} } none none))).bind (fun m =>
      (m.world.heap.collected ⟨0⟩).map List.length) = some 4 ∧
    (success? ((Widget.catalogue.services Heap.host {}).steps
        (Widget.listAndText "Grid" Widget.gridChildren ++ [.endMember])
        (Machine.blank { heap := {} } none none))).bind (fun m =>
      (m.world.heap.children ⟨0⟩).map List.length) = some 2 := by decide +kernel

end Services
end ObjectMarkup
