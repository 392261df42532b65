/-
What a collection has gathered after a run.

Items reach a collection through a member that holds it, through its own directive, and through the
directive of a placeholder for it, from whatever objects, and in any order.  `gathers_in_order`
says that nothing of it is lost, added twice or turned around: the collection has the items from
before, and then the values that were received for it, in the order in which the members ended.
A member that only gave the collection out adds nothing, and it makes no difference for the items
whether children are put into the member or into the collection that it holds, as long as they are
the same in both places.  `gathers_apart` has children that are not.
-/
import ObjectMarkup.Proofs.Entering
import ObjectMarkup.Proofs.Filling
import ObjectMarkup.Proofs.Visits

namespace ObjectMarkup

open ObjectMarkup.Action (Leaves endState success? of_success?)
open Machine (blank)

variable {σ : Type}

namespace Services

variable {services : Services σ}

/-- Of any stream that is carried out: a collection to which items come at the end, and in no other
way, has its items from before and then the values that the members received which target it, those
of a list in the place of the list, in the order in which the members ended.  A member that was
opened for visits to its object adds nothing.  Children that are the same in a member that holds the
collection and in a directive of the collection leave the same items through either. -/
theorem gathers_in_order {c : ObjectId} {items : σ → List Value} (h : services.Gathers c items)
    (w : World σ) (root : Option ObjectId) (base : Option ScopeId) :
    (∀ stream m', services.steps stream (blank w root base) = .ok () m' →
      items m'.world.heap = items w.heap ++
        (services.endings stream (blank w root base)).flatMap (services.gathered c)) ∧
    ∀ before m member, services.steps before (blank w root base) = .ok () m →
      m.recording = none → services.isRecorded member = false →
      (∀ visits m₁, Visits services.isRecorded visits →
        services.steps (.startMember member :: visits) m = .ok () m₁ →
        ∃ e, m₁.endingAt .endMember = some e ∧ services.gathered c e = []) ∧
      ∀ directive children m₀ a a' b, member.isItems = false → directive.isItems = true →
        services.isRecorded directive = false →
        services.SameChildren c directive m₀ children →
        services.TwoWays c member directive children m m₀ a a' b →
        items b.world.heap = items a'.world.heap := by
  have hblank : (blank w root base).Sound services.settings.maxDepth := .blank w root base
  refine ⟨fun stream m' hsteps => h.steps hblank (registered_of_idle rfl) hsteps, ?_⟩
  intro before m member hbefore hr hrec
  have hm := steps_sound hblank hbefore
  refine ⟨fun visits m₁ hvisits hsteps => ?_, ?_⟩
  · obtain ⟨top, rest, site, target, hr₁, hs, ht, hsite, hpending, -⟩ :=
      visited_of_ok hm hr hrec hvisits hsteps
    refine ⟨⟨site, member, top.pending, top.retrieved, m₁.world⟩, ?_, gathered_of_nothing hpending⟩
    rw [Machine.endingAt, hr₁]
    exact Machine.ending_of_open hs ht hsite
  · intro directive children m₀ a a' b hitems hdirective hrec' hsame hways
    exact h.twoWays hm hr hrec hrec' hitems hdirective hsame hways

end Services

/-! ## The items of a widget -/

namespace Heap

/-- The items of a widget, if it takes items, and else none. -/
def itemsOf (c : ObjectId) (h : Heap) : List Value := ((h.find? c).bind Widget.items?).getD []

end Heap

namespace Widget

open Services (SameItems)

variable {w w' : Widget}

theorem withMember_items {m : Member} {v : Value} (h : w.withMember m v = .ok w') :
    w'.items? = w.items? := by
  cases w with
  | itemCollection _ | immutable _ | collectionExtension | parametrizedExtension _ | template _ =>
    cases h
  | _ =>
    simp only [withMember] at h
    split at h <;> first
      | (obtain ⟨_, -, rfl⟩ := Answer.map_eq_ok.1 h; rfl)
      | (cases h; rfl)
      | cases h

theorem setMember_items (m : Member) (v : Value) :
    (endState (setMember m v w)).items? = w.items? := by
  rw [setMember]
  cases h : w.withMember m v with
  | ok w' => exact withMember_items h
  | error e =>
    cases w with
    | setter w =>
      simp only [endState, afterFailure]
      split <;> rfl
    | _ => rfl

theorem setAttached_items (m : Member) (v : Value) :
    (endState (setAttached m v w)).items? = w.items? := by
  cases w <;> rfl

/-- An item comes to the end of the others. -/
theorem append_items {vs : List Value} {v : Value} (hitems : w.items? = some vs)
    (h : append v w = .ok () w') : w'.items? = some (vs ++ [v]) := by
  cases w with
  | itemCollection t | collection t =>
    cases hitems
    cases h
    rfl
  | scripted t =>
    have hcollects : t.script.collects = true ∧ t.items = vs := by
      simpa [items?] using hitems
    obtain ⟨hcollects, rfl⟩ := hcollects
    simp only [append] at h
    split at h
    · split at h
      · cases h
      · cases h
        simp [items?, hcollects]
    · cases h
      simp [items?, hcollects]
  | _ => cases hitems

section

variable {c : ObjectId}

theorem put_sameItems {h : Heap} {id : ObjectId} (hfind : h.find? id = some w)
    (hw : id = c → w'.items? = w.items?) : SameItems (Heap.itemsOf c) h (h.put id w') := by
  rw [SameItems, Heap.itemsOf, Heap.itemsOf, Heap.find?_put (Heap.lt_of_find? hfind)]
  split
  · next heq =>
    rw [heq, hfind, Option.bind_some, Option.bind_some, hw heq.symm]
  · rfl

theorem add_sameItems (h : Heap) (hw : w.items?.getD [] = []) :
    SameItems (Heap.itemsOf c) h (h.add w).2 := by
  rw [SameItems, Heap.itemsOf, Heap.itemsOf, Heap.find?_add]
  split
  · next heq =>
    have hnone : h.find? c = none := by
      simp [heq, Heap.find?, Heap.add]
    rw [hnone, Option.bind_some, hw]
    rfl
  · rfl

theorem act_sameItems {ε : Type} (id : ObjectId) {f : EStateM ε Widget Unit}
    (hf : id = c → ∀ w, (endState (f w)).items? = w.items?) :
    Leaves (SameItems (Heap.itemsOf c)) (Heap.act id f) := by
  intro h
  rw [Heap.act]
  cases hfind : h.find? id with
  | none => exact Std.Refl.refl h
  | some w =>
    cases hact : f w with
    | ok _ w' | error e w' =>
      simp only [hact]
      refine put_sameItems hfind fun hid => ?_
      have hw := hf hid w
      rw [hact] at hw
      exact hw

theorem change_sameItems (id : ObjectId) {f : Widget → Widget}
    (hf : ∀ w : Widget, (f w).items? = w.items?) (h : Heap) :
    SameItems (Heap.itemsOf c) h (Heap.change id f h) := by
  rw [Heap.change]
  cases hfind : h.find? id with
  | none => exact Std.Refl.refl h
  | some w => exact put_sameItems hfind fun _ => hf w

end

/-- Of a widget of the catalogue nothing but what is appended changes the items. -/
theorem templated_gathers (settings : Settings) (c : ObjectId) :
    (templated settings).Gathers c (Heap.itemsOf c) where
  append h h' v hcollects happend := by
    have hask : (h.ask c false fun w => w.items?.isSome) = true := hcollects
    have hact : Heap.act c (append v) h = .ok () h' := happend
    show Heap.itemsOf c h' = Heap.itemsOf c h ++ [v] ∧
      (h'.ask c false fun w => w.items?.isSome) = true
    rw [Heap.ask] at hask
    split at hask
    · next w hfind =>
      obtain ⟨vs, hvs⟩ := Option.isSome_iff_exists.1 hask
      rw [Heap.act, hfind] at hact
      dsimp only at hact
      split at hact
      · next w' hw' =>
        cases hact
        have hfind' := Heap.find?_put_self (w := w') (Heap.lt_of_find? hfind)
        have hitems := append_items hvs hw'
        simp [Heap.itemsOf, Heap.ask, hfind, hfind', hvs, hitems]
      · cases hact
    · cases hask
  others := {
    activate := activate_forall .throw (fun w hw h => add_sameItems h hw.items)
      (.bind (fun h => add_sameItems h rfl) fun items h => add_sameItems h rfl)
    loader := fun m loader hloader stream h => by
      have hfind : (templated settings).loaders.find? m = some loader := hloader
      obtain rfl := templated_loader hfind
      rw [templateLoader]
      split
      · exact add_sameItems h rfl
      · exact Std.Refl.refl h
    setMember := fun id m v => act_sameItems id fun _ w => setMember_items m v
    setAttached := fun id m v => act_sameItems id fun _ w => setAttached_items m v
    append := fun id v => by
      by_cases hid : id = c
      · simp only [Services.exceptAppends, Services.withAppend, if_pos hid]
        exact .pure ()
      · simp only [Services.exceptAppends, Services.withAppend, if_neg hid]
        exact act_sameItems id fun h => absurd h hid
    provide := fun id p h => by
      simp only [Services.exceptAppends, Services.withAppend, templated, Catalogue.services,
        Heap.host]
      split <;> exact Std.Refl.refl h
    beginInit := fun id => change_sameItems id fun w => by cases w <;> rfl
    endInit := fun id => change_sameItems id fun w => by cases w <;> rfl }

/-- An extension that follows no script does not ask for the place that it stands in. -/
theorem templated_placeBlind (settings : Settings) (target target' : ObjectId)
    (member member' : Member) :
    (templated settings).PlaceBlind Heap.Unscripted target target' member member' := by
  intro id p h hh
  simp only [templated, Catalogue.services, Heap.host, Heap.ask]
  cases hfind : h.find? id with
  | none => rfl
  | some w =>
    cases w with
    | scripted t => cases hh id _ hfind
    | _ => rfl

/-! ## The items of a control -/

/-- The directive for the items of a collection. -/
def collectionItems : Member := Member.items "ItemCollection"

/-- Children of a control: an object, a literal and an extension, which provides a list. -/
def textsAndExtension : List Instruction :=
  [.startObject { type := "TextBlock" }, .endObject, .value "one",
    .startObject { type := "CollectionExtension" }, .endObject]

/-- Children are put into a member of a control. -/
def filling (member : Member) (children : List Instruction) : List Instruction :=
  .startObject { type := "ItemsControl" } :: .startMember member :: (children ++ [.endMember])

/-- Children are put into the collection that a member of a control holds. -/
def entering (member : Member) (children : List Instruction) : List Instruction :=
  .startObject { type := "ItemsControl" } :: .startMember member :: .getObject ::
    .startMember collectionItems :: (children ++ [.endMember, .endObject, .endMember])

/-- The texts among the items after a run. -/
def textsOf (c : ObjectId) (r : EStateM.Result Error (Machine Heap) Unit) : Option (List String) :=
  (success? r).map fun m => (m.world.heap.itemsOf c).filterMap fun v =>
    match v with
    | .str s => some s
    | _ => none

/-- The items of a control, as integers. -/
def integerItems : Member := { controlItems with valueType := .integer }

/-- The catalogue with an extension that stands for the place in which it is. -/
def withPlaces : Catalogue Heap :=
  catalogue.add {
    type := "Place"
    traits := { extension := true }
    constructors := [(0, fromScript { runtime := "Place", provides := true })] }

end Widget

namespace Services

/-- The control gathers the same items in either way, and visits to its items add none. -/
theorem gathers_in_order_controlItems :
    ∃ m m₁ a b e, (Widget.templated {}).steps [.startObject { type := "ItemsControl" }]
        (blank { heap := {} } none none) = .ok () m ∧
      (Widget.templated {}).steps [.startMember Widget.controlItems, .getObject, .endObject] m =
        .ok () m₁ ∧
      m₁.endingAt .endMember = some e ∧ (Widget.templated {}).gathered ⟨0⟩ e = [] ∧
      (Widget.templated {}).steps (Widget.filling Widget.controlItems Widget.textsAndExtension)
        (blank { heap := {} } none none) = .ok () a ∧
      a.world.heap.itemsOf ⟨0⟩ = ((Widget.templated {}).endings
        (Widget.filling Widget.controlItems Widget.textsAndExtension)
        (blank { heap := {} } none none)).flatMap ((Widget.templated {}).gathered ⟨0⟩) ∧
      (Widget.templated {}).steps (Widget.entering Widget.controlItems Widget.textsAndExtension)
        (blank { heap := {} } none none) = .ok () b ∧
      b.world.heap.itemsOf ⟨0⟩ = a.world.heap.itemsOf ⟨0⟩ := by
  have hok : (success? ((Widget.templated {}).steps [.startObject { type := "ItemsControl" }]
        (blank { heap := {} } none none))).any (fun m => m.recording.isNone &&
      (success? ((Widget.templated {}).steps
        [.startMember Widget.controlItems, .getObject, .endObject] m)).any (fun _ => true) &&
      (success? ((Widget.templated {}).step (.startMember Widget.controlItems) m)).any (fun m₀ =>
        (m₀.endingAt .endMember).any (fun e₀ => (Widget.templated {}).targets ⟨0⟩ e₀) &&
        (success? ((Widget.templated {}).steps
          (.getObject :: .startMember Widget.collectionItems ::
            (Widget.textsAndExtension ++ [.endMember, .endObject, .endMember])) m₀)).any
              (fun _ => true) &&
        (success? ((Widget.templated {}).steps Widget.textsAndExtension m₀)).any (fun a =>
          (a.endingAt .endMember).any (fun e => (Widget.templated {}).targets ⟨0⟩ e) &&
          (success? ((Widget.templated {}).step .endMember a)).any fun _ => true))) = true := by
    decide +kernel
  obtain ⟨m, hm, hok⟩ := of_success? hok
  rw [Bool.and_eq_true, Bool.and_eq_true, Option.isNone_iff_eq_none] at hok
  obtain ⟨⟨hr, hvisit⟩, hok⟩ := hok
  obtain ⟨m₁, hvisit, -⟩ := of_success? hvisit
  obtain ⟨m₀, hstart, hok⟩ := of_success? hok
  rw [Bool.and_eq_true, Bool.and_eq_true, Option.any_eq_true] at hok
  obtain ⟨⟨⟨e₀, he₀, htargets₀⟩, henter⟩, hok⟩ := hok
  obtain ⟨b, henter, -⟩ := of_success? henter
  obtain ⟨a, hfill, hok⟩ := of_success? hok
  rw [Bool.and_eq_true, Option.any_eq_true] at hok
  obtain ⟨⟨e, he, htargets⟩, hend⟩ := hok
  obtain ⟨a', hend, -⟩ := of_success? hend
  obtain ⟨hall, hrest⟩ := gathers_in_order (Widget.templated_gathers {} ⟨0⟩)
    { heap := {} } none none
  obtain ⟨hvisits, hways⟩ := hrest _ m Widget.controlItems hm hr rfl
  have hopened := ((Widget.templated {}).steps_concat_of_ok hm _).trans hstart
  have hfine : m₀.world.heap.Unscripted :=
    steps_heaps (Widget.templated_unscripted {}) (.blank _ _ _) (registered_of_idle rfl) hopened
      fun id w h => by simp [Heap.find?, blank] at h
  have hchildren : AreChildren (Widget.templated {}).isRecorded ((Widget.templated {}).ReadsAlike
      Widget.controlItems Widget.collectionItems) Widget.textsAndExtension :=
    @AreChildren.object _ _ 0 _ [] _ .nil
      (.value (fun _ => rfl) (@AreChildren.object _ _ 0 _ [] _ .nil .nil))
  have hsame := sameChildren_of_opened (Widget.templated_unscripted {})
    (fun target => Widget.templated_placeBlind {} target ⟨0⟩ _ _) hchildren
    (steps_sound (.blank _ _ _) hm) hr rfl hstart hfine
  have hput := ((Widget.templated {}).steps_append_of_ok hopened _).trans hfill
  have hfilled := ((Widget.templated {}).steps_concat_of_ok hput _).trans hend
  have hentered := ((Widget.templated {}).steps_append_of_ok hopened _).trans henter
  obtain ⟨e', he', hnothing⟩ := hvisits _ m₁ (@Visits.last _ 0 [] .nil) hvisit
  have hgathers := hall _ _ hfilled
  rw [show Heap.itemsOf ⟨0⟩ {} = [] from rfl, List.nil_append] at hgathers
  have hfilling : Widget.filling Widget.controlItems Widget.textsAndExtension =
      [.startObject { type := "ItemsControl" }] ++ [.startMember Widget.controlItems] ++
        Widget.textsAndExtension ++ [.endMember] := rfl
  have hentering : Widget.entering Widget.controlItems Widget.textsAndExtension =
      [.startObject { type := "ItemsControl" }] ++ [.startMember Widget.controlItems] ++
        .getObject :: .startMember Widget.collectionItems ::
          (Widget.textsAndExtension ++ [.endMember, .endObject, .endMember]) := rfl
  rw [hfilling, hentering]
  refine ⟨m, m₁, a', b, e', hm, hvisit, he', hnothing, hfilled, hgathers, hentered, ?_⟩
  exact hways Widget.collectionItems Widget.textsAndExtension m₀ a a' b rfl rfl rfl hsame
    ⟨hstart, ⟨e₀, he₀, htargets₀⟩, hfill, ⟨e, he, htargets⟩, hend, henter⟩

/-- A literal is an integer in a member of integers, and a text in the collection that the member
holds; an extension that stands for its place is different in the two places. -/
theorem gathers_apart :
    (Widget.textsOf ⟨0⟩ ((Widget.templated {}).steps (Widget.filling Widget.integerItems
        [.value "5"]) (blank { heap := {} } none none)) = some [] ∧
      Widget.textsOf ⟨0⟩ ((Widget.templated {}).steps (Widget.entering Widget.integerItems
        [.value "5"]) (blank { heap := {} } none none)) = some ["5"]) ∧
    Widget.textsOf ⟨0⟩ ((Widget.withPlaces.services Heap.host {}).steps (Widget.filling
        Widget.controlItems [.startObject { type := "Place" }, .endObject])
        (blank { heap := {} } none none)) = some ["ItemsControl.Items"] ∧
    Widget.textsOf ⟨0⟩ ((Widget.withPlaces.services Heap.host {}).steps (Widget.entering
        Widget.controlItems [.startObject { type := "Place" }, .endObject])
        (blank { heap := {} } none none)) = some ["ItemCollection._Items"] := by
  decide +kernel

end Services
end ObjectMarkup
