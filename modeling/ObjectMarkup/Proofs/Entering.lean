/-
Children of a member, put into it or into the object that it holds.

A collection can be filled through the member that holds it, and it can be entered by a get-object
and filled through its own directive.  The children then stand in two different places: another
object and another member are open around them, and everything else is as it was.  What can tell
the places from each other is a literal, which is read for the member that it stands in, and an
extension, which is shown the object and the member.  Where each child has the same value in both
places when its turn comes (`Services.SameChildren`), the children lead to the same values and to
the same world (`children_alongside`), so that either way commits the same to the collection
(`entered_alike`).  It is enough for that if literals are read alike and extensions do not look at
their place (`sameChildren_of_placeBlind`).
-/
import ObjectMarkup.Proofs.Endings
import ObjectMarkup.Proofs.Grounds
import ObjectMarkup.Proofs.Replay

namespace ObjectMarkup

variable {σ : Type}

namespace Ground

/-- The ground of what stands in a member of a frame on this ground. -/
def raise (g : Ground) (f : Frame) : Ground := { g with below := f :: g.below }

variable {g g' : Ground} {f f' : Frame} {w : World σ}

theorem machine_raise (x : Frame) : (g.raise f).machine [x] w = g.machine [x, f] w := rfl

/-- Values in the open member do not show from above. -/
theorem Like.receive (h : (g.raise f).Like (g'.raise f')) (vs : List Value) :
    (g.raise (f.receive vs)).Like (g'.raise (f'.receive vs)) := by
  have hroot : ∀ (k : Ground) (x : Frame), (k.raise (x.receive vs)).root = (k.raise x).root :=
    fun k x => by
      obtain ⟨below, closed, supplied, base, result⟩ := k
      cases below <;> rfl
  refine ⟨h.around, ?_⟩
  rw [hroot, hroot]
  exact h.root

/-- An object that was there before is seen like the object that holds it. -/
theorem Like.held (h : f'.scope = f.scope) {x : Frame} (hx : x.object = f.object) :
    (g.raise f).Like ((g.raise x).raise f') := by
  refine ⟨h, ?_⟩
  obtain ⟨below, closed, supplied, base, result⟩ := g
  cases below with
  | nil => exact congrArg some hx
  | cons _ _ => rfl

end Ground

namespace Services

variable (services : Services σ)

/-- The object that ends here has the same value in a member of another object. -/
def StandsAlike (target' : ObjectId) (member' : Member) (m : Machine σ) : Prop :=
  ∀ f parent rest site w w', m.stack = f :: parent :: rest →
    services.objectOf m f m.world = .ok site w →
    services.complete f.type f.name site (some parent.scope) w = .ok () w' →
    services.valueOf f.type site parent.object m.root parent.member w' =
      services.valueOf f.type site (some target') m.root (some member') w'

/-- What gives the open member its values: literals and objects, each of which has the same value in
a member of another object when its turn comes. -/
inductive SameChildren (target' : ObjectId) (member' : Member) :
    Machine σ → List Instruction → Prop
  | nil {m : Machine σ} : SameChildren target' member' m []
  | value {m : Machine σ} {s : String} {cs : List Instruction} :
      (∀ top rest member, m.stack = top :: rest → top.member = some member →
        services.readLiteral m.root member s m.world =
          services.readLiteral m.root member' s m.world) →
      (∀ m₁, services.step (.value s) m = .ok () m₁ → SameChildren target' member' m₁ cs) →
      SameChildren target' member' m (.value s :: cs)
  | object {m : Machine σ} {n : Nat} {start : ObjectStart} {ms cs : List Instruction} :
      AreMembers services.isRecorded n ms →
      (∀ m₁, services.steps (.startObject start :: ms) m = .ok () m₁ →
        services.StandsAlike target' member' m₁) →
      (∀ m₁, services.steps (.startObject start :: (ms ++ [.endObject])) m = .ok () m₁ →
        SameChildren target' member' m₁ cs) →
      SameChildren target' member' m (.startObject start :: (ms ++ .endObject :: cs))

variable {services} {target target' : ObjectId} {member member' : Member}

/-- The same children lead to the same values and to the same world in both members. -/
theorem children_alongside {g g' : Ground} {m₀ : Machine σ} {children : List Instruction}
    (hchildren : services.SameChildren target' member' m₀ children) :
    ∀ {f f' : Frame} {w : World σ} {m m' : Machine σ}, m₀ = g.machine [f] w →
      (g.machine [f] w).Sound services.settings.maxDepth →
      (g'.machine [f'] w).Sound services.settings.maxDepth →
      (g.raise f).Like (g'.raise f') → f'.member = some member' → f'.object = some target' →
      services.steps children (g.machine [f] w) = .ok () m →
      services.steps children (g'.machine [f'] w) = .ok () m' →
      ∃ vs w', m = g.machine [f.receive vs] w' ∧ m' = g'.machine [f'.receive vs] w' := by
  induction hchildren with
  | nil =>
    intro f f' w m m' _ _ _ _ _ _ h h'
    cases h
    cases h'
    exact ⟨[], w, by simp [Frame.receive], by simp [Frame.receive]⟩
  | @value _ s cs hread _ ih =>
    intro f f' w m m' heq hm hm' hlike ht' ho' h h'
    subst heq
    obtain ⟨m₁, hvalue, h⟩ := steps_cons_eq_ok h
    obtain ⟨m₁', hvalue', h'⟩ := steps_cons_eq_ok h'
    have hm₁ := (step_does hm hvalue).sound hm
    have hm₁' := (step_does hm' hvalue').sound hm'
    have hnext := @ih m₁ hvalue
    obtain ⟨opened, v, hopened, hv, rfl⟩ := value_of_ok hm hvalue
    obtain ⟨opened', v', hopened', hv', rfl⟩ := value_of_ok hm' hvalue'
    obtain rfl : member' = opened' := Option.some.inj (ht'.symm.trans hopened')
    have hroot : ((g'.raise f').machine [] w).root = ((g.raise f).machine [] w).root :=
      hlike.machine_root
    change (g'.machine [f'] w).root = (g.machine [f] w).root at hroot
    have hsame := hread f g.below opened rfl hopened
    change _ = services.readLiteral _ _ s w at hsame
    rw [hroot, ← hsame] at hv'
    cases hv.symm.trans hv'
    obtain ⟨vs, w', rfl, rfl⟩ :=
      @hnext _ _ _ _ _ rfl hm₁ hm₁' (hlike.receive [v]) ht' ho' h h'
    exact ⟨v :: vs, w', by simp [Frame.receive], by simp [Frame.receive]⟩
  | @object _ n start ms cs hms hstands _ ih =>
    intro f f' w m m' heq hm hm' hlike ht' ho' h h'
    subst heq
    obtain ⟨m₁, hstart, h⟩ := steps_cons_eq_ok h
    obtain ⟨m₂, hmembers, h⟩ := steps_append_eq_ok h
    obtain ⟨m₃, hend, h⟩ := steps_cons_eq_ok h
    obtain ⟨m₁', hstart', h'⟩ := steps_cons_eq_ok h'
    obtain ⟨m₂', hmembers', h'⟩ := steps_append_eq_ok h'
    obtain ⟨m₃', hend', h'⟩ := steps_cons_eq_ok h'
    have hbefore : services.steps (.startObject start :: ms) (g.machine [f] w) = .ok () m₂ := by
      rw [steps_cons, hstart]
      exact hmembers
    have hsame := hstands m₂ hbefore
    have hnext := @ih m₃ ((services.steps_concat_of_ok hbefore .endObject).trans hend)
    have hm₁ := (step_does hm hstart).sound hm
    have hm₁' := (step_does hm' hstart').sound hm'
    have hm₂ := steps_sound hm₁ hmembers
    have hm₂' := steps_sound hm₁' hmembers'
    have hm₃ := (step_does hm₂ hend).sound hm₂
    have hm₃' := (step_does hm₂' hend').sound hm₂'
    obtain rfl := startObject_of_ok hm rfl hstart
    obtain rfl := startObject_of_ok hm' rfl hstart'
    rw [← Ground.machine_raise] at hm₁ hm₁' hmembers hmembers'
    obtain ⟨last, w₂, rfl, rfl, -⟩ := members_beside hlike hms hm₁ hm₁' rfl hmembers hmembers'
    obtain ⟨site, v, w₃, w₄, w₅, hobject, hcomplete, hprovided, rfl⟩ :=
      endInner_of_ok hm₂ rfl rfl hend
    obtain ⟨site', v', w₃', w₄', w₅', hobject', hcomplete', hprovided', rfl⟩ :=
      endInner_of_ok hm₂' rfl rfl hend'
    have hscope : f'.scope = f.scope := hlike.around
    have hvalue := hsame _ f g.below site w₃ w₄ rfl hobject hcomplete
    rw [objectOf_like hlike, hobject] at hobject'
    cases hobject'
    rw [hscope, hcomplete] at hcomplete'
    cases hcomplete'
    rw [hlike.machine_root, ho', ht', ← hvalue, hprovided] at hprovided'
    cases hprovided'
    obtain ⟨vs, w', rfl, rfl⟩ :=
      @hnext _ _ _ _ _ rfl hm₃ hm₃' (hlike.receive [v]) ht' ho' h h'
    exact ⟨v :: vs, w', by simp [Frame.receive], by simp [Frame.receive]⟩

section

variable {c : ObjectId} {directive : Member}

/-- The object of a member is entered, and a directive of it receives the children: it commits what
they are in the member itself, from the world that they lead to there. -/
theorem entered_alike {g : Ground} {f : Frame} {w : World σ} {site : Site} {a b : Machine σ}
    {children : List Instruction}
    (hchildren : services.SameChildren c directive (g.machine [f] w) children)
    (hrec : services.isRecorded directive = false)
    (hm : (g.machine [f] w).Sound services.settings.maxDepth)
    (ht : f.member = some member) (hsite : f.site = some site)
    (hget : services.host.getMember w.heap site.object member = some (.object c))
    (h : services.steps children (g.machine [f] w) = .ok () a)
    (h' : services.steps
      (.getObject :: .startMember directive :: (children ++ [.endMember, .endObject]))
      (g.machine [f] w) = .ok () b) :
    ∃ vs w' e w'', a = g.machine [f.receive vs] w' ∧ e.site.object = c ∧ e.member = directive ∧
      e.values = vs ∧ e.world = w' ∧ services.commitEnding e w' = .ok () w'' ∧
      b = g.machine [f.retrieve (.object c)] w'' := by
  obtain ⟨m₁, hentered, h'⟩ := steps_cons_eq_ok h'
  obtain ⟨m₂, hstart, h'⟩ := steps_cons_eq_ok h'
  obtain ⟨m₃, hinside, h'⟩ := steps_append_eq_ok h'
  obtain ⟨m₄, hend, h'⟩ := steps_cons_eq_ok h'
  obtain ⟨m₅, hleave, hnil⟩ := steps_cons_eq_ok h'
  cases hnil
  have hm₁ := (step_does hm hentered).sound hm
  have hm₂ := (step_does hm₁ hstart).sound hm₁
  have hm₃ := steps_sound hm₂ hinside
  have hm₄ := (step_does hm₃ hend).sound hm₃
  obtain ⟨member', site', target, ht', hsite', htarget, rfl⟩ := getObject_of_ok hm hentered
  obtain rfl : member = member' := Option.some.inj (ht.symm.trans ht')
  obtain rfl : site = site' := Option.some.inj (hsite.symm.trans hsite')
  obtain rfl : c = target := by simpa [hget] using htarget
  obtain ⟨-, inner, w₂, hobject, hopened, -⟩ := startMember_of_ok hm₁ hstart
  cases hobject
  obtain rfl := hopened hrec
  -- the placeholder stands on the ground of the member
  rw [← Ground.machine_raise] at hm₂ hinside
  have hscope : ((services.placeholder w.heap site c).openMember directive).scope = f.scope := by
    rw [Frame.scope, Frame.scope, hsite]
    rfl
  obtain ⟨vs, w', rfl, rfl⟩ :=
    children_alongside hchildren rfl hm hm₂ (.held hscope rfl) rfl rfl h hinside
  obtain ⟨member', site', w'', hm', hs', hcommit, rfl⟩ := endMember_of_ok hm₃ hend
  cases hm'
  cases hs'
  obtain rfl := leave_of_ok hm₄ rfl rfl hleave
  exact ⟨vs, w', ⟨_, directive, vs, none, w'⟩, w'', rfl, rfl, rfl, rfl, rfl, hcommit, rfl⟩

end

/-! ## A collection that is filled and one that is entered -/

/-- Two ways to fill a collection.  The member that holds it starts, which leads from `m` to `m₀`.
Children are put into the member, which leads to `a`, and at its end to `a'`.  Or the collection is
entered, the children are put into a directive of it, and all of it ends, which leads to `b`. -/
structure TwoWays (services : Services σ) (c : ObjectId) (member directive : Member)
    (children : List Instruction) (m m₀ a a' b : Machine σ) : Prop where
  started : services.step (.startMember member) m = .ok () m₀
  held : ∃ e, m₀.endingAt .endMember = some e ∧ services.targets c e = true
  filled : services.steps children m₀ = .ok () a
  kept : ∃ e, a.endingAt .endMember = some e ∧ services.targets c e = true
  ended : services.step .endMember a = .ok () a'
  entered : services.steps (.getObject :: .startMember directive ::
    (children ++ [.endMember, .endObject, .endMember])) m₀ = .ok () b

/-- The items of a collection are the same whether children that are the same in both places were
put into the member that holds it or into its own directive. -/
theorem Gathers.twoWays {c : ObjectId} {items : σ → List Value} {m m₀ a a' b : Machine σ}
    {directive : Member} {children : List Instruction} (h : services.Gathers c items)
    (hm : m.Sound services.settings.maxDepth) (hr : m.recording = none)
    (hrec : services.isRecorded member = false) (hrec' : services.isRecorded directive = false)
    (hitems : member.isItems = false) (hdirective : directive.isItems = true)
    (hsame : services.SameChildren c directive m₀ children)
    (hways : services.TwoWays c member directive children m m₀ a a' b) :
    items b.world.heap = items a'.world.heap := by
  obtain ⟨hstart, ⟨e₀, he₀, htargets₀⟩, hfill, ⟨e, he, htargets⟩, hend, henter⟩ := hways
  have hm₀ := (step_does hm hstart).sound hm
  have hma := steps_sound hm₀ hfill
  obtain ⟨g, f, site, w, -, rfl⟩ := opened_of_ok hm hr hrec hstart
  cases he₀
  obtain ⟨hmany, hlive⟩ : services.schema.takesMany member = true ∧
      services.liveCollection w.heap site.object member = some c := by
    simpa [targets, hitems] using htargets₀
  have hstream : (.getObject :: .startMember directive ::
      (children ++ [.endMember, .endObject, .endMember]) : List Instruction) =
      (.getObject :: .startMember directive :: (children ++ [.endMember, .endObject])) ++
        [.endMember] := by simp
  rw [hstream] at henter
  obtain ⟨m₁, hinside, hlast⟩ := services.steps_concat_eq_ok henter
  obtain ⟨vs, w', inner, w₁, rfl, hobject, hmember, hvalues, hworld, hcommit, rfl⟩ :=
    entered_alike hsame hrec' hm₀ rfl rfl (liveCollection_eq_some.1 hlive).1 hfill hinside
  have hm₁ := steps_sound hm₀ hinside
  -- the values come to the collection from the member, and else from its directive
  have hfilled : items a'.world.heap = items w'.heap ++ vs.flatMap Value.items := by
    have hstep := h.step hma (registered_of_idle rfl) (step_does hma hend)
    rw [he, Option.toList_some, List.flatMap_singleton, gathered, if_pos htargets] at hstep
    cases he
    exact hstep
  have hinner : items w₁.heap = items w'.heap ++ vs.flatMap Value.items := by
    have htarget : services.targets c inner = true := by
      simp [targets, hmember, hdirective, hobject]
    rw [← hworld] at hcommit
    have hgathered := h.commitEnding hcommit
    rwa [gathered, if_pos htarget, hvalues, hworld] at hgathered
  have houter : items b.world.heap = items w₁.heap := by
    have hstep := h.step hm₁ (registered_of_idle rfl) (step_does hm₁ hlast)
    have hending :
        (g.machine [((f.setSite site).openMember member).retrieve (.object c)] w₁).endingAt
          .endMember = some ⟨site, member, [], some (.object c), w₁⟩ := rfl
    rw [hending, Option.toList_some, List.flatMap_singleton, gathered_of_nothing rfl,
      List.append_nil] at hstep
    exact hstep
  exact houter.trans (hinner.trans hfilled.symm)

end Services

/-! ## Children that do not look at their place -/

/-- What gives a member its values: objects, and literals of one kind. -/
inductive AreChildren (recorded : Member → Bool) (readable : String → Prop) :
    List Instruction → Prop
  | nil : AreChildren recorded readable []
  | value {s : String} {cs : List Instruction} :
      readable s → AreChildren recorded readable cs → AreChildren recorded readable (.value s :: cs)
  | object {n : Nat} {start : ObjectStart} {ms cs : List Instruction} :
      AreMembers recorded n ms → AreChildren recorded readable cs →
      AreChildren recorded readable (.startObject start :: (ms ++ .endObject :: cs))

/-- What an extension sees in a member of an object. -/
def Provision.within (p : Provision) (target : ObjectId) (member : Member) : Provision :=
  { p with target := some target, member := some member }

namespace Services

variable (services : Services σ)

/-- The literal has the same value in both members. -/
def ReadsAlike (member member' : Member) (s : String) : Prop :=
  ∀ root, services.readLiteral root member s = services.readLiteral root member' s

/-- An extension provides the same value in both members, as long as the heap is a fine one. -/
def PlaceBlind (fine : σ → Prop) (target target' : ObjectId) (member member' : Member) : Prop :=
  ∀ id (p : Provision) heap, fine heap →
    services.host.provide id (p.within target member) heap =
      services.host.provide id (p.within target' member') heap

variable {services} {fine : σ → Prop} {target target' : ObjectId} {member member' : Member}

theorem PlaceBlind.valueOf (h : services.PlaceBlind fine target target' member member')
    (type : TypeName) (site : Site) (root : Option ObjectId) {w : World σ} (hw : fine w.heap) :
    services.valueOf type site (some target) root (some member) w =
      services.valueOf type site (some target') root (some member') w := by
  have hprovide : services.host.provide site.object
        { context := w.context, target := some target, member := some member,
          scope := some site.scope, root } w.heap =
      services.host.provide site.object
        { context := w.context, target := some target', member := some member',
          scope := some site.scope, root } w.heap :=
    h site.object { context := w.context, scope := some site.scope, root } w.heap hw
  rw [Services.valueOf, Services.valueOf]
  split
  · rw [Action.bind_apply, Action.bind_apply, Action.get_apply]
    dsimp only
    split
    · rw [Build.onHeap, Build.onHeap, hprovide]
    · rfl
  · rfl

/-- Children are the same in both places if their literals are read alike and no extension looks at
its place, as long as calls leave the heap a fine one. -/
theorem sameChildren_of_placeBlind (hS : services.CallsLeave (Keeps fine))
    (hblind : services.PlaceBlind fine target target' member member') {g : Ground}
    {children : List Instruction}
    (hchildren : AreChildren services.isRecorded (services.ReadsAlike member member') children) :
    ∀ {f : Frame} {w : World σ}, (g.machine [f] w).Sound services.settings.maxDepth →
      fine w.heap → f.member = some member → f.object = some target →
      services.SameChildren target' member' (g.machine [f] w) children := by
  induction hchildren with
  | nil => exact fun _ _ _ _ => .nil
  | @value s cs hread _ ih =>
    intro f w hm hfine ht ho
    refine .value (fun top rest opened hs hopened => ?_) fun m₁ hvalue => ?_
    · cases hs
      obtain rfl : member = opened := Option.some.inj (ht.symm.trans hopened)
      exact congrFun (hread _) _
    · have hm₁ := (step_does hm hvalue).sound hm
      obtain ⟨-, v, -, -, rfl⟩ := value_of_ok hm hvalue
      exact ih hm₁ hfine ht ho
  | @object n start ms cs hms _ ih =>
    intro f w hm hfine ht ho
    -- before its end the object is the one above the frame, in a fine heap
    have hbefore : ∀ {m₂ : Machine σ},
        services.steps (.startObject start :: ms) (g.machine [f] w) = .ok () m₂ →
        m₂.Sound services.settings.maxDepth ∧
          ∃ last w₂, m₂ = (g.raise f).machine [last] w₂ ∧ last.isPlaceholder = false ∧
            fine w₂.heap := by
      intro m₂ hsteps
      have hm₂ := steps_sound hm hsteps
      obtain ⟨m₁, hstart, hmembers⟩ := steps_cons_eq_ok hsteps
      have hm₁ := (step_does hm hstart).sound hm
      obtain rfl := startObject_of_ok hm rfl hstart
      rw [← Ground.machine_raise] at hm₁ hmembers
      have hkeeps := steps_heaps hS hm₁ (registered_of_idle rfl) hmembers
      obtain ⟨last, w₂, rfl, -, -⟩ :=
        members_beside (.refl _) hms hm₁ hm₁ rfl hmembers hmembers
      exact ⟨hm₂, _, w₂, rfl, rfl, hkeeps hfine⟩
    refine .object hms (fun m₂ hsteps => ?_) fun m₃ hsteps => ?_
    · obtain ⟨-, last, w₂, rfl, -, hfine₂⟩ := hbefore hsteps
      intro x parent rest site w₃ w₄ hs hobject hcomplete
      cases hs
      have hfine₃ := (objectOf_heaps hS _ _).of_ok hobject hfine₂
      have hfine₄ := (complete_heaps hS _ _ _ _).of_ok hcomplete hfine₃
      rw [ho, ht]
      exact hblind.valueOf _ _ _ hfine₄
    · have hwhole : services.steps ((.startObject start :: ms) ++ [.endObject])
          (g.machine [f] w) = .ok () m₃ := hsteps
      obtain ⟨m₂, hinside, hend⟩ := services.steps_concat_eq_ok hwhole
      obtain ⟨hm₂, last, w₂, rfl, hp, hfine₂⟩ := hbefore hinside
      have hm₃ := (step_does hm₂ hend).sound hm₂
      obtain ⟨site, v, w₃, w₄, w₅, hobject, hcomplete, hprovided, rfl⟩ :=
        endInner_of_ok hm₂ hp rfl hend
      have hfine₃ := (objectOf_heaps hS _ _).of_ok hobject hfine₂
      have hfine₄ := (complete_heaps hS _ _ _ _).of_ok hcomplete hfine₃
      have hfine₅ := (valueOf_heaps hS _ _ _ _ _).of_ok hprovided hfine₄
      exact ih hm₃ hfine₅ ht ho

/-- The children of a member that starts, seen from a member of another object. -/
theorem sameChildren_of_opened (hS : services.CallsLeave (Keeps fine))
    (hblind : ∀ target, services.PlaceBlind fine target target' member member')
    {children : List Instruction}
    (hchildren : AreChildren services.isRecorded (services.ReadsAlike member member') children)
    {m m₀ : Machine σ} (hm : m.Sound services.settings.maxDepth) (hr : m.recording = none)
    (hrec : services.isRecorded member = false)
    (h : services.step (.startMember member) m = .ok () m₀) (hfine : fine m₀.world.heap) :
    services.SameChildren target' member' m₀ children := by
  have hm₀ := (step_does hm h).sound hm
  obtain ⟨g, f, site, w, -, rfl⟩ := opened_of_ok hm hr hrec h
  exact sameChildren_of_placeBlind hS (hblind site.object) hchildren hm₀ hfine rfl rfl

end Services
end ObjectMarkup
