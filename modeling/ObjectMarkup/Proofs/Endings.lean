/-
The ends of the members of a run, and what they leave in a collection.

When a member ends, its values are committed, and nothing else is committed anywhere.  The ends of
the members in a stream are told one by one here, each with what its member received and with the
world it finds (`Services.endings`).  `Does.ends` says that between two ends only the other calls
are made.  From it follows what becomes of a collection to which items come at the end, and in no
other way: after a run it has the items from before, and then what the members received that
target it, in the order of their ends (`Gathers.steps`).
-/
import ObjectMarkup.Proofs.Instances
import ObjectMarkup.Proofs.Routes

namespace ObjectMarkup

open ObjectMarkup.Action (Leaves endState)

variable {σ : Type}

/-- The end of a member: what the member received, and the object and the world that it ends in. -/
structure Ending (σ : Type) where
  site : Site
  member : Member
  values : List Value
  retrieved : Option Value
  world : World σ

/-- The end of the innermost member, if one is open. -/
def Machine.ending (m : Machine σ) : Option (Ending σ) :=
  match m.stack with
  | [] => none
  | top :: _ =>
    match top.member, top.site with
    | some member, some site =>
      some { site, member, values := top.pending, retrieved := top.retrieved, world := m.world }
    | _, _ => none

theorem Machine.ending_of_open {m : Machine σ} {top : Frame} {rest : List Frame} {member : Member}
    {site : Site} (hs : m.stack = top :: rest) (ht : top.member = some member)
    (hsite : top.site = some site) :
    m.ending = some ⟨site, member, top.pending, top.retrieved, m.world⟩ := by
  simp [ending, hs, ht, hsite]

/-- The end of a member that an instruction is.  A deferred member has received the value of its
loader by then. -/
def Machine.endingAt (m : Machine σ) : Instruction → Option (Ending σ)
  | .endMember =>
    match m.recording with
    | none => m.ending
    | some r =>
      if r.depth = 1 then
        match Build.onHeap .deferred (r.loader r.member r.instructions) m.world with
        | .ok v w => ((m.push v).inWorld w).ending
        | .error _ _ => none
      else none
  | _ => none

namespace Services

variable (services : Services σ)

/-- The ends of members in a stream, up to its first failure. -/
def endings : List Instruction → Machine σ → List (Ending σ)
  | [], _ => []
  | i :: is, m =>
    match services.step i m with
    | .ok _ m' => (m.endingAt i).toList ++ endings is m'
    | .error _ _ => []

/-- Commits what a member received. -/
def commitEnding (e : Ending σ) : Build σ Unit :=
  services.commit e.site.object e.site.collects e.member e.values e.retrieved

/-- The services with another way to append items. -/
def withAppend (append : ObjectId → Value → EStateM MemberError σ Unit) : Services σ :=
  { services with host := { services.host with append } }

/-- What is recorded is for the loader of its member. -/
def Registered (m : Machine σ) : Prop :=
  ∀ r, m.recording = some r → services.loaders.find? r.member = some r.loader

variable {services} {m m' : Machine σ} {i : Instruction}

theorem registered_of_idle (hr : m.recording = none) : services.Registered m :=
  fun r h => by simp [hr] at h

/-! ## One instruction -/

theorem Does.registered (h : services.Registered m) (hdoes : services.Does m i m') :
    services.Registered m' := by
  cases hdoes with
  | startObject hr _ _ _ | startSupplied hr _ _ _ _ _ | leave hr _ _ _ | endRoot hr _ _ _ _ _ =>
    exact registered_of_idle hr
  | getObject hr _ _ _ _ _ | value hr _ _ _ | endMember hr _ _ _ _ | endInner hr _ _ _ _ _ _ =>
    exact registered_of_idle ((Machine.mapTop_recording _ _).trans hr)
  | @startMember top rest site w member loader hr _ _ _ hloader =>
    cases loader with
    | none =>
      exact registered_of_idle
        ((Machine.mapTop_recording _ _).trans ((Machine.mapTop_recording _ _).trans hr))
    | some loader =>
      intro r hopened
      obtain rfl : ({ member, loader } : Recording σ) = r := Option.some.inj hopened
      exact services.loaderOf_ok hloader
  | @record r i hr _ =>
    intro r' hmore
    obtain rfl : r.add (depthAfter r.depth i) [i] = r' := Option.some.inj hmore
    exact h r hr
  | handOver _ _ _ _ _ _ => exact registered_of_idle (Machine.mapTop_recording _ _)

section

variable {S : σ → σ → Prop} [Std.Refl S] [Trans S S S]
  {append : ObjectId → Value → EStateM MemberError σ Unit}

/-- An instruction commits what a member received if it is the end of one, and nothing else.  Of the
calls that it makes else none appends an item. -/
theorem Does.ends (hS : (services.withAppend append).CallsLeave S)
    (hm : m.Sound services.settings.maxDepth) (hload : services.Registered m)
    (hdoes : services.Does m i m') :
    (m.endingAt i = none ∧ m.world.HeapsIn S m'.world) ∨
      ∃ e, m.endingAt i = some e ∧ m.world.HeapsIn S e.world ∧
        services.commitEnding e e.world = .ok () m'.world := by
  have same : m.world.HeapsIn S m.world := Std.Refl.refl _
  have made : ∀ top, Leaves (World.HeapsIn S) (services.objectOf m top) := objectOf_heaps hS m
  have completed : ∀ type name site outside,
      Leaves (World.HeapsIn S) (services.complete type name site outside) :=
    (complete_heaps hS :)
  have provided : ∀ type site target root member,
      Leaves (World.HeapsIn S) (services.valueOf type site target root member) :=
    (valueOf_heaps hS :)
  cases hdoes with
  | startObject _ _ _ _ => exact .inl ⟨rfl, same⟩
  | @startSupplied start id site w _ _ _ _ _ hadopt =>
    obtain ⟨hworld, -⟩ := services.adopt_ok hadopt
    refine .inl ⟨rfl, ?_⟩
    rw [Machine.inWorld_world, hworld]
    exact same
  | getObject _ _ _ _ _ _ => exact .inl ⟨rfl, by simpa [Machine.retrieve] using same⟩
  | startMember _ _ _ hobject _ => exact .inl ⟨rfl, by simpa using (made _).of_ok hobject⟩
  | value _ _ _ hread =>
    obtain ⟨-, rfl⟩ := Build.ofExcept_eq_ok hread
    exact .inl ⟨rfl, same⟩
  | endMember hr hs ht hsite hcommit =>
    refine .inr ⟨⟨_, _, _, _, m.world⟩, ?_, same, hcommit⟩
    rw [Machine.endingAt, hr]
    exact Machine.ending_of_open hs ht hsite
  | leave _ _ _ _ => exact .inl ⟨rfl, same⟩
  | endInner _ _ _ _ hobject hcomplete hvalue =>
    exact .inl ⟨rfl, Trans.trans (Trans.trans ((made _).of_ok hobject)
      ((completed _ _ _ _).of_ok hcomplete)) ((provided _ _ _ _ _).of_ok hvalue)⟩
  | endRoot _ _ _ _ hobject hcomplete =>
    exact .inl ⟨rfl, Trans.trans ((made _).of_ok hobject) ((completed _ _ _ _).of_ok hcomplete)⟩
  | @record r i hr hdepth =>
    refine .inl ⟨?_, same⟩
    cases i with
    | endMember =>
      have hone : r.depth ≠ 1 := fun h => hdepth (by rw [h]; rfl)
      simp [Machine.endingAt, hr, hone]
    | _ => rfl
  | @handOver r top rest site v w w' hr hone hs hsite hloaded hcommit =>
    obtain ⟨-, top', rest', hs', ht, hpending, hretrieved⟩ := hm.recording r hr
    rw [hs] at hs'
    cases hs'
    have hheap : m.world.HeapsIn S w := (load_heaps hS (hload r hr) _).of_ok hloaded
    refine .inr ⟨⟨site, r.member, [v], none, w⟩, ?_, hheap, hcommit⟩
    have hpushed : ((m.push v).inWorld w).stack = top.receive [v] :: rest :=
      Machine.mapTop_stack _ _ hs
    simp only [Machine.endingAt, hr, hone, if_true, hloaded]
    rw [Machine.ending_of_open hpushed ht hsite]
    simp [Frame.receive, hpending, hretrieved]

/-- A stream leaves of the heap what its calls leave. -/
theorem steps_heaps (hS : services.CallsLeave S) {stream : List Instruction} :
    ∀ {m m' : Machine σ}, m.Sound services.settings.maxDepth → services.Registered m →
      services.steps stream m = .ok () m' → m.world.HeapsIn S m'.world := by
  induction stream with
  | nil =>
    intro m m' _ _ h
    cases h
    exact Std.Refl.refl _
  | cons i is ih =>
    intro m m' hm hload h
    rw [steps_cons] at h
    cases hstep : services.step i m with
    | error e m₁ => simp [hstep] at h
    | ok _ m₁ =>
      simp only [hstep] at h
      have hdoes := step_does hm hstep
      have hall : (services.withAppend services.host.append).CallsLeave S := hS
      have hw : m.world.HeapsIn S m₁.world := by
        obtain ⟨-, hw⟩ | ⟨e, -, hw, hcommit⟩ := hdoes.ends hall hm hload
        · exact hw
        · exact Trans.trans hw ((commit_heaps hS _ _ _ _ _).of_ok hcommit)
      exact Trans.trans hw (ih (hdoes.sound hm) (hdoes.registered hload) h)

end

/-! ## A collection -/

/-- The heaps agree in some items. -/
def SameItems (items : σ → List Value) (heap heap' : σ) : Prop := items heap' = items heap

instance {items : σ → List Value} : Std.Refl (SameItems items) := ⟨fun _ => rfl⟩

instance {items : σ → List Value} :
    Trans (SameItems items) (SameItems items) (SameItems items) :=
  ⟨fun h h' => Eq.trans h' h⟩

variable (services) in
/-- The services without what appends to a collection. -/
def exceptAppends (c : ObjectId) : Services σ :=
  services.withAppend fun id v => if id = c then pure () else services.host.append id v

variable (services) in
/-- What is appended to the collection comes to the end of its items, and no other call changes
them. -/
structure Gathers (c : ObjectId) (items : σ → List Value) : Prop where
  append : ∀ heap heap' v, services.host.collects heap c = true →
    services.host.append c v heap = .ok () heap' →
    items heap' = items heap ++ [v] ∧ services.host.collects heap' c = true
  others : (services.exceptAppends c).CallsLeave (SameItems items)

variable (services) in
/-- The member ends for the items of a collection: it is the directive for them, on the collection
itself, or a member of many values that has the collection for its value. -/
def targets (c : ObjectId) (e : Ending σ) : Bool :=
  if e.member.isItems then e.site.object == c
  else services.schema.takesMany e.member &&
    services.liveCollection e.world.heap e.site.object e.member == some c

variable (services) in
/-- The items that the end of a member brings to a collection. -/
def gathered (c : ObjectId) (e : Ending σ) : List Value :=
  if services.targets c e then e.values.flatMap Value.items else []

theorem gathered_of_nothing {c : ObjectId} {e : Ending σ} (h : e.values = []) :
    services.gathered c e = [] := by
  rw [gathered, h]
  exact ite_self _

namespace Gathers

variable {c : ObjectId} {items : σ → List Value} (h : services.Gathers c items)

include h

theorem appendEach {vs : List Value} :
    ∀ {heap heap' : σ}, services.host.collects heap c = true →
      services.appendEach c vs heap = .ok () heap' → items heap' = items heap ++ vs := by
  induction vs with
  | nil =>
    intro heap heap' _ happend
    cases happend
    simp
  | cons v vs ih =>
    intro heap heap' hcollects happend
    obtain ⟨_, heap₁, hfirst, hrest⟩ := (Action.bind_eq_ok heap).1 happend
    obtain ⟨hitems, hcollects₁⟩ := h.append heap heap₁ v hcollects hfirst
    rw [ih hcollects₁ hrest, hitems, List.append_assoc, List.singleton_append]

theorem appendEach_other {c' : ObjectId} (hc : c' ≠ c) (vs : List Value) :
    Leaves (SameItems items) (services.appendEach c' vs) := by
  induction vs with
  | nil => exact .pure ()
  | cons v vs ih =>
    have happend := h.others.append c' v
    rw [exceptAppends, withAppend] at happend
    simp only [if_neg hc] at happend
    exact .bind happend fun _ => ih

theorem assign (target : ObjectId) (member : Member) (v : Value) :
    Leaves (SameItems items) (services.assign target member v) := by
  rw [Services.assign]
  split
  · exact h.others.setAttached target member v
  · exact h.others.setMember target member v

/-- What a member received that targets the collection comes to the end of its items, and else the
items stay as they are. -/
theorem commitEnding {e : Ending σ} {w : World σ}
    (hcommit : services.commitEnding e e.world = .ok () w) :
    items w.heap = items e.world.heap ++ services.gathered c e := by
  obtain ⟨site, member, values, retrieved, world⟩ := e
  rw [Services.commitEnding, commit_apply] at hcommit
  have appended : ∀ {c' : ObjectId} {recorded v : Value} {heap : σ},
      services.host.collects world.heap c' = true →
      services.follow site.object member values (.appends c' recorded) world.heap = .ok v heap →
      items heap = items world.heap ++
        if c' = c then values.flatMap Value.items else [] := by
    intro c' recorded v heap hcollects hfollow
    obtain ⟨_, heap₁, happend, hrest⟩ := (Action.bind_eq_ok world.heap).1 hfollow
    cases hrest
    by_cases hc : c' = c
    · subst hc
      rw [if_pos rfl]
      exact h.appendEach hcollects happend
    · rw [if_neg hc, List.append_nil]
      exact (h.appendEach_other hc _).of_ok happend
  cases hfollow : services.follow site.object member values
      (services.route world.heap site.object site.collects member values retrieved)
      world.heap with
  | error e heap => simp [hfollow] at hcommit
  | ok v heap =>
    rw [hfollow] at hcommit
    cases hcommit
    show items heap = _
    unfold route at hfollow
    unfold gathered targets
    dsimp only
    split at hfollow
    · next hitems =>
      rw [if_pos hitems]
      split at hfollow
      · cases hfollow
      · split at hfollow
        · next hcollects =>
          simpa using appended hcollects hfollow
        · cases hfollow
    · next hitems =>
      rw [if_neg hitems]
      split at hfollow
      · next hmany =>
        rw [hmany, Bool.true_and]
        cases hlive : services.liveCollection world.heap site.object member with
        | some c' =>
          simp only [hlive] at hfollow
          simpa using appended (liveCollection_eq_some.1 hlive).2 hfollow
        | none =>
          simp only [hlive] at hfollow
          obtain ⟨_, heap₁, hassign, hrest⟩ := (Action.bind_eq_ok world.heap).1 hfollow
          cases hrest
          simp only [beq_iff_eq, reduceCtorEq, if_false, List.append_nil]
          exact (h.assign _ _ _).of_ok hassign
      · next hmany =>
        have hnone : services.schema.takesMany member = false := eq_false_of_ne_true hmany
        simp only [hnone, Bool.false_and, Bool.false_eq_true, if_false, List.append_nil]
        split at hfollow
        · cases hfollow
          rfl
        · obtain ⟨_, heap₁, hassign, hrest⟩ := (Action.bind_eq_ok world.heap).1 hfollow
          cases hrest
          exact (h.assign _ _ _).of_ok hassign
        · cases hfollow

/-- An instruction adds to the items what the member received that it ends. -/
theorem step (hm : m.Sound services.settings.maxDepth) (hload : services.Registered m)
    (hdoes : services.Does m i m') :
    items m'.world.heap =
      items m.world.heap ++ (m.endingAt i).toList.flatMap (services.gathered c) := by
  obtain ⟨hnone, hw⟩ | ⟨e, hsome, hw, hcommit⟩ := hdoes.ends h.others hm hload
  · rw [hnone, Option.toList_none, List.flatMap_nil, List.append_nil]
    exact hw
  · rw [hsome, Option.toList_some, List.flatMap_singleton, h.commitEnding hcommit]
    exact congrArg (· ++ _) hw

/-- A stream adds to the items what the members received that end in it, in their order. -/
theorem steps {stream : List Instruction} :
    ∀ {m m' : Machine σ}, m.Sound services.settings.maxDepth → services.Registered m →
      services.steps stream m = .ok () m' →
      items m'.world.heap =
        items m.world.heap ++ (services.endings stream m).flatMap (services.gathered c) := by
  induction stream with
  | nil =>
    intro m m' _ _ hsteps
    cases hsteps
    simp [endings]
  | cons i is ih =>
    intro m m' hm hload hsteps
    rw [steps_cons] at hsteps
    cases hstep : services.step i m with
    | error e m₁ => simp [hstep] at hsteps
    | ok _ m₁ =>
      simp only [hstep] at hsteps
      have hdoes := step_does hm hstep
      rw [ih (hdoes.sound hm) (hdoes.registered hload) hsteps, h.step hm hload hdoes, endings,
        hstep, List.flatMap_append, List.append_assoc]

end Gathers

end Services
end ObjectMarkup
