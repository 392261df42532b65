/-
Where the values of attached members go.

An attached member is declared by another type and stored on the object, beside the members of the
object's own type.  Its values are stored by one call, which names the member with its owner, and
nothing else of the object is written.  There is one exception, and `attached_reaches` says how far
it goes: what the object holds is read by the simple name of the member, so that an attached member
that takes many values finds a collection which the object holds under that name as a member of its
own, and the values are added to it.
-/
import ObjectMarkup.Proofs.Routes
import ObjectMarkup.Widget.Catalogue

namespace ObjectMarkup

open ObjectMarkup.Action (endState success? of_success?)
open Machine (blank)

variable {σ : Type}

namespace Services

variable (services : Services σ)

/-- How the end `r` of an attached member commits its values from a heap, and the calls that it
makes. -/
inductive Attaches (target : ObjectId) (member : Member) (values : List Value) (heap : σ)
    (r : EStateM.Result Error (Machine σ) Unit) (made : List Call) : Prop
  /-- one value is stored -/
  | stores (v : Value) :
      (services.schema.takesMany member = true →
        services.liveCollection heap target member = none ∧ v = wholeList values) →
      (services.schema.takesMany member = false → values = [v]) →
      Called r made [.setAttached target member v] →
      (endState r).world.heap = endState (services.host.setAttached target member v heap) →
      Attaches target member values heap r made
  /-- a member that takes one value received more, and nothing is stored -/
  | refuses : services.schema.takesMany member = false → 2 ≤ values.length →
      (∃ e m', r = .error e m' ∧ m'.world.heap = heap) → made = [] →
      Attaches target member values heap r made
  /-- the object holds a collection under the name of the member, which the values are added to -/
  | appends (c : ObjectId) : services.schema.takesMany member = true →
      services.host.getMember heap target member = some (.object c) →
      services.host.collects heap c = true →
      Called r made ((values.flatMap Value.items).map (Call.append c)) →
      Attaches target member values heap r made

section

variable {services} {m : Machine σ} {top : Frame} {rest : List Frame} {member : Member}
  {site : Site}

theorem isItems_of_attached (h : member.isAttached = true) : member.isItems = false := by
  cases hkind : member.kind <;> simp_all [Member.isAttached, Member.isItems]

variable (services) in
/-- Values of an attached member are stored, refused, or added to a collection. -/
theorem endMember_attaches (hs : m.stack = top :: rest) (ht : top.member = some member)
    (hsite : top.site = some site) (hattached : member.isAttached = true)
    (hpending : top.pending ≠ []) (calls : List Call) :
    ∃ made, services.watched.endMember (m.watch calls) =
        watchOutcome (calls ++ made) (services.endMember m) ∧
      services.Attaches site.object member top.pending m.world.heap (services.endMember m)
        made := by
  obtain ⟨made, hwatched, hcalled⟩ := services.endMember_watched hs ht hsite calls
  refine ⟨made, hwatched, ?_⟩
  have hitems := isItems_of_attached hattached
  have hassign : ∀ v, services.assign site.object member v =
      services.host.setAttached site.object member v := fun v => by
    rw [assign, if_pos hattached]
  -- what is assigned is stored, whether the call fails or not
  have hstores : ∀ v, services.routeOf m top member site = .assigns v →
      Called (services.endMember m) made [.setAttached site.object member v] ∧
      (endState (services.endMember m)).world.heap =
        endState (services.host.setAttached site.object member v m.world.heap) := by
    intro v hroute
    rw [hroute, Route.calls, assignCall, if_pos hattached] at hcalled
    refine ⟨hcalled, ?_⟩
    rw [services.endMember_follows hs ht hsite, hroute, follow, Action.bind_apply, hassign]
    cases services.host.setAttached site.object member v m.world.heap <;> rfl
  cases hmany : services.schema.takesMany member with
  | true =>
    cases hlive : services.liveCollection m.world.heap site.object member with
    | none =>
      have hroute : services.routeOf m top member site = .assigns (wholeList top.pending) := by
        simp [routeOf, route, hitems, hmany, hlive]
      obtain ⟨hcalls, hheap⟩ := hstores _ hroute
      exact .stores _ (fun _ => ⟨hlive, rfl⟩) (fun h => by simp [hmany] at h) hcalls hheap
    | some c =>
      obtain ⟨hget, hcollects⟩ := liveCollection_eq_some.1 hlive
      have hroute : services.routeOf m top member site = .appends c (summary top.pending) := by
        simp [routeOf, route, hitems, hmany, hlive, hpending]
      rw [hroute] at hcalled
      exact .appends c hmany hget hcollects hcalled
  | false =>
    rcases hvalues : top.pending with _ | ⟨v, _ | ⟨v', vs⟩⟩
    · exact absurd hvalues hpending
    · have hroute : services.routeOf m top member site = .assigns v := by
        simp [routeOf, route, hitems, hmany, hvalues]
      obtain ⟨hcalls, hheap⟩ := hstores v hroute
      exact .stores v (fun h => by simp [hmany] at h) (fun _ => rfl) hcalls hheap
    · have hroute : services.routeOf m top member site =
          .refuses (.unexpectedValueCount member.qualifiedName (v :: v' :: vs).length) := by
        simp [routeOf, route, hitems, hmany, hvalues]
      have hend : services.endMember m = .error (.member (.unexpectedValueCount
          member.qualifiedName (v :: v' :: vs).length)) m.closeMember := by
        rw [services.endMember_follows hs ht hsite, hroute]
        exact congrArg _ (m.closeMember.inWorld_of_eq _ m.closeMember_world)
      rw [hroute] at hcalled
      exact .refuses hmany (by simp) ⟨_, _, hend, congrArg World.heap m.closeMember_world⟩
        (List.prefix_nil.1 hcalled.first)

/-- Of a machine wherever it was brought, also past failures: values that an attached member
received are stored on its object by one call, unless they are more than the member takes.  The same
goes for the value that the loader of an attached member makes.  The exception is a member that
takes many values where the object holds a collection under the same name. -/
theorem attached_reaches {w : World σ} {root : Option ObjectId} {base : Option ScopeId}
    {before : List Instruction} (hm : (services.trace true before (blank w root base)).2 = m)
    (hs : m.stack = top :: rest) (ht : top.member = some member)
    (hattached : member.isAttached = true) (calls : List Call) :
    ∃ site, top.site = some site ∧
      (top.pending ≠ [] → ∃ made, services.watched.step .endMember (m.watch calls) =
          watchOutcome (calls ++ made) (services.step .endMember m) ∧
        services.Attaches site.object member top.pending m.world.heap
          (services.step .endMember m) made) ∧
      ∀ r v w', m.recording = some r → r.depth = 1 →
        Build.onHeap .deferred (r.loader r.member r.instructions) m.world = .ok v w' →
        ∃ made, services.watched.step .endMember (m.watch calls) =
            watchOutcome (calls ++ .load member r.instructions :: made)
              (services.step .endMember m) ∧
          services.Attaches site.object member [v] w'.heap (services.step .endMember m) made := by
  have hblank : (blank w root base).Sound services.settings.maxDepth := .blank _ _ _
  have hsound : m.Sound services.settings.maxDepth := hm ▸ trace_sound hblank
  obtain ⟨site, hsite⟩ := Option.isSome_iff_exists.1
    ((hsound.frames top (by simp [hs])).site_of_member (by simp [ht]))
  refine ⟨site, hsite, fun hpending => ?_, fun r v w' hr hone hload => ?_⟩
  · have hr : m.recording = none := by
      cases hr : m.recording with
      | none => rfl
      | some r =>
        obtain ⟨-, top', rest', hs', -, hempty, -⟩ := hsound.recording r hr
        rw [hs] at hs'
        cases hs'
        exact absurd hempty hpending
    have hr' : (m.watch calls).recording = none := by simp [Machine.watch, hr]
    rw [step_of_idle services hr, step_of_idle services.watched hr']
    exact services.endMember_attaches hs ht hsite hattached hpending calls
  · obtain ⟨-, top', rest', hs', ht', hempty, -⟩ := hsound.recording r hr
    rw [hs] at hs'
    cases hs'
    obtain rfl : member = r.member := Option.some.inj (ht.symm.trans ht')
    have hlast : depthAfter r.depth .endMember = 0 := by rw [hone]; rfl
    have hr' : (m.watch calls).recording = some r.watch := by simp [Machine.watch, hr]
    have hpushed : (((m.withRecording none).push v).inWorld w').stack = top.receive [v] :: rest :=
      Machine.mapTop_stack _ _ hs
    have hpending : (top.receive [v]).pending = [v] := by simp [Frame.receive, hempty]
    obtain ⟨made, hwatched, hattaches⟩ := services.endMember_attaches hpushed ht hsite
      hattached (by simp [hpending]) (calls ++ [.load r.member r.instructions])
    rw [step_of_recording services hr, step_of_recording services.watched hr',
      services.record_watched_of_load hlast hload, record_of_last services hlast, hload]
    rw [hpending] at hattaches
    refine ⟨made, ?_, hattaches⟩
    rw [hwatched, List.append_assoc]
    rfl

end

end Services

/-- A row is given to a text. -/
def Widget.rowOfText : List Instruction :=
  [.startObject { type := "TextBlock" }, .startMember (attachedInteger "Grid" "Row"), .value "1"]

/-- The items of a grid, as a member that is attached to other objects. -/
def Widget.gridItems : Member :=
  { owner := "Grid", name := "Items", kind := .attached, collection := true }

/-- A value was given to an items control for a member of the grid that is called as one of its own
is. -/
def Widget.receivedForGrid : Machine Heap :=
  ((catalogue.services Heap.host {}).trace true
    [.startObject { type := "ItemsControl" }, .startMember gridItems, .value "one"]
    (blank { heap := {} } none none)).2

/-- The call stores the value of an attached member. -/
def Call.stores : Call → Bool
  | .setAttached .. => true
  | _ => false

namespace Services

/-- The row of the text is stored by one call. -/
theorem attached_reaches_rowOfText :
    ∃ m top rest site v, ((Widget.catalogue.services Heap.host {}).trace true Widget.rowOfText
        (blank { heap := {} } none none)).2 = m ∧
      m.stack = top :: rest ∧ top.site = some site ∧ top.pending = [v] ∧
      (Widget.catalogue.services Heap.host {}).watched.step .endMember (m.watch []) =
        watchOutcome [.setAttached site.object (Widget.attachedInteger "Grid" "Row") v]
          ((Widget.catalogue.services Heap.host {}).step .endMember m) := by
  have hok : ((((Widget.catalogue.services Heap.host {}).trace true Widget.rowOfText
        (blank { heap := {} } none none)).2.stack.head?.any fun top =>
          decide (top.member = some (Widget.attachedInteger "Grid" "Row") ∧
            top.pending.length = 1)) &&
      (success? ((Widget.catalogue.services Heap.host {}).step .endMember
        ((Widget.catalogue.services Heap.host {}).trace true Widget.rowOfText
          (blank { heap := {} } none none)).2)).any fun _ => true) = true := by decide +kernel
  rw [Bool.and_eq_true, Option.any_eq_true] at hok
  obtain ⟨⟨top, hhead, htop⟩, hend⟩ := hok
  obtain ⟨rest, hs⟩ := List.head?_eq_some_iff.1 hhead
  obtain ⟨ht, hlength⟩ := of_decide_eq_true htop
  obtain ⟨m', hstep, -⟩ := of_success? hend
  obtain ⟨site, hsite, hpending, -⟩ := attached_reaches rfl hs ht rfl []
  obtain ⟨made, hwatched, hattaches⟩ := hpending (by intro h; simp [h] at hlength)
  cases hattaches with
  | stores v _ hone hcalled _ =>
    obtain rfl := hcalled.all () _ hstep
    exact ⟨_, top, rest, site, v, rfl, hs, hsite, hone rfl, hwatched⟩
  | refuses _ hlong _ _ => omega
  | appends _ hmany _ _ _ => cases hmany

/-- A value for the items of the grid goes to the items of the control, by one call, and is not
stored. -/
theorem attached_appended_gridItems :
    (Widget.receivedForGrid.stack.head?.map fun top => (top.member, top.pending.length)) =
      some (some Widget.gridItems, 1) ∧
    Widget.gridItems.isAttached = true ∧
    ((Widget.receivedForGrid.world.heap.find? ⟨0⟩).bind Widget.items?).map List.length = some 0 ∧
    ((success? ((Widget.catalogue.services Heap.host {}).step .endMember
      Widget.receivedForGrid)).bind fun m' =>
        ((m'.world.heap.find? ⟨0⟩).bind Widget.items?).map List.length) = some 1 ∧
    ((success? ((Widget.catalogue.services Heap.host {}).watched.step .endMember
      (Widget.receivedForGrid.watch []))).map fun m' =>
        (m'.world.heap.calls.length, m'.world.heap.calls.countP Call.stores)) = some (1, 0) := by
  decide +kernel

end Services
end ObjectMarkup
