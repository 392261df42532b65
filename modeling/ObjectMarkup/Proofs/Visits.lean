/-
What a member becomes that only gave its object out.

A member can be opened for the sake of the object that it holds: the object is entered, members of
it are given values, and it is left again.  When such a member ends it has received nothing, and it
keeps the object.  There is one exception, and `visits_unwritten` says how far it goes: a member
that takes many values, and holds an object that is no collection, is overwritten with an empty
list.
-/
import ObjectMarkup.Proofs.Grounds
import ObjectMarkup.Proofs.Refusals
import ObjectMarkup.Proofs.Routes

namespace ObjectMarkup

variable {σ : Type}

open ObjectMarkup.Action (success? of_success?)
open Machine (blank)

/-- One visit or more to the object that a member holds: it is entered, members of it start and end,
and it is left. -/
inductive Visits (recorded : Member → Bool) : List Instruction → Prop
  | last {n : Nat} {ms : List Instruction} :
      AreMembers recorded n ms → Visits recorded (.getObject :: (ms ++ [.endObject]))
  | more {n : Nat} {ms is : List Instruction} : AreMembers recorded n ms → Visits recorded is →
      Visits recorded (.getObject :: (ms ++ .endObject :: is))

namespace Services

variable {services : Services σ}

section

variable {g : Ground} {f : Frame} {fs : List Frame} {w : World σ} {m' : Machine σ}

/-- A visit takes the object out of its member, and leaves the frames as they are otherwise. -/
theorem visit_of_ok {n : Nat} {ms : List Instruction} (hms : AreMembers services.isRecorded n ms)
    (hm : (g.machine (f :: fs) w).Sound services.settings.maxDepth)
    (h : services.steps (.getObject :: (ms ++ [.endObject])) (g.machine (f :: fs) w) =
      .ok () m') :
    ∃ member site target w', f.member = some member ∧ f.site = some site ∧
      services.host.getMember w.heap site.object member = some (.object target) ∧
      m' = g.machine (f.retrieve (.object target) :: fs) w' := by
  obtain ⟨m₁, hget, h⟩ := steps_cons_eq_ok h
  obtain ⟨m₂, hmembers, hend⟩ := services.steps_concat_eq_ok h
  have hm₁ := (step_does hm hget).sound hm
  have hm₂ := steps_sound hm₁ hmembers
  obtain ⟨member, site, target, hmember, hsite, htarget, rfl⟩ := getObject_of_ok hm hget
  obtain ⟨last, w', rfl, -, -⟩ := members_beside (.refl g) hms hm₁ hm₁ rfl hmembers hmembers
  exact ⟨member, site, target, w', hmember, hsite, htarget, leave_of_ok hm₂ rfl rfl hend⟩

/-- After visits a member has received nothing more, and its object was taken out of it. -/
theorem visits_of_ok {body : List Instruction} (hbody : Visits services.isRecorded body) :
    ∀ {f : Frame} {w : World σ} {m' : Machine σ},
      (g.machine (f :: fs) w).Sound services.settings.maxDepth →
      services.steps body (g.machine (f :: fs) w) = .ok () m' →
      ∃ target w', m' = g.machine (f.retrieve (.object target) :: fs) w' := by
  induction hbody with
  | last hms =>
    intro f w m' hm h
    obtain ⟨-, -, target, w', -, -, -, rfl⟩ := visit_of_ok hms hm h
    exact ⟨target, w', rfl⟩
  | @more n ms is hms _ ih =>
    intro f w m' hm h
    have hsplit : (.getObject :: (ms ++ .endObject :: is) : List Instruction) =
        (.getObject :: (ms ++ [.endObject])) ++ is := by simp
    rw [hsplit] at h
    obtain ⟨m₁, hvisit, h⟩ := steps_append_eq_ok h
    have hm₁ := steps_sound hm hvisit
    obtain ⟨-, -, first, w₁, -, -, -, rfl⟩ := visit_of_ok hms hm hvisit
    obtain ⟨target, w', rfl⟩ := ih hm₁ h
    exact ⟨target, w', rfl⟩

end

/-! ## The end of a visited member -/

variable (services) in
/-- The member takes many values and does not hold a collection. -/
def Overwritten (heap : σ) (target : ObjectId) (member : Member) : Prop :=
  member.isItems = false ∧ services.schema.takesMany member = true ∧
    services.liveCollection heap target member = none

section

variable {m m₁ m₂ : Machine σ} {top : Frame} {rest : List Frame} {member : Member} {site : Site}

/-- What a member is opened for is visits to its object: then nothing is pending at its end. -/
theorem visited_of_ok {body : List Instruction} (hm : m.Sound services.settings.maxDepth)
    (hr : m.recording = none) (hrec : services.isRecorded member = false)
    (hbody : Visits services.isRecorded body)
    (h : services.steps (.startMember member :: body) m = .ok () m₁) :
    ∃ top rest site target, m₁.recording = none ∧ m₁.stack = top :: rest ∧
      top.member = some member ∧ top.site = some site ∧ top.pending = [] ∧
      top.retrieved = some (.object target) := by
  obtain ⟨m₀, hstart, hvisits⟩ := steps_cons_eq_ok h
  have hm₀ := (step_does hm hstart).sound hm
  obtain ⟨g, f, site, w₀, -, rfl⟩ := opened_of_ok hm hr hrec hstart
  obtain ⟨target, w₁, rfl⟩ := visits_of_ok hbody hm₀ hvisits
  exact ⟨_, g.below, site, target, rfl, rfl, rfl, rfl, rfl, rfl⟩

variable (services) in
/-- Nothing is assigned to a member that has only given its object out, unless it is overwritten. -/
theorem routeOf_visited (m : Machine σ) (member : Member) (site : Site) {v : Value}
    (hpending : top.pending = []) (hretrieved : top.retrieved = some v) :
    (services.Overwritten m.world.heap site.object member →
      services.routeOf m top member site = .assigns (.list [])) ∧
    (¬ services.Overwritten m.world.heap site.object member →
      ∀ v', services.routeOf m top member site ≠ .assigns v') := by
  unfold routeOf route
  refine ⟨fun ⟨hitems, hmany, hlive⟩ => ?_, fun hkept v' => ?_⟩
  · simp [hitems, hmany, hlive, hpending, wholeList]
  · split
    · split
      · simp
      · split <;> simp
    · next hitems =>
      split
      · next hmany =>
        cases hlive : services.liveCollection m.world.heap site.object member with
        | none => exact absurd ⟨eq_false_of_ne_true hitems, hmany, hlive⟩ hkept
        | some c => simp
      · simp [hpending, hretrieved]

variable (services) in
/-- Where nothing was received and nothing is assigned, no call is made. -/
theorem follow_of_nothing {r : Route} (hr : ∀ v, r ≠ .assigns v) (target : ObjectId)
    (member : Member) (heap : σ) :
    r.calls target member [] = [] ∧
      Action.endState (services.follow target member [] r heap) = heap := by
  cases r with
  | assigns v => exact absurd rfl (hr v)
  | appends c recorded => exact ⟨rfl, rfl⟩
  | keeps v => exact ⟨rfl, rfl⟩
  | refuses e => exact ⟨rfl, rfl⟩

/-- Of a machine wherever it was brought, also past failures: a member that is opened for visits to
its object, and receives nothing, keeps the object when it ends, and no call is made.  The exception
is a member that takes many values and holds no collection: an empty list is assigned to it. -/
theorem visits_unwritten {w : World σ} {root : Option ObjectId} {base : Option ScopeId}
    {before body : List Instruction} (hm : (services.trace true before (blank w root base)).2 = m)
    (hr : m.recording = none) (hrec : services.isRecorded member = false)
    (hbody : Visits services.isRecorded body)
    (h : services.steps (.startMember member :: body) m = .ok () m₁)
    (hend : services.step .endMember m₁ = .ok () m₂) (calls : List Call) :
    ∃ site, m₁.stack.head?.bind (·.site) = some site ∧
      (¬ services.Overwritten m₁.world.heap site.object member →
        services.watched.step .endMember (m₁.watch calls) = .ok () (m₂.watch calls) ∧
        m₂.world.heap = m₁.world.heap) ∧
      (services.Overwritten m₁.world.heap site.object member →
        services.watched.step .endMember (m₁.watch calls) =
          .ok () (m₂.watch (calls ++ [assignCall site.object member (.list [])])) ∧
        services.assign site.object member (.list []) m₁.world.heap = .ok () m₂.world.heap) := by
  have hblank : (blank w root base).Sound services.settings.maxDepth := .blank _ _ _
  have hsound : m.Sound services.settings.maxDepth := hm ▸ trace_sound hblank
  obtain ⟨top, rest, site, target, hr₁, hs, ht, hsite, hpending, hretrieved⟩ :=
    visited_of_ok hsound hr hrec hbody h
  obtain ⟨made, hwatched, hcalled⟩ :=
    services.step_endMember_watched hr₁ hs ht hsite calls
  have hmade := hcalled.all () m₂ hend
  obtain ⟨hassigns, hkeeps⟩ := services.routeOf_visited m₁ member site hpending hretrieved
  rw [hend] at hwatched
  rw [step_of_idle services hr₁, execute, services.endMember_follows hs ht hsite, hpending] at hend
  rw [hpending] at hmade
  refine ⟨site, by simp [hs, hsite], fun hnot => ?_, fun hover => ?_⟩
  · obtain ⟨hnone, hheap⟩ := services.follow_of_nothing (hkeeps hnot) site.object
      member m₁.world.heap
    rw [hmade, hnone, List.append_nil] at hwatched
    refine ⟨hwatched, ?_⟩
    split at hend
    · next hfollow =>
      rw [hfollow] at hheap
      cases hend
      exact hheap
    · cases hend
  · rw [hassigns hover] at hmade hend
    rw [hmade] at hwatched
    refine ⟨hwatched, ?_⟩
    rw [follow, Action.bind_apply] at hend
    cases hassign : services.assign site.object member (.list []) m₁.world.heap with
    | ok _ heap =>
      rw [hassign] at hend
      cases hend
      rfl
    | error e heap =>
      rw [hassign] at hend
      cases hend

end

end Services

/-- The window in a window is entered and given a title. -/
def Widget.titleOfInner : List Instruction :=
  [.getObject, .startMember (stringMember "Window" "Title"), .value "inner", .endMember, .endObject]

/-- The member that a call sets, and of which object. -/
def Call.set? : Call → Option (ObjectId × Member)
  | .setMember id m _ => some (id, m)
  | _ => none

/-- The content of a window, taken for a member of many values. -/
def Widget.manyContents : Member := { contentMember "Window" with collection := true }

namespace Services

/-- The outer window keeps the inner one, which is given a title. -/
theorem visits_unwritten_titleOfInner :
    ∃ m m₁ m₂, ((Widget.catalogue.services Heap.host {}).trace true
        [.startObject { type := "Window" }]
        (blank { heap := Widget.windowInWindow } (some ⟨2⟩) none)).2 = m ∧
      (Widget.catalogue.services Heap.host {}).steps
        (.startMember (Widget.contentMember "Window") :: Widget.titleOfInner) m = .ok () m₁ ∧
      (Widget.catalogue.services Heap.host {}).step .endMember m₁ = .ok () m₂ ∧
      (Widget.catalogue.services Heap.host {}).watched.step .endMember (m₁.watch []) =
        .ok () (m₂.watch []) ∧
      m₂.world.heap = m₁.world.heap := by
  have hok : (((Widget.catalogue.services Heap.host {}).trace true
        [.startObject { type := "Window" }]
        (blank { heap := Widget.windowInWindow } (some ⟨2⟩) none)).2.recording.isNone &&
      (success? ((Widget.catalogue.services Heap.host {}).steps
        (.startMember (Widget.contentMember "Window") :: Widget.titleOfInner)
        ((Widget.catalogue.services Heap.host {}).trace true [.startObject { type := "Window" }]
          (blank { heap := Widget.windowInWindow } (some ⟨2⟩) none)).2)).any fun m₁ =>
        (success? ((Widget.catalogue.services Heap.host {}).step .endMember m₁)).any
          fun _ => true) = true := by decide +kernel
  rw [Bool.and_eq_true, Option.isNone_iff_eq_none] at hok
  obtain ⟨hidle, hok⟩ := hok
  obtain ⟨m₁, hsteps, hok⟩ := of_success? hok
  obtain ⟨m₂, hend, -⟩ := of_success? hok
  have hbody : Visits (Widget.catalogue.services Heap.host {}).isRecorded Widget.titleOfInner :=
    @Visits.last _ 0 _ (.carried rfl (.value .nil) .nil)
  obtain ⟨site, -, hkept, -⟩ := visits_unwritten rfl hidle rfl hbody hsteps hend []
  obtain ⟨hwatched, hheap⟩ := hkept fun h => by cases h.2.1
  exact ⟨_, m₁, m₂, rfl, hsteps, hend, hwatched, hheap⟩

/-- A content of many values is overwritten when all that was done is to enter it and to leave it
again: one member is set, and holds a list where it held an object. -/
theorem visits_overwritten_manyContents :
    (Heap.host.getMember Widget.windowInWindow ⟨2⟩ Widget.manyContents).map Value.kind =
      some "object" ∧
    ((success? ((Widget.catalogue.services Heap.host {}).watched.steps
        [.startObject { type := "Window" }, .startMember Widget.manyContents, .getObject,
          .endObject, .endMember]
        (blank { heap := ⟨Widget.windowInWindow, []⟩ } (some ⟨2⟩) none))).map fun m' =>
      (m'.world.heap.calls.map Call.set?,
        (Heap.host.getMember m'.world.heap.heap ⟨2⟩ Widget.manyContents).map Value.kind)) =
      some ([some (⟨2⟩, Widget.manyContents)], some "list") := by
  decide +kernel

end Services
end ObjectMarkup
