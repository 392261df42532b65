/-
Extensions, and the places in which they provide their values.

An object of an extension type that ends inside another object is asked once for its value, last of
all that its end does, and is shown the place that receives the value (`Services.Evaluation`).
Nothing else asks an object for a value, so that the calls of a run are matched by the ends of
extensions in its stream, in their order (`steps_evaluates`).

Under a placeholder the place is that of the object which the placeholder stands for.  It was taken
out of the open member below, which is an invariant of the frames (`Frame.TakenFrom`).
-/
import ObjectMarkup.Proofs.Commitments
import ObjectMarkup.Proofs.Endings
import ObjectMarkup.Proofs.Noted
import ObjectMarkup.Proofs.Placeholders
import ObjectMarkup.Widget.Catalogue

namespace ObjectMarkup

open ObjectMarkup.Action (success? of_success?)
open Machine (blank)
open Watched (Notes note)

variable {σ : Type}

/-! ## What is asked for a value -/

/-- The object that a call asks for its value, and the place that it is shown. -/
def Call.asked? : Call → Option (ObjectId × Provision)
  | .provide id place => some (id, place)
  | _ => none

/-- The objects that were asked for their values, in the order of the calls. -/
def asked (calls : List Call) : List (ObjectId × Provision) := calls.filterMap Call.asked?

@[simp] theorem asked_append (calls more : List Call) :
    asked (calls ++ more) = asked calls ++ asked more := List.filterMap_append

/-- A constructor, or what an object is told of its stages. -/
def Call.isStage : Call → Bool
  | .activate .. | .beginInit _ | .endInit _ => true
  | _ => false

theorem Call.not_asked_of_isStage {c : Call} (h : c.isStage = true) : c.asked? = none := by
  cases c <;> first | rfl | cases h

theorem Call.not_asked_of_populates {c : Call} (h : c.populates = true) : c.asked? = none := by
  cases c <;> first | rfl | cases h

/-- Calls were noted that ask no object for a value. -/
def World.Unasked (w w' : World (Watched σ)) : Prop :=
  w.HeapsIn (Notes fun c => c.asked? = none) w'

instance : Trans (World.Unasked (σ := σ)) (World.Unasked (σ := σ)) (World.Unasked (σ := σ)) :=
  ⟨fun h h' => Trans.trans (r := Notes _) h h'⟩

theorem World.Unasked.asked_eq {w w' : World (Watched σ)} (h : w.Unasked w') :
    asked w'.heap.calls = asked w.heap.calls := by
  obtain ⟨more, hmore, hnone⟩ := h
  have hmore' : asked more = [] := List.filterMap_eq_nil_iff.2 hnone
  rw [hmore, asked_append, hmore', List.append_nil]

/-- The instruction ends an object of an extension type that was started inside another one, and is
not recorded. -/
def Machine.endsExtension (schema : Schema) (m : Machine σ) (i : Instruction) : Bool :=
  (match i, m.stack with
    | .endObject, top :: _ :: _ => !top.isPlaceholder && (schema.traits top.type).extension
    | _, _ => false) && !m.isRecording

theorem Machine.endsExtension_watch (schema : Schema) (m : Machine σ) (calls : List Call)
    (i : Instruction) : (m.watch calls).endsExtension schema i = m.endsExtension schema i := by
  obtain ⟨world, stack, closed, supplied, base, result, recording⟩ := m
  cases recording <;> rfl

/-! ## Objects that are entered again -/

/-- A placeholder stands for the object that was taken out of the open member below it. -/
def Frame.TakenFrom (f below : Frame) : Prop :=
  f.isPlaceholder = true → ∃ id, f.object = some id ∧ below.retrieved = some (.object id)

namespace Services

section

open Machine

variable {services : Services σ} {m m' : Machine σ} {top : Frame} {rest : List Frame} {site : Site}
  {i : Instruction} {w : World σ}

theorem taken_mapTop {f : Frame → Frame} (hp : ∀ g, (f g).isPlaceholder = g.isPlaceholder)
    (hobject : ∀ g, (f g).object = g.object) (h : m.stack.IsChain Frame.TakenFrom) :
    (m.mapTop f).stack.IsChain Frame.TakenFrom := by
  cases hs : m.stack with
  | nil => simp [mapTop, hs]
  | cons top rest =>
    rw [hs] at h
    rw [m.mapTop_stack f hs]
    refine h.tail.cons fun below hbelow hplaceholder => ?_
    rw [hobject]
    exact h.rel_head? hbelow (hp top ▸ hplaceholder)

/-- A frame that gets its object now is no placeholder. -/
theorem taken_setSite (hm : m.Sound services.settings.maxDepth) (hs : m.stack = top :: rest)
    (hobject : services.objectOf m top m.world = .ok site w)
    (h : m.stack.IsChain Frame.TakenFrom) : (m.setSite site).stack.IsChain Frame.TakenFrom := by
  cases hsite : top.site with
  | some found =>
    simp only [objectOf, hsite, Action.pure_apply, EStateM.Result.ok.injEq] at hobject
    rwa [← hobject.1, setSite_eq_self hs hsite]
  | none =>
    have hp : top.isPlaceholder = false := by
      rw [Bool.eq_false_iff]
      intro hp
      simpa [hsite] using (hm.frames top (by simp [hs])).site_of_placeholder hp
    rw [hs] at h
    rw [Machine.setSite, m.mapTop_stack _ hs]
    exact h.tail.cons fun _ _ hplaceholder => by simp [Frame.setSite, hp] at hplaceholder

/-- What a placeholder stands for stays the value that was taken out of the member below it. -/
theorem Does.taken (hm : m.Sound services.settings.maxDepth) (hdoes : services.Does m i m')
    (h : m.stack.IsChain Frame.TakenFrom) : m'.stack.IsChain Frame.TakenFrom := by
  cases hdoes with
  | startObject _ _ _ _ | startSupplied _ _ _ _ _ _ =>
    exact h.cons fun _ _ hplaceholder => by cases hplaceholder
  | @getObject top rest member site target _ hs _ _ _ _ =>
    have hretrieved : (m.mapTop (Frame.retrieve (.object target))).stack =
        top.retrieve (.object target) :: rest := m.mapTop_stack _ hs
    refine (taken_mapTop (f := Frame.retrieve (.object target)) (fun _ => rfl) (fun _ => rfl)
      h).cons fun below hbelow _ => ⟨target, rfl, ?_⟩
    have hbelow : top.retrieve (.object target) = below := by simpa [hretrieved] using hbelow
    rw [← hbelow]
    rfl
  | @startMember _ _ site _ member loader _ hs _ hobject _ =>
    have hopen : ((m.setSite site).mapTop (Frame.openMember member)).stack.IsChain
        Frame.TakenFrom :=
      taken_mapTop (fun _ => rfl) (fun _ => rfl) (taken_setSite hm hs hobject h)
    rw [inWorld_openMember]
    cases loader <;> exact hopen
  | value _ _ _ _ | endMember _ _ _ _ _ | handOver _ _ _ _ _ _ =>
    exact taken_mapTop (fun _ => rfl) (fun _ => rfl) h
  | leave _ _ _ _ | endRoot _ _ _ _ _ _ => exact h.tail
  | endInner _ _ _ _ _ _ _ => exact taken_mapTop (m := m.close) (fun _ => rfl) (fun _ => rfl) h.tail
  | record _ _ => exact h

end

/-! ## The end of an extension -/

/-- The end of an extension inside another object, which leads from `m` to `m'`.  The extension is
there once the world is `begun`, it has ended once the world is `ended`, and then it is asked for
its value, which the object around it receives. -/
structure Evaluation (services : Services σ) (m m' : Machine (Watched σ)) where
  /-- the frames of the extension, of the object around it and of the objects around that one -/
  top : Frame
  parent : Frame
  rest : List Frame
  site : Site
  /-- where the value goes -/
  target : ObjectId
  member : Member
  begun : World (Watched σ)
  ended : World (Watched σ)
  /-- what the extension is shown, and what it provides -/
  place : Provision
  value : Value
  heap : σ
  idle : m.recording = none
  stack : m.stack = top :: parent :: rest
  closed : top.member = none
  own : top.isPlaceholder = false
  extension : (services.schema.traits top.type).extension = true
  parent_object : parent.object = some target
  parent_member : parent.member = some member
  begins : services.watched.objectOf m top m.world = .ok site begun
  ends : services.watched.complete top.type top.name site (some parent.scope) begun = .ok () ended
  shown : place = provision ended site (some target) m.root (some member)
  provides : services.host.provide site.object place ended.heap.heap = .ok value heap
  world : m'.world = ended.setHeap ⟨heap, ended.heap.calls ++ [.provide site.object place]⟩
  received : m'.stack = parent.receive [value] :: rest

section

variable {services : Services σ} {m m' : Machine (Watched σ)} {top parent : Frame}
  {rest : List Frame} {site : Site} {i : Instruction} {w w' : World (Watched σ)}

namespace Evaluation

/-- The extension is asked after all else that its end does, and sees what was done. -/
structure Timely (e : services.Evaluation m m') : Prop where
  /-- no member of it is open: the innermost one that has not ended receives the value -/
  committed : m.waiting = (e.member, e.target) :: e.rest.filterMap Frame.waiting
  /-- nothing is called before but its constructor and its stages -/
  stages : m.world.HeapsIn (Notes fun c => c.isStage = true) e.ended
  /-- it was told that it is complete -/
  told : ∃ w ns, services.Completes e.top.type e.site.object e.begun w ∧ e.ended = w.setScopes ns
  /-- it has its name -/
  named : ∀ name, e.top.name = some name →
    ∃ s, services.nameScope e.top.type e.site (some e.parent.scope) = some s ∧
      e.place.context.scopes.findIn s name = some e.site.object
  /-- it sees the scope of its frame, which is the one around it unless its type opens one -/
  sees : (∀ s, e.top.scope = some s → e.place.scope = some s) ∧
    ((services.schema.traits e.top.type).namescope = false → e.place.scope = e.parent.scope)
  /-- under a placeholder its value goes to the object that was taken out of the member below -/
  entered : e.parent.isPlaceholder = true →
    ∃ holder below, e.rest = holder :: below ∧ holder.retrieved = some (.object e.target)

end Evaluation

/-- An object is made by its constructor, and told that it begins. -/
theorem objectOf_stages (h : services.watched.objectOf m top m.world = .ok site w) :
    m.world.HeapsIn (Notes fun c => c.isStage = true) w := by
  rw [objectOf] at h
  cases hsite : top.site with
  | some found =>
    simp only [hsite, Action.pure_apply, EStateM.Result.ok.injEq] at h
    obtain ⟨-, rfl⟩ := h
    exact Std.Refl.refl m.world.heap
  | none =>
    simp only [hsite] at h
    obtain ⟨made, w₁, ns, hconstructs, hend, -⟩ :=
      services.make_constructs m.around top.type top.arguments m.world
    rw [h] at hend
    obtain rfl : w = w₁.setScopes ns := hend
    cases hconstructs with
    | fails _ | untold _ _ => exact .one rfl rfl
    | told _ _ _ => exact ⟨_, rfl, by simp [Call.isStage]⟩

/-- An object that ends is told that it is complete, and named. -/
theorem complete_told {type : TypeName} {name : Option String} {outside : Option (Option ScopeId)}
    (h : services.watched.complete type name site outside w = .ok () w') :
    ∃ w₁ ns, services.Completes type site.object w w₁ ∧ w' = w₁.setScopes ns := by
  obtain ⟨w₁, ns, hcompletes, hend⟩ := services.complete_completes type name site outside w
  rw [h] at hend
  exact ⟨w₁, ns, hcompletes, hend⟩

theorem complete_stages {type : TypeName} {name : Option String}
    {outside : Option (Option ScopeId)}
    (h : services.watched.complete type name site outside w = .ok () w') :
    w.HeapsIn (Notes fun c => c.isStage = true) w' := by
  obtain ⟨w₁, ns, hcompletes, rfl⟩ := complete_told h
  cases hcompletes with
  | told _ _ _ => exact .one rfl rfl
  | untold _ => exact Std.Refl.refl w.heap

/-- An extension is asked for its value, and the call is noted. -/
theorem valueOf_extension {type : TypeName} {target root : Option ObjectId}
    {member : Option Member} {v : Value} (hext : (services.schema.traits type).extension = true)
    (h : services.watched.valueOf type site target root member w = .ok v w') :
    ∃ heap, services.host.provide site.object (provision w site target root member) w.heap.heap =
        .ok v heap ∧
      w' = w.setHeap ⟨heap, w.heap.calls ++
        [.provide site.object (provision w site target root member)]⟩ := by
  have hschema : services.watched.schema = services.schema := rfl
  have hcall : services.watched.host.provide site.object (provision w site target root member) =
    note (.provide site.object (provision w site target root member))
      (services.host.provide site.object (provision w site target root member)) := rfl
  rw [valueOf, hschema, if_pos hext, Action.bind_apply, Action.get_apply] at h
  dsimp only at h
  split at h
  · change Build.onHeap .extension (services.watched.host.provide site.object
      (provision w site target root member)) w = _ at h
    rw [hcall, Build.onHeap, note] at h
    cases hprovide : services.host.provide site.object (provision w site target root member)
        w.heap.heap with
    | ok v' heap =>
      simp only [hprovide, EStateM.Result.ok.injEq] at h
      obtain ⟨rfl, rfl⟩ := h
      exact ⟨heap, rfl, rfl⟩
    | error e heap => simp [hprovide] at h
  · cases h

/-- What comes to the end of an extension is the end of its frame. -/
theorem Does.evaluation (hm : m.Sound services.settings.maxDepth)
    (hdoes : services.watched.Does m i m') (h : m.endsExtension services.schema i = true) :
    i = .endObject ∧ Nonempty (services.Evaluation m m') := by
  cases hdoes with
  | startObject _ _ _ _ | startSupplied _ _ _ _ _ _ | getObject _ _ _ _ _ _
  | startMember _ _ _ _ _ | value _ _ _ _ | endMember _ _ _ _ _ | handOver _ _ _ _ _ _ =>
    cases h
  | @leave top rest hr hs _ hp =>
    cases rest <;> simp [Machine.endsExtension, Machine.isRecording, hr, hs, hp] at h
  | endRoot hr hs _ _ _ _ => simp [Machine.endsExtension, Machine.isRecording, hr, hs] at h
  | record hr _ => cases i <;> simp [Machine.endsExtension, Machine.isRecording, hr] at h
  | @endInner top parent rest site v w w' w'' hr hs ht hp hobject hcomplete hvalue =>
    have hext : (services.schema.traits top.type).extension = true := by
      simpa [Machine.endsExtension, Machine.isRecording, hr, hs, hp] using h
    have hbelow : parent ∈ m.stack.tail := by simp [hs]
    obtain ⟨member, hmember⟩ := Option.isSome_iff_exists.1 (hm.below parent hbelow)
    obtain ⟨site', hsite⟩ := hm.site_below hbelow
    have htarget : parent.object = some site'.object := by simp [Frame.object, hsite]
    rw [htarget, hmember] at hvalue
    obtain ⟨heap, hprovide, rfl⟩ := valueOf_extension hext hvalue
    have hclose : m.close.stack = parent :: rest := by simp [Machine.close, hs]
    exact ⟨rfl, ⟨{
      top, parent, rest, site, member, heap
      target := site'.object
      begun := w
      ended := w'
      place := provision w' site (some site'.object) m.root (some member)
      value := v
      idle := hr
      stack := hs
      closed := ht
      own := hp
      extension := hext
      parent_object := htarget
      parent_member := hmember
      begins := hobject
      ends := hcomplete
      shown := rfl
      provides := hprovide
      world := rfl
      received := Machine.mapTop_stack _ (Frame.receive [v]) hclose }⟩⟩

/-- Nothing else asks an object for a value. -/
theorem Does.unasked (hload : services.watched.Registered m)
    (hdoes : services.watched.Does m i m') (h : m.endsExtension services.schema i = false) :
    m.world.Unasked m'.world := by
  have same : m.world.Unasked m.world := Std.Refl.refl m.world.heap
  have hstages : ∀ {w w' : World (Watched σ)}, w.HeapsIn (Notes fun c => c.isStage = true) w' →
      w.Unasked w' := fun hw => hw.mono fun _ => Call.not_asked_of_isStage
  have hcommits : ∀ {target collects member vs retrieved} {w w' : World (Watched σ)},
      services.watched.commit target collects member vs retrieved w = .ok () w' →
        w.Unasked w' := fun hcommit =>
    Notes.mono ((services.commit_notes _ _ _ _ _).of_ok hcommit) fun _ =>
      Call.not_asked_of_populates
  cases hdoes with
  | startObject _ _ _ _ | leave _ _ _ _ | record _ _ => exact same
  | startSupplied _ _ _ _ _ hadopt =>
    obtain ⟨rfl, -⟩ := services.watched.adopt_ok hadopt
    exact same
  | getObject _ _ _ _ _ _ => rwa [Machine.openObject_world, Machine.retrieve, Machine.mapTop_world]
  | startMember _ _ _ hobject _ =>
    rw [Machine.inWorld_openMember]
    exact hstages (objectOf_stages hobject)
  | value _ _ _ hread => exact (Build.ofExcept_eq_ok hread).2 ▸ same
  | endMember _ _ _ _ hcommit => exact hcommits hcommit
  | @endInner top parent rest site v w w' w'' hr hs _ hp hobject hcomplete hvalue =>
    have hext : (services.schema.traits top.type).extension = false := by
      simpa [Machine.endsExtension, Machine.isRecording, hr, hs, hp] using h
    have hvalue : w'.Unasked w'' := by
      have hnotes := services.valueOf_notes top.type site parent.object m.root parent.member w'
      rw [hvalue] at hnotes
      exact hnotes.mono fun c hc => absurd hc.1 (by simp [hext])
    exact Trans.trans (Trans.trans (hstages (objectOf_stages hobject))
      (hstages (complete_stages hcomplete))) hvalue
  | endRoot _ _ _ _ hobject hcomplete =>
    exact Trans.trans (hstages (objectOf_stages hobject)) (hstages (complete_stages hcomplete))
  | handOver hr _ _ _ hloaded hcommit =>
    have hcalled := (services.load_notes (hload _ hr) _).of_ok hloaded
    have hunasked : m.world.Unasked _ := hcalled.mono fun c hc => by rw [hc]; rfl
    exact Trans.trans hunasked (hcommits hcommit)

namespace Evaluation

/-- The extension is asked once, after what its end does else. -/
theorem asked_eq (e : services.Evaluation m m') (htimely : e.Timely) :
    asked m'.world.heap.calls = asked m.world.heap.calls ++ [(e.site.object, e.place)] := by
  have hended : m.world.Unasked e.ended := htimely.stages.mono fun _ => Call.not_asked_of_isStage
  rw [e.world, ← hended.asked_eq]
  exact asked_append e.ended.heap.calls _

theorem timely (e : services.Evaluation m m') (hm : m.Sound services.settings.maxDepth)
    (hchain : m.outlooks.IsChain services.watched.Inherits)
    (htaken : m.stack.IsChain Frame.TakenFrom) : e.Timely where
  committed := by
    obtain ⟨site, hsite, htarget⟩ := Option.map_eq_some_iff.1 e.parent_object
    have hparent : e.parent.waiting = some (e.member, e.target) := by
      simp [Frame.waiting, e.parent_member, hsite, htarget]
    rw [waiting_of_cons e.stack, waiting_of_closed e.closed, List.filterMap_cons_some hparent]
    rfl
  stages := Trans.trans (objectOf_stages e.begins) (complete_stages e.ends)
  told := complete_told e.ends
  named name hname := by
    obtain ⟨around, haround⟩ := hm.site_below (f := e.parent) (by simp [e.stack])
    have hscope : ∃ s, services.nameScope e.top.type e.site (some e.parent.scope) = some s := by
      cases hopens : (services.schema.traits e.top.type).namescope <;>
        simp [nameScope, hopens, Frame.scope, haround]
    obtain ⟨s, hs⟩ := hscope
    have hnaming : services.watched.naming e.top.type e.top.name e.site (some e.parent.scope) =
        [⟨s, name, e.site.object⟩] := by
      have hs' : services.watched.nameScope e.top.type e.site (some e.parent.scope) = some s := hs
      simp [naming, hname, hs']
    rw [e.shown]
    exact ⟨s, hs, (complete_gains e.ends).findIn ⟨s, name, e.site.object⟩ (by simp [hnaming])⟩
  sees := by
    rw [e.shown]
    refine ⟨fun s hs => ?_, fun hopens => ?_⟩
    · obtain ⟨found, hfound, rfl⟩ := Option.map_eq_some_iff.1 hs
      have hbegins := e.begins
      simp only [objectOf, hfound, Action.pure_apply, EStateM.Result.ok.injEq] at hbegins
      exact congrArg (fun site => some site.scope) hbegins.1.symm
    · exact (objectOf_sees hm hchain e.stack hopens e.begins).symm
  entered hplaceholder := by
    rw [e.stack] at htaken
    have hstack : m.stack = [e.top] ++ e.parent :: e.rest := e.stack
    obtain ⟨holder, below, -, hrest, -⟩ := hm.around_placeholder hstack hplaceholder
    rw [hrest] at htaken
    obtain ⟨id, hid, hretrieved⟩ := (List.isChain_cons_cons.1 htaken.tail).1 hplaceholder
    obtain rfl : id = e.target := Option.some.inj (hid.symm.trans e.parent_object)
    exact ⟨holder, below, hrest, hretrieved⟩

end Evaluation

end

/-! ## A run -/

variable (services : Services σ)

/-- An extension ends at this place of a stream that is carried out from `m₀`. -/
def endsExtensionAt (stream : List Instruction) (m₀ : Machine σ) (n : Nat) : Bool :=
  (success? (services.steps (stream.take n) m₀)).any fun m =>
    stream[n]?.any (m.endsExtension services.schema)

/-- The places of a stream where extensions end inside other objects. -/
def extensionEnds (stream : List Instruction) (m₀ : Machine σ) : List Nat :=
  (List.range stream.length).filter (services.endsExtensionAt stream m₀)

/-- The extension that ends at this place of a stream is asked for its value.  The commitments that
it sees are those of the members that ended before, outside deferred members. -/
def EvaluatedAt (stream : List Instruction) (m₀ : Machine (Watched σ)) (n : Nat)
    (x : ObjectId × Provision) : Prop :=
  ∃ m m', ∃ e : services.Evaluation m m', stream[n]? = some .endObject ∧
    services.watched.steps (stream.take n) m₀ = .ok () m ∧
    services.watched.steps (stream.take (n + 1)) m₀ = .ok () m' ∧
    x = (e.site.object, e.place) ∧ e.Timely ∧
    ∃ added, e.place.context.ambient.records = m₀.world.context.ambient.records ++ added ∧
      List.Forall₂ (services.watched.RecordOf stream m₀)
        (spans [] (carriedOut services.isRecorded 0 (stream.take n).zipIdx)) added ∧
      (spans [] (carriedOut services.isRecorded 0 (stream.take n).zipIdx)).map (·.stop) =
        memberEnds (carriedOut services.isRecorded 0 (stream.take n).zipIdx)

theorem isRecorded_watched : services.watched.isRecorded = services.isRecorded := by
  funext m
  rw [isRecorded, isRecorded, find?_watched, Option.isSome_map]

variable {services} {stream : List Instruction} {root : Option ObjectId} {base : Option ScopeId}

/-- The end of an extension changes no record. -/
theorem Evaluation.records_eq {m m' : Machine (Watched σ)} (e : services.Evaluation m m') :
    e.place.context.ambient.records = m.world.context.ambient.records := by
  have hbegins : m.world.SameRecords e.begun :=
    (services.watched.objectOf_sameRecords m e.top).of_ok e.begins
  have hends : e.begun.SameRecords e.ended :=
    (services.watched.complete_sameRecords _ _ _ _).of_ok e.ends
  have hsame : m.world.SameRecords e.ended := Trans.trans hbegins hends
  rw [e.shown]
  exact congrArg Ambient.records hsame

/-- The first `n` instructions record the members that end among them, outside deferred members. -/
theorem take_records {w : World (Watched σ)} {n : Nat} {m : Machine (Watched σ)}
    (h : services.watched.steps (stream.take n) (blank w root base) = .ok () m) :
    ∃ added, m.world.context.ambient.records = w.context.ambient.records ++ added ∧
      List.Forall₂ (services.watched.RecordOf stream (blank w root base))
        (spans [] (carriedOut services.isRecorded 0 (stream.take n).zipIdx)) added ∧
      (spans [] (carriedOut services.isRecorded 0 (stream.take n).zipIdx)).map (·.stop) =
        memberEnds (carriedOut services.isRecorded 0 (stream.take n).zipIdx) := by
  have hnil : services.watched.steps [] (blank w root base) = .ok () (blank w root base) := rfl
  obtain ⟨added, hadded, hrecords, hstops, -⟩ :=
    steps_records (.blank w root base) hnil h .nil
  rw [isRecorded_watched] at hrecords hstops
  refine ⟨added, hadded, hrecords.imp fun s r hr => ⟨hr.1, ?_⟩, hstops⟩
  rw [← List.take_append_drop n stream]
  exact hr.2.append (stream.drop n)

/-- The calls of the first `n` instructions are matched by the ends of extensions among them. -/
theorem steps_take_asked {w : World (Watched σ)} {n : Nat} (hn : n ≤ stream.length)
    {m : Machine (Watched σ)}
    (h : services.watched.steps (stream.take n) (blank w root base) = .ok () m) :
    ∃ xs, asked m.world.heap.calls = asked w.heap.calls ++ xs ∧
      List.Forall₂ (services.EvaluatedAt stream (blank w root base))
        ((List.range n).filter (services.watched.endsExtensionAt stream (blank w root base)))
        xs := by
  have h₀ : (blank w root base).Sound services.settings.maxDepth := .blank w root base
  induction n generalizing m with
  | zero =>
    cases h
    exact ⟨[], by simp [blank], .nil⟩
  | succ n ih =>
    obtain ⟨i, hi⟩ : ∃ i, stream[n]? = some i := ⟨stream[n], List.getElem?_eq_getElem hn⟩
    have hmore : stream.take (n + 1) = stream.take n ++ [i] := by
      rw [List.take_add_one, hi]
      rfl
    have hall := h
    rw [hmore] at h
    obtain ⟨m₁, hpre, hstep⟩ := services.watched.steps_concat_eq_ok h
    obtain ⟨xs, hxs, hmatch⟩ := ih (Nat.le_of_lt hn) hpre
    have hm₁ : m₁.Sound services.settings.maxDepth := steps_sound h₀ hpre
    have hdoes : services.watched.Does m₁ i m := step_does hm₁ hstep
    have hat : services.watched.endsExtensionAt stream (blank w root base) n =
        m₁.endsExtension services.schema i := by
      rw [endsExtensionAt, hpre, hi]
      rfl
    rw [List.range_succ, List.filter_append]
    cases hends : m₁.endsExtension services.schema i with
    | false =>
      have hload : services.watched.Registered m₁ :=
        services.watched.steps_invariant (fun _ hdoes hload => hdoes.registered hload) h₀ hpre
          (registered_of_idle rfl)
      refine ⟨xs, (hdoes.unasked hload hends).asked_eq.trans hxs, ?_⟩
      rw [List.filter_singleton, hat, hends, cond_false, List.append_nil]
      exact hmatch
    | true =>
      obtain ⟨rfl, ⟨e⟩⟩ := hdoes.evaluation hm₁ hends
      have htimely : e.Timely := e.timely hm₁
        (services.watched.steps_invariant
          (fun hm hdoes hchain => (hdoes.shifts hm).inherits hchain) h₀ hpre .nil)
        (services.watched.steps_invariant (fun hm hdoes htaken => hdoes.taken hm htaken) h₀ hpre
          .nil)
      obtain ⟨added, hadded, hrecords, hstops⟩ := take_records hpre
      refine ⟨xs ++ [(e.site.object, e.place)], ?_, ?_⟩
      · rw [e.asked_eq htimely, hxs, List.append_assoc]
      · rw [List.filter_singleton, hat, hends, cond_true]
        refine List.rel_append hmatch (.cons ?_ .nil)
        exact ⟨m₁, m, e, hi, hpre, hall, rfl, htimely, added, e.records_eq.trans hadded, hrecords,
          hstops⟩

/-- Where extensions end does not depend on whether the services are watched. -/
theorem extensionEnds_watched (services : Services σ) (stream : List Instruction) (m : Machine σ)
    (calls : List Call) :
    services.watched.extensionEnds stream (m.watch calls) = services.extensionEnds stream m := by
  have hat : services.watched.endsExtensionAt stream (m.watch calls) =
      services.endsExtensionAt stream m := by
    funext n
    obtain ⟨more, hsteps⟩ := services.steps_watched (stream.take n) m calls
    rw [endsExtensionAt, endsExtensionAt, hsteps]
    cases services.steps (stream.take n) m with
    | error e m₁ => rfl
    | ok _ m₁ =>
      cases stream[n]? with
      | none => rfl
      | some i => exact m₁.endsExtension_watch services.schema (calls ++ more) i
  rw [extensionEnds, extensionEnds, hat]

/-- In a run without failures each object of an extension type that ends inside another object is
asked once for its value, and no other object is.  It is asked after its members, its stages and its
name, and is shown the object and the member that receive the value, the scope that it sees and what
was committed before.  The object around it receives the value that it provides, and not itself. -/
theorem steps_evaluates {w : World σ} {m' : Machine σ}
    (h : services.steps stream (blank w root base) = .ok () m') :
    ∃ calls, services.watched.steps stream (blank (w.watch []) root base) =
        .ok () (m'.watch calls) ∧
      List.Forall₂ (services.EvaluatedAt stream (blank (w.watch []) root base))
        (services.extensionEnds stream (blank w root base)) (asked calls) := by
  obtain ⟨calls, hsteps⟩ := services.steps_watched stream (blank w root base) []
  rw [h] at hsteps
  have hwatched : services.watched.steps stream (blank (w.watch []) root base) =
      .ok () (m'.watch calls) := hsteps
  have hall : services.watched.steps (stream.take stream.length) (blank (w.watch []) root base) =
      .ok () (m'.watch calls) := by rwa [List.take_length]
  obtain ⟨xs, hxs, hmatch⟩ := steps_take_asked (Nat.le_refl stream.length) hall
  obtain rfl : asked calls = xs := hxs
  refine ⟨calls, hwatched, ?_⟩
  rw [← services.extensionEnds_watched stream _ []]
  exact hmatch

end Services

/-- The title of a window comes from an extension, and another one, which looks the title up, stands
among the items of a control that is entered in the window. -/
def Widget.titleAmongItems : List Instruction :=
  [.startObject { type := "Window" },
    .startMember (stringMember "Window" "Title"), .startObject { type := "SimpleExtension" },
    .startMember (stringMember "SimpleExtension" "Property"), .value "Home", .endMember,
    .endObject, .endMember,
    .startMember (contentMember "Window"), .startObject { type := "ItemsControl" },
    .startMember { owner := "ItemsControl", name := "Items", collection := true }, .getObject,
    .startMember (Member.items "ItemCollection"), .startObject { type := "AmbientLookup" },
    .startMember (stringMember "AmbientLookup" "Member"), .value "Title", .endMember,
    .endObject, .endMember, .endObject, .endMember, .endObject, .endMember, .endObject]

namespace Services

/-- The first value goes to the window, the second to the items that were entered. -/
theorem steps_evaluates_titleAmongItems :
    ∃ m calls, (Widget.catalogue.services Heap.host {}).steps Widget.titleAmongItems
        (blank { heap := {} } none none) = .ok () m ∧
      (asked calls).map (fun x => (x.1, x.2.target)) = [(⟨1⟩, some ⟨0⟩), (⟨4⟩, some ⟨2⟩)] ∧
      List.Forall₂ ((Widget.catalogue.services Heap.host {}).EvaluatedAt Widget.titleAmongItems
        (blank { heap := ⟨{}, []⟩ } none none)) [6, 17] (asked calls) := by
  have hok : (success? ((Widget.catalogue.services Heap.host {}).steps Widget.titleAmongItems
      (blank { heap := {} } none none))).any (fun _ => true) = true := by decide +kernel
  have hasked : (success? ((Widget.catalogue.services Heap.host {}).watched.steps
      Widget.titleAmongItems (blank (World.watch [] { heap := {} }) none none))).any (fun m =>
        decide ((asked m.world.heap.calls).map (fun x => (x.1, x.2.target)) =
          [(⟨1⟩, some ⟨0⟩), (⟨4⟩, some ⟨2⟩)])) = true := by decide +kernel
  have hends : (Widget.catalogue.services Heap.host {}).extensionEnds Widget.titleAmongItems
      (blank { heap := {} } none none) = [6, 17] := by decide +kernel
  obtain ⟨m, hsteps, -⟩ := of_success? hok
  obtain ⟨calls, hwatched, hmatch⟩ := steps_evaluates hsteps
  rw [hends] at hmatch
  rw [hwatched] at hasked
  exact ⟨m, calls, hsteps, of_decide_eq_true hasked, hmatch⟩

end Services
end ObjectMarkup
