/-
The objects that runs make.

Watched services note what each constructor made, so that the objects of a run can be told one by
one (`Services.made`).  Where constructors make objects that were not there, no run makes an object
that was there before it, and none makes an object twice; the object that a run ends with is one of
those it made.  Runs in a row therefore make different objects (`madeAll_nodup`), which is how
instructions that are carried out again come to build something of its own each time.
-/
import ObjectMarkup.Proofs.Apart
import ObjectMarkup.Proofs.Calls

namespace ObjectMarkup

open ObjectMarkup.Action (Leaves endState)

variable {σ : Type}

/-! ## The heap along a run -/

/-- The heaps of two worlds are in a relation. -/
def World.HeapsIn (S : σ → σ → Prop) (w w' : World σ) : Prop := S w.heap w'.heap

section

variable {S : σ → σ → Prop}

instance [Std.Refl S] : Std.Refl (World.HeapsIn S) := ⟨fun w => Std.Refl.refl w.heap⟩

instance [Trans S S S] : Trans (World.HeapsIn S) (World.HeapsIn S) (World.HeapsIn S) :=
  ⟨fun h h' => Trans.trans (r := S) h h'⟩

theorem World.heapsIn_admits [Std.Refl S] : World.Admits S (World.HeapsIn S) :=
  ⟨fun _ _ h => h, fun w _ => Std.Refl.refl w.heap⟩

end

theorem Machine.result_of_finish {m : Machine σ} {id : ObjectId} (h : m.finish = .ok id) :
    m.result = some id := by
  by_cases hopen : 0 < m.level + if m.isRecording then 1 else 0
  · simp [finish, hopen] at h
  · simp only [finish, if_neg hopen] at h
    split at h
    · next hresult =>
      cases h
      exact hresult
    · cases h

theorem Machine.finish_watch (m : Machine σ) (calls : List Call) :
    (m.watch calls).finish = m.finish := by
  obtain ⟨world, stack, closed, supplied, base, result, recording⟩ := m
  cases recording <;> rfl

namespace Services

open Machine (blank)

variable {services : Services σ} {S : σ → σ → Prop} {P : σ → ObjectId → Prop}
  {m m' : Machine σ} {top : Frame} {rest : List Frame} {i : Instruction}

/-- The objects that the machine has made itself have a property, and so has the object it ended
with.  What is recorded is for the loader of its member. -/
structure Owns (services : Services σ) (P : σ → ObjectId → Prop) (m : Machine σ) : Prop where
  supplied : m.supplied = none
  sites : ∀ f ∈ m.stack, f.isPlaceholder = false → ∀ site, f.site = some site →
    P m.world.heap site.object
  result : ∀ id, m.result = some id → P m.world.heap id
  loader : ∀ r, m.recording = some r → services.loaders.find? r.member = some r.loader

namespace Owns

theorem inWorld (h : services.Owns P m) {w : World σ} (hw : Stays P m.world.heap w.heap) :
    services.Owns P (m.inWorld w) :=
  { h with
    sites := fun f hf hp site hsite => hw _ (h.sites f hf hp site hsite)
    result := fun id hid => hw _ (h.result id hid) }

theorem mapTop (h : services.Owns P m) {f : Frame → Frame}
    (hplaceholder : ∀ g : Frame, (f g).isPlaceholder = g.isPlaceholder)
    (hsite : ∀ g ∈ m.stack, g.isPlaceholder = false → ∀ site, (f g).site = some site →
      g.site = some site ∨ P m.world.heap site.object) : services.Owns P (m.mapTop f) := by
  obtain ⟨world, stack, closed, supplied, base, result, recording⟩ := m
  cases stack with
  | nil => exact h
  | cons top rest =>
    refine { h with sites := fun g hg hp site hs => ?_ }
    rcases List.mem_cons.1 hg with rfl | hg
    · rw [hplaceholder] at hp
      exact (hsite top List.mem_cons_self hp site hs).elim
        (h.sites top List.mem_cons_self hp site) id
    · exact h.sites g (List.mem_cons_of_mem top hg) hp site hs

theorem openObject (h : services.Owns P m) {frame : Frame}
    (hframe : frame.isPlaceholder = true ∨ frame.site = none) :
    services.Owns P (m.openObject frame) := by
  refine { h with sites := fun g hg hp site hsite => ?_ }
  rcases List.mem_cons.1 hg with rfl | hg
  · exact absurd hframe (by simp [hp, hsite])
  · exact h.sites g hg hp site hsite

theorem close (h : services.Owns P m) : services.Owns P m.close :=
  { h with sites := fun g hg => h.sites g (List.mem_of_mem_tail hg) }

theorem withRecording (h : services.Owns P m) {r : Option (Recording σ)}
    (hr : ∀ r', r = some r' → services.loaders.find? r'.member = some r'.loader) :
    services.Owns P (m.withRecording r) :=
  { h with loader := hr }

theorem setSite (h : services.Owns P m) {site : Site} (hs : m.stack = top :: rest)
    (hsite : top.isPlaceholder = false → P m.world.heap site.object) :
    services.Owns P (m.setSite site) := by
  obtain ⟨world, stack, closed, supplied, base, result, recording⟩ := m
  obtain rfl : stack = top :: rest := hs
  refine { h with sites := fun g hg hp site' hset => ?_ }
  rcases List.mem_cons.1 hg with rfl | hg
  · obtain rfl : site = site' := Option.some.inj hset
    exact hsite hp
  · exact h.sites g (List.mem_cons_of_mem top hg) hp site' hset

theorem openMember (h : services.Owns P m) {member : Member} {loader : Option (Loader σ)}
    (hloader : services.loaderOf member = .ok loader) :
    services.Owns P (m.openMember member loader) := by
  have hopen : services.Owns P (m.mapTop (Frame.openMember member)) :=
    h.mapTop (fun _ => rfl) fun _ _ _ _ => .inl
  cases loader with
  | none => exact hopen
  | some loader =>
    refine hopen.withRecording (r := some { member, loader }) fun r hr => ?_
    obtain rfl := Option.some.inj hr
    exact services.loaderOf_ok hloader

theorem retrieve (h : services.Owns P m) (v : Value) : services.Owns P (m.retrieve v) :=
  h.mapTop (fun _ => rfl) fun _ _ _ _ => .inl

theorem push (h : services.Owns P m) (v : Value) : services.Owns P (m.push v) :=
  h.mapTop (fun _ => rfl) fun _ _ _ _ => .inl

theorem closeMember (h : services.Owns P m) : services.Owns P m.closeMember :=
  h.mapTop (fun _ => rfl) fun _ _ _ _ => .inl

end Owns

variable (services) in
theorem materialize_eq_steps (stream : List Instruction) (w : World σ) :
    services.materialize stream w = match services.steps stream (materializer w) with
      | .error e m => .error e m.world
      | .ok _ m => match m.finish with
        | .ok id => .ok id m.world
        | .error e => .error e m.world :=
  services.run_eq_steps stream none _ _

variable (services) in
/-- What is materialized is the result of the machine. -/
theorem materialize_ok {stream : List Instruction} {w w' : World σ} {id : ObjectId}
    (h : services.materialize stream w = .ok id w') :
    ∃ m, services.steps stream (materializer w) = .ok () m ∧ m.result = some id ∧ m.world = w' := by
  rw [materialize_eq_steps] at h
  cases hsteps : services.steps stream (materializer w) with
  | error e m => simp [hsteps] at h
  | ok _ m =>
    rw [hsteps] at h
    cases hfinish : m.finish with
    | error e => simp [hfinish] at h
    | ok id' =>
      simp only [hfinish, EStateM.Result.ok.injEq] at h
      obtain ⟨rfl, rfl⟩ := h
      exact ⟨m, rfl, Machine.result_of_finish hfinish, rfl⟩

section

variable [Std.Refl S] [Trans S S S] (hS : services.CallsLeave S)

include hS

theorem make_heaps (around : Option ScopeId) (type : TypeName) (arguments : List String) :
    Leaves (World.HeapsIn S) (services.make around type arguments) :=
  make_leaves hS World.heapsIn_admits fun _ _ _ _ _ h => h

theorem objectOf_heaps (m : Machine σ) (top : Frame) :
    Leaves (World.HeapsIn S) (services.objectOf m top) := by
  rw [objectOf]
  split
  · exact .pure _
  · exact make_heaps hS _ _ _

theorem complete_heaps (type : TypeName) (name : Option String) (site : Site)
    (outside : Option (Option ScopeId)) :
    Leaves (World.HeapsIn S) (services.complete type name site outside) :=
  complete_leaves hS World.heapsIn_admits fun w _ _ _ _ _ _ => Std.Refl.refl w.heap

theorem valueOf_heaps (type : TypeName) (site : Site) (target root : Option ObjectId)
    (member : Option Member) :
    Leaves (World.HeapsIn S) (services.valueOf type site target root member) :=
  valueOf_leaves hS World.heapsIn_admits type site target root member

theorem commit_heaps (target : ObjectId) (collects : Bool) (m : Member) (vs : List Value)
    (retrieved : Option Value) :
    Leaves (World.HeapsIn S) (services.commit target collects m vs retrieved) :=
  commit_leaves hS World.heapsIn_admits (fun w _ => Std.Refl.refl w.heap) target collects m vs
    retrieved

omit [Trans S S S] in
theorem load_heaps {member : Member} {loader : Loader σ}
    (hloader : services.loaders.find? member = some loader) (stream : List Instruction) :
    Leaves (World.HeapsIn S) (Build.onHeap .deferred (loader member stream)) :=
  Build.onHeap_leaves World.heapsIn_admits _ (hS.loader member loader hloader stream)

variable (hstays : ∀ heap heap', S heap heap' → Stays P heap heap')
variable (hmade : ∀ type arguments heap id heap',
  services.activate type arguments heap = .ok id heap' → P heap' id)

include hstays hmade

theorem make_owned {around : Option ScopeId} {type : TypeName} {arguments : List String}
    {w w' : World σ} {site : Site} (h : services.make around type arguments w = .ok site w') :
    P w'.heap site.object := by
  rw [make_eq] at h
  obtain ⟨id, w₁, hconstruct, hadopt⟩ := (Action.bind_eq_ok w).1 h
  obtain ⟨rfl, collects, rfl⟩ := services.adopt_ok hadopt
  show P w₁.heap id
  obtain ⟨id', w₂, hactivate, h⟩ := (Action.bind_eq_ok w).1 hconstruct
  have hnew : P w₂.heap id' := by
    rw [Build.onHeap] at hactivate
    split at hactivate
    · next heap hheap =>
      cases hactivate
      exact hmade type arguments w.heap _ heap hheap
    · cases hactivate
  split at h
  · obtain ⟨listens, w₃, hbegin, h⟩ := (Action.bind_eq_ok w₂).1 h
    have hbegun : Stays P w₂.heap w₃.heap := by
      have hworld : (services.notifyBegin id' w₂).2 = w₃ := (EStateM.Result.ok.inj hbegin).2
      exact hstays _ _ (hworld ▸ notifyBegin_leaves hS (World.heapsIn_admits (S := S)) id' w₂)
    cases listens with
    | true =>
      cases h
      exact hbegun _ hnew
    | false => cases h
  · cases h
    exact hnew

theorem Owns.objectOf (h : services.Owns P m) {site : Site} {w : World σ}
    (hs : m.stack = top :: rest) (hobject : services.objectOf m top m.world = .ok site w)
    (hp : top.isPlaceholder = false) : P w.heap site.object := by
  rw [Services.objectOf] at hobject
  cases hsite : top.site with
  | some found =>
    rw [hsite] at hobject
    cases hobject
    exact h.sites top (by simp [hs]) hp site hsite
  | none =>
    rw [hsite] at hobject
    exact make_owned hS hstays hmade hobject

/-- An instruction makes its calls, and the machine owns what it made. -/
theorem Does.owns (h : services.Owns P m) (hdoes : services.Does m i m') :
    services.Owns P m' ∧ m.world.HeapsIn S m'.world := by
  have same : m.world.HeapsIn S m.world := Std.Refl.refl _
  have kept : ∀ {w w' : World σ}, w.HeapsIn S w' → Stays P w.heap w'.heap := fun hw =>
    hstays _ _ hw
  cases hdoes with
  | startObject _ _ _ _ => exact ⟨h.openObject (.inr rfl), same⟩
  | startSupplied _ _ _ hsupplied _ _ => simp [h.supplied] at hsupplied
  | getObject _ _ _ _ _ _ =>
    refine ⟨(h.retrieve _).openObject (.inl rfl), ?_⟩
    simpa [Machine.retrieve] using same
  | @startMember top rest site w member loader _ hs _ hobject hloader =>
    have hw := (objectOf_heaps hS m top).of_ok hobject
    have hset := (h.inWorld (kept hw)).setSite hs fun hp => h.objectOf hS hstays hmade hs hobject hp
    rw [Machine.inWorld_setSite] at hset
    exact ⟨hset.openMember hloader, by simpa using hw⟩
  | @value top rest member s v w _ _ _ hread =>
    obtain ⟨-, rfl⟩ := Build.ofExcept_eq_ok hread
    exact ⟨(h.push v).inWorld (kept (by simpa [Machine.push] using same)), same⟩
  | endMember _ _ _ _ hcommit =>
    have hw := (commit_heaps hS _ _ _ _ _).of_ok hcommit
    exact ⟨h.closeMember.inWorld (kept (by simpa [Machine.closeMember] using hw)), hw⟩
  | leave _ _ _ _ => exact ⟨h.close, same⟩
  | @endInner top parent rest site v w w' w'' _ hs _ _ hobject hcomplete hvalue =>
    have hw := Trans.trans (Trans.trans ((objectOf_heaps hS m top).of_ok hobject)
      ((complete_heaps hS _ _ _ _).of_ok hcomplete)) ((valueOf_heaps hS _ _ _ _ _).of_ok hvalue)
    exact ⟨(h.close.push v).inWorld (kept (by simpa [Machine.push] using hw)), hw⟩
  | @endRoot top site w w' _ hs _ hp hobject hcomplete =>
    have hended := (complete_heaps hS _ _ _ _).of_ok hcomplete
    have hw := Trans.trans ((objectOf_heaps hS m top).of_ok hobject) hended
    have howned := h.objectOf hS hstays hmade hs hobject hp
    refine ⟨{ h.close.inWorld (kept hw) with result := fun id hid => ?_ }, hw⟩
    obtain rfl : site.object = id := Option.some.inj hid
    exact kept hended _ howned
  | @record r i hr _ =>
    refine ⟨h.withRecording fun r' hr' => ?_, same⟩
    obtain rfl := Option.some.inj hr'
    exact h.loader r hr
  | @handOver r top rest site v w w' hr _ _ _ hload hcommit =>
    have hw := Trans.trans ((load_heaps hS (h.loader r hr) _).of_ok hload)
      ((commit_heaps hS _ _ _ _ _).of_ok hcommit)
    exact ⟨(h.withRecording fun r' hr' => by cases hr').closeMember.inWorld
      (kept (by simpa [Machine.closeMember] using hw)), hw⟩

omit hstays hmade in
theorem Fails.heaps (h : services.Owns P m) {w : World σ} (hfails : services.Fails m i w) :
    m.world.HeapsIn S w := by
  have made : ∀ top, Leaves (World.HeapsIn S) (services.objectOf m top) := objectOf_heaps hS m
  cases hfails with
  | refused => exact Std.Refl.refl _
  | adopt _ _ hsupplied _ => simp [h.supplied] at hsupplied
  | object _ _ hobject => exact (made _).of_error hobject
  | loader _ _ hobject => exact (made _).of_ok hobject
  | commit _ _ _ hcommit => exact (commit_heaps hS _ _ _ _ _).of_error hcommit
  | complete _ _ hobject hcomplete =>
    exact Trans.trans ((made _).of_ok hobject) ((complete_heaps hS _ _ _ _).of_error hcomplete)
  | valueOf _ _ hobject hcomplete hvalue =>
    exact Trans.trans (Trans.trans ((made _).of_ok hobject)
      ((complete_heaps hS _ _ _ _).of_ok hcomplete)) ((valueOf_heaps hS _ _ _ _ _).of_error hvalue)
  | load hr _ hload => exact (load_heaps hS (h.loader _ hr) _).of_error hload
  | handOver hr _ _ _ hload hcommit =>
    exact Trans.trans ((load_heaps hS (h.loader _ hr) _).of_ok hload)
      ((commit_heaps hS _ _ _ _ _).of_error hcommit)

/-- A stream makes its calls, however far it is carried out. -/
theorem steps_owns (stream : List Instruction) :
    ∀ {m : Machine σ}, m.Sound services.settings.maxDepth → services.Owns P m →
      m.world.HeapsIn S (endState (services.steps stream m)).world ∧
        ∀ m', services.steps stream m = .ok () m' → services.Owns P m' := by
  induction stream with
  | nil =>
    refine fun _ h => ⟨Std.Refl.refl _, fun m' hm' => ?_⟩
    cases hm'
    exact h
  | cons i is ih =>
    intro m hm h
    rw [steps_cons]
    cases hstep : services.step i m with
    | error e m₁ =>
      exact ⟨(step_fails hm hstep).heaps hS h, fun m' hm' => by cases hm'⟩
    | ok _ m₁ =>
      have hdoes := step_does hm hstep
      obtain ⟨howns, hw⟩ := hdoes.owns hS hstays hmade h
      obtain ⟨hrest, howned⟩ := ih (hdoes.sound hm) howns
      exact ⟨Trans.trans hw hrest, howned⟩

/-- A run in a scope of its own makes its calls, and ends with an object it owns. -/
theorem materialize_owns (stream : List Instruction) (w : World σ) :
    w.HeapsIn S (endState (services.materialize stream w)) ∧
      ∀ id w', services.materialize stream w = .ok id w' → P w'.heap id := by
  have hblank : services.Owns P (materializer w) := {
    supplied := rfl
    sites := fun f hf => by cases hf
    result := fun id hid => by cases hid
    loader := fun r hr => by cases hr }
  obtain ⟨hheap, howns⟩ := steps_owns hS hstays hmade stream (.blank _ _ _) hblank
  refine ⟨?_, fun id w' h => ?_⟩
  · rw [materialize_eq, endState_run]
    exact hheap
  · obtain ⟨m, hsteps, hresult, rfl⟩ := services.materialize_ok h
    exact (howns m hsteps).result id hresult

end

/-! ## Watched runs -/

section

variable (services)

/-- Watched services carry a stream out as the services do. -/
theorem steps_watched (stream : List Instruction) : ∀ (m : Machine σ) (calls : List Call),
    ∃ more, services.watched.steps stream (m.watch calls) =
      watchOutcome (calls ++ more) (services.steps stream m) := by
  induction stream with
  | nil => exact fun m calls => ⟨[], by rw [List.append_nil]; rfl⟩
  | cons i is ih =>
    intro m calls
    obtain ⟨more, hstep, -⟩ := services.step_watched m i calls
    rw [steps_cons, steps_cons, hstep]
    cases services.step i m with
    | error e m₁ => exact ⟨more, rfl⟩
    | ok _ m₁ =>
      obtain ⟨others, hsteps⟩ := ih m₁ (calls ++ more)
      exact ⟨more ++ others, by rw [← List.append_assoc]; exact hsteps⟩

/-- Watched services run a stream as the services do. -/
theorem run_watched (stream : List Instruction) (root : Option ObjectId) (base : Option ScopeId)
    (w : World σ) (calls : List Call) :
    ∃ more, services.watched.run stream root base (w.watch calls) =
      match services.run stream root base w with
      | .ok id w' => .ok id (w'.watch (calls ++ more))
      | .error e w' => .error e (w'.watch (calls ++ more)) := by
  obtain ⟨more, hsteps⟩ := services.steps_watched stream (blank w root base) calls
  have hstart : (blank w root base).watch calls = blank (w.watch calls) root base := rfl
  refine ⟨more, ?_⟩
  rw [run_eq_steps, run_eq_steps, ← hstart, hsteps]
  cases services.steps stream (blank w root base) with
  | error e m => rfl
  | ok _ m =>
    simp only [watchOutcome, Machine.finish_watch]
    cases m.finish <;> rfl

theorem materialize_watched (stream : List Instruction) (w : World σ) (calls : List Call) :
    ∃ more, services.watched.materialize stream (w.watch calls) =
      match services.materialize stream w with
      | .ok id w' => .ok id (w'.watch (calls ++ more))
      | .error e w' => .error e (w'.watch (calls ++ more)) :=
  services.run_watched stream none (some (w.context.scopes.create none none).1)
    (w.setScopes (w.context.scopes.create none none).2) calls

end

/-! ## What is made -/

open Watched (note noteUpdate noteMade)

/-- More calls were made, and what constructors made in them is new, no object twice. -/
structure MakesMore (there : σ → ObjectId → Prop) (h h' : Watched σ) : Prop where
  stays : Stays there h.heap h'.heap
  more : ∃ more, h'.calls = h.calls ++ more ∧ (objectsMade more).Nodup ∧
    ∀ x ∈ objectsMade more, ¬ there h.heap x ∧ there h'.heap x

variable {there : σ → ObjectId → Prop}

instance : Std.Refl (MakesMore there) :=
  ⟨fun h => ⟨Std.Refl.refl h.heap, [], by simp, List.nodup_nil, fun _ hx => by cases hx⟩⟩

instance : Trans (MakesMore there) (MakesMore there) (MakesMore there) where
  trans := by
    rintro h h' h'' ⟨hstays, more, hmore, hnodup, hnew⟩ ⟨hstays', others, hothers, hnodup', hnew'⟩
    refine ⟨Trans.trans hstays hstays', more ++ others, by rw [hothers, hmore, List.append_assoc],
      ?_, fun x hx => ?_⟩
    · rw [objectsMade, List.filterMap_append]
      refine List.nodup_append.2 ⟨hnodup, hnodup', fun x hx y hy hxy => ?_⟩
      exact (hnew' y hy).1 (hxy ▸ (hnew x hx).2)
    · rw [objectsMade, List.filterMap_append] at hx
      rcases List.mem_append.1 hx with hx | hx
      · exact ⟨(hnew x hx).1, hstays' x (hnew x hx).2⟩
      · exact ⟨fun hold => (hnew' x hx).1 (hstays x hold), (hnew' x hx).2⟩

theorem MakesMore.of_stays {h h' : Watched σ} {c : Call} (hc : c.made? = none)
    (hcalls : h'.calls = h.calls ++ [c]) (hstays : Stays there h.heap h'.heap) :
    MakesMore there h h' :=
  ⟨hstays, [c], hcalls, by simp [objectsMade, hc], by simp [objectsMade, hc]⟩

theorem note_leaves {ε α : Type} {c : Call} (hc : c.made? = none) {act : EStateM ε σ α}
    (h : Leaves (Stays there) act) : Leaves (MakesMore there) (note c act) := by
  intro s
  rw [note]
  cases hact : act s.heap with
  | ok a heap => exact .of_stays hc rfl (h.of_ok hact)
  | error e heap => exact .of_stays hc rfl (h.of_error hact)

section

variable (hS : services.CallsLeave (Stays there)) (hnew : services.MakesNew there)

include hS hnew

theorem noteMade_leaves (type : TypeName) (arguments : List String) :
    Leaves (MakesMore there) (noteMade type arguments (services.activate type arguments)) := by
  intro s
  rw [noteMade]
  cases hact : services.activate type arguments s.heap with
  | ok id heap =>
    refine ⟨(hS.activate type arguments).of_ok hact, [.activate type arguments (some id)], rfl,
      by simp [objectsMade, Call.made?], fun x hx => ?_⟩
    obtain rfl : x = id := by simpa [objectsMade, Call.made?] using hx
    exact hnew.activate type arguments s.heap x heap hact
  | error e heap => exact .of_stays rfl rfl ((hS.activate type arguments).of_error hact)

theorem watched_callsLeave : services.watched.CallsLeave (MakesMore there) where
  activate := noteMade_leaves hS hnew
  loader m loader hloader stream := by
    rw [find?_watched] at hloader
    obtain ⟨loader', hfind, rfl⟩ := Option.map_eq_some_iff.1 hloader
    exact note_leaves rfl (hS.loader m loader' hfind stream)
  setMember id m v := note_leaves rfl (hS.setMember id m v)
  setAttached id m v := note_leaves rfl (hS.setAttached id m v)
  append id v := note_leaves rfl (hS.append id v)
  provide id p := note_leaves rfl (hS.provide id p)
  beginInit id h := .of_stays rfl rfl (hS.beginInit id h.heap)
  endInit id h := .of_stays rfl rfl (hS.endInit id h.heap)

end

variable (services)

/-- The objects that constructors make when a stream is materialized, whether the run succeeds or
fails. -/
def made (stream : List Instruction) (w : World σ) : List ObjectId :=
  objectsMade (endState (services.watched.materialize stream (w.watch []))).heap.calls

/-- The objects that are made in runs in a row. -/
def madeAll : List (List Instruction) → World σ → List ObjectId
  | [], _ => []
  | stream :: streams, w =>
    services.made stream w ++ madeAll streams (endState (services.materialize stream w))

variable {services} (hS : services.CallsLeave (Stays there)) (hnew : services.MakesNew there)

include hS hnew

/-- A run makes new objects, none of them twice, and ends with one of them. -/
theorem materialize_makes (stream : List Instruction) (w : World σ) :
    Stays there w.heap (endState (services.materialize stream w)).heap ∧
    (services.made stream w).Nodup ∧
    (∀ x ∈ services.made stream w, ¬ there w.heap x ∧
      there (endState (services.materialize stream w)).heap x) ∧
    ∀ id w', services.materialize stream w = .ok id w' → id ∈ services.made stream w := by
  obtain ⟨⟨hstays, more, hmore, hnodup, hmade⟩, howns⟩ := materialize_owns
    (P := fun h x => x ∈ objectsMade h.calls) (watched_callsLeave hS hnew)
    (fun h h' hmakes x hx => by
      obtain ⟨more, hmore, -⟩ := hmakes.more
      rw [hmore, objectsMade, List.filterMap_append]
      exact List.mem_append_left _ hx)
    (fun type arguments h id h' hactivate => by
      have hactivate : noteMade type arguments (services.activate type arguments) h = .ok id h' :=
        hactivate
      rw [noteMade] at hactivate
      split at hactivate
      · cases hactivate
        simp [objectsMade, Call.made?]
      · cases hactivate)
    stream (w.watch [])
  obtain ⟨calls, hwatched⟩ := services.materialize_watched stream w []
  have hheap : (endState (services.watched.materialize stream (w.watch []))).heap.heap =
      (endState (services.materialize stream w)).heap := by
    rw [hwatched]
    cases services.materialize stream w <;> rfl
  have hcalls : services.made stream w = objectsMade more := congrArg objectsMade hmore
  rw [hheap] at hstays hmade
  refine ⟨hstays, hcalls ▸ hnodup, hcalls ▸ hmade, fun id w' hrun => ?_⟩
  rw [hrun] at hwatched
  have hid := howns id _ hwatched
  have hends : (endState (services.watched.materialize stream (w.watch []))).heap.calls =
      (w'.watch ([] ++ calls)).heap.calls := by
    rw [hwatched]
    rfl
  rw [made, hends]
  exact hid

/-- Runs in a row make objects that were not there before, and none of them twice. -/
theorem madeAll_nodup (streams : List (List Instruction)) : ∀ w : World σ,
    (services.madeAll streams w).Nodup ∧ ∀ x ∈ services.madeAll streams w, ¬ there w.heap x := by
  induction streams with
  | nil => exact fun w => ⟨List.nodup_nil, fun x hx => by cases hx⟩
  | cons stream streams ih =>
    intro w
    obtain ⟨hstays, hnodup, hmade, -⟩ := materialize_makes hS hnew stream w
    obtain ⟨hrest, hlater⟩ := ih (endState (services.materialize stream w))
    refine ⟨List.nodup_append.2 ⟨hnodup, hrest, fun x hx y hy hxy => ?_⟩, fun x hx => ?_⟩
    · exact hlater y hy (hxy ▸ (hmade x hx).2)
    · rcases List.mem_append.1 hx with hx | hx
      · exact (hmade x hx).1
      · exact fun hold => hlater x hx (hstays x hold)

end Services
end ObjectMarkup
