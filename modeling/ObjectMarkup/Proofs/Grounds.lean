/-
What stands below an object, seen from the object.

The frames below an object, and whatever else a machine keeps besides its world, are the ground of
the object (`Ground`).  From inside the object two things of the ground are seen: the scope around
it, and the object that was started first.  Grounds that are alike in these two may be exchanged:
members lead from the same frames to the same frames and worlds on both (`members_beside`), and the
ground stays as it is.  With one ground for both this says that members are local to their object.
-/
import ObjectMarkup.Proofs.Recordings

namespace ObjectMarkup

open Instruction (Balanced)

variable {σ : Type}

namespace Frame

/-- The frame with its object there, or not. -/
def withSite (site : Option Site) (f : Frame) : Frame := { f with site }

/-- The frame whose open member has received more values, and was entered last for `retrieved`. -/
def gather (vs : List Value) (retrieved : Option Value) (f : Frame) : Frame :=
  { f with pending := f.pending ++ vs, retrieved }

theorem gather_nil (f : Frame) : f.gather [] f.retrieved = f := by
  simp [gather]

theorem gather_receive (f : Frame) (v : Value) (vs : List Value) (retrieved : Option Value) :
    (f.receive [v]).gather vs retrieved = f.gather (v :: vs) retrieved := by
  simp [gather, receive]

/-- Nothing is left of a member in the frame after its end. -/
theorem Sound.withSite_eq {f : Frame} (hf : f.Sound) (ht : f.member = none) (site : Site)
    (member : Member) (vs : List Value) (retrieved : Option Value) :
    f.withSite (some site) =
      (((f.setSite site).openMember member).gather vs retrieved).closeMember := by
  have hpending := hf.pending ht
  have hretrieved := hf.retrieved ht
  obtain ⟨type, made, placeholder, opened, pending, taken, name, arguments⟩ := f
  obtain rfl : opened = none := ht
  obtain rfl : pending = [] := hpending
  obtain rfl : taken = none := hretrieved
  rfl

end Frame

/-- What a machine keeps besides its world, its recording and its innermost frames. -/
structure Ground where
  below : List Frame
  rootClosed : Bool := false
  supplied : Option ObjectId := none
  base : Option ScopeId := none
  result : Option ObjectId := none

namespace Ground

/-- The machine with frames on this ground, that records nothing. -/
def machine (g : Ground) (fs : List Frame) (w : World σ) : Machine σ :=
  { world := w, stack := fs ++ g.below, rootClosed := g.rootClosed, supplied := g.supplied,
    base := g.base, result := g.result }

/-- The scope around an object that stands on the ground. -/
def around (g : Ground) : Option ScopeId :=
  match g.below with
  | f :: _ => f.scope
  | [] => g.base

/-- The object that was started first, where no frame stands on the ground, or some do. -/
def root (g : Ground) : Option (Option ObjectId) := g.below.getLast?.map Frame.object

/-- The grounds look the same from above. -/
structure Like (g g' : Ground) : Prop where
  around : g'.around = g.around
  root : g'.root = g.root

theorem Like.refl (g : Ground) : g.Like g := ⟨rfl, rfl⟩

variable {g g' : Ground} {f : Frame} {fs : List Frame} {w : World σ}

@[simp] theorem machine_stack : (g.machine fs w).stack = fs ++ g.below := rfl
@[simp] theorem machine_world : (g.machine fs w).world = w := rfl

/-- An object that stands in another one closes and leaves the other one innermost. -/
theorem machine_close {parent : Frame} {rest : List Frame} (hs : fs ++ g.below = parent :: rest) :
    (g.machine (f :: fs) w).close = g.machine fs w := by
  have hlength : ((f :: fs ++ g.below).length == 1) = false := by
    rw [List.cons_append, hs]
    rfl
  show ({ g.machine fs w with
    rootClosed := g.rootClosed || (f :: fs ++ g.below).length == 1 } : Machine σ) = _
  rw [hlength, Bool.or_false]
  rfl

/-- A machine that records nothing stands on the ground below its innermost frames. -/
theorem machine_of_stack {m : Machine σ} {below : List Frame} (hr : m.recording = none)
    (hs : m.stack = fs ++ below) :
    m = machine ⟨below, m.rootClosed, m.supplied, m.base, m.result⟩ fs m.world := by
  obtain ⟨world, stack, closed, supplied, base, result, recording⟩ := m
  obtain rfl : stack = fs ++ below := hs
  obtain rfl : recording = none := hr
  rfl

namespace Like

variable (h : g.Like g')

include h

theorem machine_around :
    (g'.machine (f :: fs) w).around = (g.machine (f :: fs) w).around := by
  cases fs with
  | cons parent fs => rfl
  | nil =>
    have hof : ∀ k : Ground, (k.machine [f] w).around = k.around := fun k => by
      obtain ⟨below, closed, supplied, base, result⟩ := k
      cases below <;> rfl
    rw [hof, hof, h.around]

theorem machine_root : (g'.machine fs w).root = (g.machine fs w).root := by
  have hof : ∀ k : Ground, (k.machine fs w).root = (k.root.or (fs.getLast?.map Frame.object)).join
      := fun k => by
    rw [Machine.root, machine_stack, List.getLast?_append, Ground.root]
    cases k.below.getLast? <;> cases fs.getLast? <;> rfl
  rw [hof, hof, h.root]

end Like
end Ground

namespace Services

open Ground (machine_of_stack)

variable {services : Services σ}

theorem steps_append_eq_ok {is js : List Instruction} {m m' : Machine σ}
    (h : services.steps (is ++ js) m = .ok () m') :
    ∃ m₁, services.steps is m = .ok () m₁ ∧ services.steps js m₁ = .ok () m' := by
  rw [steps_append] at h
  obtain ⟨_, m₁, his, hjs⟩ := (Action.bind_eq_ok m).1 h
  exact ⟨m₁, his, hjs⟩

theorem steps_cons_eq_ok {i : Instruction} {is : List Instruction} {m m' : Machine σ}
    (h : services.steps (i :: is) m = .ok () m') :
    ∃ m₁, services.step i m = .ok () m₁ ∧ services.steps is m₁ = .ok () m' := by
  obtain ⟨_, m₁, hi, his⟩ := (Action.bind_eq_ok m).1 h
  exact ⟨m₁, hi, his⟩

/-! ## One instruction -/

section

variable {g : Ground} {f top : Frame} {fs rest : List Frame} {w : World σ} {m' : Machine σ}

theorem startMember_of_ok {member : Member}
    (hm : (g.machine (f :: fs) w).Sound services.settings.maxDepth)
    (h : services.step (.startMember member) (g.machine (f :: fs) w) = .ok () m') :
    f.member = none ∧ ∃ site w', services.objectOf (g.machine (f :: fs) w) f w = .ok site w' ∧
      (services.isRecorded member = false →
        m' = g.machine ((f.setSite site).openMember member :: fs) w') ∧
      ∀ loader, services.loaders.find? member = some loader →
        m' = (g.machine ((f.setSite site).openMember member :: fs) w').withRecording
          (some { member, loader }) := by
  cases step_does hm h with
  | @startMember top rest site w' member loader _ hs ht hobject hloader =>
    cases hs
    have hfind := services.loaderOf_ok hloader
    refine ⟨ht, site, w', hobject, fun hnot => ?_, fun loader' hsome => ?_⟩
    · rw [isRecorded, hfind] at hnot
      obtain rfl : loader = none := by simpa using hnot
      rfl
    · obtain rfl : loader = some loader' := hfind.symm.trans hsome
      rfl
  | record hr _ => cases hr

/-- A member that is not recorded starts in a machine that records nothing. -/
theorem opened_of_ok {m m₀ : Machine σ} {member : Member}
    (hm : m.Sound services.settings.maxDepth) (hr : m.recording = none)
    (hrec : services.isRecorded member = false)
    (h : services.step (.startMember member) m = .ok () m₀) :
    ∃ (g : Ground) (f : Frame) (site : Site) (w : World σ),
      services.objectOf m f m.world = .ok site w ∧
      m₀ = g.machine [(f.setSite site).openMember member] w := by
  obtain ⟨top, rest, hs⟩ : ∃ top rest, m.stack = top :: rest := by
    cases step_does hm h with
    | startMember _ hs _ _ _ => exact ⟨_, _, hs⟩
    | record hsome _ => simp [hr] at hsome
  have hground : m = Ground.machine ⟨rest, m.rootClosed, m.supplied, m.base, m.result⟩ [top]
      m.world := machine_of_stack hr hs
  have hobject : services.objectOf m top = services.objectOf (Ground.machine
      ⟨rest, m.rootClosed, m.supplied, m.base, m.result⟩ [top] m.world) top :=
    congrArg (services.objectOf · top) hground
  rw [hground] at hm h
  obtain ⟨-, site, w, hmade, hopened, -⟩ := startMember_of_ok hm h
  exact ⟨_, top, site, w, (congrFun hobject _).trans hmade, hopened hrec⟩

theorem value_of_ok {s : String} (hm : (g.machine (f :: fs) w).Sound services.settings.maxDepth)
    (h : services.step (.value s) (g.machine (f :: fs) w) = .ok () m') :
    ∃ member v, f.member = some member ∧
      services.readLiteral (g.machine (f :: fs) w).root member s w = .ok v w ∧
      m' = g.machine (f.receive [v] :: fs) w := by
  cases step_does hm h with
  | @value top rest member s v w' _ hs ht hread =>
    cases hs
    obtain ⟨-, rfl⟩ := Build.ofExcept_eq_ok hread
    exact ⟨member, v, ht, hread, rfl⟩
  | record hr _ => cases hr

theorem endMember_of_ok (hm : (g.machine (f :: fs) w).Sound services.settings.maxDepth)
    (h : services.step .endMember (g.machine (f :: fs) w) = .ok () m') :
    ∃ member site w', f.member = some member ∧ f.site = some site ∧
      services.commit site.object site.collects member f.pending f.retrieved w = .ok () w' ∧
      m' = g.machine (f.closeMember :: fs) w' := by
  cases step_does hm h with
  | @endMember top rest member site w' _ hs ht hsite hcommit =>
    cases hs
    exact ⟨member, site, w', ht, hsite, hcommit, rfl⟩
  | record hr _ => cases hr
  | handOver hr _ _ _ _ _ => cases hr

/-- An object starts in another one. -/
theorem startObject_of_ok {start : ObjectStart}
    (hm : (g.machine fs w).Sound services.settings.maxDepth)
    (hs : (g.machine fs w).stack = top :: rest)
    (h : services.step (.startObject start) (g.machine fs w) = .ok () m') :
    m' = g.machine (startFrame start :: fs) w := by
  cases step_does hm h with
  | startObject _ _ _ _ => rfl
  | startSupplied _ hempty _ _ _ _ => rw [hs] at hempty; cases hempty
  | record hr _ => cases hr

theorem getObject_of_ok (hm : (g.machine (f :: fs) w).Sound services.settings.maxDepth)
    (h : services.step .getObject (g.machine (f :: fs) w) = .ok () m') :
    ∃ member site target, f.member = some member ∧ f.site = some site ∧
      services.host.getMember w.heap site.object member = some (.object target) ∧
      m' = g.machine (services.placeholder w.heap site target :: f.retrieve (.object target) :: fs)
        w := by
  cases step_does hm h with
  | @getObject top rest member site target _ hs ht hsite htarget _ =>
    cases hs
    exact ⟨member, site, target, ht, hsite, htarget, rfl⟩
  | record hr _ => cases hr

/-- A placeholder ends. -/
theorem leave_of_ok (hm : (g.machine (f :: fs) w).Sound services.settings.maxDepth)
    (hp : f.isPlaceholder = true) (hs : fs ++ g.below = top :: rest)
    (h : services.step .endObject (g.machine (f :: fs) w) = .ok () m') :
    m' = g.machine fs w := by
  cases step_does hm h with
  | leave _ _ _ _ => exact Ground.machine_close hs
  | endInner _ hs' _ hp' _ _ _ =>
    obtain rfl := (List.cons.inj hs').1
    simp [hp] at hp'
  | endRoot _ hs' _ hp' _ _ =>
    obtain rfl := (List.cons.inj hs').1
    simp [hp] at hp'
  | record hr _ => cases hr

/-- An object ends that was made here, in another one. -/
theorem endInner_of_ok {parent : Frame}
    (hm : (g.machine (f :: fs) w).Sound services.settings.maxDepth)
    (hp : f.isPlaceholder = false) (hs : fs ++ g.below = parent :: rest)
    (h : services.step .endObject (g.machine (f :: fs) w) = .ok () m') :
    ∃ site v w₁ w₂ w₃, services.objectOf (g.machine (f :: fs) w) f w = .ok site w₁ ∧
      services.complete f.type f.name site (some parent.scope) w₁ = .ok () w₂ ∧
      services.valueOf f.type site parent.object (g.machine (f :: fs) w).root parent.member w₂ =
        .ok v w₃ ∧
      m' = (g.machine fs w₃).push v := by
  cases step_does hm h with
  | leave _ hs' _ hp' =>
    obtain rfl := (List.cons.inj hs').1
    simp [hp] at hp'
  | @endInner top' parent' rest' site v w₁ w₂ w₃ _ hs' _ _ hobject hcomplete hvalue =>
    have hstack : f :: fs ++ g.below = top' :: parent' :: rest' := hs'
    rw [List.cons_append, hs] at hstack
    cases hstack
    refine ⟨site, v, w₁, w₂, w₃, hobject, hcomplete, hvalue, ?_⟩
    rw [Ground.machine_close hs, ← Machine.inWorld_push]
    rfl
  | endRoot _ hs' _ _ _ _ =>
    have hstack : f :: fs ++ g.below = [_] := hs'
    rw [List.cons_append, hs] at hstack
    cases hstack
  | record hr _ => cases hr

/-- A deferred member starts, takes its contents in, and ends. -/
theorem deferred_of_ok {member : Member} {loader : Loader σ} {body : List Instruction}
    (hm : (g.machine (f :: fs) w).Sound services.settings.maxDepth)
    (hfind : services.loaders.find? member = some loader) (hbody : Balanced body)
    (h : services.steps (.startMember member :: (body ++ [.endMember])) (g.machine (f :: fs) w) =
      .ok () m') :
    f.member = none ∧ ∃ site v w₁ w₂ w₃,
      services.objectOf (g.machine (f :: fs) w) f w = .ok site w₁ ∧
      Build.onHeap .deferred (loader member body) w₁ = .ok v w₂ ∧
      services.commit site.object site.collects member [v] none w₂ = .ok () w₃ ∧
      m' = g.machine ((((f.setSite site).openMember member).gather [] none).closeMember :: fs)
        w₃ := by
  obtain ⟨m₁, hstart, hrest⟩ := steps_cons_eq_ok h
  obtain ⟨m₂, htaken, hend⟩ := services.steps_concat_eq_ok hrest
  obtain ⟨ht, site, w₁, hobject, -, hrecorded⟩ := startMember_of_ok hm hstart
  have hm₁ := (step_does hm hstart).sound hm
  have hm₂ := steps_sound hm₁ htaken
  obtain rfl := hrecorded loader hfind
  rw [services.steps_recording _ { member, loader } (depthThrough_balanced hbody Nat.one_pos)]
    at htaken
  cases htaken
  refine ⟨ht, site, ?_⟩
  cases step_does hm₂ hend with
  | endMember hr _ _ _ _ => cases hr
  | record hr hdepth =>
    cases hr
    exact absurd rfl hdepth
  | handOver hr _ hs hsite hload hcommit =>
    cases hr
    cases hs
    cases hsite
    exact ⟨_, w₁, _, _, hobject, hload, hcommit, rfl⟩

end

/-! ## Members and what stands in them -/

/-- The object that is there is found. -/
theorem objectOf_of_site {m : Machine σ} {f : Frame} {s site : Site} {w w' : World σ}
    (hsite : f.site = some s) (h : services.objectOf m f w = .ok site w') : site = s := by
  rw [objectOf, hsite] at h
  cases h
  rfl

section

variable {g g' : Ground} (hlike : g.Like g')

include hlike

/-- On grounds that are alike, what makes an object does the same. -/
theorem objectOf_like (f : Frame) (fs : List Frame) (w : World σ) :
    services.objectOf (g'.machine (f :: fs) w) f = services.objectOf (g.machine (f :: fs) w) f := by
  rw [objectOf, objectOf, hlike.machine_around]

mutual

/-- On grounds that are alike, members lead from the same frames to the same frames and worlds.
Nothing becomes of the frames, except that the object of the innermost one is made. -/
theorem members_beside {n : Nat} {ms : List Instruction} :
    AreMembers services.isRecorded n ms → ∀ {f : Frame} {fs : List Frame} {w : World σ}
      {m m' : Machine σ}, (g.machine (f :: fs) w).Sound services.settings.maxDepth →
      (g'.machine (f :: fs) w).Sound services.settings.maxDepth → f.member = none →
      services.steps ms (g.machine (f :: fs) w) = .ok () m →
      services.steps ms (g'.machine (f :: fs) w) = .ok () m' →
      ∃ site w', m = g.machine (f.withSite site :: fs) w' ∧
        m' = g'.machine (f.withSite site :: fs) w' ∧ ∀ s, f.site = some s → site = some s
  | .nil, f, fs, w, m, m', _, _, _, h, h' => by
    cases h
    cases h'
    exact ⟨f.site, w, rfl, rfl, fun _ hs => hs⟩
  | .carried hrec hcs hms, f, fs, w, m, m', hm, hm', ht, h, h' => by
    obtain ⟨m₁, hstart, h⟩ := steps_cons_eq_ok h
    obtain ⟨m₂, hcontents, h⟩ := steps_append_eq_ok h
    obtain ⟨m₃, hend, h⟩ := steps_cons_eq_ok h
    obtain ⟨m₁', hstart', h'⟩ := steps_cons_eq_ok h'
    obtain ⟨m₂', hcontents', h'⟩ := steps_append_eq_ok h'
    obtain ⟨m₃', hend', h'⟩ := steps_cons_eq_ok h'
    have hm₁ := (step_does hm hstart).sound hm
    have hm₁' := (step_does hm' hstart').sound hm'
    have hm₂ := steps_sound hm₁ hcontents
    have hm₂' := steps_sound hm₁' hcontents'
    have hm₃ := (step_does hm₂ hend).sound hm₂
    have hm₃' := (step_does hm₂' hend').sound hm₂'
    obtain ⟨-, site, w₁, hobject, hstarted, -⟩ := startMember_of_ok hm hstart
    obtain ⟨-, site', w₁', hobject', hstarted', -⟩ := startMember_of_ok hm' hstart'
    rw [objectOf_like hlike, hobject] at hobject'
    cases hobject'
    obtain rfl := hstarted hrec
    obtain rfl := hstarted' hrec
    obtain ⟨vs, retrieved, w₂, rfl, rfl⟩ := contents_beside hcs hm₁ hm₁' rfl hcontents hcontents'
    obtain ⟨member, site', w₃, ht₂, hsite₂, hcommit, rfl⟩ := endMember_of_ok hm₂ hend
    obtain ⟨member', site'', w₃', ht₂', hsite₂', hcommit', rfl⟩ := endMember_of_ok hm₂' hend'
    cases ht₂
    cases ht₂'
    cases hsite₂
    cases hsite₂'
    rw [hcommit] at hcommit'
    cases hcommit'
    rw [← (hm.frames f (by simp)).withSite_eq ht] at h h' hm₃ hm₃'
    obtain ⟨last, w₄, rfl, rfl, hlast⟩ := members_beside hms hm₃ hm₃' ht h h'
    exact ⟨last, w₄, rfl, rfl, fun s hs =>
      hlast s (congrArg some (objectOf_of_site hs hobject))⟩
  | @AreMembers.deferred _ _ member body ms hrec hbody hms, f, fs, w, m, m', hm, hm', ht, h,
      h' => by
    have hsplit : (.startMember member :: (body ++ .endMember :: ms) : List Instruction) =
        (.startMember member :: (body ++ [.endMember])) ++ ms := by simp
    obtain ⟨loader, hfind⟩ := Option.isSome_iff_exists.1 hrec
    rw [hsplit] at h h'
    obtain ⟨m₁, hdeferred, h⟩ := steps_append_eq_ok h
    obtain ⟨m₁', hdeferred', h'⟩ := steps_append_eq_ok h'
    have hm₁ := steps_sound hm hdeferred
    have hm₁' := steps_sound hm' hdeferred'
    obtain ⟨-, site, v, w₁, w₂, w₃, hobject, hload, hcommit, rfl⟩ :=
      deferred_of_ok hm hfind hbody hdeferred
    obtain ⟨-, site', v', w₁', w₂', w₃', hobject', hload', hcommit', rfl⟩ :=
      deferred_of_ok hm' hfind hbody hdeferred'
    rw [objectOf_like hlike, hobject] at hobject'
    cases hobject'
    rw [hload] at hload'
    cases hload'
    rw [hcommit] at hcommit'
    cases hcommit'
    rw [← (hm.frames f (by simp)).withSite_eq ht] at h h' hm₁ hm₁'
    obtain ⟨last, w₄, rfl, rfl, hlast⟩ := members_beside hms hm₁ hm₁' ht h h'
    exact ⟨last, w₄, rfl, rfl, fun s hs =>
      hlast s (congrArg some (objectOf_of_site hs hobject))⟩

/-- On grounds that are alike, what stands in a member leads to the same values of the member, and
the frames stay as they are otherwise. -/
theorem contents_beside {n : Nat} {cs : List Instruction} :
    AreContents services.isRecorded n cs → ∀ {f : Frame} {fs : List Frame} {w : World σ}
      {m m' : Machine σ}, (g.machine (f :: fs) w).Sound services.settings.maxDepth →
      (g'.machine (f :: fs) w).Sound services.settings.maxDepth → f.member.isSome = true →
      services.steps cs (g.machine (f :: fs) w) = .ok () m →
      services.steps cs (g'.machine (f :: fs) w) = .ok () m' →
      ∃ vs retrieved w', m = g.machine (f.gather vs retrieved :: fs) w' ∧
        m' = g'.machine (f.gather vs retrieved :: fs) w'
  | .nil, f, fs, w, m, m', _, _, _, h, h' => by
    cases h
    cases h'
    exact ⟨[], f.retrieved, w, by rw [f.gather_nil], by rw [f.gather_nil]⟩
  | .value hcs, f, fs, w, m, m', hm, hm', ht, h, h' => by
    obtain ⟨m₁, hvalue, h⟩ := steps_cons_eq_ok h
    obtain ⟨m₁', hvalue', h'⟩ := steps_cons_eq_ok h'
    have hm₁ := (step_does hm hvalue).sound hm
    have hm₁' := (step_does hm' hvalue').sound hm'
    obtain ⟨member, v, hmember, hread, rfl⟩ := value_of_ok hm hvalue
    obtain ⟨member', v', hmember', hread', rfl⟩ := value_of_ok hm' hvalue'
    rw [hmember] at hmember'
    cases hmember'
    rw [hlike.machine_root, hread] at hread'
    cases hread'
    obtain ⟨vs, retrieved, w₂, rfl, rfl⟩ := contents_beside hcs hm₁ hm₁' ht h h'
    rw [f.gather_receive]
    exact ⟨v :: vs, retrieved, w₂, rfl, rfl⟩
  | .object hms hcs, f, fs, w, m, m', hm, hm', ht, h, h' => by
    obtain ⟨m₁, hstart, h⟩ := steps_cons_eq_ok h
    obtain ⟨m₂, hmembers, h⟩ := steps_append_eq_ok h
    obtain ⟨m₃, hend, h⟩ := steps_cons_eq_ok h
    obtain ⟨m₁', hstart', h'⟩ := steps_cons_eq_ok h'
    obtain ⟨m₂', hmembers', h'⟩ := steps_append_eq_ok h'
    obtain ⟨m₃', hend', h'⟩ := steps_cons_eq_ok h'
    have hm₁ := (step_does hm hstart).sound hm
    have hm₁' := (step_does hm' hstart').sound hm'
    have hm₂ := steps_sound hm₁ hmembers
    have hm₂' := steps_sound hm₁' hmembers'
    have hm₃ := (step_does hm₂ hend).sound hm₂
    have hm₃' := (step_does hm₂' hend').sound hm₂'
    obtain rfl := startObject_of_ok hm rfl hstart
    obtain rfl := startObject_of_ok hm' rfl hstart'
    obtain ⟨last, w₂, rfl, rfl, -⟩ := members_beside hms hm₁ hm₁' rfl hmembers hmembers'
    obtain ⟨site, v, w₃, w₄, w₅, hobject, hcomplete, hprovided, rfl⟩ :=
      endInner_of_ok hm₂ rfl rfl hend
    obtain ⟨site', v', w₃', w₄', w₅', hobject', hcomplete', hprovided', rfl⟩ :=
      endInner_of_ok hm₂' rfl rfl hend'
    rw [objectOf_like hlike, hobject] at hobject'
    cases hobject'
    rw [hcomplete] at hcomplete'
    cases hcomplete'
    rw [hlike.machine_root, hprovided] at hprovided'
    cases hprovided'
    obtain ⟨vs, retrieved, w₆, rfl, rfl⟩ := contents_beside hcs hm₃ hm₃' ht h h'
    exact ⟨v :: vs, retrieved, w₆, congrArg (fun f => g.machine (f :: fs) w₆)
      (f.gather_receive v vs retrieved), congrArg (fun f => g'.machine (f :: fs) w₆)
      (f.gather_receive v vs retrieved)⟩
  | .held hms hcs, f, fs, w, m, m', hm, hm', ht, h, h' => by
    obtain ⟨m₁, hget, h⟩ := steps_cons_eq_ok h
    obtain ⟨m₂, hmembers, h⟩ := steps_append_eq_ok h
    obtain ⟨m₃, hend, h⟩ := steps_cons_eq_ok h
    obtain ⟨m₁', hget', h'⟩ := steps_cons_eq_ok h'
    obtain ⟨m₂', hmembers', h'⟩ := steps_append_eq_ok h'
    obtain ⟨m₃', hend', h'⟩ := steps_cons_eq_ok h'
    have hm₁ := (step_does hm hget).sound hm
    have hm₁' := (step_does hm' hget').sound hm'
    have hm₂ := steps_sound hm₁ hmembers
    have hm₂' := steps_sound hm₁' hmembers'
    have hm₃ := (step_does hm₂ hend).sound hm₂
    have hm₃' := (step_does hm₂' hend').sound hm₂'
    obtain ⟨member, site, target, hmember, hsite, htarget, rfl⟩ := getObject_of_ok hm hget
    obtain ⟨member', site', target', hmember', hsite', htarget', rfl⟩ := getObject_of_ok hm' hget'
    rw [hmember] at hmember'
    cases hmember'
    rw [hsite] at hsite'
    cases hsite'
    rw [htarget] at htarget'
    cases htarget'
    obtain ⟨last, w₂, rfl, rfl, -⟩ := members_beside hms hm₁ hm₁' rfl hmembers hmembers'
    obtain rfl := leave_of_ok hm₂ rfl rfl hend
    obtain rfl := leave_of_ok hm₂' rfl rfl hend'
    obtain ⟨vs, retrieved, w₃, rfl, rfl⟩ := contents_beside hcs hm₃ hm₃' ht h h'
    exact ⟨vs, retrieved, w₃, rfl, rfl⟩

end

end

end Services
end ObjectMarkup
