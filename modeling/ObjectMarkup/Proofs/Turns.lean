/-
What an instruction calls, and what it does to the open objects.

An instruction makes the object of the innermost frame, or ends it, or does neither
(`Services.Turn`), whether it is carried out or fails.  What it calls besides tells no object
anything (`World.Silent`).  `step_turn` goes through all outcomes of an instruction once, and later
proofs go through the few turns instead.
-/
import ObjectMarkup.Proofs.Noted

namespace ObjectMarkup

open ObjectMarkup.Action (Leaves endState)
open Watched (Notes)

variable {σ : Type}

/-! ## The open objects -/

/-- What of a frame decides who is told. -/
structure Actor where
  type : TypeName
  object : Option ObjectId
  isPlaceholder : Bool

def Frame.actor (f : Frame) : Actor := ⟨f.type, f.object, f.isPlaceholder⟩

/-- The open objects, innermost first. -/
def Machine.actors (m : Machine σ) : List Actor := m.stack.map Frame.actor

namespace Machine

variable {m : Machine σ} {top : Frame} {rest : List Frame}

theorem actors_of_stack (hs : m.stack = top :: rest) :
    m.actors = top.actor :: rest.map Frame.actor := by
  rw [actors, hs, List.map_cons]

theorem length_actors (m : Machine σ) : m.actors.length = m.level := by
  rw [actors, level, List.length_map]

theorem actors_mapTop {f : Frame → Frame} (hf : ∀ top, (f top).actor = top.actor)
    (m : Machine σ) : (m.mapTop f).actors = m.actors := m.map_mapTop hf

@[simp] theorem actors_inWorld (w : World σ) : (m.inWorld w).actors = m.actors := rfl

@[simp] theorem actors_withRecording (r : Option (Recording σ)) :
    (m.withRecording r).actors = m.actors := rfl

@[simp] theorem actors_openObject (frame : Frame) :
    (m.openObject frame).actors = frame.actor :: m.actors := rfl

@[simp] theorem actors_push (v : Value) : (m.push v).actors = m.actors :=
  actors_mapTop (f := Frame.receive [v]) (fun _ => rfl) m

@[simp] theorem actors_retrieve (v : Value) : (m.retrieve v).actors = m.actors :=
  actors_mapTop (f := Frame.retrieve v) (fun _ => rfl) m

@[simp] theorem actors_closeMember : m.closeMember.actors = m.actors :=
  actors_mapTop (f := Frame.closeMember) (fun _ => rfl) m

@[simp] theorem actors_openMember (member : Member) (loader : Option (Loader σ)) :
    (m.openMember member loader).actors = m.actors := by
  have hopen : (m.mapTop (Frame.openMember member)).actors = m.actors :=
    actors_mapTop (f := Frame.openMember member) (fun _ => rfl) m
  cases loader <;> exact hopen

theorem actors_setSite (hs : m.stack = top :: rest) (site : Site) :
    (m.setSite site).actors =
      { top.actor with object := some site.object } :: rest.map Frame.actor :=
  actors_of_stack (m.mapTop_stack _ hs)

theorem actors_close (hs : m.stack = top :: rest) : m.close.actors = rest.map Frame.actor := by
  simp [actors, close, hs]

end Machine

/-! ## Calls that tell nothing -/

/-- What an instruction may call besides making an object or telling one of its stages. -/
def Call.Aside (m : Machine (Watched σ)) (i : Instruction) : Call → Prop
  | .activate .. | .beginInit _ | .endInit _ => False
  | .provide _ place => i = .endObject ∧ 1 < m.level ∧ place.root = m.root
  | _ => i = .endMember

/-- Nothing was made and no object was told anything.  The heap moved along `S`. -/
structure World.Silent (S : σ → σ → Prop) (m : Machine (Watched σ)) (i : Instruction)
    (w w' : World (Watched σ)) : Prop where
  notes : w.HeapsIn (Notes (Call.Aside m i)) w'
  stages : w.SameStages w'
  heap : S w.heap.heap w'.heap.heap

section

variable {S : σ → σ → Prop} {m : Machine (Watched σ)} {i : Instruction}

instance [Std.Refl S] : Std.Refl (World.Silent S m i) :=
  ⟨fun w => ⟨Std.Refl.refl w.heap, rfl, Std.Refl.refl w.heap.heap⟩⟩

instance [Trans S S S] : Trans (World.Silent S m i) (World.Silent S m i) (World.Silent S m i) where
  trans h h' := ⟨Trans.trans h.notes h'.notes, Trans.trans h.stages h'.stages,
    Trans.trans h.heap h'.heap⟩

theorem World.silent_setScopes [Std.Refl S] (w : World (Watched σ)) (ns : Namescopes) :
    World.Silent S m i w (w.setScopes ns) :=
  ⟨Std.Refl.refl w.heap, rfl, Std.Refl.refl w.heap.heap⟩

end

namespace Services

section

variable {services : Services σ} {S : σ → σ → Prop} [Std.Refl S] [Trans S S S]
  (hS : services.CallsLeave S) (m : Machine (Watched σ))

include hS

theorem commit_silent (target : ObjectId) (collects : Bool) (member : Member) (vs : List Value)
    (retrieved : Option Value) : Leaves (World.Silent S m .endMember)
      (services.watched.commit target collects member vs retrieved) := by
  intro w
  refine ⟨(services.commit_notes target collects member vs retrieved w).mono fun c hc => ?_,
    services.watched.commit_sameStages target collects member vs retrieved w,
    commit_heaps hS.watched target collects member vs retrieved w⟩
  cases c with
  | setMember | setAttached | append => rfl
  | _ => cases hc

omit [Trans S S S] in
theorem load_silent {member : Member} {loader : Loader (Watched σ)}
    (h : services.watched.loaders.find? member = some loader) (stream : List Instruction) :
    Leaves (World.Silent S m .endMember) (Build.onHeap .deferred (loader member stream)) := by
  intro w
  refine ⟨(services.load_notes h stream w).mono ?_, Build.onHeap_sameStages _ _ w,
    load_heaps hS.watched h stream w⟩
  rintro c rfl
  rfl

/-- An object that ends inside another one hands over what it stands for. -/
theorem valueOf_silent (hlevel : 1 < m.level) (type : TypeName) (site : Site)
    (target : Option ObjectId) (member : Option Member) :
    Leaves (World.Silent S m .endObject)
      (services.watched.valueOf type site target m.root member) := by
  intro w
  refine ⟨(services.valueOf_notes type site target m.root member w).mono ?_,
    services.watched.valueOf_sameStages type site target m.root member w,
    valueOf_heaps hS.watched type site target m.root member w⟩
  rintro c ⟨-, rfl⟩
  exact ⟨rfl, hlevel, rfl⟩

end

/-! ## Turns -/

variable (services : Services σ) (S : σ → σ → Prop)

/-- The object of the innermost frame: it was there, or it is made now. -/
inductive Obtains (m : Machine (Watched σ)) (i : Instruction) (top : Frame) (id : ObjectId) :
    World (Watched σ) → Prop
  | found : top.object = some id → Obtains m i top id m.world
  | made {w w' : World (Watched σ)} : top.site = none →
      services.Constructs top.type top.arguments m.world (some id) w → World.Silent S m i w w' →
      Obtains m i top id w'

/-- What an instruction does to the open objects and to the world: nothing is made or told, the
object of the innermost frame is made, or it ends. -/
inductive Turn (m : Machine (Watched σ)) (i : Instruction) :
    List Actor → World (Watched σ) → Prop
  | silent {w : World (Watched σ)} : World.Silent S m i m.world w → Turn m i m.actors w
  | enters {a : Actor} {w : World (Watched σ)} :
      a.object = none ∨ a.isPlaceholder = true ∨ (m.stack = [] ∧ m.supplied.isSome = true) →
      World.Silent S m i m.world w → Turn m i (a :: m.actors) w
  | leaves {top : Frame} {rest : List Frame} : m.stack = top :: rest →
      top.isPlaceholder = true → Turn m i (rest.map Frame.actor) m.world
  | makes {top : Frame} {rest : List Frame} {made : Option ObjectId} {w w' : World (Watched σ)} :
      m.recording = none → m.stack = top :: rest → top.site = none →
      services.Constructs top.type top.arguments m.world made w → World.Silent S m i w w' →
      Turn m i ({ top.actor with object := made } :: rest.map Frame.actor) w'
  | ends {top : Frame} {rest : List Frame} {id : ObjectId} {w w₁ w' : World (Watched σ)} :
      i = .endObject → m.recording = none → m.stack = top :: rest → top.member = none →
      top.isPlaceholder = false → services.Obtains S m i top id w →
      services.Completes top.type id w w₁ → World.Silent S m i w₁ w' →
      Turn m i (rest.map Frame.actor) w'

variable {services S} {m m' : Machine (Watched σ)} {i : Instruction} {top : Frame}
  {rest : List Frame} {id : ObjectId} {w : World (Watched σ)}

section

variable [Std.Refl S]

theorem objectOf_obtains {site : Site} (h : services.watched.objectOf m top m.world = .ok site w) :
    services.Obtains S m i top site.object w := by
  rw [objectOf] at h
  cases hsite : top.site with
  | some found =>
    simp only [hsite, Action.pure_apply, EStateM.Result.ok.injEq] at h
    obtain ⟨rfl, rfl⟩ := h
    exact .found (by simp [Frame.object, hsite])
  | none =>
    simp only [hsite] at h
    obtain ⟨made, w₁, ns, hconstructs, hend, hmade⟩ :=
      services.make_constructs m.around top.type top.arguments m.world
    obtain rfl := hmade site w h
    rw [h] at hend
    obtain rfl : w = w₁.setScopes ns := hend
    exact .made hsite hconstructs (World.silent_setScopes w₁ ns)

theorem objectOf_error {e : Error} (hr : m.recording = none) (hs : m.stack = top :: rest)
    (h : services.watched.objectOf m top m.world = .error e w) :
    ∃ as, services.Turn S m i as w := by
  rw [objectOf] at h
  cases hsite : top.site with
  | some found => simp [hsite] at h
  | none =>
    simp only [hsite] at h
    obtain ⟨made, w₁, ns, hconstructs, hend, -⟩ :=
      services.make_constructs m.around top.type top.arguments m.world
    rw [h] at hend
    obtain rfl : w = w₁.setScopes ns := hend
    exact ⟨_, .makes hr hs hsite hconstructs (World.silent_setScopes w₁ ns)⟩

theorem Obtains.turn (hr : m.recording = none) (hs : m.stack = top :: rest)
    (h : services.Obtains S m i top id w) :
    services.Turn S m i ({ top.actor with object := some id } :: rest.map Frame.actor) w := by
  cases h with
  | found hobject =>
    have hactors : ({ top.actor with object := some id } :: rest.map Frame.actor) = m.actors := by
      rw [Machine.actors_of_stack hs, ← hobject]
      rfl
    exact hactors ▸ .silent (Std.Refl.refl m.world)
  | made hsite hconstructs hsilent => exact .makes hr hs hsite hconstructs hsilent

variable (services S m i) in
theorem complete_completes_silent (type : TypeName) (name : Option String) (site : Site)
    (outside : Option (Option ScopeId)) (w : World (Watched σ)) :
    ∃ w₁, services.Completes type site.object w w₁ ∧ World.Silent S m i w₁
      (endState (services.watched.complete type name site outside w)) := by
  obtain ⟨w₁, ns, hcompletes, hend⟩ := services.complete_completes type name site outside w
  exact ⟨w₁, hcompletes, hend ▸ World.silent_setScopes w₁ ns⟩

end

section

variable [Std.Refl S] [Trans S S S] (hS : services.CallsLeave S)
  (hloader : ∀ r, m.recording = some r → services.watched.loaders.find? r.member = some r.loader)

include hS hloader

/-- The turns of an instruction that is carried out. -/
theorem Does.turn (hdoes : services.watched.Does m i m') :
    services.Turn S m i m'.actors m'.world := by
  have same : World.Silent S m i m.world m.world := Std.Refl.refl m.world
  cases hdoes with
  | startObject _ _ _ _ => exact .enters (.inl rfl) same
  | startSupplied _ hs _ hsupplied _ hadopt =>
    obtain ⟨rfl, -⟩ := services.watched.adopt_ok hadopt
    exact .enters (.inr (.inr ⟨hs, by simp [hsupplied]⟩)) (World.silent_setScopes m.world _)
  | @getObject top rest member site target _ _ _ _ _ _ =>
    have hworld : (m.retrieve (.object target)).world = m.world := Machine.mapTop_world m _
    rw [Machine.actors_openObject, Machine.actors_retrieve, Machine.openObject_world, hworld]
    exact .enters (.inr (.inl rfl)) same
  | startMember hr hs _ hobject _ =>
    simpa [Machine.actors_setSite hs] using (objectOf_obtains hobject).turn hr hs
  | value _ _ _ hread =>
    obtain ⟨-, rfl⟩ := Build.ofExcept_eq_ok hread
    simpa using Turn.silent same
  | endMember _ _ _ _ hcommit =>
    simpa using Turn.silent ((commit_silent hS m _ _ _ _ _).of_ok hcommit)
  | leave _ hs _ hp => exact Machine.actors_close hs ▸ .leaves hs hp
  | @endInner top parent rest site v w w' w'' hr hs ht hp hobject hcomplete hvalue =>
    have hlevel : 1 < m.level := by simp [Machine.level, hs]
    obtain ⟨w₁, hcompletes, hsilent⟩ := services.complete_completes_silent S m .endObject
      top.type top.name site (some parent.scope) w
    rw [hcomplete] at hsilent
    have hactors : (m.close.push v).actors = (parent :: rest).map Frame.actor := by
      rw [Machine.actors_push, Machine.actors_close hs]
    rw [Machine.actors_inWorld, hactors]
    exact .ends rfl hr hs ht hp (objectOf_obtains hobject) hcompletes
      (Trans.trans hsilent ((valueOf_silent hS m hlevel _ _ _ _).of_ok hvalue))
  | @endRoot top site w w' hr hs ht hp hobject hcomplete =>
    obtain ⟨w₁, hcompletes, hsilent⟩ := services.complete_completes_silent S m .endObject
      top.type top.name site none w
    rw [hcomplete] at hsilent
    have hactors : m.close.actors = ([] : List Frame).map Frame.actor := Machine.actors_close hs
    show services.Turn S m .endObject m.close.actors w'
    rw [hactors]
    exact .ends rfl hr hs ht hp (objectOf_obtains hobject) hcompletes hsilent
  | record _ _ => exact .silent same
  | @handOver r top rest site v w w' hr _ _ _ hload hcommit =>
    have hsilent := Trans.trans ((load_silent hS m (hloader r hr) _).of_ok hload)
      ((commit_silent hS m _ _ _ _ _).of_ok hcommit)
    simpa using Turn.silent hsilent

/-- The turns of an instruction that fails.  An object that ends is not told when a member of it is
open, or when it was there before. -/
theorem Fails.turn (hfails : services.watched.Fails m i w)
    (hends : i = .endObject → w ≠ m.world → ∀ top rest, m.recording = none →
      m.stack = top :: rest → top.member = none ∧ top.isPlaceholder = false) :
    ∃ as, services.Turn S m i as w := by
  have same : World.Silent S m i m.world m.world := Std.Refl.refl m.world
  by_cases hworld : w = m.world
  · exact ⟨m.actors, .silent (hworld ▸ same)⟩
  · cases hfails with
    | refused => exact absurd rfl hworld
    | @adopt start id e w _ _ _ hadopt =>
      have hend := services.watched.endState_adopt m.base
        (services.watched.host.typeOf m.world.heap id) id true m.world
      rw [hadopt] at hend
      obtain rfl : w = _ := hend
      exact ⟨_, .silent (World.silent_setScopes m.world _)⟩
    | object hr hs hobject => exact objectOf_error hr hs hobject
    | loader hr hs hobject => exact ⟨_, (objectOf_obtains hobject).turn hr hs⟩
    | commit _ _ _ hcommit =>
      exact ⟨_, .silent ((commit_silent hS m _ _ _ _ _).of_error hcommit)⟩
    | @complete top rest site e w w' hr hs hobject hcomplete =>
      obtain ⟨ht, hp⟩ := hends rfl hworld top rest hr hs
      obtain ⟨w₁, hcompletes, hsilent⟩ := services.complete_completes_silent S m .endObject
        top.type top.name site (m.parent.map (·.scope)) w
      rw [hcomplete] at hsilent
      exact ⟨_, .ends rfl hr hs ht hp (objectOf_obtains hobject) hcompletes hsilent⟩
    | @valueOf top parent rest site e w w' w'' hr hs hobject hcomplete hvalue =>
      obtain ⟨ht, hp⟩ := hends rfl hworld top _ hr hs
      have hlevel : 1 < m.level := by simp [Machine.level, hs]
      obtain ⟨w₁, hcompletes, hsilent⟩ := services.complete_completes_silent S m .endObject
        top.type top.name site (some parent.scope) w
      rw [hcomplete] at hsilent
      exact ⟨_, .ends rfl hr hs ht hp (objectOf_obtains hobject) hcompletes
        (Trans.trans hsilent ((valueOf_silent hS m hlevel _ _ _ _).of_error hvalue))⟩
    | load hr _ hload => exact ⟨_, .silent ((load_silent hS m (hloader _ hr) _).of_error hload)⟩
    | handOver hr _ _ _ hload hcommit =>
      exact ⟨_, .silent (Trans.trans ((load_silent hS m (hloader _ hr) _).of_ok hload)
        ((commit_silent hS m _ _ _ _ _).of_error hcommit))⟩

omit [Std.Refl S] [Trans S S S] hS hloader in
/-- An object ends only where no member of it is open and it was not there before. -/
theorem endObject_error {e : Error} (hr : m.recording = none) (hs : m.stack = top :: rest)
    (h : services.watched.step .endObject m = .error e m') (hworld : m'.world ≠ m.world) :
    top.member = none ∧ top.isPlaceholder = false := by
  rw [step_of_idle services.watched hr] at h
  cases ht : top.member with
  | some member =>
    have hfault : m.fault .endObject =
        some (.endObjectWithOpenMember member.qualifiedName) := by
      simp [Machine.fault, hs, ht]
    rw [services.watched.execute_of_fault hfault (by simp)] at h
    cases h
    exact absurd rfl hworld
  | none =>
    refine ⟨rfl, ?_⟩
    cases hp : top.isPlaceholder with
    | false => rfl
    | true => simp [execute, endObject, hs, ht, hp] at h

/-- Every instruction takes one of the turns, whether it is carried out or fails. -/
theorem step_turn (hm : m.Sound services.settings.maxDepth) (i : Instruction) :
    ∃ as, services.Turn S m i as (endState (services.watched.step i m)).world ∧
      ∀ m', services.watched.step i m = .ok () m' → m'.actors = as := by
  cases hstep : services.watched.step i m with
  | ok _ m₁ =>
    refine ⟨m₁.actors, (step_does hm hstep).turn hS hloader, fun m' hm' => ?_⟩
    cases hm'
    rfl
  | error e m₁ =>
    obtain ⟨as, hturn⟩ := (step_fails hm hstep).turn hS hloader (by
      rintro rfl hworld top rest hr hs
      exact endObject_error hr hs hstep hworld)
    exact ⟨as, hturn, fun m' hm' => by cases hm'⟩

end

/-! ## The calls of a turn -/

variable (services) in
/-- What an instruction may call.  An object is made for the innermost frame when it has none, and
told that it begins if its type asks for that; an object that is told that it is complete ends. -/
def Fits (m : Machine (Watched σ)) (i : Instruction) : Call → Prop
  | .activate type arguments _ => ∃ top rest, m.recording = none ∧ m.stack = top :: rest ∧
      top.site = none ∧ type = top.type ∧ arguments = top.arguments
  | .beginInit _ => ∃ top rest, m.recording = none ∧ m.stack = top :: rest ∧ top.site = none ∧
      (services.schema.traits top.type).lifecycle = true
  | .endInit _ => i = .endObject ∧ ∃ top rest, m.recording = none ∧ m.stack = top :: rest ∧
      top.member = none ∧ top.isPlaceholder = false ∧
      (services.schema.traits top.type).lifecycle = true
  | c => c.Aside m i

theorem Constructs.notes {w' : World (Watched σ)} {made : Option ObjectId}
    (hr : m.recording = none) (hs : m.stack = top :: rest) (hsite : top.site = none)
    (h : services.Constructs top.type top.arguments w made w') :
    w.HeapsIn (Notes (services.Fits m i)) w' := by
  have hactivate : ∀ made, services.Fits m i (.activate top.type top.arguments made) :=
    fun _ => ⟨top, rest, hr, hs, hsite, rfl, rfl⟩
  cases h with
  | fails _ => exact .one rfl (hactivate none)
  | untold _ _ => exact .one rfl (hactivate _)
  | @told id heap _ hlifecycle _ =>
    have hbegin : services.Fits m i (.beginInit id) := ⟨top, rest, hr, hs, hsite, hlifecycle⟩
    refine ⟨_, rfl, fun c hc => ?_⟩
    rcases List.mem_cons.1 hc with rfl | hc
    · exact hactivate _
    · obtain rfl := List.mem_singleton.1 hc
      exact hbegin

/-- A constructor is called before anything else. -/
theorem Constructs.activates {type : TypeName} {arguments : List String} {made : Option ObjectId}
    {w' : World (Watched σ)} (h : services.Constructs type arguments w made w') :
    ∃ more, w'.heap.calls = w.heap.calls ++ .activate type arguments made :: more := by
  cases h with
  | fails _ | untold _ _ => exact ⟨[], rfl⟩
  | told _ _ _ => exact ⟨[.beginInit _], rfl⟩

variable (services) in
theorem fits_of_aside {w w' : World (Watched σ)} (h : World.Silent S m i w w') :
    w.HeapsIn (Notes (services.Fits m i)) w' := by
  refine h.notes.mono fun c hc => ?_
  cases c with
  | activate | beginInit | endInit => cases hc
  | _ => exact hc

/-- What an instruction calls is what it may call. -/
theorem Turn.notes {as : List Actor} (h : services.Turn S m i as w) :
    m.world.HeapsIn (Notes (services.Fits m i)) w := by
  cases h with
  | silent hsilent => exact services.fits_of_aside hsilent
  | enters _ hsilent => exact services.fits_of_aside hsilent
  | leaves _ _ => exact Std.Refl.refl m.world.heap
  | makes hr hs hsite hconstructs hsilent =>
    exact Trans.trans (hconstructs.notes (i := i) hr hs hsite) (services.fits_of_aside hsilent)
  | @ends top rest id w w₁ w' hi hr hs ht hp hobtains hcompletes hsilent =>
    have hmade : m.world.HeapsIn (Notes (services.Fits m i)) w := by
      cases hobtains with
      | found _ => exact Std.Refl.refl m.world.heap
      | made hsite hconstructs hsilent =>
        exact Trans.trans (hconstructs.notes (i := i) hr hs hsite)
          (services.fits_of_aside hsilent)
    have hended : w.HeapsIn (Notes (services.Fits m i)) w₁ := by
      cases hcompletes with
      | told hlifecycle _ _ => exact .one rfl ⟨hi, top, rest, hr, hs, ht, hp, hlifecycle⟩
      | untold _ => exact Std.Refl.refl w.heap
    exact Trans.trans (Trans.trans hmade hended) (services.fits_of_aside hsilent)

end Services
end ObjectMarkup
