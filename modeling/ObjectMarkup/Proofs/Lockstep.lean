/-
A machine and the machine that takes nothing for granted.

The frames of a machine can be taken apart (`Machine.loose`), and two actions are in step when they
do the same from a machine as it is and from the machine taken apart (`Loose.InStep`).  Actions that
are in step make actions that are in step (`InStep.bind`), so that the instructions are compared
part by part.  Where the second action looks for something, what holds of the frames
(`Machine.Sound`) says that it is there: the two go in step whatever is done at a gap
(`Loose.step_inStep`).
-/
import ObjectMarkup.Proofs.Loose
import ObjectMarkup.Proofs.Scoping

namespace ObjectMarkup

variable {σ : Type}

/-! ## What actions leave of the frames -/

namespace Machine

variable {m : Machine σ} {top : Frame} {rest : List Frame} {maxDepth : Nat}

/-- The object whose member is open is there. -/
theorem Sound.site_of_member (hm : m.Sound maxDepth) (hs : m.stack = top :: rest) {member : Member}
    (ht : top.member = some member) : ∃ site, top.site = some site :=
  Option.isSome_iff_exists.1 ((hm.frames top (by simp [hs])).site_of_member (by simp [ht]))

theorem level_of_cons (hs : m.stack = top :: rest) : m.level = rest.length + 1 :=
  congrArg List.length hs

theorem parent_of_cons (hs : m.stack = top :: rest) : m.parent = rest.head? := by
  rw [parent, hs, List.getElem?_cons_succ, List.head?_eq_getElem?]

theorem inWorld_of_onWorld {α : Type} {act : Build σ α} {a : α} {m' : Machine σ}
    (h : onWorld act m = .ok a m') : ∃ w, m' = m.inWorld w := by
  rw [onWorld_apply] at h
  split at h
  · next w _ =>
    cases h
    exact ⟨w, rfl⟩
  · cases h

theorem stack_of_onWorld {α : Type} {act : Build σ α} {a : α} {m' : Machine σ}
    (h : onWorld act m = .ok a m') : m'.stack = m.stack := by
  obtain ⟨w, rfl⟩ := inWorld_of_onWorld h
  rfl

theorem onWorld_bind {α β : Type} (act : Build σ α) (next : α → Build σ β) :
    onWorld (act >>= next) = onWorld act >>= fun a => onWorld (next a) := by
  funext m
  rw [onWorld_apply, Action.bind_apply, Action.bind_apply, onWorld_apply]
  cases act m.world with
  | ok a w => cases h : next a w <;> simp [onWorld_apply, h]
  | error e w => rfl

end Machine

namespace Services

open Machine (onWorld)

variable {services : Services σ} {m : Machine σ} {top : Frame} {rest : List Frame} {site : Site}

theorem stack_of_openFrame {frame : Frame} {m' : Machine σ}
    (h : services.openFrame frame m = .ok () m') : m'.stack = frame :: m.stack := by
  rw [openFrame_apply] at h
  split at h
  · cases h
  · split at h
    · cases h
    · cases h
      rfl

/-- The innermost object, made if it is not there, is in its frame then. -/
theorem stack_of_ensureObject {m' : Machine σ} (hs : m.stack = top :: rest)
    (h : services.ensureObject m = .ok site m') : m'.stack = top.setSite site :: rest := by
  rw [ensureObject_eq services hs] at h
  split at h
  · cases h
    exact m.mapTop_stack _ hs
  · cases h

/-- The end of an object that is there. -/
theorem completeObject_of_site (hs : m.stack = top :: rest) (hsite : top.site = some site) :
    services.completeObject m =
      (onWorld (services.complete top.type top.name site (m.parent.map (·.scope))) >>= fun _ =>
        match rest with
        | [] => modify (·.close) >>= fun _ => modify fun m => { m with result := some site.object }
        | parent :: _ =>
          onWorld (services.valueOf top.type site parent.object m.root parent.member) >>= fun v =>
            modify (·.close) >>= fun _ => modify (·.push v)) m := by
  simp only [completeObject, Action.bind_apply, ensureObject_of_site services hs hsite,
    Action.get_apply, hs]
  cases rest <;> rfl

/-- The object may be made before it is ended. -/
theorem completeObject_eq_bind (hs : m.stack = top :: rest) :
    services.completeObject m = (services.ensureObject >>= fun _ => services.completeObject) m := by
  rw [completeObject_eq services hs, Action.bind_apply, ensureObject_eq services hs]
  cases services.objectOf m top m.world <;> rfl

end Services

/-! ## Taking frames apart -/

/-- The frame with its object and what belongs to it taken apart. -/
def Frame.loose (f : Frame) : Loose.Frame where
  type := f.type
  object := f.object
  collection := f.site.bind fun site => Loose.collectionOf site.object site.collects
  scope := f.scope
  isPlaceholder := f.isPlaceholder
  member := f.member
  pending := f.pending
  retrieved := f.retrieved
  name := f.name
  arguments := f.arguments

def Machine.loose (m : Machine σ) : Loose.Machine σ where
  world := m.world
  stack := m.stack.map Frame.loose
  rootClosed := m.rootClosed
  supplied := m.supplied
  base := m.base
  result := m.result
  recording := m.recording

namespace Frame

variable (f : Frame)

@[simp] theorem loose_type : f.loose.type = f.type := rfl
@[simp] theorem loose_object : f.loose.object = f.site.map (·.object) := rfl
@[simp] theorem loose_scope : f.loose.scope = f.site.map (·.scope) := rfl
@[simp] theorem loose_isPlaceholder : f.loose.isPlaceholder = f.isPlaceholder := rfl
@[simp] theorem loose_member : f.loose.member = f.member := rfl
@[simp] theorem loose_name : f.loose.name = f.name := rfl

end Frame

namespace Machine

variable (m : Machine σ)

@[simp] theorem loose_world : m.loose.world = m.world := rfl
@[simp] theorem loose_stack : m.loose.stack = m.stack.map Frame.loose := rfl
@[simp] theorem loose_supplied : m.loose.supplied = m.supplied := rfl
@[simp] theorem loose_recording : m.loose.recording = m.recording := rfl
@[simp] theorem loose_isRecording : m.loose.isRecording = m.isRecording := rfl

@[simp] theorem loose_level : m.loose.level = m.level := List.length_map _

@[simp] theorem loose_parent : m.loose.parent = m.parent.map Frame.loose := List.getElem?_map

@[simp] theorem loose_root : m.loose.root = m.root := by
  rw [Loose.Machine.root, root, loose_stack, List.getLast?_map, Option.bind_map]
  rfl

@[simp] theorem loose_around : m.loose.around = m.around := by
  rw [Loose.Machine.around, around, loose_parent]
  cases m.parent <;> rfl

@[simp] theorem loose_close : m.loose.close = m.close.loose := by
  simp [Loose.Machine.close, close, loose]

@[simp] theorem loose_entryFault (type : TypeName) :
    m.loose.entryFault type = m.entryFault type := by
  rw [Loose.Machine.entryFault, entryFault, loose_stack]
  cases m.stack with
  | nil => rfl
  | cons top rest => cases rest <;> rfl

end Machine

namespace Loose

/-- The outcome of the machine taken apart. -/
def loosened {α β : Type} (p : α → β) :
    EStateM.Result Error (ObjectMarkup.Machine σ) α → EStateM.Result Error (Machine σ) β
  | .ok a m => .ok (p a) m.loose
  | .error e m => .error e m.loose

/-- From a machine, and from the same machine taken apart, the two actions end alike, the value of
the second one being `p` of that of the first. -/
def InStep {α β : Type} (m : ObjectMarkup.Machine σ) (x : ObjectMarkup.Machine.Action σ α)
    (y : Machine.Action σ β) (p : α → β) : Prop :=
  y m.loose = loosened p (x m)

section

variable {α β γ δ : Type} {m : ObjectMarkup.Machine σ}

theorem InStep.pure (a : α) : InStep m (Pure.pure a) (Pure.pure a) id := rfl

theorem InStep.throw (e : Error) {p : α → β} :
    InStep m (MonadExcept.throw e) (MonadExcept.throw e) p := rfl

theorem InStep.bind {x : ObjectMarkup.Machine.Action σ α} {y : Machine.Action σ β} {p : α → β}
    {f : α → ObjectMarkup.Machine.Action σ γ} {g : β → Machine.Action σ δ} {q : γ → δ}
    (hx : InStep m x y p) (hf : ∀ a m', x m = .ok a m' → InStep m' (f a) (g (p a)) q) :
    InStep m (x >>= f) (y >>= g) q := by
  rw [InStep] at hx
  rw [InStep, Action.bind_apply, Action.bind_apply, hx]
  cases h : x m with
  | ok a m' => exact hf a m' h
  | error e m' => rfl

theorem InStep.get_bind {f : ObjectMarkup.Machine σ → ObjectMarkup.Machine.Action σ α}
    {g : Machine σ → Machine.Action σ β} {p : α → β} (h : InStep m (f m) (g m.loose) p) :
    InStep m (get >>= f) (get >>= g) p := h

theorem InStep.get_right {x : ObjectMarkup.Machine.Action σ α} {g : Machine σ → Machine.Action σ β}
    {p : α → β} (h : InStep m x (g m.loose) p) : InStep m x (get >>= g) p := h

theorem InStep.set_bind {t : ObjectMarkup.Machine σ}
    {f : PUnit → ObjectMarkup.Machine.Action σ α} {g : PUnit → Machine.Action σ β} {p : α → β}
    (h : InStep t (f ⟨⟩) (g ⟨⟩) p) : InStep m (set t >>= f) (set t.loose >>= g) p := h

theorem InStep.update {f : ObjectMarkup.Machine σ → ObjectMarkup.Machine σ}
    {g : Machine σ → Machine σ} (h : g m.loose = (f m).loose) :
    InStep m (modify f) (modify g) id := by
  rw [InStep, Action.modify_apply, Action.modify_apply, h]
  rfl

theorem InStep.onWorld (act : Build σ α) :
    InStep m (ObjectMarkup.Machine.onWorld act) (Machine.onWorld act) id := by
  rw [InStep, ObjectMarkup.Machine.onWorld_apply, Machine.onWorld, Machine.loose_world]
  cases act m.world <;> rfl

end

variable {services : Services σ} {detour : Gap → Machine.Action σ Unit}
  {m : ObjectMarkup.Machine σ} {top : ObjectMarkup.Frame} {rest : List ObjectMarkup.Frame}
  {site : Site} {maxDepth : Nat}

/-! ## Frames and their objects -/

/-- The innermost frame is there to be changed. -/
theorem changeTop_inStep (hs : m.stack = top :: rest) {f : Frame → Frame}
    {g : ObjectMarkup.Frame → ObjectMarkup.Frame} (hf : f top.loose = (g top).loose) :
    InStep m (modify (·.mapTop g)) (changeTop detour f) id := by
  obtain ⟨world, stack, closed, supplied, base, result, recording⟩ := m
  obtain rfl : stack = top :: rest := hs
  change EStateM.Result.ok _ _ = EStateM.Result.ok _ _
  simp [ObjectMarkup.Machine.mapTop, ObjectMarkup.Machine.loose, hf]

theorem push_inStep (hs : m.stack = top :: rest) (v : Value) :
    InStep m (modify (·.push v)) (push detour v) id :=
  changeTop_inStep hs rfl

theorem openFrame_inStep (frame : ObjectMarkup.Frame) :
    InStep m (services.openFrame frame) (openFrame services frame.loose) id := by
  refine .get_bind ?_
  rw [Machine.loose_entryFault, Machine.loose_level, Frame.loose_type]
  cases m.entryFault frame.type with
  | some e => exact .throw _
  | none =>
    dsimp only
    split
    · exact .throw _
    · rfl

theorem install_inStep (hs : m.stack = top :: rest) (type : TypeName) :
    InStep m (modify (·.mapTop fun top => { top with type, site := some site }))
      (install detour type site) id :=
  changeTop_inStep hs rfl

theorem adoptSupplied_inStep (hs : m.stack = top :: rest) (object : ObjectId) :
    InStep m (services.adoptSupplied object) (adoptSupplied services detour object) id := by
  refine .get_bind (.set_bind ?_)
  rw [Machine.loose_around]
  exact .bind (.onWorld _) fun site m' h =>
    install_inStep ((Machine.stack_of_onWorld h).trans hs) _

theorem ensureObject_inStep (hs : m.stack = top :: rest) :
    InStep m services.ensureObject (ensureObject services detour) Site.object := by
  refine .get_bind ?_
  rw [Machine.loose_stack, Machine.loose_around, hs, List.map_cons]
  dsimp only
  rw [Frame.loose_object]
  cases top.site with
  | some site => rfl
  | none =>
    refine .bind (.onWorld _) fun site m' h => ?_
    exact .bind (changeTop_inStep ((Machine.stack_of_onWorld h).trans hs) rfl) fun _ _ _ => rfl

/-! ## Instructions -/

theorem startObject_inStep (start : ObjectStart) :
    InStep m (services.startObject start) (startObject services detour start) id := by
  refine .bind (.onWorld _) fun _ m₁ _ => .get_bind (.bind (openFrame_inStep _) fun _ m₂ h => ?_)
  have hstack := Services.stack_of_openFrame h
  rw [Machine.loose_stack, Machine.loose_supplied]
  cases m₁.stack with
  | cons top rest => exact .pure _
  | nil =>
    cases m₁.supplied with
    | none => exact .pure _
    | some object => exact adoptSupplied_inStep hstack object

theorem getObject_inStep (hm : m.Sound maxDepth) :
    InStep m services.getObject (getObject services detour) id := by
  refine .get_bind ?_
  rw [Services.currentObject.eq_def, Machine.loose_stack]
  cases hs : m.stack with
  | nil => exact .throw _
  | cons top rest =>
    rw [List.map_cons]
    dsimp only
    rw [Frame.loose_member, Frame.loose_object]
    cases ht : top.member with
    | none => exact .throw _
    | some member =>
      obtain ⟨site, hsite⟩ := hm.site_of_member hs ht
      rw [hsite, Option.map_some, Machine.loose_world]
      dsimp only
      cases services.host.getMember m.world.heap site.object member with
      | none => exact .throw _
      | some v =>
        cases v with
        | object target =>
          -- the scope of the object that has the member goes to the placeholder
          rw [Frame.loose_scope, hsite]
          exact .bind (changeTop_inStep (m := m) hs rfl) fun _ _ _ =>
            openFrame_inStep (services.placeholder m.world.heap site target)
        | _ => exact .throw _

theorem startMember_inStep (member : Member) :
    InStep m (services.startMember member) (startMember services detour member) id := by
  refine .get_bind ?_
  rw [Machine.loose_stack]
  cases hs : m.stack with
  | nil => exact .throw _
  | cons top rest =>
    rw [List.map_cons]
    dsimp only
    rw [Frame.loose_member]
    cases top.member with
    | some other => exact .throw _
    | none =>
      refine .bind (ensureObject_inStep hs) fun site m₁ h₁ =>
        .bind (.onWorld _) fun loader m₂ h₂ => ?_
      have hstack := (Machine.stack_of_onWorld h₂).trans (Services.stack_of_ensureObject hs h₁)
      have hopen : InStep m₂ (modify (·.mapTop (Frame.openMember member)))
          (changeTop detour fun top =>
            { top with member := some member, pending := [], retrieved := none }) id :=
        changeTop_inStep hstack rfl
      -- one machine opens the member and begins the recording at once, the other one after it
      rw [InStep] at hopen
      rw [InStep, Action.bind_apply, hopen]
      cases loader <;> rfl

theorem literalValue_inStep (s : String) :
    InStep m (services.literalValue s) (literalValue services detour s) id := by
  refine .get_bind ?_
  rw [Machine.loose_stack, Machine.loose_root]
  cases hs : m.stack with
  | nil => exact .throw _
  | cons top rest =>
    rw [List.map_cons, List.head?_cons, List.head?_cons, Option.bind_some, Option.bind_some,
      Frame.loose_member]
    cases top.member with
    | none => exact .throw _
    | some member =>
      exact .bind (.onWorld _) fun v m' h => push_inStep ((Machine.stack_of_onWorld h).trans hs) v

/-- An object that collects is its own collection. -/
theorem commitValues_collection (target : ObjectId) (collects : Bool) (member : Member)
    (values : List Value) (retrieved : Option Value) :
    commitValues services target (collectionOf target collects) member values retrieved =
      services.commitValues target collects member values retrieved := by
  unfold commitValues Services.commitValues
  split
  · cases collects <;> rfl
  · cases collects <;> rfl

theorem endMember_inStep (hm : m.Sound maxDepth) :
    InStep m services.endMember (endMember services detour) id := by
  refine .get_bind ?_
  rw [Machine.loose_stack]
  cases hs : m.stack with
  | nil => exact .throw _
  | cons top rest =>
    rw [List.map_cons]
    dsimp only
    rw [Frame.loose_member, Frame.loose_object]
    cases ht : top.member with
    | none => exact .throw _
    | some member =>
      obtain ⟨site, hsite⟩ := hm.site_of_member hs ht
      have hcollection : top.loose.collection = collectionOf site.object site.collects := by
        rw [Frame.loose, hsite, Option.bind_some]
      rw [hsite, Option.map_some, hcollection]
      dsimp only
      rw [commit, commitValues_collection]
      exact .bind (changeTop_inStep (m := m) hs rfl) fun _ _ _ => .onWorld _

/-- There is a scope for the name of an innermost object that is there. -/
theorem namedIn_loose (hs : m.stack = top :: rest) (hsite : top.site = some site)
    (hbelow : ∀ f ∈ rest, ∃ site, f.site = some site) :
    ∃ scope, services.nameScope top.type site (m.parent.map (·.scope)) = some scope ∧
      namedIn services m.loose top.loose = some scope := by
  rw [namedIn, Machine.loose_level, Machine.loose_parent, Frame.loose_scope, hsite,
    Frame.loose_type, Option.map_some, Machine.level_of_cons hs, Machine.parent_of_cons hs]
  cases rest with
  | nil => exact ⟨site.scope, rfl, rfl⟩
  | cons parent rest =>
    obtain ⟨around, haround⟩ := hbelow parent List.mem_cons_self
    have hscope : parent.scope = some around.scope := congrArg (Option.map _) haround
    have hloose : parent.loose.scope = some around.scope := hscope
    rw [List.head?_cons, Option.map_some, Option.map_some, Option.bind_some, hscope, hloose]
    unfold Services.nameScope
    cases (services.schema.traits top.type).namescope with
    | true => exact ⟨around.scope, rfl, by simp⟩
    | false => exact ⟨site.scope, rfl, by simp⟩

theorem complete_eq_tell (type : TypeName) (name : Option String)
    (outside : Option (Option ScopeId)) :
    services.complete type name site outside = tell services type site.object >>= fun _ =>
      Services.register name (services.nameScope type site outside) site.object := by
  rw [Services.complete_eq, tell]
  split <;> rfl

/-- An object is told and named where there is a scope for its name. -/
theorem conclude_inStep (hs : m.stack = top :: rest) (hsite : top.site = some site)
    (hbelow : ∀ f ∈ rest, ∃ site, f.site = some site) :
    InStep m (ObjectMarkup.Machine.onWorld
        (services.complete top.type top.name site (m.parent.map (·.scope))))
      (conclude services detour top.loose site.object) id := by
  rw [complete_eq_tell, Machine.onWorld_bind]
  refine .bind (.onWorld _) fun _ m' h => .get_right ?_
  obtain ⟨w, rfl⟩ := Machine.inWorld_of_onWorld h
  obtain ⟨scope, hname, hloose⟩ : ∃ scope,
      services.nameScope top.type site (m.parent.map (·.scope)) = some scope ∧
        namedIn services (m.inWorld w).loose top.loose = some scope :=
    namedIn_loose hs hsite hbelow
  rw [hname, hloose, Frame.loose_name]
  cases top.name with
  | none => rfl
  | some name => exact .onWorld _

theorem valueOf_loose {parent : ObjectMarkup.Frame} (hs : m.stack = top :: parent :: rest)
    (hsite : top.site = some site) :
    valueOf services m.loose top.loose site.object =
      services.valueOf top.type site parent.object m.root parent.member := by
  have hlevel : 1 < m.level := by simp [Machine.level_of_cons hs]
  rw [valueOf, Machine.loose_level, Machine.loose_parent, Machine.loose_root,
    Machine.parent_of_cons hs, Frame.loose_scope, hsite]
  simp only [hlevel, decide_true, Bool.true_and]
  rfl

theorem deliver_inStep (hs : m.stack = top :: rest) (hsite : top.site = some site)
    (hbelow : ∀ f ∈ rest, ∃ site, f.site = some site) :
    InStep m services.completeObject (deliver services detour site.object) id := by
  rw [InStep, Services.completeObject_of_site hs hsite]
  refine InStep.get_right (p := id) ?_
  rw [Machine.loose_stack, hs, List.map_cons]
  refine .bind (conclude_inStep hs hsite hbelow) fun _ m₁ h₁ => ?_
  have hs₁ := (Machine.stack_of_onWorld h₁).trans hs
  cases rest with
  | nil =>
    -- the first object stands in no member, and stands for itself
    have hvalue : Machine.onWorld (valueOf services m.loose top.loose site.object) m₁.loose =
        .ok (.object site.object) m₁.loose := by
      rw [valueOf, Machine.loose_level, Machine.level_of_cons hs]
      rfl
    rw [InStep, Action.bind_apply, hvalue]
    refine InStep.bind (p := id) (.update (Machine.loose_close _)) fun _ m₂ h₂ => .get_right ?_
    cases h₂
    have hclose : m₁.close.stack = [] := by rw [ObjectMarkup.Machine.close, hs₁]; rfl
    rw [Machine.loose_stack, hclose]
    exact .update rfl
  | cons parent rest =>
    dsimp only
    rw [valueOf_loose hs hsite]
    refine .bind (.onWorld _) fun v m₂ h₂ =>
      .bind (.update (Machine.loose_close _)) fun _ m₃ h₃ => .get_right ?_
    cases h₃
    have hclose : m₂.close.stack = parent :: rest := by
      rw [ObjectMarkup.Machine.close, Machine.stack_of_onWorld h₂, hs₁]
      rfl
    rw [Machine.loose_stack, hclose]
    exact push_inStep hclose v

theorem endObject_inStep (hm : m.Sound maxDepth) :
    InStep m services.endObject (endObject services detour) id := by
  refine .get_bind ?_
  rw [Machine.loose_stack]
  cases hs : m.stack with
  | nil => exact .throw _
  | cons top rest =>
    rw [List.map_cons]
    dsimp only
    rw [Frame.loose_member]
    cases ht : top.member with
    | some other => exact .throw _
    | none =>
      dsimp only
      rw [Frame.loose_isPlaceholder]
      split
      · exact .update (Machine.loose_close _)
      · rw [InStep, Services.completeObject_eq_bind hs]
        refine InStep.bind (q := id) (ensureObject_inStep hs) fun site m₁ h₁ => ?_
        exact deliver_inStep (Services.stack_of_ensureObject hs h₁) rfl fun f hf =>
          hm.site_below (by simpa [hs] using hf)

theorem execute_inStep (hm : m.Sound maxDepth) (i : Instruction) :
    InStep m (services.execute i) (execute services detour i) id := by
  cases i with
  | startObject start => exact startObject_inStep start
  | getObject => exact getObject_inStep hm
  | startMember member => exact startMember_inStep member
  | value s => exact literalValue_inStep s
  | endMember => exact endMember_inStep hm
  | endObject => exact endObject_inStep hm

/-! ## Recording -/

theorem finishRecording_inStep (hm : m.Sound maxDepth) {r : Recording σ}
    (hr : m.recording = some r) :
    InStep m (services.finishRecording r) (finishRecording services detour r) id := by
  obtain ⟨-, top, rest, hs, ht, -⟩ := hm.recording r hr
  refine .bind (.update rfl) fun _ m₁ h₁ => .bind (.onWorld _) fun v m₂ h₂ => ?_
  cases h₁
  obtain ⟨w, rfl⟩ := Machine.inWorld_of_onWorld h₂
  refine .bind (push_inStep (m := (m.withRecording none).inWorld w) hs v) fun _ m₃ h₃ => ?_
  cases h₃
  exact endMember_inStep ((hm.endRecording.inWorld w).push rfl hs ht v)

/-- A recording goes on as long as a member is open in it. -/
theorem goOn_inStep {r : Recording σ} {depth : Nat} {i : Instruction}
    (hdepth : Services.depthAfter r.depth i = depth) (hpos : depth ≠ 0) :
    InStep m (services.record r i) (goOn r depth i) id := by
  subst hdepth
  rw [InStep, Services.record_of_inside services hpos]
  rfl

theorem record_inStep (hm : m.Sound maxDepth) {r : Recording σ} (hr : m.recording = some r)
    (i : Instruction) :
    InStep m (services.record r i) (record services detour i) id := by
  obtain ⟨hdepth, -⟩ := hm.recording r hr
  refine .get_right ?_
  rw [Machine.loose_recording, hr]
  cases i with
  | startMember member => exact goOn_inStep rfl (Nat.succ_ne_zero _)
  | endMember =>
    dsimp only
    by_cases hlast : r.depth = 1
    · have hzero : Services.depthAfter r.depth .endMember = 0 := by
        rw [hlast]
        rfl
      rw [if_pos hlast, Services.record, if_pos hzero]
      exact finishRecording_inStep hm hr
    · rw [if_neg hlast, if_neg (Nat.ne_of_gt hdepth)]
      exact goOn_inStep rfl (by omega)
  | _ => exact goOn_inStep rfl (Nat.ne_of_gt hdepth)

/-- What is done at a gap makes no difference: a machine does not come to any. -/
theorem step_inStep (hm : m.Sound maxDepth) (i : Instruction) :
    InStep m (services.step i) (step services detour i) id := by
  refine .get_bind ?_
  rw [Machine.loose_isRecording, ObjectMarkup.Machine.isRecording]
  cases hr : m.recording with
  | none => exact execute_inStep hm i
  | some r => exact record_inStep hm hr i

theorem traceStep_inStep (hm : m.Sound maxDepth) (i : Instruction) :
    traceStep services detour i m.loose =
      ((services.traceStep i m).1, (services.traceStep i m).2.loose) := by
  have hstep : step services detour i m.loose = loosened id (services.step i m) :=
    step_inStep hm i
  rw [traceStep, hstep, Services.traceStep]
  cases services.step i m <;> rfl

theorem trace_inStep (hm : m.Sound services.settings.maxDepth) (keepGoing : Bool)
    (stream : List Instruction) :
    trace services detour keepGoing stream m.loose =
      ((services.trace keepGoing stream m).1, (services.trace keepGoing stream m).2.loose) := by
  induction stream generalizing m with
  | nil => rfl
  | cons i is ih =>
    have hnext := ih (Services.traceStep_sound hm i)
    rw [trace, traceStep_inStep hm, Services.trace]
    dsimp only
    rw [hnext, Machine.loose_level, Machine.loose_isRecording]
    split <;> rfl

end Loose
end ObjectMarkup
