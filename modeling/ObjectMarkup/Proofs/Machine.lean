/-
What the instructions do to a machine, one equation for each place where an instruction can stand.
Later proofs use these equations and do not open the instructions again.

The changes of the frames that instructions make are functions of their own (`openMember`,
`closeMember`, `setSite`, `openObject`), and so is a change of the world alone (`inWorld`).  A
change of the frames neither reads nor changes the world, so that the two commute.
-/
import ObjectMarkup.Machine.Step
import ObjectMarkup.Tree.Evaluate
import ObjectMarkup.Proofs.Action

namespace ObjectMarkup

variable {σ : Type}

namespace Frame

def openMember (member : Member) (f : Frame) : Frame :=
  { f with member := some member, pending := [], retrieved := none }

def closeMember (f : Frame) : Frame :=
  { f with member := none, pending := [], retrieved := none }

def setSite (site : Site) (f : Frame) : Frame := { f with site := some site }

/-- The frame with the value that a placeholder took from its open member. -/
def retrieve (v : Value) (f : Frame) : Frame := { f with retrieved := some v }

def receive (vs : List Value) (f : Frame) : Frame := { f with pending := f.pending ++ vs }

end Frame

namespace Machine

/-- The machine that has carried out nothing, the first object being `supplied` if one is. -/
def blank (w : World σ) (supplied : Option ObjectId) (base : Option ScopeId) : Machine σ :=
  { world := w, supplied, base }

def inWorld (m : Machine σ) (w : World σ) : Machine σ := { m with world := w }

/-- Opens a member of the innermost object, which is recorded if it has a loader. -/
def openMember (member : Member) (loader : Option (Loader σ)) (m : Machine σ) : Machine σ :=
  let m := m.mapTop (Frame.openMember member)
  match loader with
  | some loader => { m with recording := some { member, loader } }
  | none => m

def closeMember : Machine σ → Machine σ := mapTop Frame.closeMember

def setSite (site : Site) : Machine σ → Machine σ := mapTop (Frame.setSite site)

/-- Takes the value of the open member of the innermost object. -/
def retrieve (v : Value) : Machine σ → Machine σ := mapTop (Frame.retrieve v)

def openObject (frame : Frame) (m : Machine σ) : Machine σ := { m with stack := frame :: m.stack }

def withRecording (r : Option (Recording σ)) (m : Machine σ) : Machine σ :=
  { m with recording := r }

end Machine

/-- The recording with more instructions, `depth` members being open in it then. -/
def Recording.add (r : Recording σ) (depth : Nat) (is : List Instruction) : Recording σ :=
  { r with depth, instructions := r.instructions ++ is }

@[simp] theorem Recording.add_depth (r : Recording σ) (depth : Nat) (is : List Instruction) :
    (r.add depth is).depth = depth := rfl

@[simp] theorem Recording.add_nil (r : Recording σ) : r.add r.depth [] = r := by
  simp [Recording.add]

@[simp] theorem Recording.add_add (r : Recording σ) (d e : Nat) (is js : List Instruction) :
    (r.add d is).add e js = r.add e (is ++ js) := by
  simp [Recording.add]

namespace Machine

/-! ## The world and the frames -/

section

variable (m : Machine σ) (w : World σ)

@[simp] theorem inWorld_world : (m.inWorld w).world = w := rfl
@[simp] theorem inWorld_stack : (m.inWorld w).stack = m.stack := rfl
@[simp] theorem inWorld_recording : (m.inWorld w).recording = m.recording := rfl
@[simp] theorem inWorld_supplied : (m.inWorld w).supplied = m.supplied := rfl
@[simp] theorem inWorld_around : (m.inWorld w).around = m.around := rfl
@[simp] theorem inWorld_parent : (m.inWorld w).parent = m.parent := rfl
@[simp] theorem inWorld_root : (m.inWorld w).root = m.root := rfl
@[simp] theorem inWorld_level : (m.inWorld w).level = m.level := rfl
@[simp] theorem inWorld_finish : (m.inWorld w).finish = m.finish := rfl
@[simp] theorem inWorld_self : m.inWorld m.world = m := rfl
@[simp] theorem inWorld_of_eq (h : m.world = w) : m.inWorld w = m := by
  subst h
  rfl

@[simp] theorem inWorld_inWorld (w' : World σ) : (m.inWorld w).inWorld w' = m.inWorld w' := rfl

theorem inWorld_mapTop (f : Frame → Frame) : (m.inWorld w).mapTop f = (m.mapTop f).inWorld w := by
  obtain ⟨world, stack, closed, supplied, base, result, recording⟩ := m
  cases stack <;> rfl

@[simp] theorem mapTop_world (f : Frame → Frame) : (m.mapTop f).world = m.world := by
  obtain ⟨world, stack, closed, supplied, base, result, recording⟩ := m
  cases stack <;> rfl

@[simp] theorem mapTop_recording (f : Frame → Frame) :
    (m.mapTop f).recording = m.recording := by
  obtain ⟨world, stack, closed, supplied, base, result, recording⟩ := m
  cases stack <;> rfl

@[simp] theorem mapTop_parent (f : Frame → Frame) : (m.mapTop f).parent = m.parent := by
  obtain ⟨world, stack, closed, supplied, base, result, recording⟩ := m
  cases stack <;> rfl

theorem mapTop_stack {top : Frame} {rest : List Frame} (f : Frame → Frame)
    (h : m.stack = top :: rest) : (m.mapTop f).stack = f top :: rest := by
  simp [mapTop, h]

/-- What a change of the innermost frame leaves of it, it leaves of all frames. -/
theorem map_mapTop {α : Type} {p : Frame → α} {f : Frame → Frame} (hf : ∀ g, p (f g) = p g) :
    (m.mapTop f).stack.map p = m.stack.map p := by
  cases hs : m.stack with
  | nil => simp [mapTop, hs]
  | cons top rest => rw [mapTop_stack m f hs, List.map_cons, List.map_cons, hf]

@[simp] theorem inWorld_push (v : Value) : (m.inWorld w).push v = (m.push v).inWorld w :=
  inWorld_mapTop m w _

@[simp] theorem inWorld_closeMember : (m.inWorld w).closeMember = m.closeMember.inWorld w :=
  inWorld_mapTop m w _

@[simp] theorem inWorld_setSite (site : Site) :
    (m.inWorld w).setSite site = (m.setSite site).inWorld w :=
  inWorld_mapTop m w _

@[simp] theorem inWorld_openMember (member : Member) (loader : Option (Loader σ)) :
    (m.inWorld w).openMember member loader = (m.openMember member loader).inWorld w := by
  simp only [openMember, inWorld_mapTop]
  cases loader <;> rfl

@[simp] theorem inWorld_openObject (frame : Frame) :
    (m.inWorld w).openObject frame = (m.openObject frame).inWorld w := rfl

@[simp] theorem inWorld_withRecording (r : Option (Recording σ)) :
    (m.inWorld w).withRecording r = (m.withRecording r).inWorld w := rfl

@[simp] theorem withRecording_withRecording (r r' : Option (Recording σ)) :
    (m.withRecording r).withRecording r' = m.withRecording r' := rfl

@[simp] theorem inWorld_close : (m.inWorld w).close = m.close.inWorld w := rfl

@[simp] theorem openObject_stack (frame : Frame) : (m.openObject frame).stack = frame :: m.stack :=
  rfl

@[simp] theorem openObject_recording (frame : Frame) :
    (m.openObject frame).recording = m.recording := rfl

theorem setSite_openObject (frame : Frame) (site : Site) :
    (m.openObject frame).setSite site = m.openObject (frame.setSite site) := rfl

@[simp] theorem push_world (v : Value) : (m.push v).world = m.world := mapTop_world m _
@[simp] theorem closeMember_world : m.closeMember.world = m.world := mapTop_world m _
@[simp] theorem setSite_world (site : Site) : (m.setSite site).world = m.world := mapTop_world m _
@[simp] theorem openObject_world (frame : Frame) : (m.openObject frame).world = m.world := rfl

@[simp] theorem withRecording_world (r : Option (Recording σ)) :
    (m.withRecording r).world = m.world := rfl

@[simp] theorem close_world : m.close.world = m.world := rfl

@[simp] theorem openMember_world (member : Member) (loader : Option (Loader σ)) :
    (m.openMember member loader).world = m.world := by
  cases loader <;> simp [openMember]

theorem onWorld_apply {α : Type} (act : Build σ α) :
    onWorld act m = match act m.world with
      | .ok a w => .ok a (m.inWorld w)
      | .error e w => .error e (m.inWorld w) := rfl

end
end Machine

/-- What is wrong with the nesting when an instruction is carried out here, its depth apart. -/
def Machine.fault (m : Machine σ) : Instruction → Option StructureError
  | .startObject start => m.entryFault start.type
  | .getObject =>
    match m.stack.head?.bind (·.member) with
    | some _ => none
    | none => some (.getObjectWithoutValue "")
  | .startMember member =>
    match m.stack with
    | [] => some (.memberWithoutObject member.qualifiedName)
    | top :: _ => top.member.map fun other =>
      .memberAlreadyOpen member.qualifiedName other.qualifiedName
  | .value literal =>
    match m.stack.head?.bind (·.member) with
    | some _ => none
    | none => some (.valueWithoutMember literal)
  | .endMember =>
    match m.stack.head?.bind (·.member) with
    | some _ => none
    | none => some .unmatchedEndMember
  | .endObject =>
    match m.stack with
    | [] => some .unmatchedEndObject
    | top :: _ => top.member.map fun other => .endObjectWithOpenMember other.qualifiedName

/-! ## The instructions -/

namespace Services

open Machine (onWorld_apply)

variable (services : Services σ)
variable {m : Machine σ} {top : Frame} {rest : List Frame} {site : Site} {member : Member}

def startFrame (start : ObjectStart) : Frame :=
  { type := start.type, name := start.name, arguments := start.arguments }

/-- An instruction that cannot stand here is refused, and nothing happens.  Of an object that
starts the type is looked up before that. -/
theorem execute_of_fault {i : Instruction} {e : StructureError} (h : m.fault i = some e)
    (htype : ∀ start, i = .startObject start → services.checkType start.type = .ok ()) :
    services.execute i m = .error (.structural e) m := by
  have hopen : ∀ {p : Prop} {other : StructureError},
      (match m.stack.head?.bind (·.member) with
        | some _ => none
        | none => some other) = some e →
      (other = e → m.stack.head?.bind (·.member) = none → p) → p := by
    intro p other h hp
    cases hm : m.stack.head?.bind (·.member) with
    | some member => simp [hm] at h
    | none => exact hp (by simpa [hm] using h) hm
  cases i with
  | startObject start =>
    have h : m.entryFault start.type = some e := h
    simp [execute, startObject, onWorld_apply, Build.ofExcept, htype start rfl, openFrame, h,
      Machine.malformed]
  | getObject =>
    refine hopen h fun he hm => ?_
    cases hs : m.stack with
    | nil => simp [execute, getObject, currentObject, hs, Machine.malformed, ← he]
    | cons top rest =>
      have ht : top.member = none := by simpa [hs] using hm
      simp [execute, getObject, currentObject, hs, ht, Machine.malformed, ← he]
  | startMember member =>
    cases hs : m.stack with
    | nil =>
      obtain rfl : StructureError.memberWithoutObject member.qualifiedName = e := by
        simpa [Machine.fault, hs] using h
      simp [execute, startMember, hs, Machine.malformed]
    | cons top rest =>
      obtain ⟨other, ht, rfl⟩ : ∃ other, top.member = some other ∧
          StructureError.memberAlreadyOpen member.qualifiedName other.qualifiedName = e := by
        simpa [Machine.fault, hs] using h
      simp [execute, startMember, hs, ht, Machine.malformed]
  | value literal =>
    refine hopen h fun he hm => ?_
    simp [execute, literalValue, hm, Machine.malformed, ← he]
  | endMember =>
    refine hopen h fun he hm => ?_
    cases hs : m.stack with
    | nil => simp [execute, endMember, hs, Machine.malformed, ← he]
    | cons top rest =>
      have ht : top.member = none := by simpa [hs] using hm
      simp [execute, endMember, hs, ht, Machine.malformed, ← he]
  | endObject =>
    cases hs : m.stack with
    | nil =>
      obtain rfl : StructureError.unmatchedEndObject = e := by simpa [Machine.fault, hs] using h
      simp [execute, endObject, hs, Machine.malformed]
    | cons top rest =>
      obtain ⟨other, ht, rfl⟩ : ∃ other, top.member = some other ∧
          StructureError.endObjectWithOpenMember other.qualifiedName = e := by
        simpa [Machine.fault, hs] using h
      simp [execute, endObject, hs, ht, Machine.malformed]

theorem ensureObject_of_site (hs : m.stack = top :: rest) (ht : top.site = some site) :
    services.ensureObject m = .ok site m := by
  simp [ensureObject, hs, ht]

theorem ensureObject_of_pending (hs : m.stack = top :: rest) (ht : top.site = none) :
    services.ensureObject m = match services.make m.around top.type top.arguments m.world with
      | .ok site w => .ok site ((m.setSite site).inWorld w)
      | .error e w => .error e (m.inWorld w) := by
  simp only [ensureObject, Action.bind_apply, Action.get_apply, hs, ht, onWorld_apply]
  cases services.make m.around top.type top.arguments m.world with
  | ok site w => exact congrArg _ (Machine.inWorld_setSite m w site)
  | error e w => rfl

/-- The object of the innermost frame, made if it is not there. -/
def objectOf (m : Machine σ) (top : Frame) : Build σ Site :=
  match top.site with
  | some site => pure site
  | none => services.make m.around top.type top.arguments

theorem setSite_eq_self (hs : m.stack = top :: rest) (ht : top.site = some site) :
    m.setSite site = m := by
  obtain ⟨world, stack, closed, supplied, base, result, recording⟩ := m
  obtain rfl : stack = top :: rest := hs
  obtain ⟨type, found, placeholder, member, pending, retrieved, name, arguments⟩ := top
  obtain rfl : found = some site := ht
  rfl

theorem ensureObject_eq (hs : m.stack = top :: rest) :
    services.ensureObject m = match services.objectOf m top m.world with
      | .ok site w => .ok site ((m.setSite site).inWorld w)
      | .error e w => .error e (m.inWorld w) := by
  cases ht : top.site with
  | some site =>
    simp [services.ensureObject_of_site hs ht, objectOf, ht, setSite_eq_self hs ht]
  | none => simp [services.ensureObject_of_pending hs ht, objectOf, ht]

theorem loaderOf_ok {loader : Option (Loader σ)} (h : services.loaderOf member = .ok loader) :
    services.loaders.find? member = loader := by
  rw [loaderOf] at h
  split at h
  · cases h
  · exact Except.ok.inj h

theorem startMember_of_closed (hs : m.stack = top :: rest) (ht : top.member = none) :
    services.startMember member m = match services.ensureObject m with
      | .ok _ m => match services.loaderOf member with
        | .ok loader => .ok () (m.openMember member loader)
        | .error e => .error e m
      | .error e m => .error e m := by
  simp only [startMember, Action.bind_apply, Action.get_apply, hs, ht]
  cases services.ensureObject m with
  | error e m => rfl
  | ok site m =>
    simp only [onWorld_apply, Build.ofExcept]
    cases services.loaderOf member <;> rfl

theorem literalValue_of_open (hs : m.stack = top :: rest) (ht : top.member = some member)
    (s : String) :
    services.literalValue s m = match services.readLiteral m.root member s m.world with
      | .ok v w => .ok () ((m.push v).inWorld w)
      | .error e w => .error e (m.inWorld w) := by
  simp only [literalValue, Action.bind_apply, Action.get_apply, hs, List.head?_cons,
    Option.bind_some, ht, onWorld_apply]
  cases services.readLiteral m.root member s m.world with
  | ok v w => exact congrArg _ (Machine.inWorld_push m w v)
  | error e w => rfl

theorem endMember_of_open (hs : m.stack = top :: rest) (ht : top.member = some member)
    (hsite : top.site = some site) :
    services.endMember m =
      match services.commit site.object site.collects member top.pending top.retrieved m.world with
      | .ok _ w => .ok () (m.closeMember.inWorld w)
      | .error e w => .error e (m.closeMember.inWorld w) := by
  simp only [endMember, Action.bind_apply, Action.get_apply, hs, ht, Action.set_apply, hsite,
    onWorld_apply]
  simp only [Machine.mapTop_world]
  cases services.commit site.object site.collects member top.pending top.retrieved m.world <;> rfl

theorem openFrame_apply (frame : Frame) :
    services.openFrame frame m = match m.entryFault frame.type with
      | some e => .error (.structural e) m
      | none =>
        if services.settings.maxDepth ≤ m.level then
          .error (.structural (.tooDeep services.settings.maxDepth)) m
        else .ok () (m.openObject frame) := by
  simp only [openFrame, Action.bind_apply, Action.get_apply]
  cases m.entryFault frame.type with
  | some e => rfl
  | none =>
    by_cases h : services.settings.maxDepth ≤ m.level
    · simp [h, Machine.malformed]
    · simp [h, Machine.openObject]

/-- Whether an object may start depends on its type and its level. -/
theorem checkStart_eq (type : TypeName) (level : Nat) :
    services.checkStart type level = match services.checkType type with
      | .error e => .error e
      | .ok _ =>
        if services.settings.maxDepth < level then
          .error (.structural (.tooDeep services.settings.maxDepth))
        else .ok () := by
  simp only [checkStart, bind, Except.bind]
  cases services.checkType type with
  | error e => rfl
  | ok _ =>
    by_cases h : services.settings.maxDepth < level
    · simp only [h, if_true]
      rfl
    · simp only [h, if_false]
      rfl

/-- An object that starts where nothing is wrong with the nesting. -/
theorem startObject_of_placed (start : ObjectStart) (h : m.entryFault start.type = none) :
    services.startObject start m = match services.checkStart start.type (m.level + 1) with
      | .error e => .error e m
      | .ok _ => (match m.stack, m.supplied with
          | [], some id => services.adoptSupplied id
          | _, _ => pure ()) (m.openObject (startFrame start)) := by
  simp only [startObject, Action.bind_apply, onWorld_apply, Build.ofExcept, Action.get_apply,
    openFrame_apply, checkStart_eq]
  cases services.checkType start.type with
  | error e => rfl
  | ok _ =>
    simp only [Machine.inWorld_self, h]
    by_cases hd : services.settings.maxDepth ≤ m.level
    · have hlt : services.settings.maxDepth < m.level + 1 := by omega
      simp only [hd, hlt, if_true]
    · have hlt : ¬ services.settings.maxDepth < m.level + 1 := by omega
      simp only [hd, hlt, if_false]
      rfl

theorem startObject_of_open (hs : m.stack = top :: rest) (ht : top.member = some member)
    (start : ObjectStart) :
    services.startObject start m = match services.checkStart start.type (m.level + 1) with
      | .error e => .error e m
      | .ok _ => .ok () (m.openObject (startFrame start)) := by
  rw [startObject_of_placed services start (by simp [Machine.entryFault, hs, ht]), hs]
  rfl

theorem startObject_of_first (hs : m.stack = []) (hc : m.rootClosed = false)
    (hsup : m.supplied = none) (start : ObjectStart) :
    services.startObject start m = match services.checkStart start.type 1 with
      | .error e => .error e m
      | .ok _ => .ok () (m.openObject (startFrame start)) := by
  rw [startObject_of_placed services start (by simp [Machine.entryFault, hs, hc]), hsup, hs]
  have hlevel : m.level + 1 = 1 := by rw [Machine.level, hs]; rfl
  rw [hlevel]
  rfl

theorem startObject_of_supplied {id : ObjectId} (hs : m.stack = []) (hc : m.rootClosed = false)
    (hsup : m.supplied = some id) (start : ObjectStart) :
    services.startObject start m = match services.checkStart start.type 1 with
      | .error e => .error e m
      | .ok _ => services.adoptSupplied id (m.openObject (startFrame start)) := by
  rw [startObject_of_placed services start (by simp [Machine.entryFault, hs, hc]), hsup, hs]
  have hlevel : m.level + 1 = 1 := by rw [Machine.level, hs]; rfl
  rw [hlevel]

/-- The frame of an object that is there already, as the value of a member of `site`. -/
def placeholder (heap : σ) (site : Site) (target : ObjectId) : Frame :=
  { type := services.host.typeOf heap target
    site := some {
      object := target
      collects := services.host.collects heap target
      scope := site.scope }
    isPlaceholder := true }

/-- The object that an open member holds is entered, unless it is too deep. -/
theorem getObject_of_open {target : ObjectId} (hs : m.stack = top :: rest)
    (ht : top.member = some member) (hsite : top.site = some site)
    (htarget : services.host.getMember m.world.heap site.object member = some (.object target)) :
    services.getObject m =
      if services.settings.maxDepth ≤ m.level then
        .error (.structural (.tooDeep services.settings.maxDepth)) (m.retrieve (.object target))
      else .ok () ((m.retrieve (.object target)).openObject
        (services.placeholder m.world.heap site target)) := by
  have hcurrent : services.currentObject m = .ok (site, target) := by
    simp [currentObject, hs, ht, hsite, htarget]
  have hfault : (m.retrieve (.object target)).entryFault
      (services.host.typeOf m.world.heap target) = none := by
    rw [Machine.entryFault, Machine.retrieve, Machine.mapTop_stack _ _ hs]
    simp [Frame.retrieve, ht]
  have hlevel : (m.retrieve (.object target)).level = m.level := by
    rw [Machine.level, Machine.retrieve, Machine.mapTop_stack _ _ hs, Machine.level, hs]
    rfl
  simp only [getObject, Action.bind_apply, Action.get_apply, hcurrent, Action.set_apply]
  refine (services.openFrame_apply (m := m.retrieve (.object target))
    (services.placeholder m.world.heap site target)).trans ?_
  rw [placeholder, hfault, hlevel]

theorem adoptSupplied_apply {id : ObjectId} (hs : m.stack = top :: rest) :
    services.adoptSupplied id m =
      match services.adopt m.around (services.host.typeOf m.world.heap id) id true m.world with
      | .ok site w => .ok () ({ m with
          supplied := none
          stack := { top with
            type := services.host.typeOf m.world.heap id, site := some site } :: rest }.inWorld w)
      | .error e w => .error e ({ m with supplied := none }.inWorld w) := by
  have haround : ({ m with supplied := none } : Machine σ).around = m.around := rfl
  simp only [adoptSupplied, Action.bind_apply, Action.get_apply, Action.set_apply, onWorld_apply]
  cases services.adopt m.around (services.host.typeOf m.world.heap id) id true m.world with
  | error e w => rfl
  | ok site w => simp [Machine.mapTop, hs, Machine.inWorld]

theorem completeObject_of_pending (hs : m.stack = top :: rest) (ht : top.site = none) :
    services.completeObject m = match services.make m.around top.type top.arguments m.world with
      | .ok site w => services.completeObject ((m.setSite site).inWorld w)
      | .error e w => .error e (m.inWorld w) := by
  have hsite : ∀ site w, services.ensureObject ((m.setSite site).inWorld w) =
      .ok site ((m.setSite site).inWorld w) := fun site w =>
    services.ensureObject_of_site (m.mapTop_stack _ hs) rfl
  simp only [completeObject, Action.bind_apply, ensureObject_of_pending services hs ht]
  cases services.make m.around top.type top.arguments m.world with
  | error e w => rfl
  | ok site w => simp only [hsite]

theorem completeObject_eq (hs : m.stack = top :: rest) :
    services.completeObject m = match services.objectOf m top m.world with
      | .ok site w => services.completeObject ((m.setSite site).inWorld w)
      | .error e w => .error e (m.inWorld w) := by
  cases ht : top.site with
  | some site => simp [objectOf, ht, setSite_eq_self hs ht]
  | none => simp [services.completeObject_of_pending hs ht, objectOf, ht]

theorem completeObject_of_inner {parent : Frame} (hs : m.stack = top :: parent :: rest)
    (ht : top.site = some site) :
    services.completeObject m =
      match (services.complete top.type top.name site (some parent.scope) >>= fun _ =>
        services.valueOf top.type site parent.object m.root parent.member) m.world with
      | .ok v w => .ok () ((m.close.push v).inWorld w)
      | .error e w => .error e (m.inWorld w) := by
  have hparent : m.parent = some parent := by simp [Machine.parent, hs]
  simp only [completeObject, Action.bind_apply, ensureObject_of_site services hs ht,
    Action.get_apply, hs, hparent, onWorld_apply, Option.map_some]
  cases services.complete top.type top.name site (some parent.scope) m.world with
  | error e w => rfl
  | ok _ w =>
    simp only [Machine.inWorld_world, Machine.inWorld_inWorld]
    cases services.valueOf top.type site parent.object m.root parent.member w with
    | error e w => rfl
    | ok v w => exact congrArg _ (Machine.inWorld_push m.close w v)

theorem completeObject_of_root (hs : m.stack = [top]) (ht : top.site = some site) :
    services.completeObject m = match services.complete top.type top.name site none m.world with
      | .ok _ w => .ok () ({ m.close with result := some site.object }.inWorld w)
      | .error e w => .error e (m.inWorld w) := by
  have hparent : m.parent = none := by simp [Machine.parent, hs]
  simp only [completeObject, Action.bind_apply, ensureObject_of_site services hs ht,
    Action.get_apply, hs, hparent, onWorld_apply, Option.map_none]
  cases services.complete top.type top.name site none m.world <;> rfl

theorem record_of_inside {r : Recording σ} {i : Instruction} (h : depthAfter r.depth i ≠ 0) :
    services.record r i m =
      .ok () (m.withRecording (some (r.add (depthAfter r.depth i) [i]))) := by
  rw [record, if_neg h]
  rfl

theorem record_of_last {r : Recording σ} {i : Instruction} (h : depthAfter r.depth i = 0) :
    services.record r i m =
      match Build.onHeap .deferred (r.loader r.member r.instructions) m.world with
      | .ok v w => services.endMember (((m.withRecording none).push v).inWorld w)
      | .error e w => .error e ((m.withRecording none).inWorld w) := by
  rw [record, if_pos h]
  have hworld : ∀ {α : Type} (act : Build σ α), Machine.onWorld act (m.withRecording none) =
      match act m.world with
      | .ok a w => .ok a ((m.withRecording none).inWorld w)
      | .error e w => .error e ((m.withRecording none).inWorld w) := fun act => rfl
  show (Machine.onWorld (Build.onHeap .deferred (r.loader r.member r.instructions)) >>= fun v =>
    modify (·.push v) >>= fun _ => services.endMember) (m.withRecording none) = _
  simp only [Action.bind_apply, hworld, Action.modify_apply]
  cases Build.onHeap .deferred (r.loader r.member r.instructions) m.world <;> simp

theorem endObject_of_closed (hs : m.stack = top :: rest) (ht : top.member = none)
    (hp : top.isPlaceholder = false) :
    services.endObject m = services.completeObject m := by
  simp [endObject, hs, ht, hp]

end Services
end ObjectMarkup
