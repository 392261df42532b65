/-
Building a tree is recursion on it.

A tree is built by writing it as a stream of instructions and carrying the stream out on a stack of
frames.  `Services.evaluate` builds the same tree without a stream, a stack or a recording.  The
main theorem of this file is `build_eq_evaluate`: the two are the same action on the world, so that
they agree on the object or the first error and on all that is left behind.

The proof follows the tree.  Each lemma says what the stream of one part does from any machine that
stands where the part belongs (`Machine.At`): it does to the world what the evaluator does, and to
the frames nothing but to hand over the values.
-/
import ObjectMarkup.Proofs.Drive

namespace ObjectMarkup

variable {σ : Type}

/-- A frame whose object is there and has no open member. -/
structure Frame.Ready (f : Frame) (site : Site) : Prop where
  site : f.site = some site
  member : f.member = none
  pending : f.pending = []
  retrieved : f.retrieved = none
  isPlaceholder : f.isPlaceholder = false

/-- A member that is opened and closed leaves a ready frame as it was. -/
theorem Frame.Ready.closeMember {f : Frame} {site : Site} (h : f.Ready site) (member : Member)
    (vs : List Value) : ((f.openMember member).receive vs).closeMember = f := by
  obtain ⟨type, _, _, open?, pending, retrieved, name, arguments⟩ := f
  obtain rfl : open? = none := h.member
  obtain rfl : pending = [] := h.pending
  obtain rfl : retrieved = none := h.retrieved
  rfl

namespace Machine

/-- The innermost frame of the machine is `top`, and what is open is what the evaluator says. -/
structure At (m : Machine σ) (e : Enclosure) (top : Frame) (rest : List Frame) : Prop where
  recording : m.recording = none
  stack : m.stack = top :: rest
  site : top.site = some e.site
  level : m.level = e.level
  root : m.root = some e.root

def pushAll (vs : List Value) : Machine σ → Machine σ := mapTop (Frame.receive vs)

theorem mapTop_mapTop (f g : Frame → Frame) (m : Machine σ) :
    (m.mapTop f).mapTop g = m.mapTop fun top => g (f top) := by
  obtain ⟨world, stack, closed, supplied, base, result, recording⟩ := m
  cases stack <;> rfl

theorem mapTop_eq_self {m : Machine σ} {top : Frame} {rest : List Frame} {f : Frame → Frame}
    (hs : m.stack = top :: rest) (hf : f top = top) : m.mapTop f = m := by
  obtain ⟨world, stack, closed, supplied, base, result, recording⟩ := m
  obtain rfl : stack = top :: rest := hs
  simp only [mapTop, hf]

theorem pushAll_nil (m : Machine σ) : m.pushAll [] = m := by
  cases h : m.stack with
  | nil => simp [pushAll, mapTop, h]
  | cons top rest => exact mapTop_eq_self h (by simp [Frame.receive])

theorem pushAll_singleton (m : Machine σ) (v : Value) : m.pushAll [v] = m.push v := rfl

theorem pushAll_pushAll (m : Machine σ) (vs vs' : List Value) :
    (m.pushAll vs).pushAll vs' = m.pushAll (vs ++ vs') := by
  rw [pushAll, pushAll, mapTop_mapTop, pushAll]
  refine congrArg (mapTop · m) (funext fun top => ?_)
  simp [Frame.receive]

@[simp] theorem mapTop_level (f : Frame → Frame) (m : Machine σ) :
    (m.mapTop f).level = m.level := by
  obtain ⟨world, stack, closed, supplied, base, result, recording⟩ := m
  cases stack <;> rfl

theorem mapTop_root {f : Frame → Frame} (hf : ∀ top, (f top).site = top.site) (m : Machine σ) :
    (m.mapTop f).root = m.root := by
  obtain ⟨world, stack, closed, supplied, base, result, recording⟩ := m
  cases stack with
  | nil => rfl
  | cons top rest =>
    cases rest with
    | nil => simp [mapTop, root, Frame.object, hf]
    | cons next rest => simp [mapTop, root]

theorem At.mapTop {m : Machine σ} {e : Enclosure} {top : Frame} {rest : List Frame}
    (h : m.At e top rest) {f : Frame → Frame} (hf : ∀ top, (f top).site = top.site) :
    (m.mapTop f).At e (f top) rest where
  recording := (m.mapTop_recording f).trans h.recording
  stack := m.mapTop_stack f h.stack
  site := (hf top).trans h.site
  level := (mapTop_level f m).trans h.level
  root := (mapTop_root hf m).trans h.root

theorem At.openMember {m : Machine σ} {e : Enclosure} {top : Frame} {rest : List Frame}
    (h : m.At e top rest) (member : Member) :
    (m.openMember member none).At e (top.openMember member) rest :=
  h.mapTop (f := Frame.openMember member) fun _ => rfl

/-- Inside an object that is open, another one is a level deeper. -/
theorem At.inner {m : Machine σ} {e : Enclosure} {top : Frame} {rest : List Frame}
    (h : m.At e top rest) (frame : Frame) (site : Site) :
    (m.openObject (frame.setSite site)).At { e with site, level := e.level + 1 }
      (frame.setSite site) (top :: rest) where
  recording := h.recording
  stack := by rw [openObject, h.stack]
  site := rfl
  level := by rw [← h.level]; rfl
  root := by
    have hroot : (m.openObject (frame.setSite site)).root = m.root := by
      rw [Machine.root, Machine.root, openObject_stack, h.stack, List.getLast?_cons_cons]
    exact hroot.trans h.root

theorem At.around_openObject {m : Machine σ} {e : Enclosure} {top : Frame} {rest : List Frame}
    (h : m.At e top rest) (frame : Frame) : (m.openObject frame).around = some e.site.scope := by
  simp [around, parent, openObject, h.stack, Frame.scope, h.site]

/-- The frame of an inner object comes and goes. -/
theorem close_openObject {m : Machine σ} (h : m.stack ≠ []) (frame : Frame) :
    (m.openObject frame).close = m := by
  obtain ⟨world, stack, closed, supplied, base, result, recording⟩ := m
  cases stack with
  | nil => exact absurd rfl h
  | cons top rest => simp [openObject, close]

end Machine

open Instruction (Balanced)
open Machine (blank)

namespace Services

variable (services : Services σ)

/-! ## Members -/

section

variable {m : Machine σ} {e : Enclosure} {top : Frame} {rest : List Frame}

/-- Closing a member commits the values it has received, and the frame is ready again. -/
theorem drive_closeMember (h : m.At e top rest) (ht : top.Ready e.site) (member : Member)
    (vs : List Value) :
    services.drive [.endMember] ((m.openMember member none).pushAll vs) =
      services.commit e.site.object e.site.collects member vs none >>= fun _ => pure m := by
  have hopen := (h.mapTop (f := Frame.openMember member) fun _ => rfl).mapTop
    (f := Frame.receive vs) fun _ => rfl
  have hclose : ((m.openMember member none).pushAll vs).closeMember = m := by
    rw [Machine.closeMember, Machine.pushAll, Machine.openMember, Machine.mapTop_mapTop,
      Machine.mapTop_mapTop]
    exact Machine.mapTop_eq_self h.stack (ht.closeMember member vs)
  have hmember : ((top.openMember member).receive vs).member = some member := rfl
  rw [services.drive_endMember (m := (m.openMember member none).pushAll vs) hopen.recording
    hopen.stack hmember hopen.site, hclose]
  rfl

/-- A deferred member hands its contents to its loader and commits what the loader makes. -/
theorem drive_deferred (h : m.At e top rest) (ht : top.Ready e.site) (member : Member)
    (loader : Loader σ) {body : List Instruction} (hb : Balanced body) :
    services.drive (body ++ [.endMember]) (m.openMember member (some loader)) =
      Build.onHeap .deferred (loader member body) >>= fun v =>
        services.commit e.site.object e.site.collects member [v] none >>= fun _ => pure m := by
  have hopen : m.openMember member (some loader) =
      (m.openMember member none).withRecording (some { member, loader }) := rfl
  have hidle : ∀ r, ((m.openMember member none).withRecording r).withRecording none =
      m.openMember member none := fun r => by
    have hrec : (m.openMember member none).recording = none :=
      (Machine.mapTop_recording m _).trans h.recording
    rw [Machine.withRecording_withRecording, Machine.withRecording, ← hrec]
  rw [hopen, drive_append, drive_balanced services hb _ (by exact Nat.one_pos), pure_bind,
    drive_endRecording services _ rfl]
  refine congrArg _ (funext fun v => ?_)
  have hcommit := services.drive_closeMember h ht member [v]
  rw [Machine.pushAll_singleton] at hcommit
  have hnone : (m.openMember member none).withRecording none = m.openMember member none :=
    hidle none
  rw [hnone]
  exact hcommit

end

/-! ## Trees -/

/-- The object of a frame is made before its first member, or at its end if it has none. -/
theorem drive_members_pending {m : Machine σ} {top : Frame} {rest : List Frame}
    (hr : m.recording = none) (hs : m.stack = top :: rest) (ht : top.member = none)
    (hp : top.isPlaceholder = false) (hsite : top.site = none) (as : List Assignment) :
    services.drive (Assignment.instructionsAll as ++ [.endObject]) m =
      services.make m.around top.type top.arguments >>= fun site =>
        services.drive (Assignment.instructionsAll as ++ [.endObject]) (m.setSite site) := by
  have hfirst : ∀ mem (is : List Instruction),
      services.drive (.startMember mem :: is) m =
        services.make m.around top.type top.arguments >>= fun site =>
          services.drive (.startMember mem :: is) (m.setSite site) := fun mem is => by
    rw [drive_cons, drive_startMember_pending services hr hs ht hsite, bind_assoc]
    simp only [← drive_cons]
  cases as with
  | nil => exact services.drive_endObject_pending hr hs ht hp hsite
  | cons a as =>
    cases a with
    | literal mem s => exact hfirst mem _
    | children mem trees =>
      simp only [Assignment.instructionsAll, Assignment.instructions, List.cons_append]
      exact hfirst mem _

mutual

/-- The stream of a tree in an open member: its value is handed to the member. -/
theorem drive_tree : (t : Tree) → {m : Machine σ} → {e : Enclosure} → {top : Frame} →
    {rest : List Frame} → {member : Member} → m.At e top rest → top.member = some member →
      services.drive t.instructions m = m.push <$> services.evaluateTree e member t
  | .node type name arguments assignments, m, e, top, rest, member, h, ht => by
    rw [Tree.instructions, drive_cons, drive_startObject services h.recording h.stack ht,
      bind_assoc, evaluateTree, map_bind, h.level]
    refine congrArg _ (funext fun _ => ?_)
    rw [pure_bind, drive_members_pending services
      (m := m.openObject (startFrame { type, name, arguments })) h.recording rfl rfl rfl rfl,
      h.around_openObject, map_bind]
    refine congrArg _ (funext fun site => ?_)
    have hat := h.inner (startFrame { type, name, arguments }) site
    rw [Machine.setSite_openObject, drive_append,
      drive_assignments assignments hat ⟨rfl, rfl, rfl, rfl, rfl⟩, bind_map_left, map_bind]
    refine congrArg _ (funext fun _ => ?_)
    rw [drive_endObject_inner services hat.recording hat.stack rfl rfl rfl,
      Machine.close_openObject (by simp [h.stack]), hat.root, map_bind, Frame.scope, Frame.object,
      h.site, ht]
    rfl

/-- The stream of an assignment: the frames are as before. -/
theorem drive_assignment : (a : Assignment) → {m : Machine σ} → {e : Enclosure} → {top : Frame} →
    {rest : List Frame} → m.At e top rest → top.Ready e.site →
      services.drive a.instructions m = (fun _ => m) <$> services.evaluateAssignment e a
  | .literal member s, m, e, top, rest, h, ht => by
    rw [Assignment.instructions, drive_cons,
      drive_startMember services h.recording h.stack ht.member h.site, bind_map_left,
      evaluateAssignment, map_bind]
    refine congrArg _ (funext fun loader => ?_)
    cases loader with
    | some loader =>
      rw [map_bind]
      simp only [map_eq_pure_bind (fun _ => m)]
      exact services.drive_deferred h ht member loader (.singleton rfl)
    | none =>
      show _ = (fun _ => m) <$> (services.readLiteral (some e.root) member s >>= fun v =>
        services.commit e.site.object e.site.collects member [v] none)
      have hopen := h.openMember member
      rw [drive_cons, drive_value services hopen.recording hopen.stack rfl, bind_map_left,
        hopen.root, map_bind]
      refine congrArg _ (funext fun v => ?_)
      rw [map_eq_pure_bind (fun _ => m)]
      exact services.drive_closeMember h ht member [v]
  | .children member trees, m, e, top, rest, h, ht => by
    rw [Assignment.instructions, drive_cons,
      drive_startMember services h.recording h.stack ht.member h.site, bind_map_left,
      evaluateAssignment, map_bind]
    refine congrArg _ (funext fun loader => ?_)
    cases loader with
    | some loader =>
      rw [services.drive_deferred h ht member loader (Tree.instructionsAll_balanced trees)]
      simp only [bind_assoc, pure_bind, map_eq_pure_bind (fun _ => m)]
    | none =>
      show _ = (fun _ => m) <$> (services.evaluateTrees e member trees >>= fun vs =>
        services.commit e.site.object e.site.collects member vs none)
      rw [drive_append, drive_trees trees (h.openMember member) rfl, bind_map_left, map_bind]
      refine congrArg _ (funext fun vs => ?_)
      rw [map_eq_pure_bind (fun _ => m)]
      exact services.drive_closeMember h ht member vs

theorem drive_assignments : (as : List Assignment) → {m : Machine σ} → {e : Enclosure} →
    {top : Frame} → {rest : List Frame} → m.At e top rest → top.Ready e.site →
      services.drive (Assignment.instructionsAll as) m =
        (fun _ => m) <$> services.evaluateAssignments e as
  | [], m, e, top, rest, h, ht => by
    rw [Assignment.instructionsAll, drive_nil, evaluateAssignments, map_pure]
  | a :: as, m, e, top, rest, h, ht => by
    rw [Assignment.instructionsAll, drive_append, drive_assignment a h ht, evaluateAssignments,
      map_bind, bind_map_left]
    exact congrArg _ (funext fun _ => drive_assignments as h ht)

/-- The streams of the trees in an open member: their values are handed to the member in turn. -/
theorem drive_trees : (ts : List Tree) → {m : Machine σ} → {e : Enclosure} → {top : Frame} →
    {rest : List Frame} → {member : Member} → m.At e top rest → top.member = some member →
      services.drive (Tree.instructionsAll ts) m =
        m.pushAll <$> services.evaluateTrees e member ts
  | [], m, e, top, rest, member, h, ht => by
    rw [Tree.instructionsAll, drive_nil, evaluateTrees, map_pure, Machine.pushAll_nil]
  | t :: ts, m, e, top, rest, member, h, ht => by
    have hnext : ∀ v, services.drive (Tree.instructionsAll ts) (m.push v) =
        (m.push v).pushAll <$> services.evaluateTrees e member ts := fun v =>
      drive_trees ts (h.mapTop (f := Frame.receive [v]) fun _ => rfl) ht
    rw [Tree.instructionsAll, drive_append, drive_tree t h ht, bind_map_left, evaluateTrees,
      map_bind]
    refine congrArg _ (funext fun v => ?_)
    rw [hnext, map_bind, map_eq_pure_bind]
    simp only [map_pure, ← Machine.pushAll_singleton, Machine.pushAll_pushAll, List.cons_append,
      List.nil_append]

end

/-! ## The first object -/

def closed (w : World σ) (base : Option ScopeId) (id : ObjectId) : Machine σ :=
  { world := w, rootClosed := true, base, result := some id }

/-- Takes the first object over, or makes it. -/
def settleRoot (supplied : Option ObjectId) (type : TypeName) (arguments : List String) :
    Build σ (TypeName × Site) :=
  match supplied with
  | some id => do
    let type := services.host.typeOf (← get).heap id
    let site ← services.adopt none type id true
    pure (type, site)
  | none => do
    let site ← services.make none type arguments
    pure (type, site)

theorem drive_root_members (w : World σ) (base : Option ScopeId) {frame : Frame} {site : Site}
    (ht : frame.Ready site) (as : List Assignment) :
    services.drive (Assignment.instructionsAll as ++ [.endObject])
        ((blank w none base).openObject frame) =
      services.evaluateAssignments { site, root := site.object, level := 1 } as >>= fun _ =>
        services.complete frame.type frame.name site none >>= fun _ =>
          pure (closed w base site.object) := by
  have hat : ((blank w none base).openObject frame).At
      { site, root := site.object, level := 1 } frame [] :=
    { recording := rfl
      stack := rfl
      site := ht.site
      level := rfl
      root := by simp [Machine.root, blank, Frame.object, ht.site] }
  rw [drive_append, drive_assignments services as hat ht, bind_map_left]
  refine congrArg _ (funext fun _ => ?_)
  exact services.drive_endObject_root hat.recording hat.stack ht.member ht.isPlaceholder ht.site

/-- The start of a first object that is made: what comes after it finds its frame settled. -/
theorem drive_first_start (w : World σ) (base : Option ScopeId) (start : ObjectStart)
    (as : List Assignment) :
    services.drive (.startObject start :: (Assignment.instructionsAll as ++ [.endObject]))
        (blank w none base) =
      (Build.ofExcept fun _ => services.checkStart start.type 1) >>= fun _ =>
        services.make base start.type start.arguments >>= fun site =>
          services.drive (Assignment.instructionsAll as ++ [.endObject])
            ((blank w none base).openObject ((startFrame start).setSite site)) := by
  have hfirst : services.drive [.startObject start] (blank w none base) =
      (Build.ofExcept fun _ => services.checkStart start.type 1) >>= fun _ =>
        pure ((blank w none base).openObject (startFrame start)) := by
    funext v
    rw [drive_singleton, step_of_idle services rfl, execute,
      startObject_of_first services (m := (blank w none base).inWorld v) rfl rfl rfl]
    simp only [Action.bind_apply, Build.ofExcept]
    cases services.checkStart start.type 1 <;> rfl
  rw [drive_cons, hfirst, bind_assoc]
  refine congrArg _ (funext fun _ => ?_)
  rw [pure_bind, drive_members_pending services
    (m := (blank w none base).openObject (startFrame start)) rfl rfl rfl rfl rfl]
  rfl

/-- The start of the first object: what comes after it finds its frame settled. -/
theorem drive_root_start (w : World σ) (supplied : Option ObjectId) (start : ObjectStart)
    (as : List Assignment) :
    services.drive (.startObject start :: (Assignment.instructionsAll as ++ [.endObject]))
        (blank w supplied none) =
      (Build.ofExcept fun _ => services.checkStart start.type 1) >>= fun _ =>
        services.settleRoot supplied start.type start.arguments >>= fun settled =>
          services.drive (Assignment.instructionsAll as ++ [.endObject])
            ((blank w none none).openObject
              { startFrame start with type := settled.1, site := some settled.2 }) := by
  cases supplied with
  | none =>
    rw [drive_first_start]
    refine congrArg _ (funext fun _ => ?_)
    rw [settleRoot, bind_assoc]
    refine congrArg _ (funext fun site => ?_)
    rw [pure_bind]
    rfl
  | some id =>
    have hfirst : services.drive [.startObject start] (blank w (some id) none) =
        (Build.ofExcept fun _ => services.checkStart start.type 1) >>= fun _ =>
          services.settleRoot (some id) start.type start.arguments >>= fun settled =>
            pure ((blank w none none).openObject
              { startFrame start with type := settled.1, site := some settled.2 }) := by
      funext v
      rw [drive_singleton, step_of_idle services rfl, execute,
        startObject_of_supplied services (m := (blank w (some id) none).inWorld v) rfl rfl rfl,
        adoptSupplied_apply services
          (m := ((blank w (some id) none).inWorld v).openObject (startFrame start)) rfl]
      simp only [Action.bind_apply, Build.ofExcept]
      cases services.checkStart start.type 1 with
      | error e => rfl
      | ok _ =>
        have haround : (((blank w (some id) none).inWorld v).openObject
            (startFrame start)).around = none := rfl
        simp only [settleRoot, Action.bind_apply, Action.get_apply, Machine.openObject_world,
          Machine.inWorld_world, haround]
        cases services.adopt none (services.host.typeOf v.heap id) id true v <;> rfl
    rw [drive_cons, hfirst, bind_assoc]
    refine congrArg _ (funext fun _ => ?_)
    rw [bind_assoc]
    simp only [pure_bind]

theorem drive_rootTree (t : Tree) (w : World σ) (supplied : Option ObjectId) :
    services.drive t.instructions (blank w supplied none) =
      closed w none <$> services.evaluateRoot supplied t := by
  obtain ⟨type, name, arguments, assignments⟩ := t
  have hmembers : ∀ settled : TypeName × Site,
      services.drive (Assignment.instructionsAll assignments ++ [.endObject])
          ((blank w none none).openObject { startFrame { type, name, arguments } with
            type := settled.1, site := some settled.2 }) =
        services.evaluateAssignments
            { site := settled.2, root := settled.2.object, level := 1 } assignments >>= fun _ =>
          services.complete settled.1 name settled.2 none >>= fun _ =>
            pure (closed w none settled.2.object) := fun settled =>
    services.drive_root_members w none ⟨rfl, rfl, rfl, rfl, rfl⟩ assignments
  rw [Tree.instructions, drive_root_start]
  simp only [hmembers]
  rw [evaluateRoot, map_bind]
  refine congrArg _ (funext fun _ => ?_)
  cases supplied <;> simp only [settleRoot, bind_assoc, pure_bind, map_bind, map_pure]

/-! ## Building -/

theorem run_eq_drive (stream : List Instruction) (root : Option ObjectId) (base : Option ScopeId)
    (w : World σ) :
    services.run stream root base =
      services.drive stream (blank w root base) >>= fun m =>
        Build.ofExcept fun _ => m.finish := by
  have hblank : ∀ v, (blank w root base).inWorld v = blank v root base := fun v => rfl
  funext v
  simp only [Action.bind_apply, drive, hblank, run_eq_steps]
  cases services.steps stream (blank v root base) with
  | error e m => rfl
  | ok _ m =>
    simp only [Build.ofExcept, Machine.inWorld_finish]
    cases m.finish <;> rfl

/-- A tree that has an order is built by evaluating it in this order. -/
theorem build_of_sorted {t t' : Tree} (hsort : t.sort = .ok t') (root : Option ObjectId) :
    services.build t root = services.evaluateRoot root t' := by
  funext w
  rw [build, Tree.write, hsort]
  show services.run t'.instructions root none w = services.evaluateRoot root t' w
  rw [run_eq_drive services t'.instructions root none w, drive_rootTree, bind_map_left]
  exact congrFun (bind_pure _) w

theorem build_of_unsorted {t : Tree} {e : Error} (hsort : t.sort = .error e)
    (root : Option ObjectId) (w : World σ) : services.build t root w = .error e w := by
  rw [build, Tree.write, hsort]
  rfl

/-- Carrying out the stream of a tree is evaluating the tree. -/
theorem build_eq_evaluate (t : Tree) (root : Option ObjectId) :
    services.build t root = services.evaluate t root := by
  funext w
  rw [evaluate]
  cases hsort : t.sort with
  | error e => exact services.build_of_unsorted hsort root w
  | ok t' => rw [services.build_of_sorted hsort]

end Services
end ObjectMarkup
