/-
The calls that a construction makes.

Watched services do what the services do and note every call that can change an object: what is
called, with what, in the order of the calls.  Questions that change nothing (a type, a member, a
conversion) are not noted.  A watched machine does what the machine does (`step_watched`), so that
its notes are the calls of the machine; the calls of loaders among them are those at the ends of
deferred members (`loads_step`).
-/
import ObjectMarkup.Proofs.Alike
import ObjectMarkup.Proofs.Drive
import ObjectMarkup.Proofs.Scoping

namespace ObjectMarkup

variable {σ α ε : Type}

/-- A call that can change an object. -/
inductive Call where
  /-- a constructor, and the object that it made if it did not fail -/
  | activate (type : TypeName) (arguments : List String) (made : Option ObjectId)
  | load (member : Member) (instructions : List Instruction)
  | setMember (target : ObjectId) (member : Member) (v : Value)
  | setAttached (target : ObjectId) (member : Member) (v : Value)
  | append (target : ObjectId) (v : Value)
  | beginInit (target : ObjectId)
  | endInit (target : ObjectId)
  | provide (target : ObjectId) (place : Provision)

/-- What a loader is called with. -/
def Call.load? : Call → Option (Member × List Instruction)
  | .load member instructions => some (member, instructions)
  | _ => none

/-- The calls of loaders. -/
def loads (calls : List Call) : List (Member × List Instruction) := calls.filterMap Call.load?

/-- The object that a constructor made. -/
def Call.made? : Call → Option ObjectId
  | .activate _ _ made => made
  | _ => none

/-- The objects that constructors made, in the order of the calls. -/
def objectsMade (calls : List Call) : List ObjectId := calls.filterMap Call.made?

/-! ## Watching -/

/-- A heap, and the calls that were made on it. -/
structure Watched (σ : Type) where
  heap : σ
  calls : List Call

namespace Watched

def watch (calls : List Call) (heap : σ) : Watched σ := ⟨heap, calls⟩

/-- Notes a call, whether it succeeds or not. -/
def note (c : Call) (act : EStateM ε σ α) : EStateM ε (Watched σ) α := fun h =>
  match act h.heap with
  | .ok a heap => .ok a ⟨heap, h.calls ++ [c]⟩
  | .error e heap => .error e ⟨heap, h.calls ++ [c]⟩

def noteUpdate (c : Call) (f : σ → σ) (h : Watched σ) : Watched σ := ⟨f h.heap, h.calls ++ [c]⟩

/-- Notes the call of a constructor with what it made. -/
def noteMade (type : TypeName) (arguments : List String) (make : EStateM ε σ ObjectId) :
    EStateM ε (Watched σ) ObjectId := fun h =>
  match make h.heap with
  | .ok id heap => .ok id ⟨heap, h.calls ++ [.activate type arguments (some id)]⟩
  | .error e heap => .error e ⟨heap, h.calls ++ [.activate type arguments none]⟩

end Watched

open Watched (note noteUpdate noteMade)

def Host.watched (host : Host σ) : Host (Watched σ) where
  typeOf h := host.typeOf h.heap
  getMember h := host.getMember h.heap
  setMember id m v := note (.setMember id m v) (host.setMember id m v)
  setAttached id m v := note (.setAttached id m v) (host.setAttached id m v)
  collects h := host.collects h.heap
  append id v := note (.append id v) (host.append id v)
  listens h := host.listens h.heap
  beginInit id := noteUpdate (.beginInit id) (host.beginInit id)
  endInit id := noteUpdate (.endInit id) (host.endInit id)
  provides h := host.provides h.heap
  provide id p := note (.provide id p) (host.provide id p)
  handles h := host.handles h.heap

def Loader.watched (loader : Loader σ) : Loader (Watched σ) := fun m is =>
  note (.load m is) (loader m is)

def Services.watched (services : Services σ) : Services (Watched σ) where
  schema := services.schema
  host := services.host.watched
  activate type arguments := noteMade type arguments (services.activate type arguments)
  convert := services.convert
  loaders := ⟨services.loaders.entries.map fun e => (e.1, e.2.watched)⟩
  settings := services.settings

def World.watch (calls : List Call) (w : World σ) : World (Watched σ) :=
  ⟨⟨w.heap, calls⟩, w.context⟩

def Recording.watch (r : Recording σ) : Recording (Watched σ) :=
  { r with loader := r.loader.watched }

def Machine.watch (calls : List Call) (m : Machine σ) : Machine (Watched σ) :=
  { m with world := m.world.watch calls, recording := m.recording.map Recording.watch }

/-! ## Links -/

/-- More calls, and no loader among them. -/
def CallsMore (calls calls' : List Call) : Prop := ∃ more, calls' = calls ++ more ∧ loads more = []

theorem CallsMore.refl (calls : List Call) : CallsMore calls calls := ⟨[], by simp, rfl⟩

theorem CallsMore.trans {calls calls' calls'' : List Call} (h : CallsMore calls calls')
    (h' : CallsMore calls' calls'') : CallsMore calls calls'' := by
  obtain ⟨more, rfl, hmore⟩ := h
  obtain ⟨others, rfl, hothers⟩ := h'
  refine ⟨more ++ others, by simp, ?_⟩
  rw [loads, List.filterMap_append]
  simp only [loads] at hmore hothers
  rw [hmore, hothers]
  rfl

theorem CallsMore.note {c : Call} (hc : c.load? = none) (calls : List Call) :
    CallsMore calls (calls ++ [c]) :=
  ⟨[c], rfl, by simp [loads, hc]⟩

/-- A state and the same state watched, at a stage given by the calls so far. -/
def watching {τ : Type} (watch : List Call → σ → τ) : Link (List Call) σ τ where
  le := CallsMore
  refl := CallsMore.refl
  trans := CallsMore.trans
  states calls s t := t = watch calls s

/-- From a state, and from the same state watched, the two actions end alike. -/
def EchoAt {τ : Type} (watch : List Call → σ → τ) (calls : List Call) (s : σ)
    (x : EStateM ε σ α) (y : EStateM ε τ α) : Prop :=
  (watching watch).Ends calls (fun _ a b => a = b) (x s) (y (watch calls s))

/-- The two actions do the same, the second one watched. -/
def Echo {τ : Type} (watch : List Call → σ → τ) (x : EStateM ε σ α) (y : EStateM ε τ α) : Prop :=
  ∀ calls s, EchoAt watch calls s x y

section

variable {τ β : Type} {watch : List Call → σ → τ}

/-- Without a call the two actions end alike when they end in the same way. -/
theorem EchoAt.of_eq {calls : List Call} {s : σ} {x : EStateM ε σ α} {y : EStateM ε τ α}
    (h : y (watch calls s) = match x s with
      | .ok a s' => .ok a (watch calls s')
      | .error e s' => .error e (watch calls s')) : EchoAt watch calls s x y := by
  rw [EchoAt, h]
  cases x s with
  | ok a s' => exact .ok (.refl calls) rfl rfl
  | error e s' => exact .error (.refl calls) rfl

theorem EchoAt.bind {calls : List Call} {s : σ} {x : EStateM ε σ α} {y : EStateM ε τ α}
    {f : α → EStateM ε σ β} {g : α → EStateM ε τ β} (hx : EchoAt watch calls s x y)
    (hf : ∀ calls s a, EchoAt watch calls s (f a) (g a)) :
    EchoAt watch calls s (x >>= f) (y >>= g) := by
  rw [EchoAt, Action.bind_apply, Action.bind_apply]
  rw [EchoAt] at hx
  generalize x s = r at hx ⊢
  generalize y (watch calls s) = r' at hx ⊢
  cases hx with
  | error hk hs => exact .error hk hs
  | ok hk hab hs =>
    cases hab
    cases hs
    exact (hf _ _ _).before hk

theorem EchoAt.get_bind {calls : List Call} {s : σ} {f : σ → EStateM ε σ β}
    {g : τ → EStateM ε τ β} (h : EchoAt watch calls s (f s) (g (watch calls s))) :
    EchoAt watch calls s (get >>= f) (get >>= g) := h

theorem EchoAt.set_bind {calls : List Call} {s t : σ} {f : PUnit → EStateM ε σ β}
    {g : PUnit → EStateM ε τ β} (h : EchoAt watch calls t (f ⟨⟩) (g ⟨⟩)) :
    EchoAt watch calls s (set t >>= f) (set (watch calls t) >>= g) := h

namespace Echo

theorem pure (a : α) : Echo watch (Pure.pure a : EStateM ε σ α) (Pure.pure a) :=
  fun _ _ => .of_eq rfl

theorem throw (e : ε) :
    Echo watch (MonadExcept.throw e : EStateM ε σ α) (MonadExcept.throw e) :=
  fun _ _ => .of_eq rfl

theorem bind {x : EStateM ε σ α} {y : EStateM ε τ α} {f : α → EStateM ε σ β}
    {g : α → EStateM ε τ β} (hx : Echo watch x y) (hf : ∀ a, Echo watch (f a) (g a)) :
    Echo watch (x >>= f) (y >>= g) :=
  fun calls s => (hx calls s).bind fun calls s a => hf a calls s

theorem get_bind {f : σ → EStateM ε σ β} {g : τ → EStateM ε τ β}
    (hf : ∀ s calls, Echo watch (f s) (g (watch calls s))) :
    Echo watch (get >>= f) (get >>= g) :=
  fun calls s => .get_bind (hf s calls calls s)

theorem update {f : σ → σ} {g : τ → τ} (h : ∀ calls s, g (watch calls s) = watch calls (f s)) :
    Echo watch (modify f : EStateM ε σ PUnit) (modify g) :=
  fun calls s => .of_eq (congrArg _ (h calls s))

end Echo

end

/-! ## The calls of the host -/

namespace Watched

theorem note_echo {c : Call} (hc : c.load? = none) (act : EStateM ε σ α) :
    Echo Watched.watch act (note c act) := by
  intro calls s
  rw [EchoAt, note, show (Watched.watch calls s).heap = s from rfl]
  cases act s with
  | ok a heap => exact .ok (.note hc calls) rfl rfl
  | error e heap => exact .error (.note hc calls) rfl

theorem noteMade_echo (type : TypeName) (arguments : List String) (make : EStateM ε σ ObjectId) :
    Echo Watched.watch make (noteMade type arguments make) := by
  intro calls s
  rw [EchoAt, noteMade, show (Watched.watch calls s).heap = s from rfl]
  cases make s with
  | ok id heap => exact .ok (.note rfl calls) rfl rfl
  | error e heap => exact .error (.note rfl calls) rfl

end Watched

namespace Build

theorem onHeap_echo (wrap : ε → Error) {act : EStateM ε σ α} {act' : EStateM ε (Watched σ) α}
    (h : Echo Watched.watch act act') :
    Echo World.watch (Build.onHeap wrap act) (Build.onHeap wrap act') := by
  intro calls w
  have hends := h calls w.heap
  rw [EchoAt] at hends
  rw [EchoAt, onHeap, onHeap, show (w.watch calls).heap = Watched.watch calls w.heap from rfl]
  generalize act w.heap = r at hends ⊢
  generalize act' (Watched.watch calls w.heap) = r' at hends ⊢
  cases hends with
  | ok hk hab hs =>
    cases hs
    exact .ok hk hab rfl
  | error hk hs =>
    cases hs
    exact .error hk rfl

theorem onHeap_note (wrap : ε → Error) (c : Call) (act : EStateM ε σ α) (w : World σ)
    (calls : List Call) :
    Build.onHeap wrap (note c act) (w.watch calls) = match Build.onHeap wrap act w with
      | .ok a w' => .ok a (w'.watch (calls ++ [c]))
      | .error e w' => .error e (w'.watch (calls ++ [c])) := by
  rw [onHeap, onHeap, note, show (w.watch calls).heap.heap = w.heap from rfl]
  cases act w.heap <;> rfl

theorem ofExcept_echo {answer : World σ → Except Error α}
    {answer' : World (Watched σ) → Except Error α}
    (h : ∀ calls w, answer' (w.watch calls) = answer w) :
    Echo World.watch (Build.ofExcept answer) (Build.ofExcept answer') := by
  intro calls w
  refine .of_eq ?_
  rw [ofExcept, ofExcept, h]
  cases answer w <;> rfl

/-- An action that always succeeds makes the same calls from whatever calls were made before. -/
theorem always_echo {act : World σ → α × World σ}
    {act' : World (Watched σ) → α × World (Watched σ)}
    (h : ∀ calls w, ∃ calls', CallsMore calls calls' ∧
      act' (w.watch calls) = ((act w).1, (act w).2.watch calls')) :
    Echo World.watch (Build.always act) (Build.always act') := by
  intro calls w
  obtain ⟨k, hk, hact⟩ := h calls w
  rw [EchoAt, always, always, hact]
  exact .ok hk rfl rfl

end Build

namespace Services

variable (services : Services σ)

/-! ## Commitments -/

theorem assign_echo (target : ObjectId) (m : Member) (v : Value) :
    Echo Watched.watch (services.assign target m v) (services.watched.assign target m v) := by
  unfold assign
  split <;> exact Watched.note_echo rfl _

theorem appendEach_echo (target : ObjectId) (vs : List Value) :
    Echo Watched.watch (services.appendEach target vs) (services.watched.appendEach target vs) := by
  induction vs with
  | nil => exact .pure _
  | cons v vs ih => exact .bind (Watched.note_echo rfl _) fun _ => ih

theorem appendAll_echo (target : ObjectId) (m : Member) (vs : List Value) :
    Echo Watched.watch (services.appendAll target m vs)
      (services.watched.appendAll target m vs) := by
  refine .get_bind fun heap calls => ?_
  show Echo _ (if services.host.collects heap target then _ else _)
    (if services.host.collects heap target then _ else _)
  split
  · exact services.appendEach_echo target _
  · exact .throw _

theorem commitValues_echo (target : ObjectId) (collects : Bool) (m : Member) (vs : List Value)
    (retrieved : Option Value) :
    Echo Watched.watch (services.commitValues target collects m vs retrieved)
      (services.watched.commitValues target collects m vs retrieved) := by
  unfold commitValues
  show Echo _ _ (if m.isItems then _ else if services.schema.takesMany m then _ else _)
  split
  · unfold commitItems
    split
    · exact .bind (services.appendAll_echo target m vs) fun _ => .pure _
    · exact .get_bind fun heap calls => .throw _
  · split
    · refine .get_bind fun heap calls => ?_
      have hsame : services.watched.liveCollection (Watched.watch calls heap) target m =
          services.liveCollection heap target m := rfl
      rw [hsame]
      cases services.liveCollection heap target m with
      | some c => exact .bind (services.appendAll_echo c m vs) fun _ => .pure _
      | none => exact .bind (services.assign_echo target m _) fun _ => .pure _
    · split
      · exact .pure _
      · exact .bind (services.assign_echo target m _) fun _ => .pure _
      · exact .throw _

theorem commit_echo (target : ObjectId) (collects : Bool) (m : Member) (vs : List Value)
    (retrieved : Option Value) :
    Echo World.watch (services.commit target collects m vs retrieved)
      (services.watched.commit target collects m vs retrieved) :=
  .bind (Build.onHeap_echo _ (services.commitValues_echo target collects m vs retrieved)) fun _ =>
    .update fun _ _ => rfl

/-! ## Objects -/

theorem adopt_echo (around : Option ScopeId) (type : TypeName) (id : ObjectId) (supplied : Bool) :
    Echo World.watch (services.adopt around type id supplied)
      (services.watched.adopt around type id supplied) := by
  refine .bind (Build.always_echo fun calls w => ⟨calls, .refl calls, rfl⟩) fun scope =>
    .get_bind fun w calls => ?_
  show Echo _ (if !services.host.collects w.heap id && (services.schema.traits type).collection then
      _ else _)
    (if !services.host.collects w.heap id && (services.schema.traits type).collection then _ else _)
  split
  · exact .throw _
  · exact .pure _

theorem notifyBegin_echo (id : ObjectId) :
    Echo World.watch (Build.always (services.notifyBegin id))
      (Build.always (services.watched.notifyBegin id)) := by
  refine Build.always_echo fun calls w => ?_
  unfold notifyBegin
  show ∃ calls', _ ∧ (if services.host.listens w.heap id then _ else _) = _
  split
  · exact ⟨calls ++ [.beginInit id], .note rfl calls, rfl⟩
  · exact ⟨calls, .refl calls, rfl⟩

theorem notifyCreated_echo (id : ObjectId) :
    Echo World.watch (Build.always (services.notifyCreated id))
      (Build.always (services.watched.notifyCreated id)) := by
  refine Build.always_echo fun calls w => ?_
  unfold notifyCreated
  show ∃ calls', _ ∧ (if !w.context.lifecycle.created.contains id &&
    services.host.listens w.heap id then _ else _) = _
  dsimp only
  split
  · exact ⟨calls ++ [.endInit id], .note rfl calls, rfl⟩
  · exact ⟨calls, .refl calls, rfl⟩

theorem make_echo (around : Option ScopeId) (type : TypeName) (arguments : List String) :
    Echo World.watch (services.make around type arguments)
      (services.watched.make around type arguments) := by
  refine .bind (Build.onHeap_echo _ (Watched.noteMade_echo _ _ _)) fun id => ?_
  show Echo _ _ (if (services.schema.traits type).lifecycle then _ else _)
  split
  · refine .bind (services.notifyBegin_echo id) fun listens => ?_
    cases listens with
    | true => exact services.adopt_echo around type id false
    | false => exact .bind (.throw _) fun _ => services.adopt_echo around type id false
  · exact services.adopt_echo around type id false

theorem register_echo (name : Option String) (scope : Option ScopeId) (id : ObjectId) :
    Echo World.watch (register (σ := σ) name scope id) (register name scope id) := by
  cases name with
  | none => exact .pure _
  | some name =>
    cases scope with
    | none => exact .pure _
    | some scope =>
      intro calls w
      have hsame : (w.watch calls).context = w.context := rfl
      refine .of_eq ?_
      simp only [register, Action.bind_apply, Action.get_apply, hsame]
      cases w.context.scopes.register scope name id <;> rfl

theorem complete_echo (type : TypeName) (name : Option String) (site : Site)
    (outside : Option (Option ScopeId)) :
    Echo World.watch (services.complete type name site outside)
      (services.watched.complete type name site outside) := by
  rw [complete_eq, complete_eq]
  show Echo _ _ (if (services.schema.traits type).lifecycle then _ else _)
  split
  · exact .bind (services.notifyCreated_echo site.object) fun _ => register_echo name _ _
  · exact register_echo name _ _

theorem valueOf_echo (type : TypeName) (site : Site) (target root : Option ObjectId)
    (member : Option Member) :
    Echo World.watch (services.valueOf type site target root member)
      (services.watched.valueOf type site target root member) := by
  unfold valueOf
  show Echo _ _ (if (services.schema.traits type).extension then _ else _)
  split
  · refine .get_bind fun w calls => ?_
    show Echo _ (if services.host.provides w.heap site.object then _ else _)
      (if services.host.provides w.heap site.object then _ else _)
    split
    · exact Build.onHeap_echo _ (Watched.note_echo rfl _)
    · exact .throw _
  · exact .pure _

theorem readLiteral_echo (root : Option ObjectId) (m : Member) (literal : String) :
    Echo World.watch (services.readLiteral root m literal)
      (services.watched.readLiteral root m literal) :=
  Build.ofExcept_echo fun _ _ => rfl

theorem find?_watched (m : Member) :
    services.watched.loaders.find? m = (services.loaders.find? m).map Loader.watched := by
  have hentry : (services.loaders.entries.map fun e => (e.1, e.2.watched)).find?
      (fun e => e.1.same m) = (services.loaders.entries.find? fun e => e.1.same m).map
        fun e => (e.1, e.2.watched) := List.find?_map
  rw [watched, Loaders.find?, Loaders.find?, hentry, Option.map_map, Option.map_map]
  rfl

theorem loaderOf_watched (m : Member) :
    services.watched.loaderOf m = (services.loaderOf m).map (Option.map Loader.watched) := by
  rw [loaderOf, loaderOf, find?_watched]
  cases services.loaders.find? m with
  | none => cases m.deferred <;> rfl
  | some loader => rfl

/-! ## Instructions -/

section

open Machine

theorem onWorld_echo {act : Build σ α} {act' : Build (Watched σ) α}
    (h : Echo World.watch act act') : Echo Machine.watch (onWorld act) (onWorld act') := by
  intro calls m
  have hends := h calls m.world
  rw [EchoAt] at hends
  rw [EchoAt, onWorld_apply, onWorld_apply,
    show (m.watch calls).world = m.world.watch calls from rfl]
  generalize act m.world = r at hends ⊢
  generalize act' (m.world.watch calls) = r' at hends ⊢
  cases hends with
  | ok hk hab hs =>
    cases hs
    exact .ok hk hab rfl
  | error hk hs =>
    cases hs
    exact .error hk rfl

@[simp] theorem watch_stack (m : Machine σ) (calls : List Call) :
    (m.watch calls).stack = m.stack := rfl

@[simp] theorem watch_supplied (m : Machine σ) (calls : List Call) :
    (m.watch calls).supplied = m.supplied := rfl

theorem watch_mapTop (f : Frame → Frame) (m : Machine σ) (calls : List Call) :
    (m.mapTop f).watch calls = (m.watch calls).mapTop f := by
  obtain ⟨world, stack, closed, supplied, base, result, recording⟩ := m
  cases stack <;> rfl

theorem watch_openMember (member : Member) (loader : Option (Loader σ)) (m : Machine σ)
    (calls : List Call) : (m.openMember member loader).watch calls =
      (m.watch calls).openMember member (loader.map Loader.watched) := by
  have hmap := watch_mapTop (Frame.openMember member) m calls
  cases loader with
  | none => exact hmap
  | some loader =>
    show ((m.mapTop (Frame.openMember member)).watch calls).withRecording _ = _
    rw [hmap]
    rfl

theorem openFrame_echo (frame : Frame) :
    Echo Machine.watch (services.openFrame frame) (services.watched.openFrame frame) := by
  intro calls m
  have hfault : (m.watch calls).entryFault frame.type = m.entryFault frame.type := rfl
  refine .of_eq ?_
  rw [openFrame_apply, openFrame_apply, hfault]
  cases m.entryFault frame.type with
  | some e => rfl
  | none =>
    show (if services.settings.maxDepth ≤ m.level then _ else _) = _
    dsimp only
    split <;> rfl

theorem adoptSupplied_echo (id : ObjectId) :
    Echo Machine.watch (services.adoptSupplied id) (services.watched.adoptSupplied id) := by
  intro calls m
  refine .get_bind (.set_bind ?_)
  exact (onWorld_echo (services.adopt_echo _ _ _ _)).bind
    (fun site => .update fun calls m => (watch_mapTop _ m calls).symm) _ _

theorem ensureObject_echo :
    Echo Machine.watch services.ensureObject services.watched.ensureObject := by
  refine .get_bind fun m calls => ?_
  rw [watch_stack]
  cases m.stack with
  | nil => exact .throw _
  | cons top rest =>
    dsimp only
    cases top.site with
    | some site => exact .pure _
    | none =>
      exact .bind (onWorld_echo (services.make_echo _ _ _)) fun site =>
        .bind (.update fun calls m => (watch_mapTop _ m calls).symm) fun _ => .pure _

/-! ## Instructions -/

theorem startObject_echo (start : ObjectStart) :
    Echo Machine.watch (services.startObject start) (services.watched.startObject start) := by
  refine .bind (onWorld_echo (Build.ofExcept_echo fun _ _ => rfl)) fun _ => .get_bind fun m calls =>
    .bind (services.openFrame_echo _) fun _ => ?_
  rw [watch_stack, watch_supplied]
  cases m.stack with
  | cons top rest => exact .pure _
  | nil =>
    cases m.supplied with
    | none => exact .pure _
    | some id => exact services.adoptSupplied_echo id

theorem getObject_echo :
    Echo Machine.watch services.getObject services.watched.getObject := by
  intro calls m
  have hcurrent : services.watched.currentObject (m.watch calls) = services.currentObject m := rfl
  refine .get_bind ?_
  rw [hcurrent]
  cases services.currentObject m with
  | error e => exact .of_eq rfl
  | ok found =>
    dsimp only
    rw [← watch_mapTop]
    exact .set_bind (services.openFrame_echo _ _ _)

theorem literalValue_echo (s : String) :
    Echo Machine.watch (services.literalValue s) (services.watched.literalValue s) := by
  refine .get_bind fun m calls => ?_
  rw [watch_stack]
  cases m.stack.head?.bind (·.member) with
  | none => exact .throw _
  | some member =>
    exact .bind (onWorld_echo (services.readLiteral_echo _ _ _)) fun v =>
      .update fun calls m => (watch_mapTop _ m calls).symm

theorem endMember_echo :
    Echo Machine.watch services.endMember services.watched.endMember := by
  intro calls m
  refine .get_bind ?_
  rw [watch_stack]
  cases m.stack with
  | nil => exact .of_eq rfl
  | cons top rest =>
    dsimp only
    cases top.member with
    | none => exact .of_eq rfl
    | some member =>
      dsimp only
      rw [← watch_mapTop]
      refine .set_bind ?_
      cases top.site with
      | none => exact .of_eq rfl
      | some site => exact onWorld_echo (services.commit_echo _ _ _ _ _) _ _

theorem completeObject_echo :
    Echo Machine.watch services.completeObject services.watched.completeObject := by
  refine .bind services.ensureObject_echo fun site => .get_bind fun m calls => ?_
  rw [watch_stack]
  cases m.stack with
  | nil => exact .throw _
  | cons top rest =>
    refine .bind (onWorld_echo (services.complete_echo _ _ _ _)) fun _ => ?_
    cases rest with
    | nil => exact .update fun calls m => rfl
    | cons parent rest =>
      exact .bind (onWorld_echo (services.valueOf_echo _ _ _ _ _)) fun v =>
        .update fun calls m => (watch_mapTop _ m.close calls).symm

theorem endObject_echo :
    Echo Machine.watch services.endObject services.watched.endObject := by
  refine .get_bind fun m calls => ?_
  rw [watch_stack]
  cases m.stack with
  | nil => exact .throw _
  | cons top rest =>
    dsimp only
    cases top.member with
    | some other => exact .throw _
    | none =>
      dsimp only
      split
      · exact .update fun calls m => rfl
      · exact services.completeObject_echo

/-- A member that starts has its loader watched when its contents are recorded. -/
theorem startMember_echo (member : Member) :
    Echo Machine.watch (services.startMember member) (services.watched.startMember member) := by
  refine .get_bind fun m calls => ?_
  rw [watch_stack]
  cases m.stack with
  | nil => exact .throw _
  | cons top rest =>
    dsimp only
    cases top.member with
    | some other => exact .throw _
    | none =>
      refine .bind services.ensureObject_echo fun site calls m => ?_
      rw [loaderOf_watched]
      cases services.loaderOf member with
      | error e => exact .of_eq rfl
      | ok loader =>
        refine .of_eq ?_
        show EStateM.Result.ok () ((m.watch calls).openMember member (loader.map Loader.watched)) =
          .ok () ((m.openMember member loader).watch calls)
        rw [watch_openMember]

theorem execute_echo (i : Instruction) :
    Echo Machine.watch (services.execute i) (services.watched.execute i) := by
  cases i with
  | startObject start => exact services.startObject_echo start
  | getObject => exact services.getObject_echo
  | startMember member => exact services.startMember_echo member
  | value s => exact services.literalValue_echo s
  | endMember => exact services.endMember_echo
  | endObject => exact services.endObject_echo

/-! ## A step -/

/-- What an instruction hands to a loader: the recording that ends with it, if one does. -/
def handed (m : Machine σ) (i : Instruction) : List (Member × List Instruction) :=
  match m.recording with
  | some r => if depthAfter r.depth i = 0 then [(r.member, r.instructions)] else []
  | none => []

/-- The outcome of a watched machine, with its calls. -/
def watchOutcome (calls : List Call) :
    EStateM.Result Error (Machine σ) Unit → EStateM.Result Error (Machine (Watched σ)) Unit
  | .ok _ m => .ok () (m.watch calls)
  | .error e m => .error e (m.watch calls)

theorem outcome_of_ends {calls : List Call} {r : EStateM.Result Error (Machine σ) Unit}
    {r' : EStateM.Result Error (Machine (Watched σ)) Unit}
    (h : (watching Machine.watch).Ends calls (fun _ a b => a = b) r r') :
    ∃ more, r' = watchOutcome (calls ++ more) r ∧ loads more = [] := by
  cases h with
  | ok hmore _ hs =>
    obtain ⟨more, rfl, hnone⟩ := hmore
    cases hs
    exact ⟨more, rfl, hnone⟩
  | error hmore hs =>
    obtain ⟨more, rfl, hnone⟩ := hmore
    cases hs
    exact ⟨more, rfl, hnone⟩

/-- The loader of a recording has made a value: what remains is the end of a member with that value,
and the call of the loader is noted. -/
theorem record_watched_of_load {m : Machine σ} {r : Recording σ} {i : Instruction} {v : Value}
    {w : World σ} (hlast : depthAfter r.depth i = 0)
    (hload : Build.onHeap .deferred (r.loader r.member r.instructions) m.world = .ok v w)
    (calls : List Call) :
    services.watched.record r.watch i (m.watch calls) =
      services.watched.endMember ((((m.withRecording none).push v).inWorld w).watch
        (calls ++ [.load r.member r.instructions])) := by
  have hnote : Build.onHeap .deferred (r.watch.loader r.watch.member r.watch.instructions)
      (m.watch calls).world = Build.onHeap .deferred
        (note (.load r.member r.instructions) (r.loader r.member r.instructions))
        (m.world.watch calls) := rfl
  rw [record_of_last services.watched (r := r.watch) hlast, hnote, Build.onHeap_note, hload]
  refine congrArg services.watched.endMember ?_
  have hmap := watch_mapTop (Frame.receive [v]) ((m.withRecording none).inWorld w)
    (calls ++ [.load r.member r.instructions])
  rw [← inWorld_push, ← inWorld_push]
  exact hmap.symm

/-- The end of a recording calls its loader once, and no other. -/
theorem record_watched {m : Machine σ} {r : Recording σ} {i : Instruction}
    (hlast : depthAfter r.depth i = 0) (calls : List Call) :
    ∃ more, services.watched.record r.watch i (m.watch calls) =
        watchOutcome (calls ++ .load r.member r.instructions :: more) (services.record r i m) ∧
      loads more = [] := by
  rw [record_of_last services hlast]
  cases hload : Build.onHeap .deferred (r.loader r.member r.instructions) m.world with
  | error e w =>
    have hnote : Build.onHeap .deferred (r.watch.loader r.watch.member r.watch.instructions)
        (m.watch calls).world = Build.onHeap .deferred
          (note (.load r.member r.instructions) (r.loader r.member r.instructions))
          (m.world.watch calls) := rfl
    rw [record_of_last services.watched (r := r.watch) hlast, hnote, Build.onHeap_note, hload]
    exact ⟨[], rfl, rfl⟩
  | ok v w =>
    rw [services.record_watched_of_load hlast hload]
    obtain ⟨more, hmore, hnone⟩ := outcome_of_ends (services.endMember_echo
      (calls ++ [.load r.member r.instructions]) (((m.withRecording none).push v).inWorld w))
    refine ⟨more, ?_, hnone⟩
    rw [hmore, List.append_assoc]
    rfl

/-- A watched machine does what the machine does, and a loader is called for what is handed over
and for nothing else. -/
theorem step_watched (m : Machine σ) (i : Instruction) (calls : List Call) :
    ∃ more, services.watched.step i (m.watch calls) =
        watchOutcome (calls ++ more) (services.step i m) ∧
      loads more = handed m i := by
  cases hr : m.recording with
  | none =>
    have hr' : (m.watch calls).recording = none := by simp [watch, hr]
    rw [step_of_idle services hr, step_of_idle services.watched hr', handed, hr]
    exact outcome_of_ends (services.execute_echo i calls m)
  | some r =>
    have hr' : (m.watch calls).recording = some r.watch := by simp [watch, hr]
    rw [step_of_recording services hr, step_of_recording services.watched hr', handed, hr]
    by_cases hlast : depthAfter r.depth i = 0
    · obtain ⟨more, hmore, hnone⟩ := services.record_watched (m := m) hlast calls
      refine ⟨.load r.member r.instructions :: more, hmore, ?_⟩
      have hcons : loads (.load r.member r.instructions :: more) =
          (r.member, r.instructions) :: loads more := rfl
      rw [hcons, hnone]
      exact (if_pos hlast).symm
    · refine ⟨[], ?_, by simp [loads, hlast]⟩
      rw [record_of_inside services hlast, record_of_inside services.watched (r := r.watch) hlast,
        List.append_nil]
      rfl

end

end Services

end ObjectMarkup
