/-
A session works on one document: a catalogue, settings, loaders, a world of widgets, and names
that keep widgets alive.  Every step leaves a session behind, also when it fails.
-/
import ObjectMarkup.Build
import ObjectMarkup.Machine.Trace
import ObjectMarkup.Widget.Loader

namespace ObjectMarkup

structure Session where
  catalogue : Catalogue Heap := Widget.catalogue
  settings : Settings := {}
  loaders : Loaders Heap := {}
  world : World Heap := { heap := {} }
  bindings : List (String × ObjectId) := []

/-- What a step of a session does.  The session after a failure is part of the answer. -/
abbrev Session.Step (α : Type) := EStateM Error Session α

namespace Session

def services (s : Session) : Services Heap :=
  { s.catalogue.services Heap.host s.settings with loaders := s.loaders }

def context (s : Session) : Context := s.world.context

def heap (s : Session) : Heap := s.world.heap

/-! ## Names -/

def stored? (s : Session) (name : String) : Option ObjectId := s.bindings.lookup name

def store (name : String) (id : ObjectId) (s : Session) : Session :=
  { s with bindings := (name, id) :: s.bindings.filter fun v => v.1 != name }

/-- Forgets a name; answers whether it was there. -/
def drop (name : String) : Step Bool := fun s =>
  .ok (s.stored? name).isSome { s with bindings := s.bindings.filter fun v => v.1 != name }

/-- Takes out the widgets that neither a name nor the context nor `extra` keeps alive. -/
def reclaim (extra : List ObjectId) (s : Session) : Session :=
  let roots := extra ++ s.bindings.map (·.2) ++ s.context.held
  { s with world := { s.world with heap := s.heap.reclaim roots } }

/-- Begins a new context. -/
def reset : Step Unit := fun s => .ok () { s with world := { s.world with context := {} } }

/-! ## Building -/

def onWorld {α : Type} (act : Services Heap → Build Heap α) : Step α := fun s =>
  match act s.services s.world with
  | .ok a w => .ok a { s with world := w }
  | .error e w => .error e { s with world := w }

def load (e : Markup.Element) (root : Option ObjectId) : Step ObjectId :=
  onWorld fun services => services.load e root

def build (t : Tree) (root : Option ObjectId) : Step ObjectId :=
  onWorld fun services => services.build t root

def run (stream : List Instruction) (root : Option ObjectId) : Step ObjectId :=
  onWorld fun services => services.run stream root none

def materialize (stream : List Instruction) : Step ObjectId :=
  onWorld fun services => services.materialize stream

/-- The instructions that a template keeps. -/
def templateOf? (s : Session) (id : ObjectId) : Option (List Instruction) :=
  match s.heap.find? id with
  | some (.template instructions) => some instructions
  | _ => none

def defer (m : Member) (loader : Loader Heap) : Step Unit := fun s =>
  match s.loaders.register m loader with
  | .ok loaders => .ok () { s with loaders }
  | .error e => .error (.deferred e) s

/-- What became of a stream that was fed one instruction at a time. -/
structure Traced where
  entries : List TraceEntry
  outcome : Except Error ObjectId

def trace (stream : List Instruction) (root : Option ObjectId) (base : Option ScopeId)
    (keepGoing : Bool) : Step Traced := fun s =>
  let (entries, m) := s.services.trace keepGoing stream { world := s.world, supplied := root, base }
  .ok ⟨entries, m.finish⟩ { s with world := m.world }

/-! ## Widgets -/

def onHeap {ε α : Type} (wrap : ε → Error) (act : EStateM ε Heap α) : Step α := fun s =>
  match act s.heap with
  | .ok a h => .ok a { s with world := { s.world with heap := h } }
  | .error e h => .error (wrap e) { s with world := { s.world with heap := h } }

def create (type : TypeName) (arguments : List String) : Step ObjectId := do
  onHeap .activation ((← get).catalogue.activate type arguments)

def setMember (id : ObjectId) (m : Member) (v : Value) : Step ObjectId := do
  onHeap .member (Heap.host.setMember id m v)
  return id

def setAttached (id : ObjectId) (m : Member) (v : Value) : Step ObjectId := do
  onHeap .member (Heap.host.setAttached id m v)
  return id

def getMember (id : ObjectId) (m : Member) : Step (Option Value) :=
  return Heap.host.getMember (← get).heap id m

/-- The number of items of a widget that takes items. -/
def length? (id : ObjectId) : Step (Option Nat) :=
  return ((← get).heap.find? id).bind fun w => w.items?.map List.length

/-- Appends an item to a widget that takes items; answers their number. -/
def append (id : ObjectId) (v : Value) : Step (Option Nat) := do
  if Heap.host.collects (← get).heap id then
    onHeap .member (Heap.host.append id v)
  length? id

def onHandlers (act : Heap → Bool × Heap) : Step Bool :=
  onHeap (fun e : Error => e) fun h =>
    let (ran, h) := act h
    .ok ran h

def click (id : ObjectId) : Step Bool := onHandlers (Heap.click id)

def raiseLoaded (id : ObjectId) : Step Bool := onHandlers (Heap.raiseLoaded id)

def invoke (handler : Handler) : Step Bool := onHandlers (Heap.invoke handler)

/-- The value that a widget provides at a place. -/
def provide (id : ObjectId) (target root : Option ObjectId) (member : Option Member)
    (scope : Option ScopeId) : Step Value := do
  let context := (← get).context
  onHeap .extension (Heap.host.provide id { context, target, member, scope, root })

/-! ## Scopes -/

def onScopes {α : Type} (act : Namescopes → α × Namescopes) : Step α := fun s =>
  let (a, ns) := act s.context.scopes
  .ok a { s with world := { s.world with context := { s.context with scopes := ns } } }

def documentScope : Step ScopeId := onScopes Namescopes.documentScope

def createScope (owner : Option ObjectId) (parent : Option ScopeId) : Step ScopeId :=
  onScopes fun ns => ns.create owner parent

def enter (id : ObjectId) (scope : ScopeId) : Step Unit :=
  onScopes fun ns => ((), ns.enter id scope)

def register (scope : ScopeId) (name : String) (id : ObjectId) : Step Unit := do
  match (← get).context.scopes.register scope name id with
  | .ok ns => onScopes fun _ => ((), ns)
  | .error e => throw (.namescope e)

/-! ## The record and the stages of construction -/

def record (m : Member) (v : Value) (owner : ObjectId) : Step Unit := fun s =>
  .ok () { s with world := { s.world with
    context := { s.context with ambient := s.context.ambient.add m v owner } } }

def notify (act : Services Heap → World Heap → Bool × World Heap) : Step Bool :=
  onWorld fun services => Build.always (act services)

def beginInit (id : ObjectId) : Step Bool := notify fun services => services.notifyBegin id

def created (id : ObjectId) : Step Bool := notify fun services => services.notifyCreated id

end Session
end ObjectMarkup
