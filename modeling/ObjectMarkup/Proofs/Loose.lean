/-
A machine that takes nothing for granted.

A frame of a machine holds its object together with what belongs to it (`Site`), and an action that
changes a frame has found it before.  Here an open object, its collection and its scope are kept
apart (`Loose.Frame`), every action looks for what it needs, and where it does not find it there is
a `Gap`: whatever `detour` says is done there, and then the action goes on as well as it can.
-/
import ObjectMarkup.Proofs.Effects

namespace ObjectMarkup

variable {σ : Type}

namespace Loose

/-! ## The machine -/

/-- An open object, what belongs to it being known or not. -/
structure Frame where
  type : TypeName
  object : Option ObjectId := none
  /-- the object that items are appended to -/
  collection : Option ObjectId := none
  scope : Option ScopeId := none
  isPlaceholder : Bool := false
  member : Option Member := none
  pending : List Value := []
  retrieved : Option Value := none
  name : Option String := none
  arguments : List String := []

structure Machine (σ : Type) where
  world : World σ
  stack : List Frame := []
  rootClosed : Bool := false
  supplied : Option ObjectId := none
  base : Option ScopeId := none
  result : Option ObjectId := none
  recording : Option (Recording σ) := none

/-- What an action may not find. -/
inductive Gap where
  /-- the recording that an instruction is added to -/
  | recording
  /-- an open member in the recording that ends one -/
  | depth
  /-- the innermost frame -/
  | frame
  /-- the object whose member is open -/
  | object
  /-- the scope for a name -/
  | scope

abbrev Machine.Action (σ α : Type) := EStateM Error (Machine σ) α

namespace Machine

def level (m : Machine σ) : Nat := m.stack.length

def isRecording (m : Machine σ) : Bool := m.recording.isSome

def parent (m : Machine σ) : Option Frame := m.stack[1]?

def root (m : Machine σ) : Option ObjectId := m.stack.getLast?.bind (·.object)

def around (m : Machine σ) : Option ScopeId :=
  match m.parent with
  | some frame => frame.scope
  | none => m.base

/-- Closes the innermost frame; the first object closes once. -/
def close (m : Machine σ) : Machine σ :=
  { m with stack := m.stack.tail, rootClosed := m.rootClosed || m.stack.length == 1 }

/-- Why an object of type `type` cannot start here. -/
def entryFault (m : Machine σ) (type : TypeName) : Option StructureError :=
  match m.stack with
  | [] => if m.rootClosed then some (.rootAlreadyClosed type) else none
  | top :: rest =>
    if top.member.isSome then none
    else if rest.isEmpty then some (.secondRoot type top.type)
    else some (.objectWithoutMember type top.type)

def malformed {α : Type} (e : StructureError) : Action σ α := throw (.structural e)

def onWorld {α : Type} (act : Build σ α) : Action σ α := fun m =>
  match act m.world with
  | .ok a w => .ok a { m with world := w }
  | .error e w => .error e { m with world := w }

end Machine

open Loose.Machine (malformed onWorld)

/-! ## The world -/

variable (services : Services σ)

/-- Commits values, the items to the collection. -/
def commitValues (target : ObjectId) (collection : Option ObjectId) (m : Member)
    (values : List Value) (retrieved : Option Value) : EStateM MemberError σ Value := do
  if m.isItems then
    match collection with
    | some c =>
      services.appendAll c m values
      return Services.summary values
    | none => throw (.missingCapability (services.host.typeOf (← get) target) .collection)
  else services.commitValues target collection.isSome m values retrieved

/-- Commits values and records what was committed. -/
def commit (target : ObjectId) (collection : Option ObjectId) (m : Member) (values : List Value)
    (retrieved : Option Value) : Build σ Unit := do
  let recorded ← Build.onHeap .member (commitValues services target collection m values retrieved)
  modify fun w => w.setAmbient (w.context.ambient.add m recorded target)

/-- Tells an object that it is complete, if its type listens. -/
def tell (type : TypeName) (id : ObjectId) : Build σ Unit := do
  if (services.schema.traits type).lifecycle then
    let _ ← Build.always (services.notifyCreated id)

/-- The value that the object of the innermost frame stands for. -/
def valueOf (m : Machine σ) (top : Frame) (id : ObjectId) : Build σ Value := do
  if 1 < m.level && (services.schema.traits top.type).extension then
    let w ← get
    if services.host.provides w.heap id then
      Build.onHeap .extension (services.host.provide id
        { context := w.context
          target := m.parent.bind (·.object)
          member := m.parent.bind (·.member)
          scope := top.scope
          root := m.root })
    else throw (.member (.missingCapability top.type .extension))
  else return .object id

/-! ## Frames and their objects -/

variable (detour : Gap → Machine.Action σ Unit)

/-- Changes the innermost frame. -/
def changeTop (f : Frame → Frame) : Machine.Action σ Unit := do
  let m ← get
  match m.stack with
  | [] => detour .frame
  | top :: rest => set { m with stack := f top :: rest }

def openFrame (frame : Frame) : Machine.Action σ Unit := do
  let m ← get
  match m.entryFault frame.type with
  | some e => malformed e
  | none =>
    if services.settings.maxDepth ≤ m.level then
      malformed (.tooDeep services.settings.maxDepth)
    else set { m with stack := frame :: m.stack }

/-- The collection that an object is itself, if it collects. -/
def collectionOf (id : ObjectId) (collects : Bool) : Option ObjectId :=
  if collects then some id else none

/-- Puts an object into the innermost frame. -/
def install (type : TypeName) (site : Site) : Machine.Action σ Unit :=
  changeTop detour fun top => { top with
    type
    object := some site.object
    collection := collectionOf site.object site.collects
    scope := some site.scope }

def adoptSupplied (id : ObjectId) : Machine.Action σ Unit := do
  let m ← get
  set { m with supplied := none }
  let type := services.host.typeOf m.world.heap id
  let site ← onWorld (services.adopt m.around type id true)
  install detour type site

/-- The object of the innermost frame, made now if it is not there yet. -/
def ensureObject : Machine.Action σ ObjectId := do
  let m ← get
  match m.stack with
  | [] =>
    detour .frame
    malformed .unmatchedEndObject
  | top :: _ =>
    match top.object with
    | some id => return id
    | none =>
      let site ← onWorld (services.make m.around top.type top.arguments)
      install detour top.type site
      return site.object

/-! ## Instructions -/

def startObject (start : ObjectStart) : Machine.Action σ Unit := do
  onWorld (Build.ofExcept fun _ => services.checkType start.type)
  let m ← get
  openFrame services { type := start.type, name := start.name, arguments := start.arguments }
  match m.stack, m.supplied with
  | [], some id => adoptSupplied services detour id
  | _, _ => return ()

def getObject : Machine.Action σ Unit := do
  let m ← get
  match m.stack with
  | [] => malformed (.getObjectWithoutValue "")
  | top :: _ =>
    match top.member, top.object with
    | some member, some id =>
      match services.host.getMember m.world.heap id member with
      | some (.object target) =>
        changeTop detour fun top => { top with retrieved := some (.object target) }
        openFrame services {
          type := services.host.typeOf m.world.heap target
          object := some target
          collection := collectionOf target (services.host.collects m.world.heap target)
          scope := top.scope
          isPlaceholder := true }
      | _ => malformed (.getObjectWithoutValue member.qualifiedName)
    | some member, none =>
      detour .object
      malformed (.getObjectWithoutValue member.qualifiedName)
    | none, _ => malformed (.getObjectWithoutValue "")

def startMember (member : Member) : Machine.Action σ Unit := do
  match (← get).stack with
  | [] => malformed (.memberWithoutObject member.qualifiedName)
  | top :: _ =>
    match top.member with
    | some other => malformed (.memberAlreadyOpen member.qualifiedName other.qualifiedName)
    | none =>
      let _ ← ensureObject services detour
      let loader ← onWorld (Build.ofExcept fun _ => services.loaderOf member)
      changeTop detour fun top =>
        { top with member := some member, pending := [], retrieved := none }
      match loader with
      | some loader => modify fun m => { m with recording := some { member, loader } }
      | none => return ()

/-- Adds a value to those of the open member. -/
def push (v : Value) : Machine.Action σ Unit :=
  changeTop detour fun top => { top with pending := top.pending ++ [v] }

def literalValue (literal : String) : Machine.Action σ Unit := do
  let m ← get
  match m.stack.head?.bind (·.member) with
  | none => malformed (.valueWithoutMember literal)
  | some member =>
    let v ← onWorld (services.readLiteral m.root member literal)
    push detour v

def endMember : Machine.Action σ Unit := do
  let m ← get
  match m.stack with
  | [] => malformed .unmatchedEndMember
  | top :: _ =>
    match top.member with
    | none => malformed .unmatchedEndMember
    | some member =>
      changeTop detour fun top => { top with member := none, pending := [], retrieved := none }
      match top.object with
      | none =>
        detour .object
        malformed .unmatchedEndMember
      | some id => onWorld (commit services id top.collection member top.pending top.retrieved)

/-- The scope that the object of the innermost frame is named in. -/
def namedIn (m : Machine σ) (top : Frame) : Option ScopeId :=
  if 1 < m.level && (services.schema.traits top.type).namescope then m.parent.bind (·.scope)
  else top.scope

/-- Registers the name of the innermost object, if it has one. -/
def register (top : Frame) (id : ObjectId) : Machine.Action σ Unit := do
  let m ← get
  match top.name with
  | none => return ()
  | some name =>
    match namedIn services m top with
    | some scope => onWorld (Services.register (some name) (some scope) id)
    | none => detour .scope

/-- Tells an object that it is complete, and registers its name. -/
def conclude (top : Frame) (id : ObjectId) : Machine.Action σ Unit := do
  onWorld (tell services top.type id)
  register services detour top id

/-- Closes the frame of an object that is there, and hands its value to the member it stands in. -/
def deliver (id : ObjectId) : Machine.Action σ Unit := do
  let m ← get
  match m.stack with
  | [] =>
    detour .frame
    malformed .unmatchedEndObject
  | top :: _ =>
    conclude services detour top id
    let v ← onWorld (valueOf services m top id)
    modify (·.close)
    match (← get).stack with
    | [] => modify fun m => { m with result := some id }
    | _ :: _ => push detour v

def endObject : Machine.Action σ Unit := do
  match (← get).stack with
  | [] => malformed .unmatchedEndObject
  | top :: _ =>
    match top.member with
    | some other => malformed (.endObjectWithOpenMember other.qualifiedName)
    | none =>
      if top.isPlaceholder then modify (·.close)
      else
        let id ← ensureObject services detour
        deliver services detour id

def execute : Instruction → Machine.Action σ Unit
  | .startObject start => startObject services detour start
  | .getObject => getObject services detour
  | .startMember member => startMember services detour member
  | .value literal => literalValue services detour literal
  | .endMember => endMember services detour
  | .endObject => endObject services detour

/-! ## Recording -/

/-- Hands a recording to its loader and ends its member. -/
def finishRecording (r : Recording σ) : Machine.Action σ Unit := do
  modify fun m => { m with recording := none }
  let v ← onWorld (Build.onHeap .deferred (r.loader r.member r.instructions))
  push detour v
  endMember services detour

/-- Goes on with a recording, of which `depth` members are open. -/
def goOn (r : Recording σ) (depth : Nat) (i : Instruction) : Machine.Action σ Unit :=
  modify fun m =>
    { m with recording := some { r with depth, instructions := r.instructions ++ [i] } }

def record (i : Instruction) : Machine.Action σ Unit := do
  match (← get).recording with
  | none => detour .recording
  | some r =>
    match i with
    | .startMember _ => goOn r (r.depth + 1) i
    | .endMember =>
      if r.depth = 1 then finishRecording services detour r
      else
        if r.depth = 0 then detour .depth
        goOn r (r.depth - 1) i
    | _ => goOn r r.depth i

/-- Takes the machine over one instruction. -/
def step (i : Instruction) : Machine.Action σ Unit := do
  if (← get).isRecording then record services detour i else execute services detour i

def traceStep (i : Instruction) (m : Machine σ) : Option Error × Machine σ :=
  match step services detour i m with
  | .ok () m => (none, m)
  | .error e m => (some e, m)

/-- Feeds the stream to the machine, past failures if `keepGoing` says so. -/
def trace (keepGoing : Bool) : List Instruction → Machine σ → List TraceEntry × Machine σ
  | [], m => ([], m)
  | i :: is, m =>
    let (fault, m) := traceStep services detour i m
    let entry : TraceEntry := ⟨fault, m.level, m.isRecording⟩
    if fault.isSome && !keepGoing then ([entry], m)
    else
      let (entries, m) := trace keepGoing is m
      (entry :: entries, m)

end Loose
end ObjectMarkup
