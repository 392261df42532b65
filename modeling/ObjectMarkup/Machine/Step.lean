/-
Carrying out instructions.  `Services.step` takes the machine over one instruction: it is recorded
while a deferred member is open, and else carried out.  What is wrong with the nesting is found
before anything is done, with one exception: a placeholder that would be nested too deeply has
taken the value of its member by then.
-/
import ObjectMarkup.Machine.Basic

namespace ObjectMarkup
namespace Services

open Machine (malformed onWorld)

variable {σ : Type} (services : Services σ)

/-! ## Frames and their objects -/

def openFrame (frame : Frame) : Machine.Action σ Unit := do
  let m ← get
  match m.entryFault frame.type with
  | some e => malformed e
  | none =>
    if services.settings.maxDepth ≤ m.level then
      malformed (.tooDeep services.settings.maxDepth)
    else set { m with stack := frame :: m.stack }

/-- Takes over the object that the caller supplies, under its own type. -/
def adoptSupplied (id : ObjectId) : Machine.Action σ Unit := do
  let m ← get
  set { m with supplied := none }
  let type := services.host.typeOf m.world.heap id
  let site ← onWorld (services.adopt m.around type id true)
  modify (·.mapTop fun top => { top with type, site := some site })

/-- The object of the innermost frame, made now if it is not there yet. -/
def ensureObject : Machine.Action σ Site := do
  let m ← get
  match m.stack with
  | [] => malformed .unmatchedEndObject
  | top :: _ =>
    match top.site with
    | some site => return site
    | none =>
      let site ← onWorld (services.make m.around top.type top.arguments)
      modify (·.mapTop fun top => { top with site := some site })
      return site

/-! ## Instructions -/

def startObject (start : ObjectStart) : Machine.Action σ Unit := do
  onWorld (Build.ofExcept fun _ => services.checkType start.type)
  let m ← get
  services.openFrame { type := start.type, name := start.name, arguments := start.arguments }
  match m.stack, m.supplied with
  | [], some id => services.adoptSupplied id
  | _, _ => return ()

/-- The object that the open member holds, and the site of the object that has the member. -/
def currentObject (m : Machine σ) : Except StructureError (Site × ObjectId) :=
  match m.stack with
  | [] => .error (.getObjectWithoutValue "")
  | top :: _ =>
    match top.member, top.site with
    | some member, some site =>
      match services.host.getMember m.world.heap site.object member with
      | some (.object target) => .ok (site, target)
      | _ => .error (.getObjectWithoutValue member.qualifiedName)
    | member, _ => .error (.getObjectWithoutValue ((member.map Member.qualifiedName).getD ""))

def getObject : Machine.Action σ Unit := do
  let m ← get
  match services.currentObject m with
  | .error e => malformed e
  | .ok (site, target) =>
    let heap := m.world.heap
    set (m.mapTop fun top => { top with retrieved := some (.object target) })
    services.openFrame {
      type := services.host.typeOf heap target
      site := some {
        object := target
        collects := services.host.collects heap target
        scope := site.scope }
      isPlaceholder := true }

def startMember (member : Member) : Machine.Action σ Unit := do
  match (← get).stack with
  | [] => malformed (.memberWithoutObject member.qualifiedName)
  | top :: _ =>
    match top.member with
    | some other => malformed (.memberAlreadyOpen member.qualifiedName other.qualifiedName)
    | none =>
      let _ ← services.ensureObject
      let loader ← onWorld (Build.ofExcept fun _ => services.loaderOf member)
      modify fun m =>
        let m := m.mapTop fun top =>
          { top with member := some member, pending := [], retrieved := none }
        match loader with
        | some loader => { m with recording := some { member, loader } }
        | none => m

def literalValue (literal : String) : Machine.Action σ Unit := do
  let m ← get
  match m.stack.head?.bind (·.member) with
  | none => malformed (.valueWithoutMember literal)
  | some member =>
    let v ← onWorld (services.readLiteral m.root member literal)
    modify (·.push v)

def endMember : Machine.Action σ Unit := do
  let m ← get
  match m.stack with
  | [] => malformed .unmatchedEndMember
  | top :: _ =>
    match top.member with
    | none => malformed .unmatchedEndMember
    | some member =>
      set (m.mapTop fun top => { top with member := none, pending := [], retrieved := none })
      match top.site with
      | none => malformed .unmatchedEndMember
      | some site =>
        onWorld (services.commit site.object site.collects member top.pending top.retrieved)

/-- Ends an object that was made here: it is told and named, and its value handed to the member it
stands in. -/
def completeObject : Machine.Action σ Unit := do
  let site ← services.ensureObject
  let m ← get
  match m.stack with
  | [] => malformed .unmatchedEndObject
  | top :: rest =>
    onWorld (services.complete top.type top.name site (m.parent.map (·.scope)))
    match rest with
    | [] => modify fun m => { m.close with result := some site.object }
    | parent :: _ =>
      let v ← onWorld (services.valueOf top.type site parent.object m.root parent.member)
      modify fun m => m.close.push v

def endObject : Machine.Action σ Unit := do
  match (← get).stack with
  | [] => malformed .unmatchedEndObject
  | top :: _ =>
    match top.member with
    | some other => malformed (.endObjectWithOpenMember other.qualifiedName)
    | none => if top.isPlaceholder then modify (·.close) else services.completeObject

/-- Carries out one instruction. -/
def execute : Instruction → Machine.Action σ Unit
  | .startObject start => services.startObject start
  | .getObject => services.getObject
  | .startMember member => services.startMember member
  | .value literal => services.literalValue literal
  | .endMember => services.endMember
  | .endObject => services.endObject

/-! ## Recording -/

/-- The number of open members after an instruction that is only recorded. -/
def depthAfter (depth : Nat) : Instruction → Nat
  | .startMember _ => depth + 1
  | .endMember => depth - 1
  | _ => depth

/-- Hands a recording to its loader and ends its member. -/
def finishRecording (r : Recording σ) : Machine.Action σ Unit := do
  modify fun m => { m with recording := none }
  let v ← onWorld (Build.onHeap .deferred (r.loader r.member r.instructions))
  modify (·.push v)
  services.endMember

/-- Adds an instruction to a recording, or finishes it at the end of its member. -/
def record (r : Recording σ) (i : Instruction) : Machine.Action σ Unit :=
  let depth := depthAfter r.depth i
  if depth = 0 then services.finishRecording r
  else modify fun m =>
    { m with recording := some { r with depth, instructions := r.instructions ++ [i] } }

/-- Takes the machine over one instruction. -/
def step (i : Instruction) : Machine.Action σ Unit := do
  match (← get).recording with
  | some r => services.record r i
  | none => services.execute i

/-- Takes the machine over a stream, up to the first failure. -/
def steps : List Instruction → Machine.Action σ Unit
  | [] => pure ()
  | i :: is => do
    services.step i
    steps is

end Services
end ObjectMarkup
