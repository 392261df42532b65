/-
The state of a construction that is carried out instruction by instruction: the open objects,
innermost first, and the world they are built in.

The object of a frame is made late, at its first member or at its end, so that the text it is
constructed from, or an object that the caller supplies in its place, is known by then.
-/
import ObjectMarkup.World.Commit
import ObjectMarkup.World.Site

namespace ObjectMarkup

/-- An open object. -/
structure Frame where
  type : TypeName
  /-- the object, once it is there -/
  site : Option Site := none
  /-- the object was there before, as the value of the member that is open below -/
  isPlaceholder : Bool := false
  member : Option Member := none
  /-- the values that the open member has received -/
  pending : List Value := []
  /-- the value that a placeholder took from the open member -/
  retrieved : Option Value := none
  name : Option String := none
  arguments : List String := []

namespace Frame

def object (f : Frame) : Option ObjectId := f.site.map (·.object)

def scope (f : Frame) : Option ScopeId := f.site.map (·.scope)

end Frame

/-- A deferred member under way: the instructions since its start, and the number of members that
are open in them, itself included. -/
structure Recording (σ : Type) where
  member : Member
  loader : Loader σ
  depth : Nat := 1
  instructions : List Instruction := []

structure Machine (σ : Type) where
  world : World σ
  stack : List Frame := []
  rootClosed : Bool := false
  /-- the object to use for the first one started, as long as it is not in use -/
  supplied : Option ObjectId := none
  /-- the scope around the first object -/
  base : Option ScopeId := none
  result : Option ObjectId := none
  recording : Option (Recording σ) := none

/-- An action of the machine.  The machine after a failure is part of the answer. -/
abbrev Machine.Action (σ α : Type) := EStateM Error (Machine σ) α

namespace Machine

variable {σ : Type}

def level (m : Machine σ) : Nat := m.stack.length

def isRecording (m : Machine σ) : Bool := m.recording.isSome

/-- The frame below the innermost one. -/
def parent (m : Machine σ) : Option Frame := m.stack[1]?

/-- The object that was started first. -/
def root (m : Machine σ) : Option ObjectId := m.stack.getLast?.bind (·.object)

/-- The scope around the innermost object: that of the object it stands in, or of the whole. -/
def around (m : Machine σ) : Option ScopeId :=
  match m.parent with
  | some frame => frame.scope
  | none => m.base

/-- Changes the innermost frame. -/
def mapTop (f : Frame → Frame) (m : Machine σ) : Machine σ :=
  match m.stack with
  | [] => m
  | top :: rest => { m with stack := f top :: rest }

/-- Adds a value to those of the open member. -/
def push (v : Value) : Machine σ → Machine σ :=
  mapTop fun top => { top with pending := top.pending ++ [v] }

/-- Closes the innermost frame; the first object closes once. -/
def close (m : Machine σ) : Machine σ :=
  { m with stack := m.stack.tail, rootClosed := m.rootClosed || m.stack.length == 1 }

/-- Why an object of type `type` cannot start here. -/
def entryFault (m : Machine σ) (type : TypeName) : Option StructureError :=
  match m.stack with
  | [] => if m.rootClosed then some (.rootAlreadyClosed type) else none
  | top :: rest =>
    if top.member.isSome then none
    else if rest.isEmpty then some (.secondRoot type top.type)
    else some (.objectWithoutMember type top.type)

/-- The root, once the construction is complete.  A recording counts as a level of its own. -/
def finish (m : Machine σ) : Except Error ObjectId :=
  let openLevels := m.level + if m.isRecording then 1 else 0
  if 0 < openLevels then .error (.structural (.incomplete openLevels))
  else match m.result with
    | some id => .ok id
    | none => .error (.structural .noRoot)

/-- Fails with a fault of the nesting. -/
def malformed {α : Type} (e : StructureError) : Action σ α := throw (.structural e)

/-- Acts on the world. -/
def onWorld {α : Type} (act : Build σ α) : Action σ α := fun m =>
  match act m.world with
  | .ok a w => .ok a { m with world := w }
  | .error e w => .error e { m with world := w }

end Machine
end ObjectMarkup
