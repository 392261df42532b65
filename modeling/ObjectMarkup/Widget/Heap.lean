/-
The heap of widgets.  An object that nothing keeps alive any more is taken out, and its number is
not used again; objects that keep each other alive in a circle stay.
-/
import ObjectMarkup.Host
import ObjectMarkup.Widget.Behaviour

namespace ObjectMarkup

/-- The widgets by number; those that were taken out leave a gap. -/
structure Heap where
  slots : Array (Option Widget) := #[]

namespace Heap

def find? (h : Heap) (id : ObjectId) : Option Widget :=
  (h.slots[id.index]?).join

def isAlive (h : Heap) (id : ObjectId) : Bool := (h.find? id).isSome

def put (h : Heap) (id : ObjectId) (w : Widget) : Heap :=
  ⟨h.slots.setIfInBounds id.index (some w)⟩

/-- Adds a widget under a new number. -/
def add (h : Heap) (w : Widget) : ObjectId × Heap :=
  (⟨h.slots.size⟩, ⟨h.slots.push (some w)⟩)

theorem find?_add_self (h : Heap) (w : Widget) : (h.add w).2.find? (h.add w).1 = some w := by
  simp [add, find?]

theorem find?_put_self {h : Heap} {id : ObjectId} {w : Widget} (hid : id.index < h.slots.size) :
    (h.put id w).find? id = some w := by
  simp [put, find?, hid]

theorem find?_put_of_ne (h : Heap) {id other : ObjectId} (w : Widget)
    (hne : id.index ≠ other.index) : (h.put id w).find? other = h.find? other := by
  simp [put, find?, hne]

/-- Answers a question about a widget; `missing` where there is none. -/
def ask {α : Type} (h : Heap) (id : ObjectId) (missing : α) (f : Widget → α) : α :=
  match h.find? id with
  | some w => f w
  | none => missing

/-- Changes a widget. -/
def change (id : ObjectId) (f : Widget → Widget) (h : Heap) : Heap :=
  match h.find? id with
  | some w => h.put id (f w)
  | none => h

/-- Lets a widget change, or fail and change. -/
def act {ε : Type} (id : ObjectId) (f : EStateM ε Widget Unit) : EStateM ε Heap Unit := fun h =>
  match h.find? id with
  | none => .ok () h
  | some w =>
    match f w with
    | .ok () w => .ok () (h.put id w)
    | .error e w => .error e (h.put id w)

/-- Widgets as the objects of a construction. -/
def host : Host Heap where
  typeOf h id := h.ask id "" Widget.type
  getMember h id m := h.ask id none (Widget.getMember m)
  setMember id m v := act id (Widget.setMember m v)
  setAttached id m v := act id (Widget.setAttached m v)
  collects h id := h.ask id false fun w => w.items?.isSome
  append id v := act id (Widget.append v)
  listens h id := h.ask id false Widget.listens
  beginInit id := change id Widget.beginInit
  endInit id := change id Widget.endInit
  provides h id := h.ask id false Widget.provides
  provide id p := fun h =>
    match h.ask id (.ok .null) (Widget.provide p) with
    | .ok v => .ok v h
    | .error e => .error e h
  handles h id handler := h.ask id false (Widget.handles handler)

/-! ## Handlers -/

/-- Runs a handler on its target; answers whether the target was there and had it. -/
def invoke (handler : Handler) (h : Heap) : Bool × Heap :=
  match (h.find? handler.target).bind (Widget.invoke handler.name) with
  | some w => (true, h.put handler.target w)
  | none => (false, h)

/-- Clicks a button. -/
def click (id : ObjectId) (h : Heap) : Bool × Heap :=
  match h.find? id with
  | some (.button { click := some handler }) => h.invoke handler
  | _ => (false, h)

/-- The attached event of a window that was loaded. -/
def windowLoaded : Member := { owner := "Window", name := "Loaded", kind := .attachedEvent }

/-- Tells a test window that it was loaded. -/
def raiseLoaded (id : ObjectId) (h : Heap) : Bool × Heap :=
  match h.find? id with
  | some (.testWindow w) =>
    match w.attached.get? windowLoaded with
    | some (.handler handler) => h.invoke handler
    | _ => (false, h)
  | _ => (false, h)

/-! ## Taking out what nothing keeps alive -/

/-- The objects that the widgets of a heap keep alive. -/
def held (h : Heap) : List ObjectId :=
  h.slots.toList.flatMap fun slot => (slot.map Widget.held).getD []

/-- Marks the numbers that occur in a list. -/
def marks (size : Nat) (ids : List ObjectId) : Array Bool :=
  ids.foldl (fun a id => a.setIfInBounds id.index true) (Array.replicate size false)

/-- Takes out every widget that is kept alive neither from outside nor by a widget. -/
def sweep (roots : List ObjectId) (h : Heap) : Heap :=
  let kept := marks h.slots.size (roots ++ h.held)
  ⟨h.slots.zipWith (fun slot keep => if keep then slot else none) kept⟩

def population (h : Heap) : Nat := h.slots.countP Option.isSome

/-- Sweeps until nothing more goes, at most `fuel` times. -/
def reclaimWith (roots : List ObjectId) : Nat → Heap → Heap
  | 0, h => h
  | fuel + 1, h =>
    let swept := h.sweep roots
    if swept.population = h.population then h else reclaimWith roots fuel swept

/-- Takes out everything that is not kept alive from `roots`.  Each sweep but the last takes a
widget out, so that there are no more sweeps than widgets. -/
def reclaim (roots : List ObjectId) (h : Heap) : Heap :=
  reclaimWith roots h.slots.size h

end Heap
end ObjectMarkup
