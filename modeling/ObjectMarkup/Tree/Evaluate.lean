/-
Building a tree by recursion on it: no instructions, no stack of open objects and no recording.
An object is made as soon as its node is reached; each assignment is carried out and committed in
turn; a deferred member hands the instructions of its contents to its loader unread.
-/
import ObjectMarkup.Tree.Stream
import ObjectMarkup.World.Commit
import ObjectMarkup.World.Site

namespace ObjectMarkup

/-- Where an assignment is carried out: the object it belongs to, the object that was started
first, and the number of objects that are open, both included. -/
structure Enclosure where
  site : Site
  root : ObjectId
  level : Nat

namespace Services

variable {σ : Type} (services : Services σ)

/-- Whether an object may start at a level. -/
def checkStart (type : TypeName) (level : Nat) : Except Error Unit := do
  services.checkType type
  if services.settings.maxDepth < level then
    throw (.structural (.tooDeep services.settings.maxDepth))

mutual

/-- The value of a tree that stands in the member `m` of an object. -/
def evaluateTree (e : Enclosure) (m : Member) : Tree → Build σ Value
  | .node type name arguments assignments => do
    Build.ofExcept fun _ => services.checkStart type (e.level + 1)
    let site ← services.make (some e.site.scope) type arguments
    evaluateAssignments { e with site, level := e.level + 1 } assignments
    services.complete type name site (some (some e.site.scope))
    services.valueOf type site (some e.site.object) (some e.root) (some m)

/-- Carries out one assignment and commits it. -/
def evaluateAssignment (e : Enclosure) : Assignment → Build σ Unit
  | .literal m literal => do
    let v ← match ← Build.ofExcept fun _ => services.loaderOf m with
      | some loader => Build.onHeap .deferred (loader m [.value literal])
      | none => services.readLiteral (some e.root) m literal
    services.commit e.site.object e.site.collects m [v] none
  | .children m trees => do
    let vs ← match ← Build.ofExcept fun _ => services.loaderOf m with
      | some loader => do
        let v ← Build.onHeap .deferred (loader m (Tree.instructionsAll trees))
        pure [v]
      | none => evaluateTrees e m trees
    services.commit e.site.object e.site.collects m vs none

def evaluateAssignments (e : Enclosure) : List Assignment → Build σ Unit
  | [] => pure ()
  | a :: as => do
    evaluateAssignment e a
    evaluateAssignments e as

def evaluateTrees (e : Enclosure) (m : Member) : List Tree → Build σ (List Value)
  | [] => pure []
  | t :: ts => do
    let v ← evaluateTree e m t
    let vs ← evaluateTrees e m ts
    return v :: vs

end

/-- Builds a tree whose assignments are in order, its first object being `root` if one is given. -/
def evaluateRoot (root : Option ObjectId) : Tree → Build σ ObjectId
  | .node type name arguments assignments => do
    Build.ofExcept fun _ => services.checkStart type 1
    let (type, site) ← match root with
      | some id => do
        let type := services.host.typeOf (← get).heap id
        let site ← services.adopt none type id true
        pure (type, site)
      | none => do
        let site ← services.make none type arguments
        pure (type, site)
    services.evaluateAssignments { site, root := site.object, level := 1 } assignments
    services.complete type name site none
    return site.object

/-- Builds a tree by recursion on it. -/
def evaluate (t : Tree) (root : Option ObjectId) : Build σ ObjectId := fun w =>
  match t.sort with
  | .ok t => services.evaluateRoot root t w
  | .error e => .error e w

end Services
end ObjectMarkup
