/-
Objects under construction: how one is made or taken over, told of its stages, named, and turned
into the value that it stands for.
-/
import ObjectMarkup.World

namespace ObjectMarkup

/-- An object under construction: the scope it sees, and whether items can be appended to it. -/
structure Site where
  object : ObjectId
  collects : Bool
  scope : ScopeId
deriving DecidableEq, Repr

namespace Services

variable {σ : Type} (services : Services σ)

/-! ## Scopes -/

/-- Whether an object opens a scope: its type does, unless it is supplied and inherits. -/
def opensScope (type : TypeName) (supplied : Bool) : Bool :=
  (services.schema.traits type).namescope &&
    !(supplied && services.settings.rootScope == .inherit)

/-- The scope that an object sees which opens none: the one around it.  Around an object that
stands alone is what it sees already, if it is supplied, and else the scope of the document. -/
def scopeAround (around : Option ScopeId) (id : ObjectId) (supplied : Bool) (ns : Namescopes) :
    ScopeId × Namescopes :=
  match around with
  | some scope => (scope, ns)
  | none =>
    match if supplied then ns.scopeOf id else none with
    | some scope => (scope, ns)
    | none => ns.documentScope

/-- Finds the scope of a new object and puts the object there. -/
def settle (around : Option ScopeId) (type : TypeName) (id : ObjectId) (supplied : Bool)
    (ns : Namescopes) : ScopeId × Namescopes :=
  if services.opensScope type supplied then ns.create (some id) around
  else
    let (scope, ns) := scopeAround around id supplied ns
    (scope, ns.enter id scope)

/-- Takes an object over into the construction. -/
def adopt (around : Option ScopeId) (type : TypeName) (id : ObjectId) (supplied : Bool) :
    Build σ Site := do
  let scope ← Build.always fun w =>
    let (scope, ns) := services.settle around type id supplied w.context.scopes
    (scope, w.setScopes ns)
  let collects := services.host.collects (← get).heap id
  if !collects && (services.schema.traits type).collection then
    throw (.member (.missingCapability type .collection))
  return { object := id, collects, scope }

/-! ## Stages -/

/-- Tells an object that it begins; answers whether it listens. -/
def notifyBegin (id : ObjectId) (w : World σ) : Bool × World σ :=
  if services.host.listens w.heap id then
    let l := w.context.lifecycle
    (true, (w.setHeap (services.host.beginInit id w.heap)).setLifecycle
      { l with begun := l.begun + 1 })
  else (false, w)

/-- Tells an object that it is complete, unless it was told before; answers whether it was told
now. -/
def notifyCreated (id : ObjectId) (w : World σ) : Bool × World σ :=
  let l := w.context.lifecycle
  if !l.created.contains id && services.host.listens w.heap id then
    (true, (w.setHeap (services.host.endInit id w.heap)).setLifecycle
      { l with created := l.created ++ [id] })
  else (false, w)

/-- Makes an object, tells it that it begins if its type listens, and takes it over. -/
def make (around : Option ScopeId) (type : TypeName) (arguments : List String) :
    Build σ Site := do
  let id ← Build.onHeap .activation (services.activate type arguments)
  if (services.schema.traits type).lifecycle then
    if !(← Build.always (services.notifyBegin id)) then
      throw (.member (.missingCapability type .lifecycle))
  services.adopt around type id false

/-! ## The end of an object -/

/-- Registers the name of an object in a scope, if it has a name and there is a scope. -/
def register (name : Option String) (scope : Option ScopeId) (id : ObjectId) : Build σ Unit := do
  match name, scope with
  | some name, some scope =>
    let w ← get
    match w.context.scopes.register scope name id with
    | .ok ns => set (w.setScopes ns)
    | .error e => throw (.namescope e)
  | _, _ => return ()

/-- Ends an object: it is told if its type listens, and gets its name.  An object that stands in
another and opens a scope is named in the scope around it, which `outside` is then, and any other
in the one it sees. -/
def complete (type : TypeName) (name : Option String) (site : Site)
    (outside : Option (Option ScopeId)) : Build σ Unit := do
  let traits := services.schema.traits type
  if traits.lifecycle then
    let _ ← Build.always (services.notifyCreated site.object)
  let scope := match outside with
    | some around => if traits.namescope then around else some site.scope
    | none => some site.scope
  register name scope site.object

/-- The value that an object stands for inside another: one of its making, if it is an extension,
and else itself.  `target` and `member` are the place of the value. -/
def valueOf (type : TypeName) (site : Site) (target root : Option ObjectId)
    (member : Option Member) : Build σ Value := do
  if (services.schema.traits type).extension then
    let w ← get
    if services.host.provides w.heap site.object then
      Build.onHeap .extension (services.host.provide site.object
        { context := w.context, target, member, scope := some site.scope, root })
    else throw (.member (.missingCapability type .extension))
  else return .object site.object

/-! ## Values of literals -/

/-- The handler that the literal of an event names: one of the object that was started first. -/
def wireHandler (heap : σ) (root : Option ObjectId) (member : Member) (name : String) :
    Except Error Value :=
  match root with
  | none => .error (.member (.unknownHandler name member.qualifiedName))
  | some root =>
    if services.host.handles heap root name then .ok (.handler ⟨name, root⟩)
    else .error (.member (.unknownHandler name member.qualifiedName))

/-- The value of a literal. -/
def readLiteral (root : Option ObjectId) (member : Member) (literal : String) : Build σ Value :=
  Build.ofExcept fun w =>
    if member.isEvent then services.wireHandler w.heap root member literal
    else match services.convert member literal with
      | .ok v => .ok v
      | .error e => .error (.conversion e)

/-- The loader of a member; one that is declared deferred has to have one. -/
def loaderOf (member : Member) : Except Error (Option (Loader σ)) :=
  let loader := services.loaders.find? member
  if loader.isNone && member.deferred then
    .error (.deferred (.missingLoader member.qualifiedName))
  else .ok loader

/-- The type of a name that starts an object. -/
def checkType (name : TypeName) : Except Error Unit :=
  if (services.schema.resolve name).isNone then .error (.unknownType name) else .ok ()

end Services
end ObjectMarkup
