/-
Scopes of names.  A scope is made once and stays; names are added to it and never change.  Looking
a name up asks one scope and does not go on to its parent, which is kept to describe the scope only.

An object sees the scope it owns, the latest when it owns several, and else the scope it entered
last.
-/
import ObjectMarkup.Error

namespace ObjectMarkup

/-- A scope, by the number of scopes made before it. -/
structure ScopeId where
  index : Nat
deriving DecidableEq, Repr

structure Scope where
  owner : Option ObjectId := none
  parent : Option ScopeId := none
  names : List (String × ObjectId) := []
deriving Repr

/-- The object of a name. -/
def Scope.find? (s : Scope) (name : String) : Option ObjectId :=
  (s.names.find? fun e => e.1 == name).map (·.2)

/-- All scopes, what owns and what entered them (latest first), and the scope of the document. -/
structure Namescopes where
  scopes : List Scope := []
  owned : List (ObjectId × ScopeId) := []
  entered : List (ObjectId × ScopeId) := []
  document : Option ScopeId := none
deriving Repr

namespace Namescopes

def latest (table : List (ObjectId × ScopeId)) (id : ObjectId) : Option ScopeId :=
  (table.find? fun e => e.1 == id).map (·.2)

/-- Makes an empty scope; its owner sees it from now on. -/
def create (ns : Namescopes) (owner : Option ObjectId) (parent : Option ScopeId) :
    ScopeId × Namescopes :=
  let id : ScopeId := ⟨ns.scopes.length⟩
  (id, { ns with
    scopes := ns.scopes ++ [{ owner, parent }]
    owned := owner.toList.map (·, id) ++ ns.owned })

/-- The scope of documents whose root opens none, made when it is first asked for. -/
def documentScope (ns : Namescopes) : ScopeId × Namescopes :=
  match ns.document with
  | some id => (id, ns)
  | none =>
    let (id, ns) := ns.create none none
    (id, { ns with document := some id })

/-- Puts an object into a scope.  An object that owns a scope is left where it is. -/
def enter (ns : Namescopes) (id : ObjectId) (scope : ScopeId) : Namescopes :=
  if (latest ns.owned id).isSome then ns else { ns with entered := (id, scope) :: ns.entered }

/-- Gives an object a name that the scope does not know. -/
def register (ns : Namescopes) (scope : ScopeId) (name : String) (id : ObjectId) :
    Except NamescopeError Namescopes :=
  match ns.scopes[scope.index]? with
  | none => .error (.unknownScope scope.index)
  | some s =>
    if (s.find? name).isSome then .error (.duplicateName name)
    else .ok { ns with
      scopes := ns.scopes.set scope.index { s with names := s.names ++ [(name, id)] } }

def findIn (ns : Namescopes) (scope : ScopeId) (name : String) : Option ObjectId :=
  (ns.scopes[scope.index]?).bind fun s => s.find? name

/-- The scope that an object sees. -/
def scopeOf (ns : Namescopes) (id : ObjectId) : Option ScopeId :=
  (latest ns.owned id).or (latest ns.entered id)

/-- The object of a name in the scope that `within` sees. -/
def find (ns : Namescopes) (name : String) (within : ObjectId) : Option ObjectId :=
  (ns.scopeOf within).bind fun scope => ns.findIn scope name

def ownerOf (ns : Namescopes) (scope : ScopeId) : Option ObjectId :=
  (ns.scopes[scope.index]?).bind (·.owner)

def parentOf (ns : Namescopes) (scope : ScopeId) : Option ScopeId :=
  (ns.scopes[scope.index]?).bind (·.parent)

/-- The names of a scope as they were registered; a scope that does not exist has none. -/
def names (ns : Namescopes) (scope : ScopeId) : List String :=
  match ns.scopes[scope.index]? with
  | some s => s.names.map (·.1)
  | none => []

/-- The objects that the scopes keep alive. -/
def held (ns : Namescopes) : List ObjectId :=
  ns.scopes.flatMap (fun s => s.owner.toList ++ s.names.map (·.2)) ++ ns.entered.map (·.1)

end Namescopes
end ObjectMarkup
