/-
What the constructions of one document share: the scopes of names, the record of commitments, and
who was told of the stages of its construction.
-/
import ObjectMarkup.Context.Ambient
import ObjectMarkup.Context.Namescopes

namespace ObjectMarkup

/-- The count of objects told that they begin, and the objects told that they are complete. -/
structure Lifecycle where
  begun : Nat := 0
  created : List ObjectId := []
deriving Repr

structure Context where
  scopes : Namescopes := {}
  ambient : Ambient := {}
  lifecycle : Lifecycle := {}

/-- The objects that a context keeps alive. -/
def Context.held (c : Context) : List ObjectId :=
  c.scopes.held ++ c.ambient.held ++ c.lifecycle.created

/-- What an extension sees when it provides its value: where the value goes, and what was built so
far. -/
structure Provision where
  context : Context
  target : Option ObjectId := none
  member : Option Member := none
  scope : Option ScopeId := none
  root : Option ObjectId := none

namespace Provision

/-- The object of a name in the scope of the extension. -/
def findName (p : Provision) (name : String) : Option ObjectId :=
  p.scope.bind fun scope => p.context.scopes.findIn scope name

/-- The latest value of a member called `name`. -/
def ambientValue (p : Provision) (name : String) : Option Value :=
  p.context.ambient.lookup name

end Provision
end ObjectMarkup
