/-
Members: the properties and events that a type declares.  Two members are the same member when
their owner and their name agree, whatever else is declared of them; `Member.same` is that relation
and every table keyed by members looks its keys up with it.
-/
namespace ObjectMarkup

/-- Types are known by name. -/
abbrev TypeName := String

/-- How a member is committed to its target. -/
inductive MemberKind where
  /-- declared by the target's own type -/
  | standard
  /-- declared by another type and stored on the target -/
  | attached
  /-- its literal names a handler on the root -/
  | event
  /-- an event declared by another type and stored on the target -/
  | attachedEvent
  /-- part of the markup itself, such as the items of a collection -/
  | directive
deriving DecidableEq, Repr

/-- What a literal of a member is converted to. -/
inductive ValueType where
  | any
  | string
  | integer
  | float
  | boolean
  | type
deriving DecidableEq, Repr

def ValueType.name : ValueType → String
  | .any => "any"
  | .string => "string"
  | .integer => "integer"
  | .float => "float"
  | .boolean => "boolean"
  | .type => "type"

/-- A member that `owner` declares.  `dependencies` names the members of the same object that have
to be assigned before it. -/
structure Member where
  owner : TypeName
  name : String
  kind : MemberKind := .standard
  valueType : ValueType := .any
  dependencies : List String := []
  content : Bool := false
  collection : Bool := false
  deferred : Bool := false
deriving DecidableEq, Repr

namespace Member

def itemsName : String := "_Items"

/-- The directive that receives the items of an object that is itself a collection. -/
def items (owner : TypeName) : Member :=
  { owner, name := itemsName, kind := .directive, content := true, collection := true }

def isAttached (m : Member) : Bool :=
  m.kind == .attached || m.kind == .attachedEvent

def isEvent (m : Member) : Bool :=
  m.kind == .event || m.kind == .attachedEvent

def isItems (m : Member) : Bool :=
  m.kind == .directive && m.name == itemsName

/-- The owner and the name, as a property element spells them. -/
def qualifiedName (m : Member) : String :=
  m.owner ++ "." ++ m.name

/-- Identity of members: owner and name, and nothing else. -/
def same (a b : Member) : Bool :=
  a.owner == b.owner && a.name == b.name

theorem same_iff {a b : Member} : a.same b = true ↔ a.owner = b.owner ∧ a.name = b.name := by
  simp [same]

end Member
end ObjectMarkup
