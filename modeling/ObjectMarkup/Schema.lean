/-
What is known of types: their names, their members and what they promise of their objects.
Everything else is a function of a schema and leaves open where it comes from.
-/
import ObjectMarkup.Member

namespace ObjectMarkup

/-- What a type promises of its objects: to take items, to open a scope of names, to listen to the
stages of construction, to stand for a value of their making. -/
structure Traits where
  collection : Bool := false
  namescope : Bool := false
  lifecycle : Bool := false
  extension : Bool := false
deriving DecidableEq, Repr, Inhabited

structure Schema where
  /-- the type that a name stands for -/
  resolve : String → Option TypeName
  /-- the members that a type declares for its own objects -/
  members : TypeName → List Member
  /-- a member that a type declares for the objects of other types -/
  attached? : TypeName → String → Option Member
  traits : TypeName → Traits
  member? : TypeName → String → Option Member := fun type name =>
    (members type).find? fun m => m.name == name
  /-- the member that takes element content -/
  content? : TypeName → Option Member := fun type => (members type).find? (·.content)
  /-- whether a member takes any number of values -/
  takesMany : Member → Bool := fun m => m.collection

end ObjectMarkup
