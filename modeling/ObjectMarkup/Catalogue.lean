/-
A catalogue of types: their members, their traits and how their objects are made.  It answers all
that a construction asks of types, and so makes up the services of one together with a host.

Types keep the order in which they were added.  A type that is added again takes the place of the
earlier one.
-/
import ObjectMarkup.Literal
import ObjectMarkup.World

namespace ObjectMarkup

/-- What a catalogue says of one type.  A constructor is chosen by the number of its arguments, and
the first of its number counts. -/
structure Descriptor (σ : Type) where
  type : TypeName
  traits : Traits := {}
  members : List Member := []
  attached : List Member := []
  constructors : List (Nat × Constructor σ) := []

structure Catalogue (σ : Type) where
  types : List (Descriptor σ) := []

namespace Descriptor

variable {σ : Type}

/-- Adds a constructor, which takes the place of an earlier one for as many arguments. -/
def addConstructor (d : Descriptor σ) (arity : Nat) (make : Constructor σ) : Descriptor σ :=
  { d with constructors := (arity, make) :: d.constructors }

/-- The constructor for a number of arguments. -/
def constructor? (d : Descriptor σ) (arity : Nat) : Option (Constructor σ) :=
  (d.constructors.find? fun c => c.1 == arity).map (·.2)

/-- The numbers of arguments that have a constructor, ascending. -/
def arities (d : Descriptor σ) : List Nat :=
  (d.constructors.map (·.1)).eraseDups.mergeSort

end Descriptor

namespace Catalogue

variable {σ : Type}

def find? (c : Catalogue σ) (type : TypeName) : Option (Descriptor σ) :=
  c.types.find? fun d => d.type == type

def replaceOrAdd (d : Descriptor σ) : List (Descriptor σ) → List (Descriptor σ)
  | [] => [d]
  | e :: es => if e.type == d.type then d :: es else e :: replaceOrAdd d es

def add (c : Catalogue σ) (d : Descriptor σ) : Catalogue σ :=
  ⟨replaceOrAdd d c.types⟩

def names (c : Catalogue σ) : List TypeName := c.types.map (·.type)

def resolve (c : Catalogue σ) (name : String) : Option TypeName :=
  (c.find? name).map (·.type)

/-- The type that a name stands for is in the catalogue. -/
theorem find?_of_resolve {c : Catalogue σ} {name : String} {type : TypeName}
    (h : c.resolve name = some type) : ∃ d, c.find? type = some d := by
  obtain ⟨d, hd, rfl⟩ := Option.map_eq_some_iff.1 h
  have hname : d.type = name := by simpa using List.find?_some hd
  exact ⟨d, hname ▸ hd⟩

/-- The members that a type declares; a type that is not in the catalogue declares none. -/
def members (c : Catalogue σ) (type : TypeName) : List Member :=
  match c.find? type with
  | some d => d.members
  | none => []

def attached? (c : Catalogue σ) (type : TypeName) (name : String) : Option Member :=
  (c.find? type).bind fun d => d.attached.find? fun m => m.name == name

def traits (c : Catalogue σ) (type : TypeName) : Traits :=
  match c.find? type with
  | some d => d.traits
  | none => {}

def schema (c : Catalogue σ) : Schema where
  resolve := c.resolve
  members := c.members
  attached? := c.attached?
  traits := c.traits

/-- Makes an object with the constructor for as many arguments. -/
def activate (c : Catalogue σ) (type : TypeName) : Constructor σ := fun arguments =>
  match c.find? type with
  | none => throw (.notActivatable type)
  | some d =>
    if d.constructors.isEmpty then throw (.notActivatable type)
    else match d.constructor? arguments.length with
      | none => throw (.noMatchingConstructor type arguments.length)
      | some make => make arguments

/-- Converts a literal; the name of a type has to be in the catalogue. -/
def convert (c : Catalogue σ) (m : Member) (literal : String) : Except ConversionError Value :=
  match Literal.convert m literal with
  | .ok (.type name) =>
    if (c.resolve name).isSome then .ok (.type name)
    else .error {
      literal, target := .type, member := m.qualifiedName, reason := s!"unknown type '{name}'" }
  | answer => answer

/-- The services that a catalogue gives together with a host. -/
def services (c : Catalogue σ) (host : Host σ) (settings : Settings) : Services σ where
  schema := c.schema
  host := host
  activate := c.activate
  convert := c.convert
  settings := settings

end Catalogue
end ObjectMarkup
