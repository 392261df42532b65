/-
From markup to construction trees.  The children of an element are property elements, which name
their member, and content, which goes to the one member that the type declares for it.  Content has
to stand together: property elements may come before and after it, and none between.

The children are read first (`Child`), an element into its tree or what is wrong with it, so that
what remains is to put them together from left to right; the first fault met there is the one
reported.
-/
import ObjectMarkup.Error
import ObjectMarkup.Markup
import ObjectMarkup.Schema
import ObjectMarkup.Tree

namespace ObjectMarkup
namespace Markup

/-- A child of an element, with the elements in it read. -/
inductive Child where
  | element (tree : Except Error Tree)
  | property (label : String) (children : List Child)
  | text (text : String)
  | comment

namespace Child

def isBlankText : Child → Bool
  | text s => Text.allBlank s
  | _ => false

/-- The text of a run of children, comments and elements left out. -/
def textOf : List Child → String
  | [] => ""
  | text s :: cs => s ++ textOf cs
  | _ :: cs => textOf cs

/-- The elements of a run of children. -/
def elementsOf : List Child → List (Except Error Tree)
  | [] => []
  | element tree :: cs => tree :: elementsOf cs
  | _ :: cs => elementsOf cs

end Child

/-- What a run of children amounts to. -/
inductive Payload where
  | empty
  | text (text : String)
  | elements (trees : List (Except Error Tree))

/-- The first fault, or all trees. -/
def collect : List (Except Error Tree) → Except Error (List Tree)
  | [] => .ok []
  | t :: ts => do
    let t ← t
    let ts ← collect ts
    return t :: ts

/-- What stands at one place among the assignments of an element: one of its own, or the content
once all of it is known. -/
inductive Slot where
  | assignment (a : Assignment)
  | content

/-- The children of an element, divided. -/
structure Division where
  slots : List Slot := []
  content : List Child := []

/-- Where a child stands: before the content, in it, or after it, that is, after the property
element `last` that ended it. -/
inductive Place where
  | before
  | inside
  | after (last : String)

/-- The place after a property element with this label. -/
def Place.afterProperty (label : String) : Place → Place
  | before => before
  | inside => after label
  | after _ => after label

/-- What an element says of its type. -/
structure Description where
  assignments : List Assignment
  arguments : List String := []

variable (schema : Schema) (reading : Reading)

def resolve (name : String) : Except Error TypeName :=
  match schema.resolve name with
  | some type => .ok type
  | none => .error (.unknownType name)

/-- The member that an attribute or a property element of `type` means.  A label with an owner
means a member of that owner, one of its own for the type itself and an attached one for others. -/
def resolveMember (type : TypeName) (label : String) : Except Error Member :=
  let found (m : Option Member) : Except Error Member :=
    match m with
    | some m => .ok m
    | none => .error (.extraction (.unknownMember type label))
  match splitLabel label with
  | none =>
    if label.toList.contains '.' then .error (.extraction (.invalidLabel label))
    else found (schema.member? type label)
  | some (owner, name) => do
    let owner ← resolve schema owner
    found (if owner == type then schema.member? type name else schema.attached? owner name)

/-- Text and elements exclude each other; blank text is no text. -/
def payload (type : TypeName) (children : List Child) : Except Error Payload :=
  let text := Child.textOf children
  let trees := Child.elementsOf children
  match Text.allBlank text, trees.isEmpty with
  | false, false => .error (.extraction (.mixedContent type))
  | false, true => .ok (.text (if reading.ignoreBlankText then Text.trim text else text))
  | true, false => .ok (.elements trees)
  | true, true => .ok .empty

/-- The assignment of elements to a member, which takes one unless it takes many. -/
def assignElements (type : TypeName) (m : Member) (trees : List (Except Error Tree)) :
    Except Error Assignment :=
  if 1 < trees.length && !schema.takesMany m then
    .error (.extraction (.ambiguousContent type trees.length))
  else (collect trees).map (.children m)

/-- The label of the first property element among the children. -/
def firstProperty : List Child → Option String
  | [] => none
  | .property label _ :: _ => some label
  | _ :: cs => firstProperty cs

/-- The assignment that a property element makes. -/
def assignProperty (type : TypeName) (label : String) (children : List Child) :
    Except Error Assignment := do
  let m ← resolveMember schema type label
  let significant := children.filter fun c => !(reading.ignoreBlankText && c.isBlankText)
  if let some inner := firstProperty significant then
    throw (.extraction (.nestedPropertyElement label inner))
  match ← payload reading type significant with
  | .text s => return .literal m s
  | .empty =>
    if schema.takesMany m then return .children m []
    else throw (.extraction (.emptyAssignment type m.qualifiedName))
  | .elements trees => assignElements schema type m trees

/-- The assignment of element content: to the content member, or to the items of a type that is a
collection and declares none. -/
def assignContent (type : TypeName) (trees : List (Except Error Tree)) :
    Except Error Assignment :=
  match schema.content? type with
  | some m => assignElements schema type m trees
  | none =>
    if (schema.traits type).collection then assignElements schema type (.items type) trees
    else .error (.extraction (.noContentMember type))

/-- Divides the children that follow `place`.  Blank text is passed over, and so are comments. -/
def divide (type : TypeName) : Place → List Child → Except Error Division
  | _, [] => .ok {}
  | place, .comment :: cs => divide type place cs
  | place, .property label inner :: cs => do
    let a ← assignProperty schema reading type label inner
    let d ← divide type (place.afterProperty label) cs
    return { d with slots := .assignment a :: d.slots }
  | place, c :: cs =>
    if c.isBlankText then divide type place cs
    else match place with
      | .before => do
        let d ← divide type .inside cs
        return { slots := .content :: d.slots, content := c :: d.content }
      | .inside => do
        let d ← divide type .inside cs
        return { d with content := c :: d.content }
      | .after last => .error (.extraction (.contentContiguity type last))

/-- One literal for every attribute but the one that names the object. -/
def attributeSlots (type : TypeName) : List Attribute → Except Error (List Slot)
  | [] => .ok []
  | a :: as =>
    if a.name == reading.nameDirective then attributeSlots type as
    else do
      let m ← resolveMember schema type a.name
      let slots ← attributeSlots type as
      return .assignment (.literal m a.value) :: slots

/-- Puts the content, if it makes an assignment, where it stands. -/
def fill (content : Option Assignment) : List Slot → List Assignment
  | [] => []
  | .assignment a :: slots => a :: fill content slots
  | .content :: slots => content.toList ++ fill content slots

/-- The assignments of an element of type `type`, and the text it is constructed from when the
type declares no member for it. -/
def describe (type : TypeName) (attributes : List Attribute) (children : List Child) :
    Except Error Description := do
  let slots ← attributeSlots schema reading type attributes
  let d ← divide schema reading type .before children
  let slots := slots ++ d.slots
  match ← payload reading type d.content with
  | .empty => return { assignments := fill none slots }
  | .text s =>
    match schema.content? type with
    | some m => return { assignments := fill (some (.literal m s)) slots }
    | none => return { assignments := fill none slots, arguments := [s] }
  | .elements trees =>
    let a ← assignContent schema type trees
    return { assignments := fill (some a) slots }

/-- The name that the attributes give. -/
def nameOf (attributes : List Attribute) : Option String :=
  (attributes.find? fun a => a.name == reading.nameDirective).map (·.value)

/-- The tree of an element with its children read. -/
def construct (name : String) (attributes : List Attribute) (children : List Child) :
    Except Error Tree := do
  let type ← resolve schema name
  let d ← describe schema reading type attributes children
  return .node type (nameOf reading attributes) d.arguments d.assignments

mutual

def Node.read : Node → Child
  | .element type attributes children =>
    .element (construct schema reading type attributes (Node.readAll children))
  | .property label children => .property label (Node.readAll children)
  | .text s => .text s
  | .comment _ => .comment

def Node.readAll : List Node → List Child
  | [] => []
  | n :: ns => n.read :: Node.readAll ns

end

/-- The construction that an element describes. -/
def Element.tree (e : Element) : Except Error Tree :=
  construct schema reading e.type e.attributes (Node.readAll schema reading e.children)

/-- The assignments that an element makes when it is read as an object of type `type`, whatever
type it names. -/
def Element.assignments (type : TypeName) (e : Element) : Except Error (List Assignment) :=
  (describe schema reading type e.attributes (Node.readAll schema reading e.children)).map
    (·.assignments)

end Markup
end ObjectMarkup
