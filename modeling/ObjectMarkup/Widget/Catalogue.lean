/-
The types of the widgets, in their order, and how new types of scripted widgets are described.
-/
import ObjectMarkup.Catalogue
import ObjectMarkup.Widget.Heap

namespace ObjectMarkup
namespace Widget

/-- Makes a widget. -/
def create (w : Widget) : EStateM ActivationError Heap ObjectId := fun h =>
  let (id, h) := h.add w
  .ok id h

/-- The constructor that takes no arguments. -/
def plain (w : Widget) : Nat × Constructor Heap := (0, fun _ => create w)

/-- The constructor that takes one argument. -/
def fromText (type : TypeName) (make : String → Widget) : Nat × Constructor Heap :=
  (1, fun arguments =>
    match arguments with
    | s :: _ => create (make s)
    | [] => throw (.noMatchingConstructor type 0))

/-- An items control, made together with its items. -/
def createItemsControl : EStateM ActivationError Heap ObjectId := do
  let items ← create (.itemCollection {})
  create (.itemsControl { items })

def stringMember (owner : TypeName) (name : String) : Member :=
  { owner, name, valueType := .string }

def contentMember (owner : TypeName) : Member :=
  { owner, name := "Content", content := true }

/-- An integer that a type attaches to the objects of others. -/
def attachedInteger (owner : TypeName) (name : String) : Member :=
  { owner, name, kind := .attached, valueType := .integer }

/-- The deferred member of a template. -/
def templateContent : Member := { contentMember "DataTemplate" with deferred := true }

def descriptors : List (Descriptor Heap) := [
  { type := "Window"
    traits := { namescope := true, lifecycle := true }
    members := [stringMember "Window" "Title", contentMember "Window",
      { owner := "Window", name := "Height", valueType := .integer }]
    attached := [Heap.windowLoaded]
    constructors := [plain (.window {})] },
  { type := "TestWindow"
    traits := { namescope := true }
    members := [stringMember "TestWindow" "Title", contentMember "TestWindow"]
    constructors := [plain (.testWindow {})] },
  { type := "UserControl"
    traits := { namescope := true }
    members := [contentMember "UserControl"]
    constructors := [plain (.userControl {})] },
  { type := "TextBlock"
    members := [{ stringMember "TextBlock" "Text" with content := true }]
    constructors := [plain (.textBlock {})] },
  { type := "Button"
    members := [{ owner := "Button", name := "Click", kind := .event }]
    constructors := [plain (.button {})] },
  { type := "ItemsControl"
    members := [
      { owner := "ItemsControl", name := "Items", content := true, collection := true },
      stringMember "ItemsControl" "HeaderText",
      { owner := "ItemsControl", name := "ItemTemplate" }]
    constructors := [(0, fun _ => createItemsControl)] },
  { type := "ItemCollection"
    traits := { collection := true }
    constructors := [plain (.itemCollection {})] },
  { type := "Grid"
    members := [{ owner := "Grid", name := "Children", content := true, collection := true }]
    attached := [attachedInteger "Grid" "Row", attachedInteger "Grid" "Column"]
    constructors := [plain (.grid {})] },
  { type := "Collection"
    traits := { collection := true }
    members := [stringMember "Collection" "Title"]
    constructors := [plain (.collection {})] },
  { type := "Setter"
    members := [stringMember "Setter" "Property",
      { stringMember "Setter" "Value" with dependencies := ["Property"] }]
    constructors := [plain (.setter {})] },
  { type := "Knot"
    members := [{ stringMember "Knot" "Left" with dependencies := ["Right"] },
      { stringMember "Knot" "Right" with dependencies := ["Left"] }]
    constructors := [plain (.knot {})] },
  { type := "MyImmutable"
    constructors := [fromText "MyImmutable" .immutable] },
  { type := "SimpleExtension"
    traits := { extension := true }
    members := [stringMember "SimpleExtension" "Property"]
    constructors := [plain (.simpleExtension none)] },
  { type := "CollectionExtension"
    traits := { extension := true }
    constructors := [plain .collectionExtension] },
  { type := "ParametrizedExtension"
    traits := { extension := true }
    constructors := [fromText "ParametrizedExtension" .parametrizedExtension] },
  { type := "Reference"
    traits := { extension := true }
    members := [stringMember "Reference" "Target"]
    constructors := [plain (.reference none)] },
  { type := "AmbientLookup"
    traits := { extension := true }
    members := [stringMember "AmbientLookup" "Member"]
    constructors := [plain (.ambientLookup none)] },
  { type := "DataTemplate"
    members := [templateContent]
    constructors := [plain (.dataTemplate none)] }]

/-- The catalogue of all widgets. -/
def catalogue : Catalogue Heap := ⟨descriptors⟩

/-! ## Scripted types -/

/-- The first fields of a scripted widget; a collection is made for the field that holds it. -/
def createFields : List (String × InitialValue) →
    EStateM ActivationError Heap (List (String × Value))
  | [] => pure []
  | (name, initial) :: rest => do
    let v ← match initial with
      | .value v => pure v
      | .collection => do
        let id ← create (.itemCollection {})
        pure (Value.object id)
    let fields ← createFields rest
    return (name, v) :: fields

/-- Makes a scripted widget. -/
def fromScript (script : Script) : Constructor Heap := fun arguments => do
  let fields ← createFields script.initial
  create (.scripted { script, arguments, fields })

/-- A constructor that fails for a reason of its own. -/
def failing (script : Script) (reason : String) : Constructor Heap := fun _ =>
  throw (.failed script.runtime reason)

end Widget
end ObjectMarkup
