/-
What widgets do when they are set, read, filled, told of their construction, or asked for a value.
Widgets know their members by their simple names.  A change that fails leaves the widget as it was,
except that a setter notes the order in which it was set before it looks at the value.
-/
import ObjectMarkup.Context
import ObjectMarkup.Widget.Basic

namespace ObjectMarkup
namespace Widget

def rejected (m : Member) (reason : String) : MemberError :=
  .setFailed m.qualifiedName reason

def noSuchMember (m : Member) : MemberError := rejected m "no such member"

def expected (kind : String) (m : Member) (v : Value) : MemberError :=
  rejected m s!"expected {kind}, got {v.kind}"

/-! ## Setting members -/

def textOf (m : Member) : Value → Except MemberError String
  | .str s => .ok s
  | v => .error (expected "string" m v)

def integerOf (m : Member) : Value → Except MemberError Int
  | .int n => .ok n
  | v => .error (expected "integer" m v)

def objectOf (m : Member) : Value → Except MemberError ObjectId
  | .object id => .ok id
  | v => .error (expected "object" m v)

def handlerOf (m : Member) : Value → Except MemberError Handler
  | .handler h => .ok h
  | v => .error (expected "handler" m v)

/-- Puts a field into its place, or adds it at the end. -/
def putField (name : String) (v : Value) : List (String × Value) → List (String × Value)
  | [] => [(name, v)]
  | f :: fs => if f.1 == name then (name, v) :: fs else f :: putField name v fs

/-- The widget with a member set. -/
def withMember (m : Member) (v : Value) : Widget → Except MemberError Widget
  | window w =>
    match m.name with
    | "Title" => (textOf m v).map fun s => window { w with title := some s }
    | "Content" => .ok (window { w with content := v })
    | "Height" => (integerOf m v).map fun n => window { w with height := n }
    | _ => .error (noSuchMember m)
  | testWindow w =>
    match m.name with
    | "Title" => (textOf m v).map fun s => testWindow { w with title := some s }
    | "Content" => .ok (testWindow { w with content := v })
    | _ => .error (noSuchMember m)
  | userControl w =>
    match m.name with
    | "Content" => .ok (userControl { w with content := v })
    | _ => .error (noSuchMember m)
  | textBlock w =>
    match m.name with
    | "Text" => (textOf m v).map fun s => textBlock { w with text := some s }
    | _ => .error (noSuchMember m)
  | button w =>
    match m.name with
    | "Click" => (handlerOf m v).map fun h => button { w with click := some h }
    | _ => .error (noSuchMember m)
  | itemsControl w =>
    match m.name with
    | "HeaderText" => (textOf m v).map fun s => itemsControl { w with header := some s }
    | "ItemTemplate" => (objectOf m v).map fun id => itemsControl { w with template := some id }
    | _ => .error (noSuchMember m)
  | grid w =>
    match m.name with
    | "Children" => .ok (grid { w with children := v.items })
    | _ => .error (noSuchMember m)
  | collection w =>
    match m.name with
    | "Title" => (textOf m v).map fun s => collection { w with title := some s }
    | _ => .error (noSuchMember m)
  | setter w =>
    match m.name with
    | "Property" => (textOf m v).map fun s => setter { w with property := some s }
    | "Value" => (textOf m v).map fun s =>
      setter { w with value := some s, rightOrder := w.property.isSome }
    | _ => .error (noSuchMember m)
  | knot w =>
    match m.name with
    | "Left" => (textOf m v).map fun s => knot { w with left := some s }
    | "Right" => (textOf m v).map fun s => knot { w with right := some s }
    | _ => .error (noSuchMember m)
  | immutable _ => .error (rejected m "immutable")
  | simpleExtension _ =>
    match m.name with
    | "Property" => (textOf m v).map fun s => simpleExtension (some s)
    | _ => .error (noSuchMember m)
  | reference _ =>
    match m.name with
    | "Target" => (textOf m v).map fun s => reference (some s)
    | _ => .error (noSuchMember m)
  | ambientLookup _ =>
    match m.name with
    | "Member" => (textOf m v).map fun s => ambientLookup (some s)
    | _ => .error (noSuchMember m)
  | dataTemplate _ =>
    match m.name with
    | "Content" => (objectOf m v).map fun id => dataTemplate (some id)
    | _ => .error (noSuchMember m)
  | template _ => .error (rejected m "template content is read-only")
  | scripted w =>
    if w.script.reject.contains m.name then .error (rejected m "rejected")
    else .ok (scripted { w with
      fields := putField m.name v w.fields
      log := w.log ++ [s!"set {m.name}"] })
  | itemCollection _ | collectionExtension | parametrizedExtension _ => .error (noSuchMember m)

/-- The widget that a failure to set a member leaves. -/
def afterFailure (m : Member) : Widget → Widget
  | setter w =>
    if m.name == "Value" then setter { w with rightOrder := w.property.isSome } else setter w
  | w => w

def setMember (m : Member) (v : Value) : EStateM MemberError Widget Unit := fun w =>
  match w.withMember m v with
  | .ok w => .ok () w
  | .error e => .error e (w.afterFailure m)

/-! ## Reading members -/

/-- The value of a member that can be read. -/
def getMember (m : Member) : Widget → Option Value
  | window w =>
    match m.name with
    | "Title" => w.title.map .str
    | "Content" => some w.content
    | "Height" => some (.int w.height)
    | _ => none
  | textBlock w =>
    match m.name with
    | "Text" => w.text.map .str
    | _ => none
  | itemsControl w =>
    match m.name with
    | "Items" => some (.object w.items)
    | "HeaderText" => w.header.map .str
    | _ => none
  | scripted w =>
    if w.script.readable.contains m.name then w.fields.lookup m.name else none
  | _ => none

/-- Stores the value of an attached member. -/
def setAttached (m : Member) (v : Value) : EStateM MemberError Widget Unit := fun w =>
  match w with
  | testWindow t => .ok () (testWindow { t with attached := t.attached.set m v })
  | textBlock t => .ok () (textBlock { t with attached := t.attached.set m v })
  | scripted t => .ok () (scripted { t with
      attached := t.attached.set m v
      log := t.log ++ [s!"attach {m.qualifiedName}"] })
  | w => .error (.notAttachable m.qualifiedName w.type) w

/-! ## Items, stages of construction, handlers -/

/-- Adds an item at the end. -/
def append (v : Value) : EStateM MemberError Widget Unit := fun w =>
  match w with
  | itemCollection t => .ok () (itemCollection { t with items := t.items ++ [v] })
  | collection t => .ok () (collection { t with items := t.items ++ [v] })
  | scripted t =>
    match t.script.capacity with
    | some n =>
      if n ≤ t.items.length then
        .error (.setFailed s!"{t.script.runtime}.{Member.itemsName}" "full") w
      else .ok () (scripted { t with items := t.items ++ [v], log := t.log ++ ["append"] })
    | none => .ok () (scripted { t with items := t.items ++ [v], log := t.log ++ ["append"] })
  | w => .ok () w

def beginInit : Widget → Widget
  | window w => window { w with begun := w.begun + 1 }
  | scripted w => scripted { w with log := w.log ++ ["begin"] }
  | w => w

def endInit : Widget → Widget
  | window w => window { w with initialized := w.initialized + 1 }
  | scripted w => scripted { w with log := w.log ++ ["end"] }
  | w => w

/-- The widget after its handler ran, if it has one of this name. -/
def invoke (handler : String) (w : Widget) : Option Widget :=
  if w.handles handler then
    match w with
    | testWindow t =>
      if handler == "OnClick" then some (testWindow { t with clicked := true })
      else some (testWindow { t with loaded := true })
    | scripted t => some (scripted { t with log := t.log ++ [s!"invoke {handler}"] })
    | w => some w
  else none

/-! ## Values of extensions -/

def ofOption (v : Option Value) : Value := v.getD .null

/-- What a script provides. -/
def provideScripted (p : Provision) (w : Scripted) : Except ExtensionError Value :=
  match w.script.provision with
  | .value v => .ok v
  | .failure reason => .error ⟨w.script.runtime, reason⟩
  | .field name => .ok (ofOption (w.fields.lookup name))
  | .find name => .ok (ofOption ((p.findName name).map .object))
  | .ambient name => .ok (ofOption (p.ambientValue name))
  | .surroundings => .ok (.list [
      ofOption (p.target.map .object),
      ofOption (p.member.map fun m => .str m.qualifiedName),
      ofOption (p.scope.map fun s => .int s.index),
      ofOption (p.root.map .object),
      .int p.context.ambient.records.length])

def provide (p : Provision) : Widget → Except ExtensionError Value
  | simpleExtension property =>
    match property with
    | some s => .ok (.str s)
    | none => .error ⟨"SimpleExtension", "Property is not set"⟩
  | collectionExtension => .ok (.list [.str "One", .str "Two", .str "Three"])
  | parametrizedExtension s => .ok (.str s)
  | reference target =>
    match target with
    | none => .error ⟨"Reference", "Target is not set"⟩
    | some name =>
      match p.findName name with
      | some id => .ok (.object id)
      | none => .error ⟨"Reference", s!"no object named '{name}' in scope"⟩
  | ambientLookup member => .ok (ofOption (member.bind p.ambientValue))
  | scripted w => provideScripted p w
  | _ => .ok .null

end Widget
end ObjectMarkup
