/-
A vocabulary of widgets: one type for each thing that a construction can meet, from a window that
opens a scope of names to an extension that looks a name up.  A scripted widget does what a
description of it says.
-/
import ObjectMarkup.Instruction
import ObjectMarkup.Value

namespace ObjectMarkup

structure Window where
  title : Option String := none
  content : Value := .null
  height : Int := 0
  begun : Nat := 0
  initialized : Nat := 0

/-- A window with two event handlers of its own. -/
structure TestWindow where
  title : Option String := none
  content : Value := .null
  clicked : Bool := false
  loaded : Bool := false
  attached : AttachedValues := {}

structure UserControl where
  content : Value := .null

structure TextBlock where
  text : Option String := none
  attached : AttachedValues := {}

structure Button where
  click : Option Handler := none

structure ItemCollection where
  items : List Value := []

/-- A control whose items are an object that is made with it. -/
structure ItemsControl where
  items : ObjectId
  header : Option String := none
  template : Option ObjectId := none

structure Grid where
  children : List Value := []

/-- An object that is itself a collection, and has a title. -/
structure TitledCollection where
  title : Option String := none
  items : List Value := []

/-- `rightOrder` tells whether the property was there when the value was set last. -/
structure Setter where
  property : Option String := none
  value : Option String := none
  rightOrder : Bool := false

/-- Two members, each of which depends on the other. -/
structure Knot where
  left : Option String := none
  right : Option String := none

/-! ## Scripted widgets -/

/-- What a scripted extension provides. -/
inductive ScriptedProvision where
  | value (v : Value)
  | failure (reason : String)
  /-- its own field -/
  | field (name : String)
  /-- the object of a name -/
  | find (name : String)
  /-- the latest value of a member -/
  | ambient (name : String)
  /-- all that it sees -/
  | surroundings

/-- The first value of a field. -/
inductive InitialValue where
  | value (v : Value)
  /-- an empty collection, a new one for every widget -/
  | collection

structure Script where
  runtime : TypeName
  collects : Bool := false
  listens : Bool := false
  provides : Bool := false
  /-- the members that cannot be set -/
  reject : List String := []
  /-- the members that can be read -/
  readable : List String := []
  handlers : List String := []
  capacity : Option Nat := none
  initial : List (String × InitialValue) := []
  provision : ScriptedProvision := .surroundings

/-- A widget that follows a script, and a log of what was done to it. -/
structure Scripted where
  script : Script
  arguments : List String := []
  fields : List (String × Value) := []
  items : List Value := []
  attached : AttachedValues := {}
  log : List String := []

/-! ## All widgets -/

inductive Widget where
  | window (w : Window)
  | testWindow (w : TestWindow)
  | userControl (w : UserControl)
  | textBlock (w : TextBlock)
  | button (w : Button)
  | itemCollection (w : ItemCollection)
  | itemsControl (w : ItemsControl)
  | grid (w : Grid)
  | collection (w : TitledCollection)
  | setter (w : Setter)
  | knot (w : Knot)
  | immutable (text : String)
  | simpleExtension (property : Option String)
  | collectionExtension
  | parametrizedExtension (text : String)
  | reference (target : Option String)
  | ambientLookup (member : Option String)
  | dataTemplate (content : Option ObjectId)
  | template (instructions : List Instruction)
  | scripted (w : Scripted)

namespace Widget

def type : Widget → TypeName
  | window _ => "Window"
  | testWindow _ => "TestWindow"
  | userControl _ => "UserControl"
  | textBlock _ => "TextBlock"
  | button _ => "Button"
  | itemCollection _ => "ItemCollection"
  | itemsControl _ => "ItemsControl"
  | grid _ => "Grid"
  | collection _ => "Collection"
  | setter _ => "Setter"
  | knot _ => "Knot"
  | immutable _ => "MyImmutable"
  | simpleExtension _ => "SimpleExtension"
  | collectionExtension => "CollectionExtension"
  | parametrizedExtension _ => "ParametrizedExtension"
  | reference _ => "Reference"
  | ambientLookup _ => "AmbientLookup"
  | dataTemplate _ => "DataTemplate"
  | template _ => "TemplateContent"
  | scripted w => w.script.runtime

/-- The values of the attached members. -/
def attachedHeld (a : AttachedValues) : List ObjectId :=
  a.entries.flatMap fun e => e.2.held

/-- The objects that a widget keeps alive. -/
def held : Widget → List ObjectId
  | window w => w.content.held
  | testWindow w => w.content.held ++ attachedHeld w.attached
  | userControl w => w.content.held
  | textBlock w => attachedHeld w.attached
  | itemCollection w => Value.heldAll w.items
  | itemsControl w => w.items :: w.template.toList
  | grid w => Value.heldAll w.children
  | collection w => Value.heldAll w.items
  | dataTemplate content => content.toList
  | scripted w =>
    w.fields.flatMap (fun f => f.2.held) ++ Value.heldAll w.items ++ attachedHeld w.attached
  | _ => []

/-- The items, if the widget takes items. -/
def items? : Widget → Option (List Value)
  | itemCollection w => some w.items
  | collection w => some w.items
  | scripted w => if w.script.collects then some w.items else none
  | _ => none

/-- Whether the widget listens to the stages of its construction. -/
def listens : Widget → Bool
  | window _ => true
  | scripted w => w.script.listens
  | _ => false

/-- Whether the widget stands for a value of its making. -/
def provides : Widget → Bool
  | simpleExtension _ | collectionExtension | parametrizedExtension _ | reference _
  | ambientLookup _ => true
  | scripted w => w.script.provides
  | _ => false

/-- Whether the widget has a handler of this name. -/
def handles (handler : String) : Widget → Bool
  | testWindow _ => handler == "OnClick" || handler == "OnLoad"
  | scripted w => w.script.handlers.contains handler
  | _ => false

end Widget
end ObjectMarkup
