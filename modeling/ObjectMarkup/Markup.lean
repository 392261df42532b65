/-
Markup as a reader hands it over: object elements, property elements, text and comments.  A
property element is labelled `Owner.Member`; the owner may contain dots itself, so that the last
dot divides the label.
-/
import ObjectMarkup.Member
import ObjectMarkup.Text.Blank

namespace ObjectMarkup

structure Attribute where
  name : String
  value : String
deriving DecidableEq, Repr

namespace Markup

/-- One node of a document. -/
inductive Node where
  | element (type : TypeName) (attributes : List Attribute) (children : List Node)
  | property (label : String) (children : List Node)
  | text (text : String)
  | comment (text : String)
deriving Inhabited

/-- An object element: the root of a document. -/
structure Element where
  type : TypeName
  attributes : List Attribute := []
  children : List Node := []

def Element.toNode (e : Element) : Node :=
  .element e.type e.attributes e.children

namespace Node

/-- Text made of white space only.  A comment is no text. -/
def isBlankText : Node → Bool
  | text s => Text.allBlank s
  | _ => false

/-- Adds a last child; a text and a comment have no children. -/
def addChild : Node → Node → Node
  | element type attributes children, child => element type attributes (children ++ [child])
  | property label children, child => property label (children ++ [child])
  | node, _ => node

/-- Nodes one inside the other, each the last child of the one before it. -/
def chain (node : Node) : List Node → Node
  | [] => node
  | inner :: rest => node.addChild (chain inner rest)

end Node

/-- How markup is read: the attribute that names an object, and whether white space around text
is dropped. -/
structure Reading where
  nameDirective : String := "Name"
  ignoreBlankText : Bool := true
deriving DecidableEq, Repr

/-- Divides a label at its last dot into an owner and a name, both of them not empty. -/
def splitLabel (label : String) : Option (String × String) :=
  let cs := label.toList.reverse
  let name := cs.takeWhile (· != '.')
  match cs.dropWhile (· != '.') with
  | [] => none
  | _ :: owner =>
    if owner.isEmpty || name.isEmpty then none
    else some (String.ofList owner.reverse, String.ofList name.reverse)

end Markup
end ObjectMarkup
