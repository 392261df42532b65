/-
Values of members.  Objects are referred to by identity.  A handler names its target without
keeping it alive; every other mention of an object does, and `Value.held` lists those.
-/
import ObjectMarkup.Member

namespace ObjectMarkup

/-- The identity of a constructed object. -/
structure ObjectId where
  index : Nat
deriving DecidableEq, Repr

/-- An event handler: a name that the target answers to. -/
structure Handler where
  name : String
  target : ObjectId
deriving DecidableEq, Repr

inductive Value where
  | null
  | bool (b : Bool)
  | int (n : Int)
  | float (x : Float)
  | str (s : String)
  | type (name : TypeName)
  | object (id : ObjectId)
  | list (items : List Value)
  | handler (h : Handler)
deriving Inhabited

namespace Value

/-- What messages call a value. -/
def kind : Value → String
  | null => "null"
  | bool _ => "boolean"
  | int _ => "integer"
  | float _ => "float"
  | str _ => "string"
  | type _ => "type"
  | object _ => "object"
  | list _ => "list"
  | handler _ => "handler"

mutual

/-- Equality of values: objects by identity, floats as numbers, so that a NaN differs from itself. -/
def same : Value → Value → Bool
  | null, null => true
  | bool a, bool b => a == b
  | int a, int b => a == b
  | float a, float b => a == b
  | str a, str b => a == b
  | type a, type b => a == b
  | object a, object b => a == b
  | list a, list b => sameAll a b
  | handler a, handler b => a == b
  | _, _ => false

def sameAll : List Value → List Value → Bool
  | [], [] => true
  | a :: as, b :: bs => same a b && sameAll as bs
  | _, _ => false

end

mutual

/-- The objects that a value keeps alive, with repetitions. -/
def held : Value → List ObjectId
  | object id => [id]
  | list items => heldAll items
  | _ => []

def heldAll : List Value → List ObjectId
  | [] => []
  | v :: vs => held v ++ heldAll vs

end

/-- What a value adds to a collection: a list its items, any other value itself. -/
def items : Value → List Value
  | list vs => vs
  | v => [v]

end Value

/-! ## Attached members

An object that accepts attached members stores one value for each. -/

structure AttachedValues where
  entries : List (Member × Value) := []
deriving Inhabited

namespace AttachedValues

def get? (a : AttachedValues) (m : Member) : Option Value :=
  (a.entries.find? fun e => e.1.same m).map (·.2)

def size (a : AttachedValues) : Nat := a.entries.length

def setEntries (m : Member) (v : Value) : List (Member × Value) → List (Member × Value)
  | [] => [(m, v)]
  | e :: es => if e.1.same m then (e.1, v) :: es else e :: setEntries m v es

/-- Stores `v` for `m`, in the place of an earlier value when there is one. -/
def set (a : AttachedValues) (m : Member) (v : Value) : AttachedValues :=
  ⟨setEntries m v a.entries⟩

end AttachedValues
end ObjectMarkup
