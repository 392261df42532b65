/-
The instructions of a construction.  An object starts and ends, inside it members start and end,
and inside a member stand literals and objects; `getObject` enters the object that the open member
holds already.
-/
import ObjectMarkup.Member
import ObjectMarkup.Text.Quoted

namespace ObjectMarkup

/-- What is known of an object before its members are. -/
structure ObjectStart where
  type : TypeName
  name : Option String := none
  arguments : List String := []
deriving DecidableEq, Repr

inductive Instruction where
  | startObject (start : ObjectStart)
  | getObject
  | startMember (member : Member)
  | value (literal : String)
  | endMember
  | endObject
deriving DecidableEq, Repr

namespace Instruction

/-- Equality of instructions, members by identity. -/
def same : Instruction → Instruction → Bool
  | startObject a, startObject b => a == b
  | getObject, getObject => true
  | startMember a, startMember b => a.same b
  | value a, value b => a == b
  | endMember, endMember => true
  | endObject, endObject => true
  | _, _ => false

def sameAll : List Instruction → List Instruction → Bool
  | [], [] => true
  | a :: as, b :: bs => same a b && sameAll as bs
  | _, _ => false

/-- The printed form, one word for an instruction. -/
def text : Instruction → String
  | startObject start =>
    match start.name with
    | some name => s!"SO({start.type} #{name})"
    | none => s!"SO({start.type})"
  | getObject => "GO"
  | startMember m => s!"SM({m.qualifiedName})"
  | value literal => s!"V({Text.quote literal})"
  | endMember => "EM"
  | endObject => "EO"

/-- Whether `depth` open objects close with the last instruction and not before. -/
def closes : Nat → List Instruction → Bool
  | _, [] => false
  | depth, startObject _ :: is => closes (depth + 1) is
  | depth, getObject :: is => closes (depth + 1) is
  | depth, endObject :: is => if depth ≤ 1 then is.isEmpty else closes (depth - 1) is
  | depth, _ :: is => closes depth is

/-- One object, opened by the first instruction and closed by the last. -/
def isSingleObject : List Instruction → Bool
  | startObject _ :: is => closes 1 is
  | _ => false

end Instruction
end ObjectMarkup
