/-
The record of a construction: every value that was committed to a member, in the order of the
commitments.  Nothing is taken out of it.
-/
import ObjectMarkup.Value

namespace ObjectMarkup

structure AmbientRecord where
  member : Member
  value : Value
  owner : ObjectId

structure Ambient where
  records : List AmbientRecord := []

namespace Ambient

def add (a : Ambient) (member : Member) (value : Value) (owner : ObjectId) : Ambient :=
  ⟨a.records ++ [⟨member, value, owner⟩]⟩

/-- The latest value of a member called `name`, whoever declares it. -/
def lookup (a : Ambient) (name : String) : Option Value :=
  (a.records.reverse.find? fun r => r.member.name == name).map (·.value)

/-- The latest value of this member. -/
def lookupMember (a : Ambient) (m : Member) : Option Value :=
  (a.records.reverse.find? fun r => r.member.same m).map (·.value)

/-- The objects whose members were set, each where it first occurs. -/
def owners (a : Ambient) : List ObjectId :=
  a.records.foldl (fun seen r => if seen.contains r.owner then seen else seen ++ [r.owner]) []

/-- The objects that the record keeps alive. -/
def held (a : Ambient) : List ObjectId :=
  a.records.flatMap fun r => r.owner :: r.value.held

end Ambient
end ObjectMarkup
