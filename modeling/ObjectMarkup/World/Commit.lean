/-
Committing the values of a member to an object: items are appended to a collection that is there,
and everything else is set.  What was committed is recorded with the member and the object.
-/
import ObjectMarkup.World

namespace ObjectMarkup
namespace Services

variable {σ : Type} (services : Services σ)

/-- One value as it is, and several, or none, as a list. -/
def summary : List Value → Value
  | [v] => v
  | vs => .list vs

/-- Appends one item after the other; those before a failure stay. -/
def appendEach (target : ObjectId) : List Value → EStateM MemberError σ Unit
  | [] => pure ()
  | v :: vs => do
    services.host.append target v
    appendEach target vs

/-- Appends values to a collection, a list item by item. -/
def appendAll (target : ObjectId) (m : Member) (values : List Value) :
    EStateM MemberError σ Unit := do
  if services.host.collects (← get) target then
    services.appendEach target (values.flatMap Value.items)
  else throw (.notCollection m.qualifiedName)

/-- Sets one value, of an attached member in the attached store. -/
def assign (target : ObjectId) (m : Member) (v : Value) : EStateM MemberError σ Unit :=
  if m.isAttached then services.host.setAttached target m v
  else services.host.setMember target m v

/-- The collection that is the current value of a member. -/
def liveCollection (heap : σ) (target : ObjectId) (m : Member) : Option ObjectId :=
  match services.host.getMember heap target m with
  | some (.object id) => if services.host.collects heap id then some id else none
  | _ => none

/-- The value that a member without a live collection receives for many values. -/
def wholeList : List Value → Value
  | [.list vs] => .list vs
  | vs => .list vs

/-- Commits values to a member that takes many. -/
def commitMany (target : ObjectId) (m : Member) (values : List Value) :
    EStateM MemberError σ Value := do
  match services.liveCollection (← get) target m with
  | some c =>
    services.appendAll c m values
    return if values.isEmpty then .object c else summary values
  | none =>
    let v := wholeList values
    services.assign target m v
    return v

/-- Commits the items of an object that takes items itself, as `collects` says of it. -/
def commitItems (target : ObjectId) (collects : Bool) (m : Member) (values : List Value) :
    EStateM MemberError σ Value := do
  if collects then
    services.appendAll target m values
    return summary values
  else throw (.missingCapability (services.host.typeOf (← get) target) .collection)

/-- Commits the values that `m` received to an object.  A member that received none but gave its
object out keeps it. -/
def commitValues (target : ObjectId) (collects : Bool) (m : Member) (values : List Value)
    (retrieved : Option Value) : EStateM MemberError σ Value := do
  if m.isItems then services.commitItems target collects m values
  else if services.schema.takesMany m then services.commitMany target m values
  else
    match values, retrieved with
    | [], some v => return v
    | [v], _ =>
      services.assign target m v
      return v
    | vs, _ => throw (.unexpectedValueCount m.qualifiedName vs.length)

/-- Commits values and records what was committed. -/
def commit (target : ObjectId) (collects : Bool) (m : Member) (values : List Value)
    (retrieved : Option Value) : Build σ Unit := do
  let recorded ← Build.onHeap .member (services.commitValues target collects m values retrieved)
  modify fun w => w.setAmbient (w.context.ambient.add m recorded target)

end Services
end ObjectMarkup
