/-
Loaders for deferred members.  A template keeps the instructions of one object, to be carried out
as often as the object is wanted; the others make a plain value of what they are given.
-/
import ObjectMarkup.Widget.Catalogue

namespace ObjectMarkup
namespace Widget

/-- Keeps the instructions, which have to be those of one object. -/
def templateLoader : Loader Heap := fun m instructions h =>
  if Instruction.isSingleObject instructions then
    let (id, h) := h.add (.template instructions)
    .ok (.object id) h
  else .error (.loadFailed m.qualifiedName "template content must be a single object") h

/-- The loaders that have a name. -/
inductive LoaderName where
  | template
  /-- the number of instructions -/
  | count
  /-- the instructions in print, one by one -/
  | echo
  /-- the instructions in print, in one line -/
  | text
  | null
  /-- no value at all -/
  | fail
deriving DecidableEq, Repr

def LoaderName.loader : LoaderName → Loader Heap
  | .template => templateLoader
  | .count => fun _ is => pure (.int is.length)
  | .echo => fun _ is => pure (.list (is.map fun i => .str i.text))
  | .text => fun _ is => pure (.str (" ".intercalate (is.map Instruction.text)))
  | .null => fun _ _ => pure .null
  | .fail => fun m _ => throw (.loadFailed m.qualifiedName "scripted")

end Widget
end ObjectMarkup
