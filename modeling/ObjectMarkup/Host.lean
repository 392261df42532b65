/-
The objects that are constructed, seen from the construction.  A host keeps its objects in a heap
of its own and says what each of them does; the construction knows an object by its identity and
asks, before it appends, signals or takes a value, whether the object can.

A change that fails may have changed the heap: the heap after a failure is part of the answer.
-/
import ObjectMarkup.Context
import ObjectMarkup.Instruction
import ObjectMarkup.Schema

namespace ObjectMarkup

structure Host (σ : Type) where
  /-- the type of an object, which may be another than the one it was asked for as -/
  typeOf : σ → ObjectId → TypeName
  getMember : σ → ObjectId → Member → Option Value
  setMember : ObjectId → Member → Value → EStateM MemberError σ Unit
  setAttached : ObjectId → Member → Value → EStateM MemberError σ Unit
  /-- whether items can be appended to the object -/
  collects : σ → ObjectId → Bool
  append : ObjectId → Value → EStateM MemberError σ Unit
  /-- whether the object listens to the stages of its construction -/
  listens : σ → ObjectId → Bool
  beginInit : ObjectId → σ → σ
  endInit : ObjectId → σ → σ
  /-- whether the object stands for a value of its making -/
  provides : σ → ObjectId → Bool
  provide : ObjectId → Provision → EStateM ExtensionError σ Value
  /-- whether the object has an event handler of this name -/
  handles : σ → ObjectId → String → Bool

/-- Makes an object of a type from the text it is constructed from. -/
abbrev Constructor (σ : Type) := List String → EStateM ActivationError σ ObjectId

/-! ## Deferred members

The instructions inside a deferred member are not carried out but handed to its loader, which makes
the value of the member from them. -/

abbrev Loader (σ : Type) := Member → List Instruction → EStateM DeferredError σ Value

/-- The deferred members, each with one loader. -/
structure Loaders (σ : Type) where
  entries : List (Member × Loader σ) := []

namespace Loaders

variable {σ : Type}

def find? (ls : Loaders σ) (m : Member) : Option (Loader σ) :=
  (ls.entries.find? fun e => e.1.same m).map (·.2)

def size (ls : Loaders σ) : Nat := ls.entries.length

def register (ls : Loaders σ) (m : Member) (loader : Loader σ) :
    Except DeferredError (Loaders σ) :=
  if (ls.find? m).isSome then .error (.duplicateLoader m.qualifiedName)
  else .ok ⟨ls.entries ++ [(m, loader)]⟩

end Loaders
end ObjectMarkup
