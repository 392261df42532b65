/-
The world of a construction: the objects, in a heap of their host, and what is known of them.  An
action on the world may fail, and the world it leaves then is part of the answer, since what was
built until then stays built.
-/
import ObjectMarkup.Host
import ObjectMarkup.Settings

namespace ObjectMarkup

/-- What a construction can change. -/
structure World (σ : Type) where
  heap : σ
  context : Context := {}

/-- Everything a construction is given and leaves as it is. -/
structure Services (σ : Type) where
  schema : Schema
  host : Host σ
  /-- makes an object of a type -/
  activate : TypeName → Constructor σ
  /-- reads the literal of a member -/
  convert : Member → String → Except ConversionError Value
  loaders : Loaders σ := {}
  settings : Settings := {}

/-- An action on the world. -/
abbrev Build (σ α : Type) := EStateM Error (World σ) α

namespace World

variable {σ : Type}

def setHeap (w : World σ) (h : σ) : World σ := { w with heap := h }

def setScopes (w : World σ) (ns : Namescopes) : World σ :=
  { w with context := { w.context with scopes := ns } }

def setAmbient (w : World σ) (a : Ambient) : World σ :=
  { w with context := { w.context with ambient := a } }

def setLifecycle (w : World σ) (l : Lifecycle) : World σ :=
  { w with context := { w.context with lifecycle := l } }

end World

namespace Build

variable {σ α ε : Type}

/-- Lets the host act on the heap. -/
def onHeap (wrap : ε → Error) (act : EStateM ε σ α) : Build σ α := fun w =>
  match act w.heap with
  | .ok a h => .ok a (w.setHeap h)
  | .error e h => .error (wrap e) (w.setHeap h)

/-- An action that always succeeds. -/
def always (act : World σ → α × World σ) : Build σ α := fun w =>
  let (a, w) := act w
  .ok a w

/-- An answer that leaves the world as it is. -/
def ofExcept (answer : World σ → Except Error α) : Build σ α := fun w =>
  match answer w with
  | .ok a => .ok a w
  | .error e => .error e w

end Build
end ObjectMarkup
