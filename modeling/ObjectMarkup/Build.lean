/-
Building: a tree, a stream or a document becomes objects.
-/
import ObjectMarkup.Machine.Step
import ObjectMarkup.Markup.Construction
import ObjectMarkup.Tree.Stream

namespace ObjectMarkup
namespace Services

variable {σ : Type} (services : Services σ)

/-- Carries out a stream from its beginning to its end.  The first object is `root` if one is given,
and stands in the scope `base`, or else in that of the document. -/
def run (stream : List Instruction) (root : Option ObjectId) (base : Option ScopeId) :
    Build σ ObjectId := fun w =>
  match services.steps stream { world := w, supplied := root, base } with
  | .error e m => .error e m.world
  | .ok () m =>
    match m.finish with
    | .ok id => .ok id m.world
    | .error e => .error e m.world

/-- Builds a tree into new objects, or into `root` and new objects. -/
def build (t : Tree) (root : Option ObjectId) : Build σ ObjectId := fun w =>
  match t.write with
  | .ok stream => services.run stream root none w
  | .error e => .error e w

/-- Carries out a stream in a scope of its own, so that its names meet no others. -/
def materialize (stream : List Instruction) : Build σ ObjectId := fun w =>
  let (scope, ns) := w.context.scopes.create none none
  services.run stream none (some scope) (w.setScopes ns)

/-- Builds what a document describes. -/
def load (e : Markup.Element) (root : Option ObjectId) : Build σ ObjectId := fun w =>
  match e.tree services.schema services.settings.reading with
  | .ok t => services.build t root w
  | .error e => .error e w

end Services
end ObjectMarkup
