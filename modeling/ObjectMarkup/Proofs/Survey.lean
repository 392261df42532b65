/-
Building a tree and noting what became of its nodes.

The survey of a tree does what the evaluator does, and answers which object each node was built as
and which scope it sees.  Erasing these answers gives the evaluator back (`fst_surveyTree`,
`object_survey`), so that what is true of a survey is true of a build.  Nodes in deferred members
are not built and have no place in a survey.
-/
import ObjectMarkup.Proofs.Recursion

namespace ObjectMarkup

/-- A node that was built: its type and its name, its object and what was built in its members. -/
inductive Built where
  | node (type : TypeName) (name : Option String) (site : Site) (inner : List Built)

namespace Built

def type : Built → TypeName
  | node type _ _ _ => type

def name : Built → Option String
  | node _ name _ _ => name

def site : Built → Site
  | node _ _ site _ => site

def inner : Built → List Built
  | node _ _ _ inner => inner

end Built

namespace Services

variable {σ : Type} (services : Services σ)

mutual

def surveyTree (e : Enclosure) (m : Member) : Tree → Build σ (Value × Built)
  | .node type name arguments assignments => do
    Build.ofExcept fun _ => services.checkStart type (e.level + 1)
    let site ← services.make (some e.site.scope) type arguments
    let inner ← surveyAssignments { e with site, level := e.level + 1 } assignments
    services.complete type name site (some (some e.site.scope))
    let v ← services.valueOf type site (some e.site.object) (some e.root) (some m)
    return (v, .node type name site inner)

def surveyAssignment (e : Enclosure) : Assignment → Build σ (List Built)
  | .literal m literal => do
    services.evaluateAssignment e (.literal m literal)
    return []
  | .children m trees => do
    match ← Build.ofExcept fun _ => services.loaderOf m with
    | some loader => do
      let v ← Build.onHeap .deferred (loader m (Tree.instructionsAll trees))
      services.commit e.site.object e.site.collects m [v] none
      return []
    | none => do
      let built ← surveyTrees e m trees
      services.commit e.site.object e.site.collects m (built.map (·.1)) none
      return built.map (·.2)

def surveyAssignments (e : Enclosure) : List Assignment → Build σ (List Built)
  | [] => pure []
  | a :: as => do
    let built ← surveyAssignment e a
    let rest ← surveyAssignments e as
    return built ++ rest

def surveyTrees (e : Enclosure) (m : Member) : List Tree → Build σ (List (Value × Built))
  | [] => pure []
  | t :: ts => do
    let built ← surveyTree e m t
    let rest ← surveyTrees e m ts
    return built :: rest

end

/-- The survey of a tree whose assignments are in order. -/
def survey (root : Option ObjectId) : Tree → Build σ Built
  | .node type name arguments assignments => do
    Build.ofExcept fun _ => services.checkStart type 1
    let (type, site) ← services.settleRoot root type arguments
    let inner ← services.surveyAssignments { site, root := site.object, level := 1 } assignments
    services.complete type name site none
    return .node type name site inner

/-! ## What a survey does -/

mutual

theorem fst_surveyTree : (t : Tree) → (e : Enclosure) → (m : Member) →
    (·.1) <$> services.surveyTree e m t = services.evaluateTree e m t
  | .node type name arguments assignments, e, m => by
    rw [surveyTree, evaluateTree]
    simp only [map_bind, map_pure]
    refine congrArg _ (funext fun _ => congrArg _ (funext fun site => ?_))
    rw [← unit_surveyAssignments assignments, bind_map_left]
    refine congrArg _ (funext fun inner => congrArg _ (funext fun _ => ?_))
    exact bind_pure _

theorem unit_surveyAssignment : (a : Assignment) → (e : Enclosure) →
    (fun _ => ()) <$> services.surveyAssignment e a = services.evaluateAssignment e a
  | .literal m s, e => by
    rw [surveyAssignment]
    simp only [map_bind, map_pure]
    exact bind_pure _
  | .children m trees, e => by
    rw [surveyAssignment, evaluateAssignment, map_bind]
    refine congrArg _ (funext fun loader => ?_)
    cases loader with
    | some loader =>
      simp only [map_bind, map_pure, pure_bind]
      exact congrArg _ (funext fun v => bind_pure _)
    | none =>
      show (fun _ => ()) <$> (services.surveyTrees e m trees >>= fun built =>
        services.commit e.site.object e.site.collects m (built.map (·.1)) none >>= fun _ =>
          pure (built.map (·.2))) = services.evaluateTrees e m trees >>= fun vs =>
        services.commit e.site.object e.site.collects m vs none
      rw [← fst_surveyTrees trees, bind_map_left, map_bind]
      refine congrArg _ (funext fun built => ?_)
      simp only [map_bind, map_pure]
      exact bind_pure _

theorem unit_surveyAssignments : (as : List Assignment) → (e : Enclosure) →
    (fun _ => ()) <$> services.surveyAssignments e as = services.evaluateAssignments e as
  | [], e => by
    rw [surveyAssignments, evaluateAssignments, map_pure]
  | a :: as, e => by
    rw [surveyAssignments, evaluateAssignments, ← unit_surveyAssignment a, bind_map_left, map_bind]
    refine congrArg _ (funext fun built => ?_)
    rw [← unit_surveyAssignments as, map_bind, map_eq_pure_bind]
    simp only [map_pure]

theorem fst_surveyTrees : (ts : List Tree) → (e : Enclosure) → (m : Member) →
    List.map (·.1) <$> services.surveyTrees e m ts = services.evaluateTrees e m ts
  | [], e, m => by
    rw [surveyTrees, evaluateTrees, map_pure, List.map_nil]
  | t :: ts, e, m => by
    rw [surveyTrees, evaluateTrees, ← fst_surveyTree t, bind_map_left, map_bind]
    refine congrArg _ (funext fun built => ?_)
    rw [← fst_surveyTrees ts, bind_map_left, map_bind]
    simp only [map_pure, List.map_cons]

end

/-- The object of the survey is what the tree is evaluated to. -/
theorem object_survey (root : Option ObjectId) (t : Tree) :
    (·.site.object) <$> services.survey root t = services.evaluateRoot root t := by
  obtain ⟨type, name, arguments, assignments⟩ := t
  rw [survey, evaluateRoot]
  simp only [map_bind, map_pure]
  refine congrArg _ (funext fun _ => ?_)
  have hrest : ∀ settled : TypeName × Site,
      (services.surveyAssignments { site := settled.2, root := settled.2.object, level := 1 }
          assignments >>= fun inner => services.complete settled.1 name settled.2 none >>= fun _ =>
            pure (Built.node settled.1 name settled.2 inner).site.object) =
        services.evaluateAssignments
            { site := settled.2, root := settled.2.object, level := 1 } assignments >>= fun _ =>
          services.complete settled.1 name settled.2 none >>= fun _ => pure settled.2.object := by
    intro settled
    rw [← unit_surveyAssignments, bind_map_left]
    rfl
  simp only [hrest]
  cases root <;> simp only [settleRoot, bind_assoc, pure_bind]

end Services
end ObjectMarkup
