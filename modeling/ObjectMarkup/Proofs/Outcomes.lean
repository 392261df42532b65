/-
What a call of the services can fail with.

A call raises errors of its own kind, and passes on those of the host.  A property of errors that
holds of them all (`HoldsOfCalls`) holds of whatever the call fails with.  What it says of
committing and of naming is asked for where they are called, since for some properties it depends on
the values and on the name.
-/
import ObjectMarkup.Proofs.Action
import ObjectMarkup.World.Commit
import ObjectMarkup.World.Site

namespace ObjectMarkup

open ObjectMarkup.Action (Ends)

variable {σ : Type}

/-- The property holds of the errors of making, converting, loading and providing. -/
structure HoldsOfCalls (P : Error → Prop) : Prop where
  activation : ∀ e, P (.activation e)
  capability : ∀ type capability, P (.member (.missingCapability type capability))
  handler : ∀ name member, P (.member (.unknownHandler name member))
  conversion : ∀ e, P (.conversion e)
  deferred : ∀ e, P (.deferred e)
  extension : ∀ e, P (.extension e)

namespace Services

variable (services : Services σ) {P : Error → Prop} (hP : HoldsOfCalls P)

include hP

theorem adopt_ends (around : Option ScopeId) (type : TypeName) (id : ObjectId) (supplied : Bool) :
    Ends (services.adopt around type id supplied) (fun _ => True) P := by
  refine .bind (Build.always_ends _) fun scope _ => .bind .get fun w _ => ?_
  dsimp only
  split
  · exact .throw (hP.capability _ _)
  · exact .pure trivial

theorem make_ends (around : Option ScopeId) (type : TypeName) (arguments : List String) :
    Ends (services.make around type arguments) (fun _ => True) P := by
  refine .bind (Build.onHeap_ends_of_wrap hP.activation) fun id _ => ?_
  have hadopt := services.adopt_ends hP around type id false
  split
  · refine .bind (Build.always_ends _) fun listens _ => ?_
    dsimp only
    split
    · exact .throw (hP.capability _ _)
    · exact hadopt
  · exact hadopt

theorem valueOf_ends (type : TypeName) (site : Site) (target root : Option ObjectId)
    (member : Option Member) :
    Ends (services.valueOf type site target root member) (fun _ => True) P := by
  rw [valueOf]
  split
  · refine .bind .get fun w _ => ?_
    split
    · exact Build.onHeap_ends_of_wrap hP.extension
    · exact .throw (hP.capability _ _)
  · exact .pure trivial

theorem readLiteral_ends (root : Option ObjectId) (m : Member) (literal : String) :
    Ends (services.readLiteral root m literal) (fun _ => True) P := by
  refine Build.ofExcept_ends (fun _ _ _ => trivial) fun w e h => ?_
  split at h
  · unfold wireHandler at h
    split at h
    · cases h
      exact hP.handler _ _
    · split at h
      · cases h
      · cases h
        exact hP.handler _ _
  · split at h
    · cases h
    · cases h
      exact hP.conversion _

theorem loaderOf_ends (m : Member) :
    Ends (Build.ofExcept fun _ : World σ => services.loaderOf m) (fun _ => True) P := by
  refine Build.ofExcept_ends (fun _ _ _ => trivial) fun w e h => ?_
  rw [loaderOf] at h
  split at h
  · cases h
    exact hP.deferred _
  · cases h

omit services in
theorem loader_ends (loader : Loader σ) (m : Member) (stream : List Instruction) :
    Ends (Build.onHeap .deferred (loader m stream)) (fun _ => True) P :=
  Build.onHeap_ends_of_wrap hP.deferred

omit hP

/-! ## Committing and naming -/

theorem commit_ends_of_wrap (hmember : ∀ e, P (.member e)) (target : ObjectId) (collects : Bool)
    (m : Member) (vs : List Value) (retrieved : Option Value) :
    Ends (services.commit target collects m vs retrieved) (fun _ => True) P :=
  .bind (Build.onHeap_ends_of_wrap hmember) fun _ _ => .update

omit services in
theorem register_ends (hname : ∀ e, P (.namescope e)) (name : Option String)
    (scope : Option ScopeId) (id : ObjectId) :
    Ends (register (σ := σ) name scope id) (fun _ => True) P := by
  unfold register
  split
  · refine .bind .get fun w _ => ?_
    split
    · exact .set
    · exact .throw (hname _)
  · exact .pure trivial

theorem complete_ends (hname : ∀ e, P (.namescope e)) (type : TypeName) (name : Option String)
    (site : Site) (outside : Option (Option ScopeId)) :
    Ends (services.complete type name site outside) (fun _ => True) P := by
  unfold complete
  dsimp only
  split
  · exact .bind (Build.always_ends _) fun _ _ => register_ends hname name _ _
  · exact register_ends hname name _ _

end Services
end ObjectMarkup
