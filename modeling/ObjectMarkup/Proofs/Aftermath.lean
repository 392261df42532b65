/-
What a call of the services leaves behind, whatever it ends with.

A construction that fails leaves the world as it is then, so that what it promises to those outside
has to hold of every call, in success and in failure.  `CallsLeave S` says it of the heap: every
action of the host, of a constructor and of a loader leads from a heap to one in the relation `S`.
A relation between worlds that follows the heaps (`Admits S R`) then holds of whatever the
construction does, as far as it holds of what becomes of the scopes.
-/
import ObjectMarkup.Proofs.Scoping

namespace ObjectMarkup

open ObjectMarkup.Action (Leaves endState endState_bind)

variable {σ : Type}

namespace Services

/-- Whatever a call ends with, it leads from a heap to one in the relation `S`. -/
structure CallsLeave (services : Services σ) (S : σ → σ → Prop) : Prop where
  activate : ∀ type arguments, Leaves S (services.activate type arguments)
  loader : ∀ m loader, services.loaders.find? m = some loader → ∀ stream, Leaves S (loader m stream)
  setMember : ∀ id m v, Leaves S (services.host.setMember id m v)
  setAttached : ∀ id m v, Leaves S (services.host.setAttached id m v)
  append : ∀ id v, Leaves S (services.host.append id v)
  provide : ∀ id p, Leaves S (services.host.provide id p)
  beginInit : ∀ id heap, S heap (services.host.beginInit id heap)
  endInit : ∀ id heap, S heap (services.host.endInit id heap)

end Services

/-- The relation allows the heap to change by `S`, and the stages to be counted. -/
structure World.Admits (S : σ → σ → Prop) (R : World σ → World σ → Prop) : Prop where
  heap : ∀ (w : World σ) heap, S w.heap heap → R w (w.setHeap heap)
  lifecycle : ∀ (w : World σ) l, R w (w.setLifecycle l)

namespace Build

theorem onHeap_leaves {ε α : Type} {S : σ → σ → Prop} {R : World σ → World σ → Prop}
    (hR : World.Admits S R) (wrap : ε → Error) {act : EStateM ε σ α} (h : Leaves S act) :
    Leaves R (Build.onHeap wrap act) := by
  intro w
  rw [onHeap]
  cases hact : act w.heap with
  | ok a heap => exact hR.heap w heap (h.of_ok hact)
  | error e heap => exact hR.heap w heap (h.of_error hact)

end Build

namespace Services

variable {services : Services σ} {S : σ → σ → Prop}

theorem CallsLeave.mono {T : σ → σ → Prop} (h : services.CallsLeave S)
    (hST : ∀ heap heap', S heap heap' → T heap heap') : services.CallsLeave T where
  activate type arguments heap := hST _ _ (h.activate type arguments heap)
  loader m loader hloader stream heap := hST _ _ (h.loader m loader hloader stream heap)
  setMember id m v heap := hST _ _ (h.setMember id m v heap)
  setAttached id m v heap := hST _ _ (h.setAttached id m v heap)
  append id v heap := hST _ _ (h.append id v heap)
  provide id p heap := hST _ _ (h.provide id p heap)
  beginInit id heap := hST _ _ (h.beginInit id heap)
  endInit id heap := hST _ _ (h.endInit id heap)

/-- Where no call takes an object away, it remains to know that constructors make new ones. -/
theorem CallsLeave.makesNew {there : σ → ObjectId → Prop}
    (h : services.CallsLeave (Stays there))
    (hnew : ∀ type arguments heap id heap', services.activate type arguments heap = .ok id heap' →
      ¬ there heap id ∧ there heap' id) : services.MakesNew there where
  activate := hnew
  activate_stays type arguments _ _ _ hcall := (h.activate type arguments).of_ok hcall
  loader m loader hloader stream _ _ _ hcall := (h.loader m loader hloader stream).of_ok hcall
  setMember id m v _ _ _ hcall := (h.setMember id m v).of_ok hcall
  setAttached id m v _ _ _ hcall := (h.setAttached id m v).of_ok hcall
  append id v _ _ _ hcall := (h.append id v).of_ok hcall
  provide id p _ _ _ hcall := (h.provide id p).of_ok hcall
  beginInit := h.beginInit
  endInit := h.endInit

/-! ## Commitments -/

namespace CallsLeave

variable (hS : services.CallsLeave S)

include hS

theorem assign (target : ObjectId) (m : Member) (v : Value) :
    Leaves S (services.assign target m v) := by
  rw [Services.assign]
  split
  · exact hS.setAttached target m v
  · exact hS.setMember target m v

variable [Std.Refl S] [Trans S S S]

theorem appendEach (target : ObjectId) (vs : List Value) :
    Leaves S (services.appendEach target vs) := by
  induction vs with
  | nil => exact .pure _
  | cons v vs ih => exact .bind (hS.append target v) fun _ => ih

theorem appendAll (target : ObjectId) (m : Member) (vs : List Value) :
    Leaves S (services.appendAll target m vs) := by
  refine .bind .get fun heap => ?_
  split
  · exact hS.appendEach target _
  · exact .throw _

theorem commitValues (target : ObjectId) (collects : Bool) (m : Member) (vs : List Value)
    (retrieved : Option Value) :
    Leaves S (services.commitValues target collects m vs retrieved) := by
  unfold Services.commitValues
  split
  · rw [commitItems]
    split
    · exact .bind (hS.appendAll target m vs) fun _ => .pure _
    · exact .bind .get fun heap => .throw _
  · split
    · refine .bind .get fun heap => ?_
      split
      · exact .bind (hS.appendAll _ m vs) fun _ => .pure _
      · exact .bind (hS.assign target m _) fun _ => .pure _
    · split
      · exact .pure _
      · exact .bind (hS.assign target m _) fun _ => .pure _
      · exact .throw _

end CallsLeave

/-! ## Objects -/

variable {R : World σ → World σ → Prop}

/-- Taking an object over changes the scopes only, whether it succeeds or not. -/
theorem endState_adopt (around : Option ScopeId) (type : TypeName) (id : ObjectId)
    (supplied : Bool) (w : World σ) :
    endState (services.adopt around type id supplied w) =
      w.setScopes (services.settle around type id supplied w.context.scopes).2 := by
  rw [adopt, endState_bind]
  simp only [Build.always, endState_bind, Action.get_apply]
  split <;> rfl

variable (hS : services.CallsLeave S) (hR : World.Admits S R)

include hS hR

theorem notifyBegin_leaves [Std.Refl R] [Trans R R R] (id : ObjectId) (w : World σ) :
    R w (services.notifyBegin id w).2 := by
  rw [notifyBegin]
  split
  · exact Trans.trans (hR.heap w _ (hS.beginInit id w.heap)) (hR.lifecycle _ _)
  · exact Std.Refl.refl w

theorem notifyCreated_leaves [Std.Refl R] [Trans R R R] (id : ObjectId) (w : World σ) :
    R w (services.notifyCreated id w).2 := by
  unfold notifyCreated
  dsimp only
  split
  · exact Trans.trans (hR.heap w _ (hS.endInit id w.heap)) (hR.lifecycle _ _)
  · exact Std.Refl.refl w

/-- What is asked of the scopes may depend on the world before: the object is new there. -/
theorem make_leaves [Std.Refl R] [Trans R R R] {around : Option ScopeId} {type : TypeName}
    {arguments : List String}
    (hsettle : ∀ (w : World σ) id heap, services.activate type arguments w.heap = .ok id heap →
      ∀ w', R w w' → R w
        (w'.setScopes (services.settle around type id false w'.context.scopes).2)) :
    Leaves R (services.make around type arguments) := by
  intro w
  rw [make, endState_bind, Build.onHeap]
  cases hactivate : services.activate type arguments w.heap with
  | error e heap => exact hR.heap w heap ((hS.activate type arguments).of_error hactivate)
  | ok id heap =>
    have hmade : R w (w.setHeap heap) :=
      hR.heap w heap ((hS.activate type arguments).of_ok hactivate)
    have hadopt : ∀ w', R w w' → R w (endState (services.adopt around type id false w')) :=
      fun w' hw' => by
        rw [endState_adopt]
        exact hsettle w id heap hactivate w' hw'
    simp only []
    split
    · have hbegun : R w (services.notifyBegin id (w.setHeap heap)).2 :=
        Trans.trans hmade (notifyBegin_leaves hS hR id _)
      simp only [endState_bind, Build.always]
      split
      · exact hbegun
      · exact hadopt _ hbegun
    · exact hadopt _ hmade

theorem complete_leaves [Std.Refl R] [Trans R R R] {type : TypeName} {name : Option String}
    {site : Site} {outside : Option (Option ScopeId)}
    (hregister : ∀ (w : World σ) given s ns, name = some given →
      services.nameScope type site outside = some s →
      w.context.scopes.register s given site.object = .ok ns → R w (w.setScopes ns)) :
    Leaves R (services.complete type name site outside) := by
  have hname : Leaves R
      (register (σ := σ) name (services.nameScope type site outside) site.object) := by
    cases name with
    | none => exact .pure _
    | some given =>
      cases hscope : services.nameScope type site outside with
      | none => exact .pure _
      | some s =>
        intro w
        cases hns : w.context.scopes.register s given site.object with
        | ok ns =>
          simp only [register, Action.bind_apply, Action.get_apply, hns, Action.set_apply]
          exact hregister w given s ns rfl hscope hns
        | error e =>
          simp only [register, Action.bind_apply, Action.get_apply, hns, Action.throw_apply]
          exact Std.Refl.refl w
  rw [complete_eq]
  split
  · exact .bind (Build.always_leaves (notifyCreated_leaves hS hR site.object)) fun _ => hname
  · exact hname

theorem valueOf_leaves [Std.Refl R] [Trans R R R] (type : TypeName) (site : Site)
    (target root : Option ObjectId) (member : Option Member) :
    Leaves R (services.valueOf type site target root member) := by
  rw [valueOf]
  split
  · refine .bind .get fun w => ?_
    split
    · exact Build.onHeap_leaves hR _ (hS.provide _ _)
    · exact .throw _
  · exact .pure _

theorem commit_leaves [Std.Refl S] [Trans S S S] [Trans R R R]
    (hambient : ∀ (w : World σ) a, R w (w.setAmbient a)) (target : ObjectId)
    (collects : Bool) (m : Member) (vs : List Value) (retrieved : Option Value) :
    Leaves R (services.commit target collects m vs retrieved) :=
  .bind (Build.onHeap_leaves hR _ (hS.commitValues target collects m vs retrieved)) fun _ =>
    .update fun w => hambient w _

end Services
end ObjectMarkup
