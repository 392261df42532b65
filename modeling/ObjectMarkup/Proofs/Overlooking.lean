/-
Constructions that do not see a difference.

Two heaps may differ in something that no call asks for, such as how often an object was told that
it begins.  Services overlook the difference when every call answers the same on both heaps and
leaves such heaps again (`Services.Overlooks`).  Constructions from such heaps then do the same,
call by call (`evaluateAssignments`), also where one context has counted some more beginnings than
the other.
-/
import ObjectMarkup.Proofs.Parallel

namespace ObjectMarkup

variable {σ τ ε α β : Type}

/-! ## Actions -/

/-- The states that `S` relates belong together, at one stage. -/
def Link.always (S : σ → τ → Prop) : Link Unit σ τ where
  le _ _ := True
  refl _ := trivial
  trans _ _ := trivial
  states _ := S

/-- From states that `S` relates the actions end with the same, in states that `S` relates. -/
def Agree (S : σ → τ → Prop) (x : EStateM ε σ α) (y : EStateM ε τ α) : Prop :=
  (Link.always S).Alike () (fun _ a b => a = b) x y

/-- The two outcomes are the same, but for states that `S` relates. -/
abbrev AgreeAt (S : σ → τ → Prop) (r : EStateM.Result ε σ α) (r' : EStateM.Result ε τ α) : Prop :=
  (Link.always S).Ends () (fun _ a b => a = b) r r'

section

variable {S : σ → τ → Prop} {s : σ} {t : τ}

theorem AgreeAt.ok (a : α) (h : S s t) :
    AgreeAt S (.ok a s : EStateM.Result ε σ α) (.ok a t) := Link.Ends.ok (j := ()) trivial rfl h

theorem AgreeAt.error (e : ε) (h : S s t) :
    AgreeAt S (.error e s : EStateM.Result ε σ α) (.error e t) :=
  Link.Ends.error (j := ()) trivial h

/-- What goes on the same way from outcomes that agree ends with the same. -/
theorem AgreeAt.bind {x : EStateM ε σ α} {y : EStateM ε τ α} {f : α → EStateM ε σ β}
    {g : α → EStateM ε τ β} (hx : AgreeAt S (x s) (y t)) (hf : ∀ a, Agree S (f a) (g a)) :
    AgreeAt S ((x >>= f) s) ((y >>= g) t) :=
  Link.Ends.bind hx fun _ a _ _ hab => hab ▸ hf a

namespace Agree

theorem of_forall {x : EStateM ε σ α} {y : EStateM ε τ α}
    (h : ∀ s t, S s t → AgreeAt S (x s) (y t)) : Agree S x y := fun _ _ => h

theorem apply {x : EStateM ε σ α} {y : EStateM ε τ α} (h : Agree S x y) (hs : S s t) :
    AgreeAt S (x s) (y t) := h () trivial s t hs

theorem pure (a : α) : Agree S (Pure.pure a : EStateM ε σ α) (Pure.pure a : EStateM ε τ α) :=
  .of_forall fun _ _ h => .ok a h

theorem throw (e : ε) :
    Agree S (MonadExcept.throw e : EStateM ε σ α) (MonadExcept.throw e : EStateM ε τ α) :=
  .of_forall fun _ _ h => .error e h

theorem bind {x : EStateM ε σ α} {y : EStateM ε τ α} {f : α → EStateM ε σ β}
    {g : α → EStateM ε τ β} (hx : Agree S x y) (hf : ∀ a, Agree S (f a) (g a)) :
    Agree S (x >>= f) (y >>= g) :=
  .of_forall fun _ _ h => (hx.apply h).bind hf

theorem get_bind {f : σ → EStateM ε σ β} {g : τ → EStateM ε τ β}
    (h : ∀ s t, S s t → AgreeAt S (f s s) (g t t)) : Agree S (get >>= f) (get >>= g) :=
  .of_forall h

theorem update {f : σ → σ} {g : τ → τ} (h : ∀ s t, S s t → S (f s) (g t)) :
    Agree S (modify f : EStateM ε σ PUnit) (modify g : EStateM ε τ PUnit) :=
  .of_forall fun s t hs => .ok PUnit.unit (h s t hs)

theorem refl (x : EStateM ε σ α) : Agree Eq x x := by
  refine .of_forall fun s t hs => ?_
  obtain rfl : s = t := hs
  cases x s with
  | ok a s' => exact .ok a rfl
  | error e s' => exact .error e rfl

end Agree

end

/-! ## Contexts that have counted more -/

/-- The context after `k` more beginnings. -/
def Context.ahead (k : Nat) (c : Context) : Context :=
  { c with lifecycle := { c.lifecycle with begun := c.lifecycle.begun + k } }

def Provision.ahead (k : Nat) (p : Provision) : Provision :=
  { p with context := p.context.ahead k }

/-- The first world has counted `k` more beginnings, and its heap is related to the second one's. -/
structure World.Ahead (k : Nat) (S : σ → τ → Prop) (w : World σ) (w' : World τ) : Prop where
  heap : S w.heap w'.heap
  context : w.context = w'.context.ahead k

namespace World.Ahead

variable {k : Nat} {S : σ → τ → Prop} {w : World σ} {w' : World τ}

theorem scopes (h : w.Ahead k S w') : w.context.scopes = w'.context.scopes := by rw [h.context]; rfl

theorem ambient (h : w.Ahead k S w') : w.context.ambient = w'.context.ambient := by
  rw [h.context]; rfl

theorem created (h : w.Ahead k S w') :
    w.context.lifecycle.created = w'.context.lifecycle.created := by rw [h.context]; rfl

theorem setHeap (h : w.Ahead k S w') {heap : σ} {heap' : τ} (hS : S heap heap') :
    (w.setHeap heap).Ahead k S (w'.setHeap heap') := ⟨hS, h.context⟩

theorem setScopes (h : w.Ahead k S w') (ns : Namescopes) :
    (w.setScopes ns).Ahead k S (w'.setScopes ns) :=
  ⟨h.heap, by simp only [World.setScopes, h.context]; rfl⟩

theorem setAmbient (h : w.Ahead k S w') (a : Ambient) :
    (w.setAmbient a).Ahead k S (w'.setAmbient a) :=
  ⟨h.heap, by simp only [World.setAmbient, h.context]; rfl⟩

end World.Ahead

namespace Build

variable {k : Nat} {S : σ → τ → Prop}

theorem onHeap_agree (wrap : ε → Error) {x : EStateM ε σ α} {y : EStateM ε τ α}
    (h : Agree S x y) : Agree (World.Ahead k S) (onHeap wrap x) (onHeap wrap y) := by
  refine .of_forall fun w w' hw => ?_
  have hends := h.apply hw.heap
  rw [onHeap, onHeap]
  generalize x w.heap = r at hends ⊢
  generalize y w'.heap = r' at hends ⊢
  cases hends with
  | ok _ hab hS =>
    obtain rfl := hab
    exact .ok _ (hw.setHeap hS)
  | error _ hS => exact .error _ (hw.setHeap hS)

theorem ofExcept_agree {answer : World σ → Except Error α} {answer' : World τ → Except Error α}
    (h : ∀ w w', w.Ahead k S w' → answer w = answer' w') :
    Agree (World.Ahead k S) (ofExcept answer) (ofExcept answer') := by
  refine .of_forall fun w w' hw => ?_
  rw [ofExcept, ofExcept, h w w' hw]
  cases answer' w' with
  | ok a => exact .ok a hw
  | error e => exact .error e hw

end Build

/-! ## Services -/

/-- Every call answers the same on heaps that `S` relates, and leaves such heaps.  An extension does
so too where `k` more beginnings were counted. -/
structure Services.Overlooks (services : Services σ) (k : Nat) (S : σ → σ → Prop) : Prop where
  typeOf : ∀ {h h'}, S h h' → ∀ id, services.host.typeOf h id = services.host.typeOf h' id
  getMember : ∀ {h h'}, S h h' → ∀ id m,
    services.host.getMember h id m = services.host.getMember h' id m
  collects : ∀ {h h'}, S h h' → ∀ id, services.host.collects h id = services.host.collects h' id
  listens : ∀ {h h'}, S h h' → ∀ id, services.host.listens h id = services.host.listens h' id
  provides : ∀ {h h'}, S h h' → ∀ id, services.host.provides h id = services.host.provides h' id
  handles : ∀ {h h'}, S h h' → ∀ id name,
    services.host.handles h id name = services.host.handles h' id name
  activate : ∀ type arguments,
    Agree S (services.activate type arguments) (services.activate type arguments)
  setMember : ∀ id m v, Agree S (services.host.setMember id m v) (services.host.setMember id m v)
  setAttached : ∀ id m v,
    Agree S (services.host.setAttached id m v) (services.host.setAttached id m v)
  append : ∀ id v, Agree S (services.host.append id v) (services.host.append id v)
  beginInit : ∀ {h h'}, S h h' → ∀ id,
    S (services.host.beginInit id h) (services.host.beginInit id h')
  endInit : ∀ {h h'}, S h h' → ∀ id, S (services.host.endInit id h) (services.host.endInit id h')
  provide : ∀ id p, Agree S (services.host.provide id (p.ahead k)) (services.host.provide id p)
  loader : ∀ m loader, services.loaders.find? m = some loader → ∀ stream,
    Agree S (loader m stream) (loader m stream)

namespace Services

/-- Heaps that are equal do not differ. -/
theorem overlooks_eq (services : Services σ) : services.Overlooks 0 Eq where
  typeOf h _ := h ▸ rfl
  getMember h _ _ := h ▸ rfl
  collects h _ := h ▸ rfl
  listens h _ := h ▸ rfl
  provides h _ := h ▸ rfl
  handles h _ _ := h ▸ rfl
  activate _ _ := .refl _
  setMember _ _ _ := .refl _
  setAttached _ _ _ := .refl _
  append _ _ := .refl _
  beginInit h _ := h ▸ rfl
  endInit h _ := h ▸ rfl
  provide _ _ := .refl _
  loader _ _ _ _ := .refl _

namespace Overlooks

variable {services : Services σ} {k : Nat} {S : σ → σ → Prop}

section

variable (hs : services.Overlooks k S)

include hs

/-! ## Commitments -/

section

variable (target : ObjectId) (m : Member) (vs : List Value)

theorem assign (v : Value) :
    Agree S (services.assign target m v) (services.assign target m v) := by
  rw [Services.assign]
  split
  · exact hs.setAttached target m v
  · exact hs.setMember target m v

theorem appendEach : Agree S (services.appendEach target vs) (services.appendEach target vs) := by
  induction vs with
  | nil => exact .pure _
  | cons v vs ih => exact .bind (hs.append target v) fun _ => ih

theorem appendAll : Agree S (services.appendAll target m vs) (services.appendAll target m vs) := by
  refine .get_bind fun h h' hS => ?_
  rw [hs.collects hS]
  split
  · exact (hs.appendEach target _).apply hS
  · exact .error _ hS

theorem commitMany :
    Agree S (services.commitMany target m vs) (services.commitMany target m vs) := by
  refine .get_bind fun h h' hS => ?_
  have hlive : services.liveCollection h target m = services.liveCollection h' target m := by
    simp only [liveCollection, hs.getMember hS, hs.collects hS]
  rw [hlive]
  cases services.liveCollection h' target m with
  | some c => exact ((hs.appendAll c m vs).bind fun _ => .pure _).apply hS
  | none => exact ((hs.assign target m (wholeList vs)).bind fun _ => .pure _).apply hS

theorem commitItems (collects : Bool) :
    Agree S (services.commitItems target collects m vs)
      (services.commitItems target collects m vs) := by
  rw [Services.commitItems]
  split
  · exact (hs.appendAll target m vs).bind fun _ => .pure _
  · refine .get_bind fun h h' hS => ?_
    rw [hs.typeOf hS]
    exact .error _ hS

theorem commitValues (collects : Bool) (retrieved : Option Value) :
    Agree S (services.commitValues target collects m vs retrieved)
      (services.commitValues target collects m vs retrieved) := by
  unfold Services.commitValues
  split
  · exact hs.commitItems target m vs collects
  · split
    · exact hs.commitMany target m vs
    · split
      · exact .pure _
      · exact (hs.assign target m _).bind fun _ => .pure _
      · exact .throw _

theorem commit (collects : Bool) (retrieved : Option Value) :
    Agree (World.Ahead k S) (services.commit target collects m vs retrieved)
      (services.commit target collects m vs retrieved) := by
  refine .bind (Build.onHeap_agree _ (hs.commitValues target m vs collects retrieved)) fun v => ?_
  refine .update fun w w' hw => ?_
  rw [hw.ambient]
  exact hw.setAmbient _

end

/-! ## Objects -/

theorem notifyBegin (id : ObjectId) :
    Agree (World.Ahead k S) (Build.always (services.notifyBegin id))
      (Build.always (services.notifyBegin id)) := by
  refine .of_forall fun w w' hw => ?_
  simp only [Build.always, Services.notifyBegin, hs.listens hw.heap]
  split
  · refine .ok true ⟨hs.beginInit hw.heap id, ?_⟩
    simp only [World.setHeap, World.setLifecycle, hw.context, Context.ahead]
    rw [Nat.add_right_comm]
  · exact .ok false hw

theorem notifyCreated (id : ObjectId) :
    Agree (World.Ahead k S) (Build.always (services.notifyCreated id))
      (Build.always (services.notifyCreated id)) := by
  refine .of_forall fun w w' hw => ?_
  simp only [Build.always, Services.notifyCreated, hs.listens hw.heap, hw.created]
  split
  · refine .ok true ⟨hs.endInit hw.heap id, ?_⟩
    simp only [World.setHeap, World.setLifecycle, hw.context, Context.ahead]
  · exact .ok false hw

theorem adopt (around : Option ScopeId) (type : TypeName) (id : ObjectId) (supplied : Bool) :
    Agree (World.Ahead k S) (services.adopt around type id supplied)
      (services.adopt around type id supplied) := by
  refine .of_forall fun w w' hw => ?_
  rw [adopt_apply, adopt_apply, hs.collects hw.heap, hw.scopes]
  split
  · exact .error _ (hw.setScopes _)
  · exact .ok _ (hw.setScopes _)

theorem make (around : Option ScopeId) (type : TypeName) (arguments : List String) :
    Agree (World.Ahead k S) (services.make around type arguments)
      (services.make around type arguments) := by
  refine .bind (Build.onHeap_agree _ (hs.activate type arguments)) fun id => ?_
  split
  · refine .bind (hs.notifyBegin id) fun listens => ?_
    cases listens with
    | true => exact hs.adopt around type id false
    | false => exact .throw _
  · exact hs.adopt around type id false

omit hs in
theorem register (name : Option String) (scope : Option ScopeId) (id : ObjectId) :
    Agree (World.Ahead k S) (Services.register (σ := σ) name scope id)
      (Services.register (σ := σ) name scope id) := by
  unfold Services.register
  split
  · next name scope =>
    refine .get_bind fun w w' hw => ?_
    rw [hw.scopes]
    cases w'.context.scopes.register scope name id with
    | ok ns => exact .ok _ (hw.setScopes ns)
    | error e => exact .error _ hw
  · exact .pure _

theorem complete (type : TypeName) (name : Option String) (site : Site)
    (outside : Option (Option ScopeId)) :
    Agree (World.Ahead k S) (services.complete type name site outside)
      (services.complete type name site outside) := by
  rw [complete_eq]
  split
  · exact .bind (hs.notifyCreated site.object) fun _ => register _ _ _
  · exact register _ _ _

theorem valueOf (type : TypeName) (site : Site) (target root : Option ObjectId)
    (member : Option Member) :
    Agree (World.Ahead k S) (services.valueOf type site target root member)
      (services.valueOf type site target root member) := by
  rw [Services.valueOf]
  split
  · refine .get_bind fun w w' hw => ?_
    rw [hs.provides hw.heap, hw.context]
    split
    · exact (Build.onHeap_agree .extension (hs.provide site.object
        { context := w'.context, target, member, scope := some site.scope, root })).apply hw
    · exact .error _ hw
  · exact .pure _

theorem readLiteral (root : Option ObjectId) (m : Member) (literal : String) :
    Agree (World.Ahead k S) (services.readLiteral root m literal)
      (services.readLiteral root m literal) := by
  refine Build.ofExcept_agree fun w w' hw => ?_
  cases root with
  | none => rfl
  | some root => simp only [wireHandler, hs.handles hw.heap]

omit hs in
/-- What is done with the loader of a member, or without one. -/
theorem loaded {m : Member} {f : Option (Loader σ) → Build σ α}
    (hnone : Agree (World.Ahead k S) (f none) (f none))
    (hsome : ∀ loader, services.loaders.find? m = some loader →
      Agree (World.Ahead k S) (f (some loader)) (f (some loader))) :
    Agree (World.Ahead k S) (Build.ofExcept (fun _ => services.loaderOf m) >>= f)
      (Build.ofExcept (fun _ => services.loaderOf m) >>= f) := by
  refine .of_forall fun w w' hw => ?_
  rw [Action.bind_apply, Action.bind_apply]
  simp only [Build.ofExcept]
  cases hloader : services.loaderOf m with
  | error e => exact .error e hw
  | ok loader =>
    cases loader with
    | none => exact hnone.apply hw
    | some loader => exact (hsome loader (services.loaderOf_ok hloader)).apply hw

end

/-! ## Trees -/

mutual

theorem evaluateTree (hs : services.Overlooks k S) : (t : Tree) → (e : Enclosure) → (m : Member) →
    Agree (World.Ahead k S) (services.evaluateTree e m t) (services.evaluateTree e m t)
  | .node type name arguments assignments, e, m => by
    rw [Services.evaluateTree]
    refine .bind (Build.ofExcept_agree fun _ _ _ => rfl) fun _ => ?_
    refine .bind (hs.make _ type arguments) fun site => ?_
    refine .bind (evaluateAssignments hs assignments _) fun _ => ?_
    exact .bind (hs.complete type name site _) fun _ => hs.valueOf type site _ _ _

theorem evaluateAssignment (hs : services.Overlooks k S) : (a : Assignment) → (e : Enclosure) →
    Agree (World.Ahead k S) (services.evaluateAssignment e a) (services.evaluateAssignment e a)
  | .literal m literal, e => by
    rw [Services.evaluateAssignment]
    refine loaded ?_ fun loader hloader => ?_
    · exact .bind (hs.readLiteral _ m literal) fun v => hs.commit _ m [v] _ none
    · exact .bind (Build.onHeap_agree _ (hs.loader m loader hloader _)) fun v =>
        hs.commit _ m [v] _ none
  | .children m trees, e => by
    rw [Services.evaluateAssignment]
    refine loaded ?_ fun loader hloader => ?_
    · exact .bind (evaluateTrees hs trees e m) fun vs => hs.commit _ m vs _ none
    · exact .bind (Build.onHeap_agree _ (hs.loader m loader hloader _)) fun v =>
        hs.commit _ m [v] _ none

theorem evaluateAssignments (hs : services.Overlooks k S) : (as : List Assignment) →
    (e : Enclosure) → Agree (World.Ahead k S) (services.evaluateAssignments e as)
      (services.evaluateAssignments e as)
  | [], e => .pure _
  | a :: as, e => by
    rw [Services.evaluateAssignments]
    exact .bind (evaluateAssignment hs a e) fun _ => evaluateAssignments hs as e

theorem evaluateTrees (hs : services.Overlooks k S) : (ts : List Tree) → (e : Enclosure) →
    (m : Member) → Agree (World.Ahead k S) (services.evaluateTrees e m ts)
      (services.evaluateTrees e m ts)
  | [], e, m => .pure _
  | t :: ts, e, m => by
    rw [Services.evaluateTrees]
    refine .bind (evaluateTree hs t e m) fun v => ?_
    exact .bind (evaluateTrees hs ts e m) fun vs => .pure _

end

end Overlooks
end Services
end ObjectMarkup
