/-
What the parts of a construction note.

Watched services note the calls that can change an object.  Each part of a construction notes calls
of its own kind.  Of the two stages of an object `Constructs` and `Completes` say exactly what is
noted and what is counted; of the other parts it is enough to know the kind of their calls.
-/
import ObjectMarkup.Proofs.Instances

namespace ObjectMarkup

open ObjectMarkup.Action (Leaves endState)

variable {σ : Type}

/-! ## Kinds of calls -/

/-- A value goes to a member of an object, or to its items. -/
def Call.populates : Call → Bool
  | .setMember .. | .setAttached .. | .append .. => true
  | _ => false

namespace Watched

/-- More calls were noted, all of one kind. -/
def Notes (kind : Call → Prop) (h h' : Watched σ) : Prop :=
  ∃ more, h'.calls = h.calls ++ more ∧ ∀ c ∈ more, kind c

variable {kind : Call → Prop}

instance : Std.Refl (Notes (σ := σ) kind) := ⟨fun h => ⟨[], by simp, by simp⟩⟩

instance : Trans (Notes (σ := σ) kind) (Notes (σ := σ) kind) (Notes (σ := σ) kind) where
  trans := by
    rintro h h' h'' ⟨more, hmore, hkind⟩ ⟨others, hothers, hkind'⟩
    refine ⟨more ++ others, by rw [hothers, hmore, List.append_assoc], fun c hc => ?_⟩
    exact (List.mem_append.1 hc).elim (hkind c) (hkind' c)

theorem Notes.one {h h' : Watched σ} {c : Call} (hcalls : h'.calls = h.calls ++ [c])
    (hc : kind c) : Notes kind h h' :=
  ⟨[c], hcalls, by simpa using hc⟩

theorem Notes.mono {other : Call → Prop} {h h' : Watched σ} (hnotes : Notes kind h h')
    (hkind : ∀ c, kind c → other c) : Notes other h h' := by
  obtain ⟨more, hmore, hall⟩ := hnotes
  exact ⟨more, hmore, fun c hc => hkind c (hall c hc)⟩

variable (kind) in
theorem note_notes {ε α : Type} (c : Call) (hc : kind c) (act : EStateM ε σ α) :
    Leaves (Notes kind) (note c act) := by
  intro h
  rw [note]
  cases act h.heap with
  | ok a heap => exact .one rfl hc
  | error e heap => exact .one rfl hc

/-- The heaps that are watched are in a relation. -/
def Along (S : σ → σ → Prop) (h h' : Watched σ) : Prop := S h.heap h'.heap

instance {S : σ → σ → Prop} [Std.Refl S] : Std.Refl (Along S) := ⟨fun h => Std.Refl.refl h.heap⟩

instance {S : σ → σ → Prop} [Trans S S S] : Trans (Along S) (Along S) (Along S) :=
  ⟨fun h h' => Trans.trans (r := S) h h'⟩

end Watched

namespace World

/-- The stages that were counted are the same. -/
def SameStages (w w' : World σ) : Prop := w'.context.lifecycle = w.context.lifecycle

instance : Std.Refl (SameStages (σ := σ)) := ⟨fun _ => rfl⟩

instance : Trans (SameStages (σ := σ)) (SameStages (σ := σ)) (SameStages (σ := σ)) :=
  ⟨fun h h' => Eq.trans h' h⟩

end World

namespace Build

theorem onHeap_sameStages {ε α : Type} (wrap : ε → Error) (act : EStateM ε σ α) :
    Leaves World.SameStages (Build.onHeap wrap act) := by
  intro w
  rw [onHeap]
  cases act w.heap <;> rfl

theorem onHeap_notes {ε α : Type} (wrap : ε → Error) {kind : Call → Prop}
    {act : EStateM ε (Watched σ) α} (h : Leaves (Watched.Notes kind) act) :
    Leaves (World.HeapsIn (Watched.Notes kind)) (Build.onHeap wrap act) :=
  onHeap_leaves World.heapsIn_admits wrap h

end Build

namespace Services

open Watched (Notes note noteMade note_notes)

variable (services : Services σ)

/-- Watched services change the heap as the services do. -/
theorem CallsLeave.watched {services : Services σ} {S : σ → σ → Prop} (hS : services.CallsLeave S) :
    services.watched.CallsLeave (Watched.Along S) := by
  have hnote : ∀ {ε α : Type} (c : Call) {act : EStateM ε σ α}, Leaves S act →
      Leaves (Watched.Along S) (note c act) := by
    intro ε α c act hact h
    rw [note]
    cases hend : act h.heap with
    | ok a heap => exact hact.of_ok hend
    | error e heap => exact hact.of_error hend
  exact {
    activate := fun type arguments h => by
      show S h.heap (endState (noteMade type arguments (services.activate type arguments) h)).heap
      rw [noteMade]
      cases hend : services.activate type arguments h.heap with
      | ok id heap => exact (hS.activate type arguments).of_ok hend
      | error e heap => exact (hS.activate type arguments).of_error hend
    loader := fun m loader hloader stream => by
      rw [find?_watched] at hloader
      obtain ⟨loader', hfind, rfl⟩ := Option.map_eq_some_iff.1 hloader
      exact hnote _ (hS.loader m loader' hfind stream)
    setMember := fun id m v => hnote _ (hS.setMember id m v)
    setAttached := fun id m v => hnote _ (hS.setAttached id m v)
    append := fun id v => hnote _ (hS.append id v)
    provide := fun id p => hnote _ (hS.provide id p)
    beginInit := fun id h => hS.beginInit id h.heap
    endInit := fun id h => hS.endInit id h.heap }

/-- Watched services add to the calls, and take none away. -/
theorem callsLeave_notes : services.watched.CallsLeave (Notes fun _ => True) where
  activate type arguments h := by
    show Notes _ h (endState (noteMade type arguments (services.activate type arguments) h))
    rw [noteMade]
    cases services.activate type arguments h.heap with
    | ok id heap => exact .one rfl trivial
    | error e heap => exact .one rfl trivial
  loader m loader hloader stream := by
    rw [find?_watched] at hloader
    obtain ⟨loader', -, rfl⟩ := Option.map_eq_some_iff.1 hloader
    exact note_notes _ (.load m stream) trivial (loader' m stream)
  setMember id m v := note_notes _ (.setMember id m v) trivial _
  setAttached id m v := note_notes _ (.setAttached id m v) trivial _
  append id v := note_notes _ (.append id v) trivial _
  provide id p := note_notes _ (.provide id p) trivial _
  beginInit id h := .one rfl trivial
  endInit id h := .one rfl trivial

/-! ## Values and members -/

/-- The services with nothing but what a commitment asks for. -/
def forCommits : Services σ :=
  { services with
    activate := fun type _ => throw (.notActivatable type)
    loaders := {}
    host := { services.host with
      beginInit := fun _ heap => heap
      endInit := fun _ heap => heap
      provide := fun _ _ => pure .null } }

theorem appendEach_forCommits (target : ObjectId) (vs : List Value) :
    services.forCommits.appendEach target vs = services.appendEach target vs := by
  induction vs with
  | nil => rfl
  | cons v vs ih =>
    rw [appendEach, appendEach, ih]
    rfl

theorem commit_forCommits (target : ObjectId) (collects : Bool) (m : Member) (vs : List Value)
    (retrieved : Option Value) :
    services.forCommits.commit target collects m vs retrieved =
      services.commit target collects m vs retrieved := by
  have hall : services.forCommits.appendAll = services.appendAll := by
    funext target m vs
    rw [appendAll, appendAll, appendEach_forCommits]
    rfl
  unfold commit commitValues commitItems commitMany
  rw [hall]
  rfl

/-- A commitment sets members and appends items, and calls nothing else. -/
theorem commit_notes (target : ObjectId) (collects : Bool) (m : Member) (vs : List Value)
    (retrieved : Option Value) :
    Leaves (World.HeapsIn (Notes fun c => c.populates = true))
      (services.watched.commit target collects m vs retrieved) := by
  have hnote : ∀ (c : Call) (act : EStateM MemberError σ Unit), c.populates = true →
      Leaves (Notes fun c => c.populates = true) (note c act) := fun c act hc =>
    note_notes _ c hc act
  have hS : services.watched.forCommits.CallsLeave (Notes fun c => c.populates = true) := {
    activate := fun _ _ => .throw _
    loader := fun m loader hloader => by cases hloader
    setMember := fun id m v => hnote (.setMember id m v) _ rfl
    setAttached := fun id m v => hnote (.setAttached id m v) _ rfl
    append := fun id v => hnote (.append id v) _ rfl
    provide := fun _ _ => .pure _
    beginInit := fun _ _ => Std.Refl.refl _
    endInit := fun _ _ => Std.Refl.refl _ }
  rw [← commit_forCommits]
  exact commit_heaps hS target collects m vs retrieved

theorem commit_sameStages (target : ObjectId) (collects : Bool) (m : Member) (vs : List Value)
    (retrieved : Option Value) :
    Leaves World.SameStages (services.commit target collects m vs retrieved) :=
  .bind (Build.onHeap_sameStages _ _) fun _ => .update fun _ => rfl

/-- The place in which an extension provides its value. -/
def provision (w : World σ) (site : Site) (target root : Option ObjectId)
    (member : Option Member) : Provision :=
  { context := w.context, target, member, scope := some site.scope, root }

/-- An extension is asked once for its value, and is shown its place. -/
theorem valueOf_notes (type : TypeName) (site : Site) (target root : Option ObjectId)
    (member : Option Member) (w : World (Watched σ)) :
    w.HeapsIn (Notes fun c => (services.schema.traits type).extension = true ∧
        c = .provide site.object (provision w site target root member))
      (endState (services.watched.valueOf type site target root member w)) := by
  have hschema : services.watched.schema = services.schema := rfl
  rw [valueOf, hschema]
  split
  · next hextension =>
    rw [Action.endState_bind, Action.get_apply]
    dsimp only
    split
    · have hprovide := note_notes (fun c => (services.schema.traits type).extension = true ∧
          c = .provide site.object (provision w site target root member)) _ ⟨hextension, rfl⟩
        (services.host.provide site.object (provision w site target root member))
      exact Build.onHeap_notes .extension hprovide w
    · exact ⟨[], (List.append_nil _).symm, by simp⟩
  · exact ⟨[], (List.append_nil _).symm, by simp⟩

theorem valueOf_sameStages (type : TypeName) (site : Site) (target root : Option ObjectId)
    (member : Option Member) :
    Leaves World.SameStages (services.valueOf type site target root member) := by
  rw [valueOf]
  split
  · refine .bind .get fun w => ?_
    split
    · exact Build.onHeap_sameStages _ _
    · exact .throw _
  · exact .pure _

/-- A watched loader notes that it is called. -/
theorem load_notes {m : Member} {loader : Loader (Watched σ)}
    (h : services.watched.loaders.find? m = some loader) (stream : List Instruction) :
    Leaves (World.HeapsIn (Notes fun c => c = .load m stream))
      (Build.onHeap .deferred (loader m stream)) := by
  rw [find?_watched] at h
  obtain ⟨loader', -, rfl⟩ := Option.map_eq_some_iff.1 h
  exact Build.onHeap_notes _ (note_notes (· = .load m stream) _ rfl (loader' m stream))

/-! ## The stages of an object -/

/-- What it is to make an object of a type: the constructor fails, or it makes an object, which is
told that it begins if its type asks for that and the object listens. -/
inductive Constructs (type : TypeName) (arguments : List String) (w : World (Watched σ)) :
    Option ObjectId → World (Watched σ) → Prop
  | fails {e : ActivationError} {heap : σ} :
      services.activate type arguments w.heap.heap = .error e heap →
      Constructs type arguments w none
        (w.setHeap ⟨heap, w.heap.calls ++ [.activate type arguments none]⟩)
  | untold {id : ObjectId} {heap : σ} :
      services.activate type arguments w.heap.heap = .ok id heap →
      ((services.schema.traits type).lifecycle = true → services.host.listens heap id = false) →
      Constructs type arguments w (some id)
        (w.setHeap ⟨heap, w.heap.calls ++ [.activate type arguments (some id)]⟩)
  | told {id : ObjectId} {heap : σ} :
      services.activate type arguments w.heap.heap = .ok id heap →
      (services.schema.traits type).lifecycle = true → services.host.listens heap id = true →
      Constructs type arguments w (some id)
        ((w.setHeap ⟨services.host.beginInit id heap,
            w.heap.calls ++ [.activate type arguments (some id), .beginInit id]⟩).setLifecycle
          { w.context.lifecycle with begun := w.context.lifecycle.begun + 1 })

/-- The outcome of a constructor decides what is done before the object is put into its scope. -/
theorem construct_apply (type : TypeName) (arguments : List String) (w : World σ) :
    services.construct type arguments w =
      match services.activate type arguments w.heap with
      | .error e heap => .error (.activation e) (w.setHeap heap)
      | .ok id heap =>
        if (services.schema.traits type).lifecycle then
          if services.host.listens heap id then
            .ok id ((w.setHeap (services.host.beginInit id heap)).setLifecycle
              { w.context.lifecycle with begun := w.context.lifecycle.begun + 1 })
          else .error (.member (.missingCapability type .lifecycle)) (w.setHeap heap)
        else .ok id (w.setHeap heap) := by
  rw [construct, Action.bind_apply, Build.onHeap]
  cases services.activate type arguments w.heap with
  | error e heap => rfl
  | ok id heap =>
    dsimp only
    split
    · simp only [Action.bind_apply, Build.always, notifyBegin]
      have hheap : (w.setHeap heap).heap = heap := rfl
      rw [hheap]
      cases services.host.listens heap id <;> rfl
    · rfl

theorem construct_constructs (type : TypeName) (arguments : List String)
    (w : World (Watched σ)) :
    ∃ made, services.Constructs type arguments w made
        (endState (services.watched.construct type arguments w)) ∧
      ∀ id w', services.watched.construct type arguments w = .ok id w' → made = some id := by
  have hschema : services.watched.schema = services.schema := rfl
  have hcall : services.watched.activate type arguments w.heap =
      match services.activate type arguments w.heap.heap with
      | .ok id heap => .ok id ⟨heap, w.heap.calls ++ [.activate type arguments (some id)]⟩
      | .error e heap => .error e ⟨heap, w.heap.calls ++ [.activate type arguments none]⟩ := by
    show noteMade type arguments (services.activate type arguments) w.heap = _
    rw [noteMade]
    cases services.activate type arguments w.heap.heap <;> rfl
  rw [construct_apply, hcall, hschema]
  cases hactivate : services.activate type arguments w.heap.heap with
  | error e heap => exact ⟨none, .fails hactivate, fun _ _ h => by cases h⟩
  | ok id heap =>
    refine ⟨some id, ?_, ?_⟩
    · dsimp only
      split
      · next hlifecycle =>
        split
        · next hlistens =>
          have hcalls : w.heap.calls ++ [Call.activate type arguments (some id), .beginInit id] =
              (w.heap.calls ++ [.activate type arguments (some id)]) ++ [.beginInit id] := by simp
          have htold := Constructs.told hactivate hlifecycle hlistens
          rw [hcalls] at htold
          exact htold
        · next hlistens => exact .untold hactivate fun _ => Bool.eq_false_iff.2 hlistens
      · next hlifecycle => exact .untold hactivate fun h => absurd h hlifecycle
    · intro id' w' hok
      dsimp only at hok
      split at hok
      · split at hok <;> cases hok
        rfl
      · cases hok
        rfl

/-- An object is made, and then put into its scope. -/
theorem make_constructs (around : Option ScopeId) (type : TypeName) (arguments : List String)
    (w : World (Watched σ)) :
    ∃ made w₁ ns, services.Constructs type arguments w made w₁ ∧
      endState (services.watched.make around type arguments w) = w₁.setScopes ns ∧
      ∀ site w', services.watched.make around type arguments w = .ok site w' →
        made = some site.object := by
  obtain ⟨made, hconstructs, hmade⟩ := services.construct_constructs type arguments w
  rw [make_eq, Action.endState_bind, Action.bind_apply]
  cases hconstruct : services.watched.construct type arguments w with
  | error e w₁ =>
    rw [hconstruct] at hconstructs
    exact ⟨made, w₁, w₁.context.scopes, hconstructs, rfl, fun _ _ h => by cases h⟩
  | ok id w₁ =>
    rw [hconstruct] at hconstructs
    refine ⟨made, w₁, _, hconstructs, services.watched.endState_adopt around type id false w₁, ?_⟩
    intro site w' hadopt
    obtain ⟨-, collects, rfl⟩ := services.watched.adopt_ok hadopt
    exact hmade id w₁ hconstruct

/-- What it is to end an object: it is told if its type asks for that, it listens and was not told
before. -/
inductive Completes (type : TypeName) (id : ObjectId) (w : World (Watched σ)) :
    World (Watched σ) → Prop
  | told : (services.schema.traits type).lifecycle = true → id ∉ w.context.lifecycle.created →
      services.host.listens w.heap.heap id = true →
      Completes type id w
        ((w.setHeap ⟨services.host.endInit id w.heap.heap,
            w.heap.calls ++ [.endInit id]⟩).setLifecycle
          { w.context.lifecycle with created := w.context.lifecycle.created ++ [id] })
  | untold : ((services.schema.traits type).lifecycle = true →
        services.host.listens w.heap.heap id = true → id ∈ w.context.lifecycle.created) →
      Completes type id w w

theorem endState_register (name : Option String) (scope : Option ScopeId) (id : ObjectId)
    (w : World σ) : ∃ ns, endState (register name scope id w) = w.setScopes ns := by
  cases name with
  | none => exact ⟨w.context.scopes, rfl⟩
  | some given =>
    cases scope with
    | none => exact ⟨w.context.scopes, rfl⟩
    | some s =>
      simp only [register, Action.bind_apply, Action.get_apply]
      cases w.context.scopes.register s given id with
      | ok ns => exact ⟨ns, rfl⟩
      | error e => exact ⟨w.context.scopes, rfl⟩

/-- An object is told that it is complete, and then named. -/
theorem complete_completes (type : TypeName) (name : Option String) (site : Site)
    (outside : Option (Option ScopeId)) (w : World (Watched σ)) :
    ∃ w₁ ns, services.Completes type site.object w w₁ ∧
      endState (services.watched.complete type name site outside w) = w₁.setScopes ns := by
  have hschema : services.watched.schema = services.schema := rfl
  rw [complete_eq, hschema]
  split
  · next hlifecycle =>
    obtain ⟨ns, hns⟩ := endState_register name (services.watched.nameScope type site outside)
      site.object (services.watched.notifyCreated site.object w).2
    refine ⟨_, ns, ?_, hns⟩
    have hlistens : services.watched.host.listens w.heap site.object =
        services.host.listens w.heap.heap site.object := rfl
    unfold notifyCreated
    dsimp only
    rw [hlistens]
    split
    · next h =>
      obtain ⟨hnew, hlistens⟩ : site.object ∉ w.context.lifecycle.created ∧
          services.host.listens w.heap.heap site.object = true := by simpa using h
      exact .told hlifecycle hnew hlistens
    · next h => exact .untold fun _ hlistens => by simpa [hlistens] using h
  · next hlifecycle =>
    obtain ⟨ns, hns⟩ := endState_register name (services.watched.nameScope type site outside)
      site.object w
    exact ⟨w, ns, .untold fun h => absurd h hlifecycle, hns⟩

end Services
end ObjectMarkup
