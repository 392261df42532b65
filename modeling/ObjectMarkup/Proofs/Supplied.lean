/-
A tree that is built into a supplied object.

The object of a tree's first node is made by the build, or was made before and is supplied.  If it
was made just before, for the type of the node, both ways lead to the same (`build_supplied`): an
object that is supplied is not told that it begins, and nothing else differs, up to the last call.
-/
import ObjectMarkup.Proofs.Order
import ObjectMarkup.Proofs.Overlooking
import ObjectMarkup.Proofs.Recursion
import ObjectMarkup.Proofs.Renaming
import ObjectMarkup.Proofs.Signals

namespace ObjectMarkup

open Watched (note noteUpdate noteMade)

variable {σ ε α : Type}

/-! ## Calls with more before them -/

/-- The call, where `k` more beginnings were counted. -/
def Call.ahead (k : Nat) : Call → Call
  | .provide id p => .provide id (p.ahead k)
  | c => c

/-- The heaps are related by `S`, and were called with the same, but that the calls `before` come
before all of those on the first. -/
structure Watched.After (before : List Call) (k : Nat) (S : σ → σ → Prop) (h h' : Watched σ) :
    Prop where
  heap : S h.heap h'.heap
  calls : h.calls = before ++ h'.calls.map (Call.ahead k)

/-- What was told is not changed by what was counted. -/
theorem begins_ahead (k : Nat) (calls : List Call) :
    begins (calls.map (Call.ahead k)) = begins calls := by
  rw [begins, List.filterMap_map]
  exact congrArg (calls.filterMap ·) (funext fun c => by cases c <;> rfl)

theorem ends_ahead (k : Nat) (calls : List Call) :
    ends (calls.map (Call.ahead k)) = ends calls := by
  rw [ends, List.filterMap_map]
  exact congrArg (calls.filterMap ·) (funext fun c => by cases c <;> rfl)

namespace Watched.After

variable {before : List Call} {k : Nat} {S : σ → σ → Prop} {h h' : Watched σ}

theorem add (hw : Watched.After before k S h h') {heap heap' : σ} (hS : S heap heap') {c c' : Call}
    (hc : c = c'.ahead k) :
    Watched.After before k S ⟨heap, h.calls ++ [c]⟩ ⟨heap', h'.calls ++ [c']⟩ :=
  ⟨hS, by rw [hw.calls, hc, List.map_append, List.append_assoc]; rfl⟩

theorem agree_note {x y : EStateM ε σ α} (hx : Agree S x y) {c c' : Call} (hc : c = c'.ahead k) :
    Agree (Watched.After before k S) (note c x) (note c' y) := by
  refine .of_forall fun h h' hw => ?_
  have hends := hx.apply hw.heap
  rw [note, note]
  generalize x h.heap = r at hends ⊢
  generalize y h'.heap = r' at hends ⊢
  cases hends with
  | ok _ hab hS =>
    obtain rfl := hab
    exact .ok _ (hw.add hS hc)
  | error _ hS => exact .error _ (hw.add hS hc)

theorem agree_noteMade (type : TypeName) (arguments : List String) {make : EStateM ε σ ObjectId}
    (hmake : Agree S make make) :
    Agree (Watched.After before k S) (noteMade type arguments make)
      (noteMade type arguments make) := by
  refine .of_forall fun h h' hw => ?_
  have hends := hmake.apply hw.heap
  rw [noteMade, noteMade]
  generalize make h.heap = r at hends ⊢
  generalize make h'.heap = r' at hends ⊢
  cases hends with
  | ok _ hab hS =>
    obtain rfl := hab
    exact .ok _ (hw.add hS rfl)
  | error _ hS => exact .error _ (hw.add hS rfl)

end Watched.After

namespace Services

variable {services : Services σ} {k : Nat} {S : σ → σ → Prop}

/-- Services that overlook a difference overlook it when they are watched. -/
theorem Overlooks.watched (hs : services.Overlooks k S) (before : List Call) :
    services.watched.Overlooks k (Watched.After before k S) where
  typeOf hw := hs.typeOf hw.heap
  getMember hw := hs.getMember hw.heap
  collects hw := hs.collects hw.heap
  listens hw := hs.listens hw.heap
  provides hw := hs.provides hw.heap
  handles hw := hs.handles hw.heap
  activate type arguments := Watched.After.agree_noteMade type arguments (hs.activate _ _)
  setMember id m v := Watched.After.agree_note (hs.setMember id m v) rfl
  setAttached id m v := Watched.After.agree_note (hs.setAttached id m v) rfl
  append id v := Watched.After.agree_note (hs.append id v) rfl
  beginInit hw id := hw.add (hs.beginInit hw.heap id) rfl
  endInit hw id := hw.add (hs.endInit hw.heap id) rfl
  provide id p := Watched.After.agree_note (hs.provide id p) rfl
  loader m loader hloader stream := by
    rw [find?_watched] at hloader
    obtain ⟨loader', hfind, rfl⟩ := Option.map_eq_some_iff.1 hloader
    exact Watched.After.agree_note (hs.loader m loader' hfind stream) rfl

/-! ## The first object -/

/-- An object that sees nothing gets the same scope when it is supplied, if scopes of supplied
objects are fresh. -/
theorem settle_supplied (hfresh : services.settings.rootScope = .fresh) (type : TypeName)
    {id : ObjectId} {ns : Namescopes} (hnew : ns.scopeOf id = none) :
    services.settle none type id true ns = services.settle none type id false ns := by
  have hopens : services.opensScope type true = services.opensScope type false := by
    simp [opensScope, hfresh]
  have haround : scopeAround none id true ns = scopeAround none id false ns := by
    simp [scopeAround, hnew]
  rw [settle, settle, hopens, haround]

theorem adopt_supplied (hfresh : services.settings.rootScope = .fresh) (type : TypeName)
    {id : ObjectId} {w : World σ} (hnew : w.context.scopes.scopeOf id = none) :
    services.adopt none type id true w = services.adopt none type id false w := by
  rw [adopt_apply, adopt_apply, settle_supplied hfresh type hnew]

/-- What is done with the first object of a tree once it is there. -/
def populate (type : TypeName) (name : Option String) (assignments : List Assignment)
    (site : Site) : Build σ ObjectId := do
  services.evaluateAssignments { site, root := site.object, level := 1 } assignments
  services.complete type name site none
  return site.object

theorem evaluateRoot_new (type : TypeName) (name : Option String) (arguments : List String)
    (assignments : List Assignment) (w : World σ) :
    services.evaluateRoot none (.node type name arguments assignments) w =
      match services.checkStart type 1 with
      | .error e => .error e w
      | .ok _ => (services.construct type arguments >>= fun id =>
          services.adopt none type id false >>= services.populate type name assignments) w := by
  rw [evaluateRoot, Action.bind_apply, Build.ofExcept]
  cases services.checkStart type 1 with
  | error e => rfl
  | ok _ =>
    simp only [make_eq, pure_bind]
    show ((services.construct type arguments >>= fun id => services.adopt none type id false) >>=
      services.populate type name assignments) w = _
    rw [bind_assoc]

theorem evaluateRoot_supplied (type : TypeName) (name : Option String) (arguments : List String)
    (assignments : List Assignment) (id : ObjectId) (w : World σ) :
    services.evaluateRoot (some id) (.node type name arguments assignments) w =
      match services.checkStart type 1 with
      | .error e => .error e w
      | .ok _ => (services.adopt none (services.host.typeOf w.heap id) id true >>=
          services.populate (services.host.typeOf w.heap id) name assignments) w := by
  rw [evaluateRoot, Action.bind_apply, Build.ofExcept]
  cases services.checkStart type 1 with
  | error e => rfl
  | ok _ =>
    simp only [pure_bind]
    rfl

theorem populate_ok {type : TypeName} {name : Option String} {assignments : List Assignment}
    {site : Site} {w w' : World σ} {id : ObjectId}
    (h : services.populate type name assignments site w = .ok id w') : id = site.object := by
  obtain ⟨_, w₁, -, h⟩ := (Action.bind_eq_ok w).1 h
  obtain ⟨_, w₂, -, h⟩ := (Action.bind_eq_ok w₁).1 h
  cases h
  rfl

theorem Overlooks.populate (hs : services.Overlooks k S) (type : TypeName) (name : Option String)
    (assignments : List Assignment) (site : Site) :
    Agree (World.Ahead k S) (services.populate type name assignments site)
      (services.populate type name assignments site) :=
  .bind (hs.evaluateAssignments assignments _) fun _ =>
    .bind (hs.complete type name site none) fun _ => .pure _

variable (services) in
/-- The world after an object is told that it begins, if its type has stages. -/
def told (type : TypeName) (id : ObjectId) (w : World σ) : World σ :=
  if (services.schema.traits type).lifecycle then (services.notifyBegin id w).2 else w

theorem construct_told {type : TypeName} {arguments : List String} {w : World σ} {id : ObjectId}
    {heap : σ} (hactivate : services.activate type arguments w.heap = .ok id heap)
    (hlistens : (services.schema.traits type).lifecycle = true →
      services.host.listens heap id = true) :
    services.construct type arguments w = .ok id (services.told type id (w.setHeap heap)) := by
  rw [construct, Action.bind_apply, Build.onHeap, hactivate, told]
  cases hlifecycle : (services.schema.traits type).lifecycle with
  | false => rfl
  | true =>
    have hears : services.host.listens (w.setHeap heap).heap id = true := hlistens hlifecycle
    simp [Build.always, notifyBegin, hears, Action.bind_apply]

end Services

/-- Both fail with the same error, or both give the object, in worlds that `R` relates. -/
inductive BothGive (id : ObjectId) (R : World σ → World σ → Prop) :
    EStateM.Result Error (World σ) ObjectId → EStateM.Result Error (World σ) ObjectId → Prop
  | fail {e : Error} {w w' : World σ} : BothGive id R (.error e w) (.error e w')
  | give {w w' : World σ} : R w w' → BothGive id R (.ok id w) (.ok id w')

theorem BothGive.mono {id : ObjectId} {R R' : World σ → World σ → Prop}
    (hR : ∀ w w', R w w' → R' w w') {r r' : EStateM.Result Error (World σ) ObjectId}
    (h : BothGive id R r r') : BothGive id R' r r' := by
  cases h with
  | fail => exact .fail
  | give h => exact .give (hR _ _ h)

theorem BothGive.of_agree {id : ObjectId} {R : World σ → World σ → Prop}
    {r r' : EStateM.Result Error (World σ) ObjectId} (h : AgreeAt R r r')
    (hid : ∀ x w, r = .ok x w → x = id) : BothGive id R r r' := by
  cases h with
  | ok _ hsame hR =>
    obtain rfl := hsame
    obtain rfl := hid _ _ rfl
    exact .give hR
  | error _ _ => exact .fail

namespace Services

variable {services : Services σ} {k : Nat} {S : σ → σ → Prop}

/-- A build whose first object is told that it begins, and a build into an object of its type, from
worlds that are related then. -/
theorem Overlooks.build_give (hs : services.Overlooks k S)
    (hfresh : services.settings.rootScope = .fresh) {type : TypeName} (name : Option String)
    (assignments : List Assignment) {w w' : World σ} {id : ObjectId} {heap : σ}
    (hactivate : services.activate type [] w.heap = .ok id heap)
    (hlistens : (services.schema.traits type).lifecycle = true →
      services.host.listens heap id = true)
    (hstart : (services.told type id (w.setHeap heap)).Ahead k S w')
    (htype : services.host.typeOf w'.heap id = type)
    (hnew : w'.context.scopes.scopeOf id = none) :
    BothGive id (World.Ahead k S) (services.build (.node type name [] assignments) none w)
      (services.build (.node type name [] assignments) (some id) w') := by
  cases hsort : (Tree.node type name [] assignments).sort with
  | error e =>
    rw [services.build_of_unsorted hsort, services.build_of_unsorted hsort]
    exact .fail
  | ok t =>
    obtain ⟨sorted, rfl⟩ := Tree.sort_node hsort
    rw [services.build_of_sorted hsort, services.build_of_sorted hsort, evaluateRoot_new,
      evaluateRoot_supplied, htype]
    cases services.checkStart type 1 with
    | error e => exact .fail
    | ok _ =>
      dsimp only
      rw [Action.bind_apply, construct_told hactivate hlistens]
      have hadopt : (services.adopt none type id true >>=
          services.populate type name sorted) w' =
            (services.adopt none type id false >>= services.populate type name sorted) w' := by
        rw [Action.bind_apply, Action.bind_apply, adopt_supplied hfresh type hnew]
      rw [hadopt]
      refine .of_agree (((hs.adopt none type id false).bind fun site =>
        hs.populate type name sorted site).apply hstart) fun x v hx => ?_
      obtain ⟨site, v', hsite, hpopulate⟩ := (Action.bind_eq_ok _).1 hx
      obtain ⟨-, collects, rfl⟩ := services.adopt_ok hsite
      exact populate_ok hpopulate

section

variable (services)

/-- The number of times that an object that is made for the type is told that it begins. -/
def beginnings (type : TypeName) : Nat :=
  if (services.schema.traits type).lifecycle then 1 else 0

/-- The calls that make an object for a node without arguments, and tell it that it begins. -/
def opening (type : TypeName) (id : ObjectId) : List Call :=
  .activate type [] (some id) :: List.replicate (services.beginnings type) (.beginInit id)

/-- What two worlds have in common when a tree was built into a new object in the first, and into an
object that was just made in the second.

The contexts are the same, but that the first has counted the beginning of the object, if its type
has stages.  If it has none, the heaps are the same too; else they differ in what `S` allows.  After
the object is there the same calls were made, with the same values in the same order. -/
structure SameBut (S : σ → σ → Prop) (type : TypeName) (id : ObjectId)
    (w w' : World (Watched σ)) : Prop where
  context : w.context = w'.context.ahead (services.beginnings type)
  heap : if (services.schema.traits type).lifecycle then S w.heap.heap w'.heap.heap
    else w.heap.heap = w'.heap.heap
  calls : w.heap.calls = services.opening type id ++
    w'.heap.calls.map (Call.ahead (services.beginnings type))
  begins : begins w.heap.calls =
    List.replicate (services.beginnings type) id ++ begins w'.heap.calls
  ends : ends w.heap.calls = ends w'.heap.calls

variable {services}

theorem begins_opening (type : TypeName) (id : ObjectId) :
    ObjectMarkup.begins (services.opening type id) =
      List.replicate (services.beginnings type) id := by
  rw [opening, beginnings]
  split <;> rfl

theorem ends_opening (type : TypeName) (id : ObjectId) :
    ObjectMarkup.ends (services.opening type id) = [] := by
  rw [opening, beginnings]
  split <;> rfl

/-- After its opening the first build makes the calls of the second. -/
theorem SameBut.of_ahead {type : TypeName} {id : ObjectId} {S' : σ → σ → Prop}
    (hS' : ∀ h h', S' h h' → if (services.schema.traits type).lifecycle then S h h' else h = h')
    {w w' : World (Watched σ)} (h : w.Ahead (services.beginnings type)
      (Watched.After (services.opening type id) (services.beginnings type) S') w') :
    services.SameBut S type id w w' where
  context := h.context
  heap := hS' _ _ h.heap.heap
  calls := h.heap.calls
  begins := by rw [h.heap.calls, begins_append, begins_ahead, begins_opening]
  ends := by rw [h.heap.calls, ends_append, ends_ahead, ends_opening, List.nil_append]

/-- When the object of a build is there and was told, the worlds are related. -/
theorem told_ahead {type : TypeName} {id : ObjectId} {heap : σ} {S' : σ → σ → Prop}
    (hlistens : (services.schema.traits type).lifecycle = true →
      services.host.listens heap id = true)
    (hbegun : S' (if (services.schema.traits type).lifecycle then services.host.beginInit id heap
      else heap) heap) (w : World σ) :
    (services.watched.told type id
      ((w.watch []).setHeap ⟨heap, [.activate type [] (some id)]⟩)).Ahead (services.beginnings type)
        (Watched.After (services.opening type id) (services.beginnings type) S')
          ((w.setHeap heap).watch []) := by
  have hschema : services.watched.schema = services.schema := rfl
  rw [told, hschema, opening, beginnings]
  cases hlifecycle : (services.schema.traits type).lifecycle with
  | true =>
    have hears : services.watched.host.listens
        ((w.watch []).setHeap ⟨heap, [.activate type [] (some id)]⟩).heap id = true :=
      hlistens hlifecycle
    rw [hlifecycle] at hbegun
    rw [if_pos rfl, if_pos rfl, notifyBegin, if_pos hears]
    exact ⟨⟨hbegun, rfl⟩, rfl⟩
  | false =>
    rw [hlifecycle] at hbegun
    exact ⟨⟨hbegun, rfl⟩, rfl⟩

/-- A tree whose first node has no arguments is built into an object that was just made for the type
of the node as it is built into a new one, where scopes of supplied objects are fresh: both fail
with the same error, or give the same but for one beginning.  Of this nothing is asked but that the
services overlook that the object was told once more that it begins. -/
theorem build_supplied (hfresh : services.settings.rootScope = .fresh) {type : TypeName}
    (name : Option String) (assignments : List Assignment) {w : World σ} {id : ObjectId} {heap : σ}
    (hactivate : services.activate type [] w.heap = .ok id heap)
    (htype : services.host.typeOf heap id = type)
    (hnew : w.context.scopes.scopeOf id = none)
    (hlistens : (services.schema.traits type).lifecycle = true →
      services.host.listens heap id = true)
    (hunseen : (services.schema.traits type).lifecycle = true →
      services.Overlooks 1 S ∧ S (services.host.beginInit id heap) heap) :
    BothGive id (services.SameBut S type id)
      (services.watched.build (.node type name [] assignments) none (w.watch []))
      (services.watched.build (.node type name [] assignments) (some id)
        ((w.setHeap heap).watch [])) := by
  have hmade : services.watched.activate type [] (w.watch []).heap =
      .ok id ⟨heap, [.activate type [] (some id)]⟩ := by
    show noteMade type [] (services.activate type []) ⟨w.heap, []⟩ = _
    rw [noteMade, hactivate]
    rfl
  -- where the type has no stages, the heaps do not differ
  obtain ⟨S', hover, hbegun, hS'⟩ : ∃ S' : σ → σ → Prop,
      services.Overlooks (services.beginnings type) S' ∧
      S' (if (services.schema.traits type).lifecycle then services.host.beginInit id heap
        else heap) heap ∧
      ∀ h h', S' h h' → if (services.schema.traits type).lifecycle then S h h' else h = h' := by
    rw [beginnings]
    cases hlifecycle : (services.schema.traits type).lifecycle with
    | true => exact ⟨S, (hunseen hlifecycle).1, (hunseen hlifecycle).2, fun _ _ h => h⟩
    | false => exact ⟨Eq, services.overlooks_eq, rfl, fun _ _ h => h⟩
  exact ((hover.watched (services.opening type id)).build_give hfresh name assignments hmade
    hlistens (told_ahead hlistens hbegun w) htype hnew).mono fun _ _ => .of_ahead hS'

end

end Services

/-! ## Widgets -/

namespace Widget

/-- The first widget was told once more that it begins: a window has counted it, and a scripted
widget has it in its log. -/
inductive Began : Widget → Widget → Prop
  | window (w : Window) : Began (.window { w with begun := w.begun + 1 }) (.window w)
  | scripted (w : Scripted) (before after : List String) :
      Began (.scripted { w with log := before ++ "begin" :: after })
        (.scripted { w with log := before ++ after })

namespace Began

variable {w w' : Widget}

/-- What is added to the logs comes after the beginning. -/
theorem log (w : Scripted) (before after : List String) (entry : String) :
    Began (.scripted { w with log := (before ++ "begin" :: after) ++ [entry] })
      (.scripted { w with log := (before ++ after) ++ [entry] }) := by
  rw [List.append_assoc, List.append_assoc]
  exact .scripted w before (after ++ [entry])

theorem type_eq (h : Began w w') : w.type = w'.type := by cases h <;> rfl

theorem getMember_eq (h : Began w w') (m : Member) : w.getMember m = w'.getMember m := by
  cases h <;> rfl

theorem items?_eq (h : Began w w') : w.items? = w'.items? := by cases h <;> rfl

theorem listens_eq (h : Began w w') : w.listens = w'.listens := by cases h <;> rfl

theorem provides_eq (h : Began w w') : w.provides = w'.provides := by cases h <;> rfl

theorem handles_eq (h : Began w w') (handler : String) :
    w.handles handler = w'.handles handler := by
  cases h <;> rfl

theorem withMember (h : Began w w') (m : Member) (v : Value) :
    (∃ e, w.withMember m v = .error e ∧ w'.withMember m v = .error e) ∨
      ∃ u u', w.withMember m v = .ok u ∧ w'.withMember m v = .ok u' ∧ Began u u' := by
  cases h with
  | window w =>
    simp only [Widget.withMember]
    split
    · cases textOf m v with
      | error e => exact .inl ⟨e, rfl, rfl⟩
      | ok s => exact .inr ⟨_, _, rfl, rfl, .window { w with title := some s }⟩
    · exact .inr ⟨_, _, rfl, rfl, .window { w with content := v }⟩
    · cases integerOf m v with
      | error e => exact .inl ⟨e, rfl, rfl⟩
      | ok n => exact .inr ⟨_, _, rfl, rfl, .window { w with height := n }⟩
    · exact .inl ⟨_, rfl, rfl⟩
  | scripted w before after =>
    simp only [Widget.withMember]
    split
    · exact .inl ⟨_, rfl, rfl⟩
    · exact .inr ⟨_, _, rfl, rfl,
        log { w with fields := putField m.name v w.fields } before after _⟩

theorem afterFailure (h : Began w w') (m : Member) :
    Began (w.afterFailure m) (w'.afterFailure m) := by
  cases h with
  | window w => exact .window w
  | scripted w before after => exact .scripted w before after

theorem setMember (h : Began w w') (m : Member) (v : Value) :
    AgreeAt Began (Widget.setMember m v w) (Widget.setMember m v w') := by
  rw [Widget.setMember, Widget.setMember]
  rcases h.withMember m v with ⟨e, he, he'⟩ | ⟨u, u', hu, hu', hbegan⟩
  · rw [he, he']
    exact .error e (h.afterFailure m)
  · rw [hu, hu']
    exact .ok () hbegan

theorem setAttached (h : Began w w') (m : Member) (v : Value) :
    AgreeAt Began (Widget.setAttached m v w) (Widget.setAttached m v w') := by
  cases h with
  | window w => exact .error _ (.window w)
  | scripted w before after =>
    exact .ok _ (log { w with attached := w.attached.set m v } before after _)

theorem append (h : Began w w') (v : Value) :
    AgreeAt Began (Widget.append v w) (Widget.append v w') := by
  cases h with
  | window w => exact .ok _ (.window w)
  | scripted w before after =>
    simp only [Widget.append]
    split
    · split
      · exact .error _ (.scripted w before after)
      · exact .ok _ (log { w with items := w.items ++ [v] } before after _)
    · exact .ok _ (log { w with items := w.items ++ [v] } before after _)

theorem beginInit (h : Began w w') : Began w.beginInit w'.beginInit := by
  cases h with
  | window w => exact .window { w with begun := w.begun + 1 }
  | scripted w before after => exact log w before after _

theorem endInit (h : Began w w') : Began w.endInit w'.endInit := by
  cases h with
  | window w => exact .window { w with initialized := w.initialized + 1 }
  | scripted w before after => exact log w before after _

theorem provide_eq (h : Began w w') (p : Provision) : w.provide p = w'.provide p := by
  cases h <;> rfl

end Began

/-- An extension makes nothing of how many beginnings were counted. -/
theorem provide_ahead (k : Nat) (p : Provision) (w : Widget) :
    w.provide (p.ahead k) = w.provide p := by
  cases w with
  | scripted w =>
    show provideScripted (p.ahead k) w = provideScripted p w
    rw [provideScripted, provideScripted]
    cases w.script.provision <;> rfl
  | _ => rfl

end Widget

namespace Heap

/-- The widget `id` of the first heap was told once more that it begins, and else the heaps hold the
same. -/
structure Told (id : ObjectId) (h h' : Heap) : Prop where
  size : h.slots.size = h'.slots.size
  others : ∀ other, other ≠ id → h.find? other = h'.find? other
  widget : ∃ w w', h.find? id = some w ∧ h'.find? id = some w' ∧ w.Began w'

namespace Told

variable {id : ObjectId} {h h' : Heap}

/-- What is asked of a widget that the beginning does not change. -/
theorem ask {α : Type} (hT : h.Told id h') (other : ObjectId) (missing : α) {f : Widget → α}
    (hf : ∀ w w' : Widget, w.Began w' → f w = f w') :
    h.ask other missing f = h'.ask other missing f := by
  rw [Heap.ask, Heap.ask]
  by_cases heq : other = id
  · obtain ⟨w, w', hw, hw', hbegan⟩ := hT.widget
    simp only [heq, hw, hw', hf w w' hbegan]
  · rw [hT.others other heq]

theorem put (hT : h.Told id h') {other : ObjectId} {w w' : Widget}
    (hthere : other.index < h.slots.size) (hw : if other = id then w.Began w' else w = w') :
    (h.put other w).Told id (h'.put other w') := by
  have hthere' : other.index < h'.slots.size := hT.size ▸ hthere
  refine ⟨by rw [put_size, put_size, hT.size], fun x hx => ?_, ?_⟩
  · rw [find?_put hthere, find?_put hthere']
    by_cases heq : x = other
    · rw [if_neg fun h => hx (heq.trans h)] at hw
      rw [if_pos heq, if_pos heq, hw]
    · rw [if_neg heq, if_neg heq, hT.others x hx]
  · by_cases heq : other = id
    · rw [if_pos heq] at hw
      exact ⟨w, w', by rw [find?_put hthere, if_pos heq.symm],
        by rw [find?_put hthere', if_pos heq.symm], hw⟩
    · have hne : ¬ id = other := fun h => heq h.symm
      rw [find?_put hthere, find?_put hthere', if_neg hne, if_neg hne]
      exact hT.widget

theorem act {ε : Type} (other : ObjectId) {f : EStateM ε Widget Unit}
    (hf : ∀ w w', w.Began w' → AgreeAt Widget.Began (f w) (f w')) :
    Agree (Told id) (Heap.act other f) (Heap.act other f) := by
  refine .of_forall fun h h' hT => ?_
  rw [Heap.act, Heap.act]
  by_cases heq : other = id
  · obtain ⟨w, w', hw, hw', hbegan⟩ := hT.widget
    have hthere := lt_of_find? hw
    have hends := hf w w' hbegan
    simp only [heq, hw, hw']
    generalize f w = r at hends ⊢
    generalize f w' = r' at hends ⊢
    cases hends with
    | ok _ _ hbegan => exact .ok _ (hT.put hthere (by rw [if_pos rfl]; exact hbegan))
    | error _ hbegan => exact .error _ (hT.put hthere (by rw [if_pos rfl]; exact hbegan))
  · rw [hT.others other heq]
    cases hfind : h'.find? other with
    | none => exact .ok _ hT
    | some w =>
      have hthere : other.index < h.slots.size := hT.size ▸ lt_of_find? hfind
      dsimp only
      cases f w with
      | ok _ w' => exact .ok _ (hT.put hthere (by rw [if_neg heq]))
      | error e w' => exact .error _ (hT.put hthere (by rw [if_neg heq]))

theorem change (hT : h.Told id h') (other : ObjectId) {f : Widget → Widget}
    (hf : ∀ w w', w.Began w' → (f w).Began (f w')) :
    (Heap.change other f h).Told id (Heap.change other f h') := by
  rw [Heap.change, Heap.change]
  by_cases heq : other = id
  · obtain ⟨w, w', hw, hw', hbegan⟩ := hT.widget
    simp only [heq, hw, hw']
    exact hT.put (lt_of_find? hw) (by rw [if_pos rfl]; exact hf w w' hbegan)
  · rw [hT.others other heq]
    cases hfind : h'.find? other with
    | none => exact hT
    | some w => exact hT.put (hT.size ▸ lt_of_find? hfind) (by rw [if_neg heq])

theorem add (hT : h.Told id h') (w : Widget) :
    (h.add w).1 = (h'.add w).1 ∧ (h.add w).2.Told id (h'.add w).2 := by
  have hid : (h.add w).1 = (h'.add w).1 := congrArg ObjectId.mk hT.size
  refine ⟨hid, by simp [Heap.add, hT.size], fun other hother => ?_, ?_⟩
  · rw [find?_add, find?_add, hid, hT.others other hother]
  · obtain ⟨u, u', hu, hu', hbegan⟩ := hT.widget
    have hold : id ≠ (h.add w).1 := by
      intro heq
      have hlt := lt_of_find? hu
      rw [heq] at hlt
      exact Nat.lt_irrefl _ hlt
    exact ⟨u, u', by rw [find?_add, if_neg hold, hu], by rw [find?_add, if_neg (hid ▸ hold), hu'],
      hbegan⟩

theorem create (w : Widget) : Agree (Told id) (Widget.create w) (Widget.create w) := by
  refine .of_forall fun h h' hT => ?_
  obtain ⟨hid, hadded⟩ := hT.add w
  rw [Widget.create, Widget.create]
  simp only [hid]
  exact .ok _ hadded

end Told
end Heap

/-- Widgets overlook that one of them was told once more that it begins. -/
theorem Widget.overlooks_told (settings : Settings) (id : ObjectId) :
    (Widget.templated settings).Overlooks 1 (Heap.Told id) where
  typeOf hT other := hT.ask other "" fun _ _ hw => hw.type_eq
  getMember hT other m := hT.ask other none fun _ _ hw => hw.getMember_eq m
  collects hT other := hT.ask other false fun _ _ hw => by rw [hw.items?_eq]
  listens hT other := hT.ask other false fun _ _ hw => hw.listens_eq
  provides hT other := hT.ask other false fun _ _ hw => hw.provides_eq
  handles hT other name := hT.ask other false fun _ _ hw => hw.handles_eq name
  activate := Widget.activate_forall (Q := fun make => Agree (Heap.Told id) make make) .throw
    (fun w _ => Heap.Told.create w) (.bind (Heap.Told.create _) fun _ => Heap.Told.create _)
  setMember other m v := Heap.Told.act other fun _ _ hw => hw.setMember m v
  setAttached other m v := Heap.Told.act other fun _ _ hw => hw.setAttached m v
  append other v := Heap.Told.act other fun _ _ hw => hw.append v
  beginInit hT other := hT.change other fun _ _ hw => hw.beginInit
  endInit hT other := hT.change other fun _ _ hw => hw.endInit
  provide other p := by
    refine .of_forall fun h h' hT => ?_
    have hask : h.ask other (.ok .null) (Widget.provide (p.ahead 1)) =
        h'.ask other (.ok .null) (Widget.provide p) := by
      rw [show Widget.provide (p.ahead 1) = Widget.provide p from
        funext (Widget.provide_ahead 1 p)]
      exact hT.ask other _ fun _ _ hw => hw.provide_eq p
    simp only [Widget.templated, Catalogue.services, Heap.host, hask]
    split
    · exact .ok _ hT
    · exact .error _ hT
  loader m loader hloader stream := by
    obtain rfl := Widget.templated_loader hloader
    refine .of_forall fun h h' hT => ?_
    rw [Widget.templateLoader, Widget.templateLoader]
    split
    · obtain ⟨hid, hadded⟩ := hT.add (.template stream)
      simp only [hid]
      exact .ok _ hadded
    · exact .error _ hT

namespace Services

/-- A window with a control in it, built anew and into a window that was just made. -/
theorem build_supplied_nestedControl :
    BothGive ⟨0⟩ ((Widget.templated {}).SameBut (Heap.Told ⟨0⟩) "Window" ⟨0⟩)
      ((Widget.templated {}).watched.build Widget.nestedControl none
        (World.watch [] { heap := {} }))
      ((Widget.templated {}).watched.build Widget.nestedControl (some ⟨0⟩)
        (World.watch [] { heap := ⟨#[some (.window {})]⟩ })) ∧
    ∃ w w', (Widget.templated {}).watched.build Widget.nestedControl none
        (World.watch [] { heap := {} }) = .ok ⟨0⟩ w ∧
      (Widget.templated {}).watched.build Widget.nestedControl (some ⟨0⟩)
        (World.watch [] { heap := ⟨#[some (.window {})]⟩ }) = .ok ⟨0⟩ w' ∧
      w.context.lifecycle.begun = 1 ∧ w'.context.lifecycle.begun = 0 := by
  have hactivate : (Widget.templated {}).activate "Window" [] ({} : Heap) =
      .ok ⟨0⟩ ⟨#[some (.window {})]⟩ := rfl
  have htype : (Widget.templated {}).host.typeOf ⟨#[some (.window {})]⟩ ⟨0⟩ = "Window" := rfl
  have hlistens : (Widget.templated {}).host.listens ⟨#[some (.window {})]⟩ ⟨0⟩ = true := rfl
  have hbegan : Heap.Told ⟨0⟩ ((Widget.templated {}).host.beginInit ⟨0⟩ ⟨#[some (.window {})]⟩)
      ⟨#[some (.window {})]⟩ := by
    refine ⟨rfl, fun other hother => ?_, ⟨_, _, rfl, rfl, .window {}⟩⟩
    exact Heap.find?_put_of_ne _ _ fun h => hother (congrArg ObjectId.mk h.symm)
  have hbuild := build_supplied (w := { heap := {} }) rfl (some "Main")
    Widget.nestedControl.assignments hactivate htype rfl (fun _ => hlistens)
    fun _ => ⟨Widget.overlooks_told {} ⟨0⟩, hbegan⟩
  refine ⟨hbuild, ?_⟩
  have hok : (match (Widget.templated {}).watched.build Widget.nestedControl none
        (World.watch [] { heap := {} }), (Widget.templated {}).watched.build Widget.nestedControl
        (some ⟨0⟩) (World.watch [] { heap := ⟨#[some (.window {})]⟩ }) with
      | .ok id w, .ok id' w' => decide (id = ⟨0⟩ ∧ id' = ⟨0⟩ ∧
          w.context.lifecycle.begun = 1 ∧ w'.context.lifecycle.begun = 0)
      | _, _ => false) = true := by decide +kernel
  split at hok
  · next id w id' w' hw hw' =>
    obtain ⟨rfl, rfl, hone, hzero⟩ := of_decide_eq_true hok
    exact ⟨w, w', hw, hw', hone, hzero⟩
  · cases hok

end Services
end ObjectMarkup
