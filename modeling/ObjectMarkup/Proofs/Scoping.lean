/-
What the steps of a construction do to the scopes of names.

Most steps leave the scopes alone (`World.Quiet`).  The others are two: an object that is made or
taken over is put into its scope (`Site.Scoped`), and one that ends gets its name.

An object that is made has to be a new one for this: `Services.MakesNew` says so of the
constructors, with `there` for the objects that a heap has.  Constructors are shared between
constructions and keep no objects to give out again, and the scopes keep alive what they know.
-/
import ObjectMarkup.Proofs.Action
import ObjectMarkup.Proofs.Namescopes
import ObjectMarkup.World.Commit
import ObjectMarkup.World.Site

namespace ObjectMarkup

open ObjectMarkup.Action (Moves)

variable {σ : Type} {there : σ → ObjectId → Prop}

/-- The objects that are there stay. -/
def Stays (there : σ → ObjectId → Prop) (heap heap' : σ) : Prop :=
  ∀ id, there heap id → there heap' id

instance : Std.Refl (Stays there) := ⟨fun _ _ h => h⟩

instance : Trans (Stays there) (Stays there) (Stays there) := ⟨fun h h' id hid => h' id (h id hid)⟩

namespace World

/-- Every object that the scopes know is there. -/
def Known (there : σ → ObjectId → Prop) (w : World σ) : Prop :=
  ∀ id, w.context.scopes.Knows id → there w.heap id

/-- The scopes are as before, and the objects that are there stay. -/
structure Quiet (there : σ → ObjectId → Prop) (w w' : World σ) : Prop where
  scopes : w'.context.scopes = w.context.scopes
  stays : Stays there w.heap w'.heap

instance : Std.Refl (Quiet there) := ⟨fun w => ⟨rfl, Std.Refl.refl w.heap⟩⟩

instance : Trans (Quiet there) (Quiet there) (Quiet there) :=
  ⟨fun h h' => ⟨h'.scopes.trans h.scopes, Trans.trans h.stays h'.stays⟩⟩

/-- The scopes have grown by the names `added`, and what they know is there. -/
structure Grows (there : σ → ObjectId → Prop) (added : List Registration) (w w' : World σ) :
    Prop where
  scopes : w.context.scopes.Grows (fun _ => True) added w'.context.scopes
  known : w'.Known there

theorem Grows.trans {w w' w'' : World σ} {added more : List Registration}
    (h : w.Grows there added w') (h' : w'.Grows there more w'') :
    w.Grows there (added ++ more) w'' :=
  ⟨h.scopes.trans h'.scopes, h'.known⟩

theorem Quiet.known {w w' : World σ} (h : w.Quiet there w') (hw : w.Known there) :
    w'.Known there := by
  intro id hid
  rw [h.scopes] at hid
  exact h.stays id (hw id hid)

theorem Quiet.grows {w w' : World σ} (h : w.Quiet there w') (hw : w.Known there) :
    w.Grows there [] w' :=
  ⟨h.scopes ▸ .refl _, h.known hw⟩

end World

namespace Build

theorem ofExcept_quiet {α : Type} (answer : World σ → Except Error α) :
    Moves (World.Quiet there) (Build.ofExcept answer) := by
  intro w a w' h
  rw [(ofExcept_eq_ok h).2]
  exact Std.Refl.refl w

theorem onHeap_quiet {ε α : Type} (wrap : ε → Error) {act : EStateM ε σ α}
    (hact : Moves (Stays there) act) : Moves (World.Quiet there) (Build.onHeap wrap act) := by
  intro w a w' h
  rw [onHeap] at h
  split at h
  · next b heap hheap =>
    cases h
    exact ⟨rfl, hact w.heap a heap hheap⟩
  · cases h

end Build

namespace Services

/-- Constructors make new objects, and no object is taken away. -/
structure MakesNew (services : Services σ) (there : σ → ObjectId → Prop) : Prop where
  activate : ∀ type arguments heap id heap',
    services.activate type arguments heap = .ok id heap' → ¬ there heap id ∧ there heap' id
  activate_stays : ∀ type arguments, Moves (Stays there) (services.activate type arguments)
  loader : ∀ m loader, services.loaders.find? m = some loader →
    ∀ stream, Moves (Stays there) (loader m stream)
  setMember : ∀ id m v, Moves (Stays there) (services.host.setMember id m v)
  setAttached : ∀ id m v, Moves (Stays there) (services.host.setAttached id m v)
  append : ∀ id v, Moves (Stays there) (services.host.append id v)
  provide : ∀ id p, Moves (Stays there) (services.host.provide id p)
  beginInit : ∀ id heap, Stays there heap (services.host.beginInit id heap)
  endInit : ∀ id heap, Stays there heap (services.host.endInit id heap)

namespace MakesNew

variable {services : Services σ} (h : services.MakesNew there)

include h

/-! ## Commitments -/

theorem assign_stays (target : ObjectId) (m : Member) (v : Value) :
    Moves (Stays there) (services.assign target m v) := by
  rw [assign]
  split
  · exact h.setAttached target m v
  · exact h.setMember target m v

theorem appendEach_stays (target : ObjectId) (vs : List Value) :
    Moves (Stays there) (services.appendEach target vs) := by
  induction vs with
  | nil => exact .pure _
  | cons v vs ih => exact .bind (h.append target v) fun _ => ih

theorem appendAll_stays (target : ObjectId) (m : Member) (vs : List Value) :
    Moves (Stays there) (services.appendAll target m vs) := by
  refine .bind .get fun heap => ?_
  split
  · exact h.appendEach_stays target _
  · exact .throw _

theorem commitValues_stays (target : ObjectId) (collects : Bool) (m : Member) (vs : List Value)
    (retrieved : Option Value) :
    Moves (Stays there) (services.commitValues target collects m vs retrieved) := by
  unfold commitValues
  split
  · rw [commitItems]
    split
    · exact .bind (h.appendAll_stays target m vs) fun _ => .pure _
    · exact .bind .get fun heap => .throw _
  · split
    · refine .bind .get fun heap => ?_
      split
      · exact .bind (h.appendAll_stays _ m vs) fun _ => .pure _
      · exact .bind (h.assign_stays target m _) fun _ => .pure _
    · split
      · exact .pure _
      · exact .bind (h.assign_stays target m _) fun _ => .pure _
      · exact .throw _

theorem commit_quiet (target : ObjectId) (collects : Bool) (m : Member) (vs : List Value)
    (retrieved : Option Value) :
    Moves (World.Quiet there) (services.commit target collects m vs retrieved) := by
  refine .bind (Build.onHeap_quiet _ (h.commitValues_stays target collects m vs retrieved))
    fun recorded w a w' hmodify => ?_
  cases hmodify
  exact ⟨rfl, Std.Refl.refl w.heap⟩

/-! ## Values -/

theorem loader_quiet {m : Member} {loader : Loader σ} (hm : services.loaders.find? m = some loader)
    (stream : List Instruction) :
    Moves (World.Quiet there) (Build.onHeap .deferred (loader m stream)) :=
  Build.onHeap_quiet _ (h.loader m loader hm stream)

theorem valueOf_quiet (type : TypeName) (site : Site) (target root : Option ObjectId)
    (member : Option Member) :
    Moves (World.Quiet there) (services.valueOf type site target root member) := by
  rw [valueOf]
  split
  · refine .bind .get fun w => ?_
    split
    · exact Build.onHeap_quiet _ (h.provide _ _)
    · exact .throw _
  · exact .pure _

/-! ## Stages -/

theorem notifyBegin_quiet (id : ObjectId) :
    Moves (World.Quiet there) (Build.always (services.notifyBegin id)) := by
  intro w a w' hact
  simp only [Build.always, notifyBegin] at hact
  split at hact
  · cases hact
    exact ⟨rfl, h.beginInit id w.heap⟩
  · cases hact
    exact Std.Refl.refl w

theorem notifyCreated_quiet (id : ObjectId) :
    Moves (World.Quiet there) (Build.always (services.notifyCreated id)) := by
  intro w a w' hact
  simp only [Build.always, notifyCreated] at hact
  split at hact
  · cases hact
    exact ⟨rfl, h.endInit id w.heap⟩
  · cases hact
    exact Std.Refl.refl w

end MakesNew

/-! ## The scope of an object -/

variable (services : Services σ)

section

variable (around : Option ScopeId) (type : TypeName) (id : ObjectId) (supplied : Bool)
  (ns : Namescopes)

theorem settle_of_opens (h : services.opensScope type supplied = true) :
    services.settle around type id supplied ns = ns.create (some id) around := by
  rw [settle, if_pos h]

theorem settle_of_not_opens (h : services.opensScope type supplied = false) :
    services.settle around type id supplied ns =
      ((scopeAround around id supplied ns).1, (scopeAround around id supplied ns).2.enter id
        (scopeAround around id supplied ns).1) := by
  rw [settle, if_neg (by simp [h])]

theorem scopeAround_grows : ns.Grows (fun _ => True) [] (scopeAround around id supplied ns).2 := by
  unfold scopeAround
  split
  · exact .refl ns
  · split
    · exact .refl ns
    · exact ns.documentScope_grows

theorem scopeOf_scopeAround (x : ObjectId) :
    (scopeAround around id supplied ns).2.scopeOf x = ns.scopeOf x := by
  unfold scopeAround
  split
  · rfl
  · split
    · rfl
    · exact ns.scopeOf_documentScope x

theorem scopeOf_settle_of_ne {x : ObjectId} (h : id ≠ x) :
    (services.settle around type id supplied ns).2.scopeOf x = ns.scopeOf x := by
  cases hopens : services.opensScope type supplied with
  | true =>
    rw [settle_of_opens _ _ _ _ _ _ hopens, Namescopes.scopeOf_create,
      if_neg fun hid => h (Option.some.inj hid)]
  | false =>
    rw [settle_of_not_opens _ _ _ _ _ _ hopens, Namescopes.scopeOf_enter_of_ne h,
      scopeOf_scopeAround]

theorem settle_grows :
    ns.Grows (fun x => id ≠ x) [] (services.settle around type id supplied ns).2 := by
  cases hopens : services.opensScope type supplied with
  | true =>
    rw [settle_of_opens _ _ _ _ _ _ hopens]
    exact (Namescopes.create_grows _ _).mono fun x hx hid => hx (Option.some.inj hid)
  | false =>
    rw [settle_of_not_opens _ _ _ _ _ _ hopens]
    exact ((scopeAround_grows around id supplied ns).mono fun _ _ => trivial).trans
      (Namescopes.enter_grows _ _ _)

theorem knows_settle {x : ObjectId}
    (h : (services.settle around type id supplied ns).2.Knows x) : id = x ∨ ns.Knows x := by
  rcases h with ⟨s, hs⟩ | ⟨s, name, hmem⟩
  · by_cases hid : id = x
    · exact .inl hid
    · rw [scopeOf_settle_of_ne services around type id supplied ns hid] at hs
      exact .inr (.inl ⟨s, hs⟩)
  · rw [(settle_grows services around type id supplied ns).entries, Registration.entriesIn_nil,
      List.append_nil] at hmem
    exact .inr (.inr ⟨s, name, hmem⟩)

end

end Services

/-- The scope of an object that was built.  An object that opens one owns a scope that was not there
before, in the scope `around` it; any other sees the scope that it inherits. -/
structure Site.Scoped (before after : Namescopes) (opens : Bool) (around : Option ScopeId)
    (inherited : ScopeId) (site : Site) : Prop where
  sees : after.scopeOf site.object = some site.scope
  fresh : opens = true → before.scopes.length ≤ site.scope.index
  owner : opens = true → after.ownerOf site.scope = some site.object
  parent : opens = true → after.parentOf site.scope = around
  inherits : opens = false → site.scope = inherited

namespace Site.Scoped

variable {before before' after after' : Namescopes} {opens : Bool} {around : Option ScopeId}
  {inherited : ScopeId} {site : Site}

theorem index_lt (h : site.Scoped before after opens around inherited) (hopens : opens = true) :
    site.scope.index < after.scopes.length := by
  have howner := h.owner hopens
  rw [Namescopes.ownerOf, Option.bind_eq_some_iff] at howner
  obtain ⟨scope, hscope, -⟩ := howner
  exact (List.getElem?_eq_some_iff.1 hscope).1

theorem grows {keep : ObjectId → Prop} {added : List Registration}
    (h : site.Scoped before after opens around inherited)
    (hbefore : before'.scopes.length ≤ before.scopes.length)
    (hafter : after.Grows keep added after') (hkeep : keep site.object) :
    site.Scoped before' after' opens around inherited where
  sees := hafter.scopeOf _ _ hkeep h.sees
  fresh hopens := Nat.le_trans hbefore (h.fresh hopens)
  owner hopens := (hafter.ownerOf _ (h.index_lt hopens)).trans (h.owner hopens)
  parent hopens := (hafter.parentOf _ (h.index_lt hopens)).trans (h.parent hopens)
  inherits := h.inherits

end Site.Scoped

namespace Services

variable (services : Services σ)

theorem settle_document (type : TypeName) {id : ObjectId} (supplied : Bool) {ns : Namescopes}
    (hopens : services.opensScope type supplied = false) (hsees : ns.scopeOf id = none) :
    (services.settle none type id supplied ns).2.document = some ns.documentScope.1 := by
  have haround : scopeAround none id supplied ns = ns.documentScope := by
    cases supplied <;> simp [scopeAround, hsees]
  rw [settle_of_not_opens _ _ _ _ _ _ hopens, haround, Namescopes.enter_document,
    Namescopes.documentScope_document]

/-- Around an object that is new or stands alone is what it sees, if it sees anything. -/
theorem scopeAround_eq_of_scopeOf {around : Option ScopeId} {id : ObjectId} {supplied : Bool}
    {ns : Namescopes} (h : (supplied = true ∧ around = none) ∨ ¬ ns.Knows id) {s : ScopeId}
    (hs : ns.scopeOf id = some s) : s = (scopeAround around id supplied ns).1 := by
  rcases h with ⟨rfl, rfl⟩ | h
  · simp [scopeAround, hs]
  · exact absurd (.inl ⟨s, hs⟩) h

/-- An object that is settled sees its scope, if it is new or stands alone. -/
theorem settle_scoped {around : Option ScopeId} (type : TypeName) {id : ObjectId} {supplied : Bool}
    (collects : Bool) {ns : Namescopes}
    (h : (supplied = true ∧ around = none) ∨ ¬ ns.Knows id) :
    Site.Scoped ns (services.settle around type id supplied ns).2
      (services.opensScope type supplied) around (scopeAround around id supplied ns).1
      { object := id, collects, scope := (services.settle around type id supplied ns).1 } := by
  cases hopens : services.opensScope type supplied with
  | true =>
    rw [settle_of_opens _ _ _ _ _ _ hopens]
    exact {
      sees := by rw [Namescopes.scopeOf_create, if_pos rfl]
      fresh := fun _ => Nat.le_refl _
      owner := fun _ => Namescopes.ownerOf_create _ _
      parent := fun _ => Namescopes.parentOf_create _ _
      inherits := by simp }
  | false =>
    rw [settle_of_not_opens _ _ _ _ _ _ hopens]
    exact {
      sees := Namescopes.scopeOf_enter_self fun s hs =>
        scopeAround_eq_of_scopeOf h ((scopeOf_scopeAround ..).symm.trans hs)
      fresh := by simp
      owner := by simp
      parent := by simp
      inherits := fun _ => rfl }

/-! ## Making and ending an object -/

theorem adopt_ok {around : Option ScopeId} {type : TypeName} {id : ObjectId} {supplied : Bool}
    {w w' : World σ} {site : Site} (h : services.adopt around type id supplied w = .ok site w') :
    w' = w.setScopes (services.settle around type id supplied w.context.scopes).2 ∧
      ∃ collects, site = {
        object := id
        collects
        scope := (services.settle around type id supplied w.context.scopes).1 } := by
  simp only [adopt, Build.always, Action.bind_apply, Action.get_apply] at h
  split at h
  · cases h
  · cases h
    exact ⟨rfl, _, rfl⟩

/-- An object was put into its scope: no other object sees another scope than before.  Where it
stands alone, sees nothing and opens no scope, its scope is that of the document. -/
structure Adopted (w w' : World σ) (type : TypeName) (around : Option ScopeId) (supplied : Bool)
    (site : Site) : Prop where
  heap : w'.heap = w.heap
  grows : w.context.scopes.Grows (fun x => site.object ≠ x) [] w'.context.scopes
  knows : ∀ x, w'.context.scopes.Knows x → site.object = x ∨ w.context.scopes.Knows x
  place : site.Scoped w.context.scopes w'.context.scopes (services.opensScope type supplied) around
    (scopeAround around site.object supplied w.context.scopes).1
  document : around = none → services.opensScope type supplied = false →
    w.context.scopes.scopeOf site.object = none →
      w'.context.scopes.document = some w.context.scopes.documentScope.1

theorem adopt_adopted {around : Option ScopeId} {type : TypeName} {id : ObjectId} {supplied : Bool}
    {w w' : World σ} {site : Site} (h : services.adopt around type id supplied w = .ok site w')
    (hid : (supplied = true ∧ around = none) ∨ ¬ w.context.scopes.Knows id) :
    site.object = id ∧ services.Adopted w w' type around supplied site := by
  obtain ⟨rfl, collects, rfl⟩ := services.adopt_ok h
  exact ⟨rfl, {
    heap := rfl
    grows := services.settle_grows ..
    knows := fun x hx => services.knows_settle _ _ _ _ _ hx
    place := services.settle_scoped type collects hid
    document := by
      rintro rfl hopens hsees
      exact services.settle_document type supplied hopens hsees }⟩

structure Made (there : σ → ObjectId → Prop) (w w' : World σ) (type : TypeName)
    (around : Option ScopeId) (site : Site) : Prop where
  new : ¬ w.context.scopes.Knows site.object
  grows : w.Grows there [] w'
  place : site.Scoped w.context.scopes w'.context.scopes (services.opensScope type false) around
    (scopeAround around site.object false w.context.scopes).1
  document : around = none → services.opensScope type false = false →
    w'.context.scopes.document = some w.context.scopes.documentScope.1

theorem adopt_made {around : Option ScopeId} {type : TypeName} {id : ObjectId}
    {w w₁ w' : World σ} {site : Site} (hw : w.Known there) (hquiet : w.Quiet there w₁)
    (habsent : ¬ there w.heap id) (hthere : there w₁.heap id)
    (h : services.adopt around type id false w₁ = .ok site w') :
    services.Made there w w' type around site := by
  have hunknown : ¬ w.context.scopes.Knows id := fun hknows => habsent (hw id hknows)
  obtain ⟨rfl, hadopted⟩ := services.adopt_adopted h (.inr (hquiet.scopes.symm ▸ hunknown))
  obtain ⟨hheap, hgrows, hknows, hplace, hdocument⟩ := hadopted
  rw [hquiet.scopes] at hgrows hplace hdocument
  have hkeep : ∀ x s, w.context.scopes.scopeOf x = some s →
      w'.context.scopes.scopeOf x = some s := by
    intro x s hs
    refine hgrows.scopeOf x s ?_ hs
    rintro rfl
    exact hunknown (.inl ⟨s, hs⟩)
  refine ⟨hunknown, ⟨{ hgrows with scopeOf := fun x s _ => hkeep x s }, ?_⟩, hplace,
    fun haround hopens => hdocument haround hopens (Namescopes.scopeOf_of_not_knows hunknown)⟩
  intro x hx
  rw [hheap]
  rcases hknows x hx with rfl | hx
  · exact hthere
  · exact hquiet.known hw x hx

/-- Makes an object and tells it that it begins: what is done before the object is put into a
scope. -/
def construct (type : TypeName) (arguments : List String) : Build σ ObjectId := do
  let id ← Build.onHeap .activation (services.activate type arguments)
  if (services.schema.traits type).lifecycle then
    if !(← Build.always (services.notifyBegin id)) then
      throw (.member (.missingCapability type .lifecycle))
  return id

theorem make_eq (around : Option ScopeId) (type : TypeName) (arguments : List String) :
    services.make around type arguments =
      services.construct type arguments >>= fun id => services.adopt around type id false := by
  rw [make, construct, bind_assoc]
  refine congrArg _ (funext fun id => ?_)
  split
  · rw [bind_assoc]
    refine congrArg (Build.always (services.notifyBegin id) >>= ·) (funext fun listens => ?_)
    cases listens <;> rfl
  · rfl

theorem construct_scopes {type : TypeName} {arguments : List String} {w w' : World σ}
    {id : ObjectId} (h : services.construct type arguments w = .ok id w') :
    w'.context.scopes = w.context.scopes := by
  rw [construct, Action.bind_eq_ok] at h
  obtain ⟨id', w₁, hactivate, h⟩ := h
  have hmade : w₁.context.scopes = w.context.scopes := by
    rw [Build.onHeap] at hactivate
    split at hactivate
    · cases hactivate
      rfl
    · cases hactivate
  split at h
  · obtain ⟨listens, w₂, hbegin, h⟩ := (Action.bind_eq_ok w₁).1 h
    have hbegun : w₂.context.scopes = w₁.context.scopes := by
      simp only [Build.always, notifyBegin] at hbegin
      split at hbegin <;> cases hbegin <;> rfl
    cases listens with
    | true =>
      cases h
      exact hbegun.trans hmade
    | false => cases h
  · cases h
    exact hmade

theorem make_made (hnew : services.MakesNew there) {around : Option ScopeId} {type : TypeName}
    {arguments : List String} {w w' : World σ} {site : Site} (hw : w.Known there)
    (h : services.make around type arguments w = .ok site w') :
    services.Made there w w' type around site := by
  rw [make, Action.bind_apply, Build.onHeap] at h
  cases hactivate : services.activate type arguments w.heap with
  | error e heap => simp [hactivate] at h
  | ok id heap =>
    obtain ⟨habsent, hthere⟩ := hnew.activate _ _ _ _ _ hactivate
    have hquiet : w.Quiet there (w.setHeap heap) :=
      ⟨rfl, hnew.activate_stays type arguments _ _ _ hactivate⟩
    simp only [hactivate] at h
    split at h
    · obtain ⟨listens, w₂, hbegin, h⟩ := (Action.bind_eq_ok _).1 h
      have hbegun := hnew.notifyBegin_quiet id _ _ _ hbegin
      cases listens with
      | true =>
        exact services.adopt_made hw (Trans.trans hquiet hbegun) habsent (hbegun.stays id hthere) h
      | false => cases h
    · exact services.adopt_made hw hquiet habsent hthere h

/-- The scope in which an object of type `type` is named: one that stands in another and opens a
scope is named in the scope around it, which `outside` is then. -/
def nameScope (type : TypeName) (site : Site) (outside : Option (Option ScopeId)) :
    Option ScopeId :=
  match outside with
  | some around => if (services.schema.traits type).namescope then around else some site.scope
  | none => some site.scope

/-- The registration of an object at its end, if it has a name. -/
def naming (type : TypeName) (name : Option String) (site : Site)
    (outside : Option (Option ScopeId)) : List Registration :=
  match name, services.nameScope type site outside with
  | some name, some scope => [⟨scope, name, site.object⟩]
  | _, _ => []

theorem complete_eq (type : TypeName) (name : Option String) (site : Site)
    (outside : Option (Option ScopeId)) :
    services.complete type name site outside =
      if (services.schema.traits type).lifecycle then
        Build.always (services.notifyCreated site.object) >>= fun _ =>
          register name (services.nameScope type site outside) site.object
      else register name (services.nameScope type site outside) site.object := rfl

theorem register_naming {type : TypeName} {name : Option String} {site : Site}
    {outside : Option (Option ScopeId)} {w w' : World σ} (hw : w.Known there)
    (hid : w.context.scopes.Knows site.object)
    (h : register name (services.nameScope type site outside) site.object w = .ok () w') :
    w.Grows there (services.naming type name site outside) w' := by
  have hidle : w.Grows there [] w := (Std.Refl.refl w : w.Quiet there w).grows hw
  cases name with
  | none =>
    cases h
    exact hidle
  | some name =>
    unfold naming
    generalize services.nameScope type site outside = scope at h
    cases scope with
    | none =>
      cases h
      exact hidle
    | some scope =>
      simp only [register, Action.bind_apply, Action.get_apply] at h
      cases hns : w.context.scopes.register scope name site.object with
      | error e => simp [hns] at h
      | ok ns =>
        simp only [hns] at h
        cases h
        refine ⟨Namescopes.register_grows hns, fun x hx => ?_⟩
        rcases Namescopes.knows_register hns hx with rfl | hx
        · exact hw _ hid
        · exact hw x hx

/-- An object that ends is told, and gets its name. -/
theorem complete_grows (hnew : services.MakesNew there) {type : TypeName} {name : Option String}
    {site : Site} {outside : Option (Option ScopeId)} {w w' : World σ} (hw : w.Known there)
    (hid : w.context.scopes.Knows site.object)
    (h : services.complete type name site outside w = .ok () w') :
    w.Grows there (services.naming type name site outside) w' := by
  rw [complete_eq] at h
  split at h
  · obtain ⟨told, w₁, htold, h⟩ := (Action.bind_eq_ok w).1 h
    have hquiet := hnew.notifyCreated_quiet _ _ _ _ htold
    exact (hquiet.grows hw).trans
      (services.register_naming (hquiet.known hw) (hquiet.scopes ▸ hid) h)
  · exact services.register_naming hw hid h

end Services
end ObjectMarkup
