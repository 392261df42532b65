/-
Scopes of names follow the tree.

An object sees the scope of the object it stands in, or opens a scope inside it; a name is
registered in the scope that its object sees, or around it if the object opens one.  The lemmas
follow the survey of a tree: what was built in a part of it (`Services.Grown`) is put together from
what was built in its parts.  `build_scopes` says it of a build.
-/
import Mathlib.Data.List.Nodup
import ObjectMarkup.Proofs.Duplicates
import ObjectMarkup.Widget.Catalogue
import ObjectMarkup.Proofs.Survey

namespace ObjectMarkup

variable {σ : Type}

namespace Services

variable (services : Services σ)

/-! ## The tree and what was built of it -/

/-- The nodes that are built for an assignment: none if it goes to a loader. -/
def carried : Assignment → List Tree
  | .literal _ _ => []
  | .children m trees => if (services.loaders.find? m).isSome then [] else trees

/-- What was built has the shape of the tree: one object for each node outside of deferred members,
in the order of the tree. -/
inductive Mirrors : Tree → Built → Prop
  | node {type : TypeName} {name : Option String} {arguments : List String}
      {assignments : List Assignment} {site : Site} {inner : List Built} :
      List.Forall₂ Mirrors (assignments.flatMap services.carried) inner →
      Mirrors (.node type name arguments assignments) (.node type name site inner)

/-- The scopes of what was built: every object that stands in another opens a scope inside its scope
or sees it. -/
inductive Settled (before after : Namescopes) : ScopeId → Built → Prop
  | node {around : ScopeId} {type : TypeName} {name : Option String} {site : Site}
      {inner : List Built} :
      site.Scoped before after (services.schema.traits type).namescope (some around) around →
      (∀ b ∈ inner, Settled before after site.scope b) →
      Settled before after around (.node type name site inner)

mutual

/-- The names that were registered, in their order; an object is named after those in it. -/
def registrations (around : Option ScopeId) : Built → List Registration
  | .node type name site inner =>
    registrationsAll site.scope inner ++ services.naming type name site (around.map some)

def registrationsAll (around : ScopeId) : List Built → List Registration
  | [] => []
  | b :: bs => registrations (some around) b ++ registrationsAll around bs

end

end Services

namespace Built

mutual

/-- The objects that were built, in the order in which they ended. -/
def objects : Built → List ObjectId
  | .node _ _ site inner => objectsAll inner ++ [site.object]

def objectsAll : List Built → List ObjectId
  | [] => []
  | b :: bs => b.objects ++ objectsAll bs

end

theorem objectsAll_append (bs cs : List Built) :
    objectsAll (bs ++ cs) = objectsAll bs ++ objectsAll cs := by
  induction bs with
  | nil => rfl
  | cons b bs ih => simp [objectsAll, ih]

end Built

/-! ## Objects that the scopes come to know -/

/-- Different objects that the scopes did not know before and know now. -/
structure Namescopes.Meets (before after : Namescopes) (objects : List ObjectId) : Prop where
  nodup : objects.Nodup
  unknown : ∀ x ∈ objects, ¬ before.Knows x
  known : ∀ x ∈ objects, after.Knows x

namespace Namescopes.Meets

variable {a b c : Namescopes} {xs ys : List ObjectId}

theorem nil : a.Meets b [] :=
  ⟨.nil, fun _ hx => absurd hx List.not_mem_nil, fun _ hx => absurd hx List.not_mem_nil⟩

theorem append {added more : List Registration} (h : a.Meets b xs) (h' : b.Meets c ys)
    (hgrows : a.Grows (fun _ => True) added b) (hgrows' : b.Grows (fun _ => True) more c) :
    a.Meets c (xs ++ ys) where
  nodup := by
    refine List.nodup_append.2 ⟨h.nodup, h'.nodup, fun x hx y hy hxy => ?_⟩
    exact h'.unknown y hy (hxy ▸ h.known x hx)
  unknown x hx := by
    rcases List.mem_append.1 hx with hx | hx
    · exact h.unknown x hx
    · exact fun hknows => h'.unknown x hx (hgrows.knows hknows)
  known x hx := by
    rcases List.mem_append.1 hx with hx | hx
    · exact hgrows'.knows (h.known x hx)
    · exact h'.known x hx

theorem perm (h : a.Meets b xs) (hperm : xs.Perm ys) : a.Meets b ys where
  nodup := hperm.nodup_iff.1 h.nodup
  unknown x hx := h.unknown x (hperm.mem_iff.2 hx)
  known x hx := h.known x (hperm.mem_iff.2 hx)

end Namescopes.Meets

namespace Services

variable (services : Services σ)

theorem registrationsAll_append (around : ScopeId) (bs cs : List Built) :
    services.registrationsAll around (bs ++ cs) =
      services.registrationsAll around bs ++ services.registrationsAll around cs := by
  induction bs with
  | nil => rfl
  | cons b bs ih => simp [registrationsAll, ih]

mutual

theorem registrations_objects (around : Option ScopeId) : (b : Built) →
    ((services.registrations around b).map (·.object)).Sublist b.objects
  | .node type name site inner => by
    rw [registrations, Built.objects, List.map_append]
    refine (registrationsAll_objects site.scope inner).append ?_
    unfold naming
    split
    · exact .refl _
    · exact List.nil_sublist _

theorem registrationsAll_objects (around : ScopeId) : (bs : List Built) →
    ((services.registrationsAll around bs).map (·.object)).Sublist (Built.objectsAll bs)
  | [] => .slnil
  | b :: bs => by
    rw [registrationsAll, Built.objectsAll, List.map_append]
    exact (registrations_objects (some around) b).append (registrationsAll_objects around bs)

end

variable {services} {there : σ → ObjectId → Prop}

theorem Settled.grows {before before' after after' : Namescopes} {added : List Registration}
    {around : ScopeId} {b : Built} (h : services.Settled before after around b)
    (hbefore : before'.scopes.length ≤ before.scopes.length)
    (hafter : after.Grows (fun _ => True) added after') :
    services.Settled before' after' around b := by
  induction h with
  | node hsite _ ih => exact .node (hsite.grows hbefore hafter trivial) ih

/-! ## What a part of the tree does to the scopes -/

variable (services) in
/-- What was built in a scope: the names that were registered, and the scopes of the objects. -/
structure Grown (there : σ → ObjectId → Prop) (around : ScopeId) (bs : List Built)
    (w w' : World σ) : Prop where
  grows : w.Grows there (services.registrationsAll around bs) w'
  settled : ∀ b ∈ bs, services.Settled w.context.scopes w'.context.scopes around b
  meets : w.context.scopes.Meets w'.context.scopes (Built.objectsAll bs)

namespace Grown

variable {around : ScopeId} {bs cs : List Built} {w w' w'' : World σ}

theorem quiet (h : w.Quiet there w') (hw : w.Known there) :
    services.Grown there around [] w w' where
  grows := h.grows hw
  settled _ hb := absurd hb List.not_mem_nil
  meets := .nil

theorem append (h : services.Grown there around bs w w')
    (h' : services.Grown there around cs w' w'') :
    services.Grown there around (bs ++ cs) w w'' where
  grows := by
    rw [registrationsAll_append]
    exact h.grows.trans h'.grows
  settled b hb := by
    rcases List.mem_append.1 hb with hb | hb
    · exact (h.settled b hb).grows (Nat.le_refl _) h'.grows.scopes
    · exact (h'.settled b hb).grows h.grows.scopes.length (.refl _)
  meets := by
    rw [Built.objectsAll_append]
    exact h.meets.append h'.meets h.grows.scopes h'.grows.scopes

/-- An object that is made, filled and ended in a scope. -/
theorem node (hnew : services.MakesNew there) {type : TypeName} {name : Option String}
    {site : Site} {inner : List Built} {w₁ w₂ w₃ : World σ}
    (hmade : services.Made there w w₁ type (some around) site)
    (hinner : services.Grown there site.scope inner w₁ w₂)
    (hcomplete : services.complete type name site (some (some around)) w₂ = .ok () w₃)
    (hvalue : w₃.Quiet there w') :
    services.Grown there around [.node type name site inner] w w' := by
  have hsees : w₁.context.scopes.Knows site.object := .inl ⟨_, hmade.place.sees⟩
  have hended := services.complete_grows hnew hinner.grows.known
    (hinner.grows.scopes.knows hsees) hcomplete
  have hclosed := hended.trans (hvalue.grows hended.known)
  have hlater := hinner.grows.trans hclosed
  refine ⟨?_, ?_, ?_⟩
  · have hwhole := hmade.grows.trans hlater
    simpa [registrationsAll, registrations] using hwhole
  · intro b hb
    obtain rfl := List.mem_singleton.1 hb
    have hplace : site.Scoped w.context.scopes w₁.context.scopes
        (services.schema.traits type).namescope (some around) around := by
      simpa [opensScope, scopeAround] using hmade.place
    refine .node (hplace.grows (Nat.le_refl _) hlater.scopes trivial) fun c hc => ?_
    exact (hinner.settled c hc).grows hmade.grows.scopes.length hclosed.scopes
  · have hfirst : w.context.scopes.Meets w₁.context.scopes [site.object] :=
      ⟨by simp, by simpa using hmade.new, by simpa using hsees⟩
    have hall := (hfirst.append hinner.meets hmade.grows.scopes hinner.grows.scopes).append .nil
      (hmade.grows.trans hinner.grows).scopes hclosed.scopes
    refine hall.perm ?_
    simpa [Built.objectsAll, Built.objects] using
      (List.perm_append_singleton site.object (Built.objectsAll inner)).symm

end Grown

theorem literal_quiet (hnew : services.MakesNew there) (e : Enclosure) (m : Member) (s : String) :
    Action.Moves (World.Quiet there) (services.evaluateAssignment e (.literal m s)) := by
  intro w a w' h
  rw [evaluateAssignment, Action.bind_eq_ok] at h
  obtain ⟨loader, w₁, hloader, h⟩ := h
  obtain ⟨hmember, rfl⟩ := Build.ofExcept_eq_ok hloader
  cases loader with
  | some loader =>
    have hload := hnew.loader_quiet (services.loaderOf_ok hmember) [.value s]
    exact hload.bind (fun v => hnew.commit_quiet _ _ _ _ _) w₁ a w' h
  | none =>
    have hread : Action.Moves (World.Quiet there) (services.readLiteral (some e.root) m s) :=
      Build.ofExcept_quiet _
    exact hread.bind (fun v => hnew.commit_quiet _ _ _ _ _) w₁ a w' h

mutual

theorem surveyTree_grown (hnew : services.MakesNew there) : (t : Tree) → {e : Enclosure} →
    {m : Member} → {w w' : World σ} → {built : Value × Built} → w.Known there →
    services.surveyTree e m t w = .ok built w' →
      services.Mirrors t built.2 ∧ services.Grown there e.site.scope [built.2] w w'
  | .node type name arguments assignments, e, m, w, w', built, hw, h => by
    simp only [surveyTree, Action.bind_eq_ok] at h
    obtain ⟨_, _, hcheck, site, w₁, hmake, inner, w₂, hinner, _, w₃, hcomplete, v, w₄, hvalue, h⟩ :=
      h
    obtain ⟨-, rfl⟩ := Build.ofExcept_eq_ok hcheck
    cases h
    have hmade := services.make_made hnew hw hmake
    obtain ⟨hmirrors, hgrown⟩ := surveyAssignments_grown hnew assignments hmade.grows.known hinner
    exact ⟨.node hmirrors, .node hnew hmade hgrown hcomplete
      (hnew.valueOf_quiet _ _ _ _ _ _ _ _ hvalue)⟩

theorem surveyAssignment_grown (hnew : services.MakesNew there) : (a : Assignment) →
    {e : Enclosure} → {w w' : World σ} → {bs : List Built} → w.Known there →
    services.surveyAssignment e a w = .ok bs w' →
      List.Forall₂ services.Mirrors (services.carried a) bs ∧
        services.Grown there e.site.scope bs w w'
  | .literal m s, e, w, w', bs, hw, h => by
    rw [surveyAssignment, Action.bind_eq_ok] at h
    obtain ⟨_, w₁, hliteral, h⟩ := h
    cases h
    exact ⟨.nil, .quiet (literal_quiet hnew e m s w _ w' hliteral) hw⟩
  | .children m trees, e, w, w', bs, hw, h => by
    rw [surveyAssignment, Action.bind_eq_ok] at h
    obtain ⟨loader, _, hloader, h⟩ := h
    obtain ⟨hmember, rfl⟩ := Build.ofExcept_eq_ok hloader
    have hfind := services.loaderOf_ok hmember
    rw [carried, hfind]
    cases loader with
    | some loader =>
      simp only [Action.bind_eq_ok] at h
      obtain ⟨v, w₂, hload, _, w₃, hcommit, h⟩ := h
      cases h
      have hquiet := hnew.loader_quiet hfind _ _ _ _ hload
      exact ⟨.nil, .quiet (Trans.trans hquiet (hnew.commit_quiet _ _ _ _ _ _ _ _ hcommit)) hw⟩
    | none =>
      simp only [Action.bind_eq_ok] at h
      obtain ⟨built, w₂, hbuilt, _, w₃, hcommit, h⟩ := h
      cases h
      obtain ⟨hmirrors, hgrown⟩ := surveyTrees_grown hnew trees hw hbuilt
      have hquiet := hnew.commit_quiet _ _ _ _ _ _ _ _ hcommit
      have hwhole := hgrown.append (.quiet hquiet hgrown.grows.known)
      rw [List.append_nil] at hwhole
      exact ⟨hmirrors, hwhole⟩

theorem surveyAssignments_grown (hnew : services.MakesNew there) : (as : List Assignment) →
    {e : Enclosure} → {w w' : World σ} → {bs : List Built} → w.Known there →
    services.surveyAssignments e as w = .ok bs w' →
      List.Forall₂ services.Mirrors (as.flatMap services.carried) bs ∧
        services.Grown there e.site.scope bs w w'
  | [], e, w, w', bs, hw, h => by
    rw [surveyAssignments] at h
    cases h
    exact ⟨.nil, .quiet (Std.Refl.refl w) hw⟩
  | a :: as, e, w, w', bs, hw, h => by
    simp only [surveyAssignments, Action.bind_eq_ok] at h
    obtain ⟨built, w₁, hfirst, rest, w₂, hrest, h⟩ := h
    cases h
    obtain ⟨hmirrors, hgrown⟩ := surveyAssignment_grown hnew a hw hfirst
    obtain ⟨hmirrors', hgrown'⟩ := surveyAssignments_grown hnew as hgrown.grows.known hrest
    rw [List.flatMap_cons]
    exact ⟨List.rel_append hmirrors hmirrors', hgrown.append hgrown'⟩

theorem surveyTrees_grown (hnew : services.MakesNew there) : (ts : List Tree) →
    {e : Enclosure} → {m : Member} → {w w' : World σ} → {built : List (Value × Built)} →
    w.Known there → services.surveyTrees e m ts w = .ok built w' →
      List.Forall₂ services.Mirrors ts (built.map (·.2)) ∧
        services.Grown there e.site.scope (built.map (·.2)) w w'
  | [], e, m, w, w', built, hw, h => by
    rw [surveyTrees] at h
    cases h
    exact ⟨.nil, .quiet (Std.Refl.refl w) hw⟩
  | t :: ts, e, m, w, w', built, hw, h => by
    simp only [surveyTrees, Action.bind_eq_ok] at h
    obtain ⟨first, w₁, hfirst, rest, w₂, hrest, h⟩ := h
    cases h
    obtain ⟨hmirrors, hgrown⟩ := surveyTree_grown hnew t hw hfirst
    obtain ⟨hmirrors', hgrown'⟩ := surveyTrees_grown hnew ts hgrown.grows.known hrest
    exact ⟨.cons hmirrors hmirrors', hgrown.append hgrown'⟩

end

/-! ## The first object -/

variable (services) in
def rootType (root : Option ObjectId) (type : TypeName) (heap : σ) : TypeName :=
  match root with
  | some id => services.host.typeOf heap id
  | none => type

variable (services) in
/-- Whether the first object opens a scope: its type does, and it is made or gets a new one. -/
def rootOpens (type : TypeName) (root : Option ObjectId) : Bool :=
  (services.schema.traits type).namescope &&
    (root.isNone || services.settings.rootScope == .fresh)

variable (services) in
theorem opensScope_root (type : TypeName) (root : Option ObjectId) :
    services.opensScope type root.isSome = services.rootOpens type root := by
  rw [opensScope, rootOpens]
  cases root <;> cases services.settings.rootScope <;> rfl

/-- The scope that the first object sees if it opens none: what it sees already, if it is supplied
and sees a scope, and else that of the document. -/
def rootScope (root : Option ObjectId) (ns : Namescopes) : ScopeId :=
  (root.bind ns.scopeOf).getD ns.documentScope.1

variable (services) in
/-- The first object was made or taken over, and is in its scope. -/
structure Rooted (there : σ → ObjectId → Prop) (root : Option ObjectId) (w w' : World σ)
    (type : TypeName) (site : Site) : Prop where
  object : ∀ id, root = some id → site.object = id
  known : w'.Known there
  grows : w.context.scopes.Grows (fun x => root ≠ some x) [] w'.context.scopes
  place : site.Scoped w.context.scopes w'.context.scopes (services.rootOpens type root) none
    (rootScope root w.context.scopes)
  document : services.rootOpens type root = false → root.bind w.context.scopes.scopeOf = none →
    w'.context.scopes.document = some w.context.scopes.documentScope.1

theorem settleRoot_rooted (hnew : services.MakesNew there) {root : Option ObjectId}
    {type : TypeName} {arguments : List String} {w w' : World σ} {settled : TypeName × Site}
    (hw : w.Known there) (hroot : ∀ id, root = some id → there w.heap id)
    (h : services.settleRoot root type arguments w = .ok settled w') :
    settled.1 = services.rootType root type w.heap ∧
      services.Rooted there root w w' settled.1 settled.2 := by
  cases root with
  | none =>
    simp only [settleRoot, Action.bind_eq_ok] at h
    obtain ⟨site, w₁, hmake, h⟩ := h
    cases h
    have hmade := services.make_made hnew hw hmake
    refine ⟨rfl, by simp, hmade.grows.known,
      hmade.grows.scopes.mono fun _ _ => trivial, ?_, ?_⟩
    · exact services.opensScope_root type none ▸ hmade.place
    · intro hopens _
      exact hmade.document rfl (services.opensScope_root type none ▸ hopens)
  | some id =>
    simp only [settleRoot, Action.bind_eq_ok, Action.get_apply] at h
    obtain ⟨_, w₁, hget, site, w₂, hadopt, h⟩ := h
    cases hget
    cases h
    obtain ⟨rfl, hadopted⟩ := services.adopt_adopted hadopt (.inl ⟨rfl, rfl⟩)
    have haround : (scopeAround none site.object true w.context.scopes).1 =
        rootScope (some site.object) w.context.scopes := by
      simp only [scopeAround, rootScope, Option.bind_some, if_true]
      cases w.context.scopes.scopeOf site.object <;> rfl
    have hopens : services.opensScope (services.host.typeOf w.heap site.object) true =
        services.rootOpens (services.host.typeOf w.heap site.object) (some site.object) :=
      services.opensScope_root _ (some site.object)
    refine ⟨rfl, fun id hid => Option.some.inj hid, ?_, ?_, ?_, ?_⟩
    · intro x hx
      rw [hadopted.heap]
      rcases hadopted.knows x hx with rfl | hx
      · exact hroot _ rfl
      · exact hw x hx
    · exact hadopted.grows.mono fun x hx hid => hx (congrArg some hid)
    · have hplace := hadopted.place
      rw [haround, hopens] at hplace
      exact hplace
    · intro hno hsees
      exact hadopted.document rfl (hopens.trans hno) hsees

namespace Rooted

variable {root : Option ObjectId} {w w' : World σ} {type : TypeName} {site : Site}

theorem knows (h : services.Rooted there root w w' type site) {x : ObjectId}
    (hx : w.context.scopes.Knows x) : w'.context.scopes.Knows x := by
  by_cases hroot : root = some x
  · exact .inl ⟨_, h.object x hroot ▸ h.place.sees⟩
  · rcases hx with ⟨s, hs⟩ | ⟨s, name, hmem⟩
    · exact .inl ⟨s, h.grows.scopeOf x s hroot hs⟩
    · refine .inr ⟨s, name, ?_⟩
      rw [h.grows.entries]
      exact List.mem_append_left _ hmem

end Rooted

/-! ## Whole trees -/

variable (services) in
/-- The scopes `after` a build follow the tree that was built. -/
structure ScopesFollow (root : Option ObjectId) (before after : Namescopes) (t : Tree)
    (b : Built) : Prop where
  -- everything outside of deferred members was built
  name : b.name = t.name
  nodes : List.Forall₂ services.Mirrors (t.assignments.flatMap services.carried) b.inner
  objects : b.objects.Nodup
  -- every object sees the scope it should
  first : b.site.Scoped before after (services.rootOpens b.type root) none (rootScope root before)
  document : services.rootOpens b.type root = false → root.bind before.scopeOf = none →
    after.document = some b.site.scope
  inner : ∀ c ∈ b.inner, services.Settled before after b.site.scope c
  others : ∀ x s, root ≠ some x → before.scopeOf x = some s → after.scopeOf x = some s
  -- the names in a scope are those that were there and those of the objects built
  names : ∀ s, after.entries s =
    before.entries s ++ Registration.entriesIn s (services.registrations none b)
  -- the name of an inner object finds it from where its scope is seen, and from nowhere else
  isolated : ∀ r ∈ services.registrationsAll b.site.scope b.inner, ∀ x,
    after.find r.name x = some r.object ↔ after.scopeOf x = some r.scope

/-- An object that was unknown and is named once is found where its scope is seen. -/
theorem find_registered {keep : ObjectId → Prop} {added : List Registration}
    {before after : Namescopes} (hgrows : before.Grows keep added after) {r : Registration}
    (hr : r ∈ added) (hunknown : ¬ before.Knows r.object)
    (honce : ∀ r' ∈ added, r'.object = r.object → r' = r) (x : ObjectId) :
    after.find r.name x = some r.object ↔ after.scopeOf x = some r.scope := by
  rw [Namescopes.find, Option.bind_eq_some_iff]
  constructor
  · rintro ⟨s, hs, hfind⟩
    have hmem := Namescopes.mem_entries hfind
    rw [hgrows.entries, List.mem_append] at hmem
    rcases hmem with hmem | hmem
    · exact absurd (.inr ⟨s, r.name, hmem⟩) hunknown
    · obtain ⟨r', hr', rfl, hentry⟩ := Registration.mem_entriesIn.1 hmem
      rw [honce r' hr' (congrArg Prod.snd hentry)] at hs
      exact hs
  · exact fun hs => ⟨r.scope, hs, hgrows.findIn r hr⟩

theorem survey_scopesFollow (hnew : services.MakesNew there) {root : Option ObjectId} {t : Tree}
    {w w' : World σ} {b : Built} (hw : w.Known there)
    (hroot : ∀ id, root = some id → there w.heap id) (h : services.survey root t w = .ok b w') :
    b.type = services.rootType root t.type w.heap ∧
      services.ScopesFollow root w.context.scopes w'.context.scopes t b := by
  obtain ⟨type, name, arguments, assignments⟩ := t
  simp only [survey, Action.bind_eq_ok] at h
  obtain ⟨_, w₀, hcheck, ⟨type', site⟩, w₁, hsettle, inner, w₂, hinner, _, w₃, hcomplete, h⟩ := h
  obtain ⟨-, rfl⟩ := Build.ofExcept_eq_ok hcheck
  cases h
  obtain ⟨htype, hrooted⟩ := settleRoot_rooted hnew hw hroot hsettle
  obtain ⟨hmirrors, hgrown⟩ := surveyAssignments_grown hnew assignments hrooted.known hinner
  have hsees : w₁.context.scopes.Knows site.object := .inl ⟨_, hrooted.place.sees⟩
  have hended := services.complete_grows hnew hgrown.grows.known
    (hgrown.grows.scopes.knows hsees) hcomplete
  have hlater := hgrown.grows.trans hended
  have hgrows : w₀.context.scopes.Grows (fun x => root ≠ some x)
      (services.registrations none (.node type' name site inner)) w'.context.scopes :=
    hrooted.grows.trans (hlater.scopes.mono fun _ _ => trivial)
  have hnodup : (Built.objectsAll inner ++ [site.object]).Nodup := by
    refine List.nodup_append.2 ⟨hgrown.meets.nodup, by simp, fun x hx y hy hxy => ?_⟩
    obtain rfl := List.mem_singleton.1 hy
    exact hgrown.meets.unknown x hx (hxy ▸ hsees)
  have hfirst := hrooted.place.grows (Nat.le_refl _) hlater.scopes trivial
  refine ⟨htype, rfl, hmirrors, hnodup, hfirst, ?_, ?_, hgrows.scopeOf, hgrows.entries, ?_⟩
  · intro hopens hnone
    have hscope : site.scope = w₀.context.scopes.documentScope.1 := by
      rw [hfirst.inherits hopens, rootScope, hnone]
      rfl
    exact hlater.scopes.document _ (hscope ▸ hrooted.document hopens hnone)
  · intro c hc
    exact (hgrown.settled c hc).grows hrooted.grows.length hended.scopes
  · intro r hr x
    have hobject : r.object ∈ Built.objectsAll inner :=
      (services.registrationsAll_objects site.scope inner).subset (List.mem_map_of_mem hr)
    refine find_registered hgrows (List.mem_append_left _ hr)
      (fun hknows => hgrown.meets.unknown _ hobject (hrooted.knows hknows)) ?_ x
    intro r' hr' heq
    have honce := (services.registrations_objects none (.node type' name site inner)).nodup hnodup
    exact List.inj_on_of_nodup_map honce hr' (List.mem_append_left _ hr) heq

variable (services) in
/-- The scopes of names follow the tree.  After a build every object sees the scope that the tree
gives it, and the scopes have got the names of the objects that were built and no others.  A build
fails for a name when it ends an object whose scope has the name already, and only then. -/
theorem build_scopes (t : Tree) (root : Option ObjectId) (w : World σ) :
    (∀ there id w', services.MakesNew there → w.Known there →
      (∀ x, root = some x → there w.heap x) → services.build t root w = .ok id w' →
        ∃ t' b, t.sort = .ok t' ∧ services.survey root t' w = .ok b w' ∧ b.site.object = id ∧
          b.type = services.rootType root t'.type w.heap ∧
          services.ScopesFollow root w.context.scopes w'.context.scopes t' b) ∧
    ∀ name, (∃ w', services.build t root w = .error (.namescope (.duplicateName name)) w') ↔
      ∃ stream pre post m, t.write = .ok stream ∧ stream = pre ++ .endObject :: post ∧
        services.steps pre (Machine.blank w root none) = .ok () m ∧
        services.ClosesTaken m name := by
  constructor
  · intro there id w' hnew hw hroot h
    cases hsort : t.sort with
    | error e => simp [services.build_of_unsorted hsort] at h
    | ok t' =>
      simp only [services.build_of_sorted hsort, ← object_survey, Action.map_apply] at h
      cases hsurvey : services.survey root t' w with
      | error e w₁ => simp [hsurvey] at h
      | ok b w₁ =>
        simp only [hsurvey, EStateM.Result.ok.injEq] at h
        obtain ⟨rfl, rfl⟩ := h
        exact ⟨t', b, rfl, hsurvey, rfl, survey_scopesFollow hnew hw hroot hsurvey⟩
  · exact fun name => services.build_duplicate t root w name

end Services

/-! ## Widgets -/

namespace Heap

def Has (h : Heap) (id : ObjectId) : Prop := id.index < h.slots.size

theorem put_size (h : Heap) (id : ObjectId) (w : Widget) :
    (h.put id w).slots.size = h.slots.size := Array.size_setIfInBounds

theorem change_stays (id : ObjectId) (f : Widget → Widget) (h : Heap) :
    Stays Has h (change id f h) := by
  intro x hx
  rw [change]
  split
  · rw [Has, put_size]
    exact hx
  · exact hx

theorem act_stays {ε : Type} (id : ObjectId) (f : EStateM ε Widget Unit) :
    Action.Moves (Stays Has) (act id f) := by
  intro h a h' hact x hx
  rw [act] at hact
  split at hact
  · cases hact
    exact hx
  · split at hact
    · cases hact
      rw [Has, put_size]
      exact hx
    · cases hact

/-- The constructor adds the object that it makes, and takes none away. -/
def Adds (make : Constructor Heap) : Prop :=
  ∀ arguments h id h', make arguments h = .ok id h' → ¬ h.Has id ∧ h'.Has id ∧ Stays Has h h'

theorem create_adds (w : Widget) {h h' : Heap} {id : ObjectId}
    (hmake : Widget.create w h = .ok id h') : ¬ h.Has id ∧ h'.Has id ∧ Stays Has h h' := by
  cases hmake
  refine ⟨by simp [Has], by simp [Has], fun x hx => ?_⟩
  simp only [Has, Array.size_push] at hx ⊢
  omega

theorem fromText_adds (type : TypeName) (make : String → Widget) :
    Adds (Widget.fromText type make).2 := by
  intro arguments h id h' hmake
  cases arguments with
  | nil => cases hmake
  | cons s rest => exact create_adds (make s) hmake

theorem createItemsControl_adds : Adds fun _ => Widget.createItemsControl := by
  intro arguments h id h' hmake
  obtain ⟨items, h₁, hitems, hcontrol⟩ := (Action.bind_eq_ok h).1 hmake
  obtain ⟨-, -, hstays⟩ := create_adds _ hitems
  obtain ⟨habsent, hthere, hstays'⟩ := create_adds _ hcontrol
  exact ⟨fun hid => habsent (hstays _ hid), hthere, Trans.trans hstays hstays'⟩

theorem descriptors_add : ∀ d ∈ Widget.descriptors, ∀ c ∈ d.constructors, Adds c.2 := by
  have hplain : ∀ w, Adds (Widget.plain w).2 := fun w _ _ _ _ => create_adds w
  simp only [Widget.descriptors, List.forall_mem_cons, hplain, fromText_adds,
    createItemsControl_adds, List.not_mem_nil, false_implies, implies_true, and_self]

theorem services_makesNew (c : Catalogue Heap)
    (hadds : ∀ d ∈ c.types, ∀ k ∈ d.constructors, Adds k.2) (settings : Settings) :
    (c.services host settings).MakesNew Has := by
  have hactivate : ∀ type, Adds (c.activate type) := by
    intro type arguments h id h' hmake
    cases hd : c.find? type with
    | none => simp [Catalogue.activate, hd] at hmake
    | some d =>
      cases hempty : d.constructors.isEmpty with
      | true => simp [Catalogue.activate, hd, hempty] at hmake
      | false =>
        cases hmake' : d.constructor? arguments.length with
        | none => simp [Catalogue.activate, hd, hempty, hmake'] at hmake
        | some make =>
          simp only [Catalogue.activate, hd, hempty, hmake'] at hmake
          obtain ⟨k, hk, rfl⟩ := Option.map_eq_some_iff.1 hmake'
          exact hadds d (List.mem_of_find?_eq_some hd) k (List.mem_of_find?_eq_some hk)
            arguments h id h' hmake
  exact {
    activate := fun type arguments h id h' hmake =>
      ⟨(hactivate type arguments h id h' hmake).1, (hactivate type arguments h id h' hmake).2.1⟩
    activate_stays := fun type arguments h id h' hmake =>
      (hactivate type arguments h id h' hmake).2.2
    loader := fun m loader hloader => by cases hloader
    setMember := fun id m v => act_stays id _
    setAttached := fun id m v => act_stays id _
    append := fun id v => act_stays id _
    provide := fun id p h v h' hprovide => by
      simp only [Catalogue.services, host] at hprovide
      split at hprovide
      · cases hprovide
        exact Std.Refl.refl h
      · cases hprovide
    beginInit := fun id => change_stays id _
    endInit := fun id => change_stays id _ }

end Heap

/-- A window with a control in it that opens a scope of its own, and a text in that. -/
def Widget.nestedControl : Tree :=
  .node "Window" (some "Main") [] [.children (contentMember "Window") [
    .node "UserControl" (some "Inner") [] [.children (contentMember "UserControl") [
      .node "TextBlock" (some "Deep") [] []]]]]

namespace Services

theorem build_scopes_nestedControl :
    ∃ id w' b, (Widget.catalogue.services Heap.host {}).build Widget.nestedControl none
        { heap := {} } = .ok id w' ∧ b.site.object = id ∧
      (Widget.catalogue.services Heap.host {}).ScopesFollow none {} w'.context.scopes
        Widget.nestedControl b ∧
      w'.context.scopes.find "Inner" id = some ⟨1⟩ ∧ w'.context.scopes.find "Deep" id = none ∧
      w'.context.scopes.find "Deep" ⟨1⟩ = some ⟨2⟩ := by
  have hknown : World.Known Heap.Has ({ heap := {} } : World Heap) := by
    rintro id (⟨s, hs⟩ | ⟨s, name, hmem⟩)
    · cases hs
    · cases hmem
  have hfound : (match (Widget.catalogue.services Heap.host {}).build Widget.nestedControl none
      { heap := {} } with
    | .ok id w => decide (w.context.scopes.find "Inner" id = some ⟨1⟩ ∧
        w.context.scopes.find "Deep" id = none ∧ w.context.scopes.find "Deep" ⟨1⟩ = some ⟨2⟩)
    | .error _ _ => false) = true := by decide +kernel
  have hnew := Heap.services_makesNew Widget.catalogue Heap.descriptors_add {}
  have h := (Widget.catalogue.services Heap.host {}).build_scopes Widget.nestedControl none
    { heap := {} }
  cases hbuild : (Widget.catalogue.services Heap.host {}).build Widget.nestedControl none
      { heap := {} } with
  | error e w => simp [hbuild] at hfound
  | ok id w' =>
    obtain ⟨t', b, hsort, -, hobject, -, hfollow⟩ :=
      h.1 Heap.Has id w' hnew hknown (by simp) hbuild
    obtain rfl : Widget.nestedControl = t' := Except.ok.inj hsort
    simp only [hbuild, decide_eq_true_eq] at hfound
    exact ⟨id, w', b, rfl, hobject, hfollow, hfound⟩

end Services
end ObjectMarkup
