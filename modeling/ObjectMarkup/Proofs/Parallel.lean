/-
Two constructions side by side.

The worlds of two constructions belong together when their heaps do and when what is known of the
objects is the same up to the pairing (`Likeness.worlds`).  With services that respect the likeness,
every part of a construction does the same in both, and so do the assignments of a tree
(`evaluateAssignments`).

A stage counts the scopes that are there at least, so that no scope that an object sees is unknown
in one of the worlds.
-/
import ObjectMarkup.Proofs.Likeness
import ObjectMarkup.Proofs.Machine
import ObjectMarkup.Proofs.Scoping
import ObjectMarkup.Tree.Evaluate

namespace ObjectMarkup

open List (Forall₂)

variable {R : ObjectId → ObjectId → Prop} {k n : Nat} {ι σ : Type}

/-! ## Scopes -/

namespace Namescopes

theorem latest_like (hR : OneToOne R) {table table' : List (ObjectId × ScopeId)}
    (h : Forall₂ (SamePlace R k) table table') {id id' : ObjectId} (hid : R id id') :
    latest table' id' = (latest table id).map (ScopeId.shift k) := by
  induction h with
  | nil => rfl
  | @cons e e' _ _ he _ ih =>
    obtain ⟨x, s⟩ := e
    obtain ⟨x', s'⟩ := e'
    obtain ⟨hx, rfl⟩ : R x x' ∧ s' = s.shift k := he
    rw [latest_cons, latest_cons, ih]
    by_cases hxid : x = id
    · rw [if_pos hxid, if_pos ((hR _ _ _ _ hx hid).1 hxid)]
      rfl
    · rw [if_neg hxid, if_neg fun h => hxid ((hR _ _ _ _ hx hid).2 h)]

theorem find?_like {names names' : List (String × ObjectId)} (h : Forall₂ (SameName R) names names')
    (name : String) : Option.Rel R ((names.find? fun e => e.1 == name).map (·.2))
      ((names'.find? fun e => e.1 == name).map (·.2)) := by
  induction h with
  | nil => exact .none
  | @cons e e' _ _ he _ ih =>
    rw [List.find?_cons, List.find?_cons, he.1]
    split
    · exact .some he.2
    · exact ih

namespace Like

variable {ns ns' : Namescopes} {id id' : ObjectId} {s : ScopeId}

theorem create (h : ns.Like R k ns') {owner owner' : Option ObjectId}
    (howner : Option.Rel R owner owner') {parent parent' : Option ScopeId}
    (hparent : SameParent k parent parent') :
    (ns.create owner parent).2.Like R k (ns'.create owner' parent').2 where
  length := by
    simp only [Namescopes.create, List.length_append, List.length_singleton, h.length]
    omega
  before i hi := by
    have hlength := h.length
    rw [getElem?_create, if_neg (by omega)]
    exact h.before i hi
  scopes i := by
    rw [getElem?_create, getElem?_create, h.length]
    by_cases hi : i = ns.scopes.length
    · rw [if_pos hi, if_pos (by omega)]
      exact .some ⟨howner, hparent, .nil⟩
    · rw [if_neg hi, if_neg (by omega)]
      exact h.scopes i
  owned := by
    cases howner with
    | none => exact h.owned
    | some hid => exact .cons ⟨hid, by simp [ScopeId.shift, h.length]⟩ h.owned
  entered := h.entered

theorem enter (hR : OneToOne R) (h : ns.Like R k ns') (hid : R id id') (s : ScopeId) :
    (ns.enter id s).Like R k (ns'.enter id' (s.shift k)) := by
  rw [Namescopes.enter, Namescopes.enter, latest_like hR h.owned hid, Option.isSome_map]
  split
  · exact h
  · exact { h with entered := .cons ⟨hid, rfl⟩ h.entered }

/-- A name is taken in both or in none. -/
theorem register (h : ns.Like R k ns') (hs : s.index < ns.scopes.length) (hid : R id id')
    (name : String) :
    (∃ e, ns.register s name id = .error e ∧ ns'.register (s.shift k) name id' = .error e) ∨
      ∃ after after', ns.register s name id = .ok after ∧
        ns'.register (s.shift k) name id' = .ok after' ∧ after.Like R k after' := by
  have hscopes := h.scopes s.index
  rw [Namescopes.register, Namescopes.register]
  rw [show (s.shift k).index = s.index + k from rfl]
  rw [List.getElem?_eq_getElem hs] at hscopes ⊢
  generalize ns'.scopes[s.index + k]? = found at hscopes ⊢
  cases hscopes with
  | @some scope scope' hlike =>
    have hfind : (scope'.find? name).isSome = (ns.scopes[s.index].find? name).isSome := by
      have hrel : Option.Rel R (ns.scopes[s.index].find? name) (scope'.find? name) :=
        find?_like hlike.names name
      generalize ns.scopes[s.index].find? name = a at hrel ⊢
      generalize scope'.find? name = a' at hrel ⊢
      cases hrel <;> rfl
    simp only [hfind]
    split
    · exact .inl ⟨_, rfl, rfl⟩
    · refine .inr ⟨_, _, rfl, rfl, { h with length := ?_, before := fun i hi => ?_, scopes := fun i => ?_ }⟩
      · simpa using h.length
      · have hne : s.index + k ≠ i := by omega
        simpa only [List.getElem?_set_ne hne] using h.before i hi
      · have hlength := h.length
        simp only [List.getElem?_set]
        have hentry : SameName R (name, id) (name, id') := ⟨rfl, hid⟩
        by_cases hi : s.index = i
        · rw [if_pos hi, if_pos (by omega), if_pos (by omega), if_pos (by omega)]
          refine .some ?_
          exact ⟨hlike.owner, hlike.parent, List.rel_append hlike.names (.cons hentry .nil)⟩
        · rw [if_neg hi, if_neg (by omega)]
          exact h.scopes i

end Like
end Namescopes

/-- What two objects get when they are settled: scopes that are alike, and scopes made of them. -/
structure SettledAlike (R : ObjectId → ObjectId → Prop) (k : Nat) (r r' : ScopeId × Namescopes) :
    Prop where
  scopes : r.2.Like R k r'.2
  scope : r'.1 = r.1.shift k
  known : r.1.index < r.2.scopes.length

theorem Services.settle_alike (services : Services σ) (hR : OneToOne R) {ns ns' : Namescopes}
    (h : ns.Like R k ns') {id id' : ObjectId} (hid : R id id') {s : ScopeId}
    (hs : s.index < ns.scopes.length) (type : TypeName) :
    SettledAlike R k (services.settle (some s) type id false ns)
      (services.settle (some (s.shift k)) type id' false ns') := by
  cases hopens : services.opensScope type false with
  | true =>
    rw [settle_of_opens _ _ _ _ _ _ hopens, settle_of_opens _ _ _ _ _ _ hopens]
    exact {
      scopes := h.create (.some hid) (.inl rfl)
      scope := by simp [Namescopes.create, ScopeId.shift, h.length]
      known := by simp [Namescopes.create] }
  | false =>
    rw [settle_of_not_opens _ _ _ _ _ _ hopens, settle_of_not_opens _ _ _ _ _ _ hopens]
    exact ⟨h.enter hR hid s, rfl, by rw [Namescopes.enter_scopes]; exact hs⟩

/-! ## Worlds -/

/-- The worlds belong together whose heaps do, and whose objects were put and recorded alike. -/
def Likeness.worlds (H : Likeness ι σ) (k : Nat) : Link (ι × Nat) (World σ) (World σ) where
  le p q := H.le p.1 q.1 ∧ p.2 ≤ q.2
  refl p := ⟨H.refl p.1, Nat.le_refl p.2⟩
  trans h h' := ⟨H.trans h.1 h'.1, Nat.le_trans h.2 h'.2⟩
  states p w w' := H.states p.1 w.heap w'.heap ∧ w.context.Like (H.pairs p.1) k w'.context ∧
    p.2 ≤ w.context.scopes.scopes.length

/-- Objects under construction that are the same. -/
structure Site.Like (R : ObjectId → ObjectId → Prop) (k n : Nat) (s s' : Site) : Prop where
  object : R s.object s'.object
  collects : s'.collects = s.collects
  scope : s'.scope = s.scope.shift k
  known : s.scope.index < n

structure Enclosure.Like (R : ObjectId → ObjectId → Prop) (k n : Nat) (e e' : Enclosure) :
    Prop where
  site : e.site.Like R k n e'.site
  root : R e.root e'.root
  level : e'.level = e.level

variable {H : Likeness ι σ} {i : ι}

theorem Site.Like.later {j : ι} {n' : Nat} {s s' : Site} (h : s.Like (H.pairs i) k n s')
    (hij : H.le i j) (hn : n ≤ n') : s.Like (H.pairs j) k n' s' :=
  ⟨H.pairs_later hij _ _ h.object, h.collects, h.scope, Nat.lt_of_lt_of_le h.known hn⟩

theorem Enclosure.Like.later {j : ι} {n' : Nat} {e e' : Enclosure}
    (h : e.Like (H.pairs i) k n e') (hij : H.le i j) (hn : n ≤ n') :
    e.Like (H.pairs j) k n' e' :=
  ⟨h.site.later hij hn, H.pairs_later hij _ _ h.root, h.level⟩

namespace Build

theorem onHeap_alike {ε α β : Type} {Q : ι → α → β → Prop} (wrap : ε → Error)
    {x : EStateM ε σ α} {y : EStateM ε σ β} (h : H.Alike i Q x y) :
    (H.worlds k).Alike (i, n) (fun p => Q p.1) (Build.onHeap wrap x) (Build.onHeap wrap y) := by
  rintro ⟨j, n'⟩ ⟨hij, -⟩ w w' ⟨hheap, hcontext, hn⟩
  have hends := h j hij _ _ hheap
  rw [onHeap, onHeap]
  generalize x w.heap = r at hends ⊢
  generalize y w'.heap = r' at hends ⊢
  cases hends with
  | @ok l a b h h' hjl hQ hheap =>
    exact .ok (j := (l, n')) ⟨hjl, Nat.le_refl n'⟩ hQ
      ⟨hheap, hcontext.mono (H.pairs_later hjl), hn⟩
  | @error l e h h' hjl hheap =>
    exact .error (j := (l, n')) ⟨hjl, Nat.le_refl n'⟩
      ⟨hheap, hcontext.mono (H.pairs_later hjl), hn⟩

/-- Answers that are alike in worlds that belong together. -/
theorem ofExcept_alike {α β : Type} {Q : ι × Nat → α → β → Prop} {answer : World σ → Except Error α}
    {answer' : World σ → Except Error β}
    (h : ∀ p w w', (H.worlds k).le (i, n) p → (H.worlds k).states p w w' →
      (∃ a b, answer w = .ok a ∧ answer' w' = .ok b ∧ Q p a b) ∨
        ∃ e, answer w = .error e ∧ answer' w' = .error e) :
    (H.worlds k).Alike (i, n) Q (Build.ofExcept answer) (Build.ofExcept answer') := by
  intro p hp w w' hw
  rw [ofExcept, ofExcept]
  rcases h p w w' hp hw with ⟨a, b, ha, hb, hQ⟩ | ⟨e, ha, hb⟩
  · rw [ha, hb]
    exact .ok ((H.worlds k).refl p) hQ hw
  · rw [ha, hb]
    exact .error ((H.worlds k).refl p) hw

/-- An answer that asks nothing of the world. -/
theorem ofExcept_const_alike {α : Type} (answer : Except Error α) :
    (H.worlds k).Alike (i, n) (fun _ a b => a = b ∧ answer = .ok a)
      (Build.ofExcept fun _ : World σ => answer) (Build.ofExcept fun _ : World σ => answer) := by
  refine ofExcept_alike fun p w w' _ _ => ?_
  cases answer with
  | ok a => exact .inl ⟨a, a, rfl, rfl, rfl, rfl⟩
  | error e => exact .inr ⟨e, rfl, rfl⟩

end Build

/-! ## Calls -/

namespace Services

theorem adopt_apply (services : Services σ) (around : Option ScopeId) (type : TypeName)
    (id : ObjectId) (supplied : Bool) (w : World σ) :
    services.adopt around type id supplied w =
      if !services.host.collects w.heap id && (services.schema.traits type).collection then
        .error (.member (.missingCapability type .collection))
          (w.setScopes (services.settle around type id supplied w.context.scopes).2)
      else .ok {
          object := id
          collects := services.host.collects w.heap id
          scope := (services.settle around type id supplied w.context.scopes).1 }
        (w.setScopes (services.settle around type id supplied w.context.scopes).2) := by
  simp only [adopt, Build.always, Action.bind_apply, Action.get_apply, World.setScopes]
  split <;> rfl

theorem register_alike {id id' : ObjectId} (hid : H.pairs i id id') (name : Option String)
    {scope scope' : Option ScopeId} (hscope : scope' = scope.map (ScopeId.shift k))
    (hknown : ∀ s, scope = some s → s.index < n) :
    (H.worlds k).Alike (i, n) (fun _ _ _ => True) (Services.register name scope id)
      (Services.register name scope' id') := by
  subst hscope
  cases name with
  | none => exact .pure fun _ _ => trivial
  | some name =>
    cases scope with
    | none => exact .pure fun _ _ => trivial
    | some s =>
      rintro ⟨j, n'⟩ ⟨hij, hn⟩ w w' ⟨hheap, hcontext, hlength⟩
      have hlt : s.index < w.context.scopes.scopes.length := by
        have := hknown s rfl
        simp only at hn hlength
        omega
      simp only [Services.register, Option.map_some, Action.bind_apply, Action.get_apply]
      rcases hcontext.scopes.register hlt (H.pairs_later hij _ _ hid) name with
        ⟨e, he, he'⟩ | ⟨after, after', hafter, hafter', hlike⟩
      · rw [he, he']
        exact .error ((H.worlds k).refl _) ⟨hheap, hcontext, hlength⟩
      · rw [hafter, hafter']
        refine .ok ((H.worlds k).refl _) trivial ⟨hheap, { hcontext with scopes := hlike }, ?_⟩
        exact Nat.le_trans hlength (Namescopes.register_grows hafter).length

theorem loaderOf_alike (services : Services σ) (m : Member) :
    (H.worlds k).Alike (i, n)
      (fun _ a b => a = b ∧ ∀ loader, a = some loader → services.loaders.find? m = some loader)
      (Build.ofExcept fun _ : World σ => services.loaderOf m)
      (Build.ofExcept fun _ : World σ => services.loaderOf m) := by
  refine (Build.ofExcept_const_alike (services.loaderOf m)).imp fun p a b _ h => ⟨h.1, ?_⟩
  rintro loader rfl
  exact services.loaderOf_ok h.2

namespace Respects

variable {services : Services σ}

section

variable (hs : services.Respects H)

include hs

variable {id id' : ObjectId} {site site' : Site} {vs vs' : List Value}

theorem commit (hid : H.pairs i id id') (hvs : Forall₂ (Value.Like (H.pairs i)) vs vs')
    (collects : Bool) (m : Member) :
    (H.worlds k).Alike (i, n) (fun _ _ _ => True) (services.commit id collects m vs none)
      (services.commit id' collects m vs' none) := by
  refine .bind (Build.onHeap_alike _ (hs.commitValues hid hvs collects m))
    fun p v v' hp hv => .update fun q hpq w w' hw => ?_
  obtain ⟨hheap, hcontext, hn⟩ := hw
  have hrecord : AmbientRecord.Like (H.pairs q.1) ⟨m, v, id⟩ ⟨m, v', id'⟩ :=
    ⟨rfl, hv.mono (H.pairs_later hpq.1), H.pairs_later (H.trans hp.1 hpq.1) _ _ hid⟩
  exact ⟨hheap, { hcontext with
    ambient := List.rel_append hcontext.ambient (.cons hrecord .nil) }, hn⟩

theorem notifyBegin (hid : H.pairs i id id') :
    (H.worlds k).Alike (i, n) (fun _ a b => a = b) (Build.always (services.notifyBegin id))
      (Build.always (services.notifyBegin id')) := by
  rintro ⟨j, n'⟩ ⟨hij, -⟩ w w' ⟨hheap, hcontext, hn⟩
  have hid := H.pairs_later hij _ _ hid
  simp only [Build.always, Services.notifyBegin, hs.listens hheap hid]
  split
  · obtain ⟨l, hjl, hheap⟩ := hs.beginInit hheap hid
    refine .ok (j := (l, n')) ⟨hjl, Nat.le_refl n'⟩ rfl ⟨hheap, ?_, hn⟩
    have hcontext := hcontext.mono (H.pairs_later hjl)
    exact { hcontext with begun := congrArg (· + 1) hcontext.begun }
  · exact .ok ⟨H.refl j, Nat.le_refl n'⟩ rfl ⟨hheap, hcontext, hn⟩

theorem notifyCreated (hid : H.pairs i id id') :
    (H.worlds k).Alike (i, n) (fun _ a b => a = b) (Build.always (services.notifyCreated id))
      (Build.always (services.notifyCreated id')) := by
  rintro ⟨j, n'⟩ ⟨hij, -⟩ w w' ⟨hheap, hcontext, hn⟩
  have hid := H.pairs_later hij _ _ hid
  have hcreated : ∀ {xs xs' : List ObjectId}, Forall₂ (H.pairs j) xs xs' →
      xs'.contains id' = xs.contains id := fun h => by
    induction h with
    | nil => rfl
    | @cons x x' _ _ hx _ ih =>
      have hiff : id' = x' ↔ id = x := (H.oneToOne j _ _ _ _ hid hx).symm
      simp only [List.contains_cons, ih, beq_eq_decide, hiff]
  simp only [Build.always, Services.notifyCreated, hs.listens hheap hid, hcreated hcontext.created]
  split
  · obtain ⟨l, hjl, hheap⟩ := hs.endInit hheap hid
    refine .ok (j := (l, n')) ⟨hjl, Nat.le_refl n'⟩ rfl ⟨hheap, ?_, hn⟩
    have hcontext := hcontext.mono (H.pairs_later hjl)
    exact { hcontext with
      created := List.rel_append hcontext.created (.cons (H.pairs_later hjl _ _ hid) .nil) }
  · exact .ok ⟨H.refl j, Nat.le_refl n'⟩ rfl ⟨hheap, hcontext, hn⟩

theorem construct (type : TypeName) (arguments : List String) :
    (H.worlds k).Alike (i, n) (fun p => H.pairs p.1) (services.construct type arguments)
      (services.construct type arguments) := by
  refine .bind (Build.onHeap_alike _ (hs.activate i type arguments)) fun p id id' hp hid => ?_
  split
  · refine .bind (hs.notifyBegin hid) fun q listens listens' hq hlistens => ?_
    obtain rfl : listens = listens' := hlistens
    cases listens with
    | true => exact .pure fun r hr => H.pairs_later (H.trans hq.1 hr.1) _ _ hid
    | false => exact .throw _
  · exact .pure fun r hr => H.pairs_later hr.1 _ _ hid

/-- Objects are taken over alike if they are settled alike, even where the scopes around them
differ. -/
theorem adopt_ends {w w' : World σ} {around around' : Option ScopeId} (type : TypeName)
    (hheap : H.states i w.heap w'.heap) (hid : H.pairs i id id')
    (hcontext : ∀ ns ns', ns.Like (H.pairs i) k ns' →
      (w.setScopes ns).context.Like (H.pairs i) k (w'.setScopes ns').context)
    (hsettled : SettledAlike (H.pairs i) k
      (services.settle around type id false w.context.scopes)
      (services.settle around' type id' false w'.context.scopes))
    (hn : n ≤ (services.settle around type id false w.context.scopes).2.scopes.length) :
    (H.worlds k).Ends (i, n) (fun p => Site.Like (H.pairs p.1) k p.2)
      (services.adopt around type id false w) (services.adopt around' type id' false w') := by
  have hle : (H.worlds k).le (i, n)
      (i, (services.settle around type id false w.context.scopes).2.scopes.length) :=
    ⟨H.refl i, hn⟩
  rw [adopt_apply, adopt_apply, hs.collects hheap hid]
  split
  · exact .error hle ⟨hheap, hcontext _ _ hsettled.scopes, Nat.le_refl _⟩
  · exact .ok hle ⟨hid, rfl, hsettled.scope, hsettled.known⟩
      ⟨hheap, hcontext _ _ hsettled.scopes, Nat.le_refl _⟩

theorem adopt (hid : H.pairs i id id') {s : ScopeId} (hscope : s.index < n) (type : TypeName) :
    (H.worlds k).Alike (i, n) (fun p => Site.Like (H.pairs p.1) k p.2)
      (services.adopt (some s) type id false) (services.adopt (some (s.shift k)) type id' false) := by
  rintro ⟨j, n'⟩ ⟨hij, hn⟩ w w' ⟨hheap, hcontext, hlength⟩
  have hid := H.pairs_later hij _ _ hid
  have hlt : s.index < w.context.scopes.scopes.length := by
    simp only at hn hlength
    omega
  have hsettled := services.settle_alike (H.oneToOne j) hcontext.scopes hid hlt type
  exact hs.adopt_ends type hheap hid (fun ns ns' h => { hcontext with scopes := h }) hsettled
    (Nat.le_trans hlength (services.settle_grows _ _ _ _ _).length)

theorem make (type : TypeName) (arguments : List String) {s : ScopeId} (hscope : s.index < n) :
    (H.worlds k).Alike (i, n) (fun p => Site.Like (H.pairs p.1) k p.2)
      (services.make (some s) type arguments) (services.make (some (s.shift k)) type arguments) := by
  rw [make_eq, make_eq]
  exact .bind (hs.construct type arguments) fun p id id' hp hid =>
    hs.adopt hid (Nat.lt_of_lt_of_le hscope hp.2) type

/-- An object ends: it is told and named.  `outside` is the scope around it, if it stands in
another object. -/
theorem complete (hsite : site.Like (H.pairs i) k n site') (type : TypeName) (name : Option String)
    {outside : Option (Option ScopeId)}
    (houtside : ∀ s, outside = some (some s) → s.index < n) :
    (H.worlds k).Alike (i, n) (fun _ _ _ => True) (services.complete type name site outside)
      (services.complete type name site' (outside.map (Option.map (ScopeId.shift k)))) := by
  have hscope : services.nameScope type site' (outside.map (Option.map (ScopeId.shift k))) =
      (services.nameScope type site outside).map (ScopeId.shift k) := by
    cases outside with
    | none => simp [nameScope, hsite.scope]
    | some around =>
      simp only [nameScope, Option.map_some]
      split
      · rfl
      · rw [hsite.scope]; rfl
  have hknown : ∀ s, services.nameScope type site outside = some s → s.index < n := by
    intro s hname
    cases outside with
    | none => exact Option.some.inj hname ▸ hsite.known
    | some around =>
      simp only [nameScope] at hname
      split at hname
      · exact houtside s (congrArg some hname)
      · exact Option.some.inj hname ▸ hsite.known
  rw [complete_eq, complete_eq]
  split
  · refine .bind (hs.notifyCreated hsite.object) fun p _ _ hp _ => ?_
    exact (register_alike hsite.object name hscope hknown).later hp
  · exact register_alike hsite.object name hscope hknown

/-- The value that an object stands for in a member of another. -/
theorem valueOf (hsite : site.Like (H.pairs i) k n site') {target target' root root' : ObjectId}
    (htarget : H.pairs i target target') (hroot : H.pairs i root root') (type : TypeName)
    (m : Member) :
    (H.worlds k).Alike (i, n) (fun p v v' => v.Like (H.pairs p.1) v')
      (services.valueOf type site (some target) (some root) (some m))
      (services.valueOf type site' (some target') (some root') (some m)) := by
  rw [Services.valueOf, Services.valueOf]
  split
  · refine .bind .get fun p w w' hp hw => ?_
    obtain ⟨hheap, hcontext, hn⟩ := hw
    have hobject := H.pairs_later hp.1 _ _ hsite.object
    rw [hs.provides hheap hobject]
    split
    · have hplace : Provision.Like (H.pairs p.1) k
          ⟨w.context, some target, some m, some site.scope, some root⟩
          ⟨w'.context, some target', some m, some site'.scope, some root'⟩ := {
        context := hcontext
        target := .some (H.pairs_later hp.1 _ _ htarget)
        member := rfl
        scope := congrArg some hsite.scope
        root := .some (H.pairs_later hp.1 _ _ hroot) }
      exact Build.onHeap_alike .extension (hs.provide hobject hplace)
    · exact .throw _
  · exact .pure fun p hp => .object (H.pairs_later hp.1 _ _ hsite.object)

theorem readLiteral {root root' : ObjectId} (hroot : H.pairs i root root') (m : Member)
    (literal : String) :
    (H.worlds k).Alike (i, n) (fun p v v' => v.Like (H.pairs p.1) v')
      (services.readLiteral (some root) m literal)
      (services.readLiteral (some root') m literal) := by
  refine Build.ofExcept_alike fun p w w' hp hw => ?_
  have hroot := H.pairs_later hp.1 _ _ hroot
  split
  · simp only [wireHandler, hs.handles hw.1 hroot]
    split
    · exact .inl ⟨_, _, rfl, rfl, .handler hroot⟩
    · exact .inr ⟨_, rfl, rfl⟩
  · cases hconvert : services.convert m literal with
    | ok v => exact .inl ⟨v, v, rfl, rfl, hs.convert p.1 m literal v hconvert⟩
    | error e => exact .inr ⟨_, rfl, rfl⟩

end

/-! ## Trees -/

mutual

/-- The value of a tree in a member. -/
theorem evaluateTree (hs : services.Respects H) : (t : Tree) → {i : ι} → {n : Nat} → {e e' : Enclosure} →
    e.Like (H.pairs i) k n e' → (m : Member) →
      (H.worlds k).Alike (i, n) (fun p v v' => v.Like (H.pairs p.1) v')
        (services.evaluateTree e m t) (services.evaluateTree e' m t)
  | .node type name arguments assignments, i, n, e, e', he, m => by
    rw [Services.evaluateTree, Services.evaluateTree, he.level, he.site.scope]
    refine .bind (Build.ofExcept_const_alike _) fun p _ _ hp _ => ?_
    have he := he.later hp.1 hp.2
    refine .bind (hs.make type arguments he.site.known) fun q site site' hq hsite => ?_
    have he := he.later hq.1 hq.2
    have hinner : Enclosure.Like (H.pairs q.1) k q.2
        { e with site, level := e.level + 1 } { e' with site := site', level := e.level + 1 } :=
      ⟨hsite, he.root, rfl⟩
    refine .bind (evaluateAssignments hs assignments hinner) fun r _ _ hr _ => ?_
    have he := he.later hr.1 hr.2
    have hsite := hsite.later hr.1 hr.2
    refine .bind (hs.complete hsite type name fun s h => ?_) fun u _ _ hu _ => ?_
    · exact Option.some.inj (Option.some.inj h) ▸ he.site.known
    · have he := he.later hu.1 hu.2
      exact hs.valueOf (hsite.later hu.1 hu.2) he.site.object he.root type m

theorem evaluateAssignment (hs : services.Respects H) : (a : Assignment) → {i : ι} → {n : Nat} → {e e' : Enclosure} →
    e.Like (H.pairs i) k n e' →
      (H.worlds k).Alike (i, n) (fun _ _ _ => True)
        (services.evaluateAssignment e a) (services.evaluateAssignment e' a)
  | .literal m literal, i, n, e, e', he => by
    rw [Services.evaluateAssignment, Services.evaluateAssignment, he.site.collects]
    refine .bind (services.loaderOf_alike m) fun p loader loader' hp hloader => ?_
    obtain ⟨rfl, hfind⟩ := hloader
    have he := he.later hp.1 hp.2
    have hcommit : ∀ q v v', (H.worlds k).le p q → v.Like (H.pairs q.1) v' →
        (H.worlds k).Alike q (fun _ _ _ => True)
          (services.commit e.site.object e.site.collects m [v] none)
          (services.commit e'.site.object e.site.collects m [v'] none) := fun q v v' hq hv =>
      hs.commit (he.later hq.1 hq.2).site.object (.cons hv .nil) _ m
    cases loader with
    | some loader =>
      exact .bind (Build.onHeap_alike .deferred (hs.loader p.1 m loader (hfind loader rfl) _)) hcommit
    | none => exact .bind (hs.readLiteral he.root m literal) hcommit
  | .children m trees, i, n, e, e', he => by
    rw [Services.evaluateAssignment, Services.evaluateAssignment, he.site.collects]
    refine .bind (services.loaderOf_alike m) fun p loader loader' hp hloader => ?_
    obtain ⟨rfl, hfind⟩ := hloader
    have he := he.later hp.1 hp.2
    have hcommit : ∀ q vs vs', (H.worlds k).le p q → Forall₂ (Value.Like (H.pairs q.1)) vs vs' →
        (H.worlds k).Alike q (fun _ _ _ => True)
          (services.commit e.site.object e.site.collects m vs none)
          (services.commit e'.site.object e.site.collects m vs' none) := fun q vs vs' hq hvs =>
      hs.commit (he.later hq.1 hq.2).site.object hvs _ m
    cases loader with
    | some loader =>
      exact .bind (Build.onHeap_alike .deferred (hs.loader p.1 m loader (hfind loader rfl) _))
        fun q v v' hq hv => hcommit q [v] [v'] hq (.cons hv .nil)
    | none => exact .bind (evaluateTrees hs trees he m) hcommit

theorem evaluateAssignments (hs : services.Respects H) : (as : List Assignment) → {i : ι} → {n : Nat} →
    {e e' : Enclosure} → e.Like (H.pairs i) k n e' →
      (H.worlds k).Alike (i, n) (fun _ _ _ => True)
        (services.evaluateAssignments e as) (services.evaluateAssignments e' as)
  | [], i, n, e, e', he => .pure fun _ _ => trivial
  | a :: as, i, n, e, e', he => by
    rw [Services.evaluateAssignments, Services.evaluateAssignments]
    exact .bind (evaluateAssignment hs a he) fun p _ _ hp _ =>
      evaluateAssignments hs as (he.later hp.1 hp.2)

theorem evaluateTrees (hs : services.Respects H) : (ts : List Tree) → {i : ι} → {n : Nat} → {e e' : Enclosure} →
    e.Like (H.pairs i) k n e' → (m : Member) →
      (H.worlds k).Alike (i, n) (fun p => Forall₂ (Value.Like (H.pairs p.1)))
        (services.evaluateTrees e m ts) (services.evaluateTrees e' m ts)
  | [], i, n, e, e', he, m => .pure fun _ _ => .nil
  | t :: ts, i, n, e, e', he, m => by
    rw [Services.evaluateTrees, Services.evaluateTrees]
    refine .bind (evaluateTree hs t he m) fun p v v' hp hv => ?_
    refine .bind (evaluateTrees hs ts (he.later hp.1 hp.2) m) fun q vs vs' hq hvs => ?_
    exact .pure fun r hr =>
      .cons (hv.mono (H.pairs_later (H.trans hq.1 hr.1)))
        (Value.Like.monoAll (H.pairs_later hr.1) hvs)

end

end Respects
end Services
end ObjectMarkup
