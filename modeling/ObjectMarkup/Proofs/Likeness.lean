/-
Heaps that hold the same objects under different identities.

A `Likeness` says which heaps belong together at a stage of two constructions, and which objects of
them are the same: these are paired one to one, and more of them are paired later.  Services respect
a likeness when they do the same to what belongs together (`Services.Respects`).  Two constructions
then do the same, call by call, and end with the same error or with values, heaps and records that
are the same up to the pairing.

The scopes of one construction may have been made `k` scopes later than those of the other, so that
their indices differ.  An extension is shown the scopes and has to do without the indices.
-/
import Mathlib.Data.List.Forall2
import ObjectMarkup.Proofs.Alike
import ObjectMarkup.Proofs.Namescopes
import ObjectMarkup.World.Commit
import ObjectMarkup.World.Site

namespace ObjectMarkup

open List (Forall₂)

variable {R R' : ObjectId → ObjectId → Prop} {k : Nat}

/-! ## Values -/

/-- Values that are the same but for the objects in them, which are paired by `R`. -/
inductive Value.Like (R : ObjectId → ObjectId → Prop) : Value → Value → Prop
  | null : Like R .null .null
  | bool (b : Bool) : Like R (.bool b) (.bool b)
  | int (n : Int) : Like R (.int n) (.int n)
  | float (x : Float) : Like R (.float x) (.float x)
  | str (s : String) : Like R (.str s) (.str s)
  | type (name : TypeName) : Like R (.type name) (.type name)
  | object {id id' : ObjectId} : R id id' → Like R (.object id) (.object id')
  | list {vs vs' : List Value} : Forall₂ (Like R) vs vs' → Like R (.list vs) (.list vs')
  | handler {name : String} {id id' : ObjectId} :
      R id id' → Like R (.handler ⟨name, id⟩) (.handler ⟨name, id'⟩)

namespace Value.Like

mutual

theorem mono (hR : ∀ a b, R a b → R' a b) : {v v' : Value} → v.Like R v' → v.Like R' v'
  | _, _, .null => .null
  | _, _, .bool b => .bool b
  | _, _, .int n => .int n
  | _, _, .float x => .float x
  | _, _, .str s => .str s
  | _, _, .type name => .type name
  | _, _, .object h => .object (hR _ _ h)
  | _, _, .list hs => .list (monoAll hR hs)
  | _, _, .handler h => .handler (hR _ _ h)

theorem monoAll (hR : ∀ a b, R a b → R' a b) :
    {vs vs' : List Value} → Forall₂ (Like R) vs vs' → Forall₂ (Like R') vs vs'
  | _, _, .nil => .nil
  | _, _, .cons h hs => .cons (mono hR h) (monoAll hR hs)

end

theorem items {v v' : Value} (h : v.Like R v') : Forall₂ (Like R) v.items v'.items := by
  cases h with
  | list hs => exact hs
  | object h | handler h => exact .cons (by constructor; exact h) .nil
  | _ => exact .cons (by constructor) .nil

theorem allItems {vs vs' : List Value} (h : Forall₂ (Like R) vs vs') :
    Forall₂ (Like R) (vs.flatMap Value.items) (vs'.flatMap Value.items) := by
  induction h with
  | nil => exact .nil
  | cons hv _ ih => exact List.rel_append hv.items ih

theorem summary {vs vs' : List Value} (h : Forall₂ (Like R) vs vs') :
    (Services.summary vs).Like R (Services.summary vs') := by
  cases h with
  | nil => exact .list .nil
  | cons hv hvs =>
    cases hvs with
    | nil => exact hv
    | cons hw hws => exact .list (.cons hv (.cons hw hws))

theorem wholeList {vs vs' : List Value} (h : Forall₂ (Like R) vs vs') :
    (Services.wholeList vs).Like R (Services.wholeList vs') := by
  have hone : ∀ v, Services.wholeList [v] = .list v.items := fun v => by cases v <;> rfl
  have hmany : ∀ v w ws, Services.wholeList (v :: w :: ws) = .list (v :: w :: ws) :=
    fun v w ws => by cases v <;> rfl
  cases h with
  | nil => exact .list .nil
  | cons hv hvs =>
    cases hvs with
    | nil =>
      rw [hone, hone]
      exact .list hv.items
    | cons hw hws =>
      rw [hmany, hmany]
      exact .list (.cons hv (.cons hw hws))

end Value.Like

/-! ## Contexts -/

/-- The scope that was made `k` scopes later. -/
def ScopeId.shift (k : Nat) (s : ScopeId) : ScopeId := ⟨s.index + k⟩

/-- A name of a scope, or a name beside another, and the object that has it. -/
def SameName (R : ObjectId → ObjectId → Prop) (e e' : String × ObjectId) : Prop :=
  e'.1 = e.1 ∧ R e.2 e'.2

def SamePlace (R : ObjectId → ObjectId → Prop) (k : Nat) (e e' : ObjectId × ScopeId) : Prop :=
  R e.1 e'.1 ∧ e'.2 = e.2.shift k

/-- The scope around a scope is the same, after `k` others; where there is none it may be one of
those. -/
def SameParent (k : Nat) (parent parent' : Option ScopeId) : Prop :=
  parent' = parent.map (ScopeId.shift k) ∨ parent = none ∧ ∃ q, parent' = some q ∧ q.index < k

structure Scope.Like (R : ObjectId → ObjectId → Prop) (k : Nat) (s s' : Scope) : Prop where
  owner : Option.Rel R s.owner s'.owner
  parent : SameParent k s.parent s'.parent
  names : Forall₂ (SameName R) s.names s'.names

/-- The scopes are the same, after `k` others with nothing in them.  Nothing is said of the scope of
the document. -/
structure Namescopes.Like (R : ObjectId → ObjectId → Prop) (k : Nat) (ns ns' : Namescopes) :
    Prop where
  length : ns'.scopes.length = ns.scopes.length + k
  before : ∀ i, i < k → ns'.scopes[i]? = some {}
  scopes : ∀ i, Option.Rel (Scope.Like R k) ns.scopes[i]? ns'.scopes[i + k]?
  owned : Forall₂ (SamePlace R k) ns.owned ns'.owned
  entered : Forall₂ (SamePlace R k) ns.entered ns'.entered

structure AmbientRecord.Like (R : ObjectId → ObjectId → Prop) (r r' : AmbientRecord) : Prop where
  member : r'.member = r.member
  value : r.value.Like R r'.value
  owner : R r.owner r'.owner

structure Context.Like (R : ObjectId → ObjectId → Prop) (k : Nat) (c c' : Context) : Prop where
  scopes : c.scopes.Like R k c'.scopes
  ambient : Forall₂ (AmbientRecord.Like R) c.ambient.records c'.ambient.records
  begun : c'.lifecycle.begun = c.lifecycle.begun
  created : Forall₂ R c.lifecycle.created c'.lifecycle.created

/-- What two extensions see that stand in the same place. -/
structure Provision.Like (R : ObjectId → ObjectId → Prop) (k : Nat) (p p' : Provision) : Prop where
  context : p.context.Like R k p'.context
  target : Option.Rel R p.target p'.target
  member : p'.member = p.member
  scope : p'.scope = p.scope.map (ScopeId.shift k)
  root : Option.Rel R p.root p'.root

theorem optionRel_mono {α β : Type} {P Q : α → β → Prop} (hPQ : ∀ a b, P a b → Q a b)
    {a : Option α} {b : Option β} (h : Option.Rel P a b) : Option.Rel Q a b := by
  cases h with
  | none => exact .none
  | some h => exact .some (hPQ _ _ h)

theorem Context.Like.mono (hR : ∀ a b, R a b → R' a b) {c c' : Context} (h : c.Like R k c') :
    c.Like R' k c' where
  scopes := {
    length := h.scopes.length
    before := h.scopes.before
    scopes := fun i => optionRel_mono (fun _ _ hs => {
      owner := optionRel_mono hR hs.owner
      parent := hs.parent
      names := hs.names.imp fun _ _ he => ⟨he.1, hR _ _ he.2⟩ }) (h.scopes.scopes i)
    owned := h.scopes.owned.imp fun _ _ he => ⟨hR _ _ he.1, he.2⟩
    entered := h.scopes.entered.imp fun _ _ he => ⟨hR _ _ he.1, he.2⟩ }
  ambient := h.ambient.imp fun _ _ hr => ⟨hr.member, hr.value.mono hR, hR _ _ hr.owner⟩
  begun := h.begun
  created := h.created.imp hR

/-! ## Services -/

/-- No object is paired with two. -/
def OneToOne (R : ObjectId → ObjectId → Prop) : Prop :=
  ∀ a a' b b', R a a' → R b b' → (a = b ↔ a' = b')

/-- Which heaps belong together, and which of their objects are paired.  Objects that are paired
stay so. -/
structure Likeness (ι σ : Type) extends Link ι σ σ where
  pairs : ι → ObjectId → ObjectId → Prop
  pairs_later : ∀ {i j}, le i j → ∀ a b, pairs i a b → pairs j a b
  oneToOne : ∀ i, OneToOne (pairs i)

variable {ι σ : Type}

/-- The services do the same to heaps that belong together.  In particular an extension makes the
same of two places whose scopes differ in their indices only. -/
structure Services.Respects (services : Services σ) (H : Likeness ι σ) : Prop where
  typeOf : ∀ {i h h' id id'}, H.states i h h' → H.pairs i id id' →
    services.host.typeOf h' id' = services.host.typeOf h id
  getMember : ∀ {i h h' id id'}, H.states i h h' → H.pairs i id id' → ∀ m,
    Option.Rel (Value.Like (H.pairs i)) (services.host.getMember h id m)
      (services.host.getMember h' id' m)
  collects : ∀ {i h h' id id'}, H.states i h h' → H.pairs i id id' →
    services.host.collects h' id' = services.host.collects h id
  listens : ∀ {i h h' id id'}, H.states i h h' → H.pairs i id id' →
    services.host.listens h' id' = services.host.listens h id
  provides : ∀ {i h h' id id'}, H.states i h h' → H.pairs i id id' →
    services.host.provides h' id' = services.host.provides h id
  handles : ∀ {i h h' id id'}, H.states i h h' → H.pairs i id id' → ∀ name,
    services.host.handles h' id' name = services.host.handles h id name
  activate : ∀ i type arguments,
    H.Alike i H.pairs (services.activate type arguments) (services.activate type arguments)
  setMember : ∀ {i id id' v v'}, H.pairs i id id' → v.Like (H.pairs i) v' → ∀ m,
    H.Alike i (fun _ _ _ => True) (services.host.setMember id m v)
      (services.host.setMember id' m v')
  setAttached : ∀ {i id id' v v'}, H.pairs i id id' → v.Like (H.pairs i) v' → ∀ m,
    H.Alike i (fun _ _ _ => True) (services.host.setAttached id m v)
      (services.host.setAttached id' m v')
  append : ∀ {i id id' v v'}, H.pairs i id id' → v.Like (H.pairs i) v' →
    H.Alike i (fun _ _ _ => True) (services.host.append id v) (services.host.append id' v')
  beginInit : ∀ {i h h' id id'}, H.states i h h' → H.pairs i id id' →
    ∃ j, H.le i j ∧ H.states j (services.host.beginInit id h) (services.host.beginInit id' h')
  endInit : ∀ {i h h' id id'}, H.states i h h' → H.pairs i id id' →
    ∃ j, H.le i j ∧ H.states j (services.host.endInit id h) (services.host.endInit id' h')
  provide : ∀ {i id id' k p p'}, H.pairs i id id' → p.Like (H.pairs i) k p' →
    H.Alike i (fun j v v' => v.Like (H.pairs j) v') (services.host.provide id p)
      (services.host.provide id' p')
  convert : ∀ i m s v, services.convert m s = .ok v → v.Like (H.pairs i) v
  loader : ∀ i m loader, services.loaders.find? m = some loader → ∀ stream,
    H.Alike i (fun j v v' => v.Like (H.pairs j) v') (loader m stream) (loader m stream)

namespace Services.Respects

variable {services : Services σ} {H : Likeness ι σ} {i : ι}

/-! ## Commitments -/

section

variable (hs : services.Respects H)

include hs

variable {id id' : ObjectId} {v v' : Value} {vs vs' : List Value}

theorem assign (hid : H.pairs i id id') (hv : v.Like (H.pairs i) v') (m : Member) :
    H.Alike i (fun _ _ _ => True) (services.assign id m v) (services.assign id' m v') := by
  rw [Services.assign, Services.assign]
  split
  · exact hs.setAttached hid hv m
  · exact hs.setMember hid hv m

theorem appendEach (hid : H.pairs i id id') (hvs : Forall₂ (Value.Like (H.pairs i)) vs vs') :
    H.Alike i (fun _ _ _ => True) (services.appendEach id vs) (services.appendEach id' vs') := by
  induction hvs with
  | nil => exact .pure fun _ _ => trivial
  | cons hv _ ih => exact .bind (hs.append hid hv) fun j _ _ hij _ => ih.later hij

theorem appendAll (hid : H.pairs i id id') (hvs : Forall₂ (Value.Like (H.pairs i)) vs vs')
    (m : Member) :
    H.Alike i (fun _ _ _ => True) (services.appendAll id m vs) (services.appendAll id' m vs') := by
  refine .bind .get fun j h h' hij hstates => ?_
  rw [hs.collects hstates (H.pairs_later hij _ _ hid)]
  split
  · exact (hs.appendEach hid (Value.Like.allItems hvs)).later hij
  · exact .throw _

theorem liveCollection {h h' : σ} (hstates : H.states i h h') (hid : H.pairs i id id')
    (m : Member) :
    Option.Rel (H.pairs i) (services.liveCollection h id m) (services.liveCollection h' id' m) := by
  rw [Services.liveCollection, Services.liveCollection]
  have hget := hs.getMember hstates hid m
  generalize services.host.getMember h id m = a at hget ⊢
  generalize services.host.getMember h' id' m = a' at hget ⊢
  cases hget with
  | none => exact .none
  | some hv => cases hv with
    | object hc =>
      simp only [hs.collects hstates hc]
      split
      · exact .some hc
      · exact .none
    | _ => exact .none

theorem commitMany (hid : H.pairs i id id') (hvs : Forall₂ (Value.Like (H.pairs i)) vs vs')
    (m : Member) : H.Alike i (fun j v v' => v.Like (H.pairs j) v') (services.commitMany id m vs)
      (services.commitMany id' m vs') := by
  refine .bind .get fun j h h' hij hstates => ?_
  have hid := H.pairs_later hij _ _ hid
  have hvs := Value.Like.monoAll (H.pairs_later hij) hvs
  have hlive := hs.liveCollection hstates hid m
  generalize services.liveCollection h id m = c at hlive ⊢
  generalize services.liveCollection h' id' m = c' at hlive ⊢
  cases hlive with
  | none =>
    refine .bind (hs.assign hid (Value.Like.wholeList hvs) m) fun j _ _ hij _ => ?_
    exact .pure fun l hjl =>
      (Value.Like.wholeList hvs).mono (H.pairs_later (H.trans hij hjl))
  | some hc =>
    refine .bind (hs.appendAll hc hvs m) fun j _ _ hij _ => .pure fun l hjl => ?_
    have hempty : vs'.isEmpty = vs.isEmpty := by cases hvs <;> rfl
    rw [hempty]
    split
    · exact .object (H.pairs_later (H.trans hij hjl) _ _ hc)
    · exact (Value.Like.summary hvs).mono (H.pairs_later (H.trans hij hjl))

theorem commitItems (hid : H.pairs i id id') (hvs : Forall₂ (Value.Like (H.pairs i)) vs vs')
    (collects : Bool) (m : Member) :
    H.Alike i (fun j v v' => v.Like (H.pairs j) v') (services.commitItems id collects m vs)
      (services.commitItems id' collects m vs') := by
  rw [Services.commitItems, Services.commitItems]
  split
  · refine .bind (hs.appendAll hid hvs m) fun j _ _ hij _ => .pure fun l hjl => ?_
    exact (Value.Like.summary hvs).mono (H.pairs_later (H.trans hij hjl))
  · refine .bind .get fun j h h' hij hstates => ?_
    rw [hs.typeOf hstates (H.pairs_later hij _ _ hid)]
    exact .throw _

theorem commitValues (hid : H.pairs i id id') (hvs : Forall₂ (Value.Like (H.pairs i)) vs vs')
    (collects : Bool) (m : Member) :
    H.Alike i (fun j v v' => v.Like (H.pairs j) v')
      (services.commitValues id collects m vs none)
      (services.commitValues id' collects m vs' none) := by
  unfold Services.commitValues
  split
  · exact hs.commitItems hid hvs collects m
  · split
    · exact hs.commitMany hid hvs m
    · cases hvs with
      | nil => exact .throw _
      | cons hv hws =>
        cases hws with
        | nil =>
          refine .bind (hs.assign hid hv m) fun j _ _ hij _ => .pure fun l hjl => ?_
          exact hv.mono (H.pairs_later (H.trans hij hjl))
        | cons hw hws =>
          have hlength := hws.length_eq
          simp only [List.length_cons, hlength]
          exact .throw _

end

end Services.Respects
end ObjectMarkup
