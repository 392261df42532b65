/-
A stream that is materialized does what the build of its tree does.

A build puts a first object that opens no scope into the scope of the document; a stream that is
materialized has a scope of its own instead.  In a fresh context either is the first scope, and
nothing else differs.  Where the first object opens a scope, that of the stream stays empty before
it, and all other scopes have the next index.  Both cases go on as two constructions side by side,
with no scope between them or with one.
-/
import ObjectMarkup.Proofs.Aftermath
import ObjectMarkup.Proofs.Parallel
import ObjectMarkup.Proofs.Recursion

namespace ObjectMarkup

open List (Forall₂)
open Machine (blank)

variable {σ ι : Type}

/-- The second outcome is that of the first construction done again: the same error, or objects that
are paired, in heaps that belong together, and the same known of all objects, but for `k` scopes. -/
inductive Likeness.Replays (H : Likeness ι σ) (i : ι) :
    EStateM.Result Error (World σ) ObjectId → EStateM.Result Error (World σ) ObjectId → Prop
  | failed {e : Error} {w w' : World σ} : Replays H i (.error e w) (.error e w')
  | built {j : ι} {k : Nat} {id id' : ObjectId} {w w' : World σ} :
      H.le i j → H.pairs j id id' → H.states j w.heap w'.heap →
      w.context.Like (H.pairs j) k w'.context → Replays H i (.ok id w) (.ok id' w')

theorem Likeness.Replays.of_ends {H : Likeness ι σ} {i j : ι} {k n : Nat} (hij : H.le i j)
    {r r' : EStateM.Result Error (World σ) ObjectId}
    (h : (H.worlds k).Ends (j, n) (fun p => H.pairs p.1) r r') : H.Replays i r r' := by
  cases h with
  | error _ _ => exact .failed
  | ok hle hid hw => exact .built (H.trans hij hle.1) hid hw.1 hw.2.1

namespace Services

variable (services : Services σ)

/-! ## A tree in a scope -/

/-- Builds a tree whose assignments are in order inside the scope `base`, or else in that of the
document. -/
def evaluateIn (base : Option ScopeId) : Tree → Build σ ObjectId
  | .node type name arguments assignments => do
    Build.ofExcept fun _ => services.checkStart type 1
    let site ← services.make base type arguments
    services.evaluateAssignments { site, root := site.object, level := 1 } assignments
    services.complete type name site none
    return site.object

theorem drive_treeIn (t : Tree) (w : World σ) (base : Option ScopeId) :
    services.drive t.instructions (blank w none base) =
      closed w base <$> services.evaluateIn base t := by
  obtain ⟨type, name, arguments, assignments⟩ := t
  have hready : ∀ site : Site,
      ((startFrame { type, name, arguments }).setSite site).Ready site := fun site =>
    ⟨rfl, rfl, rfl, rfl, rfl⟩
  have hmembers : ∀ site : Site,
      services.drive (Assignment.instructionsAll assignments ++ [.endObject])
          ((blank w none base).openObject
            ((startFrame { type, name, arguments }).setSite site)) =
        services.evaluateAssignments { site, root := site.object, level := 1 } assignments >>=
          fun _ => services.complete type name site none >>= fun _ =>
            pure (closed w base site.object) := fun site =>
    services.drive_root_members w base (hready site) assignments
  rw [Tree.instructions, drive_first_start]
  simp only [hmembers]
  rw [evaluateIn, map_bind]
  refine congrArg _ (funext fun _ => ?_)
  simp only [map_bind, map_pure]

/-- Carrying out the stream of a tree is evaluating the tree, in whatever scope. -/
theorem run_instructions (t : Tree) (base : Option ScopeId) :
    services.run t.instructions none base = services.evaluateIn base t := by
  funext w
  rw [run_eq_drive services t.instructions none base w, drive_treeIn, bind_map_left]
  exact congrFun (bind_pure _) w

/-! ## In fresh contexts -/

variable {services} {H : Likeness ι σ} {i : ι}

theorem fresh_like (R : ObjectId → ObjectId → Prop) :
    ({} : Context).Like R 1 { scopes := (({} : Namescopes).create none none).2 } where
  scopes := {
    length := rfl
    before := fun i hi => by
      obtain rfl : i = 0 := by omega
      rfl
    scopes := fun _ => .none
    owned := .nil
    entered := .nil }
  ambient := .nil
  begun := rfl
  created := .nil

/-- A first object is put alone into a scope by either construction, which is its own or not. -/
theorem settle_fresh (type : TypeName) {R : ObjectId → ObjectId → Prop} {id id' : ObjectId}
    (hid : R id id') : ∃ k, SettledAlike R k (services.settle none type id false {})
      (services.settle (some (({} : Namescopes).create none none).1) type id' false
        (({} : Namescopes).create none none).2) := by
  cases hopens : services.opensScope type false with
  | true =>
    rw [settle_of_opens _ _ _ _ _ _ hopens, settle_of_opens _ _ _ _ _ _ hopens]
    have hparent : SameParent 1 none (some (({} : Namescopes).create none none).1) :=
      .inr ⟨rfl, _, rfl, Nat.zero_lt_one⟩
    exact ⟨1, (fresh_like R).scopes.create (.some hid) hparent, rfl, Nat.zero_lt_one⟩
  | false =>
    rw [settle_of_not_opens _ _ _ _ _ _ hopens, settle_of_not_opens _ _ _ _ _ _ hopens]
    refine ⟨0, ⟨rfl, fun i hi => absurd hi (Nat.not_lt_zero i), fun n => ?_, .nil,
      .cons ⟨hid, rfl⟩ .nil⟩, rfl, Nat.zero_lt_one⟩
    cases n with
    | zero => exact .some ⟨.none, .inl rfl, .nil⟩
    | succ n => exact .none

/-- After its object is there, a tree goes on alike. -/
theorem Respects.evaluateRest (hs : services.Respects H) {k n : Nat} {site site' : Site}
    (hsite : site.Like (H.pairs i) k n site') (type : TypeName) (name : Option String)
    (assignments : List Assignment) :
    (H.worlds k).Alike (i, n) (fun p => H.pairs p.1)
      (services.evaluateAssignments { site, root := site.object, level := 1 } assignments >>=
        fun _ => services.complete type name site none >>= fun _ => pure site.object)
      (services.evaluateAssignments { site := site', root := site'.object, level := 1 }
        assignments >>= fun _ => services.complete type name site' none >>= fun _ =>
          pure site'.object) := by
  refine .bind (evaluateAssignments hs assignments ⟨hsite, hsite.object, rfl⟩) fun p _ _ hp _ => ?_
  have hsite := hsite.later hp.1 hp.2
  refine .bind (hs.complete hsite type name fun s h => by cases h) fun q _ _ hq _ => ?_
  exact .pure fun r hr => H.pairs_later (H.trans hq.1 hr.1) _ _ hsite.object

/-- In fresh contexts a tree is built alike with a scope of its own and without one. -/
theorem Respects.evaluateIn_fresh (hs : services.Respects H) {h h' : σ} (hheap : H.states i h h')
    (t : Tree) : H.Replays i (services.evaluateIn none t { heap := h })
      (services.evaluateIn (some (({} : Namescopes).create none none).1) t
        { heap := h', context := { scopes := (({} : Namescopes).create none none).2 } }) := by
  obtain ⟨type, name, arguments, assignments⟩ := t
  -- until the object is put into a scope, there is one scope between the worlds
  have hconstruct := hs.construct (k := 1) (n := 0) type arguments (i, 0) ((H.worlds 1).refl _)
    { heap := h } { heap := h', context := { scopes := (({} : Namescopes).create none none).2 } }
    ⟨hheap, fresh_like _, Nat.le_refl 0⟩
  simp only [evaluateIn, make_eq, bind_assoc]
  rw [Action.bind_apply, Action.bind_apply]
  simp only [Build.ofExcept]
  cases services.checkStart type 1 with
  | error e => exact .failed
  | ok _ =>
    simp only []
    rw [Action.bind_apply, Action.bind_apply]
    generalize hx : services.construct type arguments _ = r at hconstruct ⊢
    generalize hx' : services.construct type arguments _ = r' at hconstruct ⊢
    cases hconstruct with
    | error _ _ => exact .failed
    | @ok p id id' v v' hp hid hv =>
      obtain ⟨hheap, hcontext, -⟩ := hv
      obtain ⟨k, hsettled⟩ := services.settle_fresh type hid
      have hbefore : v.context.scopes = {} := services.construct_scopes hx
      have hbefore' : v'.context.scopes = (({} : Namescopes).create none none).2 :=
        services.construct_scopes hx'
      have hadopt := hs.adopt_ends (k := k) (n := 0) type hheap hid
        (fun ns ns' hns => { hcontext with scopes := hns })
        (by rw [hbefore, hbefore']; exact hsettled) (Nat.zero_le _)
      exact .of_ends hp.1 (hadopt.bind fun q site site' hq hsite =>
        hs.evaluateRest hsite type name assignments)

/-- What is materialized from the stream of a tree is what the build of the tree builds. -/
theorem Respects.materialize_replays (hs : services.Respects H) {h h' : σ}
    (hheap : H.states i h h') {t : Tree} {stream : List Instruction} (hwrite : t.write = .ok stream) :
    H.Replays i (services.build t none { heap := h })
      (services.materialize stream { heap := h' }) := by
  rw [Tree.write] at hwrite
  obtain ⟨t', hsort, rfl⟩ := Answer.map_eq_ok.1 hwrite
  have hbuild : services.build t none { heap := h } = services.evaluateIn none t' { heap := h } := by
    rw [build, Tree.write, hsort, ← run_instructions]
    rfl
  have hmaterialize : services.materialize t'.instructions { heap := h' } =
      services.evaluateIn (some (({} : Namescopes).create none none).1) t'
        { heap := h', context := { scopes := (({} : Namescopes).create none none).2 } } := by
    rw [← run_instructions]
    rfl
  rw [hbuild, hmaterialize]
  exact hs.evaluateIn_fresh hheap t'

end Services

/-! ## From one heap

Where a stream is materialized from the heap from which its tree is built, no object has to be
renamed.  All that is asked of the services then is that extensions do without the indices. -/

namespace Value.Like

mutual

theorem refl : (v : Value) → v.Like Eq v
  | .null => .null
  | .bool b => .bool b
  | .int n => .int n
  | .float x => .float x
  | .str s => .str s
  | .type name => .type name
  | .object _ => .object rfl
  | .list vs => .list (reflAll vs)
  | .handler ⟨_, _⟩ => .handler rfl

theorem reflAll : (vs : List Value) → Forall₂ (Like Eq) vs vs
  | [] => .nil
  | v :: vs => .cons (refl v) (reflAll vs)

end

mutual

theorem eq : {v v' : Value} → v.Like Eq v' → v = v'
  | _, _, .null => rfl
  | _, _, .bool _ => rfl
  | _, _, .int _ => rfl
  | _, _, .float _ => rfl
  | _, _, .str _ => rfl
  | _, _, .type _ => rfl
  | _, _, .object h => congrArg Value.object h
  | _, _, .list hs => congrArg Value.list (eqAll hs)
  | _, _, .handler h => congrArg (fun id => Value.handler ⟨_, id⟩) h

theorem eqAll : {vs vs' : List Value} → Forall₂ (Like Eq) vs vs' → vs = vs'
  | _, _, .nil => rfl
  | _, _, .cons h hs => congrArg₂ List.cons (eq h) (eqAll hs)

end

end Value.Like

/-- What is so of a heap is so of the other. -/
def Keeps (fine : σ → Prop) (heap heap' : σ) : Prop := fine heap → fine heap'

instance {fine : σ → Prop} : Std.Refl (Keeps fine) := ⟨fun _ h => h⟩

instance {fine : σ → Prop} : Trans (Keeps fine) (Keeps fine) (Keeps fine) :=
  ⟨fun h h' hfine => h' (h hfine)⟩

/-- Each heap belongs together with itself, as long as it is a fine one. -/
def Likeness.same (fine : σ → Prop) : Likeness Unit σ where
  le _ _ := True
  refl _ := trivial
  trans _ _ := trivial
  states _ heap heap' := heap = heap' ∧ fine heap
  pairs _ := Eq
  pairs_later _ _ _ h := h
  oneToOne _ _ _ _ _ h h' := by subst h h'; rfl

namespace Services

variable {services : Services σ} {fine : σ → Prop}

/-- An extension makes the same of two places whose scopes differ in their indices only. -/
def IndexBlind (services : Services σ) (fine : σ → Prop) : Prop :=
  ∀ id k p p' heap, fine heap → Provision.Like Eq k p p' →
    services.host.provide id p heap = services.host.provide id p' heap

theorem same_alike {ε α : Type} {Q : Unit → α → α → Prop} {x : EStateM ε σ α}
    (hx : Action.Leaves (Keeps fine) x) (hQ : ∀ a, Q () a a) :
    (Likeness.same fine).Alike () Q x x := by
  rintro ⟨⟩ - heap _ ⟨rfl, hfine⟩
  cases h : x heap with
  | ok a heap' => exact .ok (j := ()) trivial (hQ a) ⟨rfl, hx.of_ok h hfine⟩
  | error e heap' => exact .error (j := ()) trivial ⟨rfl, hx.of_error h hfine⟩

theorem respects_same (hS : services.CallsLeave (Keeps fine)) (hblind : services.IndexBlind fine) :
    services.Respects (Likeness.same fine) where
  typeOf := by
    rintro ⟨⟩ heap _ id _ ⟨rfl, -⟩ ⟨⟩
    rfl
  getMember := by
    rintro ⟨⟩ heap _ id _ ⟨rfl, -⟩ ⟨⟩ m
    cases services.host.getMember heap id m with
    | none => exact .none
    | some v => exact .some (.refl v)
  collects := by
    rintro ⟨⟩ heap _ id _ ⟨rfl, -⟩ ⟨⟩
    rfl
  listens := by
    rintro ⟨⟩ heap _ id _ ⟨rfl, -⟩ ⟨⟩
    rfl
  provides := by
    rintro ⟨⟩ heap _ id _ ⟨rfl, -⟩ ⟨⟩
    rfl
  handles := by
    rintro ⟨⟩ heap _ id _ ⟨rfl, -⟩ ⟨⟩ name
    rfl
  activate i type arguments := same_alike (hS.activate type arguments) fun _ => rfl
  setMember := by
    rintro ⟨⟩ id _ v v' ⟨⟩ hv m
    obtain rfl := Value.Like.eq hv
    exact same_alike (hS.setMember id m v) fun _ => trivial
  setAttached := by
    rintro ⟨⟩ id _ v v' ⟨⟩ hv m
    obtain rfl := Value.Like.eq hv
    exact same_alike (hS.setAttached id m v) fun _ => trivial
  append := by
    rintro ⟨⟩ id _ v v' ⟨⟩ hv
    obtain rfl := Value.Like.eq hv
    exact same_alike (hS.append id v) fun _ => trivial
  beginInit := by
    rintro ⟨⟩ heap _ id _ ⟨rfl, hfine⟩ ⟨⟩
    exact ⟨(), trivial, rfl, hS.beginInit id heap hfine⟩
  endInit := by
    rintro ⟨⟩ heap _ id _ ⟨rfl, hfine⟩ ⟨⟩
    exact ⟨(), trivial, rfl, hS.endInit id heap hfine⟩
  provide := by
    rintro ⟨⟩ id _ k p p' ⟨⟩ hp ⟨⟩ - heap _ ⟨rfl, hfine⟩
    rw [← hblind id k p p' heap hfine hp]
    exact same_alike (hS.provide id p) Value.Like.refl () trivial heap heap ⟨rfl, hfine⟩
  convert _ m s v _ := .refl v
  loader _ m loader hloader stream := same_alike (hS.loader m loader hloader stream) Value.Like.refl

end Services
end ObjectMarkup
