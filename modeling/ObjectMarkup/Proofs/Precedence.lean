/-
Dependent members are committed in the same order wherever they are written.

Of reordered trees both are written or neither is.  Where the dependencies leave no choice, both
come into the same order and so have the same stream (`Tree.Reordered.arranged_eq`).  And in every
build, whatever the order, the members of an object are committed after those they depend on:
`Tree.Commits` says so of the commitments that were recorded, and `Services.build_commits` that it
holds of those of a build.

The main theorem is `Tree.reordered_builds`.
-/
import ObjectMarkup.Proofs.Acceptance
import ObjectMarkup.Proofs.Arrangement
import ObjectMarkup.Proofs.Commitments
import ObjectMarkup.Proofs.Recursion
import ObjectMarkup.Proofs.Scopes

namespace ObjectMarkup

open Relation (TransGen)
open ObjectMarkup.Order

variable {σ : Type}

/-! ## One order only -/

namespace Tree

/-- Of any two assignments of the node, the one depends on the other, directly or through others. -/
def IsChain (n : Tree) : Prop :=
  ∀ i j, i < n.members.length → j < n.members.length → i ≠ j →
    TransGen (Precedes n.members) i j ∨ TransGen (Precedes n.members) j i

theorem IsChain.chain {n : Tree} (h : n.IsChain) : Chain id n.members := by
  rw [← map_memberAt n.members, chain_map, Function.id_comp, Chain, before_memberAt]
  refine List.Pairwise.imp_of_mem (fun hi hj hne => ?_) (List.nodup_range (n := n.members.length))
  exact h _ _ (List.mem_range.1 hi) (List.mem_range.1 hj) hne

/-- The nodes have an order each, and one only. -/
def OneOrder (t : Tree) : Prop :=
  ∀ n ∈ t.nodes, ¬ n.HasCircle ∧ Chain id n.members

theorem OneOrder.of_reordered {t u : Tree} (h : t.OneOrder) (hu : t.Reordered u) : u.OneOrder := by
  intro n hn
  obtain ⟨k, hk, houtline⟩ := hu.exists_node hn
  obtain ⟨hcircle, hchain⟩ := h k hk
  exact ⟨fun hn => hcircle ((hasCircle_congr houtline).2 hn),
    (chain_perm (outline_eq_iff.1 houtline).2).1 hchain⟩

theorem Exchange.arranged_eq {t u : Tree} (h : t.Exchange u) (ht : t.OneOrder) :
    t.arranged = u.arranged := by
  induction h with
  | @here type name arguments as bs h =>
    obtain ⟨hcircle, hchain⟩ := ht _ (Tree.self_mem_nodes _)
    have hchain : Chain Assignment.member as := (chain_map Assignment.member id as).1 hchain
    have hcircle : ¬ Circular Assignment.member as := fun h => hcircle (Tree.hasCircle_iff.2 h)
    rw [arranged_node, arranged_node, inDependencyOrder_of_chain hchain hcircle h]
  | inside _ ih =>
    have hinside := ih fun n hn => ht n (by
      simp [nodes, Assignment.nodesAll_eq_flatMap, Assignment.nodes, nodesAll_eq_flatMap, hn])
    simp only [arranged, Assignment.arrangedAll_eq_map, List.map_append, List.map_cons,
      Assignment.arranged, arrangedAll_eq_map, hinside]

theorem Reordered.arranged_eq {t u : Tree} (h : t.Reordered u) (ht : t.OneOrder) :
    t.arranged = u.arranged := by
  induction h with
  | refl => rfl
  | tail htu h ih => exact ih.trans (h.arranged_eq (ht.of_reordered htu))

end Tree

/-! ## The commitments of a tree -/

namespace Services

variable (services : Services σ)

mutual

/-- The records of an object that a node describes: those of its assignments, in an order in which
each comes after those it depends on. -/
inductive CommitsTree : Tree → ObjectId → List AmbientRecord → Prop
  | node {type : TypeName} {name : Option String} {arguments : List String}
      {assignments order : List Assignment} {x : ObjectId} {records : List AmbientRecord} :
      order.Perm assignments → InOrder Assignment.member order →
      CommitsEach order x records → CommitsTree (.node type name arguments assignments) x records

/-- The records of assignments, one after the other: the commitment of each to the object, after
those of the objects that were built for it. -/
inductive CommitsEach : List Assignment → ObjectId → List AmbientRecord → Prop
  | nil {x : ObjectId} : CommitsEach [] x []
  | cons {a : Assignment} {as : List Assignment} {x : ObjectId} {v : Value}
      {inside records : List AmbientRecord} :
      CommitsTrees (services.carried a) inside → CommitsEach as x records →
        CommitsEach (a :: as) x (inside ++ ⟨a.member, v, x⟩ :: records)

/-- The records of trees, one after the other. -/
inductive CommitsTrees : List Tree → List AmbientRecord → Prop
  | nil : CommitsTrees [] []
  | cons {t : Tree} {ts : List Tree} {x : ObjectId} {first records : List AmbientRecord} :
      CommitsTree t x first → CommitsTrees ts records → CommitsTrees (t :: ts) (first ++ records)

end

end Services

/-- The world after has the records of the world before and those that were added. -/
def World.Adds (w : World σ) (added : List AmbientRecord) (w' : World σ) : Prop :=
  w'.context.ambient.records = w.context.ambient.records ++ added

namespace World.Adds

variable {w w' w'' : World σ} {added more : List AmbientRecord}

theorem of_same (h : w.SameRecords w') : w.Adds [] w' := by
  rw [World.Adds, List.append_nil]
  exact congrArg Ambient.records h

theorem append (h : w.Adds added w') (h' : w'.Adds more w'') : w.Adds (added ++ more) w'' := by
  rw [World.Adds] at *
  rw [h', h, List.append_assoc]

end World.Adds

namespace Services

section

variable {services : Services σ}

theorem make_same {around : Option ScopeId} {type : TypeName} {arguments : List String}
    {site : Site} {w w' : World σ} (h : services.make around type arguments w = .ok site w') :
    w.SameRecords w' :=
  (make_leaves services.callsLeave_any World.sameRecords_admits
    fun _ _ _ _ _ h => h).of_ok h

variable (services) in
/-- What is built for an assignment is committed, and then its member is. -/
def Committing (a : Assignment) : Prop :=
  ∀ (e : Enclosure) (w w' : World σ), services.evaluateAssignment e a.arranged w = .ok () w' →
    ∃ inside v, w.Adds (inside ++ [⟨a.member, v, e.site.object⟩]) w' ∧
      services.CommitsTrees (services.carried a) inside

/-- A value that records nothing is committed. -/
theorem adds_of_commit {target : ObjectId} {collects : Bool} {m : Member} {vs : List Value}
    {w w₁ w' : World σ} {inside : List AmbientRecord} (h : w.Adds inside w₁)
    (hcommit : services.commit target collects m vs none w₁ = .ok () w') :
    ∃ v, w.Adds (inside ++ [⟨m, v, target⟩]) w' := by
  obtain ⟨v, hrecords⟩ := services.commit_ok hcommit
  exact ⟨v, h.append hrecords⟩

theorem commits_each {as : List Assignment} (has : ∀ a ∈ as, services.Committing a)
    {e : Enclosure} {w w' : World σ}
    (h : services.evaluateAssignments e (as.map Assignment.arranged) w = .ok () w') :
    ∃ records, w.Adds records w' ∧ services.CommitsEach as e.site.object records := by
  induction as generalizing w with
  | nil =>
    cases h
    exact ⟨[], .of_same rfl, .nil⟩
  | cons a as ih =>
    simp only [List.map_cons, evaluateAssignments, Action.bind_eq_ok] at h
    obtain ⟨_, w₁, hfirst, hrest⟩ := h
    obtain ⟨inside, v, hadds, hinside⟩ := has a List.mem_cons_self e w w₁ hfirst
    obtain ⟨records, hadds', hrecords⟩ := ih (fun b hb => has b (List.mem_cons_of_mem a hb)) hrest
    refine ⟨_, hadds.append hadds', ?_⟩
    rw [List.append_assoc, List.singleton_append]
    exact .cons hinside hrecords

/-- The assignments of a node are carried out in dependency order. -/
theorem commits_node {type : TypeName} {name : Option String} {arguments : List String}
    {assignments : List Assignment} (hnone : ∀ n ∈ (Tree.node type name arguments assignments).nodes,
      ¬ n.HasCircle) (has : ∀ a ∈ assignments, services.Committing a)
    {e : Enclosure} {w w' : World σ}
    (h : services.evaluateAssignments e
      ((inDependencyOrder type Assignment.member assignments).map Assignment.arranged) w =
        .ok () w') :
    ∃ records, w.Adds records w' ∧
      services.CommitsTree (.node type name arguments assignments) e.site.object records := by
  have hperm := inDependencyOrder_perm type Assignment.member assignments
  have hcircle : ¬ Circular Assignment.member assignments := fun h =>
    hnone _ (Tree.self_mem_nodes _) (Tree.hasCircle_iff.2 h)
  obtain ⟨records, hadds, hrecords⟩ :=
    commits_each (fun a ha => has a (hperm.mem_iff.1 ha)) h
  exact ⟨records, hadds, .node hperm (inDependencyOrder_inOrder hcircle) hrecords⟩

mutual

theorem evaluateTree_commits : (t : Tree) → (∀ n ∈ t.nodes, ¬ n.HasCircle) → {e : Enclosure} →
    {m : Member} → {w w' : World σ} → {v : Value} →
    services.evaluateTree e m t.arranged w = .ok v w' →
      ∃ x records, w.Adds records w' ∧ services.CommitsTree t x records
  | .node type name arguments assignments, hnone, e, m, w, w', v, h => by
    rw [Tree.arranged_node] at h
    simp only [evaluateTree, Action.bind_eq_ok] at h
    obtain ⟨_, _, hcheck, site, w₁, hmake, _, w₂, hinner, _, w₃, hcomplete, hvalue⟩ := h
    obtain ⟨-, rfl⟩ := Build.ofExcept_eq_ok hcheck
    obtain ⟨records, hadds, hrecords⟩ := commits_node hnone
      (evaluateAssignments_commits assignments fun n hn => hnone n (List.mem_cons_of_mem _ hn))
      hinner
    have hmade : World.Adds _ [] w₁ := .of_same (make_same hmake)
    have hended : w₂.Adds [] w₃ :=
      .of_same ((services.complete_sameRecords _ _ _ _).of_ok hcomplete)
    have hclosed : w₃.Adds [] w' :=
      .of_same ((services.valueOf_sameRecords _ _ _ _ _).of_ok hvalue)
    have hwhole := ((hmade.append hadds).append hended).append hclosed
    rw [List.nil_append, List.append_nil, List.append_nil] at hwhole
    exact ⟨site.object, records, hwhole, hrecords⟩

theorem evaluateAssignment_commits : (a : Assignment) → (∀ n ∈ a.nodes, ¬ n.HasCircle) →
    services.Committing a
  | .literal m s, _, e, w, w', h => by
    rw [Assignment.arranged, evaluateAssignment, Action.bind_eq_ok] at h
    obtain ⟨loader, _, hloader, h⟩ := h
    obtain ⟨-, rfl⟩ := Build.ofExcept_eq_ok hloader
    cases loader with
    | some loader =>
      rw [Action.bind_eq_ok] at h
      obtain ⟨v, w₁, hload, hcommit⟩ := h
      obtain ⟨v, hadds⟩ :=
        adds_of_commit (.of_same ((onHeap_sameRecords _ _).of_ok hload)) hcommit
      exact ⟨[], v, hadds, .nil⟩
    | none =>
      rw [Action.bind_eq_ok] at h
      obtain ⟨v, w₁, hread, hcommit⟩ := h
      obtain ⟨-, rfl⟩ := Build.ofExcept_eq_ok hread
      obtain ⟨v, hadds⟩ := adds_of_commit (.of_same rfl) hcommit
      exact ⟨[], v, hadds, .nil⟩
  | .children m trees, hnone, e, w, w', h => by
    rw [Assignment.arranged, evaluateAssignment, Action.bind_eq_ok] at h
    obtain ⟨loader, _, hloader, h⟩ := h
    obtain ⟨hmember, rfl⟩ := Build.ofExcept_eq_ok hloader
    rw [carried, services.loaderOf_ok hmember]
    cases loader with
    | some loader =>
      simp only [Action.bind_eq_ok] at h
      obtain ⟨v, w₁, hload, _, _, hpure, hcommit⟩ := h
      cases hpure
      obtain ⟨v, hadds⟩ :=
        adds_of_commit (.of_same ((onHeap_sameRecords _ _).of_ok hload)) hcommit
      exact ⟨[], v, hadds, .nil⟩
    | none =>
      simp only [Action.bind_eq_ok] at h
      obtain ⟨vs, w₁, hbuilt, hcommit⟩ := h
      obtain ⟨records, hinside, hrecords⟩ := evaluateTrees_commits trees hnone hbuilt
      obtain ⟨v, hadds⟩ := adds_of_commit hinside hcommit
      exact ⟨records, v, hadds, hrecords⟩

theorem evaluateAssignments_commits : (as : List Assignment) →
    (∀ n ∈ Assignment.nodesAll as, ¬ n.HasCircle) →
      ∀ a ∈ as, services.Committing a
  | [], _, _, ha => absurd ha List.not_mem_nil
  | b :: bs, hnone, a, ha => by
    have hfirst := evaluateAssignment_commits b fun n hn => hnone n (List.mem_append_left _ hn)
    have hrest := evaluateAssignments_commits bs fun n hn => hnone n (List.mem_append_right _ hn)
    rcases List.mem_cons.1 ha with rfl | ha
    · exact hfirst
    · exact hrest a ha

theorem evaluateTrees_commits : (ts : List Tree) → (∀ n ∈ Tree.nodesAll ts, ¬ n.HasCircle) →
    {e : Enclosure} → {m : Member} → {w w' : World σ} → {vs : List Value} →
    services.evaluateTrees e m (Tree.arrangedAll ts) w = .ok vs w' →
      ∃ records, w.Adds records w' ∧ services.CommitsTrees ts records
  | [], _, e, m, w, w', vs, h => by
    cases h
    exact ⟨[], .of_same rfl, .nil⟩
  | t :: ts, hnone, e, m, w, w', vs, h => by
    simp only [Tree.arrangedAll, evaluateTrees, Action.bind_eq_ok] at h
    obtain ⟨v, w₁, hfirst, vs, w₂, hrest, h⟩ := h
    cases h
    obtain ⟨x, records, hadds, hrecords⟩ := evaluateTree_commits t
      (fun n hn => hnone n (List.mem_append_left _ hn)) hfirst
    obtain ⟨more, hadds', hmore⟩ := evaluateTrees_commits ts
      (fun n hn => hnone n (List.mem_append_right _ hn)) hrest
    exact ⟨_, hadds.append hadds', .cons hrecords hmore⟩

end

theorem settleRoot_same {root : Option ObjectId} {type : TypeName} {arguments : List String}
    {settled : TypeName × Site} {w w' : World σ}
    (h : services.settleRoot root type arguments w = .ok settled w') : w.SameRecords w' := by
  cases root with
  | none =>
    rw [settleRoot, Action.bind_eq_ok] at h
    obtain ⟨site, _, hmake, h⟩ := h
    cases h
    exact make_same hmake
  | some id =>
    simp only [settleRoot, Action.bind_eq_ok, Action.get_apply] at h
    obtain ⟨_, _, hget, site, _, hadopt, h⟩ := h
    cases hget
    cases h
    exact (services.adopt_sameRecords _ _ _ _).of_ok hadopt

/-- The first object is made or taken over before its assignments are carried out. -/
theorem evaluateRoot_eq_settleRoot (root : Option ObjectId) (type : TypeName)
    (name : Option String) (arguments : List String) (assignments : List Assignment) :
    services.evaluateRoot root (.node type name arguments assignments) = (do
      Build.ofExcept fun _ => services.checkStart type 1
      let settled ← services.settleRoot root type arguments
      services.evaluateAssignments
        { site := settled.2, root := settled.2.object, level := 1 } assignments
      services.complete settled.1 name settled.2 none
      return settled.2.object) := by
  rw [evaluateRoot]
  refine congrArg _ (funext fun _ => ?_)
  cases root <;> simp only [settleRoot, bind_assoc, pure_bind]

theorem evaluateRoot_commits {t : Tree} (hnone : ∀ n ∈ t.nodes, ¬ n.HasCircle)
    {root : Option ObjectId} {w w' : World σ} {id : ObjectId}
    (h : services.evaluateRoot root t.arranged w = .ok id w') :
    ∃ records, w.Adds records w' ∧ services.CommitsTree t id records := by
  obtain ⟨type, name, arguments, assignments⟩ := t
  rw [Tree.arranged_node, evaluateRoot_eq_settleRoot] at h
  simp only [Action.bind_eq_ok] at h
  obtain ⟨_, _, hcheck, settled, w₁, hsettle, _, w₂, hinner, _, w₃, hcomplete, h⟩ := h
  obtain ⟨-, rfl⟩ := Build.ofExcept_eq_ok hcheck
  cases h
  obtain ⟨records, hadds, hrecords⟩ := commits_node hnone
    (evaluateAssignments_commits assignments fun n hn => hnone n (List.mem_cons_of_mem _ hn))
    hinner
  have hsettled : World.Adds _ [] w₁ := .of_same (settleRoot_same hsettle)
  have hended : w₂.Adds [] w' :=
    .of_same ((services.complete_sameRecords _ _ _ _).of_ok hcomplete)
  have hwhole := (hsettled.append hadds).append hended
  rw [List.nil_append, List.append_nil] at hwhole
  exact ⟨records, hwhole, hrecords⟩

/-- Every successful build records the commitments of its tree, the members of an object in an order
in which each comes after those it depends on. -/
theorem build_commits {t : Tree} {root : Option ObjectId} {w w' : World σ} {id : ObjectId}
    (h : services.build t root w = .ok id w') :
    ∃ records, w.Adds records w' ∧ services.CommitsTree t id records := by
  by_cases hcircle : ∃ n ∈ t.nodes, n.HasCircle
  · obtain ⟨e, he⟩ := Tree.write_error_iff.2 hcircle
    rw [build, he] at h
    cases h
  · have hnone : ∀ n ∈ t.nodes, ¬ n.HasCircle := fun n hn hn' => hcircle ⟨n, hn, hn'⟩
    rw [services.build_of_sorted (Tree.sort_of_not_hasCircle hnone)] at h
    exact evaluateRoot_commits hnone h

end
end Services

/-! ## Reordered trees -/

/-- Of trees that differ in the order of assignments, both are written or neither is.  If of any two
assignments of a node one depends on the other, directly or through others, then their streams are
the same, and so are their builds.  And every build of such a tree commits each member to its object
after the members of the object that it depends on. -/
theorem Tree.reordered_builds {t u : Tree} (h : t.Reordered u) :
    ((∃ owner names, t.write = .error (.dependencyCycle owner names)) ↔
      ∃ owner names, u.write = .error (.dependencyCycle owner names)) ∧
    ((∀ n ∈ t.nodes, ¬ n.HasCircle) → (∀ n ∈ t.nodes, n.IsChain) →
      (∃ stream, t.write = .ok stream ∧ u.write = .ok stream) ∧
      ∀ (services : Services σ) (root : Option ObjectId) (w : World σ),
        services.build t root w = services.build u root w) ∧
    ∀ (services : Services σ) (root : Option ObjectId) (w w' : World σ) (id : ObjectId),
      services.build u root w = .ok id w' →
        ∃ records, w.Adds records w' ∧ services.CommitsTree u id records := by
  refine ⟨?_, fun hnone hchain => ?_, fun services root w w' id hbuild =>
    Services.build_commits hbuild⟩
  · rw [write_dependencyCycle_iff, write_dependencyCycle_iff, h.hasCircle_iff]
  · have hone : t.OneOrder := fun n hn => ⟨hnone n hn, (hchain n hn).chain⟩
    have harranged := h.arranged_eq hone
    have ht := sort_of_not_hasCircle hnone
    have hu := sort_of_not_hasCircle fun n hn => (hone.of_reordered h n hn).1
    rw [← harranged] at hu
    refine ⟨⟨t.arranged.instructions, by rw [write, ht]; rfl, by rw [write, hu]; rfl⟩,
      fun services root w => ?_⟩
    rw [services.build_of_sorted ht, services.build_of_sorted hu]

/-! ### A box with a caption -/

def boxLabel : Member := { owner := "Box", name := "Label" }

/-- The caption of a box comes after its label. -/
def boxCaption : Member := { owner := "Box", name := "Caption", dependencies := ["Label"] }

/-- A box in the caption of a box, the captions of both written before their labels. -/
def captionFirst : Tree :=
  .node "Box" none []
    [.children boxCaption [.node "Box" none [] [.literal boxCaption "in", .literal boxLabel "in"]],
      .literal boxLabel "out"]

/-- The same boxes, the captions written last. -/
def captionLast : Tree :=
  .node "Box" none []
    [.literal boxLabel "out",
      .children boxCaption
        [.node "Box" none [] [.literal boxLabel "in", .literal boxCaption "in"]]]

theorem captionFirst_reordered : captionFirst.Reordered captionLast := by
  have hinner : Tree.Reordered
      (.node "Box" none [] [.literal boxCaption "in", .literal boxLabel "in"])
      (.node "Box" none [] [.literal boxLabel "in", .literal boxCaption "in"]) :=
    .single (.here (.swap _ _ []))
  have houter := @Tree.Reordered.inside _ _ "Box" none [] [] [.literal boxLabel "out"] boxCaption
    [] [] hinner
  exact houter.tail (.here (.swap _ _ []))

theorem captionFirst_members {n : Tree} (hn : n ∈ captionFirst.nodes) :
    n.type = "Box" ∧ n.members = [boxCaption, boxLabel] := by
  have hnodes : captionFirst.nodes = [captionFirst,
      .node "Box" none [] [.literal boxCaption "in", .literal boxLabel "in"]] := rfl
  rw [hnodes] at hn
  rcases List.mem_pair.1 hn with rfl | rfl <;> exact ⟨rfl, rfl⟩

theorem captionFirst_hasNoCircle {n : Tree} (hn : n ∈ captionFirst.nodes) : ¬ n.HasCircle := by
  intro hcircle
  obtain ⟨e, he⟩ := Tree.memberOrder_error_iff.2 hcircle
  obtain ⟨htype, hmembers⟩ := captionFirst_members hn
  rw [Tree.memberOrder, htype, hmembers] at he
  cases he

theorem captionFirst_isChain {n : Tree} (hn : n ∈ captionFirst.nodes) : n.IsChain := by
  intro i j hi hj hne
  obtain ⟨-, hmembers⟩ := captionFirst_members hn
  have hprecedes : Precedes n.members 1 0 := by
    rw [hmembers]
    exact ⟨boxLabel, boxCaption, rfl, rfl, by decide⟩
  rw [hmembers] at hi hj
  have hcases : (i = 1 ∧ j = 0) ∨ (i = 0 ∧ j = 1) := by
    simp at hi hj
    omega
  rcases hcases with ⟨rfl, rfl⟩ | ⟨rfl, rfl⟩
  · exact .inl (.single hprecedes)
  · exact .inr (.single hprecedes)

theorem reordered_builds_captions :
    captionFirst.Reordered captionLast ∧
    (∀ n ∈ captionFirst.nodes, ¬ n.HasCircle) ∧ (∀ n ∈ captionFirst.nodes, n.IsChain) ∧
    (∃ stream, captionFirst.write = .ok stream ∧ captionLast.write = .ok stream) ∧
    Services.boxes.build captionFirst none { heap := 0 } =
      Services.boxes.build captionLast none { heap := 0 } ∧
    ∃ id w' records, Services.boxes.build captionLast none { heap := 0 } = .ok id w' ∧
      World.Adds { heap := 0 } records w' ∧ records.length = 4 ∧
      Services.boxes.CommitsTree captionLast id records := by
  have hnone : ∀ n ∈ captionFirst.nodes, ¬ n.HasCircle := fun _ => captionFirst_hasNoCircle
  have hchain : ∀ n ∈ captionFirst.nodes, n.IsChain := fun _ => captionFirst_isChain
  obtain ⟨-, hone, hcommits⟩ := Tree.reordered_builds (σ := Nat) captionFirst_reordered
  obtain ⟨hstreams, hbuilds⟩ := hone hnone hchain
  refine ⟨captionFirst_reordered, hnone, hchain, hstreams, hbuilds _ _ _, ?_⟩
  have hok : (match Services.boxes.build captionLast none { heap := 0 } with
      | .ok _ w => w.context.ambient.records.length == 4
      | .error _ _ => false) = true := by decide +kernel
  split at hok
  · next id w' hbuild =>
    obtain ⟨records, hadds, hrecords⟩ := hcommits _ _ _ _ _ hbuild
    refine ⟨id, w', records, hbuild, hadds, ?_, hrecords⟩
    have hempty : w'.context.ambient.records = records := hadds
    rw [← hempty]
    simpa using hok
  · cases hok

end ObjectMarkup
