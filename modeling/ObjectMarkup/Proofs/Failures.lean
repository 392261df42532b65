/-
When a construction can fail, and with what.

What is wrong with the types and the shape of a description is found before anything is done: once
the tree of a document is there and sorted, carrying it out fails with other errors only
(`Services.Late`).  The lemmas follow the evaluator, one for each thing it does; `load_error` says
it of loading a document.
-/
import ObjectMarkup.Proofs.Layout
import ObjectMarkup.Proofs.Order
import ObjectMarkup.Proofs.Outcomes
import ObjectMarkup.Proofs.Recursion
import ObjectMarkup.Widget.Catalogue

namespace ObjectMarkup

variable {σ : Type}

/-- A host that sets or appends one value does not complain of the number of values. -/
structure Host.LeavesCounting (host : Host σ) : Prop where
  setMember : ∀ id m v heap name n heap',
    host.setMember id m v heap ≠ .error (.unexpectedValueCount name n) heap'
  setAttached : ∀ id m v heap name n heap',
    host.setAttached id m v heap ≠ .error (.unexpectedValueCount name n) heap'
  append : ∀ id v heap name n heap',
    host.append id v heap ≠ .error (.unexpectedValueCount name n) heap'

namespace Services

open ObjectMarkup.Action (Ends)

variable (services : Services σ)

/-- What a construction under way can fail with.  Of faults of the nesting it is the depth alone,
and the number of values of a member is never wrong, unless it is for the host. -/
def Late : Error → Prop
  | .extraction _ | .unknownType _ | .dependencyCycle .. => False
  | .structural e => e = .tooDeep services.settings.maxDepth
  | .member (.unexpectedValueCount _ _) => ¬ services.host.LeavesCounting
  | _ => True

def LateMember (e : MemberError) : Prop := services.Late (.member e)

variable {services} in
theorem Late.isStatic {e : Error} (h : services.Late e) : e.isStatic = false := by
  cases e with
  | extraction _ | unknownType _ | dependencyCycle _ _ => exact h.elim
  | _ => rfl

variable {services} in
theorem Late.count {e : Error} (h : services.Late e) (hhost : services.host.LeavesCounting)
    (member : String) (count : Nat) : e ≠ .member (.unexpectedValueCount member count) := by
  rintro rfl
  exact h hhost

theorem late_holdsOfCalls : HoldsOfCalls services.Late :=
  ⟨fun _ => trivial, fun _ _ => trivial, fun _ _ => trivial, fun _ => trivial, fun _ => trivial,
    fun _ => trivial⟩

/-! ## The host -/

theorem lateMember_of_host {α : Type} {act : EStateM MemberError σ α}
    (h : services.host.LeavesCounting →
      ∀ heap name n heap', act heap ≠ .error (.unexpectedValueCount name n) heap') :
    Ends act (fun _ => True) services.LateMember := by
  intro heap
  cases hact : act heap with
  | ok a heap' => trivial
  | error e heap' =>
    cases e with
    | unexpectedValueCount name n => exact fun hhost => h hhost heap name n heap' hact
    | _ => trivial

theorem assign_ends (target : ObjectId) (m : Member) (v : Value) :
    Ends (services.assign target m v) (fun _ => True) services.LateMember := by
  rw [assign]
  split
  · exact services.lateMember_of_host fun h => h.setAttached target m v
  · exact services.lateMember_of_host fun h => h.setMember target m v

theorem appendEach_ends (target : ObjectId) (vs : List Value) :
    Ends (services.appendEach target vs) (fun _ => True) services.LateMember := by
  induction vs with
  | nil => exact .pure trivial
  | cons v vs ih =>
    exact .bind (services.lateMember_of_host fun h => h.append target v) fun _ _ => ih

theorem appendAll_ends (target : ObjectId) (m : Member) (vs : List Value) :
    Ends (services.appendAll target m vs) (fun _ => True) services.LateMember := by
  refine .bind .get fun heap _ => ?_
  split
  · exact services.appendEach_ends target _
  · exact .throw trivial

/-! ## Commitments -/

/-- Values whose number fits their member are not counted wrong. -/
theorem commitValues_ends (target : ObjectId) (collects : Bool) {m : Member} {vs : List Value}
    (h : m.isItems = true ∨ services.schema.takesMany m = true ∨ vs.length = 1)
    (retrieved : Option Value) :
    Ends (services.commitValues target collects m vs retrieved) (fun _ => True)
      services.LateMember := by
  unfold commitValues
  split
  · rw [commitItems]
    split
    · exact .bind (services.appendAll_ends target m vs) fun _ _ => .pure trivial
    · exact .bind .get fun heap _ => .throw trivial
  · next hitems =>
    split
    · refine .bind .get fun heap _ => ?_
      split
      · exact .bind (services.appendAll_ends _ m vs) fun _ _ => .pure trivial
      · exact .bind (services.assign_ends target m _) fun _ _ => .pure trivial
    · next hmany =>
      have hone : vs.length = 1 := by
        rcases h with h | h | h
        · exact absurd h hitems
        · exact absurd h hmany
        · exact h
      obtain ⟨v, rfl⟩ := List.length_eq_one_iff.1 hone
      exact .bind (services.assign_ends target m v) fun _ _ => .pure trivial

theorem commit_ends (target : ObjectId) (collects : Bool) {m : Member} {vs : List Value}
    (h : m.isItems = true ∨ services.schema.takesMany m = true ∨ vs.length = 1)
    (retrieved : Option Value) :
    Ends (services.commit target collects m vs retrieved) (fun _ => True) services.Late :=
  .bind (Build.onHeap_ends (services.commitValues_ends target collects h retrieved))
    fun _ _ => .update

/-! ## Objects -/

/-- An object whose type is known can fail to start for its depth only. -/
theorem checkStart_ends {type : TypeName} (h : (services.schema.resolve type).isSome = true)
    (level : Nat) :
    Ends (Build.ofExcept fun _ : World σ => services.checkStart type level) (fun _ => True)
      services.Late := by
  have htype : services.checkType type = .ok () := by
    rw [checkType, if_neg]
    cases hresolve : services.schema.resolve type <;> simp_all
  refine Build.ofExcept_ends (fun _ _ _ => trivial) fun w e herror => ?_
  rw [checkStart_eq, htype] at herror
  simp only [] at herror
  split at herror
  · cases herror
    rfl
  · cases herror

/-! ## Trees -/

mutual

theorem evaluateTree_ends : (t : Tree) → t.Forall (Tree.Fits services.schema) →
    (e : Enclosure) → (m : Member) →
      Ends (services.evaluateTree e m t) (fun _ => True) services.Late
  | .node type name arguments assignments, h, e, m => by
    rw [evaluateTree]
    refine .bind (services.checkStart_ends h.self.type _) fun _ _ => ?_
    refine .bind (services.make_ends services.late_holdsOfCalls _ type arguments) fun site _ => ?_
    refine .bind (evaluateAssignments_ends assignments
      (fun a ha => ⟨h.self.assignments a ha, h.inside a ha⟩) _) fun _ _ => ?_
    refine .bind (services.complete_ends (fun _ => trivial) type name site _) fun _ _ => ?_
    exact services.valueOf_ends services.late_holdsOfCalls type site _ _ _

theorem evaluateAssignment_ends : (a : Assignment) → a.Fits services.schema →
    (∀ t ∈ a.trees, t.Forall (Tree.Fits services.schema)) → (e : Enclosure) →
      Ends (services.evaluateAssignment e a) (fun _ => True) services.Late
  | .literal m s, _, _, e => by
    have hcommit : ∀ v, Ends (services.commit e.site.object e.site.collects m [v] none)
        (fun _ => True) services.Late := fun v =>
      services.commit_ends _ _ (.inr (.inr rfl)) none
    rw [evaluateAssignment]
    refine .bind (services.loaderOf_ends services.late_holdsOfCalls m) fun loader _ => ?_
    cases loader with
    | some loader =>
      exact .bind (loader_ends services.late_holdsOfCalls loader m _) fun v _ => hcommit v
    | none =>
      exact .bind (services.readLiteral_ends services.late_holdsOfCalls _ m s) fun v _ => hcommit v
  | .children m trees, hfits, htrees, e => by
    rw [evaluateAssignment]
    refine .bind (services.loaderOf_ends services.late_holdsOfCalls m) fun loader _ => ?_
    cases loader with
    | some loader =>
      exact .bind (loader_ends services.late_holdsOfCalls loader m _) fun v _ =>
        services.commit_ends _ _ (.inr (.inr rfl)) none
    | none =>
      refine .bind (evaluateTrees_ends trees htrees e m) fun vs hvs => ?_
      exact services.commit_ends _ _ (hfits.imp_right (Or.imp_right hvs.trans)) none

theorem evaluateAssignments_ends : (as : List Assignment) →
    (∀ a ∈ as, a.Fits services.schema ∧
      ∀ t ∈ a.trees, t.Forall (Tree.Fits services.schema)) → (e : Enclosure) →
      Ends (services.evaluateAssignments e as) (fun _ => True) services.Late
  | [], _, e => by
    rw [evaluateAssignments]
    exact .pure trivial
  | a :: as, h, e => by
    obtain ⟨hfits, htrees⟩ := h a List.mem_cons_self
    rw [evaluateAssignments]
    exact .bind (evaluateAssignment_ends a hfits htrees e) fun _ _ =>
      evaluateAssignments_ends as (fun b hb => h b (List.mem_cons_of_mem _ hb)) e

theorem evaluateTrees_ends : (ts : List Tree) →
    (∀ t ∈ ts, t.Forall (Tree.Fits services.schema)) → (e : Enclosure) → (m : Member) →
      Ends (services.evaluateTrees e m ts) (fun vs => vs.length = ts.length) services.Late
  | [], _, e, m => by
    rw [evaluateTrees]
    exact .pure rfl
  | t :: ts, h, e, m => by
    rw [evaluateTrees]
    refine .bind (evaluateTree_ends t (h t List.mem_cons_self) e m) fun v _ => ?_
    refine .bind (evaluateTrees_ends ts (fun u hu => h u (List.mem_cons_of_mem _ hu)) e m)
      fun vs hvs => ?_
    exact .pure (by simp [hvs])

end

theorem evaluateRoot_ends (root : Option ObjectId) {t : Tree}
    (h : t.Forall (Tree.Fits services.schema)) :
    Ends (services.evaluateRoot root t) (fun _ => True) services.Late := by
  obtain ⟨type, name, arguments, assignments⟩ := t
  have hrest : ∀ (settled : TypeName × Site), Ends (services.evaluateAssignments
      { site := settled.2, root := settled.2.object, level := 1 } assignments >>= fun _ =>
        services.complete settled.1 name settled.2 none >>= fun _ =>
          (pure settled.2.object : Build σ ObjectId)) (fun _ => True) services.Late := by
    intro settled
    refine .bind (services.evaluateAssignments_ends assignments
      (fun a ha => ⟨h.self.assignments a ha, h.inside a ha⟩) _) fun _ _ => ?_
    exact .bind (services.complete_ends (fun _ => trivial) _ name _ none) fun _ _ => .pure trivial
  rw [evaluateRoot]
  refine .bind (services.checkStart_ends h.self.type 1) fun _ _ => ?_
  cases root with
  | none =>
    exact .bind (services.make_ends services.late_holdsOfCalls none type arguments)
      fun site _ => hrest (type, site)
  | some id =>
    refine .bind .get fun w _ => ?_
    refine .bind (services.adopt_ends services.late_holdsOfCalls none _ id true) fun site _ => ?_
    exact hrest (_, site)

/-- A tree that is sorted and fits its types fails late, if it fails. -/
theorem build_late {t : Tree} (h : t.Forall (Tree.Fits services.schema)) {stream : List Instruction}
    (hwrite : t.write = .ok stream) {root : Option ObjectId} {w w' : World σ} {err : Error}
    (hbuild : services.build t root w = .error err w') : services.Late err := by
  obtain ⟨t', hsort, rfl⟩ := Answer.map_eq_ok.1 hwrite
  rw [services.build_of_sorted hsort] at hbuild
  exact (services.evaluateRoot_ends root (Tree.sort_fits h hsort)).error hbuild

end Services

/-! ## Documents -/

namespace Catalogue

variable (c : Catalogue σ)

theorem resolve_resolve {name type : String} (h : c.resolve name = some type) :
    (c.resolve type).isSome = true := by
  obtain ⟨d, hd⟩ := find?_of_resolve h
  rw [resolve, hd]
  rfl

/-- Loading a document fails with a static error before anything is done: the error is one of
reading or of writing the tree.  Once the tree is written, loading fails with no static error, with
no fault of the nesting but its depth, and with no wrong number of values. -/
theorem load_error (host : Host σ) (settings : Settings) (loaders : Loaders σ)
    (e : Markup.Element) (root : Option ObjectId) {w w' : World σ} {err : Error}
    (h : ({ c.services host settings with loaders } : Services σ).load e root w =
      .error err w') :
    (err.isStatic = true → w' = w ∧ (e.tree c.schema settings.reading = .error err ∨
      ∃ t, e.tree c.schema settings.reading = .ok t ∧ t.write = .error err)) ∧
    ∀ t stream, e.tree c.schema settings.reading = .ok t → t.write = .ok stream →
      err.isStatic = false ∧
      (∀ fault, err = .structural fault → fault = .tooDeep settings.maxDepth) ∧
      (host.LeavesCounting → ∀ member count,
        err ≠ .member (.unexpectedValueCount member count)) := by
  generalize hservices : ({ c.services host settings with loaders } : Services σ) = services at h
  have hreads : e.tree services.schema services.settings.reading =
      e.tree c.schema settings.reading := by
    rw [← hservices]
    rfl
  have hbuild : ∀ t, e.tree c.schema settings.reading = .ok t →
      services.build t root w = .error err w' := by
    intro t ht
    rw [Services.load, hreads, ht] at h
    exact h
  have hlate : ∀ t stream, e.tree c.schema settings.reading = .ok t → t.write = .ok stream →
      services.Late err := by
    intro t stream ht hwrite
    have hfits : t.Forall (Tree.Fits services.schema) := by
      rw [← hservices]
      exact Markup.Element.tree_fits (fun hname => c.resolve_resolve hname) ht
    exact services.build_late hfits hwrite (hbuild t ht)
  refine ⟨fun hstatic => ?_, fun t stream ht hwrite => ?_⟩
  · cases ht : e.tree c.schema settings.reading with
    | error fault =>
      rw [Services.load, hreads, ht] at h
      cases h
      exact ⟨rfl, .inl rfl⟩
    | ok t =>
      have h := hbuild t ht
      cases hwrite : t.write with
      | error fault =>
        rw [Services.build, hwrite] at h
        cases h
        exact ⟨rfl, .inr ⟨t, rfl, hwrite⟩⟩
      | ok stream =>
        have := (hlate t stream ht hwrite).isStatic
        simp [hstatic] at this
  · have hl := hlate t stream ht hwrite
    subst hservices
    refine ⟨hl.isStatic, fun fault hfault => ?_, fun hhost => hl.count hhost⟩
    subst hfault
    exact hl

end Catalogue

/-! ## Widgets -/

/-- A widget that is not set complains of the member or of the value. -/
theorem Widget.withMember_error {m : Member} {v : Value} {w : Widget} {e : MemberError}
    (h : w.withMember m v = .error e) : ∃ member reason, e = .setFailed member reason := by
  unfold withMember at h
  split at h
  all_goals try split at h
  -- what is left of each member is done, or refused, or a question of the kind of value
  all_goals first
    | (cases h; exact ⟨_, _, rfl⟩)
    | cases h
    | (cases v <;> cases h <;> exact ⟨_, _, rfl⟩)

theorem Heap.host_leavesCounting : Heap.host.LeavesCounting where
  setMember id m v heap name n heap' h := by
    simp only [host, act, Widget.setMember] at h
    cases hw : heap.find? id with
    | none => simp [hw] at h
    | some w =>
      cases hm : w.withMember m v with
      | ok w' => simp [hw, hm] at h
      | error e =>
        obtain ⟨member, reason, rfl⟩ := Widget.withMember_error hm
        simp [hw, hm] at h
  setAttached id m v heap name n heap' h := by
    simp only [host, act] at h
    cases hw : heap.find? id with
    | none => simp [hw] at h
    | some w => cases w <;> simp [hw, Widget.setAttached] at h
  append id v heap name n heap' h := by
    simp only [host, act] at h
    cases hw : heap.find? id with
    | none => simp [hw] at h
    | some w =>
      cases w with
      | scripted t =>
        cases hc : t.script.capacity with
        | none => simp [hw, Widget.append, hc] at h
        | some most =>
          by_cases hfull : most ≤ t.items.length <;> simp [hw, Widget.append, hc, hfull] at h
      | _ => simp [hw, Widget.append] at h

/-- A window with a height that is no number. -/
def Widget.tallWindow : Markup.Element :=
  { type := "Window", attributes := [{ name := "Height", value := "tall" }] }

namespace Catalogue

theorem load_error_tallWindow :
    ∃ err w' t stream,
      (Widget.catalogue.services Heap.host {}).load Widget.tallWindow none { heap := {} } =
        .error err w' ∧
      Widget.tallWindow.tree Widget.catalogue.schema {} = .ok t ∧ t.write = .ok stream ∧
      err.isStatic = false ∧
      (∀ fault, err = .structural fault → fault = .tooDeep 256) ∧
      ∀ member count, err ≠ .member (.unexpectedValueCount member count) := by
  refine ⟨_, _, _, _, rfl, rfl, rfl, ?_⟩
  have h := Widget.catalogue.load_error Heap.host {} {} Widget.tallWindow none
    (w := { heap := {} }) rfl
  obtain ⟨hdynamic, hdepth, hcount⟩ := h.2 _ _ rfl rfl
  exact ⟨hdynamic, hdepth, hcount Heap.host_leavesCounting⟩

end Catalogue
end ObjectMarkup
