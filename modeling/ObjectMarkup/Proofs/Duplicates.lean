/-
When a name is refused.

A construction fails with a duplicate name in one place only: at the end of an object whose name the
scope has already in which the object would be named (`Services.ClosesTaken`).  Everything else that
an instruction does fails with other errors (`Unnamed`).
-/
import ObjectMarkup.Proofs.Drive
import ObjectMarkup.Proofs.Order
import ObjectMarkup.Proofs.Outcomes
import ObjectMarkup.Proofs.Scoping

namespace ObjectMarkup

open ObjectMarkup.Action (Ends)
open Machine (onWorld blank)

variable {σ : Type}

/-- The error is not that of a name that is there already. -/
def Unnamed : Error → Prop
  | .namescope (.duplicateName _) => False
  | _ => True

def LeavesNames {τ α : Type} (x : EStateM Error τ α) : Prop := Ends x (fun _ => True) Unnamed

theorem unnamed_holdsOfCalls : HoldsOfCalls Unnamed :=
  ⟨fun _ => trivial, fun _ _ => trivial, fun _ _ => trivial, fun _ => trivial, fun _ => trivial,
    fun _ => trivial⟩

namespace Services

variable (services : Services σ)

/-! ## What does not fail for a name -/

theorem onWorld_leavesNames {α : Type} {act : Build σ α} (h : LeavesNames act) :
    LeavesNames (onWorld act) := by
  intro m
  rw [onWorld]
  cases hact : act m.world with
  | ok a w => trivial
  | error e w => exact h.error hact

theorem checkType_leavesNames (type : TypeName) :
    LeavesNames (Build.ofExcept fun _ : World σ => services.checkType type) := by
  refine Build.ofExcept_ends (fun _ _ _ => trivial) fun w e h => ?_
  rw [checkType] at h
  split at h
  · cases h
    trivial
  · cases h

/-! ## Instructions -/

theorem malformed_leavesNames {α : Type} (e : StructureError) :
    LeavesNames (Machine.malformed e : Machine.Action σ α) :=
  .throw trivial

theorem openFrame_leavesNames (frame : Frame) : LeavesNames (services.openFrame frame) := by
  refine .bind .get fun m _ => ?_
  split
  · exact malformed_leavesNames _
  · split
    · exact malformed_leavesNames _
    · exact .set

theorem ensureObject_leavesNames : LeavesNames services.ensureObject := by
  refine .bind .get fun m _ => ?_
  split
  · exact malformed_leavesNames _
  · split
    · exact .pure trivial
    · refine .bind (onWorld_leavesNames (services.make_ends unnamed_holdsOfCalls _ _ _)) ?_
      exact fun site _ => .bind .update fun _ _ => .pure trivial

theorem endMember_leavesNames : LeavesNames services.endMember := by
  refine .bind .get fun m _ => ?_
  split
  · exact malformed_leavesNames _
  · split
    · exact malformed_leavesNames _
    · refine .bind .set fun _ _ => ?_
      split
      · exact malformed_leavesNames _
      · exact onWorld_leavesNames (services.commit_ends_of_wrap (fun _ => trivial) _ _ _ _ _)

theorem startObject_leavesNames (start : ObjectStart) :
    LeavesNames (services.startObject start) := by
  refine .bind (onWorld_leavesNames (services.checkType_leavesNames start.type)) fun _ _ => ?_
  refine .bind .get fun m _ => .bind (services.openFrame_leavesNames _) fun _ _ => ?_
  split
  · refine .bind .get fun m _ => .bind .set fun _ _ => ?_
    exact .bind (onWorld_leavesNames (services.adopt_ends unnamed_holdsOfCalls _ _ _ _))
      fun site _ => .update
  · exact .pure trivial

theorem getObject_leavesNames : LeavesNames services.getObject := by
  refine .bind .get fun m _ => ?_
  split
  · exact malformed_leavesNames _
  · exact .bind .set fun _ _ => services.openFrame_leavesNames _

theorem startMember_leavesNames (member : Member) : LeavesNames (services.startMember member) := by
  refine .bind .get fun m _ => ?_
  split
  · exact malformed_leavesNames _
  · split
    · exact malformed_leavesNames _
    · refine .bind services.ensureObject_leavesNames fun site _ => ?_
      exact .bind (onWorld_leavesNames (services.loaderOf_ends unnamed_holdsOfCalls member))
        fun loader _ => .update

theorem literalValue_leavesNames (s : String) : LeavesNames (services.literalValue s) := by
  refine .bind .get fun m _ => ?_
  split
  · exact malformed_leavesNames _
  · exact .bind (onWorld_leavesNames (services.readLiteral_ends unnamed_holdsOfCalls _ _ s))
      fun v _ => .update

theorem record_leavesNames (r : Recording σ) (i : Instruction) :
    LeavesNames (services.record r i) := by
  rw [record]
  split
  · exact .bind .update fun _ _ =>
      .bind (onWorld_leavesNames (Build.onHeap_ends_of_wrap fun _ => trivial)) fun v _ =>
        .bind .update fun _ _ => services.endMember_leavesNames
  · exact .update

/-! ## The end of an object -/

theorem notifyCreated_scopes (id : ObjectId) (w : World σ) :
    (services.notifyCreated id w).2.context.scopes = w.context.scopes := by
  unfold notifyCreated
  dsimp only
  split <;> rfl

theorem register_duplicate (name : Option String) (scope : Option ScopeId) (id : ObjectId)
    (w : World σ) (other : String) :
    (∃ w', register name scope id w = .error (.namescope (.duplicateName other)) w') ↔
      name = some other ∧ ∃ s, scope = some s ∧ other ∈ w.context.scopes.names s := by
  cases name with
  | none => simp [register]
  | some name =>
    cases scope with
    | none => simp [register]
    | some s =>
      have herror : (∃ w', register (some name) (some s) id w =
          .error (.namescope (.duplicateName other)) w') ↔
          w.context.scopes.register s name id = .error (.duplicateName other) := by
        simp only [register, Action.bind_apply, Action.get_apply]
        cases w.context.scopes.register s name id <;> simp
      rw [herror, Namescopes.register_duplicate]
      constructor
      · rintro ⟨rfl, hmem⟩
        exact ⟨rfl, s, rfl, hmem⟩
      · rintro ⟨hname, u, hu, hmem⟩
        cases hname
        cases hu
        exact ⟨rfl, hmem⟩

/-- The end of an object fails for its name when its scope has the name. -/
theorem complete_duplicate {type : TypeName} {name : Option String} {site : Site}
    {outside : Option (Option ScopeId)} {w : World σ} {other : String} :
    (∃ w', services.complete type name site outside w =
        .error (.namescope (.duplicateName other)) w') ↔
      name = some other ∧ ∃ s, services.nameScope type site outside = some s ∧
        other ∈ w.context.scopes.names s := by
  rw [complete_eq]
  split
  · have htold := register_duplicate name (services.nameScope type site outside) site.object
      (services.notifyCreated site.object w).2 other
    rw [notifyCreated_scopes] at htold
    exact htold
  · exact register_duplicate ..

/-- The machine ends an object whose name is there already in the scope in which the object would be
named; the object is made by then. -/
inductive ClosesTaken (m : Machine σ) (name : String) : Prop
  | intro {top : Frame} {rest : List Frame} {site : Site} {w : World σ} {scope : ScopeId} :
      m.recording = none → m.stack = top :: rest → top.member = none →
      top.isPlaceholder = false → top.name = some name →
      services.objectOf m top m.world = .ok site w →
      services.nameScope top.type site (m.parent.map (·.scope)) = some scope →
      name ∈ w.context.scopes.names scope → ClosesTaken m name

variable {services} in
theorem ClosesTaken.recording {m : Machine σ} {name : String} (h : services.ClosesTaken m name) :
    m.recording = none := by
  cases h with
  | intro hr => exact hr

theorem completeObject_duplicate {m : Machine σ} {top : Frame} {rest : List Frame} {site : Site}
    (hs : m.stack = top :: rest) (hsite : top.site = some site) {name : String} :
    (∃ m', services.completeObject m = .error (.namescope (.duplicateName name)) m') ↔
      top.name = some name ∧ ∃ s,
        services.nameScope top.type site (m.parent.map (·.scope)) = some s ∧
          name ∈ m.world.context.scopes.names s := by
  rw [← complete_duplicate]
  cases rest with
  | nil =>
    have hparent : m.parent.map (·.scope) = none := by simp [Machine.parent, hs]
    rw [hparent, completeObject_of_root services hs hsite]
    cases services.complete top.type top.name site none m.world <;> simp
  | cons parent rest =>
    have hparent : m.parent.map (·.scope) = some parent.scope := by simp [Machine.parent, hs]
    rw [hparent, completeObject_of_inner services hs hsite, Action.bind_apply]
    cases services.complete top.type top.name site (some parent.scope) m.world with
    | error e w => simp
    | ok _ w =>
      have hvalue := services.valueOf_ends unnamed_holdsOfCalls top.type site parent.object m.root
        parent.member
      cases hv : services.valueOf top.type site parent.object m.root parent.member w with
      | ok v w => simp [hv]
      | error e w =>
        have hother := hvalue.error hv
        constructor
        · rintro ⟨m', h⟩
          simp only [hv, EStateM.Result.error.injEq] at h
          rw [h.1] at hother
          exact hother.elim
        · rintro ⟨w', h⟩
          cases h

theorem objectOf_leavesNames (m : Machine σ) (top : Frame) :
    LeavesNames (services.objectOf m top) := by
  rw [objectOf]
  split
  · exact .pure trivial
  · exact services.make_ends unnamed_holdsOfCalls _ _ _

theorem endObject_duplicate {m : Machine σ} (hr : m.recording = none) {name : String} :
    (∃ m', services.endObject m = .error (.namescope (.duplicateName name)) m') ↔
      services.ClosesTaken m name := by
  constructor
  · rintro ⟨m', h⟩
    cases hs : m.stack with
    | nil => simp [endObject, hs, Machine.malformed] at h
    | cons top rest =>
      cases ht : top.member with
      | some other => simp [endObject, hs, ht, Machine.malformed] at h
      | none =>
        cases hp : top.isPlaceholder with
        | true => simp [endObject, hs, ht, hp] at h
        | false =>
          rw [endObject_of_closed services hs ht hp, completeObject_eq services hs] at h
          cases hobject : services.objectOf m top m.world with
          | error e w =>
            simp only [hobject, EStateM.Result.error.injEq] at h
            have hother := (services.objectOf_leavesNames m top).error hobject
            rw [h.1] at hother
            exact hother.elim
          | ok site w =>
            simp only [hobject] at h
            have hstack : ((m.setSite site).inWorld w).stack = top.setSite site :: rest :=
              m.mapTop_stack _ hs
            obtain ⟨hname, s, hscope, hmem⟩ :=
              (services.completeObject_duplicate hstack rfl).1 ⟨m', h⟩
            have hparent : ((m.setSite site).inWorld w).parent = m.parent := m.mapTop_parent _
            rw [hparent] at hscope
            exact .intro hr hs ht hp hname hobject hscope hmem
  · rintro ⟨-, hs, ht, hp, hname, hobject, hscope, hmem⟩
    rename_i top rest site w s
    have hstack : ((m.setSite site).inWorld w).stack = top.setSite site :: rest :=
      m.mapTop_stack _ hs
    have hparent : ((m.setSite site).inWorld w).parent = m.parent := m.mapTop_parent _
    rw [endObject_of_closed services hs ht hp, completeObject_eq services hs, hobject]
    exact (services.completeObject_duplicate hstack rfl).2 ⟨hname, s, hparent ▸ hscope, hmem⟩

/-! ## Runs -/

theorem execute_leavesNames {i : Instruction} (h : i ≠ .endObject) :
    LeavesNames (services.execute i) := by
  cases i with
  | startObject start => exact services.startObject_leavesNames start
  | getObject => exact services.getObject_leavesNames
  | startMember m => exact services.startMember_leavesNames m
  | value s => exact services.literalValue_leavesNames s
  | endMember => exact services.endMember_leavesNames
  | endObject => exact absurd rfl h

theorem step_duplicate {i : Instruction} {m : Machine σ} {name : String} :
    (∃ m', services.step i m = .error (.namescope (.duplicateName name)) m') ↔
      i = .endObject ∧ services.ClosesTaken m name := by
  cases hr : m.recording with
  | some r =>
    rw [step_of_recording services hr]
    constructor
    · rintro ⟨m', h⟩
      exact ((services.record_leavesNames r i).error h).elim
    · rintro ⟨-, h⟩
      rw [h.recording] at hr
      cases hr
  | none =>
    rw [step_of_idle services hr]
    by_cases hi : i = .endObject
    · subst hi
      exact (services.endObject_duplicate hr).trans (by simp)
    · constructor
      · rintro ⟨m', h⟩
        exact ((services.execute_leavesNames hi).error h).elim
      · rintro ⟨h, -⟩
        exact absurd h hi

/-- A stream fails for a name at the end of an object whose name is there already. -/
theorem steps_duplicate {stream : List Instruction} {m : Machine σ} {name : String} :
    (∃ m', services.steps stream m = .error (.namescope (.duplicateName name)) m') ↔
      ∃ pre post m₁, stream = pre ++ .endObject :: post ∧ services.steps pre m = .ok () m₁ ∧
        services.ClosesTaken m₁ name := by
  constructor
  · rintro ⟨m', h⟩
    induction stream generalizing m with
    | nil => cases h
    | cons i is ih =>
      rw [steps_cons] at h
      cases hi : services.step i m with
      | error e m₁ =>
        simp only [hi, EStateM.Result.error.injEq] at h
        obtain ⟨rfl, hcloses⟩ := services.step_duplicate.1 ⟨m₁, h.1 ▸ hi⟩
        exact ⟨[], is, m, rfl, rfl, hcloses⟩
      | ok _ m₁ =>
        simp only [hi] at h
        obtain ⟨pre, post, m₂, rfl, hpre, hcloses⟩ := ih h
        refine ⟨i :: pre, post, m₂, rfl, ?_, hcloses⟩
        rw [steps_cons, hi]
        exact hpre
  · rintro ⟨pre, post, m₁, rfl, hpre, hcloses⟩
    obtain ⟨m', h⟩ := services.step_duplicate.2 ⟨rfl, hcloses⟩
    refine ⟨m', ?_⟩
    rw [steps_append, Action.bind_apply, hpre]
    simp only [steps_cons, h]

theorem run_duplicate {stream : List Instruction} {root : Option ObjectId}
    {base : Option ScopeId} {w : World σ} {name : String} :
    (∃ w', services.run stream root base w = .error (.namescope (.duplicateName name)) w') ↔
      ∃ pre post m, stream = pre ++ .endObject :: post ∧
        services.steps pre (blank w root base) = .ok () m ∧ services.ClosesTaken m name := by
  rw [← steps_duplicate, run_eq_steps]
  cases services.steps stream (blank w root base) with
  | error e m => simp
  | ok _ m =>
    have hfinish : m.finish ≠ .error (.namescope (.duplicateName name)) := by
      intro h
      rw [Machine.finish] at h
      by_cases hlevels : 0 < m.level + if m.isRecording then 1 else 0
      · simp [hlevels] at h
      · cases hresult : m.result <;> simp [hlevels, hresult] at h
    cases hend : m.finish with
    | ok id => simp [hend]
    | error e =>
      rw [hend] at hfinish
      simp only [hend, EStateM.Result.error.injEq, reduceCtorEq, exists_false, iff_false]
      rintro ⟨w', rfl, -⟩
      exact hfinish rfl

theorem build_duplicate (t : Tree) (root : Option ObjectId) (w : World σ) (name : String) :
    (∃ w', services.build t root w = .error (.namescope (.duplicateName name)) w') ↔
      ∃ stream pre post m, t.write = .ok stream ∧ stream = pre ++ .endObject :: post ∧
        services.steps pre (blank w root none) = .ok () m ∧ services.ClosesTaken m name := by
  cases hwrite : t.write with
  | error e =>
    have hbuild : services.build t root w = .error e w := by rw [build, hwrite]
    obtain ⟨owner, names, rfl⟩ := Tree.write_error hwrite
    simp [hbuild]
  | ok stream =>
    have hbuild : services.build t root w = services.run stream root none w := by
      rw [build, hwrite]
    rw [hbuild, run_duplicate]
    simp

end Services
end ObjectMarkup
