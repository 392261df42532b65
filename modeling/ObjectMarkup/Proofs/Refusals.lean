/-
What a refused instruction leaves behind.

An instruction that is wrong where it stands leaves the machine as it is, so that whatever follows
goes on as though it had not been sent.  There is one exception, and `refused_unsent` says how far
it goes: a placeholder that would be nested too deeply has taken the value of its member by then.
The value is used where a member ends that wants one value and has received none
(`Services.WantsValue`).  Where the member does not, two machines that differ in the value only stay
together (`Services.Close`), instruction by instruction.
-/
import ObjectMarkup.Proofs.Effects
import ObjectMarkup.Proofs.Outcomes
import ObjectMarkup.Proofs.Overlooking
import ObjectMarkup.Proofs.Recursion
import ObjectMarkup.Widget.Catalogue

namespace ObjectMarkup

variable {σ : Type}

open ObjectMarkup.Action (Ends)
open Machine (blank)

/-! ## Errors of the nesting -/

/-- The error is not one of the nesting. -/
def Error.IsFromCall : Error → Prop
  | .structural _ => False
  | _ => True

theorem isFromCall_holdsOfCalls : HoldsOfCalls Error.IsFromCall :=
  ⟨fun _ => trivial, fun _ _ => trivial, fun _ _ => trivial, fun _ => trivial, fun _ => trivial,
    fun _ => trivial⟩

namespace Services

theorem objectOf_ends (services : Services σ) {P : Error → Prop} (hP : HoldsOfCalls P)
    (m : Machine σ) (top : Frame) : Ends (services.objectOf m top) (fun _ => True) P := by
  rw [objectOf]
  split
  · exact .pure trivial
  · exact services.make_ends hP _ _ _

section

variable {services : Services σ} {m : Machine σ} {top : Frame} {rest : List Frame}
  {member : Member} {i : Instruction}

/-- What an instruction is refused with for the nesting leaves the machine as it is, or is the depth
of a placeholder.  No call fails with such an error. -/
theorem Breaks.structural {e : StructureError} {m' : Machine σ}
    (h : services.Breaks m i (.structural e) m') :
    m' = m ∨ i = .getObject ∧ e = .tooDeep services.settings.maxDepth ∧
      ∃ top rest member site target, m.recording = none ∧ m.stack = top :: rest ∧
        top.member = some member ∧ top.site = some site ∧
        services.host.getMember m.world.heap site.object member = some (.object target) ∧
        services.settings.maxDepth ≤ m.level ∧ m' = m.retrieve (.object target) := by
  have hcalls := isFromCall_holdsOfCalls
  have hmember : ∀ e, Error.IsFromCall (.member e) := fun _ => trivial
  have hname : ∀ e, Error.IsFromCall (.namescope e) := fun _ => trivial
  cases h with
  | refused => exact .inl rfl
  | tooDeep hr hs ht hsite htarget hdepth =>
    exact .inr ⟨rfl, rfl, _, _, _, _, _, hr, hs, ht, hsite, htarget, hdepth, rfl⟩
  | adopt _ _ _ _ _ hadopt => exact ((services.adopt_ends hcalls _ _ _ _).error hadopt).elim
  | object _ _ hobject => exact ((services.objectOf_ends hcalls _ _).error hobject).elim
  | @loader member _ _ _ _ _ _ _ _ hloader =>
    rw [loaderOf] at hloader
    split at hloader <;> cases hloader
  | commit _ _ _ _ hcommit =>
    exact ((services.commit_ends_of_wrap hmember _ _ _ _ _).error hcommit).elim
  | complete _ _ _ hcomplete =>
    exact ((services.complete_ends hname _ _ _ _).error hcomplete).elim
  | valueOf _ _ _ _ hvalue => exact ((services.valueOf_ends hcalls _ _ _ _ _).error hvalue).elim
  | load _ _ hload => exact ((loader_ends hcalls _ _ _).error hload).elim
  | handOver _ _ _ _ _ hcommit =>
    exact ((services.commit_ends_of_wrap hmember _ _ _ _ _).error hcommit).elim

end

end Services

/-! ## The value that a placeholder took -/

namespace Machine

variable (m : Machine σ) (v : Value)

@[simp] theorem retrieve_world : (m.retrieve v).world = m.world := mapTop_world m _

@[simp] theorem retrieve_level : (m.retrieve v).level = m.level := mapTop_level _ m

@[simp] theorem retrieve_recording : (m.retrieve v).recording = m.recording :=
  mapTop_recording m _

@[simp] theorem retrieve_root : (m.retrieve v).root = m.root :=
  mapTop_root (f := Frame.retrieve v) (fun _ => rfl) m

@[simp] theorem retrieve_retrieve (v' : Value) : (m.retrieve v).retrieve v' = m.retrieve v' :=
  mapTop_mapTop _ _ m

@[simp] theorem closeMember_retrieve : (m.retrieve v).closeMember = m.closeMember :=
  mapTop_mapTop _ _ m

theorem push_retrieve (v' : Value) : (m.push v').retrieve v = (m.retrieve v).push v' := by
  rw [push, retrieve, mapTop_mapTop, mapTop_mapTop]
  rfl

end Machine

namespace Services

variable (services : Services σ)

/-- The open member wants one value when it ends, and has received none. -/
def WantsValue (top : Frame) (member : Member) : Prop :=
  member.isItems = false ∧ services.schema.takesMany member = false ∧ top.pending = []

/-- The innermost object is at the last level, and its open member does not want one value. -/
structure Full (m : Machine σ) (top : Frame) (rest : List Frame) (member : Member) (site : Site) :
    Prop where
  idle : m.recording = none
  stack : m.stack = top :: rest
  opened : top.member = some member
  made : top.site = some site
  depth : services.settings.maxDepth ≤ m.level
  settled : ¬ services.WantsValue top member

/-- The machines are the same, or differ in the value that a placeholder took from a member that
does not want it. -/
inductive Close (m : Machine σ) : Machine σ → Prop
  | same : Close m m
  | taken {top : Frame} {rest : List Frame} {member : Member} {site : Site} (v : Value) :
      services.Full m top rest member site → Close m (m.retrieve v)

section

variable {services} {m n : Machine σ} {top : Frame} {rest : List Frame} {member : Member}
  {site : Site}

theorem commit_retrieved (h : ¬ services.WantsValue top member) (target : ObjectId)
    (collects : Bool) (r r' : Option Value) :
    services.commit target collects member top.pending r =
      services.commit target collects member top.pending r' := by
  have hvalues : services.commitValues target collects member top.pending r =
      services.commitValues target collects member top.pending r' := by
    unfold commitValues
    by_cases hitems : member.isItems = true
    · rw [if_pos hitems, if_pos hitems]
    · by_cases hmany : services.schema.takesMany member = true
      · rw [if_neg hitems, if_neg hitems, if_pos hmany, if_pos hmany]
      · rcases hp : top.pending with _ | ⟨v, _ | ⟨v', vs⟩⟩
        · exact absurd ⟨eq_false_of_ne_true hitems, eq_false_of_ne_true hmany, hp⟩ h
        · rfl
        · rfl
  rw [commit, commit, hvalues]

namespace Full

variable (h : services.Full m top rest member site)

include h

theorem retrieve (v : Value) :
    services.Full (m.retrieve v) (top.retrieve v) rest member site where
  idle := (m.retrieve_recording v).trans h.idle
  stack := m.mapTop_stack _ h.stack
  opened := h.opened
  made := h.made
  depth := (m.retrieve_level v).symm ▸ h.depth
  settled := h.settled

theorem inWorld (w : World σ) : services.Full (m.inWorld w) top rest member site :=
  ⟨h.idle, h.stack, h.opened, h.made, h.depth, h.settled⟩

theorem push (v : Value) : services.Full (m.push v)
    { top with pending := top.pending ++ [v] } rest member site where
  idle := (m.mapTop_recording _).trans h.idle
  stack := m.mapTop_stack _ h.stack
  opened := h.opened
  made := h.made
  depth := by
    rw [Machine.push, Machine.mapTop_level]
    exact h.depth
  settled hwants := List.append_ne_nil_of_right_ne_nil _ (List.cons_ne_nil v []) hwants.2.2

theorem startObject_eq (start : ObjectStart) :
    services.startObject start m = match services.checkType start.type with
      | .error e => .error e m
      | .ok _ => .error (.structural (.tooDeep services.settings.maxDepth)) m := by
  rw [startObject_of_open services h.stack h.opened, checkStart_eq]
  cases services.checkType start.type with
  | error e => rfl
  | ok _ => simp only [Nat.lt_succ_of_le h.depth, if_true]

theorem getObject_eq :
    services.getObject m = match services.currentObject m with
      | .error e => .error (.structural e) m
      | .ok (_, target) => .error (.structural (.tooDeep services.settings.maxDepth))
          (m.retrieve (.object target)) := by
  cases hfound : services.currentObject m with
  | error e => exact getObject_of_missing hfound
  | ok found =>
    obtain ⟨_, _, _, hs, ht, hsite, htarget⟩ := currentObject_ok hfound
    rw [getObject_of_open services hs ht hsite htarget, if_pos h.depth]

theorem currentObject_retrieve (v : Value) :
    services.currentObject (m.retrieve v) = services.currentObject m := by
  simp only [currentObject, h.stack, (h.retrieve v).stack, Machine.retrieve_world]
  rfl

theorem startMember_eq (other : Member) :
    services.startMember other m = .error
      (.structural (.memberAlreadyOpen other.qualifiedName member.qualifiedName)) m := by
  have hfault : m.fault (.startMember other) =
      some (.memberAlreadyOpen other.qualifiedName member.qualifiedName) := by
    simp [Machine.fault, h.stack, h.opened]
  exact services.execute_of_fault hfault fun _ hi => by cases hi

theorem endObject_eq :
    services.endObject m = .error
      (.structural (.endObjectWithOpenMember member.qualifiedName)) m := by
  have hfault : m.fault .endObject = some (.endObjectWithOpenMember member.qualifiedName) := by
    simp [Machine.fault, h.stack, h.opened]
  exact services.execute_of_fault hfault fun _ hi => by cases hi

end Full

theorem Close.inWorld (h : services.Close m n) (w : World σ) :
    services.Close (m.inWorld w) (n.inWorld w) := by
  cases h with
  | same => exact .same
  | taken v h =>
    have hw : (m.retrieve v).inWorld w = (m.inWorld w).retrieve v := (m.inWorld_mapTop w _).symm
    exact hw ▸ .taken v (h.inWorld w)

theorem Full.literalValue_close (h : services.Full m top rest member site) (v : Value)
    (s : String) :
    AgreeAt services.Close (services.literalValue s m)
      (services.literalValue s (m.retrieve v)) := by
  have hclose : services.Close m (m.retrieve v) := .taken v h
  have hn := h.retrieve v
  rw [literalValue_of_open services h.stack h.opened,
    literalValue_of_open services hn.stack hn.opened, m.retrieve_root, m.retrieve_world]
  cases services.readLiteral m.root member s m.world with
  | error e w => exact .error e (hclose.inWorld w)
  | ok v' w =>
    have hpushed : services.Close (m.push v') ((m.retrieve v).push v') :=
      m.push_retrieve v v' ▸ .taken v (h.push v')
    exact .ok _ (hpushed.inWorld w)

/-- A member that does not want what was taken ends alike with it and without, and with the member
the difference is gone. -/
theorem Full.endMember_close (h : services.Full m top rest member site) (v : Value) :
    AgreeAt services.Close (services.endMember m) (services.endMember (m.retrieve v)) := by
  have hn := h.retrieve v
  have hcommit := commit_retrieved h.settled site.object site.collects (some v) top.retrieved
  rw [endMember_of_open services h.stack h.opened h.made,
    endMember_of_open services hn.stack hn.opened hn.made, m.closeMember_retrieve,
    m.retrieve_world]
  simp only [Frame.retrieve, hcommit]
  cases services.commit site.object site.collects member top.pending top.retrieved m.world with
  | ok _ w => exact .ok _ .same
  | error e w => exact .error e .same

/-- An instruction does the same to machines that are close, and leaves them so.  At the last level
no object starts or is entered, and of the rest only the end of the member asks for what was
taken. -/
theorem Close.step (h : services.Close m n) (i : Instruction) :
    AgreeAt services.Close (services.step i m) (services.step i n) := by
  cases h with
  | same =>
    cases services.step i m with
    | ok _ m' => exact .ok _ .same
    | error e m' => exact .error e .same
  | @taken top rest member site v h =>
    have hclose : services.Close m (m.retrieve v) := .taken v h
    have hn := h.retrieve v
    rw [step_of_idle services h.idle, step_of_idle services hn.idle]
    cases i with
    | startObject start =>
      simp only [execute]
      rw [h.startObject_eq, hn.startObject_eq]
      cases services.checkType start.type with
      | error e => exact .error e hclose
      | ok _ => exact .error _ hclose
    | getObject =>
      simp only [execute]
      rw [h.getObject_eq, hn.getObject_eq, h.currentObject_retrieve]
      cases services.currentObject m with
      | error e => exact .error _ hclose
      | ok found =>
        -- the value that is taken now replaces the one in which the machines differed
        simp only [Machine.retrieve_retrieve]
        exact .error _ .same
    | startMember other =>
      simp only [execute]
      rw [h.startMember_eq, hn.startMember_eq]
      exact .error _ hclose
    | value s => exact h.literalValue_close v s
    | endMember => exact h.endMember_close v
    | endObject =>
      simp only [execute]
      rw [h.endObject_eq, hn.endObject_eq]
      exact .error _ hclose

theorem Close.world (h : services.Close m n) : n.world = m.world := by
  cases h with
  | same => rfl
  | taken => exact m.retrieve_world _

theorem Close.level (h : services.Close m n) : n.level = m.level := by
  cases h with
  | same => rfl
  | taken => exact m.retrieve_level _

theorem Close.isRecording (h : services.Close m n) : n.isRecording = m.isRecording := by
  cases h with
  | same => rfl
  | taken => exact congrArg Option.isSome (m.retrieve_recording _)

theorem Close.finish (h : services.Close m n) : n.finish = m.finish := by
  have hresult : n.result = m.result := by
    cases h with
    | same => rfl
    | taken v h => simp [Machine.retrieve, Machine.mapTop, h.stack]
  rw [Machine.finish, Machine.finish, h.level, h.isRecording, hresult]

theorem Close.traceStep (h : services.Close m n) (i : Instruction) :
    (services.traceStep i n).1 = (services.traceStep i m).1 ∧
      services.Close (services.traceStep i m).2 (services.traceStep i n).2 := by
  have hstep := h.step i
  rw [Services.traceStep, Services.traceStep]
  generalize services.step i m = r, services.step i n = r' at hstep
  cases hstep with
  | ok _ _ hclose => exact ⟨rfl, hclose⟩
  | error _ hclose => exact ⟨rfl, hclose⟩

/-- Machines that are close go through any instructions alike. -/
theorem Close.trace (h : services.Close m n) (keepGoing : Bool) (stream : List Instruction) :
    (services.trace keepGoing stream n).1 = (services.trace keepGoing stream m).1 ∧
      services.Close (services.trace keepGoing stream m).2
        (services.trace keepGoing stream n).2 := by
  induction stream generalizing m n with
  | nil => exact ⟨rfl, h⟩
  | cons i is ih =>
    obtain ⟨hfault, hnext⟩ := h.traceStep i
    obtain ⟨hentries, hlast⟩ := ih hnext
    rw [Services.trace, Services.trace]
    simp only [hfault, hnext.level, hnext.isRecording, hentries]
    split
    · exact ⟨rfl, hnext⟩
    · exact ⟨rfl, hlast⟩

/-- A member that wants a value keeps the one that a placeholder took from it, and fails without. -/
theorem commit_of_wants (h : services.WantsValue top member) (target : ObjectId) (collects : Bool)
    (retrieved : Option Value) (w : World σ) :
    services.commit target collects member top.pending retrieved w = match retrieved with
      | some v => .ok () (w.setAmbient (w.context.ambient.add member v target))
      | none => .error (.member (.unexpectedValueCount member.qualifiedName 0)) w := by
  obtain ⟨hitems, hmany, hp⟩ := h
  have hvalues : services.commitValues target collects member top.pending retrieved =
      match retrieved with
      | some v => pure v
      | none => throw (.unexpectedValueCount member.qualifiedName 0) := by
    rw [hp]
    cases retrieved <;> simp [commitValues, hitems, hmany]
  rw [commit, hvalues]
  cases retrieved <;> rfl

theorem step_endMember_of_wants (hr : m.recording = none) (hs : m.stack = top :: rest)
    (ht : top.member = some member) (hsite : top.site = some site)
    (h : services.WantsValue top member) :
    services.step .endMember m = match top.retrieved with
      | some v => .ok () (m.closeMember.inWorld
          (m.world.setAmbient (m.world.context.ambient.add member v site.object)))
      | none =>
        .error (.member (.unexpectedValueCount member.qualifiedName 0)) m.closeMember := by
  rw [step_of_idle services hr, execute, endMember_of_open services hs ht hsite,
    commit_of_wants h]
  cases top.retrieved with
  | some v => rfl
  | none => simp

/-! ## Refusals -/

/-- An instruction that is refused and changes nothing may as well not be sent. -/
theorem trace_cons_of_error {i : Instruction} {e : Error} (h : services.step i m = .error e m)
    (later : List Instruction) :
    services.trace true (i :: later) m =
      (⟨some e, m.level, m.isRecording⟩ :: (services.trace true later m).1,
        (services.trace true later m).2) := by
  have hstep : services.traceStep i m = (some e, m) := by rw [traceStep, h]
  rw [Services.trace, hstep]
  rfl

end

/-- Of a machine wherever it was brought, also past failures: an instruction that is refused for the
nesting leaves it as it was, and whatever follows goes on as though the instruction had not been
sent.  The exception is an object that would be entered too deeply: the innermost frame remembers
that its member gave it out.  If the member does not want one value, nothing that follows tells.
If it does, it may end without one, which else is a failure. -/
theorem refused_unsent {w : World σ} {root : Option ObjectId} {base : Option ScopeId}
    {before : List Instruction} {m m' : Machine σ} {i : Instruction} {e : StructureError}
    (hm : (services.trace true before (blank w root base)).2 = m)
    (h : services.step i m = .error (.structural e) m') :
    (m' = m ∧ ∀ later, services.trace true (i :: later) m =
      (⟨some (.structural e), m.level, m.isRecording⟩ :: (services.trace true later m).1,
        (services.trace true later m).2)) ∨
    (i = .getObject ∧ e = .tooDeep services.settings.maxDepth ∧
      ∃ top rest member site target, m.stack = top :: rest ∧ top.member = some member ∧
        top.site = some site ∧
        services.host.getMember m.world.heap site.object member = some (.object target) ∧
        m' = m.retrieve (.object target) ∧
        (¬ services.WantsValue top member → ∀ later,
          (services.trace true later m').1 = (services.trace true later m).1 ∧
          (services.trace true later m').2.world = (services.trace true later m).2.world ∧
          (services.trace true later m').2.finish = (services.trace true later m).2.finish) ∧
        (services.WantsValue top member →
          services.step .endMember m' = .ok () (m.closeMember.inWorld
            (m.world.setAmbient
              (m.world.context.ambient.add member (.object target) site.object))) ∧
          (top.retrieved = none → services.step .endMember m =
            .error (.member (.unexpectedValueCount member.qualifiedName 0)) m.closeMember))) := by
  have hblank : (blank w root base).Sound services.settings.maxDepth := .blank _ _ _
  have hsound : m.Sound services.settings.maxDepth := hm ▸ trace_sound hblank
  rcases (step_breaks hsound h).structural with rfl |
    ⟨rfl, rfl, top, rest, member, site, target, hr, hs, ht, hsite, htarget, hdepth, rfl⟩
  · exact .inl ⟨rfl, trace_cons_of_error h⟩
  · refine .inr ⟨rfl, rfl, top, rest, member, site, target, hs, ht, hsite, htarget, rfl,
      fun hsettled later => ?_, fun hwants => ⟨?_, fun hnone => ?_⟩⟩
    · have hclose : services.Close m (m.retrieve (.object target)) :=
        .taken _ ⟨hr, hs, ht, hsite, hdepth, hsettled⟩
      obtain ⟨hentries, hlast⟩ := hclose.trace true later
      exact ⟨hentries, hlast.world, hlast.finish⟩
    · have hwants' : services.WantsValue (top.retrieve (.object target)) member := hwants
      have hend := step_endMember_of_wants ((m.retrieve_recording _).trans hr)
        (m.mapTop_stack _ hs) ht hsite hwants'
      simpa [Frame.retrieve] using hend
    · rw [step_endMember_of_wants hr hs ht hsite hwants, hnone]

end Services

/-- A text in a window in a window, the outer window being the last of the objects. -/
def Widget.windowInWindow : Heap :=
  ⟨#[some (.textBlock {}), some (.window { content := .object ⟨0⟩ }),
    some (.window { content := .object ⟨1⟩ })]⟩

/-- The outer window is taken over, the inner one entered, and its content opened. -/
def Widget.intoWindow : List Instruction :=
  [.startObject { type := "Window" }, .startMember (contentMember "Window"), .getObject,
    .startMember (contentMember "Window")]

namespace Services

/-- A second member of the inner window is refused, and whatever follows goes on without it. -/
theorem refused_unsent_intoWindow :
    ∃ m, ((Widget.catalogue.services Heap.host { maxDepth := 2 }).trace true Widget.intoWindow
        (blank { heap := Widget.windowInWindow } (some ⟨2⟩) none)).2 = m ∧
      m.level = 2 ∧
      ∀ later, (Widget.catalogue.services Heap.host { maxDepth := 2 }).trace true
          (.startMember (Widget.contentMember "Window") :: later) m =
        (⟨some (.structural (.memberAlreadyOpen "Window.Content" "Window.Content")), m.level,
            m.isRecording⟩ ::
          ((Widget.catalogue.services Heap.host { maxDepth := 2 }).trace true later m).1,
        ((Widget.catalogue.services Heap.host { maxDepth := 2 }).trace true later m).2) := by
  have hok : (match (Widget.catalogue.services Heap.host { maxDepth := 2 }).step
        (.startMember (Widget.contentMember "Window"))
        ((Widget.catalogue.services Heap.host { maxDepth := 2 }).trace true Widget.intoWindow
          (blank { heap := Widget.windowInWindow } (some ⟨2⟩) none)).2 with
      | .ok _ _ => false
      | .error e m' => decide (m'.level = 2 ∧
          e = .structural (.memberAlreadyOpen "Window.Content" "Window.Content"))) = true := by
    decide +kernel
  split at hok
  · cases hok
  · next e m' hstep =>
    obtain ⟨hlevel, rfl⟩ := of_decide_eq_true hok
    rcases refused_unsent _ rfl hstep with ⟨rfl, hlater⟩ | ⟨hget, -⟩
    · exact ⟨_, rfl, hlevel, hlater⟩
    · cases hget

/-- The text in the inner window would be too deep to be entered.  That is refused, and yet the
content of the window ends as though it had been given, where it would have failed. -/
theorem refused_kept_intoWindow :
    ∃ m m', ((Widget.catalogue.services Heap.host { maxDepth := 2 }).trace true Widget.intoWindow
        (blank { heap := Widget.windowInWindow } (some ⟨2⟩) none)).2 = m ∧
      (Widget.catalogue.services Heap.host { maxDepth := 2 }).step .getObject m =
        .error (.structural (.tooDeep 2)) m' ∧
      ((Widget.catalogue.services Heap.host { maxDepth := 2 }).trace true [.endMember] m).1.map
          (·.fault) = [some (.member (.unexpectedValueCount "Window.Content" 0))] ∧
      ((Widget.catalogue.services Heap.host { maxDepth := 2 }).trace true [.endMember] m').1.map
          (·.fault) = [none] := by
  have hok : (match (Widget.catalogue.services Heap.host { maxDepth := 2 }).step .getObject
        ((Widget.catalogue.services Heap.host { maxDepth := 2 }).trace true Widget.intoWindow
          (blank { heap := Widget.windowInWindow } (some ⟨2⟩) none)).2 with
      | .ok _ _ => false
      | .error e m' => decide (e = .structural (.tooDeep 2) ∧
          ((Widget.catalogue.services Heap.host { maxDepth := 2 }).trace true [.endMember]
            m').1.map (·.fault) = [none])) = true := by decide +kernel
  split at hok
  · cases hok
  · next e m' hstep =>
    obtain ⟨rfl, hend⟩ := of_decide_eq_true hok
    exact ⟨_, m', rfl, hstep, by decide +kernel, hend⟩

end Services
end ObjectMarkup
