/-
Which streams a machine accepts.

A stream can go wrong in two ways: it nests wrongly, or one of the services that it needs fails.
`Services.calls` names what an instruction asks of the services.  As long as they do it
(`Services.Serves`), the streams that are accepted are the words of the grammar, and every other
stream fails where it stops being the beginning of a word; `run_accepts_words` says both.

The place of the machine in the grammar carries the proof.  An instruction that can stand there is
carried out and leads to the next place, and one that cannot is refused (`step_follows`).
-/
import ObjectMarkup.Proofs.Drive
import ObjectMarkup.Proofs.Frames

namespace ObjectMarkup

variable {σ : Type}

def Build.Succeeds {α : Type} (act : Build σ α) (w : World σ) : Prop :=
  ∃ a w', act w = .ok a w'

/-- When two actions succeed one after the other, both do. -/
theorem Build.Succeeds.of_bind {α β : Type} {act : Build σ α} {f : α → Build σ β} {w : World σ}
    (h : (act >>= f).Succeeds w) : ∃ a w', act w = .ok a w' ∧ (f a).Succeeds w' := by
  obtain ⟨b, w'', h⟩ := h
  rw [Action.bind_apply] at h
  cases hact : act w with
  | ok a w' => exact ⟨a, w', rfl, b, w'', by simpa [hact] using h⟩
  | error e w' => simp [hact] at h

namespace Services

variable (services : Services σ)

def isRecorded (member : Member) : Bool := (services.loaders.find? member).isSome

/-! ## What an instruction asks of the services -/

/-- Commits what the open member of a frame has received, and more. -/
def commitOpen (top : Frame) (more : List Value) : Build σ Unit :=
  match top.site, top.member with
  | some site, some member =>
    services.commit site.object site.collects member (top.pending ++ more) top.retrieved
  | _, _ => pure ()

/-- The end of an object that was made here. -/
def endCalls (m : Machine σ) (top : Frame) : Build σ Unit := do
  let site ← services.objectOf m top
  services.complete top.type top.name site (m.parent.map (·.scope))
  match m.parent with
  | some parent => do
    let _ ← services.valueOf top.type site parent.object m.root parent.member
  | none => pure ()

/-- What an instruction asks of the services, where it can stand. -/
def calls (m : Machine σ) (i : Instruction) : Build σ Unit :=
  match m.recording, i, m.stack with
  | some r, _, top :: _ =>
    if depthAfter r.depth i = 0 then do
      let v ← Build.onHeap .deferred (r.loader r.member r.instructions)
      services.commitOpen top [v]
    else pure ()
  | none, .startObject start, stack => do
    Build.ofExcept fun _ => services.checkType start.type
    match stack, m.supplied with
    | [], some id => do
      let _ ← services.adopt m.base (services.host.typeOf m.world.heap id) id true
    | _, _ => pure ()
  | none, .startMember member, top :: _ =>
    if top.member.isSome then pure ()
    else do
      let _ ← services.objectOf m top
      let _ ← Build.ofExcept fun _ => services.loaderOf member
  | none, .value literal, top :: _ =>
    match top.member with
    | some member => do
      let _ ← services.readLiteral m.root member literal
    | none => pure ()
  | none, .endMember, top :: _ => services.commitOpen top []
  | none, .endObject, top :: _ =>
    if top.member.isSome || top.isPlaceholder then pure () else services.endCalls m top
  | _, _, _ => pure ()

def HoldsObject (m : Machine σ) : Prop :=
  ∀ top rest member site, m.stack = top :: rest → top.member = some member →
    top.site = some site →
      ∃ target, services.host.getMember m.world.heap site.object member = some (.object target)

/-- The services do what an instruction asks of them: no call fails, and what `getObject` looks
for is there. -/
structure Answers (m : Machine σ) (i : Instruction) : Prop where
  calls : (services.calls m i).Succeeds m.world
  held : i = .getObject → m.recording = none → services.HoldsObject m

/-- The services do what a stream asks of them. -/
def Serves : List Instruction → Machine σ → Prop
  | [], _ => True
  | i :: is, m => services.Answers m i ∧ ∀ m', services.step i m = .ok () m' → Serves is m'

/-! ## One instruction -/

/-- The outcome of an instruction, if the grammar allows it and leads to a place, or if it does
not. -/
inductive Follows (maxDepth : Nat) :
    Option Position → EStateM.Result Error (Machine σ) Unit → Prop
  | ok {q : Position} {m : Machine σ} :
      m.Sound maxDepth → m.position = q → Follows maxDepth (some q) (.ok () m)
  | error {e : StructureError} {m : Machine σ} :
      Follows maxDepth none (.error (.structural e) m)

theorem checkStart_of_type {type : TypeName} (h : services.checkType type = .ok ()) (level : Nat) :
    services.checkStart type level =
      if services.settings.maxDepth < level then
        .error (.structural (.tooDeep services.settings.maxDepth))
      else .ok () := by
  rw [checkStart_eq, h]

section

variable {services} {m : Machine σ} {top : Frame} {rest : List Frame} {site : Site}
  {member : Member} {i : Instruction}

open Machine

theorem Answers.checkType {start : ObjectStart} (h : services.Answers m (.startObject start))
    (hr : m.recording = none) : services.checkType start.type = .ok () := by
  have hcalls := h.calls
  simp only [Services.calls, hr] at hcalls
  obtain ⟨_, _, hcheck, -⟩ := hcalls.of_bind
  exact (Build.ofExcept_eq_ok hcheck).1

theorem Answers.adopt {start : ObjectStart} {id : ObjectId}
    (h : services.Answers m (.startObject start)) (hr : m.recording = none) (hs : m.stack = [])
    (hsup : m.supplied = some id) : ∃ site w, services.adopt m.base
      (services.host.typeOf m.world.heap id) id true m.world = .ok site w := by
  have hcalls := h.calls
  simp only [Services.calls, hr, hs, hsup] at hcalls
  obtain ⟨_, _, hcheck, hadopt⟩ := hcalls.of_bind
  obtain ⟨-, rfl⟩ := Build.ofExcept_eq_ok hcheck
  obtain ⟨site, w, hsite, -⟩ := hadopt.of_bind
  exact ⟨site, w, hsite⟩

theorem startFrame_sound (start : ObjectStart) : (startFrame start).Sound :=
  ⟨fun h => (nomatch h), fun h => (nomatch h), fun _ => rfl, fun _ => rfl⟩

theorem follows_start (hm : m.Sound services.settings.maxDepth) (hs : m.stack = [])
    (hr : m.recording = none) (hc : m.rootClosed = false) {start : ObjectStart}
    (ha : services.Answers m (.startObject start)) :
    Follows services.settings.maxDepth
      (Position.start.next services.settings.maxDepth services.isRecorded (.startObject start))
      (services.startObject start m) := by
  have hlevel : m.level = 0 := by simp [level, hs]
  have hcheck := services.checkStart_of_type (ha.checkType hr) 1
  by_cases hd : 0 < services.settings.maxDepth
  · have hnext : Position.start.next services.settings.maxDepth services.isRecorded
        (.startObject start) = some (.members 0) := by simp [Position.next, hd]
    rw [if_neg (by omega)] at hcheck
    rw [hnext]
    cases hsup : m.supplied with
    | none =>
      rw [startObject_of_first services hs hc hsup, hcheck]
      refine .ok (hm.openObject hr (startFrame_sound start) hc (.inl ⟨hs, rfl⟩) (by omega)) ?_
      rw [position_of_closed (m.openObject_stack _) hr rfl, hs]
      rfl
    | some id =>
      obtain ⟨site, w, hadopt⟩ := ha.adopt hr hs hsup
      have haround : (m.openObject (startFrame start)).around = m.base := by
        simp [around, parent, openObject, hs]
      rw [startObject_of_supplied services hs hc hsup, hcheck]
      simp only []
      rw [adoptSupplied_apply services (m := m.openObject (startFrame start)) rfl, haround,
        openObject_world, hadopt]
      let frame : Frame := { startFrame start with
        type := services.host.typeOf m.world.heap id, site := some site }
      have hframe : frame.Sound := ⟨fun _ => rfl, fun _ => rfl, fun _ => rfl, fun _ => rfl⟩
      have hposition : (({ m with supplied := none } : Machine σ).openObject frame).position =
          .members 0 := by
        simp [position, hs, hr, frame, startFrame]
      have hsound := (hm.withSupplied none).openObject hr hframe hc (.inl ⟨hs, rfl⟩)
        (show level _ < _ from hlevel ▸ hd)
      exact .ok (hsound.inWorld w) hposition
  · have hnext : Position.start.next services.settings.maxDepth services.isRecorded
        (.startObject start) = none := by simp [Position.next, hd]
    rw [if_pos (by omega)] at hcheck
    rw [hnext]
    cases hsup : m.supplied with
    | none =>
      rw [startObject_of_first services hs hc hsup, hcheck]
      exact .error
    | some id =>
      rw [startObject_of_supplied services hs hc hsup, hcheck]
      exact .error

/-- What cannot stand where the machine is cannot stand at its place in the grammar. -/
theorem next_of_fault (hr : m.recording = none) {e : StructureError} (h : m.fault i = some e)
    (maxDepth : Nat) (recorded : Member → Bool) :
    m.position.next maxDepth recorded i = none := by
  cases hs : m.stack with
  | nil =>
    rw [position_of_empty hs]
    cases hc : m.rootClosed with
    | true => cases i <;> rfl
    | false =>
      cases i with
      | startObject start => simp [fault, entryFault, hs, hc] at h
      | _ => rfl
  | cons top rest =>
    cases ht : top.member with
    | none =>
      rw [position_of_closed hs hr ht]
      cases i with
      | startMember member => simp [fault, hs, ht] at h
      | endObject => simp [fault, hs, ht] at h
      | _ => cases rest.length <;> rfl
    | some member =>
      rw [position_of_open hs hr ht]
      cases i with
      | startMember member => rfl
      | endObject => rfl
      | startObject start => simp [fault, entryFault, hs, ht] at h
      | _ => simp [fault, hs, ht] at h

theorem follows_startObject (hm : m.Sound services.settings.maxDepth) (hr : m.recording = none)
    (hs : m.stack = top :: rest) (ht : top.member = some member) {start : ObjectStart}
    (ha : services.Answers m (.startObject start)) :
    Follows services.settings.maxDepth
      (m.position.next services.settings.maxDepth services.isRecorded (.startObject start))
      (services.startObject start m) := by
  have hlevel : m.level = rest.length + 1 := by simp [level, hs]
  rw [position_of_open hs hr ht, startObject_of_open services hs ht,
    services.checkStart_of_type (ha.checkType hr), hlevel]
  by_cases hd : rest.length + 1 < services.settings.maxDepth
  · rw [if_neg (by omega), Position.next, if_pos hd]
    refine .ok (hm.openObject hr (startFrame_sound start) (hm.rootClosed_of_cons hs)
      (.inr ⟨top, rest, hs, by simp [ht]⟩) (by omega)) ?_
    rw [position_of_closed (m.openObject_stack _) hr rfl, hs]
    rfl
  · rw [if_pos (by omega), Position.next, if_neg hd]
    exact .error

theorem follows_getObject (hm : m.Sound services.settings.maxDepth) (hr : m.recording = none)
    (hs : m.stack = top :: rest) (ht : top.member = some member) (hsite : top.site = some site)
    (ha : services.Answers m .getObject) :
    Follows services.settings.maxDepth
      (m.position.next services.settings.maxDepth services.isRecorded .getObject)
      (services.getObject m) := by
  have hlevel : m.level = rest.length + 1 := by simp [level, hs]
  obtain ⟨target, htarget⟩ := ha.held rfl hr top rest member site hs ht hsite
  have hretrieve : (m.retrieve (.object target)).stack = top.retrieve (.object target) :: rest :=
    m.mapTop_stack _ hs
  rw [position_of_open hs hr ht, getObject_of_open services hs ht hsite htarget, hlevel]
  by_cases hd : rest.length + 1 < services.settings.maxDepth
  · rw [if_neg (by omega), Position.next, if_pos hd]
    have hframe : (services.placeholder m.world.heap site target).Sound :=
      ⟨fun _ => rfl, fun _ => rfl, fun _ => rfl, fun _ => rfl⟩
    have hidle : (m.retrieve (.object target)).recording = none :=
      (m.mapTop_recording _).trans hr
    refine .ok ((hm.retrieve hr hs ht (.object target)).openObject hidle hframe ?_
      (.inr ⟨_, rest, hretrieve, by simp [Frame.retrieve, ht]⟩) ?_) ?_
    · exact (hm.retrieve hr hs ht (.object target)).rootClosed_of_cons hretrieve
    · rw [level, hretrieve]
      exact hd
    · rw [position_of_closed (openObject_stack _ _) hidle rfl, hretrieve]
      rfl
  · rw [if_pos (by omega), Position.next, if_neg hd]
    exact .error

/-- A member opens, and is recorded if it has a loader. -/
theorem follows_startMember (hm : m.Sound services.settings.maxDepth) (hr : m.recording = none)
    (hs : m.stack = top :: rest) (ht : top.member = none)
    (ha : services.Answers m (.startMember member)) :
    Follows services.settings.maxDepth
      (m.position.next services.settings.maxDepth services.isRecorded (.startMember member))
      (services.startMember member m) := by
  have hcalls := ha.calls
  simp only [Services.calls, hr, hs, ht, Option.isSome_none, Bool.false_eq_true, if_false] at hcalls
  obtain ⟨site, w, hobject, hcalls⟩ := hcalls.of_bind
  obtain ⟨loader, _, hloader, -⟩ := hcalls.of_bind
  obtain ⟨hloader, -⟩ := Build.ofExcept_eq_ok hloader
  have hfind := services.loaderOf_ok hloader
  have hstack : (m.setSite site).stack = top.setSite site :: rest := m.mapTop_stack _ hs
  have hidle : (m.setSite site).recording = none := (m.mapTop_recording _).trans hr
  have hsound := ((hm.setSite hr hs site).inWorld w).openMember hidle hstack
    (show (top.setSite site).site = some site from rfl) member loader
  have hopen : (((m.setSite site).inWorld w).openMember member loader).stack =
      (top.setSite site).openMember member :: rest := by
    cases loader <;> exact mapTop_stack _ _ hstack
  rw [startMember_of_closed services hs ht, ensureObject_eq services hs, hobject, hloader,
    position_of_closed hs hr ht, Position.next, isRecorded, hfind]
  refine .ok hsound ?_
  cases loader with
  | none => exact position_of_open hopen ((mapTop_recording _ _).trans hidle) rfl
  | some loader => exact position_of_recording hopen rfl

theorem follows_value (hm : m.Sound services.settings.maxDepth) (hr : m.recording = none)
    (hs : m.stack = top :: rest) (ht : top.member = some member) {s : String}
    (ha : services.Answers m (.value s)) :
    Follows services.settings.maxDepth
      (m.position.next services.settings.maxDepth services.isRecorded (.value s))
      (services.literalValue s m) := by
  have hcalls := ha.calls
  simp only [Services.calls, hr, hs, ht] at hcalls
  obtain ⟨v, w, hread, -⟩ := hcalls.of_bind
  rw [literalValue_of_open services hs ht, hread, position_of_open hs hr ht]
  refine .ok ((hm.push hr hs ht v).inWorld w) ?_
  exact position_of_open (m.mapTop_stack _ hs) ((m.mapTop_recording _).trans hr) ht

theorem follows_endMember (hm : m.Sound services.settings.maxDepth) (hr : m.recording = none)
    (hs : m.stack = top :: rest) (ht : top.member = some member) (hsite : top.site = some site)
    (hcommit : (services.commitOpen top []).Succeeds m.world) :
    Follows services.settings.maxDepth (some (.members rest.length)) (services.endMember m) := by
  obtain ⟨_, w, hcommit⟩ := hcommit
  simp only [commitOpen, hsite, ht, List.append_nil] at hcommit
  rw [endMember_of_open services hs ht hsite, hcommit]
  refine .ok ((hm.closeMember hr hs).inWorld w) ?_
  exact position_of_closed (m.mapTop_stack _ hs) ((m.mapTop_recording _).trans hr) rfl

/-- The object below the innermost one has a member open. -/
theorem position_close (hm : m.Sound maxDepth) (hr : m.recording = none) {parent : Frame}
    (hs : m.stack = top :: parent :: rest) : ∃ member, parent.member = some member ∧
      m.close.stack = parent :: rest ∧ m.close.position = .contents rest.length := by
  have hstack : m.close.stack = parent :: rest := by simp [Machine.close, hs]
  obtain ⟨member, hmember⟩ := Option.isSome_iff_exists.1 (hm.below parent (by simp [hs]))
  exact ⟨member, hmember, hstack, position_of_open hstack hr hmember⟩

theorem position_closeRoot (hs : m.stack = [top]) (id : ObjectId) :
    ({ m.close with result := some id } : Machine σ).position = .done := by
  have hstack : m.close.stack = [] := by simp [Machine.close, hs]
  have hclosed : m.close.rootClosed = true := by simp [Machine.close, hs]
  exact (position_of_empty hstack).trans (if_pos hclosed)

theorem follows_endObject (hm : m.Sound services.settings.maxDepth) (hr : m.recording = none)
    (hs : m.stack = top :: rest) (ht : top.member = none)
    (ha : services.Answers m .endObject) :
    Follows services.settings.maxDepth
      (m.position.next services.settings.maxDepth services.isRecorded .endObject)
      (services.endObject m) := by
  rw [position_of_closed hs hr ht]
  cases hp : top.isPlaceholder with
  | true =>
    have hend : services.endObject m = .ok () m.close := by simp [endObject, hs, ht, hp]
    rw [hend]
    cases rest with
    | nil =>
      have := hm.bottom top (by simp [hs])
      simp [hp] at this
    | cons parent rest =>
      obtain ⟨_, -, -, hposition⟩ := position_close hm hr hs
      exact .ok (hm.close hr hs) hposition
  | false =>
    have hcalls := ha.calls
    simp only [Services.calls, hr, hs, ht, hp, Option.isSome_none, Bool.or_self,
      Bool.false_eq_true, if_false] at hcalls
    obtain ⟨site, w, hobject, hcalls⟩ := hcalls.of_bind
    obtain ⟨_, w', hcomplete, hcalls⟩ := hcalls.of_bind
    have hstack : (m.setSite site).stack = top.setSite site :: rest := m.mapTop_stack _ hs
    have hidle : (m.setSite site).recording = none := (m.mapTop_recording _).trans hr
    have hsound := (hm.setSite hr hs site).inWorld w
    rw [endObject_of_closed services hs ht hp, completeObject_eq services hs, hobject]
    simp only []
    cases rest with
    | nil =>
      have hparent : m.parent = none := by simp [parent, hs]
      rw [hparent] at hcomplete
      rw [completeObject_of_root services (m := (m.setSite site).inWorld w) hstack rfl]
      simp only [inWorld_world, Frame.setSite, Option.map_none] at hcomplete ⊢
      rw [hcomplete]
      exact .ok ((Sound.closeRoot (m := (m.setSite site).inWorld w) hidle hstack
        site.object).inWorld w') (position_closeRoot (m := (m.setSite site).inWorld w) hstack
          site.object)
    | cons next rest =>
      have hparent : m.parent = some next := by simp [parent, hs]
      have hroot : (m.setSite site).root = m.root := by simp [root, hstack, hs]
      rw [hparent] at hcomplete hcalls
      obtain ⟨v, w'', hvalue, -⟩ := hcalls.of_bind
      obtain ⟨member, hmember, hclose, hposition⟩ := position_close hsound hidle hstack
      rw [completeObject_of_inner services (m := (m.setSite site).inWorld w) hstack rfl,
        inWorld_root, hroot]
      simp only [inWorld_world, Frame.setSite, Action.bind_apply, Option.map_some] at hcomplete ⊢
      rw [hcomplete]
      simp only [hvalue]
      refine .ok (((hsound.close hidle hstack).push hidle hclose hmember v).inWorld w'') ?_
      exact position_of_open (mapTop_stack _ _ hclose) ((mapTop_recording _ _).trans hidle) hmember

/-- An instruction in a deferred member. -/
theorem follows_record (hm : m.Sound services.settings.maxDepth) {r : Recording σ}
    (hr : m.recording = some r) (hs : m.stack = top :: rest) (hdepth : 0 < r.depth)
    (ht : top.member = some r.member) (hp : top.pending = []) (hret : top.retrieved = none)
    (hsite : top.site = some site) (ha : services.Answers m i) :
    Follows services.settings.maxDepth
      (m.position.next services.settings.maxDepth services.isRecorded i)
      (services.record r i m) := by
  rw [position_of_recording hs hr]
  by_cases hlast : depthAfter r.depth i = 0
  · obtain ⟨rfl, hone⟩ : i = .endMember ∧ r.depth = 1 := by
      cases i <;> simp only [depthAfter] at hlast <;> first | exact ⟨rfl, by omega⟩ | omega
    have hcalls := ha.calls
    simp only [Services.calls, hr, hs, hlast, if_true] at hcalls
    obtain ⟨v, w, hload, hcommit⟩ := hcalls.of_bind
    have hstack : (m.withRecording none).stack = top :: rest := hs
    have hpush : ((m.withRecording none).push v).stack = top.receive [v] :: rest :=
      mapTop_stack _ _ hstack
    have hsound := ((hm.endRecording.push rfl hstack ht v).inWorld w)
    rw [record_of_last services hlast, hload, hone]
    refine services.follows_endMember hsound (mapTop_recording _ _) hpush ht hsite ?_
    simpa [commitOpen, Frame.receive, hsite, ht] using hcommit
  · rw [record_of_inside services hlast]
    have hnext : (Position.deferred rest.length (r.depth - 1)).next services.settings.maxDepth
        services.isRecorded i =
          some (.deferred rest.length (depthAfter r.depth i - 1)) := by
      obtain ⟨d, hd⟩ : ∃ d, r.depth = d + 1 := ⟨r.depth - 1, by omega⟩
      rw [hd] at hlast ⊢
      cases i with
      | endMember =>
        cases d with
        | zero => exact absurd rfl hlast
        | succ d => rfl
      | _ => cases d <;> rfl
    rw [hnext]
    refine .ok (hm.record hs ht hp hret (Nat.pos_of_ne_zero hlast)) ?_
    exact position_of_recording (m := m.withRecording (some _)) hs rfl

/-- An instruction is carried out if it can stand here, and is refused if it cannot. -/
theorem step_follows (hm : m.Sound services.settings.maxDepth) (ha : services.Answers m i) :
    Follows services.settings.maxDepth
      (m.position.next services.settings.maxDepth services.isRecorded i) (services.step i m) := by
  rcases hm.places with ⟨hs, hr⟩ | ⟨top, rest, r, site, hs, hr, hdepth, ht, hp, hret, hsite⟩ |
    ⟨top, rest, hs, hr, ht⟩ | ⟨top, rest, member, site, hs, hr, ht, hsite⟩
  case inr.inl =>
    rw [step_of_recording services hr]
    exact services.follows_record hm hr hs hdepth ht hp hret hsite ha
  all_goals
    rw [step_of_idle services hr]
    cases hf : m.fault i with
    | some e =>
      rw [next_of_fault hr hf, services.execute_of_fault hf fun start h => by
        subst h
        exact ha.checkType hr]
      exact .error
    | none => ?_
  case inl =>
    cases i with
    | startObject start =>
      have hc : m.rootClosed = false := by simpa [fault, entryFault, hs] using hf
      rw [position_of_empty hs, hc]
      exact services.follows_start hm hs hr hc ha
    | _ => simp [fault, hs] at hf
  case inr.inr.inl =>
    cases i with
    | startMember member => exact services.follows_startMember hm hr hs ht ha
    | endObject => exact services.follows_endObject hm hr hs ht ha
    | startObject start => simp [fault, entryFault, hs, ht] at hf; split at hf <;> cases hf
    | _ => simp [fault, hs, ht] at hf
  case inr.inr.inr =>
    cases i with
    | startObject start => exact services.follows_startObject hm hr hs ht ha
    | getObject => exact services.follows_getObject hm hr hs ht hsite ha
    | value s => exact services.follows_value hm hr hs ht ha
    | endMember =>
      rw [position_of_open hs hr ht]
      have hcommit := ha.calls
      simp only [Services.calls, hr, hs] at hcommit
      exact services.follows_endMember hm hr hs ht hsite hcommit
    | _ => simp [fault, hs, ht] at hf

end

/-! ## A stream -/

section

variable {services} {m : Machine σ}

/-- A stream is carried out to its end, or up to the first instruction that the grammar does not
allow. -/
theorem steps_follow {stream : List Instruction} (hm : m.Sound services.settings.maxDepth)
    (hs : services.Serves stream m) :
    (∃ m', services.steps stream m = .ok () m' ∧ m'.Sound services.settings.maxDepth ∧
      m.position.after services.settings.maxDepth services.isRecorded stream =
        some m'.position) ∨
    (∃ pre i post q m' e m'', stream = pre ++ i :: post ∧ services.steps pre m = .ok () m' ∧
      m.position.after services.settings.maxDepth services.isRecorded pre = some q ∧
      q.next services.settings.maxDepth services.isRecorded i = none ∧
      services.step i m' = .error (.structural e) m'' ∧
      services.steps stream m = .error (.structural e) m'') := by
  induction stream generalizing m with
  | nil => exact .inl ⟨m, rfl, hm, rfl⟩
  | cons i is ih =>
    obtain ⟨ha, hnext⟩ := hs
    have hstep := services.step_follows hm ha
    generalize hq : m.position.next services.settings.maxDepth services.isRecorded i = q,
      houtcome : services.step i m = outcome at hstep
    have hsteps := services.steps_cons i is m
    rw [houtcome] at hsteps
    cases hstep with
    | @error e m'' =>
      exact .inr ⟨[], i, is, m.position, m, e, m'', rfl, rfl, rfl, hq, houtcome, hsteps⟩
    | @ok q m' hm' hposition =>
      have hafter : ∀ w, m.position.after services.settings.maxDepth services.isRecorded (i :: w) =
          m'.position.after services.settings.maxDepth services.isRecorded w := fun w => by
        rw [Position.after, hq, Option.bind_some, hposition]
      rcases ih hm' (hnext m' houtcome) with ⟨m₁, hrun, hm₁, hp⟩ |
        ⟨pre, j, post, q', m₁, e, m₂, rfl, hrun, hp, hq', herr, hfail⟩
      · exact .inl ⟨m₁, hsteps.trans hrun, hm₁, (hafter is).trans hp⟩
      · refine .inr ⟨i :: pre, j, post, q', m₁, e, m₂, rfl, ?_, (hafter pre).trans hp, hq', herr,
          hsteps.trans hfail⟩
        rw [steps_cons, houtcome]
        exact hrun

end

/-- The run fails at its first instruction after which no word begins with the stream, with a fault
of the nesting. -/
def FailsMidway (stream : List Instruction) (root : Option ObjectId) (base : Option ScopeId)
    (w : World σ) : Prop :=
  ∃ pre i post m e m', stream = pre ++ i :: post ∧
    (pre = [] ∨ Viable services.isRecorded services.settings.maxDepth pre) ∧
    ¬ Viable services.isRecorded services.settings.maxDepth (pre ++ [i]) ∧
    services.steps pre (Machine.blank w root base) = .ok () m ∧
    services.step i m = .error (.structural e) m' ∧
    services.run stream root base w = .error (.structural e) m'.world

/-- The run fails at the end of its stream, which is the beginning of a word and no word, because
of the objects that are open. -/
def FailsAtEnd (stream : List Instruction) (root : Option ObjectId) (base : Option ScopeId)
    (w : World σ) : Prop :=
  (stream = [] ∨ Viable services.isRecorded services.settings.maxDepth stream) ∧
  ∃ m p, services.steps stream (Machine.blank w root base) = .ok () m ∧
    Position.start.after services.settings.maxDepth services.isRecorded stream = some p ∧
    services.run stream root base w = .error (.structural
      (if stream = [] then .noRoot else .incomplete p.openLevels)) m.world

/-- Where the services do what is asked of them, a run accepts the words of the grammar and nothing
else.  Any other stream fails with a fault of the nesting, as soon as no word begins with it, or at
its end. -/
theorem run_accepts_words (stream : List Instruction) (root : Option ObjectId)
    (base : Option ScopeId) (w : World σ)
    (h : services.Serves stream (Machine.blank w root base)) :
    ((∃ id w', services.run stream root base w = .ok id w') ↔
      IsObject services.isRecorded services.settings.maxDepth stream) ∧
    (¬ IsObject services.isRecorded services.settings.maxDepth stream →
      services.FailsMidway stream root base w ∨ services.FailsAtEnd stream root base w) := by
  have hrun := services.run_eq_steps stream root base w
  rcases steps_follow (.blank w root base) h with ⟨m, hsteps, hm, hafter⟩ |
    ⟨pre, i, post, q, m, e, m', rfl, hpre, hafter, hq, hstep, hsteps⟩
  · have hafter : Position.start.after services.settings.maxDepth services.isRecorded stream =
        some m.position := hafter
    simp only [hsteps] at hrun
    by_cases hdone : m.position = .done
    · obtain ⟨id, hid⟩ := hm.finish_of_done hdone
      have hword : IsObject services.isRecorded services.settings.maxDepth stream := by
        rw [isObject_iff_after, hafter, hdone]
      exact ⟨⟨fun _ => hword, fun _ => ⟨id, m.world, by rw [hrun, hid]⟩⟩, fun hn => absurd hword hn⟩
    · have hnot : ¬ IsObject services.isRecorded services.settings.maxDepth stream := by
        rw [isObject_iff_after, hafter]
        simpa using hdone
      have hfinish : m.finish = .error (.structural
          (if stream = [] then .noRoot else .incomplete m.position.openLevels)) := by
        by_cases hempty : stream = []
        · subst hempty
          rw [if_pos rfl]
          exact hm.finish_of_start (Option.some.inj hafter).symm
        · rw [if_neg hempty]
          refine Machine.finish_of_inside (fun hs => ?_) hdone
          exact Position.after_ne_start .start hempty (hs ▸ hafter)
      simp only [hfinish] at hrun
      refine ⟨⟨fun ⟨id, w', hok⟩ => ?_, fun hword => absurd hword hnot⟩,
        fun _ => .inr ⟨empty_or_viable hafter, m, m.position, hsteps, hafter, hrun⟩⟩
      rw [hrun] at hok
      cases hok
  · have hafter : Position.start.after services.settings.maxDepth services.isRecorded pre =
        some q := hafter
    have hbad := not_viable_of_stuck hafter hq
    have hnot : ¬ IsObject services.isRecorded services.settings.maxDepth (pre ++ i :: post) :=
      fun hword => hbad ⟨post, by simpa using hword⟩
    simp only [hsteps] at hrun
    refine ⟨⟨fun ⟨id, w', hok⟩ => ?_, fun hword => absurd hword hnot⟩,
      fun _ => .inl ⟨pre, i, post, m, e, m', rfl, empty_or_viable hafter, hbad, hpre, hstep, hrun⟩⟩
    rw [hrun] at hok
    cases hok

/-! ### A run -/

theorem Answers.of_ok {m : Machine σ} {i : Instruction} {w : World σ} (hi : i ≠ .getObject)
    (h : services.calls m i m.world = .ok () w) : services.Answers m i :=
  ⟨⟨(), w, h⟩, fun he => absurd he hi⟩

theorem Serves.cons {m m' : Machine σ} {i : Instruction} {is : List Instruction}
    (ha : services.Answers m i) (hstep : services.step i m = .ok () m')
    (h : services.Serves is m') : services.Serves (i :: is) m := by
  refine ⟨ha, fun n hn => ?_⟩
  obtain rfl : m' = n := by simpa [hstep] using hn
  exact h

/-- Objects that are counted by the heap and keep nothing: each of them holds the first one in all
its members.  The contents of `Box.Later` are deferred. -/
def boxes : Services Nat where
  schema := {
    resolve := some
    members := fun _ => []
    attached? := fun _ _ => none
    traits := fun _ => {} }
  host := {
    typeOf := fun _ _ => "Box"
    getMember := fun _ _ _ => some (.object ⟨0⟩)
    setMember := fun _ _ _ => pure ()
    setAttached := fun _ _ _ => pure ()
    collects := fun _ _ => false
    append := fun _ _ => pure ()
    listens := fun _ _ => false
    beginInit := fun _ made => made
    endInit := fun _ made => made
    provides := fun _ _ => false
    provide := fun id _ => pure (.object id)
    handles := fun _ _ _ => false }
  activate := fun _ _ made => .ok ⟨made⟩ (made + 1)
  convert := fun _ literal => .ok (.str literal)
  loaders := ⟨[({ owner := "Box", name := "Later" }, fun _ _ => pure .null)]⟩

/-- A box in a box, a visit to it, and a deferred member that would be no word if it were not. -/
def boxStream : List Instruction :=
  [.startObject { type := "Box" },
    .startMember { owner := "Box", name := "Content" },
    .startObject { type := "Box" }, .endObject, .endMember,
    .startMember { owner := "Box", name := "Content" }, .getObject, .endObject, .endMember,
    .startMember { owner := "Box", name := "Later" }, .value "text", .endObject, .endMember,
    .endObject]

theorem run_accepts_words_boxes :
    boxes.Serves boxStream (Machine.blank { heap := 0 } none none) ∧
    ((∃ id w', boxes.run boxStream none none { heap := 0 } = .ok id w') ↔
      IsObject boxes.isRecorded boxes.settings.maxDepth boxStream) ∧
    (¬ IsObject boxes.isRecorded boxes.settings.maxDepth boxStream →
      boxes.FailsMidway boxStream none none { heap := 0 } ∨
        boxes.FailsAtEnd boxStream none none { heap := 0 }) := by
  have hserves : boxes.Serves boxStream (Machine.blank { heap := 0 } none none) := by
    refine .cons _ (.of_ok _ (by decide) rfl) rfl ?_
    refine .cons _ (.of_ok _ (by decide) rfl) rfl ?_
    refine .cons _ (.of_ok _ (by decide) rfl) rfl ?_
    refine .cons _ (.of_ok _ (by decide) rfl) rfl ?_
    refine .cons _ (.of_ok _ (by decide) rfl) rfl ?_
    refine .cons _ (.of_ok _ (by decide) rfl) rfl ?_
    refine .cons _ ⟨⟨_, _, rfl⟩, fun _ _ _ _ _ _ _ _ _ => ⟨_, rfl⟩⟩ rfl ?_
    refine .cons _ (.of_ok _ (by decide) rfl) rfl ?_
    refine .cons _ (.of_ok _ (by decide) rfl) rfl ?_
    refine .cons _ (.of_ok _ (by decide) rfl) rfl ?_
    refine .cons _ (.of_ok _ (by decide) rfl) rfl ?_
    refine .cons _ (.of_ok _ (by decide) rfl) rfl ?_
    refine .cons _ (.of_ok _ (by decide) rfl) rfl ?_
    refine .cons _ (.of_ok _ (by decide) rfl) rfl ?_
    trivial
  exact ⟨hserves, boxes.run_accepts_words boxStream none none { heap := 0 } hserves⟩

end Services
end ObjectMarkup
