/-
What an instruction does to a machine.

`Services.Does` lists the ways in which an instruction is carried out, each with the calls it rests
on and the machine that it leaves, and `Services.Breaks` the ways in which it fails; of these,
`Services.Fails` keeps the worlds only.  `step_does`, `step_breaks` and `step_fails` say that there
are no other ways.  What every run does is then proved by going through these lists, and the
instructions are not opened again.

What holds of the frames (`Machine.Sound`) is used for the ends of members only, and `Does.sound`
and `Breaks.sound` say that it is kept.
-/
import ObjectMarkup.Machine.Trace
import ObjectMarkup.Proofs.Acceptance

namespace ObjectMarkup

variable {σ : Type}

/-- The members that are open in a recording; none are when nothing is recorded. -/
def Machine.depth (m : Machine σ) : Nat :=
  match m.recording with
  | some r => r.depth
  | none => 0

namespace Services

/-- The depth of the recording after an instruction, of which the members that `recorded` tells are
recorded. -/
def depthNext (recorded : Member → Bool) (depth : Nat) (i : Instruction) : Nat :=
  if depth = 0 then
    match i with
    | .startMember member => if recorded member then 1 else 0
    | _ => 0
  else depthAfter depth i

theorem depthNext_of_pos {recorded : Member → Bool} {depth : Nat} (h : 0 < depth)
    (i : Instruction) : depthNext recorded depth i = depthAfter depth i :=
  if_neg (by omega)

/-- The instructions of a stream that are carried out, each with its place: those that stand in no
deferred member, and the ends of the deferred members. -/
def carriedOut (recorded : Member → Bool) :
    Nat → List (Instruction × Nat) → List (Instruction × Nat)
  | _, [] => []
  | depth, (i, n) :: rest =>
    let next := depthNext recorded depth i
    if depth = 0 ∨ next = 0 then (i, n) :: carriedOut recorded next rest
    else carriedOut recorded next rest

variable (services : Services σ)

/-- The ways in which an instruction is carried out. -/
inductive Does (m : Machine σ) : Instruction → Machine σ → Prop
  | startObject {start : ObjectStart} :
      m.recording = none → m.entryFault start.type = none →
      m.level < services.settings.maxDepth → (m.stack = [] → m.supplied = none) →
      Does m (.startObject start) (m.openObject (startFrame start))
  | startSupplied {start : ObjectStart} {id : ObjectId} {site : Site} {w : World σ} :
      m.recording = none → m.stack = [] → m.rootClosed = false → m.supplied = some id →
      0 < services.settings.maxDepth →
      services.adopt m.base (services.host.typeOf m.world.heap id) id true m.world = .ok site w →
      Does m (.startObject start) ((({ m with supplied := none } : Machine σ).openObject
        { startFrame start with
          type := services.host.typeOf m.world.heap id, site := some site }).inWorld w)
  | getObject {top : Frame} {rest : List Frame} {member : Member} {site : Site}
      {target : ObjectId} :
      m.recording = none → m.stack = top :: rest → top.member = some member →
      top.site = some site →
      services.host.getMember m.world.heap site.object member = some (.object target) →
      m.level < services.settings.maxDepth →
      Does m .getObject ((m.retrieve (.object target)).openObject
        (services.placeholder m.world.heap site target))
  | startMember {top : Frame} {rest : List Frame} {site : Site} {w : World σ} {member : Member}
      {loader : Option (Loader σ)} :
      m.recording = none → m.stack = top :: rest → top.member = none →
      services.objectOf m top m.world = .ok site w → services.loaderOf member = .ok loader →
      Does m (.startMember member) (((m.setSite site).inWorld w).openMember member loader)
  | value {top : Frame} {rest : List Frame} {member : Member} {s : String} {v : Value}
      {w : World σ} :
      m.recording = none → m.stack = top :: rest → top.member = some member →
      services.readLiteral m.root member s m.world = .ok v w →
      Does m (.value s) ((m.push v).inWorld w)
  | endMember {top : Frame} {rest : List Frame} {member : Member} {site : Site} {w : World σ} :
      m.recording = none → m.stack = top :: rest → top.member = some member →
      top.site = some site →
      services.commit site.object site.collects member top.pending top.retrieved m.world =
        .ok () w →
      Does m .endMember (m.closeMember.inWorld w)
  | leave {top : Frame} {rest : List Frame} :
      m.recording = none → m.stack = top :: rest → top.member = none →
      top.isPlaceholder = true → Does m .endObject m.close
  | endInner {top parent : Frame} {rest : List Frame} {site : Site} {v : Value}
      {w w' w'' : World σ} :
      m.recording = none → m.stack = top :: parent :: rest → top.member = none →
      top.isPlaceholder = false → services.objectOf m top m.world = .ok site w →
      services.complete top.type top.name site (some parent.scope) w = .ok () w' →
      services.valueOf top.type site parent.object m.root parent.member w' = .ok v w'' →
      Does m .endObject ((m.close.push v).inWorld w'')
  | endRoot {top : Frame} {site : Site} {w w' : World σ} :
      m.recording = none → m.stack = [top] → top.member = none → top.isPlaceholder = false →
      services.objectOf m top m.world = .ok site w →
      services.complete top.type top.name site none w = .ok () w' →
      Does m .endObject (({ m.close with result := some site.object } : Machine σ).inWorld w')
  | record {r : Recording σ} {i : Instruction} :
      m.recording = some r → depthAfter r.depth i ≠ 0 →
      Does m i (m.withRecording (some (r.add (depthAfter r.depth i) [i])))
  | handOver {r : Recording σ} {top : Frame} {rest : List Frame} {site : Site} {v : Value}
      {w w' : World σ} :
      m.recording = some r → r.depth = 1 → m.stack = top :: rest → top.site = some site →
      Build.onHeap .deferred (r.loader r.member r.instructions) m.world = .ok v w →
      services.commit site.object site.collects r.member [v] none w = .ok () w' →
      Does m .endMember ((m.withRecording none).closeMember.inWorld w')

/-- The worlds in which an instruction can fail: the one before it, or the one that a failing call
leaves. -/
inductive Fails (m : Machine σ) : Instruction → World σ → Prop
  | refused {i : Instruction} : Fails m i m.world
  | adopt {start : ObjectStart} {id : ObjectId} {e : Error} {w : World σ} :
      m.recording = none → m.stack = [] → m.supplied = some id →
      services.adopt m.base (services.host.typeOf m.world.heap id) id true m.world = .error e w →
      Fails m (.startObject start) w
  | object {i : Instruction} {top : Frame} {rest : List Frame} {e : Error} {w : World σ} :
      m.recording = none → m.stack = top :: rest →
      services.objectOf m top m.world = .error e w → Fails m i w
  | loader {member : Member} {top : Frame} {rest : List Frame} {site : Site} {w : World σ} :
      m.recording = none → m.stack = top :: rest →
      services.objectOf m top m.world = .ok site w → Fails m (.startMember member) w
  | commit {top : Frame} {rest : List Frame} {member : Member} {site : Site} {e : Error}
      {w : World σ} :
      m.recording = none → m.stack = top :: rest → top.site = some site →
      services.commit site.object site.collects member top.pending top.retrieved m.world =
        .error e w → Fails m .endMember w
  | complete {top : Frame} {rest : List Frame} {site : Site} {e : Error} {w w' : World σ} :
      m.recording = none → m.stack = top :: rest →
      services.objectOf m top m.world = .ok site w →
      services.complete top.type top.name site (m.parent.map (·.scope)) w = .error e w' →
      Fails m .endObject w'
  | valueOf {top parent : Frame} {rest : List Frame} {site : Site} {e : Error}
      {w w' w'' : World σ} :
      m.recording = none → m.stack = top :: parent :: rest →
      services.objectOf m top m.world = .ok site w →
      services.complete top.type top.name site (some parent.scope) w = .ok () w' →
      services.valueOf top.type site parent.object m.root parent.member w' = .error e w'' →
      Fails m .endObject w''
  | load {r : Recording σ} {e : Error} {w : World σ} :
      m.recording = some r → r.depth = 1 →
      Build.onHeap .deferred (r.loader r.member r.instructions) m.world = .error e w →
      Fails m .endMember w
  | handOver {r : Recording σ} {top : Frame} {rest : List Frame} {site : Site} {v : Value}
      {e : Error} {w w' : World σ} :
      m.recording = some r → r.depth = 1 → m.stack = top :: rest → top.site = some site →
      Build.onHeap .deferred (r.loader r.member r.instructions) m.world = .ok v w →
      services.commit site.object site.collects r.member [v] none w = .error e w' →
      Fails m .endMember w'

/-- The ways in which an instruction fails, each with the machine that it leaves.  What is refused
changes nothing, but for the value that a placeholder takes before it is found to be too deep. -/
inductive Breaks (m : Machine σ) : Instruction → Error → Machine σ → Prop
  | refused {i : Instruction} {e : Error} : Breaks m i e m
  | tooDeep {top : Frame} {rest : List Frame} {member : Member} {site : Site} {target : ObjectId} :
      m.recording = none → m.stack = top :: rest → top.member = some member →
      top.site = some site →
      services.host.getMember m.world.heap site.object member = some (.object target) →
      services.settings.maxDepth ≤ m.level →
      Breaks m .getObject (.structural (.tooDeep services.settings.maxDepth))
        (m.retrieve (.object target))
  | adopt {start : ObjectStart} {id : ObjectId} {e : Error} {w : World σ} :
      m.recording = none → m.stack = [] → m.rootClosed = false → m.supplied = some id →
      0 < services.settings.maxDepth →
      services.adopt m.base (services.host.typeOf m.world.heap id) id true m.world = .error e w →
      Breaks m (.startObject start) e
        ((({ m with supplied := none } : Machine σ).openObject (startFrame start)).inWorld w)
  | object {i : Instruction} {top : Frame} {rest : List Frame} {e : Error} {w : World σ} :
      m.recording = none → m.stack = top :: rest →
      services.objectOf m top m.world = .error e w → Breaks m i e (m.inWorld w)
  | loader {member : Member} {top : Frame} {rest : List Frame} {site : Site} {e : Error}
      {w : World σ} :
      m.recording = none → m.stack = top :: rest →
      services.objectOf m top m.world = .ok site w → services.loaderOf member = .error e →
      Breaks m (.startMember member) e ((m.setSite site).inWorld w)
  | commit {top : Frame} {rest : List Frame} {member : Member} {site : Site} {e : Error}
      {w : World σ} :
      m.recording = none → m.stack = top :: rest → top.member = some member →
      top.site = some site →
      services.commit site.object site.collects member top.pending top.retrieved m.world =
        .error e w → Breaks m .endMember e (m.closeMember.inWorld w)
  | complete {top : Frame} {rest : List Frame} {site : Site} {e : Error} {w w' : World σ} :
      m.recording = none → m.stack = top :: rest →
      services.objectOf m top m.world = .ok site w →
      services.complete top.type top.name site (m.parent.map (·.scope)) w = .error e w' →
      Breaks m .endObject e ((m.setSite site).inWorld w')
  | valueOf {top parent : Frame} {rest : List Frame} {site : Site} {e : Error}
      {w w' w'' : World σ} :
      m.recording = none → m.stack = top :: parent :: rest →
      services.objectOf m top m.world = .ok site w →
      services.complete top.type top.name site (some parent.scope) w = .ok () w' →
      services.valueOf top.type site parent.object m.root parent.member w' = .error e w'' →
      Breaks m .endObject e ((m.setSite site).inWorld w'')
  | load {r : Recording σ} {e : Error} {w : World σ} :
      m.recording = some r → r.depth = 1 →
      Build.onHeap .deferred (r.loader r.member r.instructions) m.world = .error e w →
      Breaks m .endMember e ((m.withRecording none).inWorld w)
  | handOver {r : Recording σ} {top : Frame} {rest : List Frame} {site : Site} {v : Value}
      {e : Error} {w w' : World σ} :
      m.recording = some r → r.depth = 1 → m.stack = top :: rest → top.site = some site →
      Build.onHeap .deferred (r.loader r.member r.instructions) m.world = .ok v w →
      services.commit site.object site.collects r.member [v] none w = .error e w' →
      Breaks m .endMember e ((m.withRecording none).closeMember.inWorld w')

/-- An instruction was carried out, or failed, in one of these ways. -/
def Outcome (m : Machine σ) (i : Instruction) : EStateM.Result Error (Machine σ) Unit → Prop
  | .ok _ m' => services.Does m i m'
  | .error e m' => services.Breaks m i e m'

/-! ## One instruction after the other -/

section

open Machine

variable {services} {m : Machine σ} {top : Frame} {rest : List Frame} {site : Site}
  {member : Member} {i : Instruction}

theorem startObject_outcome (hr : m.recording = none) (start : ObjectStart) :
    services.Outcome m (.startObject start) (services.startObject start m) := by
  cases hf : m.entryFault start.type with
  | some e =>
    cases hcheck : services.checkType start.type with
    | error e' =>
      have hstart : services.startObject start m = .error e' m := by
        simp [startObject, onWorld_apply, Build.ofExcept, hcheck]
      rw [hstart]
      exact .refused
    | ok _ =>
      have hfault : m.fault (.startObject start) = some e := hf
      have hstart : services.startObject start m = .error (.structural e) m :=
        services.execute_of_fault hfault fun start' h => by
          cases h
          exact hcheck
      rw [hstart]
      exact .refused
  | none =>
    rw [startObject_of_placed services start hf, checkStart_eq]
    cases services.checkType start.type with
    | error e => exact .refused
    | ok _ =>
      by_cases hdepth : services.settings.maxDepth < m.level + 1
      · simp only [hdepth, if_true]
        exact .refused
      · have hlevel : m.level < services.settings.maxDepth := by omega
        simp only [hdepth, if_false]
        cases hs : m.stack with
        | cons top rest => exact .startObject hr hf hlevel (by simp [hs])
        | nil =>
          cases hsup : m.supplied with
          | none => exact .startObject hr hf hlevel fun _ => hsup
          | some id =>
            have hclosed : m.rootClosed = false := by simpa [entryFault, hs] using hf
            have hstack : (m.openObject (startFrame start)).stack = startFrame start :: [] := by
              rw [openObject_stack, hs]
            have haround : (m.openObject (startFrame start)).around = m.base := by
              simp [around, parent, openObject, hs]
            simp only []
            rw [adoptSupplied_apply services hstack, haround, openObject_world]
            cases hadopt : services.adopt m.base (services.host.typeOf m.world.heap id) id true
                m.world with
            | error e w => exact .adopt hr hs hclosed hsup (by omega) hadopt
            | ok site w =>
              have h : services.Does m (.startObject start) _ :=
                .startSupplied hr hs hclosed hsup (by omega) hadopt
              simpa [Outcome, openObject, hs] using h

/-- The object that can be entered is the value of the open member of the innermost object. -/
theorem currentObject_ok {target : ObjectId} (h : services.currentObject m = .ok (site, target)) :
    ∃ top rest member, m.stack = top :: rest ∧ top.member = some member ∧ top.site = some site ∧
      services.host.getMember m.world.heap site.object member = some (.object target) := by
  unfold currentObject at h
  split at h
  · cases h
  · next top rest hs =>
    split at h
    · next member site' ht hsite =>
      split at h
      · next hget =>
        cases h
        exact ⟨top, rest, member, hs, ht, hsite, hget⟩
      · cases h
    · cases h

theorem getObject_of_missing {e : StructureError} (h : services.currentObject m = .error e) :
    services.getObject m = .error (.structural e) m := by
  simp [getObject, h, malformed]

theorem getObject_outcome (hr : m.recording = none) :
    services.Outcome m .getObject (services.getObject m) := by
  cases hcurrent : services.currentObject m with
  | error e =>
    rw [getObject_of_missing hcurrent]
    exact .refused
  | ok found =>
    obtain ⟨site, target⟩ := found
    obtain ⟨top, rest, member, hs, ht, hsite, htarget⟩ := currentObject_ok hcurrent
    rw [getObject_of_open services hs ht hsite htarget]
    by_cases hdepth : services.settings.maxDepth ≤ m.level
    · rw [if_pos hdepth]
      exact .tooDeep hr hs ht hsite htarget hdepth
    · rw [if_neg hdepth]
      exact .getObject hr hs ht hsite htarget (by omega)

theorem startMember_outcome (hr : m.recording = none) (member : Member) :
    services.Outcome m (.startMember member) (services.startMember member m) := by
  cases hf : m.fault (.startMember member) with
  | some e =>
    have hstart : services.startMember member m = .error (.structural e) m :=
      services.execute_of_fault hf fun start h => by cases h
    rw [hstart]
    exact .refused
  | none =>
    cases hs : m.stack with
    | nil => simp [fault, hs] at hf
    | cons top rest =>
      have ht : top.member = none := by simpa [fault, hs] using hf
      rw [startMember_of_closed services hs ht, ensureObject_eq services hs]
      cases hobject : services.objectOf m top m.world with
      | error e w => exact .object hr hs hobject
      | ok site w =>
        simp only []
        cases hloader : services.loaderOf member with
        | error e => exact .loader hr hs hobject hloader
        | ok loader => exact .startMember hr hs ht hobject hloader

theorem literalValue_outcome (hr : m.recording = none) (s : String) :
    services.Outcome m (.value s) (services.literalValue s m) := by
  cases hf : m.fault (.value s) with
  | some e =>
    have hvalue : services.literalValue s m = .error (.structural e) m :=
      services.execute_of_fault hf fun start h => by cases h
    rw [hvalue]
    exact .refused
  | none =>
    cases hs : m.stack with
    | nil => simp [fault, hs] at hf
    | cons top rest =>
      cases ht : top.member with
      | none => simp [fault, hs, ht] at hf
      | some member =>
        rw [literalValue_of_open services hs ht]
        cases hread : services.readLiteral m.root member s m.world with
        | ok v w => exact .value hr hs ht hread
        | error e w =>
          have hw : w = m.world := by
            rw [readLiteral, Build.ofExcept] at hread
            split at hread <;> cases hread
            rfl
          subst hw
          exact .refused

theorem endMember_outcome {maxDepth : Nat} (hm : m.Sound maxDepth) (hr : m.recording = none) :
    services.Outcome m .endMember (services.endMember m) := by
  cases hf : m.fault .endMember with
  | some e =>
    have hend : services.endMember m = .error (.structural e) m :=
      services.execute_of_fault hf fun start h => by cases h
    rw [hend]
    exact .refused
  | none =>
    cases hs : m.stack with
    | nil => simp [fault, hs] at hf
    | cons top rest =>
      cases ht : top.member with
      | none => simp [fault, hs, ht] at hf
      | some member =>
        obtain ⟨site, hsite⟩ := Option.isSome_iff_exists.1
          ((hm.frames top (by simp [hs])).site_of_member (by simp [ht]))
        rw [endMember_of_open services hs ht hsite]
        cases hcommit : services.commit site.object site.collects member top.pending top.retrieved
            m.world with
        | ok _ w => exact .endMember hr hs ht hsite hcommit
        | error e w => exact .commit hr hs ht hsite hcommit

theorem completeObject_outcome (hr : m.recording = none) (hs : m.stack = top :: rest)
    (ht : top.member = none) (hp : top.isPlaceholder = false) :
    services.Outcome m .endObject (services.completeObject m) := by
  rw [completeObject_eq services hs]
  cases hobject : services.objectOf m top m.world with
  | error e w => exact .object hr hs hobject
  | ok site w =>
    have hstack : ((m.setSite site).inWorld w).stack = top.setSite site :: rest :=
      m.mapTop_stack _ hs
    simp only []
    cases rest with
    | nil =>
      have hclose : ({ (m.setSite site).close with result := some site.object } : Machine σ) =
          { m.close with result := some site.object } := by
        simp [Machine.close, Machine.setSite, mapTop, hs]
      rw [completeObject_of_root services hstack rfl]
      simp only [inWorld_world, Frame.setSite]
      cases hcomplete : services.complete top.type top.name site none w with
      | error e w' =>
        have hparent : m.parent = none := by simp [parent, hs]
        exact .complete hr hs hobject (by rw [hparent]; exact hcomplete)
      | ok _ w' =>
        have h := Does.endRoot hr hs ht hp hobject hcomplete
        rw [← hclose] at h
        exact h
    | cons parent rest =>
      have hclose : ∀ v, (m.setSite site).close.push v = m.close.push v := fun v => by
        simp [Machine.close, Machine.setSite, Machine.push, mapTop, hs]
      have hroot : ((m.setSite site).inWorld w).root = m.root := by
        rw [inWorld_root, Machine.root, Machine.setSite, m.mapTop_stack _ hs, Machine.root, hs]
        simp
      rw [completeObject_of_inner services hstack rfl, Action.bind_apply, hroot]
      simp only [inWorld_world, Frame.setSite, Machine.inWorld_inWorld]
      cases hcomplete : services.complete top.type top.name site (some parent.scope) w with
      | error e w' =>
        have hparent : m.parent = some parent := by simp [Machine.parent, hs]
        exact .complete hr hs hobject (by rw [hparent]; exact hcomplete)
      | ok _ w' =>
        simp only []
        cases hvalue : services.valueOf top.type site parent.object m.root parent.member w' with
        | error e w'' => exact .valueOf hr hs hobject hcomplete hvalue
        | ok v w'' =>
          have h := Does.endInner hr hs ht hp hobject hcomplete hvalue
          rw [← hclose] at h
          simpa only [Outcome, inWorld_close, inWorld_push, inWorld_inWorld] using h

theorem endObject_outcome (hr : m.recording = none) :
    services.Outcome m .endObject (services.endObject m) := by
  cases hf : m.fault .endObject with
  | some e =>
    have hend : services.endObject m = .error (.structural e) m :=
      services.execute_of_fault hf fun start h => by cases h
    rw [hend]
    exact .refused
  | none =>
    cases hs : m.stack with
    | nil => simp [fault, hs] at hf
    | cons top rest =>
      have ht : top.member = none := by simpa [fault, hs] using hf
      cases hp : top.isPlaceholder with
      | true =>
        have hend : services.endObject m = .ok () m.close := by simp [endObject, hs, ht, hp]
        rw [hend]
        exact .leave hr hs ht hp
      | false =>
        rw [endObject_of_closed services hs ht hp]
        exact completeObject_outcome hr hs ht hp

/-- An instruction that ends a recording is the end of a member, and the only one that is open. -/
theorem last_of_depthAfter {depth : Nat} (hd : 0 < depth) (h : depthAfter depth i = 0) :
    i = .endMember ∧ depth = 1 := by
  cases i with
  | endMember => exact ⟨rfl, by simp only [depthAfter] at h; omega⟩
  | _ => simp only [depthAfter] at h; omega

variable (services) in
/-- The end of a deferred member: its loader makes the value that is committed. -/
theorem record_endMember {maxDepth : Nat} (hm : m.Sound maxDepth) {r : Recording σ}
    (hr : m.recording = some r) (hone : r.depth = 1) :
    ∃ top rest site, m.stack = top :: rest ∧ top.member = some r.member ∧
      top.site = some site ∧ services.record r .endMember m =
        match Build.onHeap .deferred (r.loader r.member r.instructions) m.world with
        | .error e w => .error e ((m.withRecording none).inWorld w)
        | .ok v w =>
          match services.commit site.object site.collects r.member [v] none w with
          | .error e w => .error e ((m.withRecording none).closeMember.inWorld w)
          | .ok _ w => .ok () ((m.withRecording none).closeMember.inWorld w) := by
  obtain ⟨-, top, rest, hs, ht, hpending, hretrieved⟩ := hm.recording r hr
  obtain ⟨site, hsite⟩ :=
    Option.isSome_iff_exists.1 ((hm.frames top (by simp [hs])).site_of_member (by simp [ht]))
  refine ⟨top, rest, site, hs, ht, hsite, ?_⟩
  have hlast : depthAfter r.depth .endMember = 0 := by rw [hone]; rfl
  rw [record_of_last services hlast]
  cases Build.onHeap .deferred (r.loader r.member r.instructions) m.world with
  | error e w => rfl
  | ok v w =>
    have hstack : (((m.withRecording none).push v).inWorld w).stack =
        top.receive [v] :: rest := Machine.mapTop_stack _ _ hs
    have hclose : ((m.withRecording none).push v).closeMember =
        (m.withRecording none).closeMember := by
      simp [Machine.closeMember, Machine.push, mapTop, withRecording, hs, Frame.closeMember]
    simp only []
    rw [endMember_of_open services hstack ht hsite]
    simp only [Frame.receive, hpending, hretrieved, List.nil_append, inWorld_world,
      inWorld_closeMember, inWorld_inWorld, hclose]
    cases services.commit site.object site.collects r.member [v] none w <;> rfl

/-- An instruction in a deferred member is added to the recording, or ends it. -/
theorem record_outcome {maxDepth : Nat} (hm : m.Sound maxDepth) {r : Recording σ}
    (hr : m.recording = some r) (i : Instruction) :
    services.Outcome m i (services.record r i m) := by
  by_cases hlast : depthAfter r.depth i = 0
  · obtain ⟨hdepth, -⟩ := hm.recording r hr
    obtain ⟨rfl, hone⟩ := last_of_depthAfter hdepth hlast
    obtain ⟨top, rest, site, hs, -, hsite, hrecord⟩ := services.record_endMember hm hr hone
    rw [hrecord]
    cases hload : Build.onHeap .deferred (r.loader r.member r.instructions) m.world with
    | error e w => exact .load hr hone hload
    | ok v w =>
      simp only []
      cases hcommit : services.commit site.object site.collects r.member [v] none w with
      | error e w' => exact .handOver hr hone hs hsite hload hcommit
      | ok _ w' => exact .handOver hr hone hs hsite hload hcommit
  · rw [record_of_inside services hlast]
    exact .record hr hlast

/-- An instruction is carried out, or fails, in one of the ways of the lists. -/
theorem step_outcome {maxDepth : Nat} (hm : m.Sound maxDepth) (i : Instruction) :
    services.Outcome m i (services.step i m) := by
  cases hr : m.recording with
  | some r =>
    rw [step_of_recording services hr]
    exact record_outcome hm hr i
  | none =>
    rw [step_of_idle services hr]
    cases i with
    | startObject start => exact startObject_outcome hr start
    | getObject => exact getObject_outcome hr
    | startMember member => exact startMember_outcome hr member
    | value s => exact literalValue_outcome hr s
    | endMember => exact endMember_outcome hm hr
    | endObject => exact endObject_outcome hr

theorem step_does {maxDepth : Nat} (hm : m.Sound maxDepth) {m' : Machine σ}
    (h : services.step i m = .ok () m') : services.Does m i m' := by
  have houtcome : services.Outcome m i (services.step i m) := step_outcome hm i
  rwa [h] at houtcome

theorem step_breaks {maxDepth : Nat} (hm : m.Sound maxDepth) {e : Error} {m' : Machine σ}
    (h : services.step i m = .error e m') : services.Breaks m i e m' := by
  have houtcome : services.Outcome m i (services.step i m) := step_outcome hm i
  rwa [h] at houtcome

theorem Breaks.fails {e : Error} {m' : Machine σ} (h : services.Breaks m i e m') :
    services.Fails m i m'.world := by
  cases h with
  | refused => exact .refused
  | tooDeep _ _ _ _ _ _ =>
    rw [Machine.retrieve, mapTop_world]
    exact .refused
  | adopt hr hs _ hsup _ hadopt => exact .adopt hr hs hsup hadopt
  | object hr hs hobject => exact .object hr hs hobject
  | loader hr hs hobject _ => exact .loader hr hs hobject
  | commit hr hs _ hsite hcommit => exact .commit hr hs hsite hcommit
  | complete hr hs hobject hcomplete => exact .complete hr hs hobject hcomplete
  | valueOf hr hs hobject hcomplete hvalue => exact .valueOf hr hs hobject hcomplete hvalue
  | load hr hone hload => exact .load hr hone hload
  | handOver hr hone hs hsite hload hcommit => exact .handOver hr hone hs hsite hload hcommit

theorem step_fails {maxDepth : Nat} (hm : m.Sound maxDepth) {e : Error} {m' : Machine σ}
    (h : services.step i m = .error e m') : services.Fails m i m'.world :=
  (step_breaks hm h).fails

/-! ## What holds of the frames -/

/-- What holds of the frames is kept by an instruction that is carried out. -/
theorem Does.sound (hm : m.Sound services.settings.maxDepth) {m' : Machine σ}
    (h : services.Does m i m') : m'.Sound services.settings.maxDepth := by
  cases h with
  | @startObject start hr hf hlevel _ =>
    cases hs : m.stack with
    | nil =>
      have hopen : m.rootClosed = false := by simpa [entryFault, hs] using hf
      exact hm.openObject hr (startFrame_sound start) hopen (.inl ⟨hs, rfl⟩) hlevel
    | cons top rest =>
      have ht : top.member.isSome = true := by
        cases ht : top.member with
        | some _ => rfl
        | none =>
          cases rest <;> simp [entryFault, hs, ht] at hf
      exact hm.openObject hr (startFrame_sound start) (hm.rootClosed_of_cons hs)
        (.inr ⟨top, rest, hs, ht⟩) hlevel
  | @startSupplied start id site w hr hs hclosed _ hdepth _ =>
    have hlevel : m.level = 0 := by simp [level, hs]
    have hframe : ({ startFrame start with
        type := services.host.typeOf m.world.heap id, site := some site } : Frame).Sound :=
      ⟨fun _ => rfl, fun _ => rfl, fun _ => rfl, fun _ => rfl⟩
    exact ((hm.withSupplied none).openObject hr hframe hclosed (.inl ⟨hs, rfl⟩)
      (show m.level < _ by omega)).inWorld w
  | @getObject top rest member site target hr hs ht _ _ hlevel =>
    have hstack : (m.retrieve (.object target)).stack = top.retrieve (.object target) :: rest :=
      m.mapTop_stack _ hs
    have hsound := hm.retrieve hr hs ht (.object target)
    exact hsound.openObject ((m.mapTop_recording _).trans hr)
      ⟨fun _ => rfl, fun _ => rfl, fun _ => rfl, fun _ => rfl⟩ (hsound.rootClosed_of_cons hstack)
      (.inr ⟨_, rest, hstack, by simp [Frame.retrieve, ht]⟩)
      (by simpa [level, hstack, hs] using hlevel)
  | @startMember top rest site w member loader hr hs _ _ _ =>
    exact ((hm.setSite hr hs site).inWorld w).openMember ((m.mapTop_recording _).trans hr)
      (m.mapTop_stack _ hs) (show (top.setSite site).site = some site from rfl) member loader
  | value hr hs ht _ => exact (hm.push hr hs ht _).inWorld _
  | endMember hr hs _ _ _ => exact (hm.closeMember hr hs).inWorld _
  | @leave top rest hr hs _ hp =>
    cases rest with
    | nil => simp [hm.bottom top (by simp [hs])] at hp
    | cons parent rest => exact hm.close hr hs
  | @endInner top parent rest _ v _ _ w'' hr hs _ _ _ _ _ =>
    obtain ⟨member, ht⟩ := Option.isSome_iff_exists.1 (hm.below parent (by simp [hs]))
    exact ((hm.close hr hs).push hr (show m.close.stack = parent :: rest by simp [Machine.close, hs])
      ht v).inWorld w''
  | endRoot hr hs _ _ _ _ => exact (Machine.Sound.closeRoot hr hs _).inWorld _
  | @record r i hr hdepth =>
    obtain ⟨-, top, rest, hs, ht, hp, hret⟩ := hm.recording r hr
    exact hm.record (r := r.add (depthAfter r.depth i) [i]) hs ht hp hret
      (Nat.pos_of_ne_zero hdepth)
  | handOver hr _ hs _ _ _ => exact (hm.endRecording.closeMember rfl hs).inWorld _

/-- What holds of the frames is kept by an instruction that fails. -/
theorem Breaks.sound (hm : m.Sound services.settings.maxDepth) {e : Error} {m' : Machine σ}
    (h : services.Breaks m i e m') : m'.Sound services.settings.maxDepth := by
  cases h with
  | refused => exact hm
  | tooDeep hr hs ht _ _ _ => exact hm.retrieve hr hs ht _
  | @adopt start _ _ w hr hs hclosed _ hdepth _ =>
    have hlevel : m.level = 0 := by simp [level, hs]
    exact ((hm.withSupplied none).openObject hr (startFrame_sound start) hclosed (.inl ⟨hs, rfl⟩)
      (show m.level < _ by omega)).inWorld w
  | object _ _ _ => exact hm.inWorld _
  | loader hr hs _ _ | complete hr hs _ _ | valueOf hr hs _ _ _ =>
    exact (hm.setSite hr hs _).inWorld _
  | commit hr hs _ _ _ => exact (hm.closeMember hr hs).inWorld _
  | load _ _ _ => exact hm.endRecording.inWorld _
  | handOver _ _ hs _ _ _ => exact (hm.endRecording.closeMember rfl hs).inWorld _

theorem traceStep_sound (hm : m.Sound services.settings.maxDepth) (i : Instruction) :
    (services.traceStep i m).2.Sound services.settings.maxDepth := by
  rw [traceStep]
  cases hstep : services.step i m with
  | ok _ m' => exact (step_does hm hstep).sound hm
  | error e m' => exact (step_breaks hm hstep).sound hm

/-- What holds of the frames holds wherever a machine is fed to, also past failures. -/
theorem trace_sound {keepGoing : Bool} {stream : List Instruction}
    (hm : m.Sound services.settings.maxDepth) :
    (services.trace keepGoing stream m).2.Sound services.settings.maxDepth := by
  induction stream generalizing m with
  | nil => exact hm
  | cons i is ih =>
    rw [trace]
    have hnext := traceStep_sound hm i
    dsimp only
    split
    · exact hnext
    · exact ih hnext

theorem steps_sound {stream : List Instruction} (hm : m.Sound services.settings.maxDepth)
    {m' : Machine σ} (h : services.steps stream m = .ok () m') :
    m'.Sound services.settings.maxDepth := by
  induction stream generalizing m with
  | nil =>
    cases h
    exact hm
  | cons i is ih =>
    rw [steps_cons] at h
    cases hstep : services.step i m with
    | error e m₁ => simp [hstep] at h
    | ok _ m₁ =>
      simp only [hstep] at h
      exact ih ((step_does hm hstep).sound hm) h

/-! ## Recording -/

theorem depth_of_idle (hr : m.recording = none) : m.depth = 0 := by
  simp [Machine.depth, hr]

theorem depth_of_recording {r : Recording σ} (hr : m.recording = some r) : m.depth = r.depth := by
  simp [Machine.depth, hr]

/-- The depth of the recording after an instruction. -/
theorem Does.depth (hm : m.Sound services.settings.maxDepth) {m' : Machine σ}
    (h : services.Does m i m') : m'.depth = depthNext services.isRecorded m.depth i := by
  cases h with
  | startObject hr _ _ _ | startSupplied hr _ _ _ _ _ | leave hr _ _ _ | endRoot hr _ _ _ _ _ =>
    rw [depth_of_idle hr]
    exact depth_of_idle hr
  | getObject hr _ _ _ _ _ | value hr _ _ _ | endMember hr _ _ _ _ | endInner hr _ _ _ _ _ _ =>
    rw [depth_of_idle hr]
    exact depth_of_idle ((mapTop_recording _ _).trans hr)
  | @startMember top rest site w member loader hr _ _ _ hloader =>
    have hidle : ((m.setSite site).mapTop (Frame.openMember member)).recording = none :=
      (mapTop_recording _ _).trans ((mapTop_recording _ _).trans hr)
    rw [depth_of_idle hr, depthNext, if_pos rfl, isRecorded, services.loaderOf_ok hloader]
    cases loader with
    | none =>
      rw [inWorld_openMember]
      exact depth_of_idle hidle
    | some loader => rfl
  | @record r i hr _ =>
    obtain ⟨hpos, -⟩ := hm.recording r hr
    rw [depth_of_recording hr, depthNext_of_pos hpos]
    rfl
  | @handOver r _ _ _ _ _ _ hr hone _ _ _ _ =>
    rw [depth_of_recording hr, hone]
    exact depth_of_idle (m.withRecording none |>.mapTop_recording _)

end

end Services
end ObjectMarkup
