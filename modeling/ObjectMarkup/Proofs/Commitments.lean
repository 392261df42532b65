/-
The record of commitments, in the order of the ends of members.

A stream says which members end in it, and where each of them started: starts and ends are matched
like parentheses, a deferred member counting as one pair (`Services.spans`).  The main theorem of
this file is `run_records`: a run adds one record for each of these members, in the order of their
ends, with the member and with the object that was innermost where the member started.

The invariant of a run is that the members that are open in the frames are those that wait for
their ends in the part of the stream that was carried out (`steps_records`).
-/
import Mathlib.Data.List.Forall2
import ObjectMarkup.Proofs.Aftermath
import ObjectMarkup.Proofs.Effects

namespace ObjectMarkup

variable {σ : Type}

open ObjectMarkup.Action (Leaves)

/-! ## The world between two commitments -/

namespace World

/-- Nothing was recorded in between. -/
def SameRecords (w w' : World σ) : Prop := w'.context.ambient = w.context.ambient

instance : Std.Refl (SameRecords (σ := σ)) := ⟨fun _ => rfl⟩

instance : Trans (SameRecords (σ := σ)) (SameRecords (σ := σ)) (SameRecords (σ := σ)) :=
  ⟨fun h h' => Eq.trans h' h⟩

theorem sameRecords_admits : World.Admits (fun _ _ : σ => True) SameRecords :=
  ⟨fun _ _ _ => rfl, fun _ _ => rfl⟩

end World

namespace Services

open World (SameRecords sameRecords_admits)

variable (services : Services σ)

theorem callsLeave_any : services.CallsLeave fun _ _ => True := by
  constructor <;> intros <;> first | trivial | exact fun _ => trivial

theorem onHeap_sameRecords {ε α : Type} (wrap : ε → Error) (act : EStateM ε σ α) :
    Leaves SameRecords (Build.onHeap wrap act) :=
  Build.onHeap_leaves sameRecords_admits wrap fun _ => trivial

theorem adopt_sameRecords (around : Option ScopeId) (type : TypeName) (id : ObjectId)
    (supplied : Bool) : Leaves SameRecords (services.adopt around type id supplied) := by
  intro w
  rw [endState_adopt]
  rfl

theorem objectOf_sameRecords (m : Machine σ) (top : Frame) :
    Leaves SameRecords (services.objectOf m top) := by
  rw [objectOf]
  split
  · exact .pure _
  · exact make_leaves services.callsLeave_any sameRecords_admits fun _ _ _ _ _ h => h

theorem complete_sameRecords (type : TypeName) (name : Option String) (site : Site)
    (outside : Option (Option ScopeId)) :
    Leaves SameRecords (services.complete type name site outside) :=
  complete_leaves services.callsLeave_any sameRecords_admits fun _ _ _ _ _ _ _ => rfl

theorem valueOf_sameRecords (type : TypeName) (site : Site) (target root : Option ObjectId)
    (member : Option Member) :
    Leaves SameRecords (services.valueOf type site target root member) :=
  valueOf_leaves services.callsLeave_any sameRecords_admits type site target root member

/-- A commitment that fails is not recorded. -/
theorem commit_error {target : ObjectId} {collects : Bool} {m : Member} {vs : List Value}
    {retrieved : Option Value} {w w' : World σ} {e : Error}
    (h : services.commit target collects m vs retrieved w = .error e w') : w.SameRecords w' := by
  have hvalues := onHeap_sameRecords .member (services.commitValues target collects m vs retrieved)
  rw [commit, Action.bind_apply] at h
  split at h
  · cases h
  · next hfail =>
    cases h
    exact hvalues.of_error hfail

/-- A commitment is recorded with its member and its target. -/
theorem commit_ok {target : ObjectId} {collects : Bool} {m : Member} {vs : List Value}
    {retrieved : Option Value} {w w' : World σ}
    (h : services.commit target collects m vs retrieved w = .ok () w') :
    ∃ v, w'.context.ambient.records = w.context.ambient.records ++ [⟨m, v, target⟩] := by
  have hvalues := onHeap_sameRecords .member (services.commitValues target collects m vs retrieved)
  rw [commit, Action.bind_apply] at h
  split at h
  · next v w₁ hok =>
    cases h
    have hsame : w₁.context.ambient = w.context.ambient := hvalues.of_ok hok
    exact ⟨v, by simp [World.setAmbient, Ambient.add, hsame]⟩
  · cases h

end Services

/-! ## The members that are open -/

/-- The open member of a frame, and the object that has it. -/
def Frame.waiting (f : Frame) : Option (Member × ObjectId) :=
  match f.member, f.site with
  | some member, some site => some (member, site.object)
  | _, _ => none

/-- The members that are open, innermost first, each with the object that has it. -/
def Machine.waiting (m : Machine σ) : List (Member × ObjectId) := m.stack.filterMap Frame.waiting

/-- The instruction is carried out where the machine stands, and not only recorded: nothing is
recorded there, or the recording ends with it. -/
def Machine.CarriesOut (m : Machine σ) (i : Instruction) : Prop :=
  ∀ r, m.recording = some r → Services.depthAfter r.depth i = 0

namespace Services

section

open Machine

variable {services : Services σ} {m m' : Machine σ} {top : Frame} {rest : List Frame}
  {i : Instruction}

/-- What an instruction does to the open members and to the record. -/
inductive Records (m : Machine σ) (i : Instruction) (m' : Machine σ) : Prop
  | opens {member : Member} {top : Frame} {rest : List Frame} {owner : ObjectId} :
      i = .startMember member → m.CarriesOut i → m'.stack = top :: rest →
      top.object = some owner → m'.waiting = (member, owner) :: m.waiting →
      m'.world.context.ambient.records = m.world.context.ambient.records → Records m i m'
  | commits {member : Member} {v : Value} {owner : ObjectId} :
      i = .endMember → m.CarriesOut i → m.waiting = (member, owner) :: m'.waiting →
      m'.world.context.ambient.records =
        m.world.context.ambient.records ++ [⟨member, v, owner⟩] → Records m i m'
  | keeps : (m.CarriesOut i → i.isPlain = true) → m'.waiting = m.waiting →
      m'.world.context.ambient.records = m.world.context.ambient.records → Records m i m'

theorem waiting_of_cons (hs : m.stack = top :: rest) :
    m.waiting = top.waiting.toList ++ rest.filterMap Frame.waiting := by
  rw [Machine.waiting, hs]
  cases h : top.waiting <;> simp [h]

theorem waiting_of_closed (ht : top.member = none) : top.waiting = none := by
  simp [Frame.waiting, ht]

theorem carriesOut_of_idle (hr : m.recording = none) (i : Instruction) : m.CarriesOut i := by
  intro r h
  simp [hr] at h

theorem waiting_mapTop {f : Frame → Frame} (hf : ∀ g : Frame, (f g).waiting = g.waiting)
    (m : Machine σ) : (m.mapTop f).waiting = m.waiting := by
  cases hs : m.stack with
  | nil => simp [Machine.waiting, mapTop, hs]
  | cons top rest =>
    rw [waiting_of_cons (m.mapTop_stack f hs), waiting_of_cons hs, hf]

theorem waiting_push (v : Value) (m : Machine σ) : (m.push v).waiting = m.waiting :=
  waiting_mapTop (f := Frame.receive [v]) (fun _ => rfl) m

theorem waiting_retrieve (v : Value) (m : Machine σ) : (m.retrieve v).waiting = m.waiting :=
  waiting_mapTop (f := Frame.retrieve v) (fun _ => rfl) m

theorem waiting_openObject {frame : Frame} (ht : frame.member = none) (m : Machine σ) :
    (m.openObject frame).waiting = m.waiting := by
  rw [waiting_of_cons (m.openObject_stack frame), waiting_of_closed ht]
  rfl

/-- A frame that closes has no open member. -/
theorem waiting_close (hs : m.stack = top :: rest) (ht : top.member = none) :
    m.close.waiting = m.waiting := by
  have hstack : m.close.stack = rest := by simp [Machine.close, hs]
  rw [waiting_of_cons hs, waiting_of_closed ht, Machine.waiting, hstack]
  rfl

theorem waiting_closeMember {member : Member} {site : Site} (hs : m.stack = top :: rest)
    (ht : top.member = some member) (hsite : top.site = some site) :
    m.waiting = (member, site.object) :: m.closeMember.waiting := by
  have htop : top.waiting = some (member, site.object) := by simp [Frame.waiting, ht, hsite]
  have hclosed : m.closeMember.stack = top.closeMember :: rest := m.mapTop_stack _ hs
  rw [waiting_of_cons hs, waiting_of_cons hclosed, htop]
  rfl

/-- The innermost object opens a member. -/
theorem waiting_openMember {site : Site} (hs : m.stack = top :: rest) (ht : top.member = none)
    (member : Member) (loader : Option (Loader σ)) :
    ((m.setSite site).openMember member loader).stack =
        (top.setSite site).openMember member :: rest ∧
      ((m.setSite site).openMember member loader).waiting =
        (member, site.object) :: m.waiting := by
  have hstack : ((m.setSite site).openMember member loader).stack =
      (top.setSite site).openMember member :: rest := by
    cases loader <;> exact mapTop_stack _ _ (m.mapTop_stack _ hs)
  refine ⟨hstack, ?_⟩
  rw [waiting_of_cons hstack, waiting_of_cons hs, waiting_of_closed ht]
  rfl

/-- An instruction that is carried out opens a member, commits one, or leaves both the open members
and the record as they are. -/
theorem Does.records (hm : m.Sound services.settings.maxDepth) (h : services.Does m i m') :
    Records m i m' := by
  have hsame : ∀ {w : World σ}, m.world.SameRecords w →
      w.context.ambient.records = m.world.context.ambient.records := fun h => congrArg _ h
  cases h with
  | startObject hr _ _ _ => exact .keeps (fun _ => rfl) (waiting_openObject rfl m) rfl
  | startSupplied hr _ _ _ _ hadopt =>
    exact .keeps (fun _ => rfl) (waiting_openObject rfl _)
      (hsame ((services.adopt_sameRecords _ _ _ _).of_ok hadopt))
  | @getObject top rest member site target hr hs ht _ _ _ =>
    refine .keeps (fun _ => rfl) ?_ (by simp [retrieve])
    exact (waiting_openObject rfl _).trans (waiting_retrieve _ m)
  | @startMember top rest site w member loader hr hs ht hobject hloader =>
    obtain ⟨hstack, hwaiting⟩ := waiting_openMember (m := m) hs ht member loader
    rw [inWorld_openMember]
    exact .opens rfl (carriesOut_of_idle hr _) hstack rfl hwaiting
      (hsame ((services.objectOf_sameRecords m top).of_ok hobject))
  | @value top rest member s v w hr _ _ hread =>
    have hw : w = m.world := (Build.ofExcept_eq_ok hread).2
    exact .keeps (fun _ => rfl) (waiting_push v m) (by simp [hw])
  | endMember hr hs ht hsite hcommit =>
    obtain ⟨v, hrecords⟩ := services.commit_ok hcommit
    exact .commits rfl (carriesOut_of_idle hr _) (waiting_closeMember hs ht hsite) hrecords
  | leave hr hs ht _ => exact .keeps (fun _ => rfl) (waiting_close hs ht) rfl
  | endInner hr hs ht _ hobject hcomplete hvalue =>
    refine .keeps (fun _ => rfl) ((waiting_push _ m.close).trans (waiting_close hs ht)) (hsame ?_)
    exact Trans.trans ((services.objectOf_sameRecords m _).of_ok hobject)
      (Trans.trans ((services.complete_sameRecords _ _ _ _).of_ok hcomplete)
        ((services.valueOf_sameRecords _ _ _ _ _).of_ok hvalue))
  | endRoot hr hs ht _ hobject hcomplete =>
    refine .keeps (fun _ => rfl) (waiting_close hs ht) (hsame ?_)
    exact Trans.trans ((services.objectOf_sameRecords m _).of_ok hobject)
      ((services.complete_sameRecords _ _ _ _).of_ok hcomplete)
  | @record r i hr hdepth => exact .keeps (fun h => absurd (h r hr) hdepth) rfl rfl
  | @handOver r top rest site v w w' hr hone hs hsite hload hcommit =>
    obtain ⟨-, top', rest', hs', ht, -⟩ := hm.recording r hr
    obtain ⟨rfl, rfl⟩ := List.cons.inj (hs'.symm.trans hs)
    obtain ⟨v', hrecords⟩ := services.commit_ok hcommit
    have hloaded : w.context.ambient.records = m.world.context.ambient.records :=
      hsame ((onHeap_sameRecords _ _).of_ok hload)
    have hwaiting : m.waiting = (r.member, site.object) :: (m.withRecording none).closeMember.waiting :=
      waiting_closeMember (m := m.withRecording none) hs ht hsite
    refine .commits rfl (fun r' hr' => ?_) hwaiting (hrecords.trans (by rw [hloaded]))
    obtain rfl : r = r' := Option.some.inj (hr.symm.trans hr')
    simp [depthAfter, hone]

/-- An instruction that fails records nothing. -/
theorem Fails.records {w : World σ} (h : services.Fails m i w) : m.world.SameRecords w := by
  cases h with
  | refused => rfl
  | adopt _ _ _ hadopt => exact (services.adopt_sameRecords _ _ _ _).of_error hadopt
  | object _ _ hobject => exact (services.objectOf_sameRecords m _).of_error hobject
  | loader _ _ hobject => exact (services.objectOf_sameRecords m _).of_ok hobject
  | commit _ _ _ hcommit => exact services.commit_error hcommit
  | complete _ _ hobject hcomplete =>
    exact Trans.trans ((services.objectOf_sameRecords m _).of_ok hobject)
      ((services.complete_sameRecords _ _ _ _).of_error hcomplete)
  | valueOf _ _ hobject hcomplete hvalue =>
    exact Trans.trans ((services.objectOf_sameRecords m _).of_ok hobject)
      (Trans.trans ((services.complete_sameRecords _ _ _ _).of_ok hcomplete)
        ((services.valueOf_sameRecords _ _ _ _ _).of_error hvalue))
  | load _ _ hload => exact (onHeap_sameRecords _ _).of_error hload
  | handOver _ _ _ _ hload hcommit =>
    exact Trans.trans ((onHeap_sameRecords _ _).of_ok hload) (services.commit_error hcommit)

end

/-! ## The members of a stream -/

/-- A member of a stream, with the places of its start and its end. -/
structure Span where
  member : Member
  start : Nat
  stop : Nat
deriving DecidableEq

/-- The members that end in a stream, in the order of their ends.  Those of `waiting` have started
before it, the latest first. -/
def spans : List (Member × Nat) → List (Instruction × Nat) → List Span
  | _, [] => []
  | waiting, (.startMember member, n) :: rest => spans ((member, n) :: waiting) rest
  | (member, start) :: waiting, (.endMember, n) :: rest => ⟨member, start, n⟩ :: spans waiting rest
  | waiting, _ :: rest => spans waiting rest

def startsMember : Instruction → Bool
  | .startMember _ => true
  | _ => false

/-- The places of the ends of members. -/
def memberEnds (stream : List (Instruction × Nat)) : List Nat :=
  (stream.filter fun i => i.1 = .endMember).map (·.2)

theorem spans_plain {i : Instruction} (hp : i.isPlain = true) (waiting : List (Member × Nat))
    (n : Nat) (rest : List (Instruction × Nat)) :
    spans waiting ((i, n) :: rest) = spans waiting rest ∧
      memberEnds ((i, n) :: rest) = memberEnds rest ∧ startsMember i = false := by
  cases i with
  | startMember member => simp [Instruction.isPlain] at hp
  | endMember => simp [Instruction.isPlain] at hp
  | _ => refine ⟨by cases waiting <;> rfl, rfl, rfl⟩

variable (services : Services σ)

/-- The member starts at this place of the stream, and `owner` is then the innermost object of the
machine that began as `m₀`. -/
def StartsAt (stream : List Instruction) (m₀ : Machine σ) (member : Member) (start : Nat)
    (owner : ObjectId) : Prop :=
  stream[start]? = some (.startMember member) ∧
    ∃ m top rest, services.steps (stream.take (start + 1)) m₀ = .ok () m ∧
      m.stack = top :: rest ∧ top.object = some owner

/-- An open member, and the place of its start. -/
def OpenSince (stream : List Instruction) (m₀ : Machine σ) (start : Member × Nat)
    (waiting : Member × ObjectId) : Prop :=
  start.1 = waiting.1 ∧ services.StartsAt stream m₀ start.1 start.2 waiting.2

/-- The record of a member of a stream. -/
def RecordOf (stream : List Instruction) (m₀ : Machine σ) (s : Span) (r : AmbientRecord) : Prop :=
  r.member = s.member ∧ services.StartsAt stream m₀ s.member s.start r.owner

section

open Machine

variable {services} {m₀ m m' : Machine σ}

theorem StartsAt.append {stream : List Instruction} {member : Member} {start : Nat}
    {owner : ObjectId} (h : services.StartsAt stream m₀ member start owner)
    (rest : List Instruction) : services.StartsAt (stream ++ rest) m₀ member start owner := by
  obtain ⟨hat, hsteps⟩ := h
  obtain ⟨hlt, -⟩ := List.getElem?_eq_some_iff.1 hat
  refine ⟨by rw [List.getElem?_append_left hlt, hat], ?_⟩
  rwa [List.take_append_of_le_length (by omega)]

theorem carriedOut_cons (hm : m.Sound services.settings.maxDepth) {i : Instruction}
    (h : services.Does m i m') (n : Nat) (rest : List (Instruction × Nat)) :
    (m.CarriesOut i → carriedOut services.isRecorded m.depth ((i, n) :: rest) =
      (i, n) :: carriedOut services.isRecorded m'.depth rest) ∧
    (¬ m.CarriesOut i → carriedOut services.isRecorded m.depth ((i, n) :: rest) =
      carriedOut services.isRecorded m'.depth rest) := by
  have hiff : (m.depth = 0 ∨ depthNext services.isRecorded m.depth i = 0) ↔ m.CarriesOut i := by
    cases hr : m.recording with
    | none => exact iff_of_true (.inl (depth_of_idle hr)) (carriesOut_of_idle hr i)
    | some r =>
      obtain ⟨hpos, -⟩ := hm.recording r hr
      rw [depth_of_recording hr, depthNext_of_pos hpos]
      constructor
      · intro h r' hr'
        obtain rfl : r = r' := Option.some.inj (hr.symm.trans hr')
        omega
      · exact fun h => .inr (h r hr)
  rw [h.depth hm, carriedOut]
  exact ⟨fun hc => if_pos (hiff.2 hc), fun hc => if_neg (fun h => hc (hiff.1 h))⟩

/-- A stream that is carried out from where `pre` has led: the members that were open keep their
starts, and each member that ends is recorded. -/
theorem steps_records (h₀ : m₀.Sound services.settings.maxDepth) {stream : List Instruction} :
    ∀ {pre : List Instruction} {m m' : Machine σ} {waiting : List (Member × Nat)},
      services.steps pre m₀ = .ok () m → services.steps stream m = .ok () m' →
      List.Forall₂ (services.OpenSince (pre ++ stream) m₀) waiting m.waiting →
      ∃ added, m'.world.context.ambient.records = m.world.context.ambient.records ++ added ∧
        List.Forall₂ (services.RecordOf (pre ++ stream) m₀)
          (spans waiting (carriedOut services.isRecorded m.depth (stream.zipIdx pre.length)))
          added ∧
        (spans waiting (carriedOut services.isRecorded m.depth (stream.zipIdx pre.length))).map
            (·.stop) =
          memberEnds (carriedOut services.isRecorded m.depth (stream.zipIdx pre.length)) ∧
        waiting.length +
            (carriedOut services.isRecorded m.depth (stream.zipIdx pre.length)).countP
              (fun i => startsMember i.1) =
          added.length + m'.waiting.length := by
  induction stream with
  | nil =>
    intro pre m m' waiting _ hsteps hwaiting
    cases hsteps
    exact ⟨[], by simp, .nil, rfl, by simpa [carriedOut] using hwaiting.length_eq⟩
  | cons i is ih =>
    intro pre m m' waiting hpre hsteps hwaiting
    have hm := steps_sound h₀ hpre
    rw [steps_cons] at hsteps
    cases hstep : services.step i m with
    | error e m₁ => simp [hstep] at hsteps
    | ok _ m₁ =>
      simp only [hstep] at hsteps
      have hdoes := step_does hm hstep
      have hnext : services.steps (pre ++ [i]) m₀ = .ok () m₁ :=
        (services.steps_concat_of_ok hpre i).trans hstep
      have hstream : pre ++ i :: is = (pre ++ [i]) ++ is := by simp
      have hlength : (pre ++ [i]).length = pre.length + 1 := by simp
      obtain ⟨hcarried, hrecorded⟩ :=
        carriedOut_cons hm hdoes pre.length (is.zipIdx (pre.length + 1))
      rw [List.zipIdx_cons]
      rw [hstream] at hwaiting ⊢
      cases hdoes.records hm with
      | @opens member top rest owner hi hc hs howner hopen hrecords =>
        subst hi
        have hstart : services.StartsAt ((pre ++ [.startMember member]) ++ is) m₀ member
            pre.length owner := by
          refine ⟨by simp, m₁, top, rest, ?_, hs, howner⟩
          rwa [← hlength, List.take_left]
        have hmore : List.Forall₂ (services.OpenSince ((pre ++ [.startMember member]) ++ is) m₀)
            ((member, pre.length) :: waiting) m₁.waiting := hopen ▸ .cons ⟨rfl, hstart⟩ hwaiting
        obtain ⟨added, hadded, hmatch, hends, hcount⟩ := ih hnext hsteps hmore
        rw [hlength] at hmatch hends hcount
        rw [hcarried hc]
        refine ⟨added, by rw [hadded, hrecords], hmatch, hends, ?_⟩
        rw [List.countP_cons_of_pos rfl]
        rw [List.length_cons] at hcount
        omega
      | @commits member v owner hi hc hopen hrecords =>
        subst hi
        rw [hopen] at hwaiting
        cases hwaiting with
        | @cons o _ waiting _ ho hwaiting =>
          obtain ⟨hmember, hstart⟩ := ho
          obtain ⟨added, hadded, hmatch, hends, hcount⟩ := ih hnext hsteps hwaiting
          rw [hlength] at hmatch hends hcount
          rw [hcarried hc]
          refine ⟨⟨member, v, owner⟩ :: added, by rw [hadded, hrecords]; simp,
            .cons ⟨hmember.symm, hstart⟩ hmatch, ?_, ?_⟩
          · exact congrArg _ hends
          · rw [List.countP_cons_of_neg (by simp [startsMember])]
            simp only [List.length_cons]
            omega
      | keeps hplain hopen hrecords =>
        rw [← hopen] at hwaiting
        obtain ⟨added, hadded, hmatch, hends, hcount⟩ := ih hnext hsteps hwaiting
        rw [hlength] at hmatch hends hcount
        by_cases hc : m.CarriesOut i
        · obtain ⟨hspans, hstops, hno⟩ := spans_plain (hplain hc) waiting pre.length
            (carriedOut services.isRecorded m₁.depth (is.zipIdx (pre.length + 1)))
          rw [hcarried hc, hspans, hstops, List.countP_cons, if_neg (by simp [hno])]
          exact ⟨added, by rw [hadded, hrecords], hmatch, hends, hcount⟩
        · rw [hrecorded hc]
          exact ⟨added, by rw [hadded, hrecords], hmatch, hends, hcount⟩

/-- What a run that ends with an object has carried out. -/
theorem run_ok {stream : List Instruction} {root : Option ObjectId} {base : Option ScopeId}
    {w w' : World σ} {id : ObjectId} (h : services.run stream root base w = .ok id w') :
    ∃ m, services.steps stream (Machine.blank w root base) = .ok () m ∧ m.level = 0 ∧
      m.world = w' := by
  rw [run_eq_steps] at h
  cases hsteps : services.steps stream (Machine.blank w root base) with
  | error e m => simp [hsteps] at h
  | ok _ m =>
    simp only [hsteps, Machine.finish] at h
    by_cases hopen : 0 < m.level + if m.isRecording then 1 else 0
    · simp [hopen] at h
    · rw [if_neg hopen] at h
      refine ⟨m, rfl, by omega, ?_⟩
      split at h
      · cases h
        rfl
      · cases h

end

/-- A run records one commitment for each member that ends outside deferred members, in the order
of the ends.  Whatever else it does, and whatever fails, changes no record. -/
theorem run_records (stream : List Instruction) (root : Option ObjectId) (base : Option ScopeId)
    (w : World σ) :
    (∀ pre m, pre <+: stream → services.steps pre (Machine.blank w root base) = .ok () m →
      (∃ added, m.world.context.ambient.records = w.context.ambient.records ++ added ∧
        List.Forall₂ (services.RecordOf stream (Machine.blank w root base))
          (spans [] (carriedOut services.isRecorded 0 pre.zipIdx)) added ∧
        (spans [] (carriedOut services.isRecorded 0 pre.zipIdx)).map (·.stop) =
          memberEnds (carriedOut services.isRecorded 0 pre.zipIdx)) ∧
      ∀ i, match services.step i m with
        | .ok _ m' => ¬ (i = .endMember ∧ m.CarriesOut i) →
          m'.world.context.ambient.records = m.world.context.ambient.records
        | .error _ m' => m'.world.context.ambient.records = m.world.context.ambient.records) ∧
    ∀ id w', services.run stream root base w = .ok id w' →
      w'.context.ambient.records.length = w.context.ambient.records.length +
        (carriedOut services.isRecorded 0 stream.zipIdx).countP fun i => startsMember i.1 := by
  have h₀ : (Machine.blank w root base).Sound services.settings.maxDepth := .blank w root base
  have hnil : services.steps [] (Machine.blank w root base) =
      .ok () (Machine.blank w root base) := rfl
  refine ⟨fun pre m hpre hsteps => ⟨?_, fun i => ?_⟩, fun id w' hrun => ?_⟩
  · obtain ⟨rest, rfl⟩ := hpre
    obtain ⟨added, hadded, hmatch, hends, -⟩ :=
      steps_records h₀ hnil hsteps .nil
    exact ⟨added, hadded, hmatch.imp fun s r h => ⟨h.1, h.2.append rest⟩, hends⟩
  · have hm := steps_sound h₀ hsteps
    cases hstep : services.step i m with
    | error e m' => exact congrArg _ (step_fails hm hstep).records
    | ok _ m' =>
      intro hnot
      cases (step_does hm hstep).records hm with
      | opens _ _ _ _ _ hrecords => exact hrecords
      | commits hi hc _ _ => exact absurd ⟨hi, hc⟩ hnot
      | keeps _ _ hrecords => exact hrecords
  · obtain ⟨m, hsteps, hlevel, rfl⟩ := run_ok hrun
    obtain ⟨added, hadded, -, -, hcount⟩ :=
      steps_records h₀ hnil hsteps .nil
    have hnone : m.waiting = [] := by
      rw [Machine.waiting, List.eq_nil_of_length_eq_zero hlevel]
      rfl
    rw [hnone] at hcount
    have hlength : 0 + (carriedOut services.isRecorded 0 stream.zipIdx).countP
        (fun i => startsMember i.1) = added.length + 0 := hcount
    rw [hadded, List.length_append]
    show w.context.ambient.records.length + added.length = _
    omega

/-- The run of the boxes records both contents and the deferred member, in the order of their
ends. -/
theorem run_records_boxes :
    spans [] (carriedOut boxes.isRecorded 0 boxStream.zipIdx) =
      [⟨{ owner := "Box", name := "Content" }, 1, 4⟩,
        ⟨{ owner := "Box", name := "Content" }, 5, 8⟩,
        ⟨{ owner := "Box", name := "Later" }, 9, 12⟩] ∧
    ∃ id w', boxes.run boxStream none none { heap := 0 } = .ok id w' ∧
      w'.context.ambient.records.length = 3 ∧
      List.Forall₂ (boxes.RecordOf boxStream (Machine.blank { heap := 0 } none none))
        (spans [] (carriedOut boxes.isRecorded 0 boxStream.zipIdx)) w'.context.ambient.records := by
  obtain ⟨hrecords, hcount⟩ := boxes.run_records boxStream none none { heap := 0 }
  have hok : (match boxes.run boxStream none none { heap := 0 } with
      | .ok _ _ => true
      | .error _ _ => false) = true := by decide +kernel
  refine ⟨by decide, ?_⟩
  split at hok
  · next id w' hrun =>
    obtain ⟨m, hsteps, -, rfl⟩ := run_ok hrun
    obtain ⟨⟨added, hadded, hmatch, -⟩, -⟩ := hrecords boxStream m (List.prefix_refl _) hsteps
    have hthree : (carriedOut boxes.isRecorded 0 boxStream.zipIdx).countP
        (fun i => startsMember i.1) = 3 := by decide
    refine ⟨id, m.world, hrun, ?_, ?_⟩
    · rw [hcount id m.world hrun, hthree]
      rfl
    · rw [hadded]
      exact hmatch
  · cases hok

end Services
end ObjectMarkup
