/-
What holds of the open objects of a machine, whatever it has carried out (`Machine.Sound`), and
where in the grammar of streams the machine stands (`Machine.position`).

The instructions change the frames in a few ways only: a frame is opened or closed, a member of the
innermost frame is opened or closed, a recording begins, goes on or ends.  There is one lemma for
each of these changes, which says that what holds is kept.
-/
import ObjectMarkup.Proofs.Grammar
import ObjectMarkup.Proofs.Machine

namespace ObjectMarkup

variable {σ : Type}

/-- What holds of an open object: it is there when a member of it is open, and when it was there
before, and values are pending only for an open member. -/
structure Frame.Sound (f : Frame) : Prop where
  site_of_member : f.member.isSome = true → f.site.isSome = true
  site_of_placeholder : f.isPlaceholder = true → f.site.isSome = true
  pending : f.member = none → f.pending = []
  retrieved : f.member = none → f.retrieved = none

namespace Machine

/-- What holds of the open objects and of the recording.  Objects stand in members of each other,
and a deferred member receives nothing before its loader is asked. -/
structure Sound (maxDepth : Nat) (m : Machine σ) : Prop where
  frames : ∀ f ∈ m.stack, f.Sound
  below : ∀ f ∈ m.stack.tail, f.member.isSome = true
  bottom : ∀ f, m.stack.getLast? = some f → f.isPlaceholder = false
  level : m.level ≤ maxDepth
  recording : ∀ r, m.recording = some r → 0 < r.depth ∧ ∃ top rest, m.stack = top :: rest ∧
    top.member = some r.member ∧ top.pending = [] ∧ top.retrieved = none
  closed : m.rootClosed = true → m.stack = []
  result : m.result.isSome = m.rootClosed

/-- The place in the grammar of streams. -/
def position (m : Machine σ) : Position :=
  match m.stack with
  | [] => if m.rootClosed then .done else .start
  | top :: rest =>
    match m.recording with
    | some r => .deferred rest.length (r.depth - 1)
    | none => if top.member.isSome then .contents rest.length else .members rest.length

variable {maxDepth : Nat} {m : Machine σ} {top : Frame} {rest : List Frame}

/-! ## Places -/

theorem position_of_empty (hs : m.stack = []) :
    m.position = if m.rootClosed then .done else .start := by
  simp [position, hs]

theorem position_of_recording {r : Recording σ} (hs : m.stack = top :: rest)
    (hr : m.recording = some r) : m.position = .deferred rest.length (r.depth - 1) := by
  simp [position, hs, hr]

theorem position_of_open {member : Member} (hs : m.stack = top :: rest) (hr : m.recording = none)
    (ht : top.member = some member) : m.position = .contents rest.length := by
  simp [position, hs, hr, ht]

theorem position_of_closed (hs : m.stack = top :: rest) (hr : m.recording = none)
    (ht : top.member = none) : m.position = .members rest.length := by
  simp [position, hs, hr, ht]

theorem stack_of_outside (h : m.position = .start ∨ m.position = .done) : m.stack = [] := by
  cases hs : m.stack with
  | nil => rfl
  | cons top rest =>
    cases hr : m.recording with
    | some r => simp [position_of_recording hs hr] at h
    | none =>
      cases ht : top.member with
      | none => simp [position_of_closed hs hr ht] at h
      | some member => simp [position_of_open hs hr ht] at h

theorem Sound.recording_of_empty (h : m.Sound maxDepth) (hs : m.stack = []) :
    m.recording = none := by
  cases hr : m.recording with
  | none => rfl
  | some r =>
    obtain ⟨-, top, rest, hs', -⟩ := h.recording r hr
    simp [hs] at hs'

/-- An object with another one in it is there. -/
theorem Sound.site_below (h : m.Sound maxDepth) {f : Frame} (hf : f ∈ m.stack.tail) :
    ∃ site, f.site = some site :=
  Option.isSome_iff_exists.1 ((h.frames f (List.mem_of_mem_tail hf)).site_of_member (h.below f hf))

theorem Sound.finish_of_done (h : m.Sound maxDepth) (hp : m.position = .done) :
    ∃ id, m.finish = .ok id := by
  have hs := stack_of_outside (.inr hp)
  have hclosed : m.rootClosed = true := by simpa [position_of_empty hs] using hp
  obtain ⟨id, hid⟩ := Option.isSome_iff_exists.1 (h.result.trans hclosed)
  exact ⟨id, by simp [finish, Machine.level, isRecording, hs, h.recording_of_empty hs, hid]⟩

theorem Sound.finish_of_start (h : m.Sound maxDepth) (hp : m.position = .start) :
    m.finish = .error (.structural .noRoot) := by
  have hs := stack_of_outside (.inl hp)
  have hopen : m.rootClosed = false := by simpa [position_of_empty hs] using hp
  have hresult : m.result = none := by simpa [hopen] using h.result
  simp [finish, Machine.level, isRecording, hs, h.recording_of_empty hs, hresult]

theorem finish_of_inside (hstart : m.position ≠ .start) (hdone : m.position ≠ .done) :
    m.finish = .error (.structural (.incomplete m.position.openLevels)) := by
  cases hs : m.stack with
  | nil =>
    rw [position_of_empty hs] at hstart hdone
    split at hstart <;> simp_all
  | cons top rest =>
    cases hr : m.recording with
    | some r => simp [finish, level, isRecording, position, hs, hr, Position.openLevels]
    | none =>
      cases ht : top.member <;>
        simp [finish, level, isRecording, position, hs, hr, ht, Position.openLevels]

@[simp] theorem inWorld_position (w : World σ) : (m.inWorld w).position = m.position := rfl

/-- A machine that is empty or has one open frame at least, and is recording or is not. -/
theorem Sound.places (h : m.Sound maxDepth) :
    (m.stack = [] ∧ m.recording = none) ∨
    (∃ top rest r site, m.stack = top :: rest ∧ m.recording = some r ∧ 0 < r.depth ∧
      top.member = some r.member ∧ top.pending = [] ∧ top.retrieved = none ∧
      top.site = some site) ∨
    (∃ top rest, m.stack = top :: rest ∧ m.recording = none ∧ top.member = none) ∨
    (∃ top rest member site, m.stack = top :: rest ∧ m.recording = none ∧
      top.member = some member ∧ top.site = some site) := by
  have hsite : ∀ top rest member, m.stack = top :: rest → top.member = some member →
      ∃ site, top.site = some site := fun top rest member hs ht =>
    Option.isSome_iff_exists.1 ((h.frames top (by simp [hs])).site_of_member (by simp [ht]))
  cases hr : m.recording with
  | some r =>
    obtain ⟨hdepth, top, rest, hs, ht, hp, hret⟩ := h.recording r hr
    obtain ⟨site, hsite⟩ := hsite top rest r.member hs ht
    exact .inr (.inl ⟨top, rest, r, site, hs, rfl, hdepth, ht, hp, hret, hsite⟩)
  | none =>
    cases hs : m.stack with
    | nil => exact .inl ⟨rfl, rfl⟩
    | cons top rest =>
      cases ht : top.member with
      | none => exact .inr (.inr (.inl ⟨top, rest, rfl, rfl, ht⟩))
      | some member =>
        obtain ⟨site, hsite⟩ := hsite top rest member hs ht
        exact .inr (.inr (.inr ⟨top, rest, member, site, rfl, rfl, ht, hsite⟩))

/-- As long as an object is open, the first one is. -/
theorem Sound.rootClosed_of_cons (h : m.Sound maxDepth) (hs : m.stack = top :: rest) :
    m.rootClosed = false := by
  cases hc : m.rootClosed with
  | false => rfl
  | true =>
    have := h.closed hc
    simp [hs] at this

/-! ## Changes -/

namespace Sound

theorem inWorld (h : m.Sound maxDepth) (w : World σ) : (m.inWorld w).Sound maxDepth where
  frames := h.frames
  below := h.below
  bottom := h.bottom
  level := h.level
  recording := h.recording
  closed := h.closed
  result := h.result

theorem withSupplied (h : m.Sound maxDepth) (supplied : Option ObjectId) :
    ({ m with supplied } : Machine σ).Sound maxDepth where
  frames := h.frames
  below := h.below
  bottom := h.bottom
  level := h.level
  recording := h.recording
  closed := h.closed
  result := h.result

theorem blank (w : World σ) (supplied : Option ObjectId) (base : Option ScopeId) :
    (Machine.blank w supplied base).Sound maxDepth where
  frames := fun _ h => (nomatch h)
  below := fun _ h => (nomatch h)
  bottom := fun _ h => (nomatch h)
  level := Nat.zero_le _
  recording := fun _ h => (nomatch h)
  closed := fun _ => rfl
  result := rfl

theorem mapTop (h : m.Sound maxDepth) (hr : m.recording = none) (hs : m.stack = top :: rest)
    {f : Frame → Frame} (hf : (f top).Sound) (hp : (f top).isPlaceholder = top.isPlaceholder) :
    (m.mapTop f).Sound maxDepth := by
  obtain ⟨world, stack, closed, supplied, base, result, recording⟩ := m
  obtain rfl : stack = top :: rest := hs
  obtain rfl : recording = none := hr
  refine ⟨?_, h.below, ?_, h.level, by simp [Machine.mapTop], fun hc => ?_, h.result⟩
  · intro g hg
    rcases List.mem_cons.1 hg with rfl | hg
    · exact hf
    · exact h.frames g (List.mem_cons_of_mem _ hg)
  · intro g hg
    cases rest with
    | nil =>
      obtain rfl : f top = g := by simpa [Machine.mapTop] using hg
      rw [hp]
      exact h.bottom top rfl
    | cons next rest =>
      have hg : (next :: rest).getLast? = some g := by simpa [Machine.mapTop] using hg
      exact h.bottom g (by simpa using hg)
  · exact absurd (h.closed hc) (by simp)

theorem openObject (h : m.Sound maxDepth) (hr : m.recording = none) {frame : Frame}
    (hframe : frame.Sound) (hopen : m.rootClosed = false)
    (hplace : m.stack = [] ∧ frame.isPlaceholder = false ∨
      ∃ top rest, m.stack = top :: rest ∧ top.member.isSome = true)
    (hlevel : m.level < maxDepth) : (m.openObject frame).Sound maxDepth := by
  refine ⟨?_, ?_, ?_, hlevel, ?_, fun hc => ?_, h.result⟩
  · intro g hg
    rcases List.mem_cons.1 hg with rfl | hg
    · exact hframe
    · exact h.frames g hg
  · intro g hg
    rcases hplace with ⟨hs, -⟩ | ⟨top, rest, hs, ht⟩
    · have hg : g ∈ m.stack := hg
      simp [hs] at hg
    · have hg : g ∈ m.stack := hg
      rw [hs] at hg
      rcases List.mem_cons.1 hg with rfl | hg
      · exact ht
      · exact h.below g (by simp [hs, hg])
  · intro g hg
    rcases hplace with ⟨hs, hp⟩ | ⟨top, rest, hs, -⟩
    · obtain rfl : frame = g := by simpa [hs] using hg
      exact hp
    · exact h.bottom g (by simpa [hs] using hg)
  · intro r hr'
    have hr' : m.recording = some r := hr'
    simp [hr] at hr'
  · have hc : m.rootClosed = true := hc
    simp [hopen] at hc

/-- A frame that stands in another one closes. -/
theorem close (h : m.Sound maxDepth) (hr : m.recording = none) {parent : Frame}
    (hs : m.stack = top :: parent :: rest) : m.close.Sound maxDepth := by
  have hopen : m.close.rootClosed = m.rootClosed := by simp [Machine.close, hs]
  have hstack : m.close.stack = parent :: rest := by simp [Machine.close, hs]
  refine ⟨?_, ?_, ?_, ?_, fun r hr' => ?_, fun hc => ?_, ?_⟩
  · intro g hg
    exact h.frames g (List.mem_of_mem_tail hg)
  · intro g hg
    rw [hstack] at hg
    exact h.below g (by simpa [hs] using Or.inr hg)
  · intro g hg
    rw [hstack] at hg
    exact h.bottom g (by simpa [hs] using hg)
  · have := h.level
    simp only [Machine.level, hs, hstack, List.length_cons] at this ⊢
    omega
  · have hr' : m.recording = some r := hr'
    simp [hr] at hr'
  · rw [hopen, h.rootClosed_of_cons hs] at hc
    cases hc
  · rw [hopen]
    exact h.result

theorem closeRoot (hr : m.recording = none) (hs : m.stack = [top])
    (id : ObjectId) : ({ m.close with result := some id } : Machine σ).Sound maxDepth := by
  have hstack : m.close.stack = [] := by simp [Machine.close, hs]
  have hclosed : m.close.rootClosed = true := by simp [Machine.close, hs]
  refine ⟨?_, ?_, ?_, ?_, fun r hr' => ?_, fun _ => hstack, hclosed.symm⟩
  · simp [hstack]
  · simp [hstack]
  · simp [hstack]
  · simp [Machine.level, hstack]
  · have hr' : m.recording = some r := hr'
    simp [hr] at hr'

/-- A recording begins or goes on. -/
theorem record (h : m.Sound maxDepth) {r : Recording σ} (hs : m.stack = top :: rest)
    (ht : top.member = some r.member) (hp : top.pending = []) (hret : top.retrieved = none)
    (hdepth : 0 < r.depth) : (m.withRecording (some r)).Sound maxDepth where
  frames := h.frames
  below := h.below
  bottom := h.bottom
  level := h.level
  recording := by
    intro r' hr'
    obtain rfl : r = r' := Option.some.inj hr'
    exact ⟨hdepth, top, rest, hs, ht, hp, hret⟩
  closed := h.closed
  result := h.result

theorem endRecording (h : m.Sound maxDepth) : (m.withRecording none).Sound maxDepth where
  frames := h.frames
  below := h.below
  bottom := h.bottom
  level := h.level
  recording := fun r hr => by cases hr
  closed := h.closed
  result := h.result

theorem setSite (h : m.Sound maxDepth) (hr : m.recording = none) (hs : m.stack = top :: rest)
    (site : Site) : (m.setSite site).Sound maxDepth := by
  have htop := h.frames top (by simp [hs])
  exact h.mapTop hr hs ⟨fun _ => rfl, fun _ => rfl, htop.pending, htop.retrieved⟩ rfl

/-- A member of an object that is there opens, whether it is carried out or recorded. -/
theorem openMember (h : m.Sound maxDepth) (hr : m.recording = none) (hs : m.stack = top :: rest)
    {site : Site} (hsite : top.site = some site) (member : Member)
    (loader : Option (Loader σ)) : (m.openMember member loader).Sound maxDepth := by
  have hsome : (top.openMember member).site.isSome = true := by
    simp [Frame.openMember, hsite]
  have hopen : (m.openMember member none).Sound maxDepth :=
    h.mapTop hr hs
      ⟨fun _ => hsome, fun _ => hsome, fun ht => (nomatch ht), fun ht => (nomatch ht)⟩ rfl
  cases loader with
  | none => exact hopen
  | some loader =>
    exact hopen.record (m.mapTop_stack (Frame.openMember member) hs) rfl rfl rfl Nat.one_pos

theorem closeMember (h : m.Sound maxDepth) (hr : m.recording = none) (hs : m.stack = top :: rest) :
    m.closeMember.Sound maxDepth := by
  have htop := h.frames top (by simp [hs])
  exact h.mapTop hr hs
    ⟨fun ht => (nomatch ht), htop.site_of_placeholder, fun _ => rfl, fun _ => rfl⟩ rfl

theorem retrieve (h : m.Sound maxDepth) (hr : m.recording = none) (hs : m.stack = top :: rest)
    {member : Member} (ht : top.member = some member) (v : Value) :
    (m.retrieve v).Sound maxDepth := by
  have htop := h.frames top (by simp [hs])
  have hmember : ∀ {p : Prop}, top.member = none → p := fun hn => by simp [ht] at hn
  exact h.mapTop hr hs
    ⟨htop.site_of_member, htop.site_of_placeholder, htop.pending, fun hn => hmember hn⟩ rfl

theorem push (h : m.Sound maxDepth) (hr : m.recording = none) (hs : m.stack = top :: rest)
    {member : Member} (ht : top.member = some member) (v : Value) :
    (m.push v).Sound maxDepth := by
  have htop := h.frames top (by simp [hs])
  have hmember : ∀ {p : Prop}, top.member = none → p := fun hn => by simp [ht] at hn
  exact h.mapTop hr hs
    ⟨htop.site_of_member, htop.site_of_placeholder, fun hn => hmember hn, htop.retrieved⟩ rfl

end Sound
end Machine
end ObjectMarkup
