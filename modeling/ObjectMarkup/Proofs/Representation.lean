/-
How a machine holds its open objects.

`Loose.Machine.Kept` says what the parts of the frames have to do with each other, the parts being
kept apart, and `Services.trace_keeps` that this holds wherever a machine gets by carrying out
instructions, failures included.  It rests on what holds of the frames of a machine
(`Machine.Sound`) and on the machine that takes nothing for granted, which goes in step with it
whatever is done at a gap: no instruction ever misses what it looks for.
-/
import ObjectMarkup.Proofs.Lockstep

namespace ObjectMarkup

variable {σ : Type}

namespace Loose

/-- What holds of an open object: it is there when a member of it is open and when it was there
before, it sees a scope, it is its own collection if it is one, and nothing is kept for a member
that is not open. -/
structure Frame.Kept (f : Frame) : Prop where
  object_of_member : f.member.isSome = true → f.object.isSome = true
  object_of_placeholder : f.isPlaceholder = true → f.object.isSome = true
  scope_of_object : f.object.isSome = true → f.scope.isSome = true
  collection : ∀ c, f.collection = some c → f.object = some c
  pending : f.member = none → f.pending = []
  retrieved : f.member = none → f.retrieved = none

/-- What holds of the open objects, of the recording and of the result. -/
structure Machine.Kept (maxDepth : Nat) (m : Machine σ) : Prop where
  level : m.level ≤ maxDepth
  frames : ∀ f ∈ m.stack, f.Kept
  below : ∀ f ∈ m.stack.tail, f.object.isSome = true ∧ f.member.isSome = true
  /-- a placeholder stands in another object -/
  placeholder : ∀ above f below, m.stack = above ++ f :: below → f.isPlaceholder = true →
    below ≠ []
  recording : ∀ r, m.recording = some r → 1 ≤ r.depth ∧ ∃ top rest, m.stack = top :: rest ∧
    top.member = some r.member ∧ top.pending = []
  result : m.result.isSome = true ↔ m.rootClosed = true
  closed : m.rootClosed = true → m.stack = []

end Loose

theorem Frame.Sound.loose {f : Frame} (h : f.Sound) : f.loose.Kept where
  object_of_member := fun hmember => by simpa using h.site_of_member hmember
  object_of_placeholder := fun hp => by simpa using h.site_of_placeholder hp
  scope_of_object := fun hobject => by simpa using hobject
  collection := by
    intro c hc
    obtain ⟨site, hsite, hown⟩ := Option.bind_eq_some_iff.1 hc
    rw [Loose.collectionOf] at hown
    split at hown
    · rw [Frame.loose_object, hsite, Option.map_some, hown]
    · cases hown
  pending := h.pending
  retrieved := h.retrieved

theorem Machine.Sound.loose {maxDepth : Nat} {m : Machine σ} (h : m.Sound maxDepth) :
    m.loose.Kept maxDepth where
  level := by
    rw [loose_level]
    exact h.level
  frames := by
    intro f hf
    obtain ⟨g, hg, rfl⟩ := List.mem_map.1 hf
    exact (h.frames g hg).loose
  below := by
    intro f hf
    rw [loose_stack, ← List.map_tail] at hf
    obtain ⟨g, hg, rfl⟩ := List.mem_map.1 hf
    obtain ⟨site, hsite⟩ := h.site_below hg
    exact ⟨by rw [Frame.loose_object, hsite, Option.map_some, Option.isSome_some], h.below g hg⟩
  placeholder := by
    rintro above f below hstack hp rfl
    obtain ⟨front, last, hfront, -, hlast⟩ := List.map_eq_append_iff.1 hstack
    obtain ⟨g, rfl, rfl⟩ := List.map_eq_singleton_iff.1 hlast
    have hbottom := h.bottom g (by rw [hfront, List.getLast?_concat])
    exact Bool.false_ne_true (hbottom.symm.trans hp)
  recording := by
    intro r hr
    obtain ⟨hdepth, top, rest, hs, ht, hp, -⟩ := h.recording r hr
    exact ⟨hdepth, top.loose, rest.map Frame.loose, by rw [loose_stack, hs, List.map_cons], ht, hp⟩
  result := by
    have hresult := h.result
    rw [show m.loose.result = m.result from rfl, hresult]
    exact Iff.rfl
  closed := fun hc => by rw [loose_stack, h.closed hc, List.map_nil]

namespace Services

variable {services : Services σ} {m : Machine σ} {maxDepth : Nat}

/-- Once the first object is closed, every instruction is refused. -/
theorem step_of_rootClosed (hm : m.Sound maxDepth) (hc : m.rootClosed = true) (i : Instruction) :
    ∃ e, services.step i m = .error e m := by
  have hs := hm.closed hc
  rw [step_of_idle services (hm.recording_of_empty hs)]
  obtain ⟨e, hfault⟩ : ∃ e, m.fault i = some e := by
    cases i <;> simp [Machine.fault, Machine.entryFault, hs, hc]
  by_cases htype : ∀ start, i = .startObject start → services.checkType start.type = .ok ()
  · exact ⟨_, services.execute_of_fault hfault htype⟩
  · obtain ⟨start, rfl, hunknown⟩ : ∃ start, i = .startObject start ∧
        services.checkType start.type ≠ .ok () := by simpa using htype
    cases hcheck : services.checkType start.type with
    | ok _ => exact absurd hcheck hunknown
    | error e' =>
      refine ⟨e', ?_⟩
      simp [execute, startObject, Machine.onWorld_apply, Build.ofExcept, hcheck]

theorem trace_of_rootClosed (hm : m.Sound maxDepth) (hc : m.rootClosed = true) (keepGoing : Bool)
    (stream : List Instruction) : (services.trace keepGoing stream m).2 = m := by
  induction stream with
  | nil => rfl
  | cons i is ih =>
    obtain ⟨e, he⟩ : ∃ e, services.step i m = .error e m := step_of_rootClosed hm hc i
    rw [trace, traceStep, he]
    dsimp only
    split
    · rfl
    · exact ih

/-- Wherever instructions take a machine, also by way of failures, its frames are kept as they
should be, and the machine that takes nothing for granted gets there with the same answers, whatever
is done at a gap, be it a failure or a change of the machine: it comes to none.  Once the first
object is closed, nothing changes any more. -/
theorem trace_keeps (services : Services σ) (detour : Loose.Gap → Loose.Machine.Action σ Unit)
    (w : World σ) (supplied : Option ObjectId) (base : Option ScopeId) (keepGoing : Bool)
    (stream : List Instruction) :
    let (entries, m) := services.trace keepGoing stream (Machine.blank w supplied base)
    Loose.trace services detour keepGoing stream { world := w, supplied, base } =
      (entries, m.loose) ∧
    m.loose.Kept services.settings.maxDepth ∧
    (m.rootClosed = true → ∀ keepGoing more, (services.trace keepGoing more m).2 = m) := by
  have hblank : (Machine.blank w supplied base).Sound services.settings.maxDepth :=
    .blank w supplied base
  have hm : (services.trace keepGoing stream (Machine.blank w supplied base)).2.Sound
      services.settings.maxDepth := trace_sound hblank
  exact ⟨Loose.trace_inStep hblank keepGoing stream, hm.loose,
    fun hc keepGoing more => trace_of_rootClosed hm hc keepGoing more⟩

end Services
end ObjectMarkup
