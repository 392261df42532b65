/-
The object that a run starts first.

It is the one object that the rest of a run can refer to: handlers are wired to it, extensions are
shown it, and the run ends with it.  The main theorem, `run_keepsFirst`, says that all of these mean
the same object.  Two facts carry it.  Once the first object is there no instruction replaces it, up
to its end and after that (`Does.first`); and a machine that is given an object starts with that one
(`steps_supplied`).
-/
import ObjectMarkup.Proofs.Recordings
import ObjectMarkup.Proofs.Recursion
import ObjectMarkup.Proofs.Turns
import ObjectMarkup.Widget.Catalogue

namespace ObjectMarkup

open ObjectMarkup.Action (Leaves endState)
open Machine (blank)

variable {σ : Type}

namespace Machine

/-- The object that was started first, while it is open and after its end. -/
def first (m : Machine σ) : Option ObjectId :=
  match m.stack with
  | [] => m.result
  | _ :: _ => m.root

variable {m : Machine σ} {top : Frame} {rest : List Frame} {x : ObjectId}

theorem first_of_cons (hs : m.stack = top :: rest) : m.first = m.root := by
  simp [first, hs]

theorem first_of_nil (hs : m.stack = []) : m.first = m.result := by
  simp [first, hs]

theorem stack_of_root (h : m.root = some x) : m.stack ≠ [] := by
  intro hs
  simp [root, hs] at h

theorem first_of_root (h : m.root = some x) : m.first = some x := by
  cases hs : m.stack with
  | nil => exact absurd hs (stack_of_root h)
  | cons top rest => exact (first_of_cons hs).trans h

theorem root_of_first (h : m.first = some x) (hopen : m.stack ≠ []) : m.root = some x := by
  cases hs : m.stack with
  | nil => exact absurd hs hopen
  | cons top rest => exact (first_of_cons hs).symm.trans h

/-- At the end of a run nothing is open. -/
theorem stack_of_finish (h : m.finish = .ok x) : m.stack = [] := by
  cases hs : m.stack with
  | nil => rfl
  | cons top rest =>
    have hopen : 0 < m.level + if m.isRecording then 1 else 0 := by
      simp only [level, hs, List.length_cons]
      omega
    simp [finish, hopen] at h

/-- A first object that has not ended is open. -/
theorem Sound.open_of_first {maxDepth : Nat} (hm : m.Sound maxDepth) (hfirst : m.first = some x)
    (hclosed : m.rootClosed = false) : m.stack ≠ [] := by
  intro hs
  have hresult : m.result = none := by simpa [hclosed] using hm.result
  rw [first_of_nil hs, hresult] at hfirst
  cases hfirst

theorem root_openObject (hs : m.stack = top :: rest) (frame : Frame) :
    (m.openObject frame).root = m.root := by
  rw [root, root, openObject_stack, hs, List.getLast?_cons_cons]

theorem root_close {parent : Frame} (hs : m.stack = top :: parent :: rest) :
    m.close.root = m.root := by
  have hstack : m.close.stack = parent :: rest := by simp [close, hs]
  rw [root, root, hstack, hs, List.getLast?_cons_cons]

/-- A change of the innermost frame that leaves its object leaves the first one. -/
theorem first_mapTop (m : Machine σ) {f : Frame → Frame} (hf : ∀ top, (f top).site = top.site) :
    (m.mapTop f).first = m.first := by
  cases hs : m.stack with
  | nil =>
    have hsame : m.mapTop f = m := by simp [mapTop, hs]
    rw [hsame]
  | cons top rest =>
    rw [first_of_cons hs, first_of_cons (m.mapTop_stack f hs), mapTop_root hf]

@[simp] theorem first_inWorld (w : World σ) : (m.inWorld w).first = m.first := rfl

@[simp] theorem first_withRecording (r : Option (Recording σ)) :
    (m.withRecording r).first = m.first := rfl

@[simp] theorem first_push (v : Value) : (m.push v).first = m.first :=
  m.first_mapTop (f := Frame.receive [v]) fun _ => rfl

@[simp] theorem first_retrieve (v : Value) : (m.retrieve v).first = m.first :=
  m.first_mapTop (f := Frame.retrieve v) fun _ => rfl

@[simp] theorem first_closeMember : m.closeMember.first = m.first :=
  m.first_mapTop (f := Frame.closeMember) fun _ => rfl

@[simp] theorem first_openMember (member : Member) (loader : Option (Loader σ)) :
    (m.openMember member loader).first = m.first := by
  have hopen : (m.mapTop (Frame.openMember member)).first = m.first := m.first_mapTop fun _ => rfl
  cases loader <;> exact hopen

theorem root_of_single (hs : m.stack = [top]) : m.root = top.object := by
  simp [root, hs]

/-- Where objects stand in each other, the first one is there. -/
theorem Sound.first_of_inner {maxDepth : Nat} (hm : m.Sound maxDepth) {parent : Frame}
    (hs : m.stack = top :: parent :: rest) : ∃ x, m.first = some x := by
  have hlast : m.stack.getLast? = some ((parent :: rest).getLast (List.cons_ne_nil _ _)) := by
    rw [hs, List.getLast?_cons_cons, List.getLast?_eq_some_getLast]
  have hbelow : (parent :: rest).getLast (List.cons_ne_nil _ _) ∈ m.stack.tail := by
    rw [hs, List.tail_cons]
    exact List.getLast_mem _
  obtain ⟨site, hsite⟩ := hm.site_below hbelow
  refine ⟨site.object, ?_⟩
  rw [first_of_cons hs, root, hlast, Option.bind_some, Frame.object, hsite]
  rfl

end Machine

namespace Services

variable {services : Services σ} {m m' : Machine σ} {top : Frame} {rest : List Frame}
  {i : Instruction} {x : ObjectId}

/-! ## The first object stays -/

/-- The first object is made once: when the innermost one is put into its frame, the first one is
there already, or is that one. -/
theorem first_setSite (hs : m.stack = top :: rest) {site : Site} {w : World σ}
    (hobject : services.objectOf m top m.world = .ok site w) (hfirst : m.first = some x) :
    (m.setSite site).first = some x := by
  rw [Machine.first_of_cons hs] at hfirst
  have hstack : (m.setSite site).stack = top.setSite site :: rest := m.mapTop_stack _ hs
  rw [Machine.first_of_cons hstack]
  cases hsite : top.site with
  | some found =>
    simp only [objectOf, hsite, Action.pure_apply, EStateM.Result.ok.injEq] at hobject
    rw [← hobject.1, setSite_eq_self hs hsite]
    exact hfirst
  | none =>
    cases rest with
    | nil => simp [Machine.root_of_single hs, Frame.object, hsite] at hfirst
    | cons next rest =>
      rw [Machine.root, hs] at hfirst
      rw [Machine.root, hstack]
      simpa using hfirst

/-- No instruction replaces the first object once it is there. -/
theorem Does.first (hm : m.Sound services.settings.maxDepth) (hdoes : services.Does m i m')
    (hfirst : m.first = some x) : m'.first = some x := by
  have hopen : m.rootClosed = false → m.stack ≠ [] := hm.open_of_first hfirst
  cases hdoes with
  | startObject hr hf _ _ =>
    cases hs : m.stack with
    | nil =>
      refine absurd hs (hopen ?_)
      simpa [Machine.entryFault, hs] using hf
    | cons top rest =>
      rw [Machine.first_of_cons hs] at hfirst
      rw [Machine.first_of_cons rfl, Machine.root_openObject hs]
      exact hfirst
  | startSupplied _ hs hclosed _ _ _ => exact absurd hs (hopen hclosed)
  | @getObject top rest member site target _ hs _ _ _ _ =>
    have hstack : (m.retrieve (.object target)).stack = top.retrieve (.object target) :: rest :=
      m.mapTop_stack _ hs
    rw [Machine.first_of_cons rfl, Machine.root_openObject hstack, ← Machine.first_of_cons hstack,
      Machine.first_retrieve]
    exact hfirst
  | @startMember top rest site w member loader _ hs _ hobject _ =>
    simpa using first_setSite hs hobject hfirst
  | value _ _ _ _ => simpa using hfirst
  | endMember _ _ _ _ _ => simpa using hfirst
  | @leave top rest hr hs _ hp =>
    cases rest with
    | nil => simp [hm.bottom top (by simp [hs])] at hp
    | cons parent rest =>
      have hstack : m.close.stack = parent :: rest := by simp [Machine.close, hs]
      rw [Machine.first_of_cons hstack, Machine.root_close hs, ← Machine.first_of_cons hs]
      exact hfirst
  | @endInner top parent rest site v w w' w'' _ hs _ _ _ _ _ =>
    have hstack : m.close.stack = parent :: rest := by simp [Machine.close, hs]
    rw [Machine.first_inWorld, Machine.first_push, Machine.first_of_cons hstack,
      Machine.root_close hs, ← Machine.first_of_cons hs]
    exact hfirst
  | @endRoot top site w w' _ hs _ _ hobject _ =>
    have hstack : m.close.stack = [] := by simp [Machine.close, hs]
    have hset := first_setSite hs hobject hfirst
    have htop : (m.setSite site).stack = [top.setSite site] := m.mapTop_stack _ hs
    rw [Machine.first_of_cons htop, Machine.root_of_single htop] at hset
    exact (Machine.first_of_nil (m := { m.close with result := some site.object })
      hstack).trans hset
  | record _ _ => exact hfirst
  | handOver _ _ _ _ _ _ => simpa using hfirst

variable (services) in
/-- What every instruction keeps is kept by a stream. -/
theorem steps_invariant {P : Machine σ → Prop}
    (hP : ∀ {m i m'}, m.Sound services.settings.maxDepth → services.Does m i m' → P m → P m')
    {stream : List Instruction} (hm : m.Sound services.settings.maxDepth)
    (h : services.steps stream m = .ok () m') (hstart : P m) : P m' := by
  induction stream generalizing m with
  | nil =>
    cases h
    exact hstart
  | cons i is ih =>
    rw [steps_cons] at h
    cases hstep : services.step i m with
    | error e m₁ => simp [hstep] at h
    | ok _ m₁ =>
      simp only [hstep] at h
      have hdoes := step_does hm hstep
      exact ih (hdoes.sound hm) h (hP hm hdoes hstart)

/-- What a run ends with is the first object of its machine. -/
theorem first_of_finish (h : m.finish = .ok x) : m.first = some x := by
  rw [Machine.first_of_nil (Machine.stack_of_finish h)]
  exact Machine.result_of_finish h

/-! ## An object that is supplied -/

/-- A machine that is given an object has not started, or has started with that one. -/
def StartsWith (root : ObjectId) (m : Machine σ) : Prop :=
  (m.stack = [] ∧ m.rootClosed = false ∧ m.supplied = some root) ∨ m.first = some root

theorem StartsWith.root {root : ObjectId} (h : StartsWith root m) (hopen : m.stack ≠ []) :
    m.root = some root := by
  rcases h with ⟨hs, -⟩ | hfirst
  · exact absurd hs hopen
  · exact Machine.root_of_first hfirst hopen

/-- The object of the outermost frame is not made if it is supplied. -/
theorem StartsWith.site_of_outermost {root : ObjectId} (h : StartsWith root m)
    (hs : m.stack = top :: rest) (hlevel : m.level ≤ 1) : top.site ≠ none := by
  intro hsite
  obtain rfl : rest = [] := by
    rw [Machine.level, hs, List.length_cons] at hlevel
    exact List.length_eq_zero_iff.1 (by omega)
  have hroot := h.root (by simp [hs])
  simp [Machine.root_of_single hs, Frame.object, hsite] at hroot

theorem Does.startsWith (hm : m.Sound services.settings.maxDepth) (hdoes : services.Does m i m')
    {root : ObjectId} (h : StartsWith root m) : StartsWith root m' := by
  rcases h with ⟨hs, hclosed, hsupplied⟩ | hfirst
  · have hidle := hm.recording_of_empty hs
    cases hdoes with
    | startObject _ _ _ hnone => simp [hnone hs] at hsupplied
    | @startSupplied start id site w _ _ _ hsome _ hadopt =>
      obtain rfl : id = root := Option.some.inj (hsome.symm.trans hsupplied)
      obtain ⟨-, collects, rfl⟩ := services.adopt_ok hadopt
      refine .inr ?_
      rw [Machine.first_inWorld, Machine.first_of_cons rfl, Machine.root, Machine.openObject_stack]
      simp [hs, Frame.object]
    | getObject _ hs' _ _ _ _ | startMember _ hs' _ _ _ | value _ hs' _ _ | endMember _ hs' _ _ _
    | leave _ hs' _ _ | endInner _ hs' _ _ _ _ _ | endRoot _ hs' _ _ _ _ =>
      rw [hs] at hs'
      cases hs'
    | record hr _ => simp [hidle] at hr
    | handOver hr _ _ _ _ _ => simp [hidle] at hr
  · exact .inr (hdoes.first hm hfirst)

/-! ## What an instruction has to do with it -/

/-- What an instruction from `m` to `m'` has to do with `first`, in a run that is given the object
`root`, or none. -/
structure KeepsFirst (root : Option ObjectId) (first : ObjectId)
    (i : Instruction) (m m' : Machine (Watched σ)) : Prop where
  there : ∀ x, m.root = some x → x = first
  supplied : root.isSome = true → m.stack ≠ [] → m.root = some first
  stays : m.root = some first → m'.stack ≠ [] → m'.root = some first
  /-- the literal of an event is a handler of the first object -/
  wires : ∀ s member, i = .value s → m.recording = none →
    m.stack.head?.bind (·.member) = some member → member.isEvent = true →
      services.host.handles m.world.heap.heap first s = true ∧ m' = m.push (.handler ⟨s, first⟩)
  /-- an extension stands in another object and is shown the first one, and no constructor is called
  for an object that is supplied -/
  calls : ∃ made, m'.world.heap.calls = m.world.heap.calls ++ made ∧
    (∀ target place, .provide target place ∈ made → 1 < m.level ∧ place.root = some first) ∧
    (root.isSome = true → m.level ≤ 1 →
      ∀ type arguments id, .activate type arguments id ∉ made) ∧
    -- the end of the first object
    (∀ top, i = .endObject → m.recording = none → m.stack = [top] →
      m'.stack = [] ∧ m'.result = some first ∧
        (top.object = some first ∨ .activate top.type top.arguments (some first) ∈ made))

theorem stack_of_inner {m : Machine σ} (h : 1 < m.level) :
    ∃ top parent rest, m.stack = top :: parent :: rest := by
  rw [Machine.level] at h
  rcases hs : m.stack with - | ⟨top, - | ⟨parent, rest⟩⟩
  · simp [hs] at h
  · simp [hs] at h
  · exact ⟨top, parent, rest, rfl⟩

/-- The literal of an event is a handler of the first object, which has it. -/
theorem Does.wires {s : String} {member : Member} (hdoes : services.Does m (.value s) m')
    (hr : m.recording = none) (hopen : m.stack.head?.bind (·.member) = some member)
    (hevent : member.isEvent = true) : ∃ first, m.root = some first ∧
      services.host.handles m.world.heap first s = true ∧ m' = m.push (.handler ⟨s, first⟩) := by
  cases hdoes with
  | record hrec _ => simp [hr] at hrec
  | @value top rest member' _ v w _ hs ht hread =>
    obtain rfl : member' = member := by simpa [hs, ht] using hopen
    obtain ⟨hvalue, rfl⟩ := Build.ofExcept_eq_ok hread
    simp only [hevent, if_true, wireHandler] at hvalue
    cases hroot : m.root with
    | none => simp [hroot] at hvalue
    | some first =>
      simp only [hroot] at hvalue
      split at hvalue
      · next hhandles =>
        cases hvalue
        exact ⟨first, rfl, hhandles, Machine.inWorld_of_eq _ _ (m.push_world _)⟩
      · cases hvalue

/-- The first object ends as itself: it was there, or it is made at its end. -/
theorem Does.endsFirst {m m' : Machine (Watched σ)} {top : Frame}
    (hm : m.Sound services.settings.maxDepth) (hdoes : services.watched.Does m .endObject m')
    (hr : m.recording = none) (hs : m.stack = [top]) : m'.stack = [] ∧ ∃ first,
      m'.result = some first ∧ (top.object = some first ∨
        ∃ more, m'.world.heap.calls =
          m.world.heap.calls ++ .activate top.type top.arguments (some first) :: more) := by
  cases hdoes with
  | record hrec _ => simp [hr] at hrec
  | leave _ hs' _ hp =>
    rw [hs] at hs'
    cases hs'
    simp [hm.bottom top (by simp [hs])] at hp
  | endInner _ hs' _ _ _ _ _ =>
    rw [hs] at hs'
    cases hs'
  | @endRoot top' site w w' _ hs' _ _ hobject hcomplete =>
    rw [hs] at hs'
    cases hs'
    refine ⟨by simp [Machine.close, hs], site.object, rfl, ?_⟩
    have hobtains : services.Obtains (Stays fun (_ : σ) (_ : ObjectId) => False) m .endObject top
        site.object w := objectOf_obtains hobject
    cases hobtains with
    | found hfound => exact .inl hfound
    | made _ hconstructs hsilent =>
      obtain ⟨more, hmore⟩ := hconstructs.activates
      obtain ⟨others, hothers, -⟩ := hsilent.notes
      obtain ⟨last, hlast, -⟩ :=
        (complete_heaps services.callsLeave_notes _ _ _ _).of_ok hcomplete
      refine .inr ⟨more ++ others ++ last, ?_⟩
      show w'.heap.calls = _
      rw [hlast, hothers, hmore]
      simp

/-- What a run ends with is the first object of its machine. -/
theorem run_first {stream : List Instruction} {root : Option ObjectId} {base : Option ScopeId}
    {w w' : World σ} {id : ObjectId} (h : services.run stream root base w = .ok id w') :
    ∃ m, services.steps stream (blank w root base) = .ok () m ∧ m.first = some id := by
  rw [run_eq_steps] at h
  cases hsteps : services.steps stream (blank w root base) with
  | error e m => simp [hsteps] at h
  | ok _ m =>
    simp only [hsteps] at h
    cases hfinish : m.finish with
    | error e => simp [hfinish] at h
    | ok id' =>
      simp only [hfinish, EStateM.Result.ok.injEq] at h
      obtain ⟨rfl, -⟩ := h
      exact ⟨m, rfl, first_of_finish hfinish⟩

/-- An instruction of a run whose first object is `first`. -/
theorem step_keepsFirst {root : Option ObjectId} {first : ObjectId} {m m' : Machine (Watched σ)}
    (hm : m.Sound services.settings.maxDepth)
    (hloader : ∀ r, m.recording = some r → services.watched.loaders.find? r.member = some r.loader)
    (hstarts : ∀ r, root = some r → StartsWith r m) (hstep : services.watched.step i m = .ok () m')
    (hm₁ : ∀ x, m.first = some x → x = first) (hm₂ : ∀ x, m'.first = some x → x = first) :
    services.KeepsFirst root first i m m' := by
  have hdoes : services.watched.Does m i m' := step_does hm hstep
  have hroot : ∀ x, m.root = some x → x = first := fun x hx =>
    hm₁ x (Machine.first_of_root hx)
  refine ⟨hroot, fun hsome hopen => ?_, fun hx hopen => ?_, ?_, ?_⟩
  · obtain ⟨r, hr⟩ := Option.isSome_iff_exists.1 hsome
    have hx := (hstarts r hr).root hopen
    rw [hx, hroot r hx]
  · exact Machine.root_of_first (hdoes.first hm (Machine.first_of_root hx)) hopen
  · rintro s member rfl hr hopen hevent
    obtain ⟨x, hx, hhandles, hpush⟩ := hdoes.wires hr hopen hevent
    obtain rfl := hroot x hx
    exact ⟨hhandles, hpush⟩
  · obtain ⟨made, hmade, hfits⟩ := (hdoes.turn services.callsLeave_none hloader).notes
    refine ⟨made, hmade, fun target place hplace => ?_,
      fun hsome hlevel type arguments id hid => ?_, ?_⟩
    · obtain ⟨-, hlevel, hplace⟩ := hfits _ hplace
      obtain ⟨top, parent, rest, hs⟩ := stack_of_inner hlevel
      obtain ⟨x, hx⟩ := hm.first_of_inner hs
      have hx := Machine.root_of_first hx (by simp [hs])
      exact ⟨hlevel, by rw [hplace, hx, hroot x hx]⟩
    · obtain ⟨top, rest, -, hs, hsite, -⟩ := hfits _ hid
      obtain ⟨r, hr⟩ := Option.isSome_iff_exists.1 hsome
      exact (hstarts r hr).site_of_outermost hs hlevel hsite
    · rintro top rfl hr hs
      obtain ⟨hs', x, hresult, hx⟩ := Does.endsFirst hm hdoes hr hs
      obtain rfl := hm₂ x ((Machine.first_of_nil hs').trans hresult)
      refine ⟨hs', hresult, hx.imp_right ?_⟩
      rintro ⟨more, hmore⟩
      rw [hmade] at hmore
      rw [List.append_cancel_left hmore]
      exact List.mem_cons_self

variable (services)

/-- A run has one first object.  It is the one that is supplied, if one is; it stays the same up to
its end, and the run ends with it; handlers are wired to it, and extensions are shown it. -/
theorem run_keepsFirst (stream : List Instruction) (root : Option ObjectId) (base : Option ScopeId)
    {w w' : World σ} {id : ObjectId} (h : services.run stream root base w = .ok id w') :
    (∀ r, root = some r → id = r) ∧
    ∀ pre i post, stream = pre ++ i :: post → ∃ m m',
      services.watched.steps pre (blank (w.watch []) root base) = .ok () m ∧
      services.watched.step i m = .ok () m' ∧ services.KeepsFirst root id i m m' := by
  obtain ⟨calls, hwatched⟩ := services.run_watched stream root base w []
  rw [h] at hwatched
  obtain ⟨mₙ, hsteps, hlast⟩ := run_first hwatched
  have h₀ : (blank (w.watch []) root base).Sound services.settings.maxDepth := .blank _ _ _
  have hstarts : ∀ {stream m}, services.watched.steps stream (blank (w.watch []) root base) =
      .ok () m → ∀ r, root = some r → StartsWith r m := by
    intro stream m hm r hr
    exact services.watched.steps_invariant (fun hm hdoes => hdoes.startsWith hm) h₀ hm
      (.inl ⟨rfl, rfl, hr⟩)
  refine ⟨fun r hr => ?_, ?_⟩
  · rcases hstarts hsteps r hr with ⟨hs, hclosed, -⟩ | hfirst
    · exact absurd hs ((steps_sound h₀ hsteps).open_of_first hlast hclosed)
    · exact Option.some.inj (hlast.symm.trans hfirst)
  · rintro pre i post rfl
    rw [steps_append] at hsteps
    obtain ⟨_, m, hpre, hrest⟩ := (Action.bind_eq_ok _).1 hsteps
    rw [steps_cons] at hrest
    cases hstep : services.watched.step i m with
    | error e m' => simp [hstep] at hrest
    | ok _ m' =>
      simp only [hstep] at hrest
      have hm := steps_sound h₀ hpre
      have hdoes : services.watched.Does m i m' := step_does hm hstep
      have hend : ∀ x, m'.first = some x → x = id := fun x hx =>
        Option.some.inj ((services.watched.steps_invariant (fun hm hdoes => hdoes.first hm)
          (hdoes.sound hm) hrest hx).symm.trans hlast)
      refine ⟨m, m', hpre, hstep, step_keepsFirst hm (fun r hr => ?_) (hstarts hpre) hstep
        (fun x hx => hend x (hdoes.first hm hx)) hend⟩
      obtain ⟨-, -, hfind, -⟩ := steps_recorded h₀ rfl hpre hr
      exact hfind

end Services

/-- A window whose title an extension provides, and whose button is handled by the window. -/
def Widget.clicked : List Instruction :=
  [.startObject { type := "TestWindow" },
    .startMember (stringMember "TestWindow" "Title"),
    .startObject { type := "SimpleExtension" },
    .startMember (stringMember "SimpleExtension" "Property"), .value "Press", .endMember,
    .endObject, .endMember,
    .startMember (contentMember "TestWindow"), .startObject { type := "Button" },
    .startMember { owner := "Button", name := "Click", kind := .event }, .value "OnClick",
    .endMember, .endObject, .endMember, .endObject]

namespace Services

theorem run_keepsFirst_clicked :
    ∃ w', (Widget.catalogue.services Heap.host {}).run Widget.clicked (some ⟨0⟩) none
        { heap := ⟨#[some (.testWindow {})]⟩ } = .ok ⟨0⟩ w' ∧
      ∃ m m', (Widget.catalogue.services Heap.host {}).KeepsFirst (some ⟨0⟩) ⟨0⟩
        (.value "OnClick") m m' := by
  have hok : (match (Widget.catalogue.services Heap.host {}).run Widget.clicked (some ⟨0⟩) none
      { heap := ⟨#[some (.testWindow {})]⟩ } with
    | .ok id _ => decide (id = ⟨0⟩)
    | .error _ _ => false) = true := by decide +kernel
  split at hok
  · next id w' hrun =>
    obtain rfl : id = ⟨0⟩ := of_decide_eq_true hok
    obtain ⟨-, hsteps⟩ := run_keepsFirst _ _ _ _ hrun
    obtain ⟨m, m', -, -, hkeeps⟩ := hsteps (Widget.clicked.take 11) (.value "OnClick")
      (Widget.clicked.drop 12) rfl
    exact ⟨w', hrun, m, m', hkeeps⟩
  · cases hok

end Services
end ObjectMarkup
