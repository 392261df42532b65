/-
The life of a context.

The main theorem, `life_signals`, is about everything that is carried out in one context: runs of
any kind, one after the other, whether they succeed or fail (`Services.Life`).  An object that is
made for a type with stages is told once that it begins, as soon as it is there, and an object with
stages is told at most once that it is complete, at the end of its own frame.
-/
import ObjectMarkup.Proofs.FirstObject
import ObjectMarkup.Proofs.Renaming
import ObjectMarkup.Proofs.Signals

namespace ObjectMarkup

open ObjectMarkup.Action (Leaves endState)
open Machine (blank)
open Watched (Notes)

variable {σ : Type}

namespace Services

/-! ## The places of the signals -/

section

variable (services : Services σ)

/-- The object of the innermost frame is made now, and told at once that it begins. -/
def BeginsAt (m : Machine (Watched σ)) (made : List Call) (x : ObjectId) : Prop :=
  ∃ top rest more, m.recording = none ∧ m.stack = top :: rest ∧ top.site = none ∧
    (services.schema.traits top.type).lifecycle = true ∧
    made = .activate top.type top.arguments (some x) :: .beginInit x :: more

/-- The innermost frame ends, which is one of the object, and no member of it is open. -/
def EndsAt (m : Machine (Watched σ)) (i : Instruction) (made : List Call) (x : ObjectId) : Prop :=
  i = .endObject ∧ ∃ top rest, m.recording = none ∧ m.stack = top :: rest ∧ top.member = none ∧
    top.isPlaceholder = false ∧ (services.schema.traits top.type).lifecycle = true ∧
    (top.object = some x ∨ .activate top.type top.arguments (some x) ∈ made)

end

variable {services : Services σ} {there : σ → ObjectId → Prop} {m : Machine (Watched σ)}
  {i : Instruction} {top : Frame} {rest : List Frame} {id : ObjectId}
  {w w' : World (Watched σ)} {as : List Actor}

/-- A constructor that makes an object that listens is followed by the signal, and by nothing else
before. -/
theorem Constructs.signals {type : TypeName} {arguments : List String} {made : Option ObjectId}
    (h : services.Constructs type arguments w made w') :
    ∃ now, w'.heap.calls = w.heap.calls ++ now ∧ (∀ x, .endInit x ∉ now) ∧
      ∀ x, .beginInit x ∈ now → (services.schema.traits type).lifecycle = true ∧
        now = [.activate type arguments (some x), .beginInit x] := by
  cases h with
  | fails _ => exact ⟨[_], rfl, by simp, by simp⟩
  | untold _ _ => exact ⟨[_], rfl, by simp, by simp⟩
  | told _ hlifecycle _ =>
    refine ⟨[_, _], rfl, by simp, fun x hx => ⟨hlifecycle, ?_⟩⟩
    obtain rfl : x = _ := by simpa using hx
    rfl

theorem not_told_of_silent {S : σ → σ → Prop} (h : World.Silent S m i w w') :
    w.HeapsIn (Notes fun c => ∀ x, c ≠ .beginInit x ∧ c ≠ .endInit x) w' := by
  refine h.notes.mono fun c hc x => ?_
  constructor <;> rintro rfl <;> exact hc

/-- Nothing is told of objects while the place of a new one is looked for. -/
theorem Constructs.signals_placed {S : σ → σ → Prop} {type : TypeName} {arguments : List String}
    {made : Option ObjectId} (h : services.Constructs type arguments m.world made w)
    (hsilent : World.Silent S m i w w') :
    ∃ now, w'.heap.calls = m.world.heap.calls ++ now ∧ .activate type arguments made ∈ now ∧
      (∀ x, .endInit x ∉ now) ∧
      ∀ x, .beginInit x ∈ now → (services.schema.traits type).lifecycle = true ∧
        ∃ more, now = .activate type arguments (some x) :: .beginInit x :: more := by
  obtain ⟨now, hnow, hended, hbegun⟩ := h.signals
  obtain ⟨more, hmore, hnone⟩ := not_told_of_silent hsilent
  obtain ⟨others, hothers⟩ := h.activates
  have hactivate : .activate type arguments made ∈ now := by
    rw [List.append_cancel_left (hnow.symm.trans hothers)]
    exact List.mem_cons_self
  refine ⟨now ++ more, by rw [hmore, hnow, List.append_assoc], List.mem_append_left _ hactivate,
    fun x hx => ?_, fun x hx => ?_⟩
  · exact (List.mem_append.1 hx).elim (hended x) fun hx => (hnone _ hx x).2 rfl
  · have hx : .beginInit x ∈ now :=
      (List.mem_append.1 hx).resolve_right fun hx => (hnone _ hx x).1 rfl
    obtain ⟨hlifecycle, rfl⟩ := hbegun x hx
    exact ⟨hlifecycle, more, rfl⟩

theorem Obtains.signals {S : σ → σ → Prop} (h : services.Obtains S m i top id w) :
    ∃ now, w.heap.calls = m.world.heap.calls ++ now ∧ (∀ x, .endInit x ∉ now) ∧
      (top.object = some id ∨ .activate top.type top.arguments (some id) ∈ now) ∧
      ∀ x, .beginInit x ∈ now → top.site = none ∧
        (services.schema.traits top.type).lifecycle = true ∧
        ∃ more, now = .activate top.type top.arguments (some x) :: .beginInit x :: more := by
  cases h with
  | found hobject => exact ⟨[], by simp, by simp, .inl hobject, by simp⟩
  | made hsite hconstructs hsilent =>
    obtain ⟨now, hnow, hactivate, hended, hbegun⟩ := hconstructs.signals_placed hsilent
    exact ⟨now, hnow, hended, .inr hactivate, fun x hx => ⟨hsite, hbegun x hx⟩⟩

theorem Completes.signals {type : TypeName} (h : services.Completes type id w w') :
    w.HeapsIn (Notes fun c => c = .endInit id ∧ (services.schema.traits type).lifecycle = true)
      w' := by
  cases h with
  | told hlifecycle _ _ => exact .one rfl ⟨rfl, hlifecycle⟩
  | untold _ => exact Std.Refl.refl w.heap

/-- An object is told that it begins right after its constructor, and that it is complete where its
own frame ends. -/
theorem Turn.signals {S : σ → σ → Prop} (hturn : services.Turn S m i as w) :
    ∃ made, w.heap.calls = m.world.heap.calls ++ made ∧
      (∀ x, .beginInit x ∈ made → services.BeginsAt m made x) ∧
      ∀ x, .endInit x ∈ made → services.EndsAt m i made x ∧ as.length + 1 = m.level := by
  have hnothing : m.world.HeapsIn (Notes fun c => ∀ x, c ≠ .beginInit x ∧ c ≠ .endInit x) w →
      ∃ made, w.heap.calls = m.world.heap.calls ++ made ∧
        (∀ x, .beginInit x ∈ made → services.BeginsAt m made x) ∧
        ∀ x, .endInit x ∈ made → services.EndsAt m i made x ∧ as.length + 1 = m.level := by
    rintro ⟨more, hmore, hnone⟩
    exact ⟨more, hmore, fun x hx => absurd rfl (hnone _ hx x).1,
      fun x hx => absurd rfl (hnone _ hx x).2⟩
  cases hturn with
  | silent hsilent => exact hnothing (not_told_of_silent hsilent)
  | enters _ hsilent => exact hnothing (not_told_of_silent hsilent)
  | leaves _ _ => exact hnothing (Std.Refl.refl m.world.heap)
  | @makes top rest made w₁ w hr hs hsite hconstructs hsilent =>
    obtain ⟨now, hnow, -, hended, hbegun⟩ := hconstructs.signals_placed hsilent
    refine ⟨now, hnow, fun x hx => ?_, fun x hx => absurd hx (hended x)⟩
    obtain ⟨hlifecycle, more, hmore⟩ := hbegun x hx
    exact ⟨top, rest, more, hr, hs, hsite, hlifecycle, hmore⟩
  | @ends top rest id w₁ w₂ w hi hr hs ht hp hobtains hcompletes hsilent =>
    obtain ⟨now, hnow, hended, hobject, hbegun⟩ := hobtains.signals
    obtain ⟨told, htold, htells⟩ := hcompletes.signals
    obtain ⟨more, hmore, hnone⟩ := not_told_of_silent hsilent
    refine ⟨now ++ (told ++ more), by rw [hmore, htold, hnow]; simp, fun x hx => ?_,
      fun x hx => ?_⟩
    · have hx : .beginInit x ∈ now := by
        refine (List.mem_append.1 hx).resolve_right fun hx => ?_
        rcases List.mem_append.1 hx with hx | hx
        · exact absurd (htells _ hx).1 (by simp)
        · exact (hnone _ hx x).1 rfl
      obtain ⟨hsite, hlifecycle, others, rfl⟩ := hbegun x hx
      exact ⟨top, rest, others ++ (told ++ more), hr, hs, hsite, hlifecycle, rfl⟩
    · have hx : .endInit x ∈ told := by
        rcases List.mem_append.1 hx with hx | hx
        · exact absurd hx (hended x)
        · exact (List.mem_append.1 hx).resolve_right fun hx => (hnone _ hx x).2 rfl
      obtain ⟨heq, hlifecycle⟩ := htells _ hx
      obtain rfl : x = id := Call.endInit.inj heq
      refine ⟨⟨hi, top, rest, hr, hs, ht, hp, hlifecycle,
        hobject.imp_right (List.mem_append_left _)⟩, ?_⟩
      simp [Machine.level, hs]

/-! ## A run -/

theorem steps_singleton {τ : Type} (services : Services τ) (i : Instruction) :
    services.steps [i] = services.step i := by
  simp only [steps, bind_pure_unit]

theorem mapTop_supplied {τ : Type} (f : Frame → Frame) (m : Machine τ) :
    (m.mapTop f).supplied = m.supplied := by
  obtain ⟨world, stack, closed, supplied, base, result, recording⟩ := m
  cases stack <;> rfl

/-- The supplied object waits until it is used. -/
theorem Does.supplied {τ : Type} {services : Services τ} {m m' : Machine τ}
    (hdoes : services.Does m i m') : m'.supplied = m.supplied ∨ m'.supplied = none := by
  cases hdoes with
  | startSupplied _ _ _ _ _ _ => exact .inr rfl
  | startObject _ _ _ _ | leave _ _ _ _ | endRoot _ _ _ _ _ _ | record _ _ => exact .inl rfl
  | getObject _ _ _ _ _ _ | value _ _ _ _ | endMember _ _ _ _ _ | endInner _ _ _ _ _ _ _
  | handOver _ _ _ _ _ _ => exact .inl (mapTop_supplied _ _)
  | @startMember top rest site w member loader _ _ _ _ _ =>
    have hset : ((m.setSite site).mapTop (Frame.openMember member)).supplied = m.supplied :=
      (mapTop_supplied _ _).trans (mapTop_supplied _ _)
    rw [Machine.inWorld_openMember]
    cases loader <;> exact .inl hset

variable (services there) in
/-- What holds of a machine that has carried out a part of its stream, since the calls `since`. -/
structure Underway (root : Option ObjectId) (since : List Call) (m : Machine (Watched σ)) :
    Prop where
  sound : m.Sound services.settings.maxDepth
  tallied : services.Tallied there m.world
  settles : services.Settles 0 since m.actors m.world.heap.calls
  begun : services.Begun root m.world.heap.calls m.actors
  supplied : m.supplied.isSome = true → root.isSome = true
  starts : ∀ r, root = some r → StartsWith r m

/-- Something is open before an instruction, or after it. -/
theorem Does.open (hm : m.Sound services.settings.maxDepth) {m' : Machine (Watched σ)}
    (hdoes : services.watched.Does m i m') : 0 < m.level ∨ 0 < m'.actors.length := by
  cases hs : m.stack with
  | cons top rest => exact .inl (by simp [Machine.level, hs])
  | nil =>
    have hidle := hm.recording_of_empty hs
    cases hdoes with
    | startObject _ _ _ _ => exact .inr (Nat.succ_pos _)
    | startSupplied _ _ _ _ _ _ => exact .inr (Nat.succ_pos _)
    | getObject _ hs' _ _ _ _ | startMember _ hs' _ _ _ | value _ hs' _ _ | endMember _ hs' _ _ _
    | leave _ hs' _ _ | endInner _ hs' _ _ _ _ _ | endRoot _ hs' _ _ _ _ =>
      rw [hs] at hs'
      cases hs'
    | record hr _ => simp [hidle] at hr
    | handOver hr _ _ _ _ _ => simp [hidle] at hr

variable {root : Option ObjectId} {since : List Call} {m₀ m' : Machine (Watched σ)}
  {stream : List Instruction}

/-- An instruction from a machine that is under way. -/
theorem Underway.step (hears : services.Hears there) (h : services.Underway there root since m)
    (hloader : ∀ r, m.recording = some r → services.watched.loaders.find? r.member = some r.loader)
    (hstep : services.watched.step i m = .ok () m') : services.Underway there root since m' := by
  have hdoes : services.watched.Does m i m' := step_does h.sound hstep
  have hturn := hdoes.turn hears.calls hloader
  exact {
    sound := hdoes.sound h.sound
    tallied := h.tallied.turn hears hturn
    settles := hturn.settles hears h.sound h.tallied (hdoes.open h.sound) h.settles
    begun := hturn.begun hears h.supplied h.begun
    supplied := fun hsome => by
      rcases hdoes.supplied with hsame | hnone
      · exact h.supplied (hsame ▸ hsome)
      · simp [hnone] at hsome
    starts := fun r hr => hdoes.startsWith h.sound (h.starts r hr) }

variable (h₀ : services.Underway there root since m₀) (hidle : m₀.recording = none)

include h₀ hidle

theorem loader_of_steps (hsteps : services.watched.steps stream m₀ = .ok () m) :
    ∀ r, m.recording = some r → services.watched.loaders.find? r.member = some r.loader := by
  intro r hr
  obtain ⟨-, -, hfind, -⟩ := steps_recorded h₀.sound hidle hsteps hr
  exact hfind

theorem steps_underway (hears : services.Hears there)
    (hsteps : services.watched.steps stream m₀ = .ok () m) :
    services.Underway there root since m := by
  induction stream using List.reverseRecOn generalizing m with
  | nil =>
    cases hsteps
    exact h₀
  | append_singleton pre i ih =>
    obtain ⟨m₁, hpre, hstep⟩ := services.watched.steps_concat_eq_ok hsteps
    exact (ih hpre).step hears (loader_of_steps h₀ hidle hpre) hstep

/-- What was told agrees with what is counted wherever a run stops. -/
theorem endState_tallied (hears : services.Hears there) (stream : List Instruction) :
    services.Tallied there (endState (services.watched.steps stream m₀)).world := by
  induction stream using List.reverseRecOn with
  | nil => exact h₀.tallied
  | append_singleton pre i ih =>
    rw [steps_append, Action.endState_bind]
    cases hpre : services.watched.steps pre m₀ with
    | error e m =>
      rw [hpre] at ih
      exact ih
    | ok _ m =>
      have hm := steps_underway h₀ hidle hears hpre
      obtain ⟨as, hturn, -⟩ := step_turn hears.calls (loader_of_steps h₀ hidle hpre) hm.sound i
      rw [steps_singleton]
      exact hm.tallied.turn hears hturn

/-- What is made inside an object that was opened after `m`, and is still open, is settled: of the
objects that were made since, each was told that it is complete or is open inside that object, or is
that object. -/
theorem settles_inside (hears : services.Hears there) {pre : List Instruction}
    (hpre : services.watched.steps pre m₀ = .ok () m) {post : List Instruction}
    (hsteps : services.watched.steps (i :: post) m = .ok () m')
    (hinside : ∀ between m₂, between <+: post →
      services.watched.steps (i :: between) m = .ok () m₂ → m.level < m₂.level) :
    services.Settles m.level m.world.heap.calls m'.actors m'.world.heap.calls := by
  induction post using List.reverseRecOn generalizing m' with
  | nil =>
    have hopened := hinside [] m' (List.prefix_refl _) hsteps
    have hm := steps_underway h₀ hidle hears hpre
    rw [steps_singleton] at hsteps
    have hturn := (step_does hm.sound hsteps : services.watched.Does m i m').turn hears.calls
      (loader_of_steps h₀ hidle hpre)
    exact hturn.settles hears hm.sound hm.tallied (.inr (by rwa [Machine.length_actors]))
      (services.settles_self _ _ _)
  | append_singleton post j ih =>
    rw [← List.cons_append] at hsteps
    obtain ⟨m₁, hbefore, hstep⟩ := services.watched.steps_concat_eq_ok hsteps
    have hopened := hinside post m₁ (List.prefix_append _ _) hbefore
    have hreached : services.watched.steps (pre ++ i :: post) m₀ = .ok () m₁ :=
      (services.watched.steps_append_of_ok hpre _).trans hbefore
    have hm₁ := steps_underway h₀ hidle hears hreached
    have hturn := (step_does hm₁.sound hstep : services.watched.Does m₁ j m').turn hears.calls
      (loader_of_steps h₀ hidle hreached)
    refine hturn.settles hears hm₁.sound hm₁.tallied (.inl hopened) (ih hbefore ?_)
    intro between m₂ hbetween
    exact hinside between m₂ (hbetween.trans (List.prefix_append _ _))

omit h₀ hidle

/-! ## The life of a context -/

end Services

/-- What can be carried out in a context. -/
inductive Job where
  /-- builds a tree into new objects, or into an object that is supplied and new objects -/
  | build (t : Tree) (root : Option ObjectId)
  | execute (stream : List Instruction) (root : Option ObjectId)
  | materialize (stream : List Instruction)

namespace Job

/-- The object that is supplied. -/
def root : Job → Option ObjectId
  | build _ root | execute _ root => root
  | materialize _ => none

/-- The machine that begins. -/
def start (w : World σ) : Job → Machine σ
  | build _ root | execute _ root => blank w root none
  | materialize _ => Services.materializer w

end Job

namespace Services

/-- Carries a job out. -/
def perform (services : Services σ) : Job → Build σ ObjectId
  | .build t root => services.build t root
  | .execute stream root => services.run stream root none
  | .materialize stream => services.materialize stream

/-- A job is refused as a whole, or is a run of its machine. -/
theorem perform_eq (services : Services σ) (job : Job) (w : World σ) :
    (∃ e, services.perform job w = .error e w) ∨
    ∃ stream, services.perform job w = match services.steps stream (job.start w) with
      | .error e m => .error e m.world
      | .ok _ m => match m.finish with
        | .ok id => .ok id m.world
        | .error e => .error e m.world := by
  cases job with
  | build t root =>
    rw [perform, build]
    cases t.write with
    | error e => exact .inl ⟨e, rfl⟩
    | ok stream => exact .inr ⟨stream, services.run_eq_steps stream root none w⟩
  | execute stream root => exact .inr ⟨stream, services.run_eq_steps stream root none w⟩
  | materialize stream => exact .inr ⟨stream, services.materialize_eq_steps stream w⟩

/-- The worlds that jobs in a new context lead to, one job after the other, with a mark that tells
whether all of them succeeded.  Between two jobs the objects may change, but not who listens. -/
inductive Life (services : Services σ) (there : σ → ObjectId → Prop) :
    Bool → World (Watched σ) → Prop
  | opens (heap : σ) : Life services there true { heap := ⟨heap, []⟩ }
  | between {ok : Bool} {w : World (Watched σ)} {heap : σ} : Life services there ok w →
      services.host.SameEars there w.heap.heap heap →
      Life services there ok (w.setHeap ⟨heap, w.heap.calls⟩)
  | succeeds {ok : Bool} {w w' : World (Watched σ)} {job : Job} {id : ObjectId} :
      Life services there ok w → services.watched.perform job w = .ok id w' →
      Life services there ok w'
  | fails {ok : Bool} {w w' : World (Watched σ)} {job : Job} {e : Error} :
      Life services there ok w → services.watched.perform job w = .error e w' →
      Life services there false w'

variable {services : Services σ} {there : σ → ObjectId → Prop} {w w' : World (Watched σ)}
  {job : Job} {id : ObjectId} {ok : Bool}

/-- The machine of a job begins with nothing unsettled. -/
theorem start_underway (h : services.Tallied there w) (job : Job) :
    services.Underway there job.root w.heap.calls (job.start w) := by
  cases job with
  | build t root | execute stream root =>
    exact ⟨.blank w root none, h, services.settles_self _ _ _, trivial, id,
      fun r hr => .inl ⟨rfl, rfl, hr⟩⟩
  | materialize stream =>
    exact ⟨.blank _ none _, ⟨h.begun, h.count, h.created, h.once, h.listens, h.fresh⟩,
      services.settles_self _ _ _, trivial, id, fun r hr => by cases hr⟩

theorem start_recording (w : World (Watched σ)) (job : Job) : (job.start w).recording = none := by
  cases job <;> rfl

/-- After a job what was told agrees with what is counted, whether it succeeds or fails. -/
theorem perform_tallied (hears : services.Hears there) (h : services.Tallied there w) :
    services.Tallied there (endState (services.watched.perform job w)) := by
  rcases services.watched.perform_eq job w with ⟨e, hrefused⟩ | ⟨stream, hrun⟩
  · rw [hrefused]
    exact h
  · have htallied := endState_tallied (start_underway h job) (start_recording w job) hears stream
    rw [hrun]
    cases hsteps : services.watched.steps stream (job.start w) with
    | error e m =>
      rw [hsteps] at htallied
      exact htallied
    | ok _ m =>
      rw [hsteps] at htallied
      dsimp only
      cases m.finish <;> exact htallied

/-- After a job that succeeds, each object that it made for a type with stages was told that it is
complete. -/
theorem perform_settles (hears : services.Hears there) (h : services.Tallied there w)
    (hok : services.watched.perform job w = .ok id w') :
    ∃ more, w'.heap.calls = w.heap.calls ++ more ∧
      ∀ x ∈ services.listeners more, x ∈ ends w'.heap.calls := by
  rcases services.watched.perform_eq job w with ⟨e, hrefused⟩ | ⟨stream, hrun⟩
  · rw [hrefused] at hok
    cases hok
  · rw [hrun] at hok
    cases hsteps : services.watched.steps stream (job.start w) with
    | error e m => simp [hsteps] at hok
    | ok _ m =>
      simp only [hsteps] at hok
      cases hfinish : m.finish with
      | error e => simp [hfinish] at hok
      | ok id' =>
        simp only [hfinish, EStateM.Result.ok.injEq] at hok
        obtain ⟨-, rfl⟩ := hok
        have hm := steps_underway (start_underway h job) (start_recording w job) hears hsteps
        have hclosed : m.actors = [] := by
          rw [Machine.actors, Machine.stack_of_finish hfinish]
          rfl
        obtain ⟨more, hmore, hsettled⟩ := hm.settles
        refine ⟨more, hmore, fun x hx => (hsettled x hx).resolve_right ?_⟩
        rw [hclosed]
        exact not_openAbove (Nat.le_refl _)

/-- What holds of every life. -/
theorem Life.tallied (hears : services.Hears there) (hlife : services.Life there ok w) :
    services.Tallied there w ∧
      (ok = true → ∀ x ∈ services.listeners w.heap.calls, x ∈ ends w.heap.calls) := by
  induction hlife with
  | opens heap =>
    exact ⟨{
      begun := rfl
      count := rfl
      created := rfl
      once := List.nodup_nil
      listens := fun x hx => by cases hx
      fresh := fun _ => List.nodup_nil }, fun _ x hx => by cases hx⟩
  | @between ok w heap _ hsame ih =>
    have htells : services.Tells there [] [] w (w.setHeap ⟨heap, w.heap.calls⟩) :=
      ⟨⟨[], by simp [World.setHeap], rfl, rfl, rfl⟩, by simp [World.setHeap], hsame⟩
    exact ⟨ih.1.tells htells (by simp) List.nodup_nil List.nodup_nil (by simp), ih.2⟩
  | @succeeds ok w w' job id _ hok ih =>
    have htallied : services.Tallied there (endState (services.watched.perform job w)) :=
      perform_tallied hears ih.1
    rw [hok] at htallied
    obtain ⟨more, hmore, hsettled⟩ := perform_settles hears ih.1 hok
    refine ⟨htallied, fun hall x hx => ?_⟩
    rw [hmore, listeners_append] at hx
    rcases List.mem_append.1 hx with hx | hx
    · rw [hmore, ends_append]
      exact List.mem_append_left _ (ih.2 hall x hx)
    · exact hsettled x hx
  | @fails ok w w' job e _ hfails ih =>
    have htallied : services.Tallied there (endState (services.watched.perform job w)) :=
      perform_tallied hears ih.1
    rw [hfails] at htallied
    exact ⟨htallied, fun hall => by cases hall⟩

/-! ## Signals -/

variable (services) in
/-- What the calls `made` of an instruction `i`, carried out or failed from `m`, tell of objects.
The run is given the object `root`, or none. -/
structure Signals (root : Option ObjectId) (m : Machine (Watched σ)) (i : Instruction)
    (made : List Call) : Prop where
  /-- members are set and items appended at the ends of members only -/
  populates : ∀ c ∈ made, c.populates = true → i = .endMember
  begins : ∀ x, .beginInit x ∈ made → services.BeginsAt m made x
  /-- an object is told that it is complete where its own frame ends, for the first time, and the
  frame is closed then -/
  ends : ∀ x, .endInit x ∈ made → services.EndsAt m i made x ∧
    .endInit x ∉ m.world.heap.calls ∧
    ∀ m', services.watched.step i m = .ok () m' → m'.level + 1 = m.level
  /-- no object is told that it begins before or in a supplied one -/
  supplied : root.isSome = true → m.level ≤ 1 → ObjectMarkup.begins made = []
  /-- what is recorded tells nothing, nor does an object that was there before or whose type has no
  stages -/
  silent : m.isRecording = true ∨ (∃ top, m.stack.head? = some top ∧
      (top.isPlaceholder = true ∨ (services.schema.traits top.type).lifecycle = false)) →
    ObjectMarkup.begins made = [] ∧ ObjectMarkup.ends made = []

/-- What is recorded tells nothing, nor does an object that was there before or whose type has no
stages. -/
theorem not_told_of_deaf {m : Machine (Watched σ)} {i : Instruction} {made : List Call}
    (hm : m.Sound services.settings.maxDepth)
    (hdeaf : m.isRecording = true ∨ (∃ top, m.stack.head? = some top ∧
      (top.isPlaceholder = true ∨ (services.schema.traits top.type).lifecycle = false)))
    (x : ObjectId) : ¬ services.BeginsAt m made x ∧ ¬ services.EndsAt m i made x := by
  rcases hdeaf with hrecording | ⟨top', htop, hdeaf⟩
  · constructor
    · rintro ⟨top, rest, more, hr, -⟩
      simp [Machine.isRecording, hr] at hrecording
    · rintro ⟨-, top, rest, hr, -⟩
      simp [Machine.isRecording, hr] at hrecording
  · constructor
    · rintro ⟨top, rest, more, -, hs, hsite, hlifecycle, -⟩
      obtain rfl : top = top' := by simpa [hs] using htop
      rcases hdeaf with hp | hdeaf
      · simpa [hsite] using (hm.frames top (by simp [hs])).site_of_placeholder hp
      · simp [hlifecycle] at hdeaf
    · rintro ⟨-, top, rest, -, hs, -, hp, hlifecycle, -⟩
      obtain rfl : top = top' := by simpa [hs] using htop
      simp [hp, hlifecycle] at hdeaf

/-- The signals of an instruction from a machine that is under way. -/
theorem Underway.signals (hears : services.Hears there) {root : Option ObjectId}
    {since : List Call} {m : Machine (Watched σ)} (h : services.Underway there root since m)
    (hloader : ∀ r, m.recording = some r → services.watched.loaders.find? r.member = some r.loader)
    (i : Instruction) : ∃ made, (endState (services.watched.step i m)).world.heap.calls =
      m.world.heap.calls ++ made ∧ services.Signals root m i made := by
  obtain ⟨as, hturn, hleaves⟩ := step_turn hears.calls hloader h.sound i
  obtain ⟨made, hmade, hbegins, hends⟩ := hturn.signals
  have hfits : ∀ c ∈ made, services.Fits m i c := by
    obtain ⟨same, hsame, hfits⟩ := hturn.notes
    rw [List.append_cancel_left (hmade.symm.trans hsame)]
    exact hfits
  have hnone : (∀ x, .beginInit x ∉ made) → ObjectMarkup.begins made = [] := fun h =>
    List.eq_nil_iff_forall_not_mem.2 fun x hx => h x (mem_begins.1 hx)
  refine ⟨made, hmade, fun c hc hpopulates => ?_, hbegins, fun x hx => ⟨(hends x hx).1, ?_, ?_⟩,
    fun hsome hlevel => hnone fun x hx => ?_, fun hdeaf => ⟨hnone fun x hx => ?_,
    List.eq_nil_iff_forall_not_mem.2 fun x hx => ?_⟩⟩
  · have hfit := hfits c hc
    cases c with
    | setMember | setAttached | append => exact hfit
    | _ => cases hpopulates
  · have honce := (h.tallied.turn hears hturn).once
    rw [hmade, ends_append] at honce
    intro hold
    exact (List.nodup_append.1 honce).2.2 x (mem_ends.2 hold) x (mem_ends.2 hx) rfl
  · intro m' hm'
    have hlength := (hends x hx).2
    rwa [← hleaves m' hm', Machine.length_actors] at hlength
  · obtain ⟨top, rest, more, -, hs, hsite, -⟩ := hbegins x hx
    obtain ⟨r, hr⟩ := Option.isSome_iff_exists.1 hsome
    exact (h.starts r hr).site_of_outermost hs hlevel hsite
  · exact (not_told_of_deaf (i := i) h.sound hdeaf x).1 (hbegins x hx)
  · exact (not_told_of_deaf h.sound hdeaf x).2 (hends x (mem_ends.1 hx)).1

/-- An open object that was made for a type with stages was told that it begins. -/
theorem Underway.told {root : Option ObjectId} {since : List Call} {m : Machine (Watched σ)}
    (h : services.Underway there root since m) {above below : List Frame} {f : Frame}
    (hs : m.stack = above ++ f :: below) (hown : below = [] → root = none)
    (hp : f.isPlaceholder = false) (hlifecycle : (services.schema.traits f.type).lifecycle = true)
    {x : ObjectId} (hx : f.object = some x) : .beginInit x ∈ m.world.heap.calls := by
  have hbegun := h.begun
  rw [Machine.actors, hs, List.map_append, List.map_cons] at hbegun
  exact mem_begins.1 (hbegun.at (fun hnil => hown (List.map_eq_nil_iff.1 hnil))
    ⟨hx, hp, hlifecycle⟩)

/-- Where one object is open above `base` other ones, what is settled was told that it is complete,
or is that object. -/
theorem Settles.innermost {base : Nat} {since : List Call} {m : Machine (Watched σ)}
    (h : services.Settles base since m.actors m.world.heap.calls) (hlevel : m.level = base + 1) :
    ∃ more, m.world.heap.calls = since ++ more ∧ ∀ x ∈ services.listeners more,
      .endInit x ∈ m.world.heap.calls ∨ m.stack.head?.bind (·.object) = some x := by
  obtain ⟨more, hmore, hsettled⟩ := h
  refine ⟨more, hmore, fun x hx => (hsettled x hx).imp mem_ends.1 fun hopened => ?_⟩
  cases hs : m.stack with
  | nil =>
    rw [Machine.level, hs] at hlevel
    cases hlevel
  | cons top rest =>
    rw [Machine.actors_of_stack hs] at hopened
    rcases hopened with ⟨-, hobject, -⟩ | hdeeper
    · exact hobject
    · refine absurd hdeeper (not_openAbove ?_)
      rw [Machine.level, hs, List.length_cons] at hlevel
      rw [List.length_map]
      omega

/-- Whatever is carried out in one context, an object that is made for a type with stages is told
once that it begins, and each object at most once that it is complete; both are counted.

From any machine that a run reaches, an instruction gives its signals in their places.  At that
point each open object that was made here for a type with stages was told that it begins, so that
nothing is put into it before.  When the run comes to the end of an object that was opened after
`m`, every object that was made inside it for a type with stages was told that it is complete. -/
theorem life_signals (hears : services.Hears there) (hlife : services.Life there ok w) :
    (begins w.heap.calls = services.listeners w.heap.calls ∧
      (services.MakesFresh there → (begins w.heap.calls).Nodup) ∧
      (ends w.heap.calls).Nodup ∧
      w.context.lifecycle.begun = (begins w.heap.calls).length ∧
      w.context.lifecycle.created = ends w.heap.calls ∧
      (ok = true → ∀ x ∈ services.listeners w.heap.calls,
        x ∈ begins w.heap.calls ∧ x ∈ ends w.heap.calls)) ∧
    ∀ (job : Job) (pre : List Instruction) (m : Machine (Watched σ)),
      services.watched.steps pre (job.start w) = .ok () m →
      (∀ i, ∃ made, (endState (services.watched.step i m)).world.heap.calls =
        m.world.heap.calls ++ made ∧ services.Signals job.root m i made) ∧
      (∀ above f below, m.stack = above ++ f :: below → (below = [] → job.root = none) →
        f.isPlaceholder = false → (services.schema.traits f.type).lifecycle = true →
        ∀ x, f.object = some x → .beginInit x ∈ m.world.heap.calls) ∧
      ∀ i post m', services.watched.steps (i :: post) m = .ok () m' →
        (∀ between m₂, between <+: post →
          services.watched.steps (i :: between) m = .ok () m₂ → m.level < m₂.level) →
        m'.level = m.level + 1 → ∃ more, m'.world.heap.calls = m.world.heap.calls ++ more ∧
          ∀ x ∈ services.listeners more,
            .endInit x ∈ m'.world.heap.calls ∨ m'.stack.head?.bind (·.object) = some x := by
  obtain ⟨htallied, hsettled⟩ := hlife.tallied hears
  refine ⟨⟨htallied.begun, fun hfresh => htallied.begun ▸ htallied.fresh hfresh, htallied.once,
    htallied.count, htallied.created, fun hok x hx => ⟨htallied.begun ▸ hx, hsettled hok x hx⟩⟩, ?_⟩
  intro job pre m hpre
  have h₀ := start_underway htallied job
  have hidle := start_recording w job
  have hm := steps_underway h₀ hidle hears hpre
  refine ⟨hm.signals hears (loader_of_steps h₀ hidle hpre), ?_, ?_⟩
  · intro above f below hs hown hp hlifecycle x hx
    exact hm.told hs hown hp hlifecycle hx
  · intro i post m' hsteps hinside hlevel
    exact (settles_inside h₀ hidle hears hpre hsteps hinside).innermost hlevel

end Services

/-! ## Widgets -/

namespace Widget

variable {w : Widget}

theorem withMember_listens {m : Member} {v : Value} {w' : Widget} (h : w.withMember m v = .ok w') :
    w'.listens = w.listens := by
  cases w with
  | scripted w =>
    simp only [withMember] at h
    split at h <;> cases h
    rfl
  | itemCollection _ | immutable _ | collectionExtension | parametrizedExtension _ | template _ =>
    cases h
  | _ =>
    simp only [withMember] at h
    split at h <;> first
      | (obtain ⟨_, -, rfl⟩ := Answer.map_eq_ok.1 h; rfl)
      | (cases h; rfl)
      | cases h

theorem setMember_listens (m : Member) (v : Value) :
    (endState (setMember m v w)).listens = w.listens := by
  rw [setMember]
  cases h : w.withMember m v with
  | ok w' => exact withMember_listens h
  | error e =>
    cases w with
    | setter w =>
      simp only [endState, afterFailure]
      split <;> rfl
    | _ => rfl

theorem setAttached_listens (m : Member) (v : Value) :
    (endState (setAttached m v w)).listens = w.listens := by
  cases w <;> rfl

theorem append_listens (v : Value) : (endState (append v w)).listens = w.listens := by
  cases w with
  | scripted t =>
    simp only [append]
    split
    · split <;> rfl
    · rfl
  | _ => rfl

theorem sameEars_put {h : Heap} {id : ObjectId} {w w' : Widget} (hfind : h.find? id = some w)
    (hlistens : w'.listens = w.listens) : Heap.host.SameEars Heap.Has h (h.put id w') := by
  intro other hother
  refine ⟨?_, ?_⟩
  · rw [Heap.Has, Heap.put_size]
    exact hother
  · show (h.put id w').ask other false listens = h.ask other false listens
    rw [Heap.ask, Heap.find?_put (Heap.lt_of_find? hfind), Heap.ask]
    by_cases heq : other = id
    · rw [if_pos heq, heq, hfind]
      exact hlistens
    · rw [if_neg heq]

theorem sameEars_add (h : Heap) (w : Widget) : Heap.host.SameEars Heap.Has h (h.add w).2 := by
  intro other hother
  have hold : other ≠ (h.add w).1 := by
    rintro rfl
    exact Nat.lt_irrefl _ hother
  refine ⟨?_, ?_⟩
  · simp only [Heap.Has, Heap.add, Array.size_push] at hother ⊢
    omega
  · show (h.add w).2.ask other false listens = h.ask other false listens
    rw [Heap.ask, Heap.find?_add, if_neg hold, Heap.ask]

theorem sameEars_act {ε : Type} (id : ObjectId) {f : EStateM ε Widget Unit}
    (hf : ∀ w, (endState (f w)).listens = w.listens) :
    Leaves (Heap.host.SameEars Heap.Has) (Heap.act id f) := by
  intro h
  rw [Heap.act]
  cases hfind : h.find? id with
  | none => exact Std.Refl.refl h
  | some w =>
    have hw := hf w
    cases hact : f w with
    | ok _ w' | error e w' =>
      rw [hact] at hw
      simp only [hact]
      exact sameEars_put hfind hw

theorem sameEars_change (id : ObjectId) {f : Widget → Widget}
    (hf : ∀ w, (f w).listens = w.listens) (h : Heap) :
    Heap.host.SameEars Heap.Has h (Heap.change id f h) := by
  rw [Heap.change]
  cases hfind : h.find? id with
  | none => exact Std.Refl.refl h
  | some w => exact sameEars_put hfind (hf w)

/-- A window is the one widget whose type has stages. -/
theorem lifecycle_window {type : TypeName} (h : (catalogue.schema.traits type).lifecycle = true) :
    type = "Window" := by
  have hall : ∀ d ∈ descriptors, d.traits.lifecycle = true → d.type = "Window" := by
    simp [descriptors]
  have htraits : (catalogue.traits type).lifecycle = true := h
  rw [Catalogue.traits] at htraits
  split at htraits
  · next d hd =>
    have htype : d.type = type := by simpa using List.find?_some hd
    exact htype ▸ hall d (List.mem_of_find?_eq_some hd) htraits
  · cases htraits

/-- Windows listen, and no call changes which widget listens. -/
theorem hears (settings : Settings) : (catalogue.services Heap.host settings).Hears Heap.Has where
  activate type arguments h id h' hactivate := by
    refine ⟨?_, fun hlifecycle => ?_⟩
    · exact (Heap.services_makesNew catalogue Heap.descriptors_add settings).activate
        type arguments h id h' hactivate |>.2
    · obtain rfl := lifecycle_window hlifecycle
      cases arguments with
      | nil =>
        obtain ⟨rfl, rfl⟩ : (h.add (.window {})).1 = id ∧ (h.add (.window {})).2 = h' :=
          EStateM.Result.ok.inj hactivate
        show (h.add (.window {})).2.ask (h.add (.window {})).1 false listens = true
        rw [Heap.ask, Heap.find?_add_self]
        rfl
      | cons s rest => cases hactivate
  calls := {
    activate := activate_forall .throw (fun w _ h => sameEars_add h w)
      (.bind (fun h => sameEars_add h _) fun items h => sameEars_add h _)
    loader := fun m loader hloader => by cases hloader
    setMember := fun id m v => sameEars_act id fun _ => setMember_listens m v
    setAttached := fun id m v => sameEars_act id fun _ => setAttached_listens m v
    append := fun id v => sameEars_act id fun _ => append_listens v
    provide := fun id p h => by
      simp only [Catalogue.services, Heap.host]
      split <;> exact Std.Refl.refl h
    beginInit := fun id => sameEars_change id fun w => by cases w <;> rfl
    endInit := fun id => sameEars_change id fun w => by cases w <;> rfl }

/-- A window in a window. -/
def twoWindows : Tree :=
  .node "Window" none [] [.children (contentMember "Window") [.node "Window" none [] []]]

end Widget

namespace Services

/-- Two windows are built, and then the outer one gets another one in it.  It is not told again. -/
theorem life_signals_twoWindows :
    ∃ w, (Widget.catalogue.services Heap.host {}).Life Heap.Has true w ∧
      begins w.heap.calls = [⟨0⟩, ⟨1⟩, ⟨2⟩] ∧ ends w.heap.calls = [⟨1⟩, ⟨0⟩, ⟨2⟩] ∧
      w.context.lifecycle.begun = 3 ∧ (begins w.heap.calls).Nodup := by
  have hok : (match (Widget.catalogue.services Heap.host {}).watched.perform
        (.build Widget.twoWindows none) { heap := ⟨{}, []⟩ } with
      | .ok _ w => match (Widget.catalogue.services Heap.host {}).watched.perform
          (.build Widget.twoWindows (some ⟨0⟩)) w with
        | .ok _ w => decide (begins w.heap.calls = [⟨0⟩, ⟨1⟩, ⟨2⟩] ∧
            ends w.heap.calls = [⟨1⟩, ⟨0⟩, ⟨2⟩])
        | .error _ _ => false
      | .error _ _ => false) = true := by decide +kernel
  split at hok
  · next hfirst =>
    split at hok
    · next hsecond =>
      obtain ⟨hbegins, hends⟩ := of_decide_eq_true hok
      have hnew : (Widget.catalogue.services Heap.host {}).Life Heap.Has true
          { heap := ⟨{}, []⟩ } := .opens _
      have hlife := (hnew.succeeds hfirst).succeeds hsecond
      obtain ⟨⟨-, hfresh, -, hcount, -⟩, -⟩ := life_signals (Widget.hears {}) hlife
      rw [hbegins] at hcount
      refine ⟨_, hlife, hbegins, hends, hcount, hfresh ?_⟩
      exact fun type arguments h id h' hactivate => ((Heap.services_makesNew Widget.catalogue
        Heap.descriptors_add {}).activate type arguments h id h' hactivate).1
    · cases hok
  · cases hok

end Services
end ObjectMarkup
