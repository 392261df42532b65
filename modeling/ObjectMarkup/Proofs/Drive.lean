/-
A machine apart from its world.

`Services.drive stream m` carries a stream out from the frames of `m`, as an action on the world:
the world that `m` itself holds is neither read nor changed.  What a stream does to the frames and
what it does to the world then stand in one equation between actions, and the laws of monads put
the equations of the parts together.
-/
import ObjectMarkup.Build
import ObjectMarkup.Proofs.Grammar
import ObjectMarkup.Proofs.Machine

namespace ObjectMarkup
namespace Services

variable {σ : Type} (services : Services σ)

/-- Carries a stream out from the frames of a machine, as an action on the world. -/
def drive (stream : List Instruction) (m : Machine σ) : Build σ (Machine σ) := fun w =>
  match services.steps stream (m.inWorld w) with
  | .ok () m' => .ok (m'.inWorld m.world) m'.world
  | .error e m' => .error e m'.world

/-! ## Streams in parts -/

theorem steps_cons (i : Instruction) (is : List Instruction) (m : Machine σ) :
    services.steps (i :: is) m = match services.step i m with
      | .ok _ m => services.steps is m
      | .error e m => .error e m := by
  rw [steps, Action.bind_apply]
  cases services.step i m <;> rfl

theorem steps_append (is js : List Instruction) (m : Machine σ) :
    services.steps (is ++ js) m = (services.steps is >>= fun _ => services.steps js) m := by
  induction is generalizing m with
  | nil => rfl
  | cons i is ih =>
    simp only [List.cons_append, steps_cons, Action.bind_apply]
    cases services.step i m with
    | ok _ m => exact ih m
    | error e m => rfl

theorem steps_append_of_ok {is : List Instruction} {m m' : Machine σ}
    (h : services.steps is m = .ok () m') (js : List Instruction) :
    services.steps (is ++ js) m = services.steps js m' := by
  rw [steps_append, Action.bind_apply, h]

theorem steps_concat_of_ok {is : List Instruction} {m m' : Machine σ}
    (h : services.steps is m = .ok () m') (i : Instruction) :
    services.steps (is ++ [i]) m = services.step i m' := by
  rw [services.steps_append_of_ok h, steps_cons]
  cases services.step i m' <;> rfl

theorem steps_concat_eq_ok {is : List Instruction} {i : Instruction} {m m' : Machine σ}
    (h : services.steps (is ++ [i]) m = .ok () m') :
    ∃ m₁, services.steps is m = .ok () m₁ ∧ services.step i m₁ = .ok () m' := by
  rw [steps_append] at h
  obtain ⟨_, m₁, his, hi⟩ := (Action.bind_eq_ok m).1 h
  rw [steps_cons] at hi
  cases hstep : services.step i m₁ with
  | error e m₂ => simp [hstep] at hi
  | ok _ m₂ =>
    simp only [hstep] at hi
    exact ⟨m₁, his, hstep.trans hi⟩

/-- A run carries out its stream from the beginning and then looks at what it has left. -/
theorem run_eq_steps (stream : List Instruction) (root : Option ObjectId) (base : Option ScopeId)
    (w : World σ) :
    services.run stream root base w =
      match services.steps stream (Machine.blank w root base) with
      | .error e m => .error e m.world
      | .ok _ m => match m.finish with
        | .ok id => .ok id m.world
        | .error e => .error e m.world := by
  rw [run, Machine.blank]
  cases services.steps stream { world := w, supplied := root, base } <;> rfl

theorem drive_nil (m : Machine σ) : services.drive [] m = pure m := rfl

theorem drive_append (is js : List Instruction) (m : Machine σ) :
    services.drive (is ++ js) m = services.drive is m >>= services.drive js := by
  funext w
  simp only [drive, steps_append, Action.bind_apply]
  cases services.steps is (m.inWorld w) <;> rfl

theorem drive_cons (i : Instruction) (is : List Instruction) (m : Machine σ) :
    services.drive (i :: is) m = services.drive [i] m >>= services.drive is :=
  services.drive_append [i] is m

theorem drive_singleton (i : Instruction) (m : Machine σ) (w : World σ) :
    services.drive [i] m w = match services.step i (m.inWorld w) with
      | .ok () m' => .ok (m'.inWorld m.world) m'.world
      | .error e m' => .error e m'.world := by
  simp only [drive, steps, bind_pure_unit]

/-- Outside a recording an instruction is carried out. -/
theorem step_of_idle {m : Machine σ} (hr : m.recording = none) (i : Instruction) :
    services.step i m = services.execute i m := by
  simp [step, hr]

theorem step_of_recording {m : Machine σ} {r : Recording σ} (hr : m.recording = some r)
    (i : Instruction) : services.step i m = services.record r i m := by
  simp [step, hr]

/-! ## One instruction -/

section

variable {m : Machine σ} {top : Frame} {rest : List Frame} {site : Site} {member : Member}

theorem drive_startObject (hr : m.recording = none) (hs : m.stack = top :: rest)
    (ht : top.member = some member) (start : ObjectStart) :
    services.drive [.startObject start] m =
      (Build.ofExcept fun _ => services.checkStart start.type (m.level + 1)) >>= fun _ =>
        pure (m.openObject (startFrame start)) := by
  funext w
  rw [drive_singleton, step_of_idle services (by exact hr), execute,
    startObject_of_open services (m := m.inWorld w) hs ht, Machine.inWorld_level]
  simp only [Action.bind_apply, Build.ofExcept]
  cases services.checkStart start.type (m.level + 1) <;> rfl

theorem drive_value (hr : m.recording = none) (hs : m.stack = top :: rest)
    (ht : top.member = some member) (s : String) :
    services.drive [.value s] m = m.push <$> services.readLiteral m.root member s := by
  funext w
  rw [drive_singleton, step_of_idle services (by exact hr), execute,
    literalValue_of_open services (m := m.inWorld w) hs ht, Machine.inWorld_root,
    Machine.inWorld_world, Action.map_apply]
  cases services.readLiteral m.root member s w <;> simp

theorem drive_startMember (hr : m.recording = none) (hs : m.stack = top :: rest)
    (ht : top.member = none) (hsite : top.site = some site) :
    services.drive [.startMember member] m =
      (m.openMember member) <$> Build.ofExcept fun _ => services.loaderOf member := by
  funext w
  rw [drive_singleton, step_of_idle services (by exact hr), execute,
    startMember_of_closed services (m := m.inWorld w) hs ht,
    ensureObject_of_site services (m := m.inWorld w) hs hsite, Action.map_apply]
  simp only [Build.ofExcept]
  cases services.loaderOf member <;> simp

theorem drive_endMember (hr : m.recording = none) (hs : m.stack = top :: rest)
    (ht : top.member = some member) (hsite : top.site = some site) :
    services.drive [.endMember] m =
      services.commit site.object site.collects member top.pending top.retrieved >>= fun _ =>
        pure m.closeMember := by
  funext w
  rw [drive_singleton, step_of_idle services (by exact hr), execute,
    endMember_of_open services (m := m.inWorld w) hs ht hsite, Machine.inWorld_world,
    Action.bind_apply]
  cases services.commit site.object site.collects member top.pending top.retrieved w <;> simp

theorem drive_endObject_inner {parent : Frame} (hr : m.recording = none)
    (hs : m.stack = top :: parent :: rest) (ht : top.member = none)
    (hp : top.isPlaceholder = false) (hsite : top.site = some site) :
    services.drive [.endObject] m =
      services.complete top.type top.name site (some parent.scope) >>= fun _ =>
        m.close.push <$> services.valueOf top.type site parent.object m.root parent.member := by
  funext w
  rw [drive_singleton, step_of_idle services (by exact hr), execute,
    endObject_of_closed services (m := m.inWorld w) hs ht hp,
    completeObject_of_inner services (m := m.inWorld w) hs hsite, Machine.inWorld_root,
    Machine.inWorld_world, Action.bind_apply, Action.bind_apply]
  cases services.complete top.type top.name site (some parent.scope) w with
  | error e w => rfl
  | ok _ w =>
    simp only [Action.map_apply]
    cases services.valueOf top.type site parent.object m.root parent.member w <;> simp

theorem drive_endObject_root (hr : m.recording = none) (hs : m.stack = [top])
    (ht : top.member = none) (hp : top.isPlaceholder = false) (hsite : top.site = some site) :
    services.drive [.endObject] m =
      services.complete top.type top.name site none >>= fun _ =>
        pure { m.close with result := some site.object } := by
  funext w
  rw [drive_singleton, step_of_idle services (by exact hr), execute,
    endObject_of_closed services (m := m.inWorld w) hs ht hp,
    completeObject_of_root services (m := m.inWorld w) hs hsite, Machine.inWorld_world,
    Action.bind_apply]
  cases services.complete top.type top.name site none w <;> rfl

/-! ## Objects that are not there yet

The object of a frame is made by the first instruction that needs it. -/

theorem drive_startMember_pending (hr : m.recording = none) (hs : m.stack = top :: rest)
    (ht : top.member = none) (hsite : top.site = none) :
    services.drive [.startMember member] m =
      services.make m.around top.type top.arguments >>= fun site =>
        services.drive [.startMember member] (m.setSite site) := by
  funext w
  have hstack : ∀ site, (m.setSite site).stack = top.setSite site :: rest :=
    fun site => m.mapTop_stack _ hs
  have hrec : ∀ site, (m.setSite site).recording = none := fun site =>
    (m.mapTop_recording _).trans hr
  rw [drive_singleton, step_of_idle services (by exact hr), execute,
    startMember_of_closed services (m := m.inWorld w) hs ht,
    ensureObject_of_pending services (m := m.inWorld w) hs hsite, Machine.inWorld_around,
    Machine.inWorld_world, Action.bind_apply]
  cases services.make m.around top.type top.arguments w with
  | error e w => rfl
  | ok site w =>
    simp only [Machine.inWorld_setSite, Machine.inWorld_inWorld]
    rw [drive_singleton, step_of_idle services (by exact hrec site), execute,
      startMember_of_closed services (m := (m.setSite site).inWorld w) (hstack site) ht,
      ensureObject_of_site services (m := (m.setSite site).inWorld w) (hstack site) rfl]
    cases services.loaderOf member <;> simp

theorem drive_endObject_pending (hr : m.recording = none) (hs : m.stack = top :: rest)
    (ht : top.member = none) (hp : top.isPlaceholder = false) (hsite : top.site = none) :
    services.drive [.endObject] m =
      services.make m.around top.type top.arguments >>= fun site =>
        services.drive [.endObject] (m.setSite site) := by
  funext w
  have hstack : ∀ site, (m.setSite site).stack = top.setSite site :: rest :=
    fun site => m.mapTop_stack _ hs
  have hrec : ∀ site, (m.setSite site).recording = none := fun site =>
    (m.mapTop_recording _).trans hr
  rw [drive_singleton, step_of_idle services (by exact hr), execute,
    endObject_of_closed services (m := m.inWorld w) hs ht hp,
    completeObject_of_pending services (m := m.inWorld w) hs hsite, Machine.inWorld_around,
    Machine.inWorld_world, Action.bind_apply]
  cases services.make m.around top.type top.arguments w with
  | error e w => rfl
  | ok site w =>
    simp only [Machine.inWorld_setSite, Machine.inWorld_inWorld]
    rw [drive_singleton, step_of_idle services (by exact hrec site), execute,
      endObject_of_closed services (m := (m.setSite site).inWorld w) (hstack site) ht hp]
    simp

end

/-! ## Recordings -/

/-- An instruction that does not end the recording is added to it, whatever it is. -/
theorem drive_recorded (m : Machine σ) {r : Recording σ} {i : Instruction}
    (h : depthAfter r.depth i ≠ 0) :
    services.drive [i] (m.withRecording (some r)) =
      pure (m.withRecording (some (r.add (depthAfter r.depth i) [i]))) := by
  funext w
  rw [drive_singleton, step_of_recording services rfl, record_of_inside services h]
  rfl

/-- A recording takes in a balanced stream as it is, and is as deep as before then. -/
theorem drive_balanced {body : List Instruction} (hb : Instruction.Balanced body) (m : Machine σ)
    {r : Recording σ} (hr : 0 < r.depth) :
    services.drive body (m.withRecording (some r)) =
      pure (m.withRecording (some (r.add r.depth body))) := by
  induction hb generalizing r with
  | nil => rw [Recording.add_nil, drive_nil]
  | @plain i is hp _ ih =>
    have hdepth : depthAfter r.depth i = r.depth := by
      cases i with
      | startMember m => exact absurd hp (by simp [Instruction.isPlain])
      | endMember => exact absurd hp (by simp [Instruction.isPlain])
      | _ => rfl
    rw [drive_cons, drive_recorded services m (by omega), pure_bind, hdepth, ih (by exact hr)]
    simp
  | @member mem body rest _ _ ihb ihr =>
    have hstart : depthAfter r.depth (.startMember mem) = r.depth + 1 := rfl
    have hend : depthAfter (r.depth + 1) .endMember = r.depth := rfl
    rw [drive_cons, drive_recorded services m (by omega), pure_bind, drive_append,
      ihb (by simp [hstart]), pure_bind, drive_cons, drive_recorded services m (by
        simp only [Recording.add_depth, hstart, hend]; omega), pure_bind, ihr (by
        simp only [Recording.add_depth, hstart, hend]; exact hr)]
    simp [hstart, hend]

/-- The end of a recorded member: its loader makes the value that is committed. -/
theorem drive_endRecording (m : Machine σ) {r : Recording σ} (h : r.depth = 1) :
    services.drive [.endMember] (m.withRecording (some r)) =
      Build.onHeap .deferred (r.loader r.member r.instructions) >>= fun v =>
        services.drive [.endMember] ((m.withRecording none).push v) := by
  have hdepth : depthAfter r.depth .endMember = 0 := by rw [h]; rfl
  have hrec : ∀ v, ((m.withRecording none).push v).recording = none := fun v =>
    Machine.mapTop_recording _ _
  funext w
  rw [drive_singleton, step_of_recording services rfl, record_of_last services hdepth,
    Action.bind_apply]
  simp only [Machine.inWorld_world, Machine.inWorld_withRecording,
    Machine.withRecording_withRecording, Machine.inWorld_push, Machine.inWorld_inWorld]
  cases Build.onHeap .deferred (r.loader r.member r.instructions) w with
  | error e w => rfl
  | ok v w =>
    simp only []
    rw [drive_singleton, step_of_idle services (by exact hrec v), execute]
    simp

end Services
end ObjectMarkup
