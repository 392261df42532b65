/-
Where the values of a member go.

When a member ends, its flags, what it received and what the object holds already decide where the
values go: item by item into a collection, as one value into the member, or nowhere
(`Services.Route`).  `commitValues_eq` says that a commitment decides first and then does what it
decided, and `step_endMember_watched` which calls that makes: the end of a member is watched once
here, and what the members do that collect, that are attached or that give their objects out is
read off the routes.
-/
import ObjectMarkup.Proofs.Effects
import ObjectMarkup.Proofs.Noted

namespace ObjectMarkup

variable {σ : Type}

namespace Services

/-- What becomes of the values that a member received. -/
inductive Route where
  /-- they are appended to a collection, and recorded as one value -/
  | appends (collection : ObjectId) (recorded : Value)
  /-- one value is assigned to the member -/
  | assigns (v : Value)
  /-- there are none, and the member keeps the value that it gave out -/
  | keeps (v : Value)
  | refuses (e : MemberError)

variable (services : Services σ)

/-- Decides where the values of a member go.  Only the heap is asked. -/
def route (heap : σ) (target : ObjectId) (collects : Bool) (m : Member) (values : List Value)
    (retrieved : Option Value) : Route :=
  if m.isItems then
    if !collects then .refuses (.missingCapability (services.host.typeOf heap target) .collection)
    else if services.host.collects heap target then .appends target (summary values)
    else .refuses (.notCollection m.qualifiedName)
  else if services.schema.takesMany m then
    match services.liveCollection heap target m with
    | some c => .appends c (if values.isEmpty then .object c else summary values)
    | none => .assigns (wholeList values)
  else
    match values, retrieved with
    | [], some v => .keeps v
    | [v], _ => .assigns v
    | vs, _ => .refuses (.unexpectedValueCount m.qualifiedName vs.length)

/-- Lets the values go where it was decided; answers what is recorded of them. -/
def follow (target : ObjectId) (m : Member) (values : List Value) :
    Route → EStateM MemberError σ Value
  | .appends c recorded => do
    services.appendEach c (values.flatMap Value.items)
    return recorded
  | .assigns v => do
    services.assign target m v
    return v
  | .keeps v => return v
  | .refuses e => throw e

section

variable {services} {heap : σ} {target c : ObjectId} {m : Member}

theorem liveCollection_eq_some : services.liveCollection heap target m = some c ↔
    services.host.getMember heap target m = some (.object c) ∧
      services.host.collects heap c = true := by
  unfold liveCollection
  split
  · next id hget =>
    by_cases hcollects : services.host.collects heap id = true
    · rw [if_pos hcollects, hget]
      constructor
      · intro h
        obtain rfl := Option.some.inj h
        exact ⟨rfl, hcollects⟩
      · rintro ⟨h, -⟩
        cases h
        rfl
    · rw [if_neg hcollects, hget]
      constructor
      · intro h
        cases h
      · rintro ⟨h, hc⟩
        cases h
        exact absurd hc hcollects
  · next hget =>
    constructor
    · intro h
      cases h
    · rintro ⟨h, -⟩
      exact absurd h (hget c)

end

/-- A commitment decides where the values go, and lets them go there. -/
theorem commitValues_eq (target : ObjectId) (collects : Bool) (m : Member) (values : List Value)
    (retrieved : Option Value) (heap : σ) :
    services.commitValues target collects m values retrieved heap = services.follow target m values
      (services.route heap target collects m values retrieved) heap := by
  unfold commitValues route
  split
  · cases collects with
    | false => rfl
    | true =>
      simp only [commitItems, appendAll, if_true, Bool.not_true, Bool.false_eq_true, if_false,
        Action.bind_apply, Action.get_apply]
      by_cases hcollects : services.host.collects heap target = true
      · rw [if_pos hcollects, if_pos hcollects]
        rfl
      · rw [if_neg hcollects, if_neg hcollects]
        rfl
  · split
    · simp only [commitMany, Action.bind_apply, Action.get_apply]
      cases hlive : services.liveCollection heap target m with
      | none => rfl
      | some c =>
        have hc := (liveCollection_eq_some.1 hlive).2
        simp only [appendAll, Action.bind_apply, Action.get_apply, hc, if_true]
        rfl
    · rcases values with _ | ⟨v, _ | ⟨v', vs⟩⟩
      · cases retrieved <;> rfl
      · rfl
      · rfl

/-- What is committed goes where it was decided, and is recorded. -/
theorem commit_apply (target : ObjectId) (collects : Bool) (m : Member) (values : List Value)
    (retrieved : Option Value) (w : World σ) :
    services.commit target collects m values retrieved w =
      match services.follow target m values
        (services.route w.heap target collects m values retrieved) w.heap with
      | .ok v heap => .ok () ((w.setHeap heap).setAmbient (w.context.ambient.add m v target))
      | .error e heap => .error (.member e) (w.setHeap heap) := by
  rw [commit, Action.bind_apply, Build.onHeap, commitValues_eq]
  cases services.follow target m values
    (services.route w.heap target collects m values retrieved) w.heap <;> rfl

/-! ## The calls of a commitment -/

/-- The call that assigns one value. -/
def assignCall (target : ObjectId) (m : Member) (v : Value) : Call :=
  if m.isAttached then .setAttached target m v else .setMember target m v

/-- The calls that let values go where it was decided, if none of them fails. -/
def Route.calls (target : ObjectId) (m : Member) (values : List Value) : Route → List Call
  | .appends c _ => (values.flatMap Value.items).map (Call.append c)
  | .assigns v => [assignCall target m v]
  | .keeps _ => []
  | .refuses _ => []

/-- An outcome and the same outcome watched.  The calls of a failure are the first of those of a
success. -/
inductive Noted {ε α : Type} (before calls : List Call) :
    EStateM.Result ε σ α → EStateM.Result ε (Watched σ) α → Prop
  | ok (a : α) (heap : σ) : Noted before calls (.ok a heap) (.ok a ⟨heap, before ++ calls⟩)
  | error (e : ε) (heap : σ) {made : List Call} : made <+: calls →
      Noted before calls (.error e heap) (.error e ⟨heap, before ++ made⟩)

namespace Noted

variable {ε α β : Type} {before calls calls' : List Call} {heap : σ}

theorem pure (a : α) :
    Noted before [] ((pure a : EStateM ε σ α) heap) ((pure a : EStateM ε _ α) ⟨heap, before⟩) := by
  have h : Noted before [] (.ok a heap : EStateM.Result ε σ α) (.ok a ⟨heap, before ++ []⟩) :=
    .ok a heap
  rwa [List.append_nil] at h

theorem throw (e : ε) : Noted before [] ((MonadExcept.throw e : EStateM ε σ α) heap)
    ((MonadExcept.throw e : EStateM ε _ α) ⟨heap, before⟩) := by
  have h : Noted before [] (.error e heap : EStateM.Result ε σ α)
      (.error e ⟨heap, before ++ []⟩) := .error e heap (List.prefix_refl [])
  rwa [List.append_nil] at h

theorem note (c : Call) (act : EStateM ε σ α) :
    Noted before [c] (act heap) (Watched.note c act ⟨heap, before⟩) := by
  rw [Watched.note]
  cases act heap with
  | ok a heap' => exact .ok a heap'
  | error e heap' => exact .error e heap' (List.prefix_refl [c])

theorem bind {x : EStateM ε σ α} {x' : EStateM ε (Watched σ) α} {f : α → EStateM ε σ β}
    {f' : α → EStateM ε (Watched σ) β} (hx : Noted before calls (x heap) (x' ⟨heap, before⟩))
    (hf : ∀ a heap', Noted (before ++ calls) calls' (f a heap') (f' a ⟨heap', before ++ calls⟩)) :
    Noted before (calls ++ calls') ((x >>= f) heap) ((x' >>= f') ⟨heap, before⟩) := by
  rw [Action.bind_apply, Action.bind_apply]
  generalize x heap = r at hx
  generalize x' ⟨heap, before⟩ = r' at hx
  cases hx with
  | error e heap' hmade => exact .error e heap' (hmade.trans (List.prefix_append calls calls'))
  | ok a heap' =>
    dsimp only
    have hrest := hf a heap'
    generalize f a heap' = r at hrest
    generalize f' a ⟨heap', before ++ calls⟩ = r' at hrest
    cases hrest with
    | ok b heap'' =>
      rw [List.append_assoc]
      exact .ok b heap''
    | error e heap'' hmade =>
      rw [List.append_assoc]
      exact .error e heap'' ((List.prefix_append_right_inj calls).2 hmade)

end Noted

theorem appendEach_noted (target : ObjectId) (vs : List Value) (heap : σ) (before : List Call) :
    Noted before (vs.map (Call.append target)) (services.appendEach target vs heap)
      (services.watched.appendEach target vs ⟨heap, before⟩) := by
  induction vs generalizing heap before with
  | nil => exact .pure ()
  | cons v vs ih =>
    show Noted before ([.append target v] ++ vs.map (Call.append target)) _ _
    exact .bind (.note _ (services.host.append target v)) fun _ heap' => ih heap' _

theorem assign_noted (target : ObjectId) (m : Member) (v : Value) (heap : σ)
    (before : List Call) :
    Noted before [assignCall target m v] (services.assign target m v heap)
      (services.watched.assign target m v ⟨heap, before⟩) := by
  cases hattached : m.isAttached with
  | true =>
    rw [assign, assign, assignCall, if_pos hattached, if_pos hattached, if_pos hattached]
    exact .note _ (services.host.setAttached target m v)
  | false =>
    have hnot : ¬ m.isAttached = true := Bool.eq_false_iff.1 hattached
    rw [assign, assign, assignCall, if_neg hnot, if_neg hnot, if_neg hnot]
    exact .note _ (services.host.setMember target m v)

/-- The values go where it was decided by the calls of the route. -/
theorem follow_noted (target : ObjectId) (m : Member) (values : List Value) (r : Route) (heap : σ)
    (before : List Call) :
    Noted before (r.calls target m values) (services.follow target m values r heap)
      (services.watched.follow target m values r ⟨heap, before⟩) := by
  cases r with
  | appends c recorded =>
    rw [← List.append_nil (Route.calls _ _ _ _)]
    exact (services.appendEach_noted c _ heap before).bind fun _ _ => .pure recorded
  | assigns v =>
    rw [← List.append_nil (Route.calls _ _ _ _)]
    exact (services.assign_noted target m v heap before).bind fun _ _ => .pure v
  | keeps v => exact .pure v
  | refuses e => exact .throw e

/-- Of an action that can fail, the calls that it made: all of them if it succeeded, and else the
first ones. -/
structure Called {ε τ α : Type} (r : EStateM.Result ε τ α) (made calls : List Call) : Prop where
  first : made <+: calls
  all : ∀ a s, r = .ok a s → made = calls

/-! ## The end of a member -/

section

open Machine

variable {m : Machine σ} {top : Frame} {rest : List Frame} {member : Member} {site : Site}

/-- Where the values of the open member go. -/
def routeOf (m : Machine σ) (top : Frame) (member : Member) (site : Site) : Route :=
  services.route m.world.heap site.object site.collects member top.pending top.retrieved

/-- The end of a member decides where its values go, lets them go there and records them. -/
theorem endMember_follows (hs : m.stack = top :: rest) (ht : top.member = some member)
    (hsite : top.site = some site) :
    services.endMember m =
      match services.follow site.object member top.pending
        (services.routeOf m top member site) m.world.heap with
      | .ok v heap => .ok () (m.closeMember.inWorld ((m.world.setHeap heap).setAmbient
          (m.world.context.ambient.add member v site.object)))
      | .error e heap => .error (.member e) (m.closeMember.inWorld (m.world.setHeap heap)) := by
  rw [endMember_of_open services hs ht hsite, commit_apply, routeOf]
  cases services.follow site.object member top.pending (services.route m.world.heap site.object
    site.collects member top.pending top.retrieved) m.world.heap <;> rfl

/-- The end of a member makes the calls of its route. -/
theorem endMember_watched (hs : m.stack = top :: rest) (ht : top.member = some member)
    (hsite : top.site = some site) (calls : List Call) :
    ∃ made, services.watched.endMember (m.watch calls) =
        watchOutcome (calls ++ made) (services.endMember m) ∧
      Called (services.endMember m) made
        ((services.routeOf m top member site).calls site.object member top.pending) := by
  have hclosed : ∀ w made, (m.watch calls).closeMember.inWorld (w.watch (calls ++ made)) =
      (m.closeMember.inWorld w).watch (calls ++ made) := fun w made => by
    rw [← Machine.inWorld_closeMember, ← Machine.inWorld_closeMember]
    exact (watch_mapTop Frame.closeMember (m.inWorld w) (calls ++ made)).symm
  have hroute : services.watched.routeOf (m.watch calls) top member site =
      services.routeOf m top member site := rfl
  have hnoted := services.follow_noted site.object member top.pending
    (services.routeOf m top member site) m.world.heap calls
  rw [services.endMember_follows hs ht hsite,
    services.watched.endMember_follows (m := m.watch calls) hs ht hsite, hroute,
    show (m.watch calls).world.heap = ⟨m.world.heap, calls⟩ from rfl]
  generalize services.follow site.object member top.pending (services.routeOf m top member site)
    m.world.heap = r at hnoted ⊢
  generalize services.watched.follow site.object member top.pending
    (services.routeOf m top member site) ⟨m.world.heap, calls⟩ = r' at hnoted ⊢
  cases hnoted with
  | ok v heap =>
    exact ⟨_, congrArg (EStateM.Result.ok ()) (hclosed ((m.world.setHeap heap).setAmbient
      (m.world.context.ambient.add member v site.object)) _), List.prefix_refl _, fun _ _ _ => rfl⟩
  | error e heap hmade =>
    exact ⟨_, congrArg (EStateM.Result.error (Error.member e)) (hclosed (m.world.setHeap heap) _),
      hmade, fun _ _ h => by cases h⟩

theorem step_endMember_watched (hr : m.recording = none) (hs : m.stack = top :: rest)
    (ht : top.member = some member) (hsite : top.site = some site) (calls : List Call) :
    ∃ made, services.watched.step .endMember (m.watch calls) =
        watchOutcome (calls ++ made) (services.step .endMember m) ∧
      Called (services.step .endMember m) made
        ((services.routeOf m top member site).calls site.object member top.pending) := by
  have hr' : (m.watch calls).recording = none := by simp [Machine.watch, hr]
  rw [step_of_idle services hr, step_of_idle services.watched hr']
  exact services.endMember_watched hs ht hsite calls

end

end Services
end ObjectMarkup
