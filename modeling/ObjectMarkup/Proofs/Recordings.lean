/-
Deferred members: what stands in one is handed to its loader as it is, and nothing else is done
with it.

The main theorem of this file is `run_recordings`.  A deferred member ends with the end that
matches its start when only starts and ends of members are counted.  Until then the machine takes
the instructions in, whatever they are and whatever the services would say to them
(`Services.Takes`); then it calls the loader, once, and commits the value that the loader makes
(`Services.HandsOver`).  A loader is called at no other time, which the calls of a watched machine
show.
-/
import Mathlib.Data.List.Induction
import ObjectMarkup.Proofs.Calls
import ObjectMarkup.Proofs.Commitments

namespace ObjectMarkup

open Instruction (Balanced)

variable {σ : Type}

namespace Services

/-! ## Depth -/

/-- The depth of a recording after a stream, as long as the recording does not end in it. -/
def depthThrough : Nat → List Instruction → Option Nat
  | depth, [] => some depth
  | depth, i :: is =>
    if depthAfter depth i = 0 then none else depthThrough (depthAfter depth i) is

theorem depthThrough_append (depth : Nat) (is js : List Instruction) :
    depthThrough depth (is ++ js) =
      (depthThrough depth is).bind fun depth => depthThrough depth js := by
  induction is generalizing depth with
  | nil => rfl
  | cons i is ih =>
    simp only [List.cons_append, depthThrough]
    split
    · rfl
    · exact ih _

theorem depthThrough_of_prefix {depth depth' : Nat} {is taken : List Instruction}
    (h : depthThrough depth is = some depth') (htaken : taken <+: is) :
    ∃ between, depthThrough depth taken = some between := by
  obtain ⟨rest, rfl⟩ := htaken
  rw [depthThrough_append] at h
  cases htaken : depthThrough depth taken with
  | none => simp [htaken] at h
  | some between => exact ⟨between, rfl⟩

theorem depthThrough_plain {i : Instruction} (hp : i.isPlain = true) {depth : Nat}
    (hd : 0 < depth) (is : List Instruction) :
    depthThrough depth (i :: is) = depthThrough depth is := by
  have hdepth : depthAfter depth i = depth := by
    cases i with
    | startMember m => exact absurd hp (by simp [Instruction.isPlain])
    | endMember => exact absurd hp (by simp [Instruction.isPlain])
    | _ => rfl
  rw [depthThrough, hdepth, if_neg (by omega)]

theorem depthThrough_start (depth : Nat) (m : Member) (is : List Instruction) :
    depthThrough depth (.startMember m :: is) = depthThrough (depth + 1) is :=
  if_neg (Nat.succ_ne_zero depth)

theorem depthThrough_end {depth : Nat} (hd : 0 < depth) (is : List Instruction) :
    depthThrough (depth + 1) (.endMember :: is) = depthThrough depth is :=
  if_neg (Nat.pos_iff_ne_zero.1 hd)

/-- A balanced stream does not end the recording, which is as deep as before then. -/
theorem depthThrough_balanced {body : List Instruction} (h : Balanced body) {depth : Nat}
    (hd : 0 < depth) : depthThrough depth body = some depth := by
  induction h generalizing depth with
  | nil => rfl
  | plain hp _ ih =>
    rw [depthThrough_plain hp hd]
    exact ih hd
  | member _ _ ihb ihr =>
    rw [depthThrough_start, depthThrough_append, ihb (by omega), Option.bind_some,
      depthThrough_end hd]
    exact ihr hd

/-- A stream either has the end of a member that started before it, or it stays inside. -/
theorem ends_or_stays (is : List Instruction) :
    (∃ body post, Balanced body ∧ is = body ++ .endMember :: post) ∨
      ∀ depth, 0 < depth → ∃ depth', depthThrough depth is = some depth' := by
  induction hn : is.length using Nat.strongRecOn generalizing is with
  | _ n ih =>
    have hplain : ∀ i rest, is = i :: rest → i.isPlain = true →
        (∃ body post, Balanced body ∧ is = body ++ .endMember :: post) ∨
          ∀ depth, 0 < depth → ∃ depth', depthThrough depth is = some depth' := by
      rintro i rest rfl hp
      rcases ih rest.length (by simp [← hn]) rest rfl with ⟨body, post, hb, rfl⟩ | hstays
      · exact .inl ⟨i :: body, post, .plain hp hb, rfl⟩
      · exact .inr fun depth hd => depthThrough_plain hp hd rest ▸ hstays depth hd
    cases is with
    | nil => exact .inr fun depth _ => ⟨depth, rfl⟩
    | cons i rest =>
      cases i with
      | endMember => exact .inl ⟨[], rest, .nil, rfl⟩
      | startMember m =>
        rcases ih rest.length (by simp [← hn]) rest rfl with ⟨body, post, hb, rfl⟩ | hstays
        · -- the member ends in the stream, and what comes after it decides
          rcases ih post.length (by simp [← hn]; omega) post rfl with
            ⟨body', post', hb', rfl⟩ | hstays
          · exact .inl ⟨.startMember m :: (body ++ .endMember :: body'), post', .member hb hb',
              by simp⟩
          · refine .inr fun depth hd => ?_
            rw [depthThrough_start, depthThrough_append, depthThrough_balanced hb (by omega),
              Option.bind_some, depthThrough_end hd]
            exact hstays depth hd
        · exact .inr fun depth hd => depthThrough_start depth m rest ▸ hstays (depth + 1) (by omega)
      | _ => exact hplain _ rest rfl rfl

/-! ## Taking instructions in -/

section

open Machine

variable (services : Services σ)

/-- In a recording the instructions up to its end are taken in, and nothing else happens.  What
the services are does not matter. -/
theorem steps_recording {is : List Instruction} {depth : Nat} :
    ∀ (m : Machine σ) (r : Recording σ), depthThrough r.depth is = some depth →
      services.steps is (m.withRecording (some r)) =
        .ok () (m.withRecording (some (r.add depth is))) := by
  induction is with
  | nil =>
    intro m r h
    obtain rfl : r.depth = depth := Option.some.inj h
    rw [Recording.add_nil]
    rfl
  | cons i is ih =>
    intro m r h
    rw [depthThrough] at h
    split at h
    · cases h
    · next hdepth =>
      rw [steps_cons, step_of_recording services rfl, record_of_inside services hdepth]
      simp only [withRecording_withRecording]
      rw [ih m (r.add (depthAfter r.depth i) [i]) h, Recording.add_add]
      rfl

/-- From `m₁`, where a member has started to be recorded, the machine has taken instructions in.
The frames and the world are as they were, no call was made, and any other services would have led
to the same machine. -/
structure Takes (m₁ m₂ : Machine σ) (member : Member) (loader : Loader σ)
    (taken : List Instruction) : Prop where
  recording : ∃ depth, 0 < depth ∧
    m₂ = m₁.withRecording (some { member, loader, depth, instructions := taken })
  steps : ∀ other : Services σ, other.steps taken m₁ = .ok () m₂
  calls : ∀ calls, services.watched.steps taken (m₁.watch calls) = .ok () (m₂.watch calls)

/-- The member of `m₁` ends where `m₂` has taken its body in: the loader is called with the body,
and what it makes is the one value that is committed, and recorded as such.  No other loader is
called. -/
structure HandsOver (m₁ m₂ : Machine σ) (site : Site) (member : Member) (loader : Loader σ)
    (body : List Instruction) : Prop where
  owner : m₁.stack.head?.bind (·.site) = some site
  step : services.step .endMember m₂ =
    match Build.onHeap .deferred (loader member body) m₁.world with
    | .error e w => .error e ((m₁.withRecording none).inWorld w)
    | .ok v w =>
      match services.commit site.object site.collects member [v] none w with
      | .error e w => .error e ((m₁.withRecording none).closeMember.inWorld w)
      | .ok _ w => .ok () ((m₁.withRecording none).closeMember.inWorld w)
  record : ∀ m₃, services.step .endMember m₂ = .ok () m₃ → ∃ v,
    m₃.world.context.ambient.records =
      m₁.world.context.ambient.records ++ [⟨member, v, site.object⟩]
  calls : ∀ calls, ∃ more, services.watched.step .endMember (m₂.watch calls) =
      watchOutcome (calls ++ more) (services.step .endMember m₂) ∧
    loads more = [(member, body)]

variable {services} {m m₁ m₂ : Machine σ} {member : Member} {loader : Loader σ}

theorem depthThrough_pos {is : List Instruction} {depth depth' : Nat} (hd : 0 < depth)
    (h : depthThrough depth is = some depth') : 0 < depth' := by
  induction is generalizing depth with
  | nil =>
    obtain rfl : depth = depth' := Option.some.inj h
    exact hd
  | cons i is ih =>
    rw [depthThrough] at h
    split at h
    · cases h
    · next hdepth => exact ih (Nat.pos_of_ne_zero hdepth) h

theorem takes_of_depthThrough (hr : m₁.recording = some { member, loader })
    {taken : List Instruction} {depth : Nat} (h : depthThrough 1 taken = some depth) :
    services.Takes m₁ (m₁.withRecording (some { member, loader, depth, instructions := taken }))
      member loader taken := by
  have hself : m₁.withRecording (some { member, loader }) = m₁ := by
    rw [withRecording, ← hr]
  have hadd : ({ member, loader } : Recording σ).add depth taken =
      { member, loader, depth, instructions := taken } := rfl
  refine ⟨⟨depth, depthThrough_pos Nat.one_pos h, rfl⟩, fun other => ?_, fun calls => ?_⟩
  · have hsteps := other.steps_recording m₁ { member, loader } h
    rwa [hself, hadd] at hsteps
  · have hsteps := services.watched.steps_recording (m₁.watch calls)
      (Recording.watch { member, loader }) h
    have hwatch : (m₁.watch calls).withRecording (some (Recording.watch { member, loader })) =
        m₁.watch calls := congrArg (Machine.watch calls) hself
    rw [hwatch] at hsteps
    exact hsteps

theorem handsOver_of_taken (hm : m₁.Sound services.settings.maxDepth)
    (hr : m₁.recording = some { member, loader }) {body : List Instruction}
    (hdepth : depthThrough 1 body = some 1) : ∃ site, services.HandsOver m₁
      (m₁.withRecording (some { member, loader, instructions := body })) site member loader
        body := by
  have htakes : services.Takes m₁ _ member loader body := takes_of_depthThrough hr hdepth
  have hm₂ := steps_sound hm (htakes.steps services)
  obtain ⟨top, rest, site, hs, ht, hsite, hrecord⟩ := services.record_endMember hm₂ rfl rfl
  have hs₁ : m₁.stack = top :: rest := hs
  have hstep := (step_of_recording services rfl _).trans hrecord
  refine ⟨site, by simp [hs₁, hsite], hstep, fun m₃ h => ?_, fun calls => ?_⟩
  · rw [hstep] at h
    split at h
    · cases h
    · next v w hload =>
      split at h
      · cases h
      · next hcommit =>
        cases h
        obtain ⟨v', hrecords⟩ := services.commit_ok hcommit
        have hloaded : w.context.ambient = m₁.world.context.ambient :=
          (onHeap_sameRecords _ _).of_ok hload
        exact ⟨v', by rw [hloaded] at hrecords; simpa using hrecords⟩
  · obtain ⟨more, hmore, hloads⟩ := services.step_watched
      (m₁.withRecording (some { member, loader, instructions := body })) .endMember calls
    exact ⟨more, hmore, hloads⟩

/-- A member with a loader starts a recording. -/
theorem recording_of_start (hm : m.Sound services.settings.maxDepth) (hr : m.recording = none)
    (hfind : services.loaders.find? member = some loader)
    (hstep : services.step (.startMember member) m = .ok () m₁) :
    m₁.recording = some { member, loader } := by
  cases step_does hm hstep with
  | startMember _ _ _ _ hloader =>
    rw [(services.loaderOf_ok hloader).symm.trans hfind]
    rfl
  | record hrec _ => simp [hr] at hrec

/-- What is recorded is what came since the start of a member with a loader, outside any other
recording. -/
theorem steps_recorded {m₀ : Machine σ} (h₀ : m₀.Sound services.settings.maxDepth)
    (hnone : m₀.recording = none) {pre : List Instruction} :
    ∀ {m : Machine σ} {r : Recording σ}, services.steps pre m₀ = .ok () m →
      m.recording = some r → ∃ before, pre = before ++ .startMember r.member :: r.instructions ∧
        services.loaders.find? r.member = some r.loader ∧
        ∃ m', services.steps before m₀ = .ok () m' ∧ m'.recording = none := by
  induction pre using List.reverseRecOn with
  | nil =>
    intro m r h hr
    cases h
    simp [hnone] at hr
  | append_singleton pre i ih =>
    intro m' r h hr'
    obtain ⟨m, hpre, hstep⟩ := services.steps_concat_eq_ok h
    have hidle : ∀ {m₁ : Machine σ}, m.recording = none → m₁.recording = m.recording →
        m₁.recording ≠ some r := fun hr h₁ h => by simp [h₁, hr] at h
    cases step_does (steps_sound h₀ hpre) hstep with
    | @startMember top rest site w member loader hr _ _ _ hloader =>
      cases loader with
      | none => exact absurd hr' (hidle hr ((mapTop_recording _ _).trans (mapTop_recording _ _)))
      | some loader =>
        obtain rfl : ({ member, loader } : Recording σ) = r := Option.some.inj hr'
        exact ⟨pre, rfl, services.loaderOf_ok hloader, m, hpre, hr⟩
    | @record r₁ _ hr₁ _ =>
      obtain rfl : r₁.add (depthAfter r₁.depth i) [i] = r := Option.some.inj hr'
      obtain ⟨before, rfl, hfind, hbefore⟩ := ih hpre hr₁
      exact ⟨before, by simp [Recording.add], hfind, hbefore⟩
    | startObject hr _ _ _ => exact absurd hr' (hidle hr rfl)
    | startSupplied hr _ _ _ _ _ => exact absurd hr' (hidle hr rfl)
    | getObject hr _ _ _ _ _ => exact absurd hr' (hidle hr (mapTop_recording _ _))
    | value hr _ _ _ => exact absurd hr' (hidle hr (mapTop_recording _ _))
    | endMember hr _ _ _ _ => exact absurd hr' (hidle hr (mapTop_recording _ _))
    | leave hr _ _ _ => exact absurd hr' (hidle hr rfl)
    | endInner hr _ _ _ _ _ _ => exact absurd hr' (hidle hr (mapTop_recording _ _))
    | endRoot hr _ _ _ _ _ => exact absurd hr' (hidle hr rfl)
    | handOver _ _ _ _ _ _ => simp [closeMember, withRecording] at hr'

end

variable (services : Services σ)

/-- The contents of a deferred member, whatever they are, go to its loader and nowhere else, at the
end of the member and at no other time; without an end the construction is incomplete. -/
theorem run_recordings (stream : List Instruction) (root : Option ObjectId)
    (base : Option ScopeId) (w : World σ) :
    (∀ m i calls, ∃ more, services.watched.step i (Machine.watch calls m) =
        watchOutcome (calls ++ more) (services.step i m) ∧ loads more = handed m i) ∧
    (∀ pre m r, services.steps pre (Machine.blank w root base) = .ok () m →
      m.recording = some r → ∃ before, pre = before ++ .startMember r.member :: r.instructions ∧
        services.loaders.find? r.member = some r.loader ∧
        ∃ m', services.steps before (Machine.blank w root base) = .ok () m' ∧
          m'.recording = none) ∧
    ∀ pre member rest loader m m₁, stream = pre ++ .startMember member :: rest →
      services.steps pre (Machine.blank w root base) = .ok () m → m.recording = none →
      services.loaders.find? member = some loader →
      services.step (.startMember member) m = .ok () m₁ →
      (∀ body post, rest = body ++ .endMember :: post → Balanced body →
        (∀ taken, taken <+: body → ∃ m₂, services.Takes m₁ m₂ member loader taken) ∧
        ∃ m₂ site, services.Takes m₁ m₂ member loader body ∧
          services.HandsOver m₁ m₂ site member loader body) ∧
      ((¬ ∃ body post, Balanced body ∧ rest = body ++ .endMember :: post) →
        (∀ taken, taken <+: rest → ∃ m₂, services.Takes m₁ m₂ member loader taken) ∧
        services.run stream root base w =
          .error (.structural (.incomplete (m₁.level + 1))) m₁.world) := by
  have h₀ : (Machine.blank w root base).Sound services.settings.maxDepth := .blank w root base
  refine ⟨fun m i calls => services.step_watched m i calls,
    fun pre m r => steps_recorded h₀ rfl, ?_⟩
  intro pre member rest loader m m₁ hstream hpre hr hfind hstep
  have hm := steps_sound h₀ hpre
  have hm₁ := (step_does hm hstep).sound hm
  have hr₁ := recording_of_start hm hr hfind hstep
  refine ⟨fun body post hrest hbody => ?_, fun hnot => ?_⟩
  · have hdepth := depthThrough_balanced hbody Nat.one_pos
    obtain ⟨site, hhands⟩ := handsOver_of_taken hm₁ hr₁ hdepth
    refine ⟨fun taken htaken => ?_, _, site, takes_of_depthThrough hr₁ hdepth, hhands⟩
    obtain ⟨between, hbetween⟩ := depthThrough_of_prefix hdepth htaken
    exact ⟨_, takes_of_depthThrough hr₁ hbetween⟩
  · obtain ⟨depth, hdepth⟩ := (ends_or_stays rest).resolve_left hnot 1 Nat.one_pos
    refine ⟨fun taken htaken => ?_, ?_⟩
    · obtain ⟨between, hbetween⟩ := depthThrough_of_prefix hdepth htaken
      exact ⟨_, takes_of_depthThrough hr₁ hbetween⟩
    · have htakes : services.Takes m₁ _ member loader rest := takes_of_depthThrough hr₁ hdepth
      have hsteps : services.steps stream (Machine.blank w root base) =
          .ok () (m₁.withRecording (some { member, loader, depth, instructions := rest })) := by
        rw [hstream, services.steps_append_of_ok hpre, steps_cons, hstep]
        exact htakes.steps services
      rw [run_eq_steps, hsteps]
      simp [Machine.finish, Machine.isRecording, Machine.withRecording, Machine.level]

/-- The deferred member of the boxes takes in the end of an object that it does not start, and hands
it over. -/
theorem run_recordings_boxes :
    ∃ m₁ m₂ site, boxes.steps (boxStream.take 10) (Machine.blank { heap := 0 } none none) =
        .ok () m₁ ∧
      boxes.Takes m₁ m₂ { owner := "Box", name := "Later" } (fun _ _ => pure .null)
        [.value "text", .endObject] ∧
      boxes.HandsOver m₁ m₂ site { owner := "Box", name := "Later" } (fun _ _ => pure .null)
        [.value "text", .endObject] := by
  obtain ⟨-, -, hmembers⟩ := boxes.run_recordings boxStream none none { heap := 0 }
  have hok : (match boxes.steps (boxStream.take 9) (Machine.blank { heap := 0 } none none) with
      | .ok _ m => m.recording.isNone && (match boxes.step boxStream[9] m with
        | .ok _ _ => true
        | .error _ _ => false)
      | .error _ _ => false) = true := by decide +kernel
  split at hok
  · next m hpre =>
    rw [Bool.and_eq_true] at hok
    obtain ⟨hidle, hstart⟩ := hok
    split at hstart
    · next m₁ hstep =>
      have hbody : Balanced [.value "text", .endObject] :=
        .plain rfl (.plain rfl .nil)
      obtain ⟨-, m₂, site, htakes, hhands⟩ := (hmembers (boxStream.take 9) _ _ _ m m₁ rfl hpre
        (Option.isNone_iff_eq_none.1 hidle) rfl hstep).1 _ _ rfl hbody
      exact ⟨m₁, m₂, site, (boxes.steps_concat_of_ok hpre boxStream[9]).trans hstep, htakes,
        hhands⟩
    · cases hstart
  · cases hok

end Services
end ObjectMarkup
