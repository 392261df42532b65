/-
What an object leaves of the frames around it.

The main theorem of this file is `nested_local`.  An object that stands in an open member is carried
out on top of the frames that are there, whatever stands in it; when it has ended, they are as they
were, and the open member has received one value more.  An object that was entered leaves them as
they were too, and was taken out of the open member.

All that is asked of what stands in the object is that it is nested (`WellNested`).  The rest of the
grammar the machine sees to: an instruction that is carried out can stand where the machine is
(`Does.next`), so that a nested stream that is carried out is one of members, or of what stands in a
member (`WellNested.words`).
-/
import ObjectMarkup.Proofs.Filling
import ObjectMarkup.Proofs.Reading
import ObjectMarkup.Proofs.Visits

namespace ObjectMarkup

open Instruction (Balanced Nested)
open ObjectMarkup.Action (success? of_success?)
open Machine (blank)

variable {σ : Type}

/-! ## Nested streams -/

/-- Objects and members start and end in pairs; in the members that `recorded` tells, only members
do. -/
inductive WellNested (recorded : Member → Bool) : List Instruction → Prop
  | nil : WellNested recorded []
  | value {s : String} {is : List Instruction} :
      WellNested recorded is → WellNested recorded (.value s :: is)
  | object {start : ObjectStart} {body is : List Instruction} :
      WellNested recorded body → WellNested recorded is →
      WellNested recorded (.startObject start :: (body ++ .endObject :: is))
  | held {body is : List Instruction} :
      WellNested recorded body → WellNested recorded is →
      WellNested recorded (.getObject :: (body ++ .endObject :: is))
  | carried {m : Member} {body is : List Instruction} :
      recorded m = false → WellNested recorded body → WellNested recorded is →
      WellNested recorded (.startMember m :: (body ++ .endMember :: is))
  | deferred {m : Member} {body is : List Instruction} :
      recorded m = true → Balanced body → WellNested recorded is →
      WellNested recorded (.startMember m :: (body ++ .endMember :: is))

theorem Instruction.Nested.balanced {is : List Instruction} (h : Nested is) : Balanced is := by
  induction h with
  | nil => exact .nil
  | value _ ih => exact .plain rfl ih
  | object _ _ ihbody ih | placeholder _ _ ihbody ih =>
    exact .plain rfl (ihbody.append (.plain rfl ih))
  | member _ _ ihbody ih => exact .member ihbody ih

section

variable {recorded : Member → Bool} {maxDepth : Nat}

/-- Where all starts and ends pair up, it does not matter which members are recorded. -/
theorem Instruction.Nested.wellNested {is : List Instruction} (h : Nested is) :
    WellNested recorded is := by
  induction h with
  | nil => exact .nil
  | value _ ih => exact .value ih
  | object _ _ ihbody ih => exact .object ihbody ih
  | placeholder _ _ ihbody ih => exact .held ihbody ih
  | @member m _ _ hbody _ ihbody ih =>
    cases hrec : recorded m with
    | false => exact .carried hrec ihbody ih
    | true => exact .deferred hrec hbody.balanced ih

mutual

theorem AreMembers.wellNested {n : Nat} {ms : List Instruction} :
    AreMembers recorded n ms → WellNested recorded ms
  | .nil => .nil
  | .carried hrec hcs hms => .carried hrec hcs.wellNested hms.wellNested
  | .deferred hrec hbody hms => .deferred hrec hbody hms.wellNested

theorem AreContents.wellNested {n : Nat} {cs : List Instruction} :
    AreContents recorded n cs → WellNested recorded cs
  | .nil => .nil
  | .value hcs => .value hcs.wellNested
  | .object hms hcs => .object hms.wellNested hcs.wellNested
  | .held hms hcs => .held hms.wellNested hcs.wellNested

end

/-- A balanced stream leads back to where it begins in a deferred member. -/
theorem Instruction.Balanced.after {body : List Instruction} (h : Balanced body) (n d : Nat) :
    (Position.deferred n d).after maxDepth recorded body = some (.deferred n d) := by
  induction h generalizing d with
  | nil => rfl
  | @plain i is hp _ ih =>
    have hnext : (Position.deferred n d).next maxDepth recorded i = some (.deferred n d) := by
      cases i with
      | startMember m => exact absurd hp (by simp [Instruction.isPlain])
      | endMember => exact absurd hp (by simp [Instruction.isPlain])
      | _ => cases d <;> rfl
    rw [Position.after, hnext, Option.bind_some, ih]
  | @member m body is _ _ ihbody ih =>
    have hstart : (Position.deferred n d).next maxDepth recorded (.startMember m) =
        some (.deferred n (d + 1)) := by cases d <;> rfl
    rw [Position.after, hstart, Option.bind_some, Position.after_append, ihbody, Option.bind_some,
      Position.after, Position.next, Option.bind_some, ih]

/-- An object that starts in a member stands a level higher, and what comes after its end stands in
the member. -/
theorem after_object_eq_some {n : Nat} {i : Instruction} {body is : List Instruction}
    {q : Position} (hnext : (Position.contents n).next maxDepth recorded i =
      if n + 1 < maxDepth then some (.members (n + 1)) else none)
    (h : (Position.contents n).after maxDepth recorded (i :: (body ++ .endObject :: is)) = some q) :
    n + 1 < maxDepth ∧ ∃ p, (Position.members (n + 1)).after maxDepth recorded body = some p ∧
      p.after maxDepth recorded (.endObject :: is) = some q := by
  obtain ⟨p, hp, h⟩ := Option.bind_eq_some_iff.1 h
  rw [hnext] at hp
  obtain ⟨hlt, hp⟩ := Option.ite_none_right_eq_some.1 hp
  obtain rfl := Option.some.inj hp
  rw [Position.after_append] at h
  exact ⟨hlt, Option.bind_eq_some_iff.1 h⟩

/-- Of the nested streams those that can be read in an object are made of members, and those that
can be read in a member are made of what stands there; both lead back to where they begin. -/
theorem WellNested.words {is : List Instruction} (h : WellNested recorded is) (n : Nat)
    (q : Position) :
    ((Position.members n).after maxDepth recorded is = some q →
      AreMembers recorded (maxDepth - (n + 1)) is ∧ q = .members n) ∧
    ((Position.contents n).after maxDepth recorded is = some q →
      AreContents recorded (maxDepth - (n + 1)) is ∧ q = .contents n) := by
  induction h generalizing n q with
  | nil =>
    refine ⟨fun hq => ?_, fun hq => ?_⟩
    · exact ⟨.nil, (Option.some.inj hq).symm⟩
    · exact ⟨.nil, (Option.some.inj hq).symm⟩
  | value _ ih =>
    refine ⟨fun hq => (by cases n <;> cases hq), fun hq => ?_⟩
    obtain ⟨hcs, rfl⟩ := (ih n q).2 hq
    exact ⟨.value hcs, rfl⟩
  | object _ _ ihbody ih =>
    refine ⟨fun hq => (by cases n <;> cases hq), fun hq => ?_⟩
    obtain ⟨hlt, p, hp, hq⟩ := after_object_eq_some rfl hq
    obtain ⟨hms, rfl⟩ := (ihbody (n + 1) p).1 hp
    obtain ⟨hcs, rfl⟩ := (ih n q).2 hq
    rw [show maxDepth - (n + 1) = maxDepth - (n + 2) + 1 by omega] at hcs ⊢
    exact ⟨.object hms hcs, rfl⟩
  | held _ _ ihbody ih =>
    refine ⟨fun hq => (by cases n <;> cases hq), fun hq => ?_⟩
    obtain ⟨hlt, p, hp, hq⟩ := after_object_eq_some rfl hq
    obtain ⟨hms, rfl⟩ := (ihbody (n + 1) p).1 hp
    obtain ⟨hcs, rfl⟩ := (ih n q).2 hq
    rw [show maxDepth - (n + 1) = maxDepth - (n + 2) + 1 by omega] at hcs ⊢
    exact ⟨.held hms hcs, rfl⟩
  | carried hrec _ _ ihbody ih =>
    refine ⟨fun hq => ?_, fun hq => by cases hq⟩
    rw [Position.after, Position.next, hrec, Option.bind_some, Position.after_append] at hq
    obtain ⟨p, hp, hq⟩ := Option.bind_eq_some_iff.1 hq
    obtain ⟨hcs, rfl⟩ := (ihbody n p).2 hp
    obtain ⟨hms, rfl⟩ := (ih n q).1 hq
    exact ⟨.carried hrec hcs hms, rfl⟩
  | deferred hrec hbody _ ih =>
    refine ⟨fun hq => ?_, fun hq => by cases hq⟩
    rw [Position.after, Position.next, hrec, Option.bind_some, Position.after_append, if_pos rfl,
      hbody.after, Option.bind_some] at hq
    obtain ⟨hms, rfl⟩ := (ih n q).1 hq
    exact ⟨.deferred hrec hbody hms, rfl⟩

/-- The streams of members are the nested ones among those that can be read in an object. -/
theorem areMembers_iff_wellNested {is : List Instruction} {n : Nat} {q : Position}
    (h : (Position.members n).after maxDepth recorded is = some q) :
    AreMembers recorded (maxDepth - (n + 1)) is ↔ WellNested recorded is :=
  ⟨AreMembers.wellNested, fun hnested => ((hnested.words n q).1 h).1⟩

end

/-! ## What is carried out can stand where it is -/

namespace Machine

variable {m : Machine σ} {maxDepth : Nat}

theorem position_openObject (hr : m.recording = none) {frame : Frame} (hf : frame.member = none) :
    (m.openObject frame).position = .members m.level :=
  position_of_closed (m.openObject_stack frame) hr hf

/-- An object that stands in another one can end, which leads back to the member it stands in. -/
theorem Sound.next_endObject (hm : m.Sound maxDepth) (hr : m.recording = none) {top parent : Frame}
    {rest : List Frame} (hs : m.stack = top :: parent :: rest) (ht : top.member = none)
    (recorded : Member → Bool) :
    m.position.next maxDepth recorded .endObject = some m.close.position := by
  obtain ⟨member, -, -, hposition⟩ := Services.position_close hm hr hs
  rw [position_of_closed hs hr ht, hposition]
  rfl

end Machine

namespace Services

variable {services : Services σ}

section

open Machine

variable {m m' : Machine σ} {i : Instruction}

/-- An instruction that is carried out can stand where the machine is, and leads to where the
grammar says. -/
theorem Does.next (hm : m.Sound services.settings.maxDepth) (h : services.Does m i m') :
    m.position.next services.settings.maxDepth services.isRecorded i = some m'.position := by
  cases h with
  | @startObject start hr hf hlevel _ =>
    rw [position_openObject hr rfl]
    cases hs : m.stack with
    | nil =>
      have hopen : m.rootClosed = false := by simpa [entryFault, hs] using hf
      have hempty : m.level = 0 := by simp [level, hs]
      rw [hempty] at hlevel ⊢
      rw [position_of_empty hs, hopen]
      exact if_pos hlevel
    | cons top rest =>
      have hinner : m.level = rest.length + 1 := by simp [level, hs]
      cases ht : top.member with
      | none => cases rest <;> simp [entryFault, hs, ht] at hf
      | some member =>
        rw [hinner] at hlevel ⊢
        rw [position_of_open hs hr ht]
        exact if_pos hlevel
  | @startSupplied start id site w hr hs hopen _ hdepth _ =>
    have hstart : m.position = .start := by
      rw [position_of_empty hs, hopen]
      rfl
    have hempty : m.level = 0 := by simp [level, hs]
    rw [inWorld_position, hstart]
    refine (if_pos hdepth).trans (congrArg some ?_)
    exact ((position_openObject hr rfl).trans (congrArg Position.members hempty)).symm
  | @getObject top rest member site target hr hs ht _ _ hlevel =>
    have hinner : m.level = rest.length + 1 := by simp [level, hs]
    have hentered : ((m.retrieve (.object target)).openObject
        (services.placeholder m.world.heap site target)).position = .members m.level :=
      (position_openObject ((m.mapTop_recording _).trans hr) rfl).trans
        (congrArg Position.members (mapTop_level _ m))
    rw [hinner] at hlevel hentered
    rw [position_of_open hs hr ht, hentered]
    exact if_pos hlevel
  | @startMember top rest site w member loader hr hs ht _ hloader =>
    have hopen : (((m.setSite site).inWorld w).openMember member loader).stack =
        (top.setSite site).openMember member :: rest := by
      cases loader <;> exact mapTop_stack _ _ (m.mapTop_stack _ hs)
    rw [position_of_closed hs hr ht, Position.next, isRecorded, services.loaderOf_ok hloader]
    cases loader with
    | none =>
      rw [position_of_open hopen ((mapTop_recording _ _).trans ((m.mapTop_recording _).trans hr))
        rfl]
      rfl
    | some loader =>
      rw [position_of_recording hopen rfl]
      rfl
  | @value top rest member s v w hr hs ht _ =>
    have hpushed : (m.push v).position = .contents rest.length :=
      position_of_open (m.mapTop_stack _ hs) ((m.mapTop_recording _).trans hr) ht
    rw [inWorld_position, position_of_open hs hr ht, hpushed]
    rfl
  | @endMember top rest member site w hr hs ht _ _ =>
    have hclosed : m.closeMember.position = .members rest.length :=
      position_of_closed (m.mapTop_stack _ hs) ((m.mapTop_recording _).trans hr) rfl
    rw [inWorld_position, position_of_open hs hr ht, hclosed]
    rfl
  | @leave top rest hr hs ht hp =>
    cases rest with
    | nil => simp [hm.bottom top (by simp [hs])] at hp
    | cons parent rest => exact hm.next_endObject hr hs ht _
  | @endInner top parent rest site v w w' w'' hr hs ht _ _ _ _ =>
    obtain ⟨member, hmember, hclose, hposition⟩ := position_close hm hr hs
    have hpushed : (m.close.push v).position = m.close.position :=
      (position_of_open (mapTop_stack _ _ hclose) ((mapTop_recording _ _).trans hr)
        hmember).trans hposition.symm
    rw [inWorld_position, hpushed]
    exact hm.next_endObject hr hs ht _
  | endRoot hr hs ht _ _ _ =>
    rw [inWorld_position, position_closeRoot hs, position_of_closed hs hr ht]
    rfl
  | @record r i hr hdepth =>
    obtain ⟨hpos, top, rest, hs, -⟩ := hm.recording r hr
    have hadded : (m.withRecording (some (r.add (depthAfter r.depth i) [i]))).position =
        .deferred rest.length (depthAfter r.depth i - 1) :=
      position_of_recording (m := m.withRecording (some _)) hs rfl
    obtain ⟨d, hd⟩ : ∃ d, r.depth = d + 1 := ⟨r.depth - 1, by omega⟩
    rw [position_of_recording hs hr, hadded]
    rw [hd] at hdepth ⊢
    cases i with
    | endMember =>
      cases d with
      | zero => exact absurd rfl hdepth
      | succ d => rfl
    | _ => cases d <;> rfl
  | @handOver r top rest site v w w' hr hone hs _ _ _ =>
    have hclosed : (m.withRecording none).closeMember.position = .members rest.length :=
      position_of_closed (mapTop_stack _ _ hs) (mapTop_recording _ _) rfl
    rw [inWorld_position, position_of_recording hs hr, hone, hclosed]
    rfl

/-- A stream that is carried out can be read where the machine is. -/
theorem steps_after {stream : List Instruction} (hm : m.Sound services.settings.maxDepth)
    (h : services.steps stream m = .ok () m') :
    m.position.after services.settings.maxDepth services.isRecorded stream = some m'.position := by
  induction stream generalizing m with
  | nil =>
    cases h
    rfl
  | cons i is ih =>
    obtain ⟨m₁, hstep, h⟩ := steps_cons_eq_ok h
    have hdoes := step_does hm hstep
    rw [Position.after, hdoes.next hm, Option.bind_some, ih (hdoes.sound hm) h]

/-- What is nested in an object that is carried out in a member is a stream of members. -/
theorem members_of_ok {body : List Instruction} (hbody : WellNested services.isRecorded body)
    (hm : m.Sound services.settings.maxDepth) (hr : m.recording = none) {top : Frame}
    {rest : List Frame} (hs : m.stack = top :: rest) {member : Member}
    (ht : top.member = some member)
    (hi : ∀ n, (Position.contents n).next services.settings.maxDepth services.isRecorded i =
      if n + 1 < services.settings.maxDepth then some (.members (n + 1)) else none)
    (h : services.steps (i :: (body ++ [.endObject])) m = .ok () m') :
    ∃ n, AreMembers services.isRecorded n body := by
  have hafter := steps_after hm h
  rw [position_of_open hs hr ht] at hafter
  obtain ⟨-, p, hp, -⟩ := after_object_eq_some (hi _) hafter
  exact ⟨_, (areMembers_iff_wellNested hp).2 hbody⟩

end

/-! ## Objects in a member -/

/-- An object that stands in a member brings one value to it, and leaves the frames as they are
otherwise. -/
theorem object_of_ok {g : Ground} {f : Frame} {fs : List Frame} {w : World σ} {m' : Machine σ}
    {start : ObjectStart} {n : Nat} {ms : List Instruction}
    (hms : AreMembers services.isRecorded n ms)
    (hm : (g.machine (f :: fs) w).Sound services.settings.maxDepth)
    (h : services.steps (.startObject start :: (ms ++ [.endObject])) (g.machine (f :: fs) w) =
      .ok () m') :
    ∃ v w', m' = g.machine (f.receive [v] :: fs) w' := by
  obtain ⟨m₁, hstart, h⟩ := steps_cons_eq_ok h
  obtain ⟨m₂, hmembers, hend⟩ := services.steps_concat_eq_ok h
  have hm₁ := (step_does hm hstart).sound hm
  have hm₂ := steps_sound hm₁ hmembers
  obtain rfl := startObject_of_ok hm rfl hstart
  obtain ⟨last, w', rfl, -, -⟩ := members_beside (.refl g) hms hm₁ hm₁ rfl hmembers hmembers
  obtain ⟨site, v, w₁, w₂, w₃, -, -, -, rfl⟩ := endInner_of_ok hm₂ rfl rfl hend
  exact ⟨v, w₃, rfl⟩

/-- Of a machine wherever it was brought, also past failures, where it records nothing and a member
is open: one object with whatever is nested in it, carried out to its end, changes nothing but the
world, and the values of the open member, to which it adds one at the end; and an object that is
entered and left again changes nothing but the world and what was taken out of the open member,
which is the object that the member held.  The frames below and all else that the machine keeps, its
result included, are as they were, and it records nothing. -/
theorem nested_local {w : World σ} {root : Option ObjectId} {base : Option ScopeId}
    {keepGoing : Bool} {before : List Instruction} {m : Machine σ} {top : Frame}
    {rest : List Frame} {member : Member}
    (hm : (services.trace keepGoing before (blank w root base)).2 = m) (hr : m.recording = none)
    (hs : m.stack = top :: rest) (ht : top.member = some member) :
    (∀ start body m', WellNested services.isRecorded body →
      services.steps (.startObject start :: (body ++ [.endObject])) m = .ok () m' →
      ∃ v, m' = { m with
        world := m'.world
        stack := { top with pending := top.pending ++ [v] } :: rest }) ∧
    ∀ body m', WellNested services.isRecorded body →
      services.steps (.getObject :: (body ++ [.endObject])) m = .ok () m' →
      ∃ site target, top.site = some site ∧
        services.host.getMember m.world.heap site.object member = some (.object target) ∧
        m' = { m with
          world := m'.world
          stack := { top with retrieved := some (.object target) } :: rest } := by
  have hblank : (blank w root base).Sound services.settings.maxDepth := .blank w root base
  have hsound : m.Sound services.settings.maxDepth := hm ▸ trace_sound hblank
  clear hm
  obtain ⟨world, stack, closed, supplied, base, result, recording⟩ := m
  obtain rfl : stack = top :: rest := hs
  obtain rfl : recording = none := hr
  -- what is below the innermost frame is the ground of the objects that stand in its member
  let g : Ground := ⟨rest, closed, supplied, base, result⟩
  have hground : (g.machine [top] world).Sound services.settings.maxDepth := hsound
  refine ⟨fun start body m' hbody h => ?_, fun body m' hbody h => ?_⟩
  · obtain ⟨n, hms⟩ := members_of_ok hbody hsound rfl rfl ht (fun _ => rfl) h
    obtain ⟨v, w', rfl⟩ := object_of_ok hms hground h
    exact ⟨v, rfl⟩
  · obtain ⟨n, hms⟩ := members_of_ok hbody hsound rfl rfl ht (fun _ => rfl) h
    obtain ⟨opened, site, target, w', hopened, hsite, htarget, rfl⟩ := visit_of_ok hms hground h
    rw [ht] at hopened
    cases hopened
    exact ⟨site, target, hsite, htarget, rfl⟩

end Services

/-- In a window stands a control, and among its items a text.  The end of a member that was not open
was refused. -/
def Widget.textAmongItems : List Instruction :=
  [.startObject { type := "Window" }, .startMember (contentMember "Window"),
    .startObject { type := "ItemsControl" }, .endMember, .startMember controlItems, .value "first"]

/-- Among the items of a control, which are entered and left again, stand an extension and a
template. -/
def Widget.itemsOfInner : List Instruction :=
  [.startMember controlItems, .getObject, .endObject,
    .startObject { type := "CollectionExtension" }, .endObject,
    .startObject { type := "DataTemplate" }, .startMember templateContent,
    .startObject { type := "TextBlock" }, .endObject, .endMember, .endObject, .endMember]

/-- An item is added to a collection. -/
def Widget.oneItem : List Instruction :=
  [.startMember (Member.items "ItemCollection"), .value "second", .endMember]

theorem Widget.itemsOfInner_nested : Nested Widget.itemsOfInner :=
  @Nested.member _ _ [] (.placeholder .nil (.object .nil
    (.object (.member (.object .nil .nil) .nil) .nil))) .nil

theorem Widget.oneItem_nested : Nested Widget.oneItem :=
  @Nested.member _ _ [] (.value .nil) .nil

namespace Services

open Widget (templated textAmongItems itemsOfInner oneItem controlItems)

/-- Another control comes after the text, and the items of the first one are entered. -/
theorem nested_local_textAmongItems :
    ∃ m top rest m₁ m₂, ((templated {}).trace true textAmongItems
        (blank { heap := {} } none none)).2 = m ∧
      ((templated {}).trace true textAmongItems (blank { heap := {} } none none)).1.map
        (·.fault.isSome) = [false, false, false, true, false, false] ∧
      m.recording = none ∧ m.stack = top :: rest ∧ top.member = some controlItems ∧
      rest.length = 1 ∧ top.pending.length = 1 ∧
      (templated {}).steps (.startObject { type := "ItemsControl" } ::
        (itemsOfInner ++ [.endObject])) m = .ok () m₁ ∧
      (∃ v, m₁ = { m with
        world := m₁.world
        stack := { top with pending := top.pending ++ [v] } :: rest }) ∧
      (templated {}).steps (.getObject :: (oneItem ++ [.endObject])) m = .ok () m₂ ∧
      ∃ target, m₂ = { m with
        world := m₂.world
        stack := { top with retrieved := some (.object target) } :: rest } := by
  generalize hm : ((templated {}).trace true textAmongItems (blank { heap := {} } none none)).2 = m
  have hplace : (m.recording.isNone && m.stack.head?.any fun top =>
      decide (top.member = some controlItems ∧ m.level = 2 ∧ top.pending.length = 1)) = true := by
    rw [← hm]
    decide +kernel
  have hobject : (success? ((templated {}).steps (.startObject { type := "ItemsControl" } ::
      (itemsOfInner ++ [.endObject])) m)).any (fun _ => true) = true := by
    rw [← hm]
    decide +kernel
  have hentered : (success? ((templated {}).steps (.getObject :: (oneItem ++ [.endObject]))
      m)).any (fun _ => true) = true := by
    rw [← hm]
    decide +kernel
  rw [Bool.and_eq_true, Option.isNone_iff_eq_none, Option.any_eq_true] at hplace
  obtain ⟨hr, top, hhead, hplace⟩ := hplace
  obtain ⟨ht, hlevel, hpending⟩ := of_decide_eq_true hplace
  obtain ⟨rest, hs⟩ := List.head?_eq_some_iff.1 hhead
  have hrest : rest.length = 1 := by simpa [Machine.level, hs] using hlevel
  obtain ⟨m₁, hobject, -⟩ := of_success? hobject
  obtain ⟨m₂, hentered, -⟩ := of_success? hentered
  obtain ⟨hone, hheld⟩ := nested_local hm hr hs ht
  obtain ⟨site, target, -, -, htaken⟩ := hheld _ m₂ Widget.oneItem_nested.wellNested hentered
  exact ⟨m, top, rest, m₁, m₂, rfl, by decide +kernel, hr, hs, ht, hrest, hpending, hobject,
    hone _ _ m₁ Widget.itemsOfInner_nested.wellNested hobject, hentered, target, htaken⟩

end Services
end ObjectMarkup
