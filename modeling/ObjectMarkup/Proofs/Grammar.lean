/-
The grammar of instruction streams.

An object is started and ended, and what stands between is members; a member is started and ended,
and what stands between is literals, objects, and the members of the object that it holds already.
A deferred member is different: whatever stands in it is for its loader, so that all that is asked
of its contents is that the members in it start and end in pairs (`Balanced`).

`IsObject` is the grammar.  `Position` says where in a word of it a stream stands, and
`Position.next` how an instruction moves on from there; `isObject_iff_after` and
`viable_iff_after` relate the two: the streams that can be read to the end are the words, and those
that can be read are the ones that some continuation makes a word.
-/
import ObjectMarkup.Tree.Stream

namespace ObjectMarkup
namespace Instruction

/-- Neither the start nor the end of a member. -/
def isPlain : Instruction → Bool
  | startMember _ | endMember => false
  | _ => true

/-- Streams in which the starts and ends of members pair up, whatever else stands in them. -/
inductive Balanced : List Instruction → Prop
  | nil : Balanced []
  | plain {i : Instruction} {is : List Instruction} :
      i.isPlain = true → Balanced is → Balanced (i :: is)
  | member {m : Member} {body rest : List Instruction} :
      Balanced body → Balanced rest → Balanced (startMember m :: (body ++ endMember :: rest))

namespace Balanced

theorem append {is js : List Instruction} (hi : Balanced is) (hj : Balanced js) :
    Balanced (is ++ js) := by
  induction hi with
  | nil => exact hj
  | plain hp _ ih => exact plain hp ih
  | @member m body rest hb _ _ ihr =>
    have h := member (m := m) hb ihr
    simpa using h

theorem singleton {i : Instruction} (h : i.isPlain = true) : Balanced [i] :=
  plain h nil

end Balanced
end Instruction

open Instruction (Balanced)

/-! ## Words -/

section

variable (recorded : Member → Bool)

mutual

/-- Members one after the other, in which objects stand at most `n` deep. -/
inductive AreMembers : Nat → List Instruction → Prop
  | nil {n : Nat} : AreMembers n []
  | carried {n : Nat} {m : Member} {cs ms : List Instruction} :
      recorded m = false → AreContents n cs → AreMembers n ms →
      AreMembers n (.startMember m :: (cs ++ .endMember :: ms))
  | deferred {n : Nat} {m : Member} {body ms : List Instruction} :
      recorded m = true → Balanced body → AreMembers n ms →
      AreMembers n (.startMember m :: (body ++ .endMember :: ms))

/-- What stands in a member that is carried out: literals, objects, and members of the object that
it holds. -/
inductive AreContents : Nat → List Instruction → Prop
  | nil {n : Nat} : AreContents n []
  | value {n : Nat} {s : String} {cs : List Instruction} :
      AreContents n cs → AreContents n (.value s :: cs)
  | object {n : Nat} {start : ObjectStart} {ms cs : List Instruction} :
      AreMembers n ms → AreContents (n + 1) cs →
      AreContents (n + 1) (.startObject start :: (ms ++ .endObject :: cs))
  | held {n : Nat} {ms cs : List Instruction} :
      AreMembers n ms → AreContents (n + 1) cs →
      AreContents (n + 1) (.getObject :: (ms ++ .endObject :: cs))

end

/-- One object, with objects at most `n` deep, itself included.  The members that `recorded` tells
are not carried out. -/
inductive IsObject : Nat → List Instruction → Prop
  | intro {n : Nat} {start : ObjectStart} {ms : List Instruction} :
      AreMembers recorded n ms → IsObject (n + 1) (.startObject start :: (ms ++ [.endObject]))

/-- A stream that can be continued to one object. -/
def Viable (maxDepth : Nat) (stream : List Instruction) : Prop :=
  ∃ rest, IsObject recorded maxDepth (stream ++ rest)

end

/-! ## Positions -/

/-- A place in a word.  Inside the word `level` is the number of open objects around the innermost
one; in a deferred member `depth` is the number of open members around the innermost one. -/
inductive Position where
  | start
  | members (level : Nat)
  | contents (level : Nat)
  | deferred (level depth : Nat)
  | done
deriving DecidableEq, Repr

section

variable (maxDepth : Nat) (recorded : Member → Bool)

/-- The open objects at a place, a deferred member counting as one more. -/
def Position.openLevels : Position → Nat
  | .start | .done => 0
  | .members n | .contents n => n + 1
  | .deferred n _ => n + 2

/-- The place after an instruction, if it can stand at a place. -/
def Position.next : Position → Instruction → Option Position
  | .start, .startObject _ => if 0 < maxDepth then some (.members 0) else none
  | .members n, .startMember m => some (if recorded m then .deferred n 0 else .contents n)
  | .members 0, .endObject => some .done
  | .members (n + 1), .endObject => some (.contents n)
  | .contents n, .value _ => some (.contents n)
  | .contents n, .startObject _ => if n + 1 < maxDepth then some (.members (n + 1)) else none
  | .contents n, .getObject => if n + 1 < maxDepth then some (.members (n + 1)) else none
  | .contents n, .endMember => some (.members n)
  | .deferred n d, .startMember _ => some (.deferred n (d + 1))
  | .deferred n 0, .endMember => some (.members n)
  | .deferred n (d + 1), .endMember => some (.deferred n d)
  | .deferred n d, _ => some (.deferred n d)
  | _, _ => none

def Position.after (p : Position) : List Instruction → Option Position
  | [] => some p
  | i :: is => (p.next maxDepth recorded i).bind fun q => Position.after q is

/-- The streams that complete a word from a place. -/
inductive Completes : Position → List Instruction → Prop
  | start {w : List Instruction} : IsObject recorded maxDepth w → Completes .start w
  | last {ms w : List Instruction} :
      AreMembers recorded (maxDepth - 1) ms → w = ms ++ [.endObject] → Completes (.members 0) w
  | members {n : Nat} {ms v w : List Instruction} :
      AreMembers recorded (maxDepth - (n + 2)) ms → Completes (.contents n) v →
      w = ms ++ .endObject :: v → Completes (.members (n + 1)) w
  | contents {n : Nat} {cs v w : List Instruction} :
      AreContents recorded (maxDepth - (n + 1)) cs → Completes (.members n) v →
      w = cs ++ .endMember :: v → Completes (.contents n) w
  | deferred {n : Nat} {body v w : List Instruction} :
      Balanced body → Completes (.members n) v → w = body ++ .endMember :: v →
      Completes (.deferred n 0) w
  | nested {n d : Nat} {body v w : List Instruction} :
      Balanced body → Completes (.deferred n d) v → w = body ++ .endMember :: v →
      Completes (.deferred n (d + 1)) w
  | done : Completes .done []

variable {maxDepth recorded}

/-- What completes a word inside an object: its other members, its end, and the rest. -/
theorem completes_members_iff {n : Nat} {w : List Instruction} :
    Completes maxDepth recorded (.members n) w ↔
      ∃ ms v p, AreMembers recorded (maxDepth - (n + 1)) ms ∧
        (Position.members n).next maxDepth recorded .endObject = some p ∧
        Completes maxDepth recorded p v ∧ w = ms ++ .endObject :: v := by
  constructor
  · intro h
    cases h with
    | last hms hw => exact ⟨_, _, _, hms, rfl, .done, hw⟩
    | members hms hv hw => exact ⟨_, _, _, hms, rfl, hv, hw⟩
  · rintro ⟨ms, v, p, hms, hp, hv, rfl⟩
    cases n with
    | zero =>
      obtain rfl : Position.done = p := Option.some.inj hp
      cases hv
      exact .last hms rfl
    | succ n =>
      obtain rfl : Position.contents n = p := Option.some.inj hp
      exact .members hms hv rfl

/-- What completes a word inside a deferred member: its other contents, its end, and the rest. -/
theorem completes_deferred_iff {n d : Nat} {w : List Instruction} :
    Completes maxDepth recorded (.deferred n d) w ↔
      ∃ body v p, Balanced body ∧
        (Position.deferred n d).next maxDepth recorded .endMember = some p ∧
        Completes maxDepth recorded p v ∧ w = body ++ .endMember :: v := by
  constructor
  · intro h
    cases h with
    | deferred hb hv hw => exact ⟨_, _, _, hb, rfl, hv, hw⟩
    | nested hb hv hw => exact ⟨_, _, _, hb, rfl, hv, hw⟩
  · rintro ⟨body, v, p, hb, hp, hv, rfl⟩
    cases d with
    | zero =>
      obtain rfl : Position.members n = p := Option.some.inj hp
      exact .deferred hb hv rfl
    | succ d =>
      obtain rfl : Position.deferred n d = p := Option.some.inj hp
      exact .nested hb hv rfl

/-! ## One instruction at a time -/

theorem completes_nil_iff {p : Position} : Completes maxDepth recorded p [] ↔ p = .done := by
  constructor
  · intro h
    cases h with
    | start h => cases h
    | last _ hw => simp at hw
    | members _ _ hw => simp at hw
    | contents _ _ hw => simp at hw
    | deferred _ _ hw => simp at hw
    | nested _ _ hw => simp at hw
    | done => rfl
  · rintro rfl
    exact .done

/-- The first instruction that completes a word can stand where the word is to be completed, and
the others complete it from there. -/
theorem Completes.next {p : Position} {i : Instruction} {w : List Instruction}
    (h : Completes maxDepth recorded p (i :: w)) :
    ∃ q, p.next maxDepth recorded i = some q ∧ Completes maxDepth recorded q w := by
  cases p with
  | start =>
    cases h with
    | start h =>
      cases h with
      | intro hms => exact ⟨.members 0, by simp [Position.next], .last (by simpa using hms) rfl⟩
  | members n =>
    obtain ⟨ms, v, p, hms, hp, hv, hw⟩ := completes_members_iff.1 h
    cases hms with
    | nil =>
      obtain ⟨rfl, rfl⟩ : i = .endObject ∧ w = v := by simpa using hw
      exact ⟨p, hp, hv⟩
    | carried hrec hcs hms =>
      obtain ⟨rfl, rfl⟩ := List.cons.inj hw
      exact ⟨.contents n, by simp [Position.next, hrec],
        .contents hcs (completes_members_iff.2 ⟨_, _, _, hms, hp, hv, rfl⟩) (by simp)⟩
    | deferred hrec hbody hms =>
      obtain ⟨rfl, rfl⟩ := List.cons.inj hw
      exact ⟨.deferred n 0, by simp [Position.next, hrec],
        .deferred hbody (completes_members_iff.2 ⟨_, _, _, hms, hp, hv, rfl⟩) (by simp)⟩
  | contents n =>
    cases h with
    | contents hcs hv hw =>
      generalize hk : maxDepth - (n + 1) = k at hcs
      cases hcs with
      | nil =>
        obtain ⟨rfl, rfl⟩ := List.cons.inj hw
        exact ⟨.members n, rfl, hv⟩
      | value hcs =>
        obtain ⟨rfl, rfl⟩ := List.cons.inj hw
        exact ⟨.contents n, rfl, .contents (hk ▸ hcs) hv rfl⟩
      | @object k start ms cs hms hcs =>
        obtain ⟨rfl, rfl⟩ := List.cons.inj hw
        have hlt : n + 1 < maxDepth := by omega
        have hms : AreMembers recorded (maxDepth - (n + 2)) ms := by
          rwa [show maxDepth - (n + 2) = k by omega]
        exact ⟨.members (n + 1), by simp [Position.next, hlt],
          .members hms (.contents (hk ▸ hcs) hv rfl) (by simp)⟩
      | @held k ms cs hms hcs =>
        obtain ⟨rfl, rfl⟩ := List.cons.inj hw
        have hlt : n + 1 < maxDepth := by omega
        have hms : AreMembers recorded (maxDepth - (n + 2)) ms := by
          rwa [show maxDepth - (n + 2) = k by omega]
        exact ⟨.members (n + 1), by simp [Position.next, hlt],
          .members hms (.contents (hk ▸ hcs) hv rfl) (by simp)⟩
  | deferred n d =>
    obtain ⟨body, v, p, hb, hp, hv, hw⟩ := completes_deferred_iff.1 h
    cases hb with
    | nil =>
      obtain ⟨rfl, rfl⟩ : i = .endMember ∧ w = v := by simpa using hw
      exact ⟨p, hp, hv⟩
    | plain hplain hb =>
      obtain ⟨rfl, rfl⟩ := List.cons.inj hw
      refine ⟨.deferred n d, ?_, completes_deferred_iff.2 ⟨_, _, _, hb, hp, hv, rfl⟩⟩
      cases i with
      | startMember m => exact absurd hplain (by simp [Instruction.isPlain])
      | endMember => exact absurd hplain (by simp [Instruction.isPlain])
      | _ => rfl
    | member hbody hrest =>
      obtain ⟨rfl, rfl⟩ := List.cons.inj hw
      exact ⟨.deferred n (d + 1), rfl,
        .nested hbody (completes_deferred_iff.2 ⟨_, _, _, hrest, hp, hv, rfl⟩) (by simp)⟩
  | done => cases h

/-- An instruction that can stand somewhere goes before whatever completes the word after it. -/
theorem Completes.cons {p q : Position} {i : Instruction} {w : List Instruction}
    (hq : p.next maxDepth recorded i = some q) (h : Completes maxDepth recorded q w) :
    Completes maxDepth recorded p (i :: w) := by
  cases p with
  | start =>
    cases i <;> simp only [Position.next, reduceCtorEq] at hq
    obtain ⟨hpos, hq⟩ := Option.ite_none_right_eq_some.1 hq
    obtain rfl := Option.some.inj hq
    obtain ⟨n, rfl⟩ : ∃ n, maxDepth = n + 1 := ⟨maxDepth - 1, by omega⟩
    cases h with
    | last hms hw =>
      subst hw
      exact .start (.intro (by simpa using hms))
  | members n =>
    cases i with
    | startMember m =>
      obtain rfl := Option.some.inj hq
      cases hrec : recorded m with
      | true =>
        simp only [hrec, if_true] at h
        obtain ⟨body, v, p, hb, hp, hv, rfl⟩ := completes_deferred_iff.1 h
        obtain rfl := Option.some.inj hp
        obtain ⟨ms, v', p, hms, hp, hv', rfl⟩ := completes_members_iff.1 hv
        exact completes_members_iff.2 ⟨_, _, _, .deferred hrec hb hms, hp, hv', by simp⟩
      | false =>
        simp only [hrec, Bool.false_eq_true, if_false] at h
        cases h with
        | contents hcs hv hw =>
          obtain ⟨ms, v', p, hms, hp, hv', rfl⟩ := completes_members_iff.1 hv
          subst hw
          exact completes_members_iff.2 ⟨_, _, _, .carried hrec hcs hms, hp, hv', by simp⟩
    | endObject => exact completes_members_iff.2 ⟨[], _, _, .nil, hq, h, rfl⟩
    | _ => cases n <;> exact absurd hq (by simp [Position.next])
  | contents n =>
    have hinner : n + 1 < maxDepth → q = .members (n + 1) →
        ∃ k ms cs v, maxDepth - (n + 1) = k + 1 ∧ AreMembers recorded k ms ∧
          AreContents recorded (k + 1) cs ∧ Completes maxDepth recorded (.members n) v ∧
          w = ms ++ .endObject :: (cs ++ .endMember :: v) := by
      rintro hlt rfl
      cases h with
      | @members n ms v' w hms hv hw =>
        cases hv with
        | @contents n cs v w hcs hv hw' =>
          subst hw hw'
          refine ⟨maxDepth - (n + 2), ms, cs, v, by omega, hms, ?_, hv, rfl⟩
          rwa [show maxDepth - (n + 2) + 1 = maxDepth - (n + 1) by omega]
    cases i with
    | value s =>
      obtain rfl := Option.some.inj hq
      cases h with
      | contents hcs hv hw =>
        subst hw
        exact .contents (.value hcs) hv rfl
    | endMember =>
      obtain rfl := Option.some.inj hq
      exact .contents .nil h rfl
    | startObject start =>
      obtain ⟨hlt, hq⟩ := Option.ite_none_right_eq_some.1 hq
      obtain ⟨k, ms, cs, v, hk, hms, hcs, hv, rfl⟩ := hinner hlt (Option.some.inj hq).symm
      have hcs := @AreContents.object recorded k start ms cs hms hcs
      exact .contents (hk ▸ hcs) hv (by simp)
    | getObject =>
      obtain ⟨hlt, hq⟩ := Option.ite_none_right_eq_some.1 hq
      obtain ⟨k, ms, cs, v, hk, hms, hcs, hv, rfl⟩ := hinner hlt (Option.some.inj hq).symm
      have hcs := AreContents.held hms hcs
      exact .contents (hk ▸ hcs) hv (by simp)
    | _ => exact absurd hq (by simp [Position.next])
  | deferred n d =>
    have hplain : i.isPlain = true → Completes maxDepth recorded (.deferred n d) w →
        Completes maxDepth recorded (.deferred n d) (i :: w) := by
      intro hp h
      obtain ⟨body, v, p, hb, hp', hv, rfl⟩ := completes_deferred_iff.1 h
      exact completes_deferred_iff.2 ⟨_, _, _, .plain hp hb, hp', hv, rfl⟩
    cases i with
    | startMember m =>
      obtain rfl : Position.deferred n (d + 1) = q := by cases d <;> exact Option.some.inj hq
      obtain ⟨body, v, p, hb, hp, hv, rfl⟩ := completes_deferred_iff.1 h
      obtain rfl := Option.some.inj hp
      obtain ⟨rest, v', p, hrest, hp, hv', rfl⟩ := completes_deferred_iff.1 hv
      have hb := Balanced.member (m := m) hb hrest
      exact completes_deferred_iff.2 ⟨_, _, _, hb, hp, hv', by simp⟩
    | endMember => exact completes_deferred_iff.2 ⟨[], _, _, .nil, hq, h, rfl⟩
    | _ =>
      obtain rfl : Position.deferred n d = q := by cases d <;> exact Option.some.inj hq
      exact hplain rfl h
  | done => cases i <;> exact absurd hq (by simp [Position.next])

/-- A stream completes a word where it leads to the end of one. -/
theorem completes_iff_after (p : Position) (w : List Instruction) :
    Completes maxDepth recorded p w ↔ p.after maxDepth recorded w = some .done := by
  induction w generalizing p with
  | nil => simp [completes_nil_iff, Position.after]
  | cons i w ih =>
    rw [Position.after, Option.bind_eq_some_iff]
    constructor
    · intro h
      obtain ⟨q, hq, hw⟩ := h.next
      exact ⟨q, hq, (ih q).1 hw⟩
    · rintro ⟨q, hq, hw⟩
      exact .cons hq ((ih q).2 hw)

theorem isObject_iff_after (w : List Instruction) :
    IsObject recorded maxDepth w ↔ Position.start.after maxDepth recorded w = some .done := by
  rw [← completes_iff_after]
  exact ⟨.start, fun h => by cases h; assumption⟩

/-! ## Prefixes of words -/

/-- Behind its first instruction a word can be completed from everywhere. -/
theorem exists_completes {p : Position} (hp : p ≠ .start) :
    ∃ w, Completes maxDepth recorded p w := by
  have hmembers : ∀ n, ∃ w, Completes maxDepth recorded (.members n) w := by
    intro n
    induction n with
    | zero => exact ⟨_, .last .nil rfl⟩
    | succ n ih =>
      obtain ⟨v, hv⟩ := ih
      exact ⟨_, .members .nil (.contents .nil hv rfl) rfl⟩
  cases p with
  | start => exact absurd rfl hp
  | members n => exact hmembers n
  | contents n =>
    obtain ⟨v, hv⟩ := hmembers n
    exact ⟨_, .contents .nil hv rfl⟩
  | deferred n d =>
    induction d with
    | zero =>
      obtain ⟨v, hv⟩ := hmembers n
      exact ⟨_, .deferred .nil hv rfl⟩
    | succ d ih =>
      obtain ⟨v, hv⟩ := ih (by simp)
      exact ⟨_, .nested .nil hv rfl⟩
  | done => exact ⟨_, .done⟩

theorem Position.after_append (p : Position) (is js : List Instruction) :
    p.after maxDepth recorded (is ++ js) =
      (p.after maxDepth recorded is).bind fun q => q.after maxDepth recorded js := by
  induction is generalizing p with
  | nil => rfl
  | cons i is ih =>
    simp only [List.cons_append, Position.after, Option.bind_assoc, ih]

theorem Position.next_ne_start (p : Position) (i : Instruction) :
    p.next maxDepth recorded i ≠ some .start := by
  intro h
  cases p with
  | start => cases i <;> simp [Position.next] at h
  | members n => cases n <;> cases i <;> simp [Position.next] at h <;> split at h <;> cases h
  | contents n => cases i <;> simp [Position.next] at h
  | deferred n d => cases d <;> cases i <;> simp [Position.next] at h
  | done => cases i <;> simp [Position.next] at h

theorem Position.after_ne_start (p : Position) {w : List Instruction} (hne : w ≠ []) :
    p.after maxDepth recorded w ≠ some .start := by
  induction w generalizing p with
  | nil => exact absurd rfl hne
  | cons i w ih =>
    intro h
    obtain ⟨q, hq, hw⟩ := Option.bind_eq_some_iff.1 h
    cases w with
    | nil =>
      obtain rfl := Option.some.inj hw
      exact next_ne_start p i hq
    | cons j w => exact ih q (List.cons_ne_nil j w) hw

/-- The streams that can be read are those that some continuation makes a word. -/
theorem viable_iff_after {stream : List Instruction} (hne : stream ≠ []) :
    Viable recorded maxDepth stream ↔
      (Position.start.after maxDepth recorded stream).isSome = true := by
  constructor
  · rintro ⟨rest, h⟩
    rw [isObject_iff_after, Position.after_append] at h
    obtain ⟨q, hq, -⟩ := Option.bind_eq_some_iff.1 h
    simp [hq]
  · intro h
    obtain ⟨p, hp⟩ := Option.isSome_iff_exists.1 h
    have hstart : p ≠ .start := fun hs => Position.after_ne_start .start hne (hs ▸ hp)
    obtain ⟨rest, hrest⟩ := exists_completes hstart
    refine ⟨rest, ?_⟩
    rw [isObject_iff_after, Position.after_append, hp]
    exact (completes_iff_after p rest).1 hrest

theorem empty_or_viable {stream : List Instruction} {q : Position}
    (h : Position.start.after maxDepth recorded stream = some q) :
    stream = [] ∨ Viable recorded maxDepth stream := by
  by_cases hempty : stream = []
  · exact .inl hempty
  · exact .inr ((viable_iff_after hempty).2 (by simp [h]))

/-- A prefix of a word does not go on with an instruction that cannot stand after it. -/
theorem not_viable_of_stuck {pre : List Instruction} {i : Instruction} {q : Position}
    (h : Position.start.after maxDepth recorded pre = some q)
    (hi : q.next maxDepth recorded i = none) : ¬ Viable recorded maxDepth (pre ++ [i]) := by
  rw [viable_iff_after (by simp), Position.after_append, h, Option.bind_some, Position.after, hi]
  simp

end

/-! ## The streams of trees -/

mutual

theorem Tree.instructions_balanced : (t : Tree) → Balanced t.instructions
  | .node _ _ _ assignments => by
    rw [Tree.instructions]
    exact .plain rfl ((Assignment.instructionsAll_balanced assignments).append
      (.singleton rfl))

theorem Assignment.instructions_balanced : (a : Assignment) → Balanced a.instructions
  | .literal m s => by
    rw [Assignment.instructions]
    exact .member (.singleton rfl) .nil
  | .children m trees => by
    rw [Assignment.instructions]
    exact .member (Tree.instructionsAll_balanced trees) .nil

theorem Assignment.instructionsAll_balanced :
    (as : List Assignment) → Balanced (Assignment.instructionsAll as)
  | [] => .nil
  | a :: as => by
    rw [Assignment.instructionsAll]
    exact (Assignment.instructions_balanced a).append (Assignment.instructionsAll_balanced as)

theorem Tree.instructionsAll_balanced :
    (ts : List Tree) → Balanced (Tree.instructionsAll ts)
  | [] => .nil
  | t :: ts => by
    rw [Tree.instructionsAll]
    exact (Tree.instructions_balanced t).append (Tree.instructionsAll_balanced ts)

end

end ObjectMarkup
