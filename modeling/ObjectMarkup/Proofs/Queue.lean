/-
Positions that are taken by counting down.

`Counts` says what the numbers of a queue are at any moment: each position that is waiting counts
the waiting positions it requires, and one more while it is still to hear of the one that was taken
last; and those that count nothing are ready.  Each release keeps this (`Counts.release`), and so
does each round (`Counts.next`).  The least that is ready is then the first that requires nothing of
what is waiting, so that a queue gives the order of `schedule` (`Counts.take_eq_schedule`).
-/
import ObjectMarkup.Proofs.Scheduling

namespace ObjectMarkup
namespace Order

/-! ## Ascending lists -/

section

variable {i j : Nat} {is : List Nat}

theorem mem_enqueue : j ∈ enqueue i is ↔ j = i ∨ j ∈ is := by
  induction is with
  | nil => simp [enqueue]
  | cons k is ih =>
    rw [enqueue]
    split
    · exact List.mem_cons
    · rw [List.mem_cons, ih, List.mem_cons, or_left_comm]

theorem enqueue_pairwise (h : is.Pairwise (· < ·)) (hi : i ∉ is) :
    (enqueue i is).Pairwise (· < ·) := by
  induction is with
  | nil => exact List.pairwise_singleton _ i
  | cons k is ih =>
    obtain ⟨hk, his⟩ := List.pairwise_cons.1 h
    have hne : i ≠ k := fun heq => hi (heq ▸ List.mem_cons_self)
    rw [enqueue]
    split
    · next hle =>
      have hlt : i < k := by omega
      refine List.pairwise_cons.2 ⟨fun j hj => ?_, h⟩
      rcases List.mem_cons.1 hj with rfl | hj
      · exact hlt
      · exact Nat.lt_trans hlt (hk j hj)
    · next hle =>
      refine List.pairwise_cons.2 ⟨fun j hj => ?_, ih his fun h => hi (List.mem_cons_of_mem k h)⟩
      rcases mem_enqueue.1 hj with rfl | hj
      · omega
      · exact hk j hj

theorem mem_ascending : j ∈ ascending is ↔ j ∈ is := by
  induction is with
  | nil => simp [ascending]
  | cons i is ih =>
    rw [List.mem_cons, ← ih]
    exact mem_enqueue

theorem ascending_pairwise (h : is.Nodup) : (ascending is).Pairwise (· < ·) := by
  induction is with
  | nil => exact .nil
  | cons i is ih =>
    obtain ⟨hi, his⟩ := List.nodup_cons.1 h
    exact enqueue_pairwise (ih his) fun h => hi (mem_ascending.1 h)

theorem ascending_of_pairwise (h : is.Pairwise (· < ·)) : ascending is = is :=
  (ascending_pairwise (h.imp Nat.ne_of_lt)).eq_of_mem_iff h fun _ => mem_ascending

/-- One more of the numbers passes the test. -/
theorem enqueue_filter {p p' : Nat → Bool} (h : is.Pairwise (· < ·)) (hi : i ∈ is)
    (hp : p i = false) (hp' : p' i = true) (hsame : ∀ j, i ≠ j → p' j = p j) :
    enqueue i (is.filter p) = is.filter p' := by
  have hnot : i ∉ is.filter p := by simp [hp]
  refine (enqueue_pairwise (h.filter p) hnot).eq_of_mem_iff (h.filter p') fun j => ?_
  rw [mem_enqueue, List.mem_filter, List.mem_filter]
  by_cases hij : i = j
  · subst hij
    simp [hi, hp']
  · simp [hsame j hij, Ne.symm hij]

end

/-! ## Counting down -/

variable {members : List Member} {waiting pending : List Nat} {q : Queue} {i : Nat}

/-- The number of the `waiting` positions that `i` comes after. -/
def waitsFor (members : List Member) (waiting : List Nat) (i : Nat) : Nat :=
  waiting.countP fun j => (memberAt members i).requires (memberAt members j)

theorem waitsFor_middle (members : List Member) (pre post : List Nat) (x i : Nat) :
    waitsFor members (pre ++ x :: post) i = waitsFor members (pre ++ post) i +
      if (memberAt members i).requires (memberAt members x) then 1 else 0 := by
  rw [waitsFor, waitsFor, List.countP_append, List.countP_cons, List.countP_append]
  omega

theorem waitsFor_eq_zero : waitsFor members waiting i = 0 ↔
    ∀ j ∈ waiting, (memberAt members i).requires (memberAt members j) = false := by
  simp [waitsFor, List.countP_eq_zero]

theorem waitsFor_ne_zero : waitsFor members waiting i ≠ 0 ↔
    ∃ j ∈ waiting, (memberAt members i).requires (memberAt members j) = true := by
  rw [Ne, waitsFor_eq_zero]
  simp

namespace Queue

/-- Each waiting position counts what it waits for, and one more while it is `pending`; what counts
nothing is ready. -/
structure Counts (members : List Member) (waiting pending : List Nat) (q : Queue) : Prop where
  degrees : ∀ i ∈ waiting,
    q.degrees[i]? = some (waitsFor members waiting i + if i ∈ pending then 1 else 0)
  ready : q.ready = waiting.filter fun i => q.degrees[i]? == some 0

/-- What is waiting stands in order, and what follows it is waiting too. -/
structure Waiting (members : List Member) (waiting : List Nat) : Prop where
  pairwise : waiting.Pairwise (· < ·)
  lt : ∀ i ∈ waiting, i < members.length
  followers : ∀ i ∈ waiting, ∀ j ∈ followers members i, j ∈ waiting

theorem Counts.start (members : List Member) :
    (Queue.start members).Counts members (List.range members.length) [] := by
  have hdegrees : (Queue.start members).degrees =
      (List.range members.length).map (waitsFor members (List.range members.length)) :=
    List.map_congr_left fun i hi => length_prerequisites (List.mem_range.1 hi)
  have hdegree : ∀ i ∈ List.range members.length, (Queue.start members).degrees[i]? =
      some (waitsFor members (List.range members.length) i) := by
    intro i hi
    rw [hdegrees, List.getElem?_map, List.getElem?_range (List.mem_range.1 hi), Option.map_some]
  refine ⟨fun i hi => ?_, ?_⟩
  · rw [hdegree i hi, if_neg List.not_mem_nil, Nat.add_zero]
  · have hready : (Queue.start members).ready =
        ((Queue.start members).degrees.zipIdx.filter (·.1 == 0)).map (·.2) := rfl
    rw [hready, hdegrees, zipIdx_map_range, List.filter_map, List.map_map, ← hdegrees]
    refine (List.map_id _).trans (List.filter_congr fun i hi => ?_)
    simp [hdegree i hi]

theorem Waiting.start (members : List Member) :
    Waiting members (List.range members.length) where
  pairwise := List.pairwise_lt_range
  lt _ hi := List.mem_range.1 hi
  followers _ _ _ hj := List.mem_range.2 (mem_followers.1 hj).lt.2

/-- A release counts the position down, and puts it among the ready ones when it waits for no
more. -/
theorem Counts.release (h : q.Counts members waiting (i :: pending))
    (hwaiting : waiting.Pairwise (· < ·)) (hi : i ∈ waiting) (hpending : i ∉ pending) :
    (q.release i).Counts members waiting pending := by
  -- there is something to count down, so that nothing is cut off
  have hdegree : q.degrees[i]? = some (waitsFor members waiting i + 1) := by
    simpa using h.degrees i hi
  have hlt : i < q.degrees.length := (List.getElem?_eq_some_iff.1 hdegree).1
  have hset : ∀ j, (q.release i).degrees[j]? =
      if i = j then some (waitsFor members waiting i) else q.degrees[j]? := by
    intro j
    rw [Queue.release, hdegree, Option.getD_some, Nat.add_sub_cancel, List.getElem?_set,
      if_pos hlt]
  refine ⟨fun j hj => ?_, ?_⟩
  · by_cases hij : i = j
    · subst hij
      rw [hset, if_pos rfl, if_neg hpending, Nat.add_zero]
    · have hmem : j ∈ i :: pending ↔ j ∈ pending := by simp [Ne.symm hij]
      rw [hset, if_neg hij, h.degrees j hj]
      simp only [hmem]
  · have hready : (q.release i).ready =
        if waitsFor members waiting i = 0 then enqueue i q.ready else q.ready := by
      simp [Queue.release, hdegree]
    have hsame : ∀ j, i ≠ j → ((q.release i).degrees[j]? == some 0) = (q.degrees[j]? == some 0) :=
      fun j hij => by rw [hset, if_neg hij]
    rw [hready, h.ready]
    by_cases hzero : waitsFor members waiting i = 0
    · rw [if_pos hzero]
      exact enqueue_filter hwaiting hi (by simp [hdegree]) (by simp [hset, hzero]) hsame
    · rw [if_neg hzero]
      refine List.filter_congr fun j _ => ?_
      by_cases hij : i = j
      · subst hij
        simp [hset, hdegree, hzero]
      · exact (hsame j hij).symm

theorem Counts.foldl_release (h : q.Counts members waiting pending)
    (hwaiting : waiting.Pairwise (· < ·)) (hpending : ∀ i ∈ pending, i ∈ waiting)
    (hnodup : pending.Nodup) : (pending.foldl Queue.release q).Counts members waiting [] := by
  induction pending generalizing q with
  | nil => exact h
  | cons i pending ih =>
    obtain ⟨hi, hnodup⟩ := List.nodup_cons.1 hnodup
    exact ih (h.release hwaiting (hpending i List.mem_cons_self) hi)
      (fun j hj => hpending j (List.mem_cons_of_mem i hj)) hnodup

/-- What follows a waiting position is not one that waits for nothing. -/
theorem Waiting.mem_rest {pre post : List Nat} {x : Nat}
    (h : Waiting members (pre ++ x :: post)) (hx : waitsFor members (pre ++ x :: post) x = 0) :
    ∀ i ∈ pre ++ x :: post, ∀ j ∈ Order.followers members i, j ∈ pre ++ post := by
  intro i hi j hj
  have hmem := List.perm_middle.mem_iff.1 (h.followers i hi j hj)
  refine (List.mem_cons.1 hmem).resolve_left ?_
  rintro rfl
  have hprecedes := mem_followers.1 hj
  have hrequires := (precedes_iff_requires hprecedes.lt.1 hprecedes.lt.2).1 hprecedes
  rw [waitsFor_eq_zero.1 hx i hi] at hrequires
  cases hrequires

theorem Waiting.rest {pre post : List Nat} {x : Nat} (h : Waiting members (pre ++ x :: post))
    (hx : waitsFor members (pre ++ x :: post) x = 0) : Waiting members (pre ++ post) := by
  have hsub : ∀ i ∈ pre ++ post, i ∈ pre ++ x :: post := fun i hi =>
    List.perm_middle.mem_iff.2 (List.mem_cons_of_mem x hi)
  exact ⟨h.pairwise.sublist ((List.Sublist.refl pre).append (List.sublist_cons_self x post)),
    fun i hi => h.lt i (hsub i hi), fun i hi => h.mem_rest hx i (hsub i hi)⟩

theorem Counts.degree_eq (h : q.Counts members waiting []) (hi : i ∈ waiting) :
    q.degrees[i]? = some (waitsFor members waiting i) := by
  rw [h.degrees i hi, if_neg List.not_mem_nil, Nat.add_zero]

theorem Counts.mem_ready (h : q.Counts members waiting []) :
    i ∈ q.ready ↔ i ∈ waiting ∧ waitsFor members waiting i = 0 := by
  rw [h.ready, List.mem_filter]
  refine and_congr_right fun hi => ?_
  simp [h.degree_eq hi]

/-- The position that is taken is out of the way at once, and those that follow it are to hear of
it. -/
theorem Counts.remove {pre post ready : List Nat} {x : Nat}
    (h : q.Counts members (pre ++ x :: post) []) (hwaiting : Waiting members (pre ++ x :: post))
    (hready : ready = (pre ++ post).filter fun i => q.degrees[i]? == some 0) :
    Counts members (pre ++ post) (Order.followers members x) { q with ready } := by
  refine ⟨fun i hi => ?_, hready⟩
  have hmem : i ∈ pre ++ x :: post := List.perm_middle.mem_iff.2 (List.mem_cons_of_mem x hi)
  have hfollows : i ∈ Order.followers members x ↔
      (memberAt members i).requires (memberAt members x) = true := by
    have hx : x ∈ pre ++ x :: post := List.mem_append_right pre List.mem_cons_self
    rw [mem_followers, precedes_iff_requires (hwaiting.lt x hx) (hwaiting.lt i hmem)]
  rw [h.degree_eq hmem, waitsFor_middle]
  simp only [hfollows]

/-- A round takes the first position that waits for nothing. -/
theorem Counts.next {x : Nat} {ready : List Nat} (h : q.Counts members waiting [])
    (hwaiting : Waiting members waiting) (hready : q.ready = x :: ready) :
    ∃ pre post, waiting = pre ++ x :: post ∧
      (∀ y ∈ pre, waitsFor members waiting y ≠ 0) ∧ waitsFor members waiting x = 0 ∧
      Waiting members (pre ++ post) ∧ Counts members (pre ++ post) []
        ((Order.followers members x).foldl Queue.release { q with ready }) := by
  obtain ⟨pre, post, rfl, hpre, -, hpost⟩ := List.filter_eq_cons_iff.1 (h.ready.symm.trans hready)
  have hxmem : x ∈ pre ++ x :: post := List.mem_append_right pre List.mem_cons_self
  have hx : waitsFor members (pre ++ x :: post) x = 0 :=
    (h.mem_ready.1 (hready ▸ List.mem_cons_self)).2
  have hrest := hwaiting.rest hx
  have hremoved : Counts members (pre ++ post) (Order.followers members x) { q with ready } := by
    refine h.remove hwaiting ?_
    rw [List.filter_append, List.filter_eq_nil_iff.2 hpre, List.nil_append, hpost]
  refine ⟨pre, post, rfl, fun y hy => ?_, hx, hrest, ?_⟩
  · simpa [h.degree_eq (List.mem_append_left _ hy)] using hpre y hy
  · exact hremoved.foldl_release hrest.pairwise (hwaiting.mem_rest hx x hxmem)
      ((followers_pairwise members x).imp Nat.ne_of_lt)

/-- A queue takes what `schedule` takes. -/
theorem Counts.take_eq_schedule (h : q.Counts members waiting [])
    (hwaiting : Waiting members waiting) (fuel : Nat) :
    q.take (Order.followers members) fuel = (schedule (memberAt members) fuel waiting).1 := by
  induction fuel generalizing q waiting with
  | zero => rfl
  | succ fuel ih =>
    rw [take, schedule]
    cases hready : q.ready with
    | nil =>
      have hnone : splitReady (memberAt members) waiting waiting = none := by
        refine splitReady_eq_none.2 fun x hx => waitsFor_ne_zero.1 fun hzero => ?_
        have hmem := h.mem_ready.2 ⟨hx, hzero⟩
        rw [hready] at hmem
        cases hmem
      rw [hnone]
    | cons x ready =>
      obtain ⟨pre, post, rfl, hpre, hx, hrest, hcounts⟩ := h.next hwaiting hready
      rw [splitReady_append (fun y hy => waitsFor_ne_zero.1 (hpre y hy)) (waitsFor_eq_zero.1 hx)]
      exact congrArg (x :: ·) (ih hcounts hrest)

end Queue
end Order
end ObjectMarkup
