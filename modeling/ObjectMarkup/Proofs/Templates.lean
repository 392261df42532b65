/-
Templates: deferred members whose contents are kept, to be carried out as often as they are wanted.

A template loader takes the contents of an assignment if they are one object
(`isSingleObject_contents`), and what it is handed then is what the writer writes for that object
alone (`captures`).  Together with what materializing the stream of a tree does (`Replay`) and
with the objects that runs in a row make (`Instances`), a template stands for its tree: the main
theorem is `templates_replay`.
-/
import ObjectMarkup.Proofs.Instances
import ObjectMarkup.Proofs.Order
import ObjectMarkup.Proofs.Recordings
import ObjectMarkup.Proofs.Renaming

namespace ObjectMarkup

open Instruction (Balanced closes isSingleObject)

variable {σ : Type}

/-- Keeps the instructions of one object, by `add`, and refuses all others. -/
def Loader.keeping (add : List Instruction → σ → ObjectId × σ) : Loader σ := fun m is heap =>
  if isSingleObject is then
    let (id, heap) := add is heap
    .ok (.object id) heap
  else .error (.loadFailed m.qualifiedName "template content must be a single object") heap

theorem Widget.templateLoader_eq :
    Widget.templateLoader = Loader.keeping fun is h => h.add (.template is) := rfl

/-! ## Contents -/

/-- What stands between the start and the end of the member in the stream. -/
def Assignment.contents : Assignment → List Instruction
  | .literal _ s => [.value s]
  | .children _ trees => Tree.instructionsAll trees

/-- The one tree that is assigned, if it is one. -/
def Assignment.only? : Assignment → Option Tree
  | .children _ [c] => some c
  | _ => none

theorem Assignment.instructions_eq (a : Assignment) :
    a.instructions = .startMember a.member :: (a.contents ++ [.endMember]) := by
  cases a <;> rfl

theorem Assignment.contents_balanced (a : Assignment) : Balanced a.contents := by
  cases a with
  | literal m s => exact .singleton rfl
  | children m trees => exact Tree.instructionsAll_balanced trees

mutual

/-- A tree closes as many objects as it opens. -/
theorem Tree.closes_instructions : (t : Tree) → {depth : Nat} → {rest : List Instruction} →
    0 < depth → closes depth (t.instructions ++ rest) = closes depth rest
  | .node type name arguments assignments, depth, rest, hd => by
    rw [Tree.instructions, List.cons_append, List.append_assoc, closes,
      Assignment.closes_instructionsAll assignments (Nat.succ_pos depth), List.singleton_append,
      closes, if_neg (by omega), Nat.succ_sub_one]

theorem Assignment.closes_instructions : (a : Assignment) → {depth : Nat} →
    {rest : List Instruction} → 0 < depth →
      closes depth (a.instructions ++ rest) = closes depth rest
  | .literal m s, depth, rest, hd => rfl
  | .children m trees, depth, rest, hd => by
    rw [Assignment.instructions, List.cons_append, List.append_assoc]
    exact Tree.closes_instructionsAll trees hd

theorem Assignment.closes_instructionsAll : (as : List Assignment) → {depth : Nat} →
    {rest : List Instruction} → 0 < depth →
      closes depth (Assignment.instructionsAll as ++ rest) = closes depth rest
  | [], depth, rest, hd => rfl
  | a :: as, depth, rest, hd => by
    rw [Assignment.instructionsAll, List.append_assoc, Assignment.closes_instructions a hd,
      Assignment.closes_instructionsAll as hd]

theorem Tree.closes_instructionsAll : (ts : List Tree) → {depth : Nat} →
    {rest : List Instruction} → 0 < depth →
      closes depth (Tree.instructionsAll ts ++ rest) = closes depth rest
  | [], depth, rest, hd => rfl
  | t :: ts, depth, rest, hd => by
    rw [Tree.instructionsAll, List.append_assoc, Tree.closes_instructions t hd,
      Tree.closes_instructionsAll ts hd]

end

theorem Tree.isSingleObject_append (t : Tree) (rest : List Instruction) :
    isSingleObject (t.instructions ++ rest) = rest.isEmpty := by
  obtain ⟨type, name, arguments, assignments⟩ := t
  rw [Tree.instructions, List.cons_append, List.append_assoc, isSingleObject,
    Assignment.closes_instructionsAll assignments Nat.one_pos, List.singleton_append, closes,
    if_pos (Nat.le_refl 1)]

/-- The contents are one object just when one tree is assigned. -/
theorem Assignment.isSingleObject_contents (a : Assignment) :
    isSingleObject a.contents = a.only?.isSome := by
  cases a with
  | literal m s => rfl
  | children m trees =>
    rcases trees with - | ⟨c, - | ⟨⟨type, name, arguments, assignments⟩, ds⟩⟩
    · rfl
    · exact c.isSingleObject_append []
    · exact c.isSingleObject_append
        (Tree.instructionsAll (.node type name arguments assignments :: ds))

/-- The one tree of an assignment is still the one when it is sorted, and its stream is what the
writer writes for it. -/
theorem Assignment.only?_sort {a a' : Assignment} (h : a.sort = .ok a') :
    a'.only?.isSome = a.only?.isSome ∧ ∀ c, a.only? = some c → c.write = .ok a'.contents := by
  cases a with
  | literal m s =>
    obtain rfl := Except.ok.inj h
    exact ⟨rfl, fun c hc => (by cases hc)⟩
  | children m trees =>
    simp only [sort, Answer.bind_eq_ok, Answer.pure_eq_ok] at h
    obtain ⟨trees', htrees, rfl⟩ := h
    obtain ⟨hlength, hsorted⟩ := Tree.sortAll_ok htrees
    rcases trees with - | ⟨c, - | ⟨d, ds⟩⟩
    · obtain rfl := List.length_eq_zero_iff.1 hlength
      exact ⟨rfl, fun c hc => (by cases hc)⟩
    · obtain ⟨c', rfl⟩ := List.length_eq_one_iff.1 hlength
      refine ⟨rfl, fun d hd => ?_⟩
      obtain rfl : c = d := Option.some.inj hd
      obtain ⟨t, ht, hsort⟩ := hsorted c' (List.mem_singleton_self c')
      obtain rfl := List.mem_singleton.1 ht
      rw [Tree.write, hsort, contents, Tree.instructionsAll, Tree.instructionsAll, List.append_nil]
      rfl
    · rcases trees' with - | ⟨c', - | ⟨d', ds'⟩⟩
      · cases hlength
      · cases hlength
      · exact ⟨rfl, fun c hc => (by cases hc)⟩

/-! ## The assignments of a stream -/

/-- The assignment is one of the tree, or of a tree in it. -/
inductive Tree.Assigns : Tree → Assignment → Prop
  | own {t : Tree} {a : Assignment} : a ∈ t.assignments → t.Assigns a
  | inner {t c : Tree} {a b : Assignment} :
      a ∈ t.assignments → c ∈ a.trees → c.Assigns b → t.Assigns b

/-- A sorted tree has the assignments of the tree, sorted. -/
theorem Tree.Assigns.of_sort {t' : Tree} {a' : Assignment} (h : t'.Assigns a') :
    ∀ {t : Tree}, t.sort = .ok t' → ∃ a, t.Assigns a ∧ a.sort = .ok a' := by
  induction h with
  | own ha' =>
    intro t ht
    obtain ⟨a, ha, hsort⟩ := (Tree.sort_ok ht).2 _ ha'
    exact ⟨a, .own ha, hsort⟩
  | inner ha' hc' _ ih =>
    intro t ht
    obtain ⟨a, ha, hsort⟩ := (Tree.sort_ok ht).2 _ ha'
    obtain ⟨-, -, -, htrees⟩ := Assignment.sort_ok hsort
    obtain ⟨c, hc, hcsort⟩ := htrees _ hc'
    obtain ⟨b, hb, hbsort⟩ := ih hcsort
    exact ⟨b, .inner ha hc hb, hbsort⟩

/-- Wherever a member starts in the stream, an assignment with `p` is written. -/
def Writes (p : Assignment → Prop) (is : List Instruction) : Prop :=
  ∀ pre m rest, is = pre ++ .startMember m :: rest →
    ∃ a post, p a ∧ a.member = m ∧ rest = a.contents ++ .endMember :: post

namespace Writes

variable {p : Assignment → Prop} {is js : List Instruction}

theorem nil : Writes p [] := fun pre m rest h => by simp at h

theorem cons {i : Instruction} (hi : ∀ m, i ≠ .startMember m) (h : Writes p is) :
    Writes p (i :: is) := by
  intro pre m rest heq
  cases pre with
  | nil => exact absurd (List.cons.inj heq).1 (hi m)
  | cons j pre => exact h pre m rest (List.cons.inj heq).2

theorem append (hi : Writes p is) (hj : Writes p js) : Writes p (is ++ js) := by
  intro pre m rest heq
  rcases List.append_eq_append_iff.1 heq with ⟨pre', -, hjs⟩ | ⟨suffix, his, hsuffix⟩
  · exact hj pre' m rest hjs
  · cases suffix with
    | nil => exact hj [] m rest (by simpa using hsuffix.symm)
    | cons i suffix =>
      obtain ⟨rfl, rfl⟩ := List.cons.inj hsuffix
      obtain ⟨a, post, ha, hm, rfl⟩ := hi pre m suffix his
      exact ⟨a, post ++ js, ha, hm, by simp⟩

theorem assignment {a : Assignment} (ha : p a) (h : Writes p a.contents) :
    Writes p a.instructions := by
  intro pre m rest heq
  rw [Assignment.instructions_eq] at heq
  cases pre with
  | nil =>
    obtain ⟨hm, rfl⟩ := List.cons.inj heq
    exact ⟨a, [], ha, Instruction.startMember.inj hm, rfl⟩
  | cons i pre => exact h.append (cons (i := .endMember) nofun nil) pre m rest (List.cons.inj heq).2

end Writes

mutual

theorem Tree.instructions_writes : (t : Tree) → {p : Assignment → Prop} →
    (∀ a, t.Assigns a → p a) → Writes p t.instructions
  | .node _ _ _ assignments, _, h =>
    .cons nofun (.append (Assignment.instructionsAll_writes assignments
      (fun _ ha => h _ (.own ha)) fun _ ha _ hc _ hb => h _ (.inner ha hc hb)) (.cons nofun .nil))

theorem Assignment.instructions_writes : (a : Assignment) → {p : Assignment → Prop} → p a →
    (∀ c ∈ a.trees, ∀ b, c.Assigns b → p b) → Writes p a.instructions
  | .literal _ _, _, ha, _ => .assignment ha (.cons nofun .nil)
  | .children _ trees, _, ha, h => .assignment ha (Tree.instructionsAll_writes trees h)

theorem Assignment.instructionsAll_writes : (as : List Assignment) → {p : Assignment → Prop} →
    (∀ a ∈ as, p a) → (∀ a ∈ as, ∀ c ∈ a.trees, ∀ b, c.Assigns b → p b) →
      Writes p (Assignment.instructionsAll as)
  | [], _, _, _ => .nil
  | a :: as, _, hself, h =>
    .append (Assignment.instructions_writes a (hself a List.mem_cons_self) (h a List.mem_cons_self))
      (Assignment.instructionsAll_writes as (fun b hb => hself b (List.mem_cons_of_mem a hb))
        fun b hb => h b (List.mem_cons_of_mem a hb))

theorem Tree.instructionsAll_writes : (ts : List Tree) → {p : Assignment → Prop} →
    (∀ c ∈ ts, ∀ b, c.Assigns b → p b) → Writes p (Tree.instructionsAll ts)
  | [], _, _ => .nil
  | t :: ts, _, h =>
    .append (Tree.instructions_writes t (h t List.mem_cons_self))
      (Tree.instructionsAll_writes ts fun c hc => h c (List.mem_cons_of_mem t hc))

end

/-- A member that starts in the stream of a tree is that of an assignment of the tree, and what
follows is the stream of its contents. -/
theorem Tree.write_start {t : Tree} {stream pre rest : List Instruction} {m : Member}
    (hwrite : t.write = .ok stream) (hstart : stream = pre ++ .startMember m :: rest) :
    ∃ a a' post, t.Assigns a ∧ a.sort = .ok a' ∧ a.member = m ∧
      rest = a'.contents ++ .endMember :: post := by
  rw [Tree.write] at hwrite
  obtain ⟨t', hsort, rfl⟩ := Answer.map_eq_ok.1 hwrite
  obtain ⟨a', post, ha', hm, hrest⟩ :=
    Tree.instructions_writes t' (fun _ h => h) pre m rest hstart
  obtain ⟨a, ha, hasort⟩ := ha'.of_sort hsort
  exact ⟨a, a', post, ha, hasort, (Assignment.sort_ok hasort).1 ▸ hm, hrest⟩

namespace Services

open Machine (blank)

/-! ## What a template captures -/

/-- From `m₁`, where the assignment `a` has started, `body` is taken in and handed over.  It is
kept if it is one tree, which would be written so, and else it is refused. -/
structure Captures (services : Services σ) (add : List Instruction → σ → ObjectId × σ)
    (m₁ : Machine σ) (a : Assignment) (body : List Instruction) : Prop where
  takes : ∃ m₂ site, services.Takes m₁ m₂ a.member (Loader.keeping add) body ∧
    services.HandsOver m₁ m₂ site a.member (Loader.keeping add) body
  keeps : ∀ c, a.only? = some c → c.write = .ok body ∧ ∀ heap,
    Loader.keeping add a.member body heap = .ok (.object (add body heap).1) (add body heap).2
  refuses : a.only? = none → ∀ heap, Loader.keeping add a.member body heap =
    .error (.loadFailed a.member.qualifiedName "template content must be a single object") heap

variable {services : Services σ} {add : List Instruction → σ → ObjectId × σ}

theorem captures {a a' : Assignment} (hsort : a.sort = .ok a') {m₁ : Machine σ}
    (hm : m₁.Sound services.settings.maxDepth)
    (hr : m₁.recording = some { member := a.member, loader := Loader.keeping add }) :
    services.Captures add m₁ a a'.contents := by
  have hdepth := depthThrough_balanced a'.contents_balanced Nat.one_pos
  obtain ⟨hsome, hwrite⟩ := Assignment.only?_sort hsort
  obtain ⟨site, hhands⟩ := handsOver_of_taken hm hr hdepth
  refine ⟨⟨_, site, takes_of_depthThrough hr hdepth, hhands⟩, fun c hc => ⟨hwrite c hc, ?_⟩, ?_⟩
  · intro heap
    rw [Loader.keeping, if_pos (by rw [Assignment.isSingleObject_contents, hsome, hc]; rfl)]
  · intro hnone heap
    rw [Loader.keeping, if_neg (by rw [Assignment.isSingleObject_contents, hsome, hnone]; simp)]

/-- Where the contents are refused the construction fails. -/
theorem Captures.fails {m₁ : Machine σ} {a : Assignment} {body : List Instruction}
    (h : services.Captures add m₁ a body) (hnone : a.only? = none) (post : List Instruction) :
    ∃ m₃, services.steps (body ++ .endMember :: post) m₁ = .error (.deferred (.loadFailed
      a.member.qualifiedName "template content must be a single object")) m₃ ∧
        m₃.world = m₁.world := by
  obtain ⟨m₂, site, htakes, hhands⟩ := h.takes
  have hstep := hhands.step
  simp only [Build.onHeap, h.refuses hnone] at hstep
  rw [services.steps_append_of_ok (htakes.steps services), steps_cons, hstep]
  exact ⟨_, rfl, rfl⟩

variable (services)

/-- A template that is carried out does what the build of its tree does.

An assignment with a template loader is kept if it is one tree, and what is kept is what the writer
writes for that tree; any other assignment fails.  What is kept is materialized to what the tree is
built to in a context of its own, as far as extensions do without the indices of scopes: from one
heap to the same objects, and from heaps that hold the same objects under different identities to
objects that are paired.  What is materialized again is made anew. -/
theorem templates_replay :
    (∀ (t : Tree) stream, t.write = .ok stream → ∀ root base w add pre m rest mach m₁,
      stream = pre ++ .startMember m :: rest →
      services.loaders.find? m = some (Loader.keeping add) →
      services.steps pre (blank w root base) = .ok () mach → mach.recording = none →
      services.step (.startMember m) mach = .ok () m₁ →
      ∃ a body post, t.Assigns a ∧ a.member = m ∧ rest = body ++ .endMember :: post ∧
        services.Captures add m₁ a body ∧
        (a.only? = none → services.run stream root base w = .error (.deferred (.loadFailed
          m.qualifiedName "template content must be a single object")) m₁.world)) ∧
    (∀ (c : Tree) body, c.write = .ok body →
      (∀ fine heap, services.CallsLeave (Keeps fine) → services.IndexBlind fine → fine heap →
        (Likeness.same fine).Replays () (services.build c none { heap })
          (services.materialize body { heap })) ∧
      ∀ (ι : Type) (H : Likeness ι σ) i heap heap', services.Respects H → H.states i heap heap' →
        H.Replays i (services.build c none { heap }) (services.materialize body { heap := heap' })) ∧
    ∀ there, services.CallsLeave (Stays there) → services.MakesNew there → ∀ streams w,
      (services.madeAll streams w).Nodup ∧ (∀ x ∈ services.madeAll streams w, ¬ there w.heap x) ∧
      ∀ stream id w', services.materialize stream w = .ok id w' → id ∈ services.made stream w := by
  refine ⟨?_, fun c body hwrite => ⟨?_, ?_⟩, ?_⟩
  · intro t stream hwrite root base w add pre m rest mach m₁ hstart hfind hpre hr hstep
    obtain ⟨a, a', post, ha, hsort, rfl, hrest⟩ := Tree.write_start hwrite hstart
    have hm := steps_sound (.blank w root base) hpre
    have hcaptures := captures hsort ((step_does hm hstep).sound hm)
      (recording_of_start hm hr hfind hstep)
    refine ⟨a, a'.contents, post, ha, rfl, hrest, hcaptures, fun hnone => ?_⟩
    obtain ⟨m₃, hfails, hworld⟩ := hcaptures.fails hnone post
    have hsteps : services.steps stream (blank w root base) = .error (.deferred (.loadFailed
        a.member.qualifiedName "template content must be a single object")) m₃ := by
      rw [hstart, services.steps_append_of_ok hpre, steps_cons, hstep, hrest]
      exact hfails
    rw [run_eq_steps, hsteps, ← hworld]
  · intro fine heap hS hblind hfine
    exact (respects_same hS hblind).materialize_replays ⟨rfl, hfine⟩ hwrite
  · intro ι H i heap heap' hs hheap
    exact hs.materialize_replays hheap hwrite
  · intro there hS hnew streams w
    obtain ⟨hnodup, habsent⟩ := madeAll_nodup hS hnew streams w
    exact ⟨hnodup, habsent, fun stream id w' h =>
      (materialize_makes hS hnew stream w).2.2.2 id w' h⟩

end Services

/-! ## Widgets -/

namespace Widget

def note : Tree := .node "TextBlock" (some "Note") [] []

def noteTemplate : Tree := .node "DataTemplate" none [] [.children templateContent [note]]

/-- A template whose content is no object. -/
def literalTemplate : Tree := .node "DataTemplate" none [] [.literal templateContent "Note"]

/-- A window that holds a template. -/
def card : Tree := .node "Window" (some "Card") [] [.children (contentMember "Window") [noteTemplate]]

theorem noteTemplate_assigns {a : Assignment} (h : noteTemplate.Assigns a) :
    a = .children templateContent [note] := by
  cases h with
  | own ha => exact List.mem_singleton.1 ha
  | inner ha hc hb =>
    obtain rfl := List.mem_singleton.1 ha
    obtain rfl := List.mem_singleton.1 hc
    cases hb with
    | own hb => cases hb
    | inner hb _ _ => cases hb

theorem literalTemplate_assigns {a : Assignment} (h : literalTemplate.Assigns a) :
    a = .literal templateContent "Note" := by
  cases h with
  | own ha => exact List.mem_singleton.1 ha
  | inner ha hc _ =>
    obtain rfl := List.mem_singleton.1 ha
    cases hc

end Widget

namespace Services

open Machine (blank)
open Widget (card note noteTemplate literalTemplate templateContent templated)

/-- A template is started and its content is recorded. -/
theorem template_starts : ∃ m m₁,
    (templated {}).steps [.startObject { type := "DataTemplate" }] (blank { heap := {} } none none) =
        .ok () m ∧ m.recording = none ∧
      (templated {}).step (.startMember templateContent) m = .ok () m₁ := by
  have hok : (match (templated {}).steps [.startObject { type := "DataTemplate" }]
      (blank { heap := {} } none none) with
    | .ok _ m => m.recording.isNone && (match (templated {}).step (.startMember templateContent) m with
      | .ok _ _ => true
      | .error _ _ => false)
    | .error _ _ => false) = true := by decide +kernel
  split at hok
  · next m hpre =>
    rw [Bool.and_eq_true] at hok
    obtain ⟨hidle, hstart⟩ := hok
    split at hstart
    · next m₁ hstep => exact ⟨m, m₁, hpre, Option.isNone_iff_eq_none.1 hidle, hstep⟩
    · cases hstart
  · cases hok

/-- A note is kept and a literal is not; the card that holds the note is materialized to what is
built, in the same heap and in one that has two widgets more, and a second time to other objects. -/
theorem templates_replay_card :
    (∃ m₁, (templated {}).Captures (fun is h => h.add (.template is)) m₁
      (.children templateContent [note]) note.instructions) ∧
    (∃ w, (templated {}).run literalTemplate.instructions none none { heap := {} } =
      .error (.deferred (.loadFailed "DataTemplate.Content"
        "template content must be a single object")) w) ∧
    (∃ id w, (templated {}).build card none { heap := {} } = .ok id w) ∧
    (Likeness.same Heap.Unscripted).Replays () ((templated {}).build card none { heap := {} })
      ((templated {}).materialize card.instructions { heap := {} }) ∧
    (Heap.moving 2).Replays () ((templated {}).build card none { heap := {} })
      ((templated {}).materialize card.instructions
        { heap := ⟨#[some (.window {}), some (.grid {})]⟩ }) ∧
    ((templated {}).madeAll [card.instructions, card.instructions] { heap := {} }).Nodup ∧
    (templated {}).madeAll [card.instructions, card.instructions] { heap := {} } =
      [⟨0⟩, ⟨1⟩, ⟨3⟩, ⟨4⟩] := by
  obtain ⟨hcaptures, hreplays, hmade⟩ := (templated {}).templates_replay
  have hfind : (templated {}).loaders.find? templateContent =
      some (Loader.keeping fun is h => h.add (.template is)) := congrArg some Widget.templateLoader_eq
  obtain ⟨m, m₁, hpre, hr, hstep⟩ := template_starts
  obtain ⟨hsame, hmoved⟩ := hreplays card card.instructions rfl
  obtain ⟨hnodup, -, -⟩ := hmade Heap.Has (Widget.templated_stays {}) (Widget.templated_makesNew {})
    [card.instructions, card.instructions] { heap := {} }
  refine ⟨⟨m₁, ?_⟩, ⟨m₁.world, ?_⟩, ?_, ?_, ?_, hnodup, ?_⟩
  · obtain ⟨a, body, post, ha, -, -, hcaptured, -⟩ := hcaptures noteTemplate _ rfl none none
      { heap := {} } _ _ _ _ m m₁ rfl hfind hpre hr hstep
    obtain rfl := Widget.noteTemplate_assigns ha
    obtain rfl : note.instructions = body := Except.ok.inj (hcaptured.keeps note rfl).1
    exact hcaptured
  · obtain ⟨a, body, post, ha, -, -, -, hfails⟩ := hcaptures literalTemplate _ rfl none none
      { heap := {} } _ _ _ _ m m₁ rfl hfind hpre hr hstep
    obtain rfl := Widget.literalTemplate_assigns ha
    exact hfails rfl
  · have hok : (match (templated {}).build card none { heap := {} } with
      | .ok _ _ => true
      | .error _ _ => false) = true := by decide +kernel
    split at hok
    · next id w hbuild => exact ⟨id, w, hbuild⟩
    · cases hok
  · exact hsame Heap.Unscripted {} (Widget.templated_unscripted {}) (Widget.templated_indexBlind {})
      fun id w h => by simp [Heap.find?] at h
  · refine hmoved Unit (Heap.moving 2) () {} _ (Heap.respects_moved {}) ?_
    exact {
      size := rfl
      find := fun id => by simp [Heap.find?, ObjectId.moved]
      unscripted := fun id w h => by simp [Heap.find?] at h }
  · decide +kernel

end Services
end ObjectMarkup
