/-
What the scopes of names answer.

They are asked to make a scope, for the scope of the document, to put an object into a scope and to
register a name, in any order.  What was asked and answered so far (`Transcript`) decides all that
they answer: a name means the object of its one registration, an object sees the last scope that
was made for it and else the one it entered last (`answered_explains`).  One call after the other
keeps the tables and the transcript together (`Transcript.Records`).
-/
import Mathlib.Data.List.Induction
import Mathlib.Data.List.Nodup
import ObjectMarkup.Proofs.Namescopes

namespace ObjectMarkup

namespace Namescopes

theorem documentScope_of_some {ns : Namescopes} {s : ScopeId} (h : ns.document = some s) :
    ns.documentScope = (s, ns) := by
  rw [documentScope, h]

theorem documentScope_of_none {ns : Namescopes} (h : ns.document = none) :
    ns.documentScope = ((ns.create none none).1,
      { (ns.create none none).2 with document := some (ns.create none none).1 }) := by
  rw [documentScope, h]

theorem length_create (ns : Namescopes) (owner : Option ObjectId) (parent : Option ScopeId) :
    (ns.create owner parent).2.scopes.length = ns.scopes.length + 1 := by
  simp [create]

theorem names_create (ns : Namescopes) (owner : Option ObjectId) (parent : Option ScopeId)
    (s : ScopeId) : (ns.create owner parent).2.names s = ns.names s := by
  rw [names_eq, entries_create, ← names_eq]

theorem lt_of_mem_names {ns : Namescopes} {s : ScopeId} {name : String} (h : name ∈ ns.names s) :
    s.index < ns.scopes.length := by
  rw [names] at h
  split at h
  · next hscope => exact (List.getElem?_eq_some_iff.1 hscope).1
  · cases h

/-- Where no name is there twice, a name means what it was registered for. -/
theorem findIn_eq_some_iff {ns : Namescopes} {s : ScopeId} {name : String} {x : ObjectId}
    (h : (ns.names s).Nodup) : ns.findIn s name = some x ↔ (name, x) ∈ ns.entries s := by
  refine ⟨mem_entries, fun hmem => ?_⟩
  have hname : name ∈ ns.names s := names_eq ns s ▸ List.mem_map_of_mem hmem
  cases hfind : ns.findIn s name with
  | none => exact absurd hname (findIn_eq_none.1 hfind)
  | some y =>
    rw [names_eq] at h
    have heq := List.inj_on_of_nodup_map h (mem_entries hfind) hmem rfl
    rw [(Prod.mk.inj heq).2]

end Namescopes

/-- What the scopes of names are asked. -/
inductive ScopeCall where
  | create (owner : Option ObjectId) (parent : Option ScopeId)
  | document
  | enter (id : ObjectId) (scope : ScopeId)
  | register (scope : ScopeId) (name : String) (id : ObjectId)

inductive ScopeAnswer where
  | scope (s : ScopeId)
  | done
  | refused (e : NamescopeError)

/-- The scopes after a call, and what they answer. -/
def Namescopes.perform (ns : Namescopes) : ScopeCall → ScopeAnswer × Namescopes
  | .create owner parent => (.scope (ns.create owner parent).1, (ns.create owner parent).2)
  | .document => (.scope ns.documentScope.1, ns.documentScope.2)
  | .enter id s => (.done, ns.enter id s)
  | .register s name id =>
    match ns.register s name id with
    | .ok ns => (.done, ns)
    | .error e => (.refused e, ns)

namespace ScopeCall

/-- The scope that a call made on its own. -/
def made : ScopeCall × ScopeAnswer → Option ScopeId
  | (.create _ _, .scope s) => some s
  | _ => none

/-- The name that a call registered in the scope `s`, with its object. -/
def named (s : ScopeId) : ScopeCall × ScopeAnswer → Option (String × ObjectId)
  | (.register u name x, .done) => if u = s then some (name, x) else none
  | _ => none

/-- The scope that a call made for the object `x`. -/
def owned (x : ObjectId) : ScopeCall × ScopeAnswer → Option ScopeId
  | (.create (some owner) _, .scope s) => if owner = x then some s else none
  | _ => none

/-- The scope that a call put the object `x` into. -/
def entered (x : ObjectId) : ScopeCall × ScopeAnswer → Option ScopeId
  | (.enter id s, _) => if id = x then some s else none
  | _ => none

end ScopeCall

theorem Namescopes.perform_register (ns : Namescopes) (s : ScopeId) (name : String) (x : ObjectId) :
    (ns.perform (.register s name x)).1 =
      if s.index < ns.scopes.length then
        if name ∈ ns.names s then .refused (.duplicateName name) else .done
      else .refused (.unknownScope s.index) := by
  have hnames := (@findIn_eq_none ns s name).not
  rw [Decidable.not_not] at hnames
  simp only [← hnames, findIn, perform, register]
  by_cases hs : s.index < ns.scopes.length
  · rw [List.getElem?_eq_getElem hs, if_pos hs, Option.bind_some]
    cases hfind : ns.scopes[s.index].find? name <;> simp [hfind]
  · rw [List.getElem?_eq_none (Nat.le_of_not_lt hs), if_neg hs]

theorem Namescopes.perform_refused {ns : Namescopes} {call : ScopeCall} {e : NamescopeError}
    (h : (ns.perform call).1 = .refused e) : (ns.perform call).2 = ns := by
  cases call with
  | register s name x =>
    rw [perform] at h ⊢
    cases hregister : ns.register s name x with
    | ok ns' => rw [hregister] at h; cases h
    | error e => rfl
  | _ => cases h

/-- The calls so far, with their answers. -/
abbrev Transcript := List (ScopeCall × ScopeAnswer)

namespace Transcript

variable {log : Transcript} {ns ns' : Namescopes} {s : ScopeId} {x : ObjectId} {name : String}
  {entry : ScopeCall × ScopeAnswer}

/-! ## What was said -/

/-- The scope was the answer to a call. -/
def Gave (log : Transcript) (s : ScopeId) : Prop :=
  ∃ call, (call, .scope s) ∈ log

/-- The scopes that were made on their own, not for the document. -/
def created (log : Transcript) : List ScopeId :=
  log.filterMap ScopeCall.made

/-- The names that were registered in a scope, with their objects. -/
def registered (log : Transcript) (s : ScopeId) : List (String × ObjectId) :=
  log.filterMap (ScopeCall.named s)

/-- The last scope that was made for an object. -/
def lastOwned (log : Transcript) (x : ObjectId) : Option ScopeId :=
  (log.filterMap (ScopeCall.owned x)).getLast?

/-- The scope that an object was put into last. -/
def lastEntered (log : Transcript) (x : ObjectId) : Option ScopeId :=
  (log.filterMap (ScopeCall.entered x)).getLast?

theorem gave_concat : Gave (log ++ [entry]) s ↔ log.Gave s ∨ entry.2 = .scope s := by
  constructor
  · rintro ⟨call, hmem⟩
    rcases List.mem_append.1 hmem with hmem | hmem
    · exact .inl ⟨call, hmem⟩
    · exact .inr (by rw [← List.mem_singleton.1 hmem])
  · rintro (⟨call, hmem⟩ | h)
    · exact ⟨call, List.mem_append_left _ hmem⟩
    · exact ⟨entry.1, List.mem_append_right _ (by rw [← h]; exact List.mem_singleton_self entry)⟩

theorem filterMap_concat {α β : Type} (f : α → Option β) (as : List α) (a : α) :
    (as ++ [a]).filterMap f = as.filterMap f ++ (f a).toList := by
  rw [List.filterMap_append, List.filterMap_cons]
  cases f a <;> rfl

theorem created_concat : created (log ++ [entry]) = log.created ++ (ScopeCall.made entry).toList :=
  filterMap_concat ScopeCall.made log entry

theorem created_same (h : ScopeCall.made entry = none) :
    created (log ++ [entry]) = log.created := by
  rw [created_concat, h, Option.toList_none, List.append_nil]

theorem registered_concat :
    registered (log ++ [entry]) s = log.registered s ++ (ScopeCall.named s entry).toList :=
  filterMap_concat (ScopeCall.named s) log entry

theorem registered_same (h : ScopeCall.named s entry = none) :
    registered (log ++ [entry]) s = log.registered s := by
  rw [registered_concat, h, Option.toList_none, List.append_nil]

theorem getLast?_toList {α : Type} (o : Option α) : o.toList.getLast? = o := by
  cases o <;> rfl

theorem lastOwned_concat :
    lastOwned (log ++ [entry]) x = (ScopeCall.owned x entry).or (log.lastOwned x) := by
  rw [lastOwned, filterMap_concat, List.getLast?_append, getLast?_toList, lastOwned]

theorem lastOwned_same (h : ScopeCall.owned x entry = none) :
    lastOwned (log ++ [entry]) x = log.lastOwned x := by
  rw [lastOwned_concat, h, Option.none_or]

theorem lastEntered_concat :
    lastEntered (log ++ [entry]) x = (ScopeCall.entered x entry).or (log.lastEntered x) := by
  rw [lastEntered, filterMap_concat, List.getLast?_append, getLast?_toList, lastEntered]

theorem lastEntered_same (h : ScopeCall.entered x entry = none) :
    lastEntered (log ++ [entry]) x = log.lastEntered x := by
  rw [lastEntered_concat, h, Option.none_or]

theorem gave_of_mem_created (h : s ∈ log.created) : log.Gave s := by
  obtain ⟨⟨call, answer⟩, hmem, h⟩ := List.mem_filterMap.1 h
  cases call <;> cases answer <;> simp only [ScopeCall.made, Option.some.injEq, reduceCtorEq] at h
  exact ⟨_, h ▸ hmem⟩

theorem mem_registered : (name, x) ∈ log.registered s ↔ (.register s name x, .done) ∈ log := by
  rw [registered, List.mem_filterMap]
  constructor
  · rintro ⟨⟨call, answer⟩, hmem, h⟩
    cases call <;> cases answer <;> simp only [ScopeCall.named, reduceCtorEq] at h
    split at h
    · next hs =>
      obtain ⟨rfl, rfl⟩ := Prod.mk.inj (Option.some.inj h)
      exact hs ▸ hmem
    · cases h
  · exact fun hmem => ⟨_, hmem, if_pos rfl⟩

/-! ## The tables and the transcript -/

/-- The tables hold what the transcript says. -/
structure Records (log : Transcript) (ns : Namescopes) : Prop where
  gave : ∀ s, s.index < ns.scopes.length ↔ log.Gave s
  made : ∀ {owner parent s}, (.create owner parent, .scope s) ∈ log →
    ns.ownerOf s = owner ∧ ns.parentOf s = parent
  created : log.created.Nodup
  document : ∀ s, ns.document = some s ↔ (.document, .scope s) ∈ log
  apart : ∀ s ∈ log.created, ns.document ≠ some s
  entries : ∀ s, ns.entries s = log.registered s
  names : ∀ s, (ns.names s).Nodup
  owned : ∀ x, Namescopes.latest ns.owned x = log.lastOwned x
  entered : ∀ x, log.lastOwned x = none → Namescopes.latest ns.entered x = log.lastEntered x

theorem records_nil : Records [] {} where
  gave s := by simp [Gave]
  made h := absurd h List.not_mem_nil
  created := List.nodup_nil
  document s := by simp
  apart s h := absurd h List.not_mem_nil
  entries s := rfl
  names s := List.nodup_nil
  owned x := rfl
  entered x _ := rfl

namespace Records

/-- A scope that is made now was not given before. -/
theorem not_gave (h : log.Records ns) : ¬ log.Gave ⟨ns.scopes.length⟩ := by
  rw [← h.gave]
  exact Nat.lt_irrefl _

theorem gave_new (h : log.Records ns) (call : ScopeCall) :
    s.index < ns.scopes.length + 1 ↔ Gave (log ++ [(call, .scope ⟨ns.scopes.length⟩)]) s := by
  rw [gave_concat, ← h.gave, Nat.lt_succ_iff_lt_or_eq]
  refine or_congr_right ⟨fun hs => ?_, fun hs => ?_⟩
  · rw [← hs]
  · rw [← ScopeAnswer.scope.inj hs]

/-- Growing scopes keep what they were made with. -/
theorem made_of_grows {keep : ObjectId → Prop} {added : List Registration} (h : log.Records ns)
    (hgrows : ns.Grows keep added ns') {owner : Option ObjectId} {parent : Option ScopeId}
    (hmem : (.create owner parent, .scope s) ∈ log) :
    ns'.ownerOf s = owner ∧ ns'.parentOf s = parent := by
  have hs := (h.gave s).2 ⟨_, hmem⟩
  rw [hgrows.ownerOf s hs, hgrows.parentOf s hs]
  exact h.made hmem

theorem create (h : log.Records ns) (owner : Option ObjectId) (parent : Option ScopeId) :
    Records (log ++ [(.create owner parent, .scope (ns.create owner parent).1)])
      (ns.create owner parent).2 where
  gave s := by
    rw [Namescopes.length_create]
    exact h.gave_new (.create owner parent)
  made hmem := by
    rcases List.mem_append.1 hmem with hmem | hmem
    · exact h.made_of_grows (Namescopes.create_grows owner parent) hmem
    · cases List.mem_singleton.1 hmem
      exact ⟨Namescopes.ownerOf_create owner parent, Namescopes.parentOf_create owner parent⟩
  created := by
    rw [created_concat]
    refine List.nodup_append.2 ⟨h.created, List.pairwise_singleton _ _, fun s hs u hu => ?_⟩
    rintro rfl
    cases List.mem_singleton.1 hu
    exact h.not_gave (gave_of_mem_created hs)
  document s := by
    rw [List.mem_append, ← h.document]
    simp [Namescopes.create]
  apart s hs := by
    rw [created_concat] at hs
    rcases List.mem_append.1 hs with hs | hs
    · exact h.apart s hs
    · intro hdocument
      cases List.mem_singleton.1 hs
      exact h.not_gave ⟨_, (h.document _).1 hdocument⟩
  entries s := by
    rw [Namescopes.entries_create, h.entries, registered_same rfl]
  names s := by
    rw [Namescopes.names_create]
    exact h.names s
  owned x := by
    rw [lastOwned_concat, ← h.owned]
    cases owner with
    | none => rfl
    | some id =>
      show Namescopes.latest ((id, _) :: ns.owned) x = _
      rw [Namescopes.latest_cons, ScopeCall.owned]
      split <;> rfl
  entered x hx := by
    rw [lastOwned_concat, Option.or_eq_none_iff] at hx
    rw [lastEntered_same rfl]
    exact h.entered x hx.2

/-- A call that tells nothing new. -/
theorem unchanged (h : log.Records ns) (hmade : ScopeCall.made entry = none)
    (hnamed : ∀ s, ScopeCall.named s entry = none) (howned : ∀ x, ScopeCall.owned x entry = none)
    (hentered : ∀ x, ScopeCall.entered x entry = none)
    (hgave : ∀ s, entry.2 = .scope s → ns.document = some s ∧ entry.1 = .document) :
    Records (log ++ [entry]) ns where
  gave s := by
    rw [gave_concat, h.gave]
    refine (or_iff_left_of_imp fun hs => ?_).symm
    exact ⟨_, (h.document s).1 (hgave s hs).1⟩
  made hmem := by
    refine h.made ((List.mem_append.1 hmem).resolve_right fun hmem => ?_)
    rw [← List.mem_singleton.1 hmem] at hmade
    cases hmade
  created := by
    rw [created_same hmade]
    exact h.created
  document s := by
    rw [List.mem_append, ← h.document]
    refine (or_iff_left_of_imp fun hmem => ?_).symm
    exact (hgave s (by rw [← List.mem_singleton.1 hmem])).1
  apart s hs := by
    rw [created_same hmade] at hs
    exact h.apart s hs
  entries s := by rw [h.entries, registered_same (hnamed s)]
  names := h.names
  owned x := by rw [h.owned, lastOwned_same (howned x)]
  entered x hx := by
    rw [lastOwned_same (howned x)] at hx
    rw [h.entered x hx, lastEntered_same (hentered x)]

theorem documentScope (h : log.Records ns) :
    Records (log ++ [(.document, .scope ns.documentScope.1)]) ns.documentScope.2 := by
  cases hdocument : ns.document with
  | some u =>
    rw [Namescopes.documentScope_of_some hdocument]
    refine h.unchanged rfl (fun _ => rfl) (fun _ => rfl) (fun _ => rfl) fun s hs => ?_
    rw [← ScopeAnswer.scope.inj hs]
    exact ⟨hdocument, rfl⟩
  | none =>
    rw [Namescopes.documentScope_of_none hdocument]
    have hnone : ∀ s, (.document, .scope s) ∉ log := fun s hs => by
      simpa [hdocument] using (h.document s).2 hs
    have hcreate := @Namescopes.create_grows ns none none
    exact {
      gave := fun s => by
        rw [Namescopes.length_create]
        exact h.gave_new .document
      made := fun hmem =>
        h.made_of_grows hcreate ((List.mem_append.1 hmem).resolve_right (by simp))
      created := by
        rw [created_same rfl]
        exact h.created
      document := fun s => by simp [hnone, eq_comm]
      apart := fun s hs hsome => by
        rw [created_same rfl, ← Option.some.inj hsome] at hs
        exact h.not_gave (gave_of_mem_created hs)
      entries := fun s => by
        rw [registered_same rfl, ← h.entries]
        exact Namescopes.entries_create none none s
      names := fun s => by
        change ((ns.create none none).2.names s).Nodup
        rw [Namescopes.names_create]
        exact h.names s
      owned := fun x => by
        rw [lastOwned_same rfl, ← h.owned]
        rfl
      entered := fun x hx => by
        rw [lastOwned_same rfl] at hx
        rw [lastEntered_same rfl, ← h.entered x hx]
        rfl }

theorem enter (h : log.Records ns) (x : ObjectId) (s : ScopeId) :
    Records (log ++ [(.enter x s, .done)]) (ns.enter x s) where
  gave u := by rw [Namescopes.enter_scopes, h.gave, gave_concat]; simp
  made hmem :=
    h.made_of_grows (Namescopes.enter_grows ns x s)
      ((List.mem_append.1 hmem).resolve_right (by simp))
  created := by
    rw [created_same rfl]
    exact h.created
  document u := by rw [Namescopes.enter_document, h.document]; simp
  apart u hu := by
    rw [created_same rfl] at hu
    rw [Namescopes.enter_document]
    exact h.apart u hu
  entries u := by
    rw [(Namescopes.enter_grows ns x s).entries, h.entries, registered_same rfl]
    exact List.append_nil _
  names u := by
    rw [Namescopes.names, Namescopes.enter_scopes]
    exact h.names u
  owned y := by
    rw [lastOwned_same rfl, ← h.owned, Namescopes.enter]
    split <;> rfl
  entered y hy := by
    rw [lastOwned_same rfl] at hy
    rw [lastEntered_concat, ← h.entered y hy, Namescopes.enter, ScopeCall.entered]
    split
    · next hsome =>
      have hne : x ≠ y := by
        rintro rfl
        rw [h.owned, hy] at hsome
        cases hsome
      rw [if_neg hne, Option.none_or]
    · rw [Namescopes.latest_cons]
      split <;> rfl

theorem register (h : log.Records ns) (hregister : ns.register s name x = .ok ns') :
    Records (log ++ [(.register s name x, .done)]) ns' := by
  have hgrows := Namescopes.register_grows hregister
  obtain ⟨hname, howned, hentered, hdocument, scope, -, hscopes⟩ := Namescopes.register_ok hregister
  have hentries : ∀ u, ns'.entries u =
      ns.entries u ++ (ScopeCall.named u (.register s name x, .done)).toList := by
    intro u
    rw [hgrows.entries, ScopeCall.named]
    by_cases hu : s = u <;> simp [Registration.entriesIn, Registration.entry, hu]
  exact {
    gave := fun u => by
      rw [gave_concat, ← h.gave, hscopes, List.length_set]
      simp
    made := fun hmem =>
      h.made_of_grows hgrows ((List.mem_append.1 hmem).resolve_right (by simp))
    created := by
      rw [created_same rfl]
      exact h.created
    document := fun u => by
      rw [hdocument, h.document]
      simp
    apart := fun u hu => by
      rw [created_same rfl] at hu
      rw [hdocument]
      exact h.apart u hu
    entries := fun u => by rw [hentries, h.entries, registered_concat]
    names := fun u => by
      rw [Namescopes.names_eq, hentries, List.map_append, ← Namescopes.names_eq, ScopeCall.named]
      by_cases hu : s = u
      · subst hu
        rw [if_pos rfl]
        refine List.nodup_append.2 ⟨h.names s, List.pairwise_singleton _ _, fun a ha b hb => ?_⟩
        rintro rfl
        have hab : a = name := List.mem_singleton.1 hb
        exact hname (hab ▸ ha)
      · rw [if_neg hu]
        exact (List.append_nil (ns.names u)).symm ▸ h.names u
    owned := fun y => by rw [howned, h.owned, lastOwned_same rfl]
    entered := fun y hy => by
      rw [lastOwned_same rfl] at hy
      rw [hentered, h.entered y hy, lastEntered_same rfl] }

/-- What one call answers is put down. -/
theorem perform (h : log.Records ns) (call : ScopeCall) :
    Records (log ++ [(call, (ns.perform call).1)]) (ns.perform call).2 := by
  cases call with
  | create owner parent => exact h.create owner parent
  | document => exact h.documentScope
  | enter x s => exact h.enter x s
  | register s name x =>
    rw [Namescopes.perform]
    cases hregister : ns.register s name x with
    | ok ns' => exact h.register hregister
    | error e =>
      exact h.unchanged rfl (fun _ => rfl) (fun _ => rfl) (fun _ => rfl) fun s hs => nomatch hs

end Records

/-! ## All calls -/

/-- The transcript of calls on new scopes, and the scopes after them. -/
def answered (calls : List ScopeCall) : Transcript × Namescopes :=
  calls.foldl
    (fun before call =>
      (before.1 ++ [(call, (before.2.perform call).1)], (before.2.perform call).2)) ([], {})

theorem records_answered (calls : List ScopeCall) :
    Records (answered calls).1 (answered calls).2 := by
  induction calls using List.reverseRecOn with
  | nil => exact records_nil
  | append_singleton calls call ih =>
    rw [answered, List.foldl_append]
    exact ih.perform call

theorem Records.mem_names (h : log.Records ns) :
    name ∈ ns.names s ↔ ∃ y, (.register s name y, .done) ∈ log := by
  rw [Namescopes.names_eq, h.entries, List.mem_map]
  constructor
  · rintro ⟨⟨_, y⟩, hmem, rfl⟩
    exact ⟨y, mem_registered.1 hmem⟩
  · rintro ⟨y, hmem⟩
    exact ⟨_, mem_registered.2 hmem, rfl⟩

/-- What the scopes tell and answer, as the transcript decides it. -/
structure Explains (log : Transcript) (ns : Namescopes) : Prop where
  /-- A scope is there from when it was given, and stays. -/
  exists_iff : ∀ s, s.index < ns.scopes.length ↔ log.Gave s
  made_with : ∀ {owner parent s}, (.create owner parent, .scope s) ∈ log →
    ns.ownerOf s = owner ∧ ns.parentOf s = parent
  /-- No scope is made twice, and none is made that was given before. -/
  created_nodup : log.created.Nodup
  create_new : ∀ owner parent, ¬ log.Gave (ns.create owner parent).1
  /-- The document has one scope at most, which is made when it is first asked for. -/
  document_again : ∀ {s}, (.document, .scope s) ∈ log →
    s ∉ log.created ∧ ns.documentScope = (s, ns)
  document_new : (∀ s, (.document, .scope s) ∉ log) → ¬ log.Gave ns.documentScope.1
  /-- A name is registered in a scope that exists and where it never was registered. -/
  register_done : ∀ s name x, (ns.perform (.register s name x)).1 = .done ↔
    log.Gave s ∧ ∀ y, (.register s name y, .done) ∉ log
  register_unknown : ∀ s name x,
    (ns.perform (.register s name x)).1 = .refused (.unknownScope s.index) ↔ ¬ log.Gave s
  register_duplicate : ∀ s name x,
    (ns.perform (.register s name x)).1 = .refused (.duplicateName name) ↔
      ∃ y, (.register s name y, .done) ∈ log
  refused_unchanged : ∀ {call e}, (ns.perform call).1 = .refused e → (ns.perform call).2 = ns
  /-- A name means the object of its one registration. -/
  findIn_iff : ∀ s name x, ns.findIn s name = some x ↔ (.register s name x, .done) ∈ log
  names_eq : ∀ s, ns.names s = (log.registered s).map (·.1)
  names_nodup : ∀ s, (ns.names s).Nodup
  /-- The scope that was made for an object last comes before the one it entered last. -/
  scopeOf_eq : ∀ x, ns.scopeOf x = (log.lastOwned x).or (log.lastEntered x)
  enter_owner : ∀ {x}, log.lastOwned x ≠ none → ∀ s, ns.enter x s = ns

/-- Whatever the scopes were asked, and whatever of it they refused, what was asked and answered
decides what they tell and answer next. -/
theorem answered_explains (calls : List ScopeCall) :
    (answered calls).1.Explains (answered calls).2 := by
  have h := records_answered calls
  generalize (answered calls).1 = log at h ⊢
  generalize (answered calls).2 = ns at h ⊢
  have hunregistered : ∀ {s name}, name ∉ ns.names s ↔ ∀ y, (.register s name y, .done) ∉ log :=
    h.mem_names.not.trans not_exists
  exact {
    exists_iff := h.gave
    made_with := h.made
    created_nodup := h.created
    create_new := fun _ _ => h.not_gave
    document_again := fun {s} hmem => by
      have hdocument := (h.document s).2 hmem
      exact ⟨fun hs => h.apart s hs hdocument, Namescopes.documentScope_of_some hdocument⟩
    document_new := fun hnone => by
      have hdocument : ns.document = none := by
        cases hdocument : ns.document with
        | none => rfl
        | some s => exact absurd ((h.document s).1 hdocument) (hnone s)
      rw [Namescopes.documentScope_of_none hdocument]
      exact h.not_gave
    register_done := fun s name x => by
      rw [Namescopes.perform_register, ← h.gave, ← hunregistered]
      by_cases hs : s.index < ns.scopes.length <;> by_cases hname : name ∈ ns.names s <;>
        simp [hs, hname]
    register_unknown := fun s name x => by
      rw [Namescopes.perform_register, ← h.gave]
      by_cases hs : s.index < ns.scopes.length <;> by_cases hname : name ∈ ns.names s <;>
        simp [hs, hname]
    register_duplicate := fun s name x => by
      rw [Namescopes.perform_register, ← h.mem_names]
      by_cases hname : name ∈ ns.names s
      · simp [Namescopes.lt_of_mem_names hname, hname]
      · by_cases hs : s.index < ns.scopes.length <;> simp [hs, hname]
    refused_unchanged := Namescopes.perform_refused
    findIn_iff := fun s name x => by
      rw [Namescopes.findIn_eq_some_iff (h.names s), h.entries, mem_registered]
    names_eq := fun s => by rw [Namescopes.names_eq, h.entries]
    names_nodup := h.names
    scopeOf_eq := fun x => by
      rw [Namescopes.scopeOf, h.owned]
      cases howned : log.lastOwned x with
      | none => rw [Option.none_or, Option.none_or, h.entered x howned]
      | some s => rfl
    enter_owner := fun {x} howned s => by
      rw [Namescopes.enter, h.owned, if_pos (Option.isSome_iff_ne_none.2 howned)] }

end Transcript
end ObjectMarkup
