/-
How the scopes of names grow.

A construction makes scopes, puts objects into them and registers names, and takes nothing back.
`Namescopes.Grows` says what is left of the scopes before and which names were added to them since,
in their order; every operation on the scopes is such a step, and steps in a row are one.
-/
import ObjectMarkup.Context.Namescopes

namespace ObjectMarkup

/-- A name that was given to an object in a scope. -/
structure Registration where
  scope : ScopeId
  name : String
  object : ObjectId

namespace Registration

def entry (r : Registration) : String × ObjectId := (r.name, r.object)

/-- The names among `added` that were added to one scope. -/
def entriesIn (s : ScopeId) (added : List Registration) : List (String × ObjectId) :=
  (added.filter fun r => r.scope == s).map entry

theorem entriesIn_nil (s : ScopeId) : entriesIn s [] = [] := rfl

theorem entriesIn_append (s : ScopeId) (added more : List Registration) :
    entriesIn s (added ++ more) = entriesIn s added ++ entriesIn s more := by
  rw [entriesIn, List.filter_append, List.map_append]
  rfl

theorem mem_entriesIn {s : ScopeId} {added : List Registration} {e : String × ObjectId} :
    e ∈ entriesIn s added ↔ ∃ r ∈ added, r.scope = s ∧ r.entry = e := by
  simp [entriesIn, and_assoc]

end Registration

namespace Namescopes

variable {ns ns' ns'' : Namescopes} {s : ScopeId} {id x : ObjectId} {name : String}

/-! ## Scopes and what they hold -/

/-- The names of a scope and their objects, as they were registered. -/
def entries (ns : Namescopes) (s : ScopeId) : List (String × ObjectId) :=
  match ns.scopes[s.index]? with
  | some scope => scope.names
  | none => []

theorem findIn_eq (ns : Namescopes) (s : ScopeId) (name : String) :
    ns.findIn s name = ((ns.entries s).find? fun e => e.1 == name).map (·.2) := by
  rw [findIn, entries]
  cases ns.scopes[s.index]? <;> rfl

theorem names_eq (ns : Namescopes) (s : ScopeId) : ns.names s = (ns.entries s).map (·.1) := by
  rw [names, entries]
  cases ns.scopes[s.index]? <;> rfl

/-- A name is in a scope when it is found there. -/
theorem findIn_eq_none : ns.findIn s name = none ↔ name ∉ ns.names s := by
  rw [findIn_eq, names_eq, Option.map_eq_none_iff, List.find?_eq_none, List.mem_map]
  constructor
  · rintro h ⟨e, he, rfl⟩
    exact h e he (beq_self_eq_true e.1)
  · intro h e he hname
    exact h ⟨e, he, by simpa using hname⟩

theorem mem_entries (h : ns.findIn s name = some x) : (name, x) ∈ ns.entries s := by
  rw [findIn_eq, Option.map_eq_some_iff] at h
  obtain ⟨⟨other, y⟩, hfind, rfl⟩ := h
  have hname : other = name := by simpa using List.find?_some hfind
  exact hname ▸ List.mem_of_find?_eq_some hfind

theorem latest_cons (table : List (ObjectId × ScopeId)) (id : ObjectId) (s : ScopeId)
    (x : ObjectId) : latest ((id, s) :: table) x = if id = x then some s else latest table x := by
  by_cases h : id = x <;> simp [latest, h]

/-- The scopes know an object: it sees one, or is named in one. -/
def Knows (ns : Namescopes) (x : ObjectId) : Prop :=
  (∃ s, ns.scopeOf x = some s) ∨ ∃ s name, (name, x) ∈ ns.entries s

theorem scopeOf_of_not_knows (h : ¬ ns.Knows x) : ns.scopeOf x = none := by
  cases hscope : ns.scopeOf x with
  | none => rfl
  | some s => exact absurd (.inl ⟨s, hscope⟩) h

/-! ## Growth -/

/-- What is left of the scopes `ns` in `ns'`, with the names that were added since.  The objects of
`keep` see the scope that they saw. -/
structure Grows (keep : ObjectId → Prop) (added : List Registration) (ns ns' : Namescopes) :
    Prop where
  length : ns.scopes.length ≤ ns'.scopes.length
  ownerOf : ∀ s, s.index < ns.scopes.length → ns'.ownerOf s = ns.ownerOf s
  parentOf : ∀ s, s.index < ns.scopes.length → ns'.parentOf s = ns.parentOf s
  document : ∀ s, ns.document = some s → ns'.document = some s
  entries : ∀ s, ns'.entries s = ns.entries s ++ Registration.entriesIn s added
  findIn : ∀ r ∈ added, ns'.findIn r.scope r.name = some r.object
  scopeOf : ∀ x s, keep x → ns.scopeOf x = some s → ns'.scopeOf x = some s

namespace Grows

variable {keep less : ObjectId → Prop} {added more : List Registration}

theorem refl (ns : Namescopes) : ns.Grows keep [] ns where
  length := Nat.le_refl _
  ownerOf _ _ := rfl
  parentOf _ _ := rfl
  document _ h := h
  entries s := by rw [Registration.entriesIn_nil, List.append_nil]
  findIn _ hr := absurd hr List.not_mem_nil
  scopeOf _ _ _ h := h

theorem mono (h : ns.Grows keep added ns') (hkeep : ∀ x, less x → keep x) :
    ns.Grows less added ns' :=
  { h with scopeOf := fun x s hx => h.scopeOf x s (hkeep x hx) }

/-- A name that is found stays found, and means the same object. -/
theorem findIn_of_findIn (h : ns.Grows keep added ns') (hfind : ns.findIn s name = some x) :
    ns'.findIn s name = some x := by
  rw [findIn_eq, Option.map_eq_some_iff] at hfind
  obtain ⟨e, he, rfl⟩ := hfind
  rw [findIn_eq, h.entries, List.find?_append, he]
  rfl

theorem trans (h : ns.Grows keep added ns') (h' : ns'.Grows keep more ns'') :
    ns.Grows keep (added ++ more) ns'' where
  length := Nat.le_trans h.length h'.length
  ownerOf s hs := (h'.ownerOf s (Nat.lt_of_lt_of_le hs h.length)).trans (h.ownerOf s hs)
  parentOf s hs := (h'.parentOf s (Nat.lt_of_lt_of_le hs h.length)).trans (h.parentOf s hs)
  document s hs := h'.document s (h.document s hs)
  entries s := by rw [h'.entries, h.entries, Registration.entriesIn_append, List.append_assoc]
  findIn r hr := by
    rcases List.mem_append.1 hr with hr | hr
    · exact h'.findIn_of_findIn (h.findIn r hr)
    · exact h'.findIn r hr
  scopeOf x s hx hs := h'.scopeOf x s hx (h.scopeOf x s hx hs)

theorem knows (h : ns.Grows (fun _ => True) added ns') (hx : ns.Knows x) : ns'.Knows x := by
  rcases hx with ⟨s, hs⟩ | ⟨s, name, hmem⟩
  · exact .inl ⟨s, h.scopeOf x s trivial hs⟩
  · refine .inr ⟨s, name, ?_⟩
    rw [h.entries]
    exact List.mem_append_left _ hmem

end Grows

/-! ## Making a scope -/

section

variable (owner : Option ObjectId) (parent : Option ScopeId)

theorem getElem?_create (i : Nat) : (ns.create owner parent).2.scopes[i]? =
    if i = ns.scopes.length then some { owner, parent } else ns.scopes[i]? := by
  show (ns.scopes ++ [({ owner, parent } : Scope)])[i]? = _
  rcases Nat.lt_trichotomy i ns.scopes.length with h | rfl | h
  · rw [List.getElem?_append_left h, if_neg (by omega)]
  · rw [List.getElem?_append_right (Nat.le_refl _), Nat.sub_self, if_pos rfl]
    rfl
  · rw [List.getElem?_append_right (Nat.le_of_lt h), if_neg (by omega),
      List.getElem?_eq_none (Nat.le_of_lt h), List.getElem?_eq_none]
    rw [List.length_singleton]
    omega

theorem entries_create (s : ScopeId) : (ns.create owner parent).2.entries s = ns.entries s := by
  rw [entries, getElem?_create, entries]
  by_cases h : s.index = ns.scopes.length
  · rw [if_pos h, List.getElem?_eq_none (by omega)]
  · rw [if_neg h]

theorem ownerOf_create :
    (ns.create owner parent).2.ownerOf (ns.create owner parent).1 = owner := by
  rw [ownerOf, getElem?_create, if_pos (by rfl), Option.bind_some]

theorem parentOf_create :
    (ns.create owner parent).2.parentOf (ns.create owner parent).1 = parent := by
  rw [parentOf, getElem?_create, if_pos (by rfl), Option.bind_some]

theorem scopeOf_create (x : ObjectId) : (ns.create owner parent).2.scopeOf x =
    if owner = some x then some (ns.create owner parent).1 else ns.scopeOf x := by
  cases owner with
  | none => rfl
  | some id =>
    show (latest ((id, _) :: ns.owned) x).or (latest ns.entered x) = _
    rw [latest_cons, scopeOf]
    by_cases h : id = x
    · rw [if_pos h, if_pos (congrArg some h), Option.some_or]
      rfl
    · rw [if_neg h, if_neg (fun hsome => h (Option.some.inj hsome))]

theorem create_grows : ns.Grows (fun x => owner ≠ some x) [] (ns.create owner parent).2 where
  length := by simp [create]
  ownerOf s hs := by rw [ownerOf, getElem?_create, if_neg (by omega), ownerOf]
  parentOf s hs := by rw [parentOf, getElem?_create, if_neg (by omega), parentOf]
  document _ h := h
  entries s := by rw [entries_create, Registration.entriesIn_nil, List.append_nil]
  findIn _ hr := absurd hr List.not_mem_nil
  scopeOf x s hx hs := by rw [scopeOf_create, if_neg hx, hs]

end

/-! ## The scope of the document -/

theorem documentScope_grows (ns : Namescopes) :
    ns.Grows (fun _ => True) [] ns.documentScope.2 := by
  rw [documentScope]
  cases hdoc : ns.document with
  | some s => exact .refl ns
  | none =>
    refine { create_grows none none with document := ?_, scopeOf := ?_ }
    · intro s hs
      rw [hdoc] at hs
      cases hs
    · exact fun x s _ => (create_grows none none).scopeOf x s (by simp)

theorem documentScope_document (ns : Namescopes) :
    ns.documentScope.2.document = some ns.documentScope.1 := by
  rw [documentScope]
  cases hdoc : ns.document with
  | some s => exact hdoc
  | none => rfl

theorem scopeOf_documentScope (ns : Namescopes) (x : ObjectId) :
    ns.documentScope.2.scopeOf x = ns.scopeOf x := by
  rw [documentScope]
  cases ns.document <;> rfl

/-! ## Entering a scope -/

theorem scopeOf_enter_of_ne (h : id ≠ x) : (ns.enter id s).scopeOf x = ns.scopeOf x := by
  rw [enter]
  split
  · rfl
  · rw [scopeOf, latest_cons, if_neg h, scopeOf]

/-- An object that enters a scope sees it, unless it sees another. -/
theorem scopeOf_enter_self (h : ∀ u, ns.scopeOf id = some u → u = s) :
    (ns.enter id s).scopeOf id = some s := by
  cases howned : latest ns.owned id with
  | none => rw [enter, howned, if_neg (by simp), scopeOf, howned, latest_cons, if_pos rfl,
      Option.none_or]
  | some u =>
    have hsees : ns.scopeOf id = some u := by rw [scopeOf, howned, Option.some_or]
    rw [enter, howned, if_pos (by rfl), hsees, h u hsees]

theorem enter_scopes (ns : Namescopes) (id : ObjectId) (s : ScopeId) :
    (ns.enter id s).scopes = ns.scopes := by
  rw [enter]
  split <;> rfl

theorem enter_document (ns : Namescopes) (id : ObjectId) (s : ScopeId) :
    (ns.enter id s).document = ns.document := by
  rw [enter]
  split <;> rfl

theorem enter_grows (ns : Namescopes) (id : ObjectId) (s : ScopeId) :
    ns.Grows (fun x => id ≠ x) [] (ns.enter id s) where
  length := Nat.le_of_eq (by rw [enter_scopes])
  ownerOf s _ := by rw [ownerOf, enter_scopes, ownerOf]
  parentOf s _ := by rw [parentOf, enter_scopes, parentOf]
  document s hs := by rw [enter_document, hs]
  entries s := by rw [entries, enter_scopes, Registration.entriesIn_nil, List.append_nil, entries]
  findIn _ hr := absurd hr List.not_mem_nil
  scopeOf x s hx hs := by rw [scopeOf_enter_of_ne hx, hs]

/-! ## Registering a name -/

theorem register_ok (h : ns.register s name id = .ok ns') :
    name ∉ ns.names s ∧ ns'.owned = ns.owned ∧ ns'.entered = ns.entered ∧
      ns'.document = ns.document ∧ ∃ scope, ns.scopes[s.index]? = some scope ∧
        ns'.scopes = ns.scopes.set s.index { scope with names := scope.names ++ [(name, id)] } := by
  rw [register] at h
  split at h
  · cases h
  · next scope hscope =>
    split at h
    · cases h
    · next hfind =>
      obtain rfl := Except.ok.inj h
      refine ⟨findIn_eq_none.1 ?_, rfl, rfl, rfl, scope, hscope, rfl⟩
      rw [findIn, hscope, Option.bind_some]
      exact Option.not_isSome_iff_eq_none.1 hfind

/-- A name is refused as a duplicate when the scope has it. -/
theorem register_duplicate {other : String} :
    ns.register s name id = .error (.duplicateName other) ↔ other = name ∧ name ∈ ns.names s := by
  have hmem : ∀ scope, ns.scopes[s.index]? = some scope →
      (name ∈ ns.names s ↔ (scope.find? name).isSome = true) := by
    intro scope hscope
    have hfind : ns.findIn s name = scope.find? name := by
      rw [findIn, hscope, Option.bind_some]
    rw [← Option.ne_none_iff_isSome, ← hfind, ne_eq, findIn_eq_none, Decidable.not_not]
  rw [register]
  split
  · next hnone =>
    have hempty : ns.names s = [] := by rw [names, hnone]
    simp [hempty]
  · next scope hscope =>
    rw [hmem scope hscope]
    split
    · next hfind => simp [hfind, eq_comm]
    · next hfind => simp [hfind]

theorem register_grows (h : ns.register s name id = .ok ns') :
    ns.Grows (fun _ => True) [⟨s, name, id⟩] ns' := by
  obtain ⟨hname, howned, hentered, hdocument, scope, hscope, hscopes⟩ := register_ok h
  have hset : ∀ i, ns'.scopes[i]? = if s.index = i then
      some { scope with names := scope.names ++ [(name, id)] } else ns.scopes[i]? := by
    intro i
    have hlt : s.index < ns.scopes.length := (List.getElem?_eq_some_iff.1 hscope).1
    rw [hscopes, List.getElem?_set]
    by_cases hi : s.index = i
    · rw [if_pos hi, if_pos hi, if_pos hlt]
    · rw [if_neg hi, if_neg hi]
  have hentries : ∀ u, ns'.entries u = ns.entries u ++
      Registration.entriesIn u [⟨s, name, id⟩] := by
    intro u
    rw [entries, hset, entries]
    by_cases hu : s.index = u.index
    · obtain rfl : s = u := by
        cases s
        cases u
        exact congrArg _ hu
      simp [hscope, Registration.entriesIn, Registration.entry]
    · have hne : s ≠ u := fun heq => hu (congrArg ScopeId.index heq)
      simp [hu, Registration.entriesIn, hne]
  exact {
    length := Nat.le_of_eq (by rw [hscopes, List.length_set])
    ownerOf := fun u _ => by
      rw [ownerOf, hset, ownerOf]
      split
      · next hu => rw [← hu, hscope]; rfl
      · rfl
    parentOf := fun u _ => by
      rw [parentOf, hset, parentOf]
      split
      · next hu => rw [← hu, hscope]; rfl
      · rfl
    document := fun u hu => by rw [hdocument, hu]
    entries := hentries
    findIn := fun r hr => by
      obtain rfl := List.mem_singleton.1 hr
      have hnone : (ns.entries s).find? (fun e => e.1 == name) = none := by
        have hfind := findIn_eq_none.2 hname
        rw [findIn_eq, Option.map_eq_none_iff] at hfind
        exact hfind
      rw [findIn_eq, hentries, List.find?_append, hnone]
      simp [Registration.entriesIn, Registration.entry]
    scopeOf := fun x u _ hu => by rw [scopeOf, howned, hentered]; exact hu }

theorem knows_register (h : ns.register s name id = .ok ns') (hx : ns'.Knows x) :
    id = x ∨ ns.Knows x := by
  obtain ⟨-, howned, hentered, -⟩ := register_ok h
  rcases hx with ⟨u, hu⟩ | ⟨u, other, hmem⟩
  · rw [scopeOf, howned, hentered] at hu
    exact .inr (.inl ⟨u, hu⟩)
  · rw [(register_grows h).entries, List.mem_append] at hmem
    rcases hmem with hmem | hmem
    · exact .inr (.inr ⟨u, other, hmem⟩)
    · obtain ⟨r, hr, -, hentry⟩ := Registration.mem_entriesIn.1 hmem
      obtain rfl := List.mem_singleton.1 hr
      exact .inl (congrArg Prod.snd hentry)

end Namescopes
end ObjectMarkup
