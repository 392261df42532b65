/-
Runs that stand apart from what was there.

A recorded stream is carried out in a scope of its own (`materialize`).  Whatever the stream is, and
whatever the run ends with, no object of it stands in a scope that was there before.  The run
therefore leaves alone what was there (`World.Untouched`), and a name is refused only where the
stream itself has ended an object of that name before.  The main theorem is `materialize_apart`,
which is about any number of runs, one after the other.

The invariant of a run is `Services.Apart`: every open object that is there sees one of the scopes
made since.  No object of such a run asks for the scope of the document, because there is always a
scope around it.
-/
import ObjectMarkup.Proofs.Commitments
import ObjectMarkup.Proofs.Duplicates

namespace ObjectMarkup

variable {σ : Type}

open ObjectMarkup.Action (Leaves endState)

namespace World

/-! ## What is left alone -/

/-- The first `old` scopes are as they were, no scope was taken away, the document has its scope or
none as before, and an object that was there stays and sees what it saw. -/
structure Untouched (old : Nat) (there : σ → ObjectId → Prop) (w w' : World σ) : Prop where
  length : w.context.scopes.scopes.length ≤ w'.context.scopes.scopes.length
  scopes : ∀ i, i < old → i < w.context.scopes.scopes.length →
    w'.context.scopes.scopes[i]? = w.context.scopes.scopes[i]?
  document : w'.context.scopes.document = w.context.scopes.document
  sees : ∀ x, there w.heap x → w'.context.scopes.scopeOf x = w.context.scopes.scopeOf x
  stays : Stays there w.heap w'.heap

variable {old : Nat} {there : σ → ObjectId → Prop}

instance : Std.Refl (Untouched old there) :=
  ⟨fun w => ⟨Nat.le_refl _, fun _ _ _ => rfl, rfl, fun _ _ => rfl, Std.Refl.refl w.heap⟩⟩

instance : Trans (Untouched old there) (Untouched old there) (Untouched old there) where
  trans h h' := {
    length := Nat.le_trans h.length h'.length
    scopes := fun i hi hlt =>
      (h'.scopes i hi (Nat.lt_of_lt_of_le hlt h.length)).trans (h.scopes i hi hlt)
    document := h'.document.trans h.document
    sees := fun x hx => (h'.sees x (h.stays x hx)).trans (h.sees x hx)
    stays := Trans.trans h.stays h'.stays }

theorem untouched_admits : World.Admits (Stays there) (Untouched old there) where
  heap _ _ h := ⟨Nat.le_refl _, fun _ _ _ => rfl, rfl, fun _ _ => rfl, h⟩
  lifecycle w _ := ⟨Nat.le_refl _, fun _ _ _ => rfl, rfl, fun _ _ => rfl, Std.Refl.refl w.heap⟩

theorem Untouched.mono {older : Nat} {w w' : World σ} (h : w.Untouched old there w')
    (hle : older ≤ old) : w.Untouched older there w' :=
  { h with scopes := fun i hi hlt => h.scopes i (Nat.lt_of_lt_of_le hi hle) hlt }

/-- Every scope has the names it had, and a scope made since has none. -/
def SameNames (w w' : World σ) : Prop :=
  ∀ s, w'.context.scopes.names s = w.context.scopes.names s

instance : Std.Refl (SameNames (σ := σ)) := ⟨fun _ _ => rfl⟩

instance : Trans (SameNames (σ := σ)) (SameNames (σ := σ)) (SameNames (σ := σ)) :=
  ⟨fun h h' s => (h' s).trans (h s)⟩

theorem sameNames_admits : World.Admits (fun _ _ : σ => True) SameNames :=
  ⟨fun _ _ _ _ => rfl, fun _ _ _ => rfl⟩

end World

theorem Namescopes.Grows.names {keep : ObjectId → Prop} {ns ns' : Namescopes}
    (h : ns.Grows keep [] ns') (s : ScopeId) : ns'.names s = ns.names s := by
  rw [Namescopes.names_eq, h.entries, Registration.entriesIn_nil, List.append_nil,
    Namescopes.names_eq]

namespace Services

open World (Untouched SameNames untouched_admits sameNames_admits)

/-! ## The scope of an object that stands in one -/

section

variable (services : Services σ) (around : ScopeId) (type : TypeName) (id : ObjectId)
  (supplied : Bool) (ns : Namescopes)

theorem settle_inside_document :
    (services.settle (some around) type id supplied ns).2.document = ns.document := by
  cases hopens : services.opensScope type supplied with
  | true =>
    rw [settle_of_opens _ _ _ _ _ _ hopens]
    rfl
  | false =>
    rw [settle_of_not_opens _ _ _ _ _ _ hopens]
    exact Namescopes.enter_document _ _ _

theorem settle_inside_scopes {i : Nat} (hi : i < ns.scopes.length) :
    (services.settle (some around) type id supplied ns).2.scopes[i]? = ns.scopes[i]? := by
  cases hopens : services.opensScope type supplied with
  | true =>
    rw [settle_of_opens _ _ _ _ _ _ hopens, Namescopes.getElem?_create, if_neg (by omega)]
  | false =>
    rw [settle_of_not_opens _ _ _ _ _ _ hopens, Namescopes.enter_scopes]
    rfl

/-- The object sees a scope that is made for it, or the one around it. -/
theorem le_settle_inside {old : Nat} (haround : old ≤ around.index)
    (hlength : old ≤ ns.scopes.length) :
    old ≤ (services.settle (some around) type id supplied ns).1.index := by
  cases hopens : services.opensScope type supplied with
  | true =>
    rw [settle_of_opens _ _ _ _ _ _ hopens]
    exact hlength
  | false =>
    rw [settle_of_not_opens _ _ _ _ _ _ hopens]
    exact haround

end

/-! ## Calls -/

variable {services : Services σ} {old : Nat} {there : σ → ObjectId → Prop}

section

variable (hS : services.CallsLeave (Stays there))

include hS

theorem make_untouched (habsent : ∀ type arguments heap id heap',
      services.activate type arguments heap = .ok id heap' → ¬ there heap id)
    (around : ScopeId) (type : TypeName) (arguments : List String) :
    Leaves (Untouched old there) (services.make (some around) type arguments) := by
  refine make_leaves hS untouched_admits fun w id heap hactivate w' h => ?_
  have hnew := habsent _ _ _ _ _ hactivate
  have hgrows := services.settle_grows (some around) type id false w'.context.scopes
  exact {
    length := Nat.le_trans h.length hgrows.length
    scopes := fun i hi hlt => (services.settle_inside_scopes around type id false _
      (Nat.lt_of_lt_of_le hlt h.length)).trans (h.scopes i hi hlt)
    document := (services.settle_inside_document around type id false _).trans h.document
    sees := fun x hx => by
      have hne : id ≠ x := fun heq => hnew (heq ▸ hx)
      exact (services.scopeOf_settle_of_ne _ type id false _ hne).trans (h.sees x hx)
    stays := h.stays }

theorem complete_untouched {type : TypeName} {name : Option String} {site : Site}
    {outside : Option (Option ScopeId)}
    (hscope : ∀ s, services.nameScope type site outside = some s → old ≤ s.index) :
    Leaves (Untouched old there) (services.complete type name site outside) := by
  refine complete_leaves hS untouched_admits fun w given s ns _ hs hregister => ?_
  obtain ⟨-, howned, hentered, hdocument, scope, -, hscopes⟩ := Namescopes.register_ok hregister
  exact {
    length := Nat.le_of_eq (by simp [World.setScopes, hscopes])
    scopes := fun i hi _ => by
      have hne : s.index ≠ i := by
        have := hscope s hs
        omega
      simp only [World.setScopes, hscopes, List.getElem?_set_ne hne]
    document := hdocument
    sees := fun x _ => by simp only [World.setScopes, Namescopes.scopeOf, howned, hentered]
    stays := Std.Refl.refl w.heap }

theorem load_untouched (old : Nat) {member : Member} {loader : Loader σ}
    (hloader : services.loaders.find? member = some loader) (stream : List Instruction) :
    Leaves (Untouched old there) (Build.onHeap .deferred (loader member stream)) :=
  Build.onHeap_leaves untouched_admits _ (hS.loader member loader hloader stream)

theorem valueOf_untouched (old : Nat) (type : TypeName) (site : Site) (target root : Option ObjectId)
    (member : Option Member) :
    Leaves (Untouched old there) (services.valueOf type site target root member) :=
  valueOf_leaves hS untouched_admits type site target root member

theorem commit_untouched (old : Nat) (target : ObjectId) (collects : Bool) (m : Member)
    (vs : List Value) (retrieved : Option Value) :
    Leaves (Untouched old there) (services.commit target collects m vs retrieved) :=
  commit_leaves hS untouched_admits
    (fun w _ => ⟨Nat.le_refl _, fun _ _ _ => rfl, rfl, fun _ _ => rfl, Std.Refl.refl w.heap⟩)
    target collects m vs retrieved

end

section

variable (services)

/-- Of objects that are never there nothing is asked. -/
theorem callsLeave_none : services.CallsLeave (Stays fun (_ : σ) (_ : ObjectId) => False) :=
  services.callsLeave_any.mono fun _ _ _ _ h => h

theorem onHeap_sameNames {ε α : Type} (wrap : ε → Error) (act : EStateM ε σ α) :
    Leaves SameNames (Build.onHeap wrap act) :=
  Build.onHeap_leaves sameNames_admits wrap fun _ => trivial

theorem settle_sameNames (around : Option ScopeId) (type : TypeName) (id : ObjectId)
    (supplied : Bool) (w : World σ) :
    w.SameNames (w.setScopes (services.settle around type id supplied w.context.scopes).2) :=
  (services.settle_grows around type id supplied w.context.scopes).names

theorem objectOf_sameNames (m : Machine σ) (top : Frame) :
    Leaves SameNames (services.objectOf m top) := by
  rw [objectOf]
  split
  · exact .pure _
  · exact make_leaves services.callsLeave_any sameNames_admits fun _ _ _ _ w' h =>
      Trans.trans h (services.settle_sameNames _ _ _ _ w')

theorem valueOf_sameNames (type : TypeName) (site : Site) (target root : Option ObjectId)
    (member : Option Member) :
    Leaves SameNames (services.valueOf type site target root member) :=
  valueOf_leaves services.callsLeave_any sameNames_admits type site target root member

theorem commit_sameNames (target : ObjectId) (collects : Bool) (m : Member) (vs : List Value)
    (retrieved : Option Value) :
    Leaves SameNames (services.commit target collects m vs retrieved) :=
  .bind (onHeap_sameNames _ _) fun _ => .update fun _ _ => rfl

end

/-! ## The objects that end -/

/-- The names of the open objects after an instruction that is carried out, innermost first.  The
object of a `getObject` has none. -/
def openAfter (opened : List (Option String)) : Instruction → List (Option String)
  | .startObject start => start.name :: opened
  | .getObject => none :: opened
  | .endObject => opened.tail
  | _ => opened

/-- The name of the object that an instruction ends. -/
def endedBy (opened : List (Option String)) : Instruction → List (Option String)
  | .endObject => opened.head?.toList
  | _ => []

/-- The names of the objects that end in a stream, in the order of their ends.  Those of `opened`
have started before it. -/
def endedNames : List (Option String) → List (Instruction × Nat) → List (Option String)
  | _, [] => []
  | opened, (i, _) :: rest => endedBy opened i ++ endedNames (openAfter opened i) rest

/-- Names may have been added to the scopes, all of them among `ended`. -/
def AddsNames (ended : List (Option String)) (w w' : World σ) : Prop :=
  ∀ s name, name ∈ w'.context.scopes.names s →
    name ∈ w.context.scopes.names s ∨ some name ∈ ended

instance {ended : List (Option String)} : Std.Refl (AddsNames (σ := σ) ended) :=
  ⟨fun _ _ _ h => .inl h⟩

instance {ended : List (Option String)} :
    Trans (AddsNames (σ := σ) ended) (AddsNames (σ := σ) ended) (AddsNames (σ := σ) ended) :=
  ⟨fun h h' s name hname => (h' s name hname).elim (h s name) .inr⟩

theorem addsNames_of_same {ended : List (Option String)} {w w' : World σ} (h : w.SameNames w') :
    AddsNames ended w w' := fun s _ hname => .inl (h s ▸ hname)

theorem addsNames_admits {ended : List (Option String)} :
    World.Admits (fun _ _ : σ => True) (AddsNames ended) :=
  ⟨fun _ _ _ _ _ h => .inl h, fun _ _ _ _ h => .inl h⟩

/-- The end of an object adds no name but its own. -/
theorem complete_addsNames (services : Services σ) (type : TypeName) (name : Option String)
    (site : Site) (outside : Option (Option ScopeId)) :
    Leaves (AddsNames [name]) (services.complete type name site outside) := by
  refine complete_leaves services.callsLeave_any addsNames_admits ?_
  rintro w given s ns rfl - hregister u other hother
  have hentries := (Namescopes.register_grows hregister).entries u
  have hother : other ∈ ns.names u := hother
  rw [Namescopes.names_eq, hentries, List.map_append, List.mem_append] at hother
  rcases hother with hother | hother
  · exact .inl (by rwa [Namescopes.names_eq])
  · obtain ⟨e, he, rfl⟩ := List.mem_map.1 hother
    obtain ⟨r, hr, -, rfl⟩ := Registration.mem_entriesIn.1 he
    obtain rfl := List.mem_singleton.1 hr
    exact .inr (List.mem_singleton_self _)

end Services

/-- The names of the open objects, innermost first. -/
def Machine.openNames (m : Machine σ) : List (Option String) := m.stack.map (·.name)

namespace Services

open World (Untouched SameNames untouched_admits)

variable {services : Services σ} {m m' : Machine σ} {top : Frame} {rest : List Frame}
  {i : Instruction}

open Machine

theorem openNames_mapTop {f : Frame → Frame} (hf : ∀ g : Frame, (f g).name = g.name)
    (m : Machine σ) : (m.mapTop f).openNames = m.openNames := by
  cases hs : m.stack with
  | nil => simp [openNames, mapTop, hs]
  | cons top rest => simp [openNames, mapTop, hs, hf]

theorem openNames_close (m : Machine σ) : m.close.openNames = m.openNames.tail := by
  simp [openNames, Machine.close, List.map_tail]

/-- What an instruction does to the names of the open objects and to those in the scopes. -/
structure Names (opened ended : List (Option String)) (m m' : Machine σ) : Prop where
  opened : m'.openNames = opened
  ended : AddsNames ended m.world m'.world

theorem Does.names (h : services.Does m i m') :
    (m.CarriesOut i → Names (openAfter m.openNames i) (endedBy m.openNames i) m m') ∧
      (¬ m.CarriesOut i → Names m.openNames [] m m') := by
  have idle : m.recording = none → Names (openAfter m.openNames i) (endedBy m.openNames i) m m' →
      (m.CarriesOut i → Names (openAfter m.openNames i) (endedBy m.openNames i) m m') ∧
        (¬ m.CarriesOut i → Names m.openNames [] m m') := fun hr hnames =>
    ⟨fun _ => hnames, fun hnot => absurd (carriesOut_of_idle hr i) hnot⟩
  have same : ∀ {ended : List (Option String)}, AddsNames ended m.world m.world :=
    Std.Refl.refl _
  cases h with
  | startObject hr _ _ _ => exact idle hr ⟨rfl, same⟩
  | @startSupplied start id site w hr hs _ _ _ hadopt =>
    refine idle hr ⟨rfl, addsNames_of_same ?_⟩
    obtain ⟨rfl, -⟩ := services.adopt_ok hadopt
    exact services.settle_sameNames _ _ _ _ m.world
  | getObject hr _ _ _ _ _ =>
    refine idle hr ⟨congrArg _ (openNames_mapTop (f := Frame.retrieve _) (fun _ => rfl) m), ?_⟩
    exact addsNames_of_same fun s => by simp [Machine.retrieve]
  | @startMember top rest site w member loader hr _ _ hobject _ =>
    refine idle hr ⟨?_, addsNames_of_same ?_⟩
    · have hopen : (((m.setSite site).inWorld w).openMember member loader).openNames =
          (m.setSite site).openNames := by
        cases loader <;> exact openNames_mapTop (f := Frame.openMember member) (fun _ => rfl) _
      exact hopen.trans (openNames_mapTop (f := Frame.setSite site) (fun _ => rfl) m)
    · rw [openMember_world]
      exact (services.objectOf_sameNames m top).of_ok hobject
  | @value top rest member s v w hr _ _ hread =>
    refine idle hr ⟨openNames_mapTop (f := Frame.receive [v]) (fun _ => rfl) m, ?_⟩
    rw [(Build.ofExcept_eq_ok hread).2]
    exact same
  | @endMember top rest member site w hr _ _ _ hcommit =>
    refine idle hr ⟨openNames_mapTop (f := Frame.closeMember) (fun _ => rfl) m, ?_⟩
    exact addsNames_of_same ((services.commit_sameNames _ _ _ _ _).of_ok hcommit)
  | leave hr _ _ _ => exact idle hr ⟨openNames_close m, same⟩
  | @endInner top parent rest site v w w' w'' hr hs _ _ hobject hcomplete hvalue =>
    have hended : endedBy m.openNames .endObject = [top.name] := by simp [endedBy, openNames, hs]
    refine idle hr ⟨?_, hended ▸ ?_⟩
    · exact (openNames_mapTop (f := Frame.receive [v]) (fun _ => rfl) m.close).trans
        (openNames_close m)
    · have hmade : AddsNames [top.name] m.world w :=
        addsNames_of_same ((services.objectOf_sameNames m top).of_ok hobject)
      have hvalued : AddsNames [top.name] w' w'' :=
        addsNames_of_same ((services.valueOf_sameNames _ _ _ _ _).of_ok hvalue)
      exact Trans.trans hmade
        (Trans.trans ((complete_addsNames services _ _ _ _).of_ok hcomplete) hvalued)
  | @endRoot top site w w' hr hs _ _ hobject hcomplete =>
    have hended : endedBy m.openNames .endObject = [top.name] := by simp [endedBy, openNames, hs]
    refine idle hr ⟨openNames_close m, hended ▸ ?_⟩
    have hmade : AddsNames [top.name] m.world w :=
      addsNames_of_same ((services.objectOf_sameNames m top).of_ok hobject)
    exact Trans.trans hmade ((complete_addsNames services _ _ _ _).of_ok hcomplete)
  | record hr hdepth => exact ⟨fun h => absurd (h _ hr) hdepth, fun _ => ⟨rfl, same⟩⟩
  | @handOver r top rest site v w w' hr hone _ _ hload hcommit =>
    have hcarries : m.CarriesOut .endMember := fun r' hr' => by
      obtain rfl : r = r' := Option.some.inj (hr.symm.trans hr')
      simp [depthAfter, hone]
    refine ⟨fun _ => ⟨?_, addsNames_of_same ?_⟩, fun hnot => absurd hcarries hnot⟩
    · exact openNames_mapTop (f := Frame.closeMember) (fun _ => rfl) (m.withRecording none)
    · exact Trans.trans ((onHeap_sameNames _ _).of_ok hload)
        ((services.commit_sameNames _ _ _ _ _).of_ok hcommit)

/-! ## Apart from the first scopes -/

/-- There is a scope around the construction that is none of the first `old`, and the open objects
see such scopes.  What is recorded is for the loader of its member. -/
structure Apart (services : Services σ) (old : Nat) (m : Machine σ) : Prop where
  base : ∃ s, m.base = some s ∧ old ≤ s.index
  supplied : m.supplied = none
  sites : ∀ f ∈ m.stack, ∀ site, f.site = some site → old ≤ site.scope.index
  length : old ≤ m.world.context.scopes.scopes.length
  loader : ∀ r, m.recording = some r → services.loaders.find? r.member = some r.loader

namespace Apart

variable {old : Nat}

theorem inWorld (h : services.Apart old m) {w : World σ}
    (hw : old ≤ w.context.scopes.scopes.length) : services.Apart old (m.inWorld w) :=
  { h with length := hw }

theorem mapTop (h : services.Apart old m) {f : Frame → Frame}
    (hf : ∀ g site, (f g).site = some site → g.site = some site ∨ old ≤ site.scope.index) :
    services.Apart old (m.mapTop f) := by
  obtain ⟨world, stack, closed, supplied, base, result, recording⟩ := m
  cases stack with
  | nil => exact h
  | cons top rest =>
    refine { h with sites := fun g hg site hsite => ?_ }
    rcases List.mem_cons.1 hg with rfl | hg
    · exact (hf top site hsite).elim (h.sites top List.mem_cons_self site) id
    · exact h.sites g (List.mem_cons_of_mem top hg) site hsite

theorem openObject (h : services.Apart old m) {frame : Frame}
    (hframe : ∀ site, frame.site = some site → old ≤ site.scope.index) :
    services.Apart old (m.openObject frame) := by
  refine { h with sites := fun g hg site hsite => ?_ }
  rcases List.mem_cons.1 hg with rfl | hg
  · exact hframe site hsite
  · exact h.sites g hg site hsite

theorem close (h : services.Apart old m) : services.Apart old m.close :=
  { h with sites := fun g hg => h.sites g (List.mem_of_mem_tail hg) }

theorem withRecording (h : services.Apart old m) {r : Option (Recording σ)}
    (hr : ∀ r', r = some r' → services.loaders.find? r'.member = some r'.loader) :
    services.Apart old (m.withRecording r) :=
  { h with loader := hr }

theorem setSite (h : services.Apart old m) {site : Site} (hsite : old ≤ site.scope.index) :
    services.Apart old (m.setSite site) :=
  h.mapTop fun _ _ hset => .inr (Option.some.inj hset ▸ hsite)

theorem retrieve (h : services.Apart old m) (v : Value) : services.Apart old (m.retrieve v) :=
  h.mapTop fun _ _ => .inl

theorem push (h : services.Apart old m) (v : Value) : services.Apart old (m.push v) :=
  h.mapTop fun _ _ => .inl

theorem closeMember (h : services.Apart old m) : services.Apart old m.closeMember :=
  h.mapTop fun _ _ => .inl

/-- A member that opens is recorded if it has a loader. -/
theorem openMember (h : services.Apart old m) {member : Member} {loader : Option (Loader σ)}
    (hloader : services.loaderOf member = .ok loader) :
    services.Apart old (m.openMember member loader) := by
  have hopen : services.Apart old (m.mapTop (Frame.openMember member)) :=
    h.mapTop fun _ _ => .inl
  cases loader with
  | none => exact hopen
  | some loader =>
    refine hopen.withRecording (r := some { member, loader }) fun r hr => ?_
    obtain rfl := Option.some.inj hr
    exact services.loaderOf_ok hloader

variable {maxDepth : Nat} (hm : m.Sound maxDepth) (h : services.Apart old m)

include hm h

theorem parent {parent : Frame} (hparent : m.parent = some parent) :
    ∃ s, parent.scope = some s ∧ old ≤ s.index := by
  obtain ⟨hlt, hget⟩ := List.getElem?_eq_some_iff.1 hparent
  have htail : parent ∈ m.stack.tail := by
    cases hs : m.stack with
    | nil => simp [hs] at hlt
    | cons top rest =>
      have hget : m.stack[1]? = some parent := hparent
      rw [hs, List.getElem?_cons_succ] at hget
      exact List.mem_of_getElem? hget
  have hmem := List.mem_of_mem_tail htail
  obtain ⟨site, hsite⟩ := hm.site_below htail
  exact ⟨site.scope, by simp [Frame.scope, hsite], h.sites parent hmem site hsite⟩

theorem around : ∃ s, m.around = some s ∧ old ≤ s.index := by
  cases hparent : m.parent with
  | none => simpa [Machine.around, hparent] using h.base
  | some parent => simpa [Machine.around, hparent] using h.parent hm hparent

/-- An object is named in none of the first scopes. -/
theorem nameScope {type : TypeName} {site : Site} (hsite : old ≤ site.scope.index) {s : ScopeId}
    (hs : services.nameScope type site (m.parent.map (·.scope)) = some s) : old ≤ s.index := by
  cases hparent : m.parent with
  | none =>
    obtain rfl : site.scope = s := by simpa [Services.nameScope, hparent] using hs
    exact hsite
  | some parent =>
    obtain ⟨u, hu, hold⟩ := h.parent hm hparent
    simp only [Services.nameScope, hparent, Option.map_some, hu] at hs
    split at hs
    · exact Option.some.inj hs ▸ hold
    · exact Option.some.inj hs ▸ hsite

theorem objectOf {site : Site} {w : World σ} (hs : m.stack = top :: rest)
    (hobject : services.objectOf m top m.world = .ok site w) : old ≤ site.scope.index := by
  rw [Services.objectOf] at hobject
  cases hsite : top.site with
  | some found =>
    rw [hsite] at hobject
    cases hobject
    exact h.sites top (by simp [hs]) site hsite
  | none =>
    obtain ⟨s, haround, hold⟩ := h.around hm
    rw [hsite, haround] at hobject
    rw [make_eq] at hobject
    obtain ⟨id, w₁, hconstruct, hadopt⟩ := (Action.bind_eq_ok _).1 hobject
    obtain ⟨-, collects, rfl⟩ := services.adopt_ok hadopt
    exact services.le_settle_inside s _ _ _ _ hold (services.construct_scopes hconstruct ▸ h.length)

end Apart

section

variable {old : Nat} {there : σ → ObjectId → Prop} {maxDepth : Nat}
variable (hS : services.CallsLeave (Stays there))
variable (habsent : ∀ type arguments heap id heap',
  services.activate type arguments heap = .ok id heap' → ¬ there heap id)

include hS habsent

theorem objectOf_untouched (hm : m.Sound maxDepth) (h : services.Apart old m) :
    Leaves (Untouched old there) (services.objectOf m top) := by
  obtain ⟨s, haround, -⟩ := h.around hm
  rw [objectOf, haround]
  cases top.site with
  | some site => exact .pure site
  | none => exact make_untouched hS habsent s _ _

/-- What an instruction does is apart from the first scopes. -/
theorem Does.apart (hm : m.Sound maxDepth) (h : services.Apart old m)
    (hdoes : services.Does m i m') :
    services.Apart old m' ∧ m.world.Untouched old there m'.world := by
  have same : m.world.Untouched old there m.world := Std.Refl.refl _
  have made : ∀ {top rest site w}, m.stack = top :: rest →
      services.objectOf m top m.world = .ok site w →
        old ≤ site.scope.index ∧ m.world.Untouched old there w := fun hs hobject =>
    ⟨h.objectOf hm hs hobject, (objectOf_untouched hS habsent hm h).of_ok hobject⟩
  have later : ∀ {w : World σ}, m.world.Untouched old there w →
      old ≤ w.context.scopes.scopes.length := fun hw => Nat.le_trans h.length hw.length
  cases hdoes with
  | startObject _ _ _ _ => exact ⟨h.openObject fun site hsite => (by cases hsite), same⟩
  | startSupplied _ _ _ hsupplied _ _ => simp [h.supplied] at hsupplied
  | @getObject top rest member site target hr hs _ hsite _ _ =>
    refine ⟨(h.retrieve _).openObject fun site' hsite' => ?_, ?_⟩
    · obtain rfl := Option.some.inj hsite'
      exact h.sites top (by simp [hs]) site hsite
    · simpa [Machine.retrieve] using same
  | @startMember top rest site w member loader hr hs _ hobject hloader =>
    obtain ⟨hold, hw⟩ := made hs hobject
    refine ⟨((h.setSite hold).inWorld (later hw)).openMember hloader, ?_⟩
    simpa using hw
  | @value top rest member s v w _ _ _ hread =>
    obtain ⟨-, rfl⟩ := Build.ofExcept_eq_ok hread
    exact ⟨(h.push v).inWorld h.length, same⟩
  | endMember _ _ _ _ hcommit =>
    have hw := (commit_untouched hS old _ _ _ _ _).of_ok hcommit
    exact ⟨h.closeMember.inWorld (later hw), hw⟩
  | leave _ _ _ _ => exact ⟨h.close, same⟩
  | @endInner top parent rest site v w w' w'' _ hs _ _ hobject hcomplete hvalue =>
    obtain ⟨hold, hmade⟩ := made hs hobject
    have hparent : m.parent = some parent := by simp [Machine.parent, hs]
    have hended := (complete_untouched hS fun s hscope =>
      h.nameScope hm hold (by rw [hparent]; exact hscope)).of_ok hcomplete
    have hw := Trans.trans (Trans.trans hmade hended)
      ((valueOf_untouched hS old _ _ _ _ _).of_ok hvalue)
    exact ⟨(h.close.push v).inWorld (later hw), hw⟩
  | @endRoot top site w w' _ hs _ _ hobject hcomplete =>
    obtain ⟨hold, hmade⟩ := made hs hobject
    have hparent : m.parent = none := by simp [Machine.parent, hs]
    have hw := Trans.trans hmade ((complete_untouched hS fun s hscope =>
      h.nameScope hm hold (by rw [hparent]; exact hscope)).of_ok hcomplete)
    exact ⟨{ h.close with length := later hw }, hw⟩
  | @record r i hr _ =>
    refine ⟨h.withRecording fun r' hr' => ?_, same⟩
    obtain rfl := Option.some.inj hr'
    exact h.loader r hr
  | @handOver r top rest site v w w' hr _ _ _ hload hcommit =>
    have hw := Trans.trans ((load_untouched hS old (h.loader r hr) _).of_ok hload)
      ((commit_untouched hS old _ _ _ _ _).of_ok hcommit)
    exact ⟨(h.withRecording fun r' hr' => by cases hr').closeMember.inWorld (later hw), hw⟩

theorem Fails.untouched (hm : m.Sound maxDepth) (h : services.Apart old m) {w : World σ}
    (hfails : services.Fails m i w) : m.world.Untouched old there w := by
  have made : ∀ top, Leaves (Untouched old there) (services.objectOf m top) := fun _ =>
    objectOf_untouched hS habsent hm h
  cases hfails with
  | refused => exact Std.Refl.refl _
  | adopt _ _ hsupplied _ => simp [h.supplied] at hsupplied
  | object _ _ hobject => exact (made _).of_error hobject
  | loader _ _ hobject => exact (made _).of_ok hobject
  | commit _ _ _ hcommit => exact (commit_untouched hS old _ _ _ _ _).of_error hcommit
  | complete _ hs hobject hcomplete =>
    have hold := h.objectOf hm hs hobject
    exact Trans.trans ((made _).of_ok hobject)
      ((complete_untouched hS fun s hscope => h.nameScope hm hold hscope).of_error hcomplete)
  | @valueOf top parent rest site e w w' w'' _ hs hobject hcomplete hvalue =>
    have hold := h.objectOf hm hs hobject
    have hparent : m.parent = some parent := by simp [Machine.parent, hs]
    have hended := (complete_untouched hS fun s hscope =>
      h.nameScope hm hold (by rw [hparent]; exact hscope)).of_ok hcomplete
    exact Trans.trans (Trans.trans ((made _).of_ok hobject) hended)
      ((valueOf_untouched hS old _ _ _ _ _).of_error hvalue)
  | load hr _ hload =>
    exact (load_untouched hS old (h.loader _ hr) _).of_error hload
  | handOver hr _ _ _ hload hcommit =>
    exact Trans.trans ((load_untouched hS old (h.loader _ hr) _).of_ok hload)
      ((commit_untouched hS old _ _ _ _ _).of_error hcommit)

/-- A stream leaves the first scopes alone, however far it is carried out. -/
theorem steps_untouched (stream : List Instruction) :
    ∀ {m : Machine σ}, m.Sound services.settings.maxDepth → services.Apart old m →
      m.world.Untouched old there (endState (services.steps stream m)).world := by
  induction stream with
  | nil => exact fun _ _ => Std.Refl.refl _
  | cons i is ih =>
    intro m hm h
    rw [steps_cons]
    cases hstep : services.step i m with
    | error e m₁ => exact (step_fails hm hstep).untouched hS habsent hm h
    | ok _ m₁ =>
      have hdoes := step_does hm hstep
      obtain ⟨hapart, hw⟩ := hdoes.apart hS habsent hm h
      exact Trans.trans hw (ih (hdoes.sound hm) hapart)

end

/-! ## Names that are refused -/

/-- The `endObject` at which a construction fails for a name is the end of the second object of that
name at least, if no later scope had a name but those of `ended`. -/
theorem steps_ended {old : Nat} {stream : List Instruction} {name : String} :
    ∀ {m m' : Machine σ} {ended : List (Option String)} (n : Nat),
      m.Sound services.settings.maxDepth → services.Apart old m →
      (∀ s : ScopeId, old ≤ s.index → ∀ other ∈ m.world.context.scopes.names s,
        some other ∈ ended) →
      services.steps stream m = .error (.namescope (.duplicateName name)) m' →
      ∃ pre post, stream = pre ++ .endObject :: post ∧
        2 ≤ (ended ++ endedNames m.openNames (carriedOut services.isRecorded m.depth
          ((pre ++ [.endObject]).zipIdx n))).count (some name) := by
  induction stream with
  | nil => exact fun _ _ _ _ h => by cases h
  | cons i is ih =>
    intro m m' ended n hm h hended hfail
    rw [steps_cons] at hfail
    cases hstep : services.step i m with
    | error e m₁ =>
      simp only [hstep, EStateM.Result.error.injEq] at hfail
      obtain ⟨rfl, hcloses⟩ := services.step_duplicate.1 ⟨m₁, hfail.1 ▸ hstep⟩
      obtain ⟨hr, hs, -, -, hname, hobject, hscope, hmem⟩ := hcloses
      rename_i top rest site w scope
      have hsame := (services.objectOf_sameNames m top).of_ok hobject
      have htaken : some name ∈ ended :=
        hended scope (h.nameScope hm (h.objectOf hm hs hobject) hscope) name (hsame scope ▸ hmem)
      have hlast : endedNames m.openNames
          (carriedOut services.isRecorded m.depth [(.endObject, n)]) = [some name] := by
        simp [depth_of_idle hr, carriedOut, endedNames, endedBy, openNames, hs, hname]
      refine ⟨[], is, rfl, ?_⟩
      have hone : 0 < ended.count (some name) := List.count_pos_iff.2 htaken
      rw [List.nil_append, List.zipIdx_singleton, hlast, List.count_append,
        List.count_singleton_self]
      omega
    | ok _ m₁ =>
      simp only [hstep] at hfail
      have hdoes := step_does hm hstep
      obtain ⟨hapart, -⟩ :=
        hdoes.apart services.callsLeave_none (fun _ _ _ _ _ _ => id) hm h
      obtain ⟨hcarried, hrecorded⟩ := hdoes.names
      have hcons := carriedOut_cons hm hdoes n
      by_cases hc : m.CarriesOut i
      · obtain ⟨hopened, hadds⟩ := hcarried hc
        obtain ⟨pre, post, rfl, hcount⟩ := ih (n + 1) (hdoes.sound hm) hapart
          (fun s hs other hother => List.mem_append.2
            ((hadds s other hother).imp (hended s hs other) id)) hfail
        refine ⟨i :: pre, post, rfl, ?_⟩
        rw [List.cons_append, List.zipIdx_cons, (hcons _).1 hc, endedNames, ← List.append_assoc,
          ← hopened]
        exact hcount
      · obtain ⟨hopened, hsame⟩ := hrecorded hc
        obtain ⟨pre, post, rfl, hcount⟩ := ih (n + 1) (hdoes.sound hm) hapart
          (fun s hs other hother => (hsame s other hother).elim (hended s hs other)
            fun hmem => by cases hmem) hfail
        refine ⟨i :: pre, post, rfl, ?_⟩
        rw [List.cons_append, List.zipIdx_cons, (hcons _).2 hc, ← hopened]
        exact hcount

/-! ## Runs in scopes of their own -/

variable (services)

theorem endState_run (stream : List Instruction) (root : Option ObjectId) (base : Option ScopeId)
    (w : World σ) : endState (services.run stream root base w) =
      (endState (services.steps stream (blank w root base))).world := by
  rw [run_eq_steps]
  cases services.steps stream (blank w root base) with
  | error e m => rfl
  | ok _ m =>
    simp only []
    cases m.finish <;> rfl

/-- The machine that begins to materialize a stream. -/
def materializer (w : World σ) : Machine σ :=
  blank (w.setScopes (w.context.scopes.create none none).2) none
    (some (w.context.scopes.create none none).1)

theorem materialize_eq (stream : List Instruction) (w : World σ) :
    services.materialize stream w = services.run stream none
      (some (w.context.scopes.create none none).1)
      (w.setScopes (w.context.scopes.create none none).2) := rfl

theorem materializer_apart (w : World σ) :
    services.Apart w.context.scopes.scopes.length (materializer w) where
  base := ⟨_, rfl, Nat.le_refl _⟩
  supplied := rfl
  sites _ hf := by cases hf
  length := (Namescopes.create_grows none none).length
  loader _ hr := by cases hr

/-- The worlds that runs in a row lead through, whatever each of them ends with. -/
def materializeAll (streams : List (List Instruction)) (w : World σ) : World σ :=
  streams.foldl (fun w stream => endState (services.materialize stream w)) w

/-- The stream ends two objects of a name, outside deferred members. -/
def EndsTwice (name : String) (stream : List Instruction) : Prop :=
  2 ≤ (endedNames [] (carriedOut services.isRecorded 0 stream.zipIdx)).count (some name)

section

variable {services} {there : σ → ObjectId → Prop}
variable (hS : services.CallsLeave (Stays there))
variable (habsent : ∀ type arguments heap id heap',
  services.activate type arguments heap = .ok id heap' → ¬ there heap id)

include hS habsent

theorem materialize_untouched (stream : List Instruction) (w : World σ) :
    w.Untouched w.context.scopes.scopes.length there
      (endState (services.materialize stream w)) := by
  have hcreated : w.Untouched w.context.scopes.scopes.length there (materializer w).world := {
    length := (Namescopes.create_grows none none).length
    scopes := fun i hi _ =>
      (Namescopes.getElem?_create none none i).trans (if_neg (by omega))
    document := rfl
    sees := fun x _ => by
      simp [materializer, blank, World.setScopes, Namescopes.scopeOf_create]
    stays := Std.Refl.refl w.heap }
  rw [materialize_eq, endState_run]
  exact Trans.trans hcreated (steps_untouched hS habsent stream (.blank _ _ _)
    (services.materializer_apart w))

theorem materializeAll_untouched (streams : List (List Instruction)) :
    ∀ w : World σ, w.Untouched w.context.scopes.scopes.length there
      (services.materializeAll streams w) := by
  induction streams with
  | nil => exact fun w => Std.Refl.refl w
  | cons stream streams ih =>
    intro w
    have hfirst := materialize_untouched hS habsent stream w
    exact Trans.trans hfirst ((ih _).mono hfirst.length)

end

theorem materialize_duplicate {stream : List Instruction} {w w' : World σ} {name : String}
    (h : services.materialize stream w = .error (.namescope (.duplicateName name)) w') :
    ∃ pre post, stream = pre ++ .endObject :: post ∧
      services.EndsTwice name (pre ++ [.endObject]) := by
  rw [materialize_eq] at h
  obtain ⟨pre, post, m, rfl, hpre, hcloses⟩ := services.run_duplicate.1 ⟨w', h⟩
  obtain ⟨m', hfail⟩ := services.steps_duplicate.2 ⟨pre, post, m, rfl, hpre, hcloses⟩
  have hempty : ∀ s : ScopeId, w.context.scopes.scopes.length ≤ s.index →
      ∀ other ∈ (materializer w).world.context.scopes.names s, some other ∈ [] := by
    intro s hs other hother
    have hother : other ∈ (w.context.scopes.create none none).2.names s := hother
    rw [(Namescopes.create_grows none none).names, Namescopes.names,
      List.getElem?_eq_none hs] at hother
    cases hother
  exact steps_ended 0 (.blank _ _ _) (services.materializer_apart w) hempty hfail

/-- Runs of recorded streams stand apart from what was there and from each other, whether they
succeed or fail. -/
theorem materialize_apart (streams : List (List Instruction)) (w : World σ) :
    -- what was there is as it was, whatever the runs were
    (∀ i, i < w.context.scopes.scopes.length →
      (services.materializeAll streams w).context.scopes.scopes[i]? =
        w.context.scopes.scopes[i]?) ∧
    (services.materializeAll streams w).context.scopes.document = w.context.scopes.document ∧
    (∀ there, services.CallsLeave (Stays there) → services.MakesNew there →
      (∀ x, there w.heap x → (services.materializeAll streams w).context.scopes.scopeOf x =
        w.context.scopes.scopeOf x) ∧
      (w.Known there → ∀ x, w.context.scopes.Knows x →
        (services.materializeAll streams w).context.scopes.scopeOf x =
          w.context.scopes.scopeOf x)) ∧
    -- a further run meets only the names of its own stream
    ∀ stream name w', services.materialize stream (services.materializeAll streams w) =
        .error (.namescope (.duplicateName name)) w' →
      ∃ pre post, stream = pre ++ .endObject :: post ∧
        services.EndsTwice name (pre ++ [.endObject]) := by
  have huntouched := materializeAll_untouched services.callsLeave_none
    (fun _ _ _ _ _ _ => id) streams w
  refine ⟨fun i hi => huntouched.scopes i hi hi, huntouched.document, fun there hS hnew => ?_,
    fun stream name w' h => services.materialize_duplicate h⟩
  have hsees := (materializeAll_untouched hS
    (fun type arguments heap id heap' h => (hnew.activate type arguments heap id heap' h).1)
    streams w).sees
  exact ⟨hsees, fun hknown x hx => hsees x (hknown x hx)⟩

/-! ## Boxes -/

/-- The boxes that a heap has counted. -/
def countedBox (made : Nat) (id : ObjectId) : Prop := id.index < made

theorem boxes_callsLeave : boxes.CallsLeave (Stays countedBox) where
  activate _ _ _ _ hid := Nat.lt_succ_of_lt hid
  loader m loader hloader stream made id hid := by
    obtain ⟨e, he, rfl⟩ := Option.map_eq_some_iff.1 hloader
    obtain rfl := List.mem_singleton.1 (List.mem_of_find?_eq_some he)
    exact hid
  setMember _ _ _ _ _ hid := hid
  setAttached _ _ _ _ _ hid := hid
  append _ _ _ _ hid := hid
  provide _ _ _ _ hid := hid
  beginInit _ _ _ hid := hid
  endInit _ _ _ hid := hid

theorem boxes_makesNew : boxes.MakesNew countedBox :=
  boxes_callsLeave.makesNew fun type arguments made id made' h => by
    cases h
    exact ⟨Nat.lt_irrefl made, Nat.lt_succ_self made⟩

/-- A box called `Cell`. -/
def cellStream : List Instruction :=
  [.startObject { type := "Box", name := some "Cell" }, .endObject]

/-- A box that holds two boxes called `Cell`. -/
def twoCells : List Instruction :=
  [.startObject { type := "Box" }, .startMember { owner := "Box", name := "Content" }] ++
    cellStream ++ cellStream ++ [.endMember, .endObject]

/-- A document whose only object is called `Cell`. -/
def cellDocument : World Nat where
  heap := 1
  context := {
    scopes := {
      scopes := [{ names := [("Cell", ⟨0⟩)] }]
      entered := [(⟨0⟩, ⟨0⟩)]
      document := some ⟨0⟩ } }

/-- A cell is built twice beside a document that has one, and two cells in one stream collide. -/
theorem materialize_apart_cells :
    let w := boxes.materializeAll [cellStream, cellStream] cellDocument
    w.context.scopes.scopes.length = 3 ∧
    w.context.scopes.scopes[0]? = some { names := [("Cell", ⟨0⟩)] } ∧
    w.context.scopes.document = some ⟨0⟩ ∧ w.context.scopes.scopeOf ⟨0⟩ = some ⟨0⟩ ∧
    (∃ w', boxes.materialize twoCells w = .error (.namescope (.duplicateName "Cell")) w') ∧
    ∃ pre post, twoCells = pre ++ .endObject :: post ∧
      boxes.EndsTwice "Cell" (pre ++ [.endObject]) := by
  obtain ⟨hscopes, hdocument, hsees, htwice⟩ :=
    boxes.materialize_apart [cellStream, cellStream] cellDocument
  have hmade : (boxes.materializeAll [cellStream, cellStream]
      cellDocument).context.scopes.scopes.length = 3 := by decide +kernel
  have hfails : (match boxes.materialize twoCells
      (boxes.materializeAll [cellStream, cellStream] cellDocument) with
    | .ok _ _ => false
    | .error e _ => decide (e = .namescope (.duplicateName "Cell"))) = true := by decide +kernel
  have hold := (hsees countedBox boxes_callsLeave boxes_makesNew).1 ⟨0⟩ Nat.zero_lt_one
  split at hfails
  · cases hfails
  · next e w' hfail =>
    obtain rfl := of_decide_eq_true hfails
    exact ⟨hmade, hscopes 0 Nat.zero_lt_one, hdocument, hold, ⟨w', hfail⟩,
      htwice twoCells "Cell" w' hfail⟩

end Services
end ObjectMarkup
