/-
Names under a placeholder.

A placeholder stands for an object that was there before, and sees what the object sees in whose
member it stands, even where its own object owns a scope.  The names of the objects under it
therefore go to the scope around it.  The main theorem, `placeholder_names`, says where such a name
is found, and that a scope which no open object sees gets no names any more.

Of the open objects only their outlooks matter (`Outlook`).  `Does.shifts` lists what an instruction
does to these, and the invariant of a run, that an object which opens no scope sees what the object
below it sees (`Services.Inherits`), is kept by each of the ways in the list.
-/
import Mathlib.Data.List.Chain
import ObjectMarkup.Proofs.FirstObject

namespace ObjectMarkup

variable {σ : Type}

open ObjectMarkup.Action (Leaves)
open Machine (blank)

/-! ## The names that are added -/

/-- The names `added` were given to objects, and nothing else happened to the scopes that were
there, except that objects entered them. -/
def World.Gains (added : List Registration) (w w' : World σ) : Prop :=
  w.context.scopes.Grows (fun _ => False) added w'.context.scopes

namespace World.Gains

variable {added more : List Registration} {w w' w'' : World σ}

instance : Std.Refl (World.Gains (σ := σ) []) := ⟨fun w => .refl w.context.scopes⟩

instance : Trans (World.Gains (σ := σ) []) (World.Gains (σ := σ) []) (World.Gains (σ := σ) []) :=
  ⟨fun h h' => h.trans h'⟩

theorem admits : World.Admits (fun _ _ : σ => True) (World.Gains []) :=
  ⟨fun w _ _ => .refl w.context.scopes, fun w _ => .refl w.context.scopes⟩

theorem findIn_of_forall_ne (h : w.Gains added w') {s : ScopeId} (hs : ∀ r ∈ added, r.scope ≠ s)
    (name : String) : w'.context.scopes.findIn s name = w.context.scopes.findIn s name := by
  have hnone : Registration.entriesIn s added = [] := by
    rw [List.eq_nil_iff_forall_not_mem]
    intro e he
    obtain ⟨r, hr, hscope, -⟩ := Registration.mem_entriesIn.1 he
    exact hs r hr hscope
  rw [Namescopes.findIn_eq, Namescopes.findIn_eq, h.entries, hnone, List.append_nil]

end World.Gains

namespace Services

section

variable (services : Services σ)

theorem objectOf_gains (m : Machine σ) (top : Frame) :
    Leaves (World.Gains []) (services.objectOf m top) := by
  rw [objectOf]
  split
  · exact .pure _
  · refine make_leaves services.callsLeave_any World.Gains.admits fun _ _ _ _ w' h => ?_
    exact h.trans ((services.settle_grows _ _ _ _ _).mono fun _ hx => hx.elim)

theorem valueOf_gains (type : TypeName) (site : Site) (target root : Option ObjectId)
    (member : Option Member) :
    Leaves (World.Gains []) (services.valueOf type site target root member) :=
  valueOf_leaves services.callsLeave_any World.Gains.admits type site target root member

theorem onHeap_gains {ε α : Type} (wrap : ε → Error) (act : EStateM ε σ α) :
    Leaves (World.Gains []) (Build.onHeap wrap act) :=
  Build.onHeap_leaves World.Gains.admits wrap fun _ => trivial

theorem commit_gains (target : ObjectId) (collects : Bool) (m : Member) (vs : List Value)
    (retrieved : Option Value) :
    Leaves (World.Gains []) (services.commit target collects m vs retrieved) :=
  .bind (onHeap_gains _ _) fun _ => .update fun w =>
    (Namescopes.Grows.refl w.context.scopes : w.Gains [] _)

variable {services}

theorem mem_naming {type : TypeName} {name : Option String} {site : Site}
    {outside : Option (Option ScopeId)} {r : Registration}
    (h : r ∈ services.naming type name site outside) :
    services.nameScope type site outside = some r.scope := by
  cases name with
  | none => cases h
  | some name =>
    unfold naming at h
    generalize services.nameScope type site outside = scope at h ⊢
    cases scope with
    | none => cases h
    | some scope =>
      obtain rfl := List.mem_singleton.1 h
      rfl

/-- The end of an object adds its name, and no other. -/
theorem complete_gains {type : TypeName} {name : Option String} {site : Site}
    {outside : Option (Option ScopeId)} {w w' : World σ}
    (h : services.complete type name site outside w = .ok () w') :
    w.Gains (services.naming type name site outside) w' := by
  have hregister : ∀ {w : World σ},
      register name (services.nameScope type site outside) site.object w = .ok () w' →
        w.Gains (services.naming type name site outside) w' := by
    intro w h
    unfold naming
    cases name with
    | none =>
      cases h
      exact .refl _
    | some name =>
      generalize services.nameScope type site outside = scope at h
      cases scope with
      | none =>
        cases h
        exact .refl _
      | some scope =>
        simp only [register, Action.bind_apply, Action.get_apply] at h
        cases hns : w.context.scopes.register scope name site.object with
        | error e => simp [hns] at h
        | ok ns =>
          simp only [hns] at h
          cases h
          exact (Namescopes.register_grows hns).mono fun _ _ => trivial
  rw [complete_eq] at h
  split at h
  · obtain ⟨told, w₁, htold, h⟩ := (Action.bind_eq_ok w).1 h
    have hsilent : w.Gains [] w₁ := (Build.always_leaves
      (notifyCreated_leaves services.callsLeave_any World.Gains.admits site.object)).of_ok htold
    exact hsilent.trans (hregister h)
  · exact hregister h

end

end Services

/-! ## Outlooks -/

/-- What of an open object decides where names go. -/
structure Outlook where
  type : TypeName
  isPlaceholder : Bool
  scope : Option ScopeId

def Frame.outlook (f : Frame) : Outlook := ⟨f.type, f.isPlaceholder, f.scope⟩

namespace Machine

/-- The outlooks of the open objects, innermost first. -/
def outlooks (m : Machine σ) : List Outlook := m.stack.map Frame.outlook

variable {m : Machine σ} {top : Frame} {rest : List Frame}

theorem outlooks_of_stack (hs : m.stack = top :: rest) :
    m.outlooks = top.outlook :: rest.map Frame.outlook := by
  rw [outlooks, hs, List.map_cons]

theorem outlooks_mapTop {f : Frame → Frame} (hf : ∀ top, (f top).outlook = top.outlook)
    (m : Machine σ) : (m.mapTop f).outlooks = m.outlooks := m.map_mapTop hf

@[simp] theorem outlooks_inWorld (w : World σ) : (m.inWorld w).outlooks = m.outlooks := rfl

@[simp] theorem outlooks_withRecording (r : Option (Recording σ)) :
    (m.withRecording r).outlooks = m.outlooks := rfl

@[simp] theorem outlooks_openObject (frame : Frame) :
    (m.openObject frame).outlooks = frame.outlook :: m.outlooks := rfl

@[simp] theorem outlooks_push (v : Value) : (m.push v).outlooks = m.outlooks :=
  outlooks_mapTop (f := Frame.receive [v]) (fun _ => rfl) m

@[simp] theorem outlooks_retrieve (v : Value) : (m.retrieve v).outlooks = m.outlooks :=
  outlooks_mapTop (f := Frame.retrieve v) (fun _ => rfl) m

@[simp] theorem outlooks_closeMember : m.closeMember.outlooks = m.outlooks :=
  outlooks_mapTop (f := Frame.closeMember) (fun _ => rfl) m

@[simp] theorem outlooks_openMember (member : Member) (loader : Option (Loader σ)) :
    (m.openMember member loader).outlooks = m.outlooks := by
  have hopen : (m.mapTop (Frame.openMember member)).outlooks = m.outlooks :=
    outlooks_mapTop (f := Frame.openMember member) (fun _ => rfl) m
  cases loader <;> exact hopen

theorem outlooks_setSite (hs : m.stack = top :: rest) (site : Site) :
    (m.setSite site).outlooks =
      { top.outlook with scope := some site.scope } :: rest.map Frame.outlook :=
  outlooks_of_stack (m.mapTop_stack _ hs)

theorem outlooks_close (m : Machine σ) : m.close.outlooks = m.outlooks.tail := by
  simp [outlooks, close, List.map_tail]

theorem mem_outlooks {o : Outlook} : o ∈ m.outlooks ↔ ∃ f ∈ m.stack, f.outlook = o :=
  List.mem_map

/-- The objects around the innermost one are there. -/
theorem Sound.scope_below {maxDepth : Nat} (hm : m.Sound maxDepth) {o : Outlook}
    (ho : o ∈ m.outlooks.tail) : ∃ s, o.scope = some s := by
  rw [outlooks, ← List.map_tail, List.mem_map] at ho
  obtain ⟨f, hf, rfl⟩ := ho
  obtain ⟨site, hsite⟩ := hm.site_below hf
  exact ⟨site.scope, by simp [Frame.outlook, Frame.scope, hsite]⟩

/-- A placeholder stands in a member of an object that is there. -/
theorem Sound.around_placeholder {maxDepth : Nat} (hm : m.Sound maxDepth) {f : Frame}
    {inner below : List Frame} (hs : m.stack = inner ++ f :: below)
    (hf : f.isPlaceholder = true) :
    ∃ g rest s, below = g :: rest ∧ g.scope = some s ∧ ∃ x, m.first = some x := by
  cases below with
  | nil => simp [hm.bottom f (by simp [hs])] at hf
  | cons g rest =>
    have hg : g ∈ m.stack.tail := by
      rw [hs]
      cases inner <;> simp
    obtain ⟨s, hscope⟩ := hm.scope_below (o := g.outlook) (by
      rw [outlooks, ← List.map_tail]
      exact List.mem_map_of_mem hg)
    refine ⟨g, rest, s, rfl, hscope, ?_⟩
    cases inner with
    | nil => exact hm.first_of_inner hs
    | cons top inner =>
      obtain ⟨parent, rest', hrest⟩ := List.exists_cons_of_ne_nil
        (List.append_ne_nil_of_right_ne_nil inner (List.cons_ne_nil f (g :: rest)))
      exact hm.first_of_inner (hs.trans (congrArg (top :: ·) hrest))

end Machine

namespace Services

open Machine

section

variable (services : Services σ)

/-- An object that opens no scope: one that is entered again, or whose type opens none. -/
def Passes (o : Outlook) : Prop :=
  o.isPlaceholder = true ∨ (services.schema.traits o.type).namescope = false

/-- An object that opens no scope sees what the object below it sees, once it is there. -/
def Inherits (o below : Outlook) : Prop :=
  services.Passes o → o.scope.isSome = true → o.scope = below.scope

/-- What an instruction does to the outlooks, `length` scopes being there before it. -/
inductive Shifts (length : Nat) : List Outlook → List Outlook → Prop
  | same {os : List Outlook} : Shifts length os os
  /-- an object starts that is not there yet -/
  | starts {os : List Outlook} {o : Outlook} : o.scope = none → Shifts length os (o :: os)
  | supplied {o : Outlook} : Shifts length [] [o]
  | enters {top o : Outlook} {os : List Outlook} : o.scope = top.scope →
      Shifts length (top :: os) (o :: top :: os)
  | first {top : Outlook} {s : ScopeId} : top.scope = none →
      Shifts length [top] [{ top with scope := some s }]
  /-- an object is made inside another one -/
  | makes {top below : Outlook} {os : List Outlook} {s : ScopeId} : top.isPlaceholder = false →
      (length ≤ s.index ∧ (services.schema.traits top.type).namescope = true ∨
        below.scope = some s) →
      Shifts length (top :: below :: os) ({ top with scope := some s } :: below :: os)
  | ends {top : Outlook} {os : List Outlook} : Shifts length (top :: os) os

variable {services} {m m' : Machine σ} {top parent : Frame} {rest : List Frame} {i : Instruction}
  {site : Site} {w w' : World σ}

/-- An object that is made in another one sees a new scope, which its type opens, or the scope
around it. -/
theorem make_scope {around : ScopeId} {type : TypeName} {arguments : List String}
    (h : services.make (some around) type arguments w = .ok site w') :
    (w.context.scopes.scopes.length ≤ site.scope.index ∧
      (services.schema.traits type).namescope = true) ∨ site.scope = around := by
  rw [make_eq] at h
  obtain ⟨id, w₁, hconstruct, hadopt⟩ := (Action.bind_eq_ok w).1 h
  obtain ⟨-, collects, rfl⟩ := services.adopt_ok hadopt
  rw [services.construct_scopes hconstruct]
  cases hopens : services.opensScope type false with
  | true =>
    rw [settle_of_opens _ _ _ _ _ _ hopens]
    exact .inl ⟨Nat.le_refl _, by simpa [opensScope] using hopens⟩
  | false =>
    rw [settle_of_not_opens _ _ _ _ _ _ hopens]
    exact .inr rfl

/-- The object of the innermost frame was there, or is made now. -/
theorem objectOf_scope {around : ScopeId} (hs : m.stack = top :: parent :: rest)
    (haround : parent.scope = some around)
    (h : services.objectOf m top m.world = .ok site w) :
    top.scope = some site.scope ∨ (top.site = none ∧
      ((m.world.context.scopes.scopes.length ≤ site.scope.index ∧
        (services.schema.traits top.type).namescope = true) ∨ site.scope = around)) := by
  cases hsite : top.site with
  | some found =>
    simp only [objectOf, hsite, Action.pure_apply, EStateM.Result.ok.injEq] at h
    exact .inl (by simp [Frame.scope, hsite, h.1])
  | none =>
    have hparent : m.around = some around := by simp [Machine.around, Machine.parent, hs, haround]
    simp only [objectOf, hsite, hparent] at h
    exact .inr ⟨rfl, make_scope h⟩

theorem setSite_shifts (hm : m.Sound services.settings.maxDepth) (hs : m.stack = top :: rest)
    (hobject : services.objectOf m top m.world = .ok site w) :
    services.Shifts m.world.context.scopes.scopes.length m.outlooks (m.setSite site).outlooks := by
  cases hsite : top.site with
  | some found =>
    simp only [objectOf, hsite, Action.pure_apply, EStateM.Result.ok.injEq] at hobject
    rw [← hobject.1, setSite_eq_self hs hsite]
    exact .same
  | none =>
    have hnone : top.scope = none := by simp [Frame.scope, hsite]
    rw [outlooks_setSite hs, outlooks_of_stack hs]
    cases rest with
    | nil => exact .first hnone
    | cons parent rest =>
      obtain ⟨around, haround⟩ := hm.scope_below (o := parent.outlook)
        (by simp [outlooks_of_stack hs])
      have hp : top.isPlaceholder = false := by
        rw [Bool.eq_false_iff]
        intro hp
        simpa [hsite] using (hm.frames top (by simp [hs])).site_of_placeholder hp
      refine .makes hp ?_
      rcases objectOf_scope hs haround hobject with h | ⟨-, h | h⟩
      · simp [hnone] at h
      · exact .inl h
      · exact .inr (h ▸ haround)

theorem Does.shifts (hm : m.Sound services.settings.maxDepth) (h : services.Does m i m') :
    services.Shifts m.world.context.scopes.scopes.length m.outlooks m'.outlooks := by
  cases h with
  | startObject _ _ _ _ => exact .starts rfl
  | startSupplied _ hs _ _ _ _ =>
    simp only [outlooks_inWorld, outlooks_openObject]
    simp only [outlooks, hs, List.map_nil]
    exact .supplied
  | getObject _ hs _ hsite _ _ =>
    simp only [outlooks_openObject, outlooks_retrieve]
    rw [outlooks_of_stack hs]
    exact .enters (by simp [Frame.outlook, Frame.scope, placeholder, hsite])
  | startMember _ hs _ hobject _ =>
    simp only [outlooks_openMember, outlooks_inWorld]
    exact setSite_shifts hm hs hobject
  | value _ _ _ _ => simpa using .same
  | endMember _ _ _ _ _ => simpa using .same
  | leave _ hs _ _ =>
    rw [outlooks_close, outlooks_of_stack hs]
    exact .ends
  | endInner _ hs _ _ _ _ _ =>
    simp only [outlooks_inWorld, outlooks_push]
    rw [outlooks_close, outlooks_of_stack hs]
    exact .ends
  | endRoot _ hs _ _ _ _ =>
    show services.Shifts _ m.outlooks m.close.outlooks
    rw [outlooks_close, outlooks_of_stack hs]
    exact .ends
  | record _ _ => exact .same
  | handOver _ _ _ _ _ _ => simpa using .same

/-! ## What an open object sees -/

variable {length : Nat} {os os' : List Outlook}

/-- Objects that open no scope go on seeing what the objects below them see. -/
theorem Shifts.inherits (h : services.Shifts length os os') (hos : os.IsChain services.Inherits) :
    os'.IsChain services.Inherits := by
  cases h with
  | same => exact hos
  | @starts _ o hnone =>
    refine hos.cons fun below _ _ hthere => ?_
    simp [hnone] at hthere
  | supplied => exact .singleton _
  | enters heq => exact hos.cons_cons fun _ _ => heq
  | first _ => exact .singleton _
  | @makes top below os s hp hscope =>
    obtain ⟨-, hbelow⟩ := List.isChain_cons_cons.1 hos
    refine hbelow.cons_cons fun hpasses _ => ?_
    rcases hpasses with hpasses | hpasses
    · simp [hp] at hpasses
    · rcases hscope with ⟨-, hopens⟩ | hscope
      · simp [hpasses] at hopens
      · exact hscope.symm
  | ends => exact hos.tail

/-- Under a row of objects that open no scope each of them sees what the object below the row
sees. -/
theorem scope_of_passes {above below : List Outlook} {o g : Outlook}
    (h : (above ++ g :: below).IsChain services.Inherits)
    (hpasses : ∀ o ∈ above, services.Passes o) (hthere : ∀ o ∈ above, o.scope.isSome = true)
    (ho : o ∈ above) : o.scope = g.scope := by
  induction above generalizing o with
  | nil => cases ho
  | cons head above ih =>
    have hinner : ∀ o ∈ above, o.scope = g.scope := fun _ =>
      ih h.tail (fun o ho => hpasses o (List.mem_cons_of_mem _ ho))
        (fun o ho => hthere o (List.mem_cons_of_mem _ ho))
    rcases List.mem_cons.1 ho with rfl | ho
    · have hpass := hpasses o List.mem_cons_self
      have hsome := hthere o List.mem_cons_self
      cases above with
      | nil => exact (List.isChain_cons_cons.1 h).1 hpass hsome
      | cons next above =>
        exact ((List.isChain_cons_cons.1 h).1 hpass hsome).trans (hinner next List.mem_cons_self)
    · exact hinner o ho

/-- In a row of open objects that open no scope each sees what the object below the row sees. -/
theorem scope_in_row (hchain : m.outlooks.IsChain services.Inherits) {above row below : List Frame}
    {f g : Frame} (hs : m.stack = above ++ (row ++ g :: below))
    (hpasses : ∀ o ∈ row, services.Passes o.outlook) (hthere : ∀ o ∈ row, o.site.isSome = true)
    (hf : f ∈ row) : f.scope = g.scope := by
  have hmap : m.outlooks = above.map Frame.outlook ++
      (row.map Frame.outlook ++ g.outlook :: below.map Frame.outlook) := by
    simp [outlooks, hs]
  rw [hmap] at hchain
  refine scope_of_passes (o := f.outlook) hchain.right_of_append (fun o ho => ?_) (fun o ho => ?_)
    (List.mem_map_of_mem hf)
  · obtain ⟨frame, hframe, rfl⟩ := List.mem_map.1 ho
    exact hpasses frame hframe
  · obtain ⟨frame, hframe, rfl⟩ := List.mem_map.1 ho
    obtain ⟨site, hsite⟩ := Option.isSome_iff_exists.1 (hthere frame hframe)
    simp [Frame.outlook, Frame.scope, hsite]

/-- The object at the top stands in one that sees what the object below a row of placeholders and of
objects that open no scope sees. -/
theorem parent_of_row (hm : m.Sound services.settings.maxDepth)
    (hchain : m.outlooks.IsChain services.Inherits) {top g : Frame} {row below : List Frame}
    (hs : m.stack = top :: (row ++ g :: below)) (hrow : row ≠ [])
    (hpasses : ∀ o ∈ row, services.Passes o.outlook) :
    ∃ parent rest, m.stack = top :: parent :: rest ∧ parent.scope = g.scope := by
  obtain ⟨parent, above, rfl⟩ := List.exists_cons_of_ne_nil hrow
  refine ⟨parent, above ++ g :: below, hs, ?_⟩
  have htop : m.stack = [top] ++ ((parent :: above) ++ g :: below) := hs
  refine scope_in_row hchain htop hpasses (fun o ho => ?_) List.mem_cons_self
  refine Option.isSome_iff_exists.2 (hm.site_below ?_)
  rw [hs, List.tail_cons]
  exact List.mem_append_left _ ho

/-- An open object sees what an open object saw before, or a new scope, once the object at the
bottom is there. -/
theorem Shifts.sees (h : services.Shifts length os os') {bottom : Outlook}
    (hbottom : os.getLast? = some bottom) (hthere : bottom.scope.isSome = true) {o : Outlook}
    (ho : o ∈ os') {s : ScopeId} (hs : o.scope = some s) :
    (∃ o ∈ os, o.scope = some s) ∨ length ≤ s.index := by
  cases h with
  | same => exact .inl ⟨o, ho, hs⟩
  | starts hnone =>
    rcases List.mem_cons.1 ho with rfl | ho
    · simp [hnone] at hs
    · exact .inl ⟨o, ho, hs⟩
  | supplied => cases hbottom
  | enters heq =>
    rcases List.mem_cons.1 ho with rfl | ho
    · exact .inl ⟨_, List.mem_cons_self, heq.symm.trans hs⟩
    · exact .inl ⟨o, ho, hs⟩
  | first hnone =>
    obtain rfl := Option.some.inj hbottom
    simp [hnone] at hthere
  | @makes top below os s' _ hscope =>
    rcases List.mem_cons.1 ho with rfl | ho
    · obtain rfl : s' = s := Option.some.inj hs
      exact hscope.elim (fun hnew => .inr hnew.1) fun hbelow =>
        .inl ⟨below, List.mem_cons_of_mem _ List.mem_cons_self, hbelow⟩
    · exact .inl ⟨o, List.mem_cons_of_mem _ ho, hs⟩
  | ends => exact .inl ⟨o, List.mem_cons_of_mem _ ho, hs⟩

/-! ## Where names go -/

/-- Once the first object is there, an instruction is carried out only while something is open, and
what is at the bottom is that object. -/
theorem Does.bottom (hm : m.Sound services.settings.maxDepth) (h : services.Does m i m')
    {x : ObjectId} (hfirst : m.first = some x) :
    ∃ bottom, m.outlooks.getLast? = some bottom ∧ bottom.scope.isSome = true := by
  have hopen : m.stack ≠ [] := by
    intro hs
    have hclosed : m.rootClosed = true := by
      by_contra hclosed
      exact hm.open_of_first hfirst (by simpa using hclosed) hs
    cases h with
    | startObject _ hf _ _ => simp [entryFault, hs, hclosed] at hf
    | startSupplied _ _ hopen _ _ _ => simp [hclosed] at hopen
    | record hr _ => simp [hm.recording_of_empty hs] at hr
    | handOver hr _ _ _ _ _ => simp [hm.recording_of_empty hs] at hr
    | _ => simp_all
  obtain ⟨top, rest, hs⟩ := List.exists_cons_of_ne_nil hopen
  rw [first_of_cons hs, root] at hfirst
  obtain ⟨f, hlast, hobject⟩ := Option.bind_eq_some_iff.1 hfirst
  refine ⟨f.outlook, by simp [outlooks, hlast], ?_⟩
  rw [Frame.object, Option.map_eq_some_iff] at hobject
  obtain ⟨site, hsite, -⟩ := hobject
  simp [Frame.outlook, Frame.scope, hsite]

/-- The end of an object that stands in another one adds its name, and no other. -/
theorem endInner_gains {v : Value} {w'' : World σ}
    (hobject : services.objectOf m top m.world = .ok site w)
    (hcomplete : services.complete top.type top.name site (some parent.scope) w = .ok () w')
    (hvalue : services.valueOf top.type site parent.object m.root parent.member w' = .ok v w'') :
    m.world.Gains (services.naming top.type top.name site (some parent.scope)) w'' := by
  have hmade : m.world.Gains [] w := (services.objectOf_gains m top).of_ok hobject
  have hnamed : m.world.Gains (services.naming top.type top.name site (some parent.scope)) w' :=
    hmade.trans (complete_gains hcomplete)
  have hvalued : w'.Gains [] w'' := (services.valueOf_gains _ _ _ _ _).of_ok hvalue
  exact List.append_nil (services.naming top.type top.name site (some parent.scope)) ▸
    Namescopes.Grows.trans hnamed hvalued

/-- An instruction adds names to scopes that an open object sees, once the first object is
there. -/
theorem Does.gains (hm : m.Sound services.settings.maxDepth) (h : services.Does m i m') :
    ∃ added, m.world.Gains added m'.world ∧ ∀ x, m.first = some x →
      ∀ r ∈ added, ∃ o ∈ m.outlooks, o.scope = some r.scope := by
  have silent : m.world.Gains [] m'.world → ∃ added, m.world.Gains added m'.world ∧
      ∀ x, m.first = some x → ∀ r ∈ added, ∃ o ∈ m.outlooks, o.scope = some r.scope :=
    fun h => ⟨[], h, fun _ _ r hr => by cases hr⟩
  have same : m.world.Gains [] m.world := Std.Refl.refl m.world
  cases h with
  | startObject _ _ _ _ => exact silent same
  | startSupplied _ _ _ _ _ hadopt =>
    obtain ⟨rfl, -⟩ := services.adopt_ok hadopt
    exact silent ((services.settle_grows _ _ _ _ _).mono fun _ hx => hx.elim)
  | getObject _ _ _ _ _ _ => exact silent (by simpa [Machine.retrieve] using same)
  | startMember _ _ _ hobject _ =>
    exact silent (by simpa using (services.objectOf_gains m _).of_ok hobject)
  | value _ _ _ hread =>
    refine silent ?_
    rw [(Build.ofExcept_eq_ok hread).2]
    exact same
  | endMember _ _ _ _ hcommit => exact silent ((services.commit_gains _ _ _ _ _).of_ok hcommit)
  | leave _ _ _ _ => exact silent same
  | @endInner top parent rest site v w w' w'' hr hs _ _ hobject hcomplete hvalue =>
    refine ⟨_, endInner_gains hobject hcomplete hvalue, fun x _ r hmem => ?_⟩
    have hscope := mem_naming hmem
    obtain ⟨around, haround⟩ :=
      hm.scope_below (o := parent.outlook) (by simp [outlooks_of_stack hs])
    have htop : top.outlook ∈ m.outlooks := by simp [outlooks_of_stack hs]
    have hparent : parent.outlook ∈ m.outlooks := by simp [outlooks_of_stack hs]
    rw [nameScope] at hscope
    split at hscope
    · exact ⟨_, hparent, hscope⟩
    · next hinherits =>
      rcases objectOf_scope hs haround hobject with h | ⟨-, ⟨-, hopens⟩ | h⟩
      · exact ⟨_, htop, h.trans hscope⟩
      · exact absurd hopens hinherits
      · exact ⟨_, hparent, (haround.trans (congrArg some h.symm)).trans hscope⟩
  | @endRoot top site w w' hr hs _ _ hobject hcomplete =>
    have hmade : m.world.Gains [] w := (services.objectOf_gains m top).of_ok hobject
    refine ⟨_, hmade.trans (complete_gains hcomplete), fun x hfirst r hmem => ?_⟩
    have hscope : site.scope = r.scope := Option.some.inj (mem_naming hmem)
    rw [first_of_cons hs, root_of_single hs, Frame.object, Option.map_eq_some_iff] at hfirst
    obtain ⟨found, hsite, -⟩ := hfirst
    simp only [objectOf, hsite, Action.pure_apply, EStateM.Result.ok.injEq] at hobject
    exact ⟨top.outlook, by simp [outlooks_of_stack hs],
      by simp [Frame.outlook, Frame.scope, hsite, hobject.1, hscope]⟩
  | record _ _ => exact silent same
  | handOver _ _ _ _ hload hcommit =>
    exact silent (((onHeap_gains _ _).of_ok hload).trans
      ((services.commit_gains _ _ _ _ _).of_ok hcommit))

/-- A scope that is there, and that no open object sees. -/
structure Hidden (s : ScopeId) (m : Machine σ) : Prop where
  there : s.index < m.world.context.scopes.scopes.length
  unseen : ∀ o ∈ m.outlooks, o.scope ≠ some s

/-- What no open object sees stays so, and gets no name. -/
theorem Does.hidden (hm : m.Sound services.settings.maxDepth) (h : services.Does m i m')
    {x : ObjectId} (hfirst : m.first = some x) {s : ScopeId} (hs : Hidden s m) :
    Hidden s m' ∧ ∀ name, m'.world.context.scopes.findIn s name =
      m.world.context.scopes.findIn s name := by
  obtain ⟨bottom, hbottom, hthere⟩ := h.bottom hm hfirst
  obtain ⟨added, hgains, hseen⟩ := h.gains hm
  refine ⟨⟨Nat.lt_of_lt_of_le hs.there hgains.length, fun o ho heq => ?_⟩,
    hgains.findIn_of_forall_ne fun r hr heq => ?_⟩
  · rcases (h.shifts hm).sees hbottom hthere ho heq with ⟨o', ho', heq'⟩ | hnew
    · exact hs.unseen o' ho' heq'
    · exact Nat.not_lt.2 hnew hs.there
  · obtain ⟨o, ho, hscope⟩ := hseen x hfirst r hr
    exact hs.unseen o ho (heq ▸ hscope)

/-- A scope that no open object sees gets no names any more. -/
theorem findIn_of_hidden (hm : m.Sound services.settings.maxDepth) {x : ObjectId}
    (hfirst : m.first = some x) {s : ScopeId} (hs : Hidden s m) {later : List Instruction}
    (h : services.steps later m = .ok () m') (name : String) :
    m'.world.context.scopes.findIn s name = m.world.context.scopes.findIn s name := by
  have hkept : Hidden s m' ∧ m'.first = some x ∧ ∀ name,
      m'.world.context.scopes.findIn s name = m.world.context.scopes.findIn s name := by
    refine services.steps_invariant (P := fun m' => Hidden s m' ∧ m'.first = some x ∧ ∀ name,
      m'.world.context.scopes.findIn s name = m.world.context.scopes.findIn s name)
      (fun hm hdoes ⟨hhidden, hfirst, hfind⟩ => ?_) hm h ⟨hs, hfirst, fun _ => rfl⟩
    obtain ⟨hhidden, hsame⟩ := hdoes.hidden hm hfirst hhidden
    exact ⟨hhidden, hdoes.first hm hfirst, fun name => (hsame name).trans (hfind name)⟩
  exact hkept.2.2 name

/-- A name stays with its object. -/
theorem findIn_later (hm : m.Sound services.settings.maxDepth) {s : ScopeId} {name : String}
    {x : ObjectId} (hfind : m.world.context.scopes.findIn s name = some x)
    {later : List Instruction} (h : services.steps later m = .ok () m') :
    m'.world.context.scopes.findIn s name = some x := by
  refine services.steps_invariant (P := fun m => m.world.context.scopes.findIn s name = some x)
    (fun hm hdoes hfind => ?_) hm h hfind
  obtain ⟨added, hgains, -⟩ := hdoes.gains hm
  exact hgains.findIn_of_findIn hfind

/-- An object that opens no scope and stands in another one sees what that one sees. -/
theorem objectOf_sees (hm : m.Sound services.settings.maxDepth)
    (hchain : m.outlooks.IsChain services.Inherits) (hs : m.stack = top :: parent :: rest)
    (hopens : (services.schema.traits top.type).namescope = false)
    (hobject : services.objectOf m top m.world = .ok site w) :
    parent.scope = some site.scope := by
  obtain ⟨around, haround⟩ := hm.scope_below (o := parent.outlook) (by simp [outlooks_of_stack hs])
  have haround : parent.scope = some around := haround
  rcases objectOf_scope hs haround hobject with h | ⟨-, ⟨-, hnew⟩ | h⟩
  · rw [outlooks_of_stack hs, List.map_cons, List.isChain_cons_cons] at hchain
    have hsees : top.scope = parent.scope :=
      hchain.1 (.inr hopens) (by simp [Frame.outlook, h])
    exact hsees.symm.trans h
  · simp [hopens] at hnew
  · rw [haround, h]

/-- A named object that opens no scope and stands in another one gets its name in the scope around
it, when it ends. -/
theorem endObject_named (hm : m.Sound services.settings.maxDepth) (hr : m.recording = none)
    (hchain : m.outlooks.IsChain services.Inherits) (hs : m.stack = top :: parent :: rest)
    (hp : top.isPlaceholder = false) (hopens : (services.schema.traits top.type).namescope = false)
    {name : String} (hname : top.name = some name)
    (h : services.step .endObject m = .ok () m') :
    ∃ s x, parent.scope = some s ∧ (∀ site, top.site = some site → site.object = x) ∧
      m.world.Gains [⟨s, name, x⟩] m'.world := by
  have hdoes : services.Does m .endObject m' := step_does hm h
  cases hdoes with
  | leave _ hs' _ hp' =>
    obtain ⟨rfl, -⟩ := List.cons.inj (hs.symm.trans hs')
    simp [hp] at hp'
  | @endInner top' parent' rest' site v w w' w'' _ hs' _ _ hobject hcomplete hvalue =>
    obtain ⟨rfl, hrest⟩ := List.cons.inj (hs.symm.trans hs')
    obtain ⟨rfl, rfl⟩ := List.cons.inj hrest
    obtain ⟨around, haround⟩ :=
      hm.scope_below (o := parent.outlook) (by simp [outlooks_of_stack hs])
    have haround : parent.scope = some around := haround
    have hscope : site.scope = around :=
      Option.some.inj ((objectOf_sees hm hchain hs hopens hobject).symm.trans haround)
    refine ⟨around, site.object, haround, fun found hsite => ?_, ?_⟩
    · simp only [objectOf, hsite, Action.pure_apply, EStateM.Result.ok.injEq] at hobject
      rw [hobject.1]
    · have hgains := endInner_gains hobject hcomplete hvalue
      have hnaming : services.naming top.type top.name site (some parent.scope) =
          [⟨around, name, site.object⟩] := by
        simp [naming, nameScope, hname, hopens, hscope]
      exact hnaming ▸ hgains
  | endRoot _ hs' _ _ _ _ => cases hs.symm.trans hs'
  | record hr' _ => simp [hr] at hr'

end

/-- In a run that has come to a machine where a placeholder `f` is open, with the objects of `inner`
open in it: the placeholder sees the scope that the object `g` sees in whose member it stands.

Where the objects of `inner` are placeholders or open no scope, that is the scope in which the
innermost of them gets its name, for the rest of the run, and no other scope changes.  A scope that
no open object sees, such as one that the object of the placeholder owns, gets no names any more. -/
theorem placeholder_names (services : Services σ) {w : World σ} {root : Option ObjectId}
    {base : Option ScopeId} {pre : List Instruction} {m : Machine σ}
    (hpre : services.steps pre (blank w root base) = .ok () m) {inner below : List Frame}
    {f : Frame} (hs : m.stack = inner ++ f :: below) (hf : f.isPlaceholder = true) :
    ∃ g rest s, below = g :: rest ∧ g.scope = some s ∧ f.scope = some s ∧
      (∀ top between name m', inner = top :: between → m.recording = none →
        top.isPlaceholder = false → (services.schema.traits top.type).namescope = false →
        (∀ o ∈ between, services.Passes o.outlook) → top.name = some name →
        services.step .endObject m = .ok () m' →
          ∃ x, (∀ site, top.site = some site → site.object = x) ∧
            (∀ later m'', services.steps later m' = .ok () m'' →
              m''.world.context.scopes.findIn s name = some x) ∧
            ∀ other n, other ≠ s → m'.world.context.scopes.findIn other n =
              m.world.context.scopes.findIn other n) ∧
      ∀ own : ScopeId, own.index < m.world.context.scopes.scopes.length →
        (∀ o ∈ m.stack, o.scope ≠ some own) →
        ∀ later m', services.steps later m = .ok () m' →
          ∀ n, m'.world.context.scopes.findIn own n = m.world.context.scopes.findIn own n := by
  have h₀ : (blank w root base).Sound services.settings.maxDepth := .blank _ _ _
  have hm := steps_sound h₀ hpre
  have hchain : m.outlooks.IsChain services.Inherits :=
    services.steps_invariant (fun hm hdoes hchain => (hdoes.shifts hm).inherits hchain) h₀ hpre .nil
  obtain ⟨g, rest, s, rfl, hg, hfirst⟩ := hm.around_placeholder hs hf
  have hthere : f.site.isSome = true := (hm.frames f (by simp [hs])).site_of_placeholder hf
  have hfsees : f.scope = g.scope := by
    have hrow : m.stack = inner ++ ([f] ++ g :: rest) := hs
    exact scope_in_row hchain hrow (fun o ho => List.mem_singleton.1 ho ▸ .inl hf)
      (fun o ho => List.mem_singleton.1 ho ▸ hthere) List.mem_cons_self
  refine ⟨g, rest, s, rfl, hg, hfsees.trans hg, ?_, ?_⟩
  · intro top between name m' hinner hr hp hopens hbetween hname hend
    have hstack : m.stack = top :: ((between ++ [f]) ++ g :: rest) := by simp [hs, hinner]
    obtain ⟨parent, above, hs, hparent⟩ := parent_of_row hm hchain hstack
      (List.append_ne_nil_of_right_ne_nil between (List.cons_ne_nil f [])) fun o ho => by
        rcases List.mem_append.1 ho with ho | ho
        · exact hbetween o ho
        · exact List.mem_singleton.1 ho ▸ .inl hf
    obtain ⟨s', x, hs', hx, hgains⟩ := endObject_named hm hr hchain hs hp hopens hname hend
    obtain rfl : s' = s := Option.some.inj (hs'.symm.trans (hparent.trans hg))
    refine ⟨x, hx, fun later m'' hlater => ?_, fun other n hother => ?_⟩
    · have hdoes : services.Does m .endObject m' := step_does hm hend
      exact findIn_later (hdoes.sound hm) (hgains.findIn _ (List.mem_singleton_self _)) hlater
    · refine hgains.findIn_of_forall_ne (fun r hr => ?_) n
      rw [List.mem_singleton.1 hr]
      exact hother.symm
  · intro own hown hunseen later m' hlater n
    obtain ⟨x, hfirst⟩ := hfirst
    refine findIn_of_hidden hm hfirst ⟨hown, fun o ho => ?_⟩ hlater n
    obtain ⟨frame, hframe, rfl⟩ := mem_outlooks.1 ho
    exact hunseen frame hframe

end Services

/-- A control is put into a window and entered again, and a named text is started in it. -/
def Widget.entered : List Instruction :=
  [.startObject { type := "Window" },
    .startMember (contentMember "Window"), .startObject { type := "UserControl" }, .endObject,
    .endMember,
    .startMember (contentMember "Window"), .getObject, .startMember (contentMember "UserControl"),
    .startObject { type := "TextBlock", name := some "inner" }]

namespace Services

/-- What follows, the scope of the control gets no names. -/
theorem placeholder_names_entered :
    ∃ m, (Widget.catalogue.services Heap.host {}).steps Widget.entered
        (blank { heap := {} } none none) = .ok () m ∧
      m.world.context.scopes.scopeOf ⟨1⟩ = some ⟨1⟩ ∧
      ∀ later m', (Widget.catalogue.services Heap.host {}).steps later m = .ok () m' →
        ∀ n, m'.world.context.scopes.findIn ⟨1⟩ n = m.world.context.scopes.findIn ⟨1⟩ n := by
  have hok : (match (Widget.catalogue.services Heap.host {}).steps Widget.entered
        (blank { heap := {} } none none) with
      | .ok _ m => decide (m.stack.map (fun f => (f.isPlaceholder, f.scope)) =
          [(false, none), (true, some ⟨0⟩), (false, some ⟨0⟩)] ∧
          m.world.context.scopes.scopes.length = 2 ∧
          m.world.context.scopes.scopeOf ⟨1⟩ = some ⟨1⟩)
      | .error _ _ => false) = true := by decide +kernel
  split at hok
  · next m hm =>
    obtain ⟨hstack, hlength, hsees⟩ := of_decide_eq_true hok
    obtain ⟨top, _, hs, htop, hstack⟩ := List.map_eq_cons_iff.1 hstack
    obtain ⟨f, _, rfl, hf, hstack⟩ := List.map_eq_cons_iff.1 hstack
    obtain ⟨g, _, rfl, hg, hstack⟩ := List.map_eq_cons_iff.1 hstack
    obtain rfl := List.map_eq_nil_iff.1 hstack
    have hinner : m.stack = [top] ++ f :: [g] := hs
    obtain ⟨_, _, _, -, -, -, -, hhidden⟩ :=
      placeholder_names _ hm hinner (congrArg Prod.fst hf)
    refine ⟨m, hm, hsees, hhidden ⟨1⟩ (by rw [hlength]; decide) fun o ho => ?_⟩
    rw [hs] at ho
    simp only [List.mem_cons, List.not_mem_nil, or_false] at ho
    rcases ho with rfl | rfl | rfl
    · simp [(Prod.mk.inj htop).2]
    · simp [(Prod.mk.inj hf).2]
    · simp [(Prod.mk.inj hg).2]
  · cases hok

/-- The text that is named inside the control is not found from the control, which owns a scope, but
from the window. -/
theorem placeholder_outside_entered :
    ∃ m w', (Widget.catalogue.services Heap.host {}).steps Widget.entered
        (blank { heap := {} } none none) = .ok () m ∧
      (m.stack.map fun f => (f.object, f.isPlaceholder)) =
        [(none, false), (some ⟨1⟩, true), (some ⟨0⟩, false)] ∧
      m.world.context.scopes.ownerOf ⟨1⟩ = some ⟨1⟩ ∧
      (Widget.catalogue.services Heap.host {}).run
        (Widget.entered ++ [.endObject, .endMember, .endObject, .endMember, .endObject]) none none
        { heap := {} } = .ok ⟨0⟩ w' ∧
      w'.context.scopes.find "inner" ⟨1⟩ = none ∧
      w'.context.scopes.find "inner" ⟨0⟩ = some ⟨2⟩ := by
  have hsteps : (match (Widget.catalogue.services Heap.host {}).steps Widget.entered
        (blank { heap := {} } none none) with
      | .ok _ m => decide ((m.stack.map fun f => (f.object, f.isPlaceholder)) =
          [(none, false), (some ⟨1⟩, true), (some ⟨0⟩, false)] ∧
          m.world.context.scopes.ownerOf ⟨1⟩ = some ⟨1⟩)
      | .error _ _ => false) = true := by decide +kernel
  have hrun : (match (Widget.catalogue.services Heap.host {}).run
        (Widget.entered ++ [.endObject, .endMember, .endObject, .endMember, .endObject]) none none
        { heap := {} } with
      | .ok id w' => decide (id = ⟨0⟩ ∧ w'.context.scopes.find "inner" ⟨1⟩ = none ∧
          w'.context.scopes.find "inner" ⟨0⟩ = some ⟨2⟩)
      | .error _ _ => false) = true := by decide +kernel
  split at hsteps
  · next m hm =>
    split at hrun
    · next id w' hw =>
      obtain ⟨hstack, howner⟩ := of_decide_eq_true hsteps
      obtain ⟨rfl, hcontrol, hwindow⟩ := of_decide_eq_true hrun
      exact ⟨m, w', hm, hstack, howner, hw, hcontrol, hwindow⟩
    · cases hrun
  · cases hsteps

end Services
end ObjectMarkup
