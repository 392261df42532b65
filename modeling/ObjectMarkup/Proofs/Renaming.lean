/-
Widgets under other numbers.

A widget knows other objects by their numbers and does nothing with a number but to hand it on.
When all numbers are moved by the same distance, a heap of widgets therefore does what it did, and
the services of a catalogue of widgets respect the move (`Heap.respects_moved`).  A scripted widget
can hold any number from the beginning, and can be told to show the index of a scope, so that there
must be none.
-/
import ObjectMarkup.Proofs.Aftermath
import ObjectMarkup.Proofs.Parallel
import ObjectMarkup.Proofs.Replay
import ObjectMarkup.Proofs.Scopes
import ObjectMarkup.Widget.Loader

namespace ObjectMarkup

open List (Forall₂)

variable {d : Nat}

/-! ## Moving numbers -/

def ObjectId.moved (d : Nat) (id : ObjectId) : ObjectId := ⟨id.index + d⟩

def Handler.moved (d : Nat) (h : Handler) : Handler := { h with target := h.target.moved d }

mutual

def Value.moved (d : Nat) : Value → Value
  | .object id => .object (id.moved d)
  | .list vs => .list (Value.movedAll d vs)
  | .handler h => .handler (h.moved d)
  | v => v

def Value.movedAll (d : Nat) : List Value → List Value
  | [] => []
  | v :: vs => v.moved d :: Value.movedAll d vs

end

/-- The object has its number moved. -/
def IsMoved (d : Nat) (id id' : ObjectId) : Prop := id' = id.moved d

namespace Value

theorem movedAll_append (vs ws : List Value) :
    movedAll d (vs ++ ws) = movedAll d vs ++ movedAll d ws := by
  induction vs with
  | nil => rfl
  | cons v vs ih => simp [movedAll, ih]

theorem items_moved (v : Value) : (v.moved d).items = movedAll d v.items := by
  cases v <;> rfl

mutual

theorem like_moved : (v : Value) → v.Like (IsMoved d) (v.moved d)
  | .null => .null
  | .bool b => .bool b
  | .int n => .int n
  | .float x => .float x
  | .str s => .str s
  | .type name => .type name
  | .object _ => .object rfl
  | .list vs => .list (like_movedAll vs)
  | .handler ⟨_, _⟩ => .handler rfl

theorem like_movedAll : (vs : List Value) → Forall₂ (Like (IsMoved d)) vs (movedAll d vs)
  | [] => .nil
  | v :: vs => .cons (like_moved v) (like_movedAll vs)

end

mutual

theorem Like.eq_moved : {v v' : Value} → v.Like (IsMoved d) v' → v' = v.moved d
  | _, _, .null => rfl
  | _, _, .bool _ => rfl
  | _, _, .int _ => rfl
  | _, _, .float _ => rfl
  | _, _, .str _ => rfl
  | _, _, .type _ => rfl
  | _, _, .object h => congrArg Value.object h
  | _, _, .list hs => congrArg Value.list (Like.eq_movedAll hs)
  | _, _, .handler h => congrArg (fun id => Value.handler ⟨_, id⟩) h

theorem Like.eq_movedAll :
    {vs vs' : List Value} → Forall₂ (Like (IsMoved d)) vs vs' → vs' = movedAll d vs
  | _, _, .nil => rfl
  | _, _, .cons h hs => congrArg₂ List.cons (Like.eq_moved h) (Like.eq_movedAll hs)

end

end Value

namespace Widget

def attachedMoved (d : Nat) (a : AttachedValues) : AttachedValues :=
  ⟨a.entries.map fun e => (e.1, e.2.moved d)⟩

/-- The widget with the numbers moved that it holds.  A scripted widget stays as it is. -/
def moved (d : Nat) : Widget → Widget
  | window w => window { w with content := w.content.moved d }
  | testWindow w => testWindow { w with
      content := w.content.moved d, attached := attachedMoved d w.attached }
  | userControl w => userControl { w with content := w.content.moved d }
  | textBlock w => textBlock { w with attached := attachedMoved d w.attached }
  | button w => button { w with click := w.click.map (Handler.moved d) }
  | itemCollection w => itemCollection { w with items := Value.movedAll d w.items }
  | itemsControl w => itemsControl { w with
      items := w.items.moved d, template := w.template.map (ObjectId.moved d) }
  | grid w => grid { w with children := Value.movedAll d w.children }
  | collection w => collection { w with items := Value.movedAll d w.items }
  | dataTemplate content => dataTemplate (content.map (ObjectId.moved d))
  | w => w

def isScripted : Widget → Bool
  | scripted _ => true
  | _ => false

/-! ## What a widget does -/

section

variable {w : Widget}

theorem type_moved (w : Widget) : (w.moved d).type = w.type := by cases w <;> rfl
theorem listens_moved (w : Widget) : (w.moved d).listens = w.listens := by cases w <;> rfl
theorem provides_moved (w : Widget) : (w.moved d).provides = w.provides := by cases w <;> rfl

theorem handles_moved (name : String) (w : Widget) : (w.moved d).handles name = w.handles name := by
  cases w <;> rfl

theorem collects_moved (w : Widget) : (w.moved d).items?.isSome = w.items?.isSome := by
  cases w <;> rfl

theorem beginInit_moved (w : Widget) : (w.moved d).beginInit = w.beginInit.moved d := by
  cases w <;> rfl

theorem endInit_moved (w : Widget) : (w.moved d).endInit = w.endInit.moved d := by
  cases w <;> rfl

theorem textOf_moved (m : Member) (v : Value) : textOf m (v.moved d) = textOf m v := by
  cases v <;> rfl

theorem integerOf_moved (m : Member) (v : Value) : integerOf m (v.moved d) = integerOf m v := by
  cases v <;> rfl

theorem objectOf_moved (m : Member) (v : Value) :
    objectOf m (v.moved d) = (objectOf m v).map (ObjectId.moved d) := by
  cases v <;> rfl

theorem handlerOf_moved (m : Member) (v : Value) :
    handlerOf m (v.moved d) = (handlerOf m v).map (Handler.moved d) := by
  cases v <;> rfl

theorem map_map {ε α β γ : Type} (r : Except ε α) (f : α → β) (g : β → γ) :
    (r.map f).map g = r.map fun a => g (f a) := by
  cases r <;> rfl

theorem withMember_moved (hw : w.isScripted = false) (m : Member) (v : Value) :
    (w.moved d).withMember m (v.moved d) = (w.withMember m v).map (moved d) := by
  cases w with
  | scripted _ => cases hw
  | itemCollection _ | immutable _ | collectionExtension | parametrizedExtension _ | template _ =>
    rfl
  | _ =>
    simp only [moved, withMember, textOf_moved, integerOf_moved, objectOf_moved, handlerOf_moved,
      Value.items_moved]
    split <;> first | rfl | (simp only [map_map]; rfl)

theorem getMember_moved (hw : w.isScripted = false) (m : Member) :
    (w.moved d).getMember m = (w.getMember m).map (Value.moved d) := by
  cases w with
  | scripted _ => cases hw
  | window w | textBlock w | itemsControl w =>
    simp only [moved, getMember]
    split <;> first | rfl | (simp only [Option.map_map]; rfl)
  | _ => rfl

theorem setEntries_moved (m : Member) (v : Value) (es : List (Member × Value)) :
    AttachedValues.setEntries m (v.moved d) (es.map fun e => (e.1, e.2.moved d)) =
      (AttachedValues.setEntries m v es).map fun e => (e.1, e.2.moved d) := by
  induction es with
  | nil => rfl
  | cons e es ih =>
    simp only [List.map_cons, AttachedValues.setEntries]
    split
    · rfl
    · rw [ih, List.map_cons]

theorem set_moved (a : AttachedValues) (m : Member) (v : Value) :
    (attachedMoved d a).set m (v.moved d) = attachedMoved d (a.set m v) :=
  congrArg AttachedValues.mk (setEntries_moved m v a.entries)

/-- The outcome of an action of a widget, with the numbers moved. -/
def outcomeMoved {ε : Type} (d : Nat) :
    EStateM.Result ε Widget Unit → EStateM.Result ε Widget Unit
  | .ok _ w => .ok () (w.moved d)
  | .error e w => .error e (w.moved d)

theorem setMember_moved (hw : w.isScripted = false) (m : Member) (v : Value) :
    setMember m (v.moved d) (w.moved d) = outcomeMoved d (setMember m v w) := by
  have hfailure : (w.moved d).afterFailure m = (w.afterFailure m).moved d := by
    cases w with
    | setter w =>
      simp only [moved, afterFailure]
      split <;> rfl
    | _ => rfl
  rw [setMember, setMember, withMember_moved hw, hfailure]
  cases w.withMember m v <;> rfl

theorem setAttached_moved (hw : w.isScripted = false) (m : Member) (v : Value) :
    setAttached m (v.moved d) (w.moved d) = outcomeMoved d (setAttached m v w) := by
  cases w with
  | scripted _ => cases hw
  | testWindow w | textBlock w => simp only [moved, setAttached, set_moved, outcomeMoved]
  | _ => rfl

theorem append_moved (hw : w.isScripted = false) (v : Value) :
    append (v.moved d) (w.moved d) = outcomeMoved d (append v w) := by
  cases w with
  | scripted _ => cases hw
  | itemCollection w | collection w =>
    simp only [moved, append, Value.movedAll_append, Value.movedAll, outcomeMoved]
  | _ => rfl

/-! ## No script appears -/

open ObjectMarkup.Action (endState)

theorem withMember_unscripted (hw : w.isScripted = false) {m : Member} {v : Value} {w' : Widget}
    (h : w.withMember m v = .ok w') : w'.isScripted = false := by
  cases w with
  | scripted _ => cases hw
  | itemCollection _ | immutable _ | collectionExtension | parametrizedExtension _ | template _ =>
    cases h
  | _ =>
    simp only [withMember] at h
    split at h <;> first
      | (obtain ⟨_, -, rfl⟩ := Answer.map_eq_ok.1 h; rfl)
      | (cases h; rfl)
      | cases h

theorem setMember_unscripted (hw : w.isScripted = false) (m : Member) (v : Value) :
    (endState (setMember m v w)).isScripted = false := by
  rw [setMember]
  cases h : w.withMember m v with
  | ok w' => exact withMember_unscripted hw h
  | error e =>
    cases w with
    | scripted _ => cases hw
    | setter w =>
      simp only [endState, afterFailure]
      split <;> rfl
    | _ => rfl

theorem setAttached_unscripted (hw : w.isScripted = false) (m : Member) (v : Value) :
    (endState (setAttached m v w)).isScripted = false := by
  cases w with
  | scripted _ => cases hw
  | _ => rfl

theorem append_unscripted (hw : w.isScripted = false) (v : Value) :
    (endState (append v w)).isScripted = false := by
  cases w with
  | scripted _ => cases hw
  | _ => rfl

theorem beginInit_unscripted (hw : w.isScripted = false) : w.beginInit.isScripted = false := by
  cases w <;> first | rfl | cases hw

theorem endInit_unscripted (hw : w.isScripted = false) : w.endInit.isScripted = false := by
  cases w <;> first | rfl | cases hw

end

end Widget

/-! ## What an extension sees -/

namespace Provision.Like

variable {R : ObjectId → ObjectId → Prop} {k : Nat} {p p' : Provision}

theorem findName (h : p.Like R k p') (name : String) :
    Option.Rel R (p.findName name) (p'.findName name) := by
  rw [Provision.findName, Provision.findName, h.scope]
  cases p.scope with
  | none => exact .none
  | some s =>
    simp only [Option.map_some, Option.bind_some, Namescopes.findIn, ScopeId.shift]
    have hscope := h.context.scopes.scopes s.index
    generalize p.context.scopes.scopes[s.index]? = a at hscope ⊢
    generalize p'.context.scopes.scopes[s.index + k]? = a' at hscope ⊢
    cases hscope with
    | none => exact .none
    | some hlike => exact Namescopes.find?_like hlike.names name

theorem ambientValue (h : p.Like R k p') (name : String) :
    Option.Rel (Value.Like R) (p.ambientValue name) (p'.ambientValue name) := by
  rw [Provision.ambientValue, Provision.ambientValue, Ambient.lookup, Ambient.lookup]
  have hrecords := List.forall₂_reverse_iff.2 h.context.ambient
  generalize p.context.ambient.records.reverse = rs at hrecords ⊢
  generalize p'.context.ambient.records.reverse = rs' at hrecords ⊢
  induction hrecords with
  | nil => exact .none
  | @cons r r' _ _ hr _ ih =>
    rw [List.find?_cons, List.find?_cons, hr.member]
    split
    · exact .some hr.value
    · exact ih

end Provision.Like

/-- An extension without a script provides the same wherever it stands alike. -/
theorem Widget.provide_like {R : ObjectId → ObjectId → Prop} {k : Nat} {p p' : Provision}
    (hp : p.Like R k p') {w : Widget} (hw : w.isScripted = false) :
    (∃ v v', w.provide p = .ok v ∧ w.provide p' = .ok v' ∧ v.Like R v') ∨
      ∃ e, w.provide p = .error e ∧ w.provide p' = .error e := by
  cases w with
  | scripted _ => cases hw
  | simpleExtension property =>
    cases property with
    | none => exact .inr ⟨_, rfl, rfl⟩
    | some s => exact .inl ⟨_, _, rfl, rfl, .str s⟩
  | collectionExtension =>
    exact .inl ⟨_, _, rfl, rfl, .list (.cons (.str _) (.cons (.str _) (.cons (.str _) .nil)))⟩
  | parametrizedExtension s => exact .inl ⟨_, _, rfl, rfl, .str s⟩
  | reference target =>
    cases target with
    | none => exact .inr ⟨_, rfl, rfl⟩
    | some name =>
      have hfind := hp.findName name
      simp only [provide]
      generalize p.findName name = a at hfind ⊢
      generalize p'.findName name = a' at hfind ⊢
      cases hfind with
      | none => exact .inr ⟨_, rfl, rfl⟩
      | some hid => exact .inl ⟨_, _, rfl, rfl, .object hid⟩
  | ambientLookup member =>
    cases member with
    | none => exact .inl ⟨_, _, rfl, rfl, .null⟩
    | some name =>
      have hvalue := hp.ambientValue name
      simp only [provide, Option.bind_some]
      generalize p.ambientValue name = a at hvalue ⊢
      generalize p'.ambientValue name = a' at hvalue ⊢
      cases hvalue with
      | none => exact .inl ⟨_, _, rfl, rfl, .null⟩
      | some hv => exact .inl ⟨_, _, rfl, rfl, hv⟩
  | _ => exact .inl ⟨_, _, rfl, rfl, .null⟩

theorem Widget.provide_moved (p : Provision) (w : Widget) :
    (w.moved d).provide p = w.provide p := by
  cases w <;> rfl

namespace Heap

open ObjectMarkup.Action (Leaves endState)

/-! ## Heaps -/

/-- No widget follows a script. -/
def Unscripted (h : Heap) : Prop := ∀ id w, h.find? id = some w → w.isScripted = false

theorem lt_of_find? {h : Heap} {id : ObjectId} {w : Widget} (hfind : h.find? id = some w) :
    id.index < h.slots.size := by
  by_contra hlt
  simp [find?, Array.getElem?_eq_none (Nat.le_of_not_lt hlt)] at hfind

theorem find?_put {h : Heap} {id : ObjectId} {w : Widget} (hid : id.index < h.slots.size)
    (other : ObjectId) :
    (h.put id w).find? other = if other = id then some w else h.find? other := by
  split
  · next heq =>
    subst heq
    exact find?_put_self hid
  · next hne =>
    exact find?_put_of_ne h w fun heq => hne (by cases id; cases other; simp_all)

theorem find?_add (h : Heap) (w : Widget) (id : ObjectId) :
    (h.add w).2.find? id = if id = (h.add w).1 then some w else h.find? id := by
  split
  · next heq =>
    subst heq
    exact find?_add_self h w
  · next hne =>
    have hsize : id.index ≠ h.slots.size := fun heq => hne (by cases id; simp_all [add])
    simp only [find?, add, Array.getElem?_push, if_neg hsize]

theorem Unscripted.put {h : Heap} (hh : h.Unscripted) {id : ObjectId} {w : Widget}
    (hid : id.index < h.slots.size) (hw : w.isScripted = false) : (h.put id w).Unscripted := by
  intro other u hu
  rw [find?_put hid] at hu
  split at hu
  · exact Option.some.inj hu ▸ hw
  · exact hh other u hu

theorem Unscripted.add {h : Heap} (hh : h.Unscripted) {w : Widget} (hw : w.isScripted = false) :
    (h.add w).2.Unscripted := by
  intro other u hu
  rw [find?_add] at hu
  split at hu
  · exact Option.some.inj hu ▸ hw
  · exact hh other u hu

end Heap

namespace Widget

open ObjectMarkup.Action (Leaves endState)

/-! ## Constructors -/

/-- A widget that holds nothing. -/
structure IsBlank (w : Widget) : Prop where
  unscripted : w.isScripted = false
  moved : ∀ d, w.moved d = w
  items : w.items?.getD [] = []

/-- What constructors of the catalogue do: they fail, they make a widget that holds nothing, or they
make a control together with its items. -/
theorem activate_forall {Q : EStateM ActivationError Heap ObjectId → Prop}
    (hthrow : ∀ e, Q (throw e)) (hcreate : ∀ w : Widget, w.IsBlank → Q (create w))
    (hcontrol : Q createItemsControl) (type : TypeName) (arguments : List String) :
    Q (catalogue.activate type arguments) := by
  have hplain : ∀ w : Widget, w.IsBlank → ∀ arguments, Q ((plain w).2 arguments) :=
    fun w hw _ => hcreate w hw
  have htext : ∀ type make, (∀ s, (make s).IsBlank) → ∀ arguments,
      Q ((fromText type make).2 arguments) := fun type make hmake arguments => by
    cases arguments with
    | nil => exact hthrow _
    | cons s rest => exact hcreate _ (hmake s)
  have hall : ∀ d ∈ descriptors, ∀ c ∈ d.constructors, ∀ arguments, Q (c.2 arguments) := by
    simp only [descriptors, List.forall_mem_cons, List.not_mem_nil, false_implies, implies_true,
      and_true]
    and_intros <;> first
      | exact hplain _ ⟨rfl, fun _ => rfl, rfl⟩
      | exact htext _ _ fun _ => ⟨rfl, fun _ => rfl, rfl⟩
      | exact fun _ => hcontrol
  rw [Catalogue.activate]
  split
  · exact hthrow _
  · next d hd =>
    split
    · exact hthrow _
    · split
      · exact hthrow _
      · next make hmake =>
        obtain ⟨c, hc, rfl⟩ := Option.map_eq_some_iff.1 hmake
        exact hall d (List.mem_of_find?_eq_some hd) c (List.mem_of_find?_eq_some hc) arguments

/-- The widgets of the catalogue, with templates. -/
def templated (settings : Settings) : Services Heap :=
  { catalogue.services Heap.host settings with
    loaders := ⟨[(templateContent, templateLoader)]⟩ }

theorem templated_loader {settings : Settings} {m : Member} {loader : Loader Heap}
    (h : (templated settings).loaders.find? m = some loader) : loader = templateLoader := by
  obtain ⟨e, he, rfl⟩ := Option.map_eq_some_iff.1 h
  rw [List.mem_singleton.1 (List.mem_of_find?_eq_some he)]

/-! ## What calls leave -/

section

variable {S : Heap → Heap → Prop} [Std.Refl S] [Trans S S S]
variable (hadd : ∀ h w, w.isScripted = false → S h (h.add w).2)
variable (hput : ∀ h id w w', h.find? id = some w →
  (w.isScripted = false → w'.isScripted = false) → S h (h.put id w'))

omit [Trans S S S] in
include hput in
theorem act_leaves {ε : Type} (id : ObjectId) {f : EStateM ε Widget Unit}
    (hf : ∀ w : Widget, w.isScripted = false → (endState (f w)).isScripted = false) :
    Leaves S (Heap.act id f) := by
  intro h
  rw [Heap.act]
  cases hfind : h.find? id with
  | none => exact Std.Refl.refl h
  | some w =>
    have hw := hf w
    cases hact : f w with
    | ok _ w' | error e w' =>
      rw [hact] at hw
      simp only [hact]
      exact hput h id w w' hfind hw

omit [Trans S S S] in
include hput in
theorem change_leaves (id : ObjectId) {f : Widget → Widget}
    (hf : ∀ w : Widget, w.isScripted = false → (f w).isScripted = false) (h : Heap) :
    S h (Heap.change id f h) := by
  rw [Heap.change]
  cases hfind : h.find? id with
  | none => exact Std.Refl.refl h
  | some w => exact hput h id w (f w) hfind (hf w)

include hadd hput

/-- A relation that allows widgets without a script to be added and changed holds of every call. -/
theorem templated_callsLeave (settings : Settings) : (templated settings).CallsLeave S where
  activate := activate_forall .throw (fun w hw h => hadd h w hw.unscripted)
    (.bind (fun h => hadd h _ rfl) fun items h => hadd h _ rfl)
  loader m loader hloader stream h := by
    obtain rfl := templated_loader hloader
    rw [templateLoader]
    split
    · exact hadd h _ rfl
    · exact Std.Refl.refl h
  setMember id m v := act_leaves hput id fun w hw => setMember_unscripted hw m v
  setAttached id m v := act_leaves hput id fun w hw => setAttached_unscripted hw m v
  append id v := act_leaves hput id fun w hw => append_unscripted hw v
  provide id p h := by
    simp only [templated, Catalogue.services, Heap.host]
    split <;> exact Std.Refl.refl h
  beginInit id := change_leaves hput id fun _ => beginInit_unscripted
  endInit id := change_leaves hput id fun _ => endInit_unscripted

end

theorem templated_unscripted (settings : Settings) :
    (templated settings).CallsLeave (Keeps Heap.Unscripted) :=
  templated_callsLeave (fun _ _ hw hh => hh.add hw)
    (fun _ _ _ _ hfind hw hh => hh.put (Heap.lt_of_find? hfind) (hw (hh _ _ hfind))) settings

theorem templated_stays (settings : Settings) :
    (templated settings).CallsLeave (Stays Heap.Has) := by
  refine templated_callsLeave (fun h w _ id hid => ?_) (fun h id w w' _ _ other hother => ?_)
    settings
  · simp only [Heap.Has, Heap.add, Array.size_push] at hid ⊢
    omega
  · rw [Heap.Has, Heap.put_size]
    exact hother

theorem templated_makesNew (settings : Settings) : (templated settings).MakesNew Heap.Has := by
  refine (templated_stays settings).makesNew fun type arguments => ?_
  refine activate_forall (Q := fun make => ∀ h id h', make h = .ok id h' →
    ¬ h.Has id ∧ h'.Has id) ?_ ?_ ?_ type arguments
  · intro e h id h' hmake
    cases hmake
  · intro w _ h id h' hmake
    obtain ⟨habsent, hthere, -⟩ := Heap.create_adds w hmake
    exact ⟨habsent, hthere⟩
  · intro h id h' hmake
    obtain ⟨habsent, hthere, -⟩ := Heap.createItemsControl_adds [] h id h' hmake
    exact ⟨habsent, hthere⟩

theorem templated_indexBlind (settings : Settings) :
    (templated settings).IndexBlind Heap.Unscripted := by
  intro id k p p' h hh hp
  simp only [templated, Catalogue.services, Heap.host, Heap.ask]
  cases hfind : h.find? id with
  | none => rfl
  | some w =>
    rcases provide_like hp (hh id w hfind) with ⟨v, v', hv, hv', hlike⟩ | ⟨e, he, he'⟩
    · simp only [hv, hv', hlike.eq]
    · simp only [he, he']

end Widget

/-! ## Literals -/

theorem Literal.read_like {R : ObjectId → ObjectId → Prop} {target : ValueType} {s : String}
    {v : Value} (h : Literal.read target s = .ok v) : v.Like R v := by
  cases target with
  | any | string =>
    cases h
    exact .str s
  | integer =>
    simp only [read] at h
    split at h
    · cases h
      exact .int _
    · cases h
  | float =>
    simp only [read] at h
    split at h
    · cases h
      exact .float _
    · cases h
  | boolean =>
    simp only [read] at h
    split at h
    · cases h
      exact .bool _
    · cases h
  | type =>
    simp only [read] at h
    split at h
    · cases h
    · cases h
      exact .type _

/-- The value of a literal holds no object. -/
theorem Catalogue.convert_like {σ : Type} (c : Catalogue σ) {R : ObjectId → ObjectId → Prop}
    {m : Member} {s : String} {v : Value} (h : c.convert m s = .ok v) : v.Like R v := by
  rw [convert] at h
  split at h
  · split at h
    · cases h
      exact .type _
    · cases h
  · rw [Literal.convert] at h
    split at h
    · next hread =>
      cases h
      exact Literal.read_like hread
    · cases h

namespace Heap

/-! ## Heaps with moved numbers -/

/-- The second heap holds the widgets of the first with all numbers moved. -/
structure MovedTo (d : Nat) (h h' : Heap) : Prop where
  size : h'.slots.size = h.slots.size + d
  find : ∀ id : ObjectId, h'.find? (id.moved d) = (h.find? id).map (Widget.moved d)
  unscripted : h.Unscripted

theorem moved_inj {id id' : ObjectId} : id.moved d = id'.moved d ↔ id = id' := by
  refine ⟨fun h => ?_, fun h => h ▸ rfl⟩
  have hindex : id.index + d = id'.index + d := congrArg ObjectId.index h
  exact congrArg ObjectId.mk (Nat.add_right_cancel hindex)

namespace MovedTo

variable {h h' : Heap} {id : ObjectId} {w : Widget}

theorem put (hm : h.MovedTo d h') (hid : id.index < h.slots.size) (hw : w.isScripted = false) :
    (h.put id w).MovedTo d (h'.put (id.moved d) (w.moved d)) where
  size := by rw [put_size, put_size, hm.size]
  find other := by
    have hid' : (id.moved d).index < h'.slots.size := by
      rw [hm.size]
      exact Nat.add_lt_add_right hid d
    rw [find?_put hid, find?_put hid', hm.find]
    simp only [moved_inj]
    split <;> rfl
  unscripted := hm.unscripted.put hid hw

theorem add (hm : h.MovedTo d h') (hw : w.isScripted = false) :
    (h.add w).2.MovedTo d (h'.add (w.moved d)).2 ∧
      (h'.add (w.moved d)).1 = (h.add w).1.moved d := by
  have hid : (h'.add (w.moved d)).1 = (h.add w).1.moved d := congrArg ObjectId.mk hm.size
  refine ⟨{ size := ?_, find := fun other => ?_, unscripted := hm.unscripted.add hw }, hid⟩
  · simp only [Heap.add, Array.size_push, hm.size]
    omega
  · rw [find?_add, find?_add, hid, hm.find]
    simp only [moved_inj]
    split <;> rfl

theorem ask {α : Type} (hm : h.MovedTo d h') (id : ObjectId) (missing : α) {f : Widget → α}
    (hf : ∀ w : Widget, f (w.moved d) = f w) :
    h'.ask (id.moved d) missing f = h.ask id missing f := by
  rw [Heap.ask, Heap.ask, hm.find]
  cases h.find? id with
  | none => rfl
  | some w => exact hf w

theorem change (hm : h.MovedTo d h') (id : ObjectId) {f : Widget → Widget}
    (hf : ∀ w : Widget, (f (w.moved d)) = (f w).moved d)
    (hplain : ∀ w : Widget, w.isScripted = false → (f w).isScripted = false) :
    (Heap.change id f h).MovedTo d (Heap.change (id.moved d) f h') := by
  rw [Heap.change, Heap.change, hm.find]
  cases hfind : h.find? id with
  | none => exact hm
  | some w =>
    simp only [Option.map_some, hf]
    exact hm.put (lt_of_find? hfind) (hplain w (hm.unscripted id w hfind))

end MovedTo

/-- Heaps belong together when the numbers in the second are moved by `d`. -/
def moving (d : Nat) : Likeness Unit Heap where
  le _ _ := True
  refl _ := trivial
  trans _ _ := trivial
  states _ := MovedTo d
  pairs _ := IsMoved d
  pairs_later _ _ _ h := h
  oneToOne _ a a' b b' h h' := by
    obtain rfl : a' = a.moved d := h
    obtain rfl : b' = b.moved d := h'
    exact moved_inj.symm

open ObjectMarkup.Action (endState)

theorem act_alike {ε : Type} {f f' : EStateM ε Widget Unit} (id : ObjectId)
    (hf : ∀ w : Widget, w.isScripted = false → f' (w.moved d) = Widget.outcomeMoved d (f w))
    (hplain : ∀ w : Widget, w.isScripted = false → (endState (f w)).isScripted = false) :
    (moving d).Alike () (fun _ _ _ => True) (act id f) (act (id.moved d) f') := by
  rintro ⟨⟩ - h h' (hm : h.MovedTo d h')
  rw [act, act, hm.find]
  cases hfind : h.find? id with
  | none => exact .ok (j := ()) trivial trivial hm
  | some w =>
    have hw := hm.unscripted id w hfind
    have hplain := hplain w hw
    simp only [Option.map_some, hf w hw]
    cases hact : f w with
    | ok _ w' =>
      rw [hact] at hplain
      exact .ok (j := ()) trivial trivial (hm.put (lt_of_find? hfind) hplain)
    | error e w' =>
      rw [hact] at hplain
      exact .error (j := ()) trivial (hm.put (lt_of_find? hfind) hplain)

theorem create_alike {w w' : Widget} (hw : w.isScripted = false) (hmoved : w' = w.moved d) :
    (moving d).Alike () (moving d).pairs (Widget.create w) (Widget.create w') := by
  rintro ⟨⟩ - h h' (hm : h.MovedTo d h')
  obtain ⟨hadded, hid⟩ := hm.add hw
  subst hmoved
  exact .ok (j := ()) trivial hid hadded

/-- Widgets without scripts do the same under other numbers. -/
theorem respects_moved (settings : Settings) :
    (Widget.templated settings).Respects (moving d) where
  typeOf := by
    rintro ⟨⟩ h h' id _ hm ⟨⟩
    exact hm.ask id _ Widget.type_moved
  getMember := by
    rintro ⟨⟩ h h' id _ hm ⟨⟩ m
    simp only [Widget.templated, Catalogue.services, host, ask, hm.find]
    cases hfind : h.find? id with
    | none => exact .none
    | some w =>
      simp only [Option.map_some, Widget.getMember_moved (hm.unscripted id w hfind)]
      cases w.getMember m with
      | none => exact .none
      | some v => exact .some v.like_moved
  collects := by
    rintro ⟨⟩ h h' id _ hm ⟨⟩
    exact hm.ask id _ Widget.collects_moved
  listens := by
    rintro ⟨⟩ h h' id _ hm ⟨⟩
    exact hm.ask id _ Widget.listens_moved
  provides := by
    rintro ⟨⟩ h h' id _ hm ⟨⟩
    exact hm.ask id _ Widget.provides_moved
  handles := by
    rintro ⟨⟩ h h' id _ hm ⟨⟩ name
    exact hm.ask id _ (Widget.handles_moved name)
  activate _ := Widget.activate_forall
    (Q := fun make => (moving d).Alike () (moving d).pairs make make) .throw
    (fun w hw => create_alike hw.unscripted (hw.moved d).symm)
    (.bind (create_alike rfl rfl) fun _ items items' _ hitems => create_alike rfl (by
      obtain rfl : items' = items.moved d := hitems
      rfl))
  setMember := by
    rintro ⟨⟩ id _ v v' ⟨⟩ hv m
    obtain rfl := hv.eq_moved
    exact act_alike id (fun w hw => Widget.setMember_moved hw m v)
      fun w hw => Widget.setMember_unscripted hw m v
  setAttached := by
    rintro ⟨⟩ id _ v v' ⟨⟩ hv m
    obtain rfl := hv.eq_moved
    exact act_alike id (fun w hw => Widget.setAttached_moved hw m v)
      fun w hw => Widget.setAttached_unscripted hw m v
  append := by
    rintro ⟨⟩ id _ v v' ⟨⟩ hv
    obtain rfl := hv.eq_moved
    exact act_alike id (fun w hw => Widget.append_moved hw v)
      fun w hw => Widget.append_unscripted hw v
  beginInit := by
    rintro ⟨⟩ h h' id _ hm ⟨⟩
    exact ⟨(), trivial, hm.change id Widget.beginInit_moved fun _ => Widget.beginInit_unscripted⟩
  endInit := by
    rintro ⟨⟩ h h' id _ hm ⟨⟩
    exact ⟨(), trivial, hm.change id Widget.endInit_moved fun _ => Widget.endInit_unscripted⟩
  provide := by
    rintro ⟨⟩ id _ k p p' ⟨⟩ hp ⟨⟩ - h h' (hm : h.MovedTo d h')
    simp only [Widget.templated, Catalogue.services, host, ask, hm.find]
    cases hfind : h.find? id with
    | none => exact .ok (j := ()) trivial .null hm
    | some w =>
      simp only [Option.map_some, Widget.provide_moved]
      rcases Widget.provide_like hp (hm.unscripted id w hfind) with
        ⟨v, v', hv, hv', hlike⟩ | ⟨e, he, he'⟩
      · simp only [hv, hv']
        exact .ok (j := ()) trivial hlike hm
      · simp only [he, he']
        exact .error (j := ()) trivial hm
  convert _ _ _ _ h := Widget.catalogue.convert_like h
  loader := by
    rintro ⟨⟩ m loader hloader stream ⟨⟩ - h h' (hm : h.MovedTo d h')
    obtain rfl := Widget.templated_loader hloader
    rw [Widget.templateLoader, Widget.templateLoader]
    split
    · obtain ⟨hadded, hid⟩ := hm.add (w := .template stream) rfl
      exact .ok (j := ()) trivial (.object hid) hadded
    · exact .error (j := ()) trivial hm

end Heap
end ObjectMarkup
